import Verbatus.Ink.Levels

namespace Verbatus.Ink

open Library.Checked

section Pixels

/-- One pixel of a page, by its place. -/
structure Pixel where
  x : ℕ
  y : ℕ
  value : ℕ

variable (page : Page)

/-- The pixels of one scanline. -/
def rowPixels (y : ℕ) (row : List UInt8) : List Pixel :=
  row.zipIdx.map fun (value, x) => ⟨x, y, value.toNat⟩

def Page.pixels : List Pixel := page.rows.zipIdx.flatMap fun (row, y) => rowPixels y row

theorem rowPixels_values (y : ℕ) (row : List UInt8) :
    (rowPixels y row).map Pixel.value = row.map UInt8.toNat := by
  rw [rowPixels, List.map_map]
  have first : Pixel.value ∘ (fun entry : UInt8 × ℕ => (⟨entry.2, y, entry.1.toNat⟩ : Pixel)) =
    UInt8.toNat ∘ Prod.fst := rfl
  rw [first, ← List.map_map, List.zipIdx_map_fst]

theorem Page.pixels_values : page.pixels.map Pixel.value = page.values := by
  rw [pixels, List.map_flatMap, values, List.map_flatten]
  have each : (fun entry : List UInt8 × ℕ => (rowPixels entry.2 entry.1).map Pixel.value) =
      (List.map UInt8.toNat) ∘ Prod.fst := by
    funext entry
    exact rowPixels_values entry.2 entry.1
  rw [each, List.flatMap_def, ← List.map_map, List.zipIdx_map_fst]

/-- A stretch of a list is what stands at the places of the stretch. -/
theorem slice_eq_filter {α : Type} (elements : List α) (start stop offset : ℕ) :
    (elements.take stop).drop start = ((elements.zipIdx offset).filter fun entry =>
      offset + start ≤ entry.2 ∧ entry.2 < offset + stop).map Prod.fst := by
  induction elements generalizing start stop offset with
  | nil => simp
  | cons element elements ih =>
      have later (first last : ℕ) : ((elements.zipIdx (offset + 1)).filter fun entry =>
            offset + first ≤ entry.2 ∧ entry.2 < offset + last) =
          (elements.zipIdx (offset + 1)).filter fun entry =>
            offset + 1 + (first - 1) ≤ entry.2 ∧ entry.2 < offset + 1 + (last - 1) := by
        refine List.filter_congr fun entry listed => ?_
        have place := List.le_snd_of_mem_zipIdx listed
        simp only [decide_eq_decide]
        omega
      rw [List.zipIdx_cons, List.filter_cons]
      cases stop with
      | zero =>
          have none : (elements.zipIdx (offset + 1)).filter (fun entry =>
              offset + start ≤ entry.2 ∧ entry.2 < offset + 0) = [] := by
            refine List.filter_eq_nil_iff.mpr fun entry listed => ?_
            have place := List.le_snd_of_mem_zipIdx listed
            simp only [decide_eq_true_eq]
            omega
          rw [if_neg (by simp), none]
          simp
      | succ stop =>
          cases start with
          | zero =>
              rw [if_pos (by simp), List.map_cons, later, ← ih]
              rfl
          | succ start =>
              rw [if_neg (by simp), later, ← ih]
              rfl

/-- Where a page's interior lies, inside a band along each edge. -/
def Interior (policy : BackgroundPolicy) (page : Page) (pixel : Pixel) : Prop :=
  (policy.bandPxX ≤ pixel.x ∧ pixel.x < page.width - policy.bandPxX) ∧
    policy.bandPxY ≤ pixel.y ∧ pixel.y < page.height - policy.bandPxY

instance (policy : BackgroundPolicy) (page : Page) (pixel : Pixel) :
    Decidable (Interior policy page pixel) := inferInstanceAs (Decidable ((_ ∧ _) ∧ _ ∧ _))

def Pixel.Dark (level : ℤ) (pixel : Pixel) : Prop := pixel.value ≤ level

instance (level : ℤ) (pixel : Pixel) : Decidable (pixel.Dark level) :=
  inferInstanceAs (Decidable ((pixel.value : ℤ) ≤ level))

theorem Page.atOrBelow_pixels (level : ℤ) :
    page.atOrBelow level = page.pixels.countP fun pixel => pixel.Dark level := by
  rw [atOrBelow, ← page.pixels_values, List.countP_map]
  rfl

theorem sum_map_filter {α : Type} (weight : α → ℕ) (counted : α → Bool) (elements : List α)
    (none : ∀ element ∈ elements, counted element = false → weight element = 0) :
    ((elements.filter counted).map weight).sum = (elements.map weight).sum := by
  induction elements with
  | nil => rfl
  | cons element elements ih =>
      obtain ⟨here, later⟩ := List.forall_mem_cons.mp none
      rw [List.filter_cons, List.map_cons, List.sum_cons]
      cases count : counted element with
      | true => rw [if_pos rfl, List.map_cons, List.sum_cons, ih later]
      | false => rw [if_neg (by simp), ih later, here count, Nat.zero_add]

variable {page} {policy : BackgroundPolicy}

theorem interior_row {y : ℕ} (row : List UInt8) (level : ℤ) (band : 0 ≤ policy.bandPxX)
    (inside : policy.bandPxY ≤ y ∧ (y : ℤ) < page.height - policy.bandPxY) :
    (rowPixels y row).countP (fun pixel => pixel.Dark level ∧ Interior policy page pixel) =
      ((row.take (page.width - policy.bandPxX).toNat).drop policy.bandPxX.toNat).countP
        fun value => value.toNat ≤ level := by
  rw [slice_eq_filter row _ _ 0, rowPixels, List.countP_map, List.countP_map, List.countP_filter]
  refine List.countP_congr fun entry _ => ?_
  simp only [Function.comp_apply, Pixel.Dark, Interior, Bool.and_eq_true, decide_eq_true_eq, inside,
    and_true]
  refine and_congr_right fun _ => ?_
  omega

/-- The dark pixels of the interior, as the page's scanlines are sampled for them. -/
theorem interior_count (page : Page) (policy : BackgroundPolicy) (level : ℤ) (bandX : 0 ≤ policy.bandPxX) (bandY : 0 ≤ policy.bandPxY) :
    page.pixels.countP (fun pixel => pixel.Dark level ∧ Interior policy page pixel) =
      (((page.rows.take (page.height - policy.bandPxY).toNat).drop policy.bandPxY.toNat).map
        fun row => ((row.take (page.width - policy.bandPxX).toNat).drop
          policy.bandPxX.toNat).countP fun value => value.toNat ≤ level).sum := by
  rw [slice_eq_filter page.rows _ _ 0, List.map_map, Page.pixels, List.countP_flatMap]
  rw [← sum_map_filter _ (fun entry : List UInt8 × ℕ => decide (0 + policy.bandPxY.toNat ≤ entry.2 ∧
    entry.2 < 0 + (page.height - policy.bandPxY).toNat))]
  · refine congrArg List.sum (List.map_congr_left fun entry listed => ?_)
    have place := List.of_mem_filter listed
    rw [decide_eq_true_eq] at place
    exact interior_row entry.1 level bandX (by omega)
  · intro entry _ outside
    rw [decide_eq_false_iff_not] at outside
    rw [Function.comp_apply, List.countP_eq_zero]
    intro pixel listed
    obtain ⟨origin, -, rfl⟩ := List.mem_map.mp listed
    rw [decide_eq_true_eq]
    rintro ⟨-, -, above, below⟩
    dsimp only at above below
    omega

end Pixels

section Modes

variable (page : Page)

/-- The first of a page's most common values from one value to another. -/
structure Mode (page : Page) (low high value : ℕ) : Prop where
  above : low ≤ value
  below : value ≤ high
  most : ∀ other, low ≤ other → other ≤ high → page.occurrences other ≤ page.occurrences value
  first : ∀ other, low ≤ other → other < value → page.occurrences other < page.occurrences value

theorem mode_firstMaximum {low high : ℕ} (order : low ≤ high) (small : high < 256) :
    Mode page low high (firstMaximum (fun value => (histogram page).getD value 0) low
      (List.range' (low + 1) (high - low))) := by
  obtain ⟨listed, most, first⟩ := firstMaximum_range'
    (fun value => (histogram page).getD value 0) low (high - low)
  generalize firstMaximum _ low _ = best at *
  simp only [List.mem_range'_1] at listed most first
  have counted {value : ℕ} (within : value ≤ high) := histogram_getD page (within.trans_lt small)
  rw [counted (by omega)] at most first
  refine ⟨listed.1, by omega, fun other above below => ?_, fun other above before => ?_⟩
  · rw [← counted below]
    exact most other (by omega)
  · rw [← counted (by omega)]
    exact first other (by omega) before

theorem Page.mean_lt : page.mean < 256 := by
  have small : page.values.sum ≤ page.values.length * 255 :=
    List.sum_le_card_nsmul _ _ fun value listed => Nat.le_of_lt_succ (page.values_lt listed)
  rw [page.length_values] at small
  rw [mean, Nat.div_lt_iff_lt_mul page.counted_pos]
  have pos := page.counted_pos
  omega

variable {page}

/-- The one value that is a page's most common and no darker than its mean is its paper's. -/
theorem Mode.paper {low background paper : ℕ} (whole : Mode page 0 255 background)
    (light : low ≤ background) (upper : Mode page low 255 paper) : background = paper := by
  rcases Nat.lt_trichotomy background paper with before | same | before
  · have more := upper.first background light before
    have fewer := whole.most paper (Nat.zero_le _) upper.below
    omega
  · exact same
  · have more := whole.first paper (Nat.zero_le _) before
    have fewer := upper.most background light whole.below
    omega

end Modes

section Evidence

/-- What the interior-mode branch records of a page's dark pixels. -/
structure DarkDistributionEvidence.MeasuredOn (dark : DarkDistributionEvidence) (page : Page)
    (policy : BackgroundPolicy) (threshold : ℤ) : Prop where
  subset : ∀ pixel ∈ page.pixels, pixel.Dark dark.darkAtOrBelow → pixel.Dark threshold
  total : dark.darkPixelCount = page.pixels.countP fun pixel => pixel.Dark dark.darkAtOrBelow
  border : dark.borderDarkPixelCount = page.pixels.countP fun pixel =>
    pixel.Dark dark.darkAtOrBelow ∧ ¬ Interior policy page pixel
  interior : dark.darkPixelCount = dark.borderDarkPixelCount + page.pixels.countP fun pixel =>
    pixel.Dark dark.darkAtOrBelow ∧ Interior policy page pixel
  interiorBp : dark.interiorDarkBp = (page.pixels.countP fun pixel =>
      pixel.Dark dark.darkAtOrBelow ∧ Interior policy page pixel) * basisPoints /
    ((page.width - 2 * policy.bandPxX) * (page.height - 2 * policy.bandPxY))
  bounded : dark.interiorDarkBp ≤ policy.maxInteriorDarkBp

/-- What an inferred background is of its page. -/
structure BackgroundEvidence.MeasuredOn (evidence : BackgroundEvidence) (page : Page)
    (policy : BackgroundPolicy) : Prop where
  order : evidence.darkMode ≤ page.mean ∧ page.mean ≤ evidence.background
  paper : ∃ paper : ℕ, evidence.background = paper ∧ Mode page page.mean 255 paper
  dark : ∃ dark : ℕ, evidence.darkMode = dark ∧ Mode page 0 page.mean dark
  ink : page.atOrBelow (evidence.background - primaryMargin) * basisPoints /
    (page.width * page.height) ≤ policy.maxInkBp
  margin : primaryMargin ≤ evidence.inkMargin ∧ evidence.inkMargin ≤ evidence.background
  derived : derivedInkMargin evidence.background evidence.darkMode policy.inkMarginBp =
    .ok evidence.inkMargin
  modal : evidence.source = .inferredModal →
    ∃ mode : ℕ, evidence.background = mode ∧ Mode page 0 255 mode
  interior : evidence.source = .inferredInteriorMode → ∃ dark, evidence.darkDistribution = some dark ∧
    dark.MeasuredOn page policy (evidence.background - evidence.inkMargin)

/-- A policy whose fractions are basis points and whose bands are widths. -/
structure BackgroundPolicy.Sealed (policy : BackgroundPolicy) : Prop where
  bandX : 0 ≤ policy.bandPxX
  bandY : 0 ≤ policy.bandPxY
  interior : 0 ≤ policy.maxInteriorDarkBp ∧ policy.maxInteriorDarkBp ≤ basisPoints
  ink : 0 ≤ policy.maxInkBp ∧ policy.maxInkBp ≤ basisPoints
  margin : 0 ≤ policy.inkMarginBp ∧ policy.inkMarginBp ≤ basisPoints

variable {page : Page} {policy : BackgroundPolicy}

theorem derivedInkMargin_eq {paper darkMode : ℤ} (inkMarginBp : ℤ) (order : darkMode ≤ paper) :
    derivedInkMargin paper darkMode inkMarginBp =
      .ok (max primaryMargin ((paper - darkMode) * inkMarginBp / basisPoints)) := by
  rw [derivedInkMargin, require_bind_of order]
  rfl

/-- A derived margin lies between the floor and the paper, when the paper is above the floor. -/
theorem inkMargin_le {paper darkMode : ℤ} (policySealed : policy.Sealed) (dark : 0 ≤ darkMode)
    (order : darkMode ≤ paper) (light : primaryMargin ≤ paper) :
    max primaryMargin ((paper - darkMode) * policy.inkMarginBp / basisPoints) ≤ paper := by
  have whole : (paper - darkMode) * policy.inkMarginBp ≤ (paper - darkMode) * basisPoints :=
    Int.mul_le_mul_of_nonneg_left policySealed.margin.2 (by omega)
  have part : (paper - darkMode) * policy.inkMarginBp / basisPoints ≤ paper - darkMode :=
    (Int.ediv_le_ediv (by decide) whole).trans_eq (Int.mul_ediv_cancel _ (by decide))
  omega

theorem inkThreshold_eq {background margin : ℤ} (eightBit : 0 ≤ background ∧ background ≤ 255)
    (positive : 0 ≤ margin) (above : margin ≤ background) :
    inkThreshold background margin = .ok (background - margin) := by
  rw [inkThreshold, require_bind_of eightBit, require_bind_of positive]
  dsimp only
  rw [require_bind_of (by omega)]
  rfl

theorem countP_split {α : Type} (elements : List α) (counted chosen : α → Prop)
    [DecidablePred counted] [DecidablePred chosen] :
    elements.countP (fun element => counted element) =
      elements.countP (fun element => counted element ∧ ¬ chosen element) +
        elements.countP fun element => counted element ∧ chosen element := by
  induction elements with
  | nil => rfl
  | cons element elements ih =>
      simp only [List.countP_cons, ih]
      by_cases first : counted element <;> by_cases second : chosen element <;>
        simp [first, second] <;> omega

/-- A measured dark distribution counts the page's dark pixels, the border's and the interior's. -/
theorem darkDistribution_measured {level darkMode threshold : ℤ} {dark : DarkDistributionEvidence}
    (below : level ≤ threshold)
    (measured : darkDistribution page level darkMode (page.atOrBelow level) policy = some dark) :
    dark.MeasuredOn page policy threshold := by
  rw [darkDistribution] at measured
  dsimp only at measured
  split_ifs at measured with noInterior tooDark
  simp only [not_or, not_le, ge_iff_le] at noInterior
  obtain ⟨bandX, bandY, -, -⟩ := noInterior
  have counted := interior_count page policy level bandX.le bandY.le
  have parted := countP_split page.pixels (Pixel.Dark level) (Interior policy page)
  rw [← page.atOrBelow_pixels] at parted
  have cast := congrArg (Nat.cast : ℕ → ℤ) counted.symm
  rw [Nat.cast_list_sum, List.map_map, Function.comp_def] at cast
  rw [cast] at measured tooDark
  cases measured
  refine ⟨fun pixel _ dark => le_trans dark below, ?_, ?_, ?_, rfl, not_lt.mp tooDark⟩
  · rw [page.atOrBelow_pixels]
  · dsimp only
    omega
  · dsimp only
    omega

/-- A settled background leaves the page no more ink than the policy admits. -/
theorem settleBackgroundEvidence_cases (page : Page) (policy : BackgroundPolicy)
    (evidence : BackgroundEvidence)
    (eightBit : evidence.background ≤ 255) (light : primaryMargin ≤ evidence.background) :
    (∃ message, settleBackgroundEvidence evidence page (histogram page) policy =
      .error (.backgroundInferenceRefusal message)) ∨
    settleBackgroundEvidence evidence page (histogram page) policy = .ok evidence ∧
      page.atOrBelow (evidence.background - primaryMargin) * basisPoints /
        (page.width * page.height) ≤ policy.maxInkBp := by
  have floor : (0 : ℤ) ≤ primaryMargin := by decide
  rw [settleBackgroundEvidence, inkThreshold_eq ⟨floor.trans light, eightBit⟩ floor light, ok_bind]
  dsimp only
  rw [countAtOrBelow_eq]
  by_cases minority : page.atOrBelow (evidence.background - primaryMargin) * basisPoints /
      (page.width * page.height) ≤ policy.maxInkBp
  · rw [require_bind_of minority]
    exact .inr ⟨rfl, minority⟩
  · rw [require, if_neg minority]
    exact .inl ⟨_, rfl⟩

/-- A page's background is refused by name, or it is one the page has. -/
theorem inferBackgroundEvidence_measured (page : Page) (policySealed : policy.Sealed) :
    (∃ message, inferBackgroundEvidence page policy =
      .error (.backgroundInferenceRefusal message)) ∨
    ∃ evidence, inferBackgroundEvidence page policy = .ok evidence ∧
      evidence.MeasuredOn page policy := by
  have small := page.mean_lt
  have whole : Mode page 0 255 (firstMaximum (fun value => (histogram page).getD value 0) 0
    (List.range' 1 255)) := mode_firstMaximum page (by decide) (by decide)
  have upper : Mode page page.mean 255 (firstMaximum (fun value => (histogram page).getD value 0)
    page.mean (List.range' (page.mean + 1) (255 - page.mean))) :=
      mode_firstMaximum page (by omega) (by decide)
  have lower : Mode page 0 page.mean (firstMaximum (fun value => (histogram page).getD value 0) 0
    (List.range' 1 page.mean)) := mode_firstMaximum page (Nat.zero_le _) small
  have meanIs : page.values.sum / (page.width * page.height) = page.mean := rfl
  rw [inferBackgroundEvidence]
  dsimp only
  rw [histogram_total, meanIs]
  generalize firstMaximum _ 0 (List.range' 1 255) = background at whole ⊢
  generalize firstMaximum _ page.mean _ = paper at upper ⊢
  generalize firstMaximum _ 0 (List.range' 1 page.mean) = darkMode at lower ⊢
  have order : (darkMode : ℤ) ≤ paper := by
    have low := lower.below
    have high := upper.above
    omega
  have margin := derivedInkMargin_eq policy.inkMarginBp order
  rw [margin, ok_bind]
  have floor : primaryMargin ≤ max primaryMargin
    (((paper : ℤ) - darkMode) * policy.inkMarginBp / basisPoints) := le_max_left _ _
  have within (light : primaryMargin ≤ (paper : ℤ)) := inkMargin_le policySealed
    (Int.natCast_nonneg darkMode) order light
  generalize max primaryMargin (((paper : ℤ) - darkMode) * policy.inkMarginBp / basisPoints) =
    inkMargin at margin floor within ⊢
  have modes : (darkMode : ℤ) ≤ page.mean ∧ (page.mean : ℤ) ≤ paper :=
    ⟨Int.ofNat_le.mpr lower.below, Int.ofNat_le.mpr upper.above⟩
  have eightBit : (paper : ℤ) ≤ 255 := Int.ofNat_le.mpr upper.below
  by_cases majority : background * (page.width * page.height) < page.values.sum
  · rw [if_pos majority]
    rw [countAtOrBelow_eq]
    split
    next dark measured =>
      by_cases light : primaryMargin ≤ (paper : ℤ)
      · rw [require_bind_of light]
        have below : min (((darkMode : ℤ) + paper) / 2) (max 0 (paper - inkMargin)) ≤
            paper - inkMargin := by
          have reached := within light
          omega
        have sound := darkDistribution_measured below measured
        rcases settleBackgroundEvidence_cases page policy
          ⟨paper, .inferredInteriorMode, some dark, darkMode, inkMargin⟩ eightBit light
          with refused | ⟨settled, ink⟩
        · exact .inl refused
        · exact .inr ⟨_, settled, modes, ⟨paper, rfl, upper⟩, ⟨darkMode, rfl, lower⟩, ink,
            ⟨floor, within light⟩, margin, (fun modal => by cases modal), fun _ => ⟨dark, rfl, sound⟩⟩
      · rw [require, if_neg light]
        exact .inl ⟨_, rfl⟩
    next => exact .inl ⟨_, rfl⟩
  · rw [if_neg majority]
    have above : page.mean ≤ background := by
      rw [← meanIs]
      exact Nat.div_le_of_le_mul (by rw [Nat.mul_comm]; omega)
    obtain rfl := whole.paper above upper
    by_cases light : primaryMargin ≤ (background : ℤ)
    · rw [require_bind_of light]
      rcases settleBackgroundEvidence_cases page policy
        ⟨background, .inferredModal, none, darkMode, inkMargin⟩ eightBit light
        with refused | ⟨settled, ink⟩
      · exact .inl refused
      · exact .inr ⟨_, settled, modes, ⟨background, rfl, upper⟩, ⟨darkMode, rfl, lower⟩, ink,
          ⟨floor, within light⟩, margin, fun _ => ⟨background, rfl, whole⟩,
          fun interior => by cases interior⟩
    · rw [require, if_neg light]
      exact .inl ⟨_, rfl⟩

end Evidence

end Verbatus.Ink
