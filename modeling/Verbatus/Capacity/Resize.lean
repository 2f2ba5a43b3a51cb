import Verbatus.Library.Checked
import Verbatus.Library.Double
import Verbatus.Library.Sorting
import Verbatus.Refusal
import Mathlib.Data.String.Basic

namespace Verbatus.Capacity

open Library Library.Checked Refusal

/-- How a prompt's tokens were arrived at. -/
inductive PromptTokensBasis where
  | measuredConstant
  | measuredFloor
  | reportedBytesFixedCarried
  | allTextPerByte
  deriving DecidableEq, Repr

namespace PromptTokensBasis

def text : PromptTokensBasis → String
  | measuredConstant => "measured-constant-for-this-prompt-version"
  | measuredFloor => "measured-floor-for-this-prompt-shape"
  | reportedBytesFixedCarried => "reported-text-per-byte-fixed-text-at-carried-act-rate"
  | allTextPerByte => "all-text-per-byte"

def admitting : List PromptTokensBasis :=
  [measuredConstant, reportedBytesFixedCarried, allTextPerByte]

end PromptTokensBasis

/-- One embedded image: its size, the size the chair sees, and what it costs. -/
structure ImageRecord where
  width : ℤ
  height : ℤ
  resizedWidth : ℤ
  resizedHeight : ℤ
  imagePromptTokens : ℤ

/-- The closed record of one request against one sealed row. -/
structure CapacityRecord where
  schema : String
  recipe : Option String
  chair : Option String
  tier : Option String
  maxModelLen : ℤ
  minPixels : ℤ
  maxPixels : ℤ
  patchSize : ℤ
  mergeSize : ℤ
  images : List ImageRecord
  imagePromptTokens : ℤ
  promptTokens : ℤ
  promptTokensBasis : PromptTokensBasis
  promptTokensFloor : Option ℤ
  promptTokensFloorBasis : Option PromptTokensBasis
  answerBudget : ℤ
  need : ℤ
  headroom : ℤ
  fits : Bool
  reason : Option String

/-- What a capacity check raises; a refusal may carry the record it refused on. -/
inductive Raised where
  | refusal (message : String) (capacity : Option CapacityRecord)
  | unicodeEncodeError
  | overflowError
  | zeroDivisionError

def refuse (message : String) : Raised := .refusal message none

def maxAspectRatio : ℤ := 200

section Floats

/-- The double of an exact value; one out of range ends in an overflow when it is made an integer. -/
def float (value : ℚ) : Except Raised ℚ :=
  match double? value with
  | some result => .ok result
  | none => .error .overflowError

/-- `numerator / denominator`, of integers or of doubles -/
def divide (numerator denominator : ℚ) : Except Raised ℚ :=
  if denominator = 0 then .error .zeroDivisionError else float (numerator / denominator)

theorem float_nonneg {value result : ℚ} (nonneg : 0 ≤ value) (returned : float value = .ok result) :
    0 ≤ result := by
  unfold float at returned
  split at returned
  · next found =>
      rw [← Except.ok.inj returned]
      exact double?_nonneg nonneg found
  · cases returned

theorem divide_nonneg {numerator denominator result : ℚ} (first : 0 ≤ numerator)
    (second : 0 ≤ denominator) (returned : divide numerator denominator = .ok result) :
    0 ≤ result := by
  unfold divide at returned
  split_ifs at returned with zero
  exact float_nonneg (div_nonneg first second) returned

/-- `format(value, ".1f")` -/
def tenths (value : ℚ) : String :=
  let scaled := (roundHalfEven (value * 10)).natAbs
  toString (scaled / 10) ++ "." ++ toString (scaled % 10)

end Floats

/-- The resized height and width an image processor would use. -/
def smartResize (height width factor minPixels maxPixels : ℤ) : Except Raised (ℤ × ℤ) := do
  require (¬ (height ≤ 0 ∨ width ≤ 0)) (refuse
    (s!"an image of {width}x{height} pixels has no token cost to compute; a request " ++
      "cannot be checked against a row it never names a real image for"))
  let ratio ← divide (max height width : ℤ) (min height width : ℤ)
  require (ratio ≤ maxAspectRatio) (refuse
    (s!"an image of {width}x{height} pixels has an absolute aspect ratio of " ++
      s!"{tenths ratio}, which the chair's own image " ++
      s!"processor refuses above {maxAspectRatio}; it would be refused by the engine " ++
      "before it was read, so it is refused here"))
  let hBar := roundHalfEven (← divide height factor) * factor
  let wBar := roundHalfEven (← divide width factor) * factor
  if maxPixels < hBar * wBar then
    let beta := sqrtDouble (← divide (height * width : ℤ) maxPixels)
    let hScaled ← divide (← divide (← float height) beta) (← float factor)
    let wScaled ← divide (← divide (← float width) beta) (← float factor)
    return (max factor (⌊hScaled⌋ * factor), max factor (⌊wScaled⌋ * factor))
  else if hBar * wBar < minPixels then
    let beta := sqrtDouble (← divide minPixels (height * width : ℤ))
    let hScaled ← divide (← float ((← float height) * beta)) (← float factor)
    let wScaled ← divide (← float ((← float width) * beta)) (← float factor)
    return (⌈hScaled⌉ * factor, ⌈wScaled⌉ * factor)
  else return (hBar, wBar)

def positive (value : ℤ) (field : String) : Except Raised ℤ := do
  require (0 < value) (refuse
    (s!"{field} must be a positive integer to compute an image's token cost, not " ++
      s!"{value}; nothing here defaults it"))
  return value

def nonnegative (value : ℤ) (field : String) : Except Raised ℤ := do
  require (0 ≤ value) (refuse
    (s!"{field} must be a non-negative integer, not {value}; a capacity record never " ++
      "defaults a count it was not given"))
  return value

/-- `(factor, resized_height, resized_width)` -/
def resize (width height minPixels maxPixels patchSize mergeSize : ℤ) :
    Except Raised (ℤ × ℤ × ℤ) := do
  let factor := (← positive patchSize "patch_size") * (← positive mergeSize "merge_size")
  let resized ← smartResize height width factor (← positive minPixels "min_pixels")
    (← positive maxPixels "max_pixels")
  return (factor, resized)

/-- What a sealed serving row states; a field it does not state as an integer is none. -/
structure ServingRow where
  recipe : Option String
  chair : Option String
  tier : Option String
  minPixels : Option ℤ
  maxPixels : Option ℤ
  patchSize : Option ℤ
  mergeSize : Option ℤ
  maxModelLen : Option ℤ

structure RowImageGeometry where
  minPixels : ℤ
  maxPixels : ℤ
  patchSize : ℤ
  mergeSize : ℤ

def rowName (row : ServingRow) : String :=
  s!"recipe={quote row.recipe}, " ++ s!"chair={quote row.chair}, " ++ s!"tier={quote row.tier}"

/-- The value of a field that is stated as a positive integer. -/
def positiveField (value : Option ℤ) : Option ℤ := value.filter fun stated => 0 < stated

def rowImageGeometry (row : ServingRow) : Except Raised RowImageGeometry :=
  match positiveField row.minPixels, positiveField row.maxPixels, positiveField row.patchSize,
    positiveField row.mergeSize with
  | some minPixels, some maxPixels, some patchSize, some mergeSize => do
      require (minPixels ≤ maxPixels) (refuse
        (s!"the sealed serving row ({rowName row}) states min_pixels " ++
          s!"{minPixels} above max_pixels {maxPixels}"))
      return ⟨minPixels, maxPixels, patchSize, mergeSize⟩
  | minPixels, maxPixels, patchSize, mergeSize =>
      let missing := [("min_pixels", minPixels), ("max_pixels", maxPixels),
        ("patch_size", patchSize), ("merge_size", mergeSize)].filter fun field => field.2.isNone
      .error (refuse (s!"the sealed serving row ({rowName row}) states no positive " ++
        ", ".intercalate (missing.map Prod.fst) ++
        ", so nothing here can say what one image costs this chair " ++
        "in prompt tokens; a patch or merge size is never assumed -- the Qwen2.5-VL " ++
        "chairs spend 784 px per token and the Qwen3-VL chairs 1,024, and a default " ++
        "would mis-count by a third"))

def imageRecord (width height : ℤ) (geometry : RowImageGeometry) : Except Raised ImageRecord := do
  let (factor, resizedHeight, resizedWidth) ← resize width height geometry.minPixels
    geometry.maxPixels geometry.patchSize geometry.mergeSize
  return ⟨width, height, resizedWidth, resizedHeight,
    resizedHeight / factor * (resizedWidth / factor)⟩

def rowContextLength (row : ServingRow) : Except Raised ℤ :=
  match positiveField row.maxModelLen with
  | some maxModelLen => .ok maxModelLen
  | none => .error (refuse
      (s!"the sealed serving row ({rowName row}) states no positive max_model_len, " ++
        "so nothing here can say what request length the engine accepts"))

theorem positive_eq_ok {value result : ℤ} {field : String} :
    positive value field = .ok result ↔ 0 < value ∧ value = result := by
  rw [positive, require_bind_eq_ok, pure_eq_ok]

theorem nonnegative_eq_ok {value result : ℤ} {field : String} :
    nonnegative value field = .ok result ↔ 0 ≤ value ∧ value = result := by
  rw [nonnegative, require_bind_eq_ok, pure_eq_ok]

/-- No resized side is negative. -/
theorem smartResize_nonneg {height width factor minPixels maxPixels : ℤ} {resized : ℤ × ℤ}
    (factorPos : 0 < factor) (returned : smartResize height width factor minPixels maxPixels =
      .ok resized) :
    0 ≤ resized.1 ∧ 0 ≤ resized.2 := by
  obtain ⟨sized, continued⟩ := require_bind_eq_ok.mp returned
  obtain ⟨ratio, _, continued⟩ := bind_eq_ok.mp continued
  obtain ⟨_, continued⟩ := require_bind_eq_ok.mp continued
  obtain ⟨hShare, hDivided, continued⟩ := bind_eq_ok.mp continued
  obtain ⟨wShare, wDivided, continued⟩ := bind_eq_ok.mp continued
  push Not at sized
  have factorCast : (0 : ℚ) ≤ factor := by exact_mod_cast factorPos.le
  have heightCast : (0 : ℚ) ≤ height := by exact_mod_cast sized.1.le
  have widthCast : (0 : ℚ) ≤ width := by exact_mod_cast sized.2.le
  have sides : ∀ {side scaled shift root : ℚ}, 0 ≤ side → 0 ≤ root → float factor = .ok shift →
      float (side * root) = .ok scaled → ∀ {share : ℚ}, divide scaled shift = .ok share →
        0 ≤ share := by
    intro side scaled shift root nonneg rootNonneg shifted grown share divided
    exact divide_nonneg (float_nonneg (mul_nonneg nonneg rootNonneg) grown)
      (float_nonneg factorCast shifted) divided
  dsimp only at continued
  split_ifs at continued with large small
  · obtain ⟨_, _, continued⟩ := bind_eq_ok.mp continued
    obtain ⟨_, _, continued⟩ := bind_eq_ok.mp continued
    obtain ⟨_, _, continued⟩ := bind_eq_ok.mp continued
    obtain ⟨_, _, continued⟩ := bind_eq_ok.mp continued
    obtain ⟨_, _, continued⟩ := bind_eq_ok.mp continued
    obtain ⟨_, _, continued⟩ := bind_eq_ok.mp continued
    obtain ⟨_, _, continued⟩ := bind_eq_ok.mp continued
    obtain ⟨_, _, continued⟩ := bind_eq_ok.mp continued
    obtain ⟨_, _, continued⟩ := bind_eq_ok.mp continued
    rw [← pure_eq_ok.mp continued]
    exact ⟨factorPos.le.trans (le_max_left _ _), factorPos.le.trans (le_max_left _ _)⟩
  · obtain ⟨_, _, continued⟩ := bind_eq_ok.mp continued
    obtain ⟨hFloat, hMade, continued⟩ := bind_eq_ok.mp continued
    obtain ⟨hScaled, hGrown, continued⟩ := bind_eq_ok.mp continued
    obtain ⟨hShift, hShifted, continued⟩ := bind_eq_ok.mp continued
    obtain ⟨hShare, hShared, continued⟩ := bind_eq_ok.mp continued
    obtain ⟨wFloat, wMade, continued⟩ := bind_eq_ok.mp continued
    obtain ⟨wScaled, wGrown, continued⟩ := bind_eq_ok.mp continued
    obtain ⟨wShift, wShifted, continued⟩ := bind_eq_ok.mp continued
    obtain ⟨wShare, wShared, continued⟩ := bind_eq_ok.mp continued
    have hNonneg := sides (float_nonneg heightCast hMade) (sqrtDouble_nonneg _) hShifted hGrown hShared
    have wNonneg := sides (float_nonneg widthCast wMade) (sqrtDouble_nonneg _) wShifted wGrown wShared
    rw [← pure_eq_ok.mp continued]
    exact ⟨mul_nonneg (Int.ceil_nonneg hNonneg) factorPos.le,
      mul_nonneg (Int.ceil_nonneg wNonneg) factorPos.le⟩
  · rw [← pure_eq_ok.mp continued]
    exact ⟨mul_nonneg (roundHalfEven_nonneg (divide_nonneg heightCast factorCast hDivided))
        factorPos.le,
      mul_nonneg (roundHalfEven_nonneg (divide_nonneg widthCast factorCast wDivided))
        factorPos.le⟩

/-- An image costs no fewer than no tokens. -/
theorem imageRecord_nonneg {width height : ℤ} {geometry : RowImageGeometry} {record : ImageRecord}
    (returned : imageRecord width height geometry = .ok record) :
    0 ≤ record.imagePromptTokens := by
  obtain ⟨⟨factor, resized⟩, made, continued⟩ := bind_eq_ok.mp returned
  obtain ⟨patch, patched, made⟩ := bind_eq_ok.mp made
  obtain ⟨merge, merged, made⟩ := bind_eq_ok.mp made
  obtain ⟨_, _, made⟩ := bind_eq_ok.mp made
  obtain ⟨_, _, made⟩ := bind_eq_ok.mp made
  obtain ⟨sized, resizes, made⟩ := bind_eq_ok.mp made
  obtain ⟨rfl, rfl⟩ := Prod.mk.inj (pure_eq_ok.mp made)
  obtain ⟨patchPos, rfl⟩ := positive_eq_ok.mp patched
  obtain ⟨mergePos, rfl⟩ := positive_eq_ok.mp merged
  have factorPos := mul_pos patchPos mergePos
  obtain ⟨high, wide⟩ := smartResize_nonneg factorPos resizes
  rw [← pure_eq_ok.mp continued]
  exact mul_nonneg (Int.ediv_nonneg high factorPos.le) (Int.ediv_nonneg wide factorPos.le)

end Verbatus.Capacity
