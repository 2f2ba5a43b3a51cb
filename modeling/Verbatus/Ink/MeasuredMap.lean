import Verbatus.Ink.MeasuredBackground
import Verbatus.Ink.ResidualInk
import Verbatus.PageReading.Grammar

namespace Verbatus.Ink

open Library.Checked PageReading Python

section Payload

def backgroundFields : List String :=
  ["background_level", "background_source", "dark_mode", "ink_margin", "contrast_below_background",
    "ink_threshold", "config_sha256"]

def backgroundNumbers : List String :=
  ["background_level", "dark_mode", "ink_margin", "contrast_below_background", "ink_threshold"]

/-- `is_sha256` of a decoded value. -/
def isSha256 (value : Json) : Bool :=
  value.str?.any fun text => text.length = 64 ∧ text.toList.all (· ∈ "0123456789abcdef".toList)

def backgroundSources : List String :=
  [BackgroundSource.inferredModal.text, BackgroundSource.inferredInteriorMode.text]

/-- What a reader keeps of a measured page: its ordinal, and the policy that measured it. -/
structure MeasuredInkMap where
  pageOrdinal : ℤ
  backgroundConfigSha256 : String
  deriving DecidableEq, Repr

/-- The background evidence of a measurement, as its reader checks it. -/
def validateMeasuredBackground (background : Json) (auditContrast inkMarginBp : ℤ) :
    Except Refusal Unit := do
  require background.isObject
    (.contractError "the measured ink-map payload has no object background evidence")
  require (keysAre background backgroundFields)
    (.contractError "the measured ink-map background evidence is not closed")
  backgroundNumbers.forM fun field => require (background.get field).int?.isSome
    (.contractError s!"the measured ink-map background {field} is not a plain integer")
  let level := (background.get "background_level").number
  let darkMode := (background.get "dark_mode").number
  require ((0 ≤ level ∧ level ≤ 255) ∧ 0 ≤ darkMode ∧ darkMode ≤ 255)
    (.contractError "the measured ink-map background levels are outside 8-bit range")
  require (darkMode ≤ level)
    (.contractError "the measured ink-map background dark_mode exceeds its paper level")
  let derivedMargin ← derivedInkMargin level darkMode inkMarginBp
  let inkMargin := (background.get "ink_margin").number
  require (inkMargin = derivedMargin) (.contractError
    (s!"the measured ink-map background ink_margin {inkMargin} is not the " ++
    s!"{derivedMargin} the sealed ink_margin_bp derives from its own paper and dark modes"))
  require ((background.get "background_source").str?.any (· ∈ backgroundSources))
    (.contractError "the measured ink-map background_source is unknown")
  require ((background.get "contrast_below_background").number = auditContrast)
    (.contractError "the measured ink-map background has the wrong audit contrast")
  let threshold := (background.get "ink_threshold").number
  require (threshold = level - auditContrast)
    (.contractError "the measured ink-map background ink_threshold is inconsistent")
  require (0 ≤ threshold ∧ threshold ≤ 255)
    (.contractError "the measured ink-map background ink_threshold is outside 8-bit range")
  require (isSha256 (background.get "config_sha256")) (.contractError
    "the measured ink-map background config_sha256 is not lowercase SHA-256 hex")

/-- A measured page's payload is closed, and its background is the sealed policy's own. -/
def validateMeasuredInkMapPayload (payload : Json) (auditContrast inkMarginBp : ℤ) :
    Except Refusal MeasuredInkMap := do
  require payload.isObject (.contractError "the measured ink-map record has no object payload")
  require (keysAre payload ["page_ordinal", "ink_measurable", "background", "edge", "edge_findings"])
    (.contractError ("the measured ink-map payload is not closed: expected exactly " ++
      "page_ordinal, ink_measurable, background, edge, and edge_findings"))
  require ((payload.get "page_ordinal").int?.any (0 < ·)) (.contractError
    "the measured ink-map payload page_ordinal is not a positive plain integer")
  require ((payload.get "ink_measurable").bool? = some true)
    (.contractError "the measured ink-map payload ink_measurable is not true")
  require (payload.get "edge").isObject
    (.contractError "the measured ink-map payload has no object edge finding")
  require (payload.get "edge_findings").isObject
    (.contractError "the measured ink-map payload has no object retained edge findings")
  let background := payload.get "background"
  validateMeasuredBackground background auditContrast inkMarginBp
  return ⟨(payload.get "page_ordinal").number, (background.get "config_sha256").text⟩

end Payload

section Published

/-- A page's paper evidence with the digest of the policy it was inferred under. -/
def PageBackground.record (background : PageBackground) (configSha256 : String) : Json :=
  .object [("background_level", .int background.backgroundLevel),
    ("background_source", .str background.backgroundSource.text),
    ("dark_mode", .int background.darkMode),
    ("ink_margin", .int background.inkMargin),
    ("contrast_below_background", .int background.contrastBelowBackground),
    ("ink_threshold", .int background.inkThreshold),
    ("config_sha256", .str configSha256)]

/-- What the ink map publishes for a page it measured. -/
def measuredPayload (ordinal : ℤ) (background : PageBackground) (configSha256 : String)
    (edge edgeFindings : List (String × Json)) : Json :=
  .object [("page_ordinal", .int ordinal),
    ("ink_measurable", .bool true),
    ("background", background.record configSha256),
    ("edge", .object edge),
    ("edge_findings", .object edgeFindings)]

variable {page : Page} {policy : BackgroundPolicy} {background : PageBackground}

/-- A page's background holds what its reader checks of it. -/
structure PageBackground.Checked (background : PageBackground) (inkMarginBp : ℤ) : Prop where
  level : 0 ≤ background.backgroundLevel ∧ background.backgroundLevel ≤ 255
  dark : 0 ≤ background.darkMode ∧ background.darkMode ≤ background.backgroundLevel
  margin : derivedInkMargin background.backgroundLevel background.darkMode inkMarginBp =
    .ok background.inkMargin
  contrast : background.contrastBelowBackground = minimumContrastBelowBackground
  threshold : background.inkThreshold = background.backgroundLevel - minimumContrastBelowBackground
  above : 0 ≤ background.inkThreshold

theorem pageBackground_checked (policySealed : policy.Sealed)
    (measured : pageBackground page policy = .ok background) :
    background.Checked policy.inkMarginBp := by
  rw [pageBackground] at measured
  obtain ⟨evidence, inferred, measured⟩ := bind_eq_ok.mp measured
  obtain ⟨threshold, cut, measured⟩ := bind_eq_ok.mp measured
  cases measured
  rcases inferBackgroundEvidence_measured page policySealed with ⟨_, refused⟩ | ⟨found, made, sound⟩
  · rw [refused] at inferred
    cases inferred
  rw [made, Except.ok.injEq] at inferred
  subst inferred
  obtain ⟨paper, paperIs, mode⟩ := sound.paper
  obtain ⟨dark, darkIs, -⟩ := sound.dark
  obtain ⟨darkMean, meanPaper⟩ := sound.order
  rw [inkThreshold] at cut
  obtain ⟨-, cut⟩ := require_bind_eq_ok.mp cut
  obtain ⟨-, cut⟩ := require_bind_eq_ok.mp cut
  obtain ⟨above, cut⟩ := require_bind_eq_ok.mp cut
  cases cut
  have small := mode.below
  exact ⟨by dsimp only; omega, by dsimp only; omega, sound.derived, rfl, rfl, above⟩

theorem validateMeasuredBackground_record {configSha256 : String} {inkMarginBp : ℤ}
    (checked : background.Checked inkMarginBp) (digest : isSha256 (.str configSha256)) :
    validateMeasuredBackground (background.record configSha256) minimumContrastBelowBackground
      inkMarginBp = .ok () := by
  obtain ⟨⟨positive, eightBit⟩, ⟨dark, order⟩, margin, contrast, threshold, above⟩ := checked
  have floor : (0 : ℤ) ≤ minimumContrastBelowBackground := by decide
  have below : background.inkThreshold ≤ 255 := by omega
  have object : (background.record configSha256).isObject = true := rfl
  have closed : keysAre (background.record configSha256) backgroundFields = true := rfl
  have numbers (refusal : String → Refusal) : backgroundNumbers.forM (fun field =>
    require (((background.record configSha256).get field).int?.isSome = true) (refusal field)) =
      .ok () := rfl
  have known : ((background.record configSha256).get "background_source").str?.any
      (· ∈ backgroundSources) = true := by
    change (some background.backgroundSource.text).any (· ∈ backgroundSources) = true
    cases background.backgroundSource <;> rfl
  have level : ((background.record configSha256).get "background_level").number =
    background.backgroundLevel := rfl
  have darkMode : ((background.record configSha256).get "dark_mode").number =
    background.darkMode := rfl
  have inkMargin : ((background.record configSha256).get "ink_margin").number =
    background.inkMargin := rfl
  have audit : ((background.record configSha256).get "contrast_below_background").number =
    background.contrastBelowBackground := rfl
  have cut : ((background.record configSha256).get "ink_threshold").number =
    background.inkThreshold := rfl
  rw [validateMeasuredBackground, require_bind_of object, require_bind_of closed, numbers, ok_bind]
  dsimp only
  rw [level, darkMode, require_bind_of ⟨⟨positive, eightBit⟩, dark, order.trans eightBit⟩,
    require_bind_of order, margin, ok_bind, inkMargin, require_bind_of (Eq.refl background.inkMargin),
    require_bind_of known, audit, require_bind_of contrast, cut, require_bind_of threshold,
    require_bind_of ⟨above, below⟩]
  exact require_eq_ok.mpr digest

/-- The payload of a page whose background could be inferred is one its readers accept. -/
theorem validateMeasuredInkMapPayload_measured (policySealed : policy.Sealed)
    (measured : pageBackground page policy = .ok background) {ordinal : ℤ} (positive : 0 < ordinal)
    {configSha256 : String} (digest : isSha256 (.str configSha256))
    (edge edgeFindings : List (String × Json)) :
    validateMeasuredInkMapPayload (measuredPayload ordinal background configSha256 edge edgeFindings)
      minimumContrastBelowBackground policy.inkMarginBp = .ok ⟨ordinal, configSha256⟩ := by
  have valid := validateMeasuredBackground_record (pageBackground_checked policySealed measured)
    digest
  generalize payloadIs :
    measuredPayload ordinal background configSha256 edge edgeFindings = payload
  have object : payload.isObject = true := by
    rw [← payloadIs]
    rfl
  have closed : keysAre payload
      ["page_ordinal", "ink_measurable", "background", "edge", "edge_findings"] = true := by
    rw [← payloadIs]
    rfl
  have numbered : (payload.get "page_ordinal").int?.any (0 < ·) = true := by
    rw [← payloadIs]
    exact decide_eq_true positive
  have measurable : (payload.get "ink_measurable").bool? = some true := by
    rw [← payloadIs]
    rfl
  have edges : (payload.get "edge").isObject = true ∧
      (payload.get "edge_findings").isObject = true := by
    rw [← payloadIs]
    exact ⟨rfl, rfl⟩
  have evidence : payload.get "background" = background.record configSha256 := by
    rw [← payloadIs]
    rfl
  rw [validateMeasuredInkMapPayload, require_bind_of object, require_bind_of closed,
    require_bind_of numbered, require_bind_of measurable, require_bind_of edges.1,
    require_bind_of edges.2]
  dsimp only
  rw [evidence, valid, ok_bind, ← payloadIs]
  rfl

/-- A band that leaves a page an interior leaves it a border too. -/
theorem band_pixels {width height bandX bandY : ℤ} (positiveX : 0 < bandX) (positiveY : 0 < bandY)
    (insideX : 2 * bandX < width) (insideY : 2 * bandY < height) :
    0 < (width - 2 * bandX) * (height - 2 * bandY) ∧
      0 < width * height - (width - 2 * bandX) * (height - 2 * bandY) := by
  have fewer : (width - 2 * bandX) * (height - 2 * bandY) < width * height :=
    mul_lt_mul'' (by omega) (by omega) (by omega) (by omega)
  exact ⟨mul_pos (by omega) (by omega), by omega⟩

/-- No fraction of a page is of nothing, its background is one the page has or is refused by name,
and a background that is published is one its readers accept. -/
theorem pageBackground_published (page : Page) {policy : BackgroundPolicy}
    (policySealed : policy.Sealed) :
    (0 < page.width * page.height ∧ (0 < policy.bandPxX → 0 < policy.bandPxY →
        2 * policy.bandPxX < page.width → 2 * policy.bandPxY < page.height →
        0 < (page.width - 2 * policy.bandPxX) * (page.height - 2 * policy.bandPxY) ∧
          0 < page.width * page.height -
            (page.width - 2 * policy.bandPxX) * (page.height - 2 * policy.bandPxY))) ∧
      ((∃ message, inferBackgroundEvidence page policy =
          .error (.backgroundInferenceRefusal message)) ∨
        ∃ evidence, inferBackgroundEvidence page policy = .ok evidence ∧
          evidence.MeasuredOn page policy) ∧
      ∀ background, pageBackground page policy = .ok background →
        ∀ ordinal configSha256 edge edgeFindings, 0 < ordinal → isSha256 (.str configSha256) →
          validateMeasuredInkMapPayload
              (measuredPayload ordinal background configSha256 edge edgeFindings)
              minimumContrastBelowBackground policy.inkMarginBp = .ok ⟨ordinal, configSha256⟩ := by
  refine ⟨⟨page.counted_pos, band_pixels⟩, inferBackgroundEvidence_measured page policySealed, ?_⟩
  intro background measured ordinal configSha256 edge edgeFindings positive digest
  exact validateMeasuredInkMapPayload_measured policySealed measured positive digest edge edgeFindings

/-- A line of seven pixels, four of them ink on a light paper. -/
def inkedLine : Page where
  width := 7
  height := 1
  rows := [[100, 100, 110, 110, 200, 200, 200]]
  widthPositive := by decide
  heightPositive := by decide
  rowCount := rfl
  rowWidth := by decide

def inkedPolicy : BackgroundPolicy where
  bandPxX := 1
  bandPxY := 1
  maxInteriorDarkBp := 5000
  maxInkBp := 5714
  inkMarginBp := 3333

theorem inkedPolicy_sealed : inkedPolicy.Sealed :=
  ⟨by decide, by decide, by decide, by decide, by decide⟩

/-- The measured line is published under a digest of zeros. -/
theorem pageBackground_published_inkedLine :
    validateMeasuredInkMapPayload
        (measuredPayload 1 ⟨200, .inferredModal, 100, 33, 40, 160⟩
          (String.ofList (List.replicate 64 '0')) [] [])
        minimumContrastBelowBackground inkedPolicy.inkMarginBp =
      .ok ⟨1, String.ofList (List.replicate 64 '0')⟩ :=
  (pageBackground_published inkedLine inkedPolicy_sealed).2.2 _ (by decide +kernel) _ _ _ _
    (by decide) (by decide +kernel)

/-- Four pixels of seven are more than 5714 parts of ten thousand, and are admitted as 5714. -/
theorem inferBackgroundEvidence_inkedLine :
    inkedPolicy.Sealed ∧ ∃ evidence, inferBackgroundEvidence inkedLine inkedPolicy = .ok evidence ∧
      ¬ (inkedLine.atOrBelow (evidence.background - primaryMargin) * basisPoints ≤
        inkedPolicy.maxInkBp * (inkedLine.width * inkedLine.height)) :=
  ⟨inkedPolicy_sealed, ⟨200, .inferredModal, none, 100, 33⟩, by decide +kernel, by decide +kernel⟩

end Published

end Verbatus.Ink
