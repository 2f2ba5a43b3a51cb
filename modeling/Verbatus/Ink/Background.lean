import Mathlib.Tactic
import Verbatus.Library.Checked
import Verbatus.Refusal

namespace Verbatus.Ink

open Library.Checked

/-- A grayscale page: every scanline holds one byte for each of its columns. -/
structure Page where
  width : ℕ
  height : ℕ
  rows : List (List UInt8)
  widthPositive : 0 < width
  heightPositive : 0 < height
  rowCount : rows.length = height
  rowWidth : ∀ row ∈ rows, row.length = width

/-- The shape of a box in page pixels. -/
structure Bounds where
  x : ℤ
  y : ℤ
  w : ℤ
  h : ℤ
  deriving DecidableEq, Repr

def primaryMargin : ℤ := 20

def basisPoints : ℤ := 10000

def inkThreshold (background margin : ℤ) : Except Refusal ℤ := do
  require (0 ≤ background ∧ background ≤ 255)
    (.contractError s!"background value {background} is not an 8-bit sample")
  require (0 ≤ margin) (.contractError s!"sensitivity margin {margin} is negative")
  let threshold := background - margin
  require (0 ≤ threshold) (.backgroundInferenceRefusal
    (s!"a background of {background} at a {margin}-point margin implies the threshold " ++
    s!"{threshold}, which is below every 8-bit sample: no pixel could be counted as ink " ++
    "and a blank result here would be arithmetic rather than a measurement"))
  return threshold

def derivedInkMargin (paper darkMode inkMarginBp : ℤ) : Except Refusal ℤ := do
  require (darkMode ≤ paper) (.contractError
    (s!"a paper mode of {paper} below this page's dark mode of {darkMode} is not a " ++
    "page's own two populations; the ink margin derived from it would raise the " ++
    "threshold above the paper value rather than lowering it"))
  return max primaryMargin ((paper - darkMode) * inkMarginBp / basisPoints)

structure BackgroundPolicy where
  bandPxX : ℤ
  bandPxY : ℤ
  maxInteriorDarkBp : ℤ
  maxInkBp : ℤ
  inkMarginBp : ℤ

structure DarkDistributionEvidence where
  bandPxX : ℤ
  bandPxY : ℤ
  darkMode : ℤ
  darkAtOrBelow : ℤ
  darkPixelCount : ℤ
  borderDarkPixelCount : ℤ
  borderDarkBp : ℤ
  interiorDarkBp : ℤ
  deriving DecidableEq

inductive BackgroundSource where
  | inferredModal
  | inferredInteriorMode
  deriving DecidableEq

def BackgroundSource.text : BackgroundSource → String
  | .inferredModal => "inferred-modal"
  | .inferredInteriorMode => "inferred-interior-mode"

structure BackgroundEvidence where
  background : ℤ
  source : BackgroundSource
  darkDistribution : Option DarkDistributionEvidence
  darkMode : ℤ
  inkMargin : ℤ
  deriving DecidableEq

/-- The number of pixels of each value, from `0` to `255`. -/
def histogram (page : Page) : List ℕ :=
  (List.range 256).map fun value => (page.rows.map (List.count (UInt8.ofNat value))).sum

/-- The first of the values whose key no other value exceeds. -/
def firstMaximum (key : ℕ → ℕ) (first : ℕ) (rest : List ℕ) : ℕ :=
  rest.foldl (fun best value => if key best < key value then value else best) first

/-- The number of pixels at or below a level. -/
def countAtOrBelow (counts : List ℕ) (level : ℤ) : ℤ := (counts.take (level + 1).toNat).sum

def darkDistribution (page : Page) (level darkMode darkPixelCount : ℤ) (policy : BackgroundPolicy) :
    Option DarkDistributionEvidence :=
  let bandX := policy.bandPxX
  let bandY := policy.bandPxY
  if bandX ≤ 0 ∨ bandY ≤ 0 ∨ 2 * bandX ≥ page.width ∨ 2 * bandY ≥ page.height then none else
  let interiorRows := (page.rows.take (page.height - bandY).toNat).drop bandY.toNat
  let interiorDark : ℤ := (interiorRows.map fun row =>
    ((row.take (page.width - bandX).toNat).drop bandX.toNat).countP fun value =>
      value.toNat ≤ level).sum
  let interiorPixels := (page.width - 2 * bandX) * (page.height - 2 * bandY)
  let borderPixels := page.width * page.height - interiorPixels
  let borderDark := darkPixelCount - interiorDark
  let borderDarkBp := borderDark * basisPoints / borderPixels
  let interiorDarkBp := interiorDark * basisPoints / interiorPixels
  if interiorDarkBp > policy.maxInteriorDarkBp then none else
  some {
    bandPxX := bandX
    bandPxY := bandY
    darkMode
    darkAtOrBelow := level
    darkPixelCount
    borderDarkPixelCount := borderDark
    borderDarkBp
    interiorDarkBp }

def settleBackgroundEvidence (evidence : BackgroundEvidence) (page : Page) (counts : List ℕ)
    (policy : BackgroundPolicy) : Except Refusal BackgroundEvidence := do
  let threshold ← inkThreshold evidence.background primaryMargin
  let inkBp := countAtOrBelow counts threshold * basisPoints / (page.width * page.height)
  require (inkBp ≤ policy.maxInkBp) (.backgroundInferenceRefusal
    (s!"the value {evidence.background} inferred as this {page.width}x{page.height} page's " ++
    s!"paper ({evidence.source.text}) leaves {inkBp} basis points of the page at or " ++
    s!"below the ink threshold {threshold} it implies, past the " ++
    s!"{policy.maxInkBp} this policy admits: a background that is a minority of " ++
    "its own page is not a measurement of paper, and the ink fraction it implies " ++
    "would reconcile exactly while meaning nothing"))
  return evidence

/-- What a majority-ink page is refused with, naming a measured dark distribution if there is one. -/
def majorityInkRefusal (page : Page) (background mean level : ℤ)
    (measured : Option DarkDistributionEvidence) : Refusal :=
  .backgroundInferenceRefusal
    (s!"the most common pixel on this {page.width}x{page.height} page is {background}, which is " ++
    s!"darker than its own mean of {mean}: the page is majority ink, so " ++
    "its background cannot be inferred and a blank result here would be inferred " ++
    "rather than proved" ++
    match measured with
    | none => ""
    | some dark =>
      s!"; a dark distribution was measured ({dark.borderDarkBp} bp of the " ++
      s!"border band and {dark.interiorDarkBp} bp of the interior at or " ++
      s!"below {level}) but the interior's own paper mode is darker than the " ++
      s!"{primaryMargin}-point ink margin")

/-- A `Page` already has positive dimensions and full scanlines, so those checks are its type's. -/
def inferBackgroundEvidence (page : Page) (policy : BackgroundPolicy) :
    Except Refusal BackgroundEvidence := do
  let counts := histogram page
  let key value := counts.getD value 0
  let background : ℕ := firstMaximum key 0 (List.range' 1 255)
  let counted := page.width * page.height
  let total := (counts.zipIdx.map fun (count, value) => value * count).sum
  let mean := total / counted
  let paper : ℕ := firstMaximum key mean (List.range' (mean + 1) (255 - mean))
  let darkMode : ℕ := firstMaximum key 0 (List.range' 1 mean)
  let inkMargin ← derivedInkMargin paper darkMode policy.inkMarginBp
  if background * counted < total then
    let level : ℤ := min ((darkMode + paper) / 2) (max 0 (paper - inkMargin))
    match darkDistribution page level darkMode (countAtOrBelow counts level) policy with
    | some dark =>
      require (primaryMargin ≤ paper) (majorityInkRefusal page background mean level (some dark))
      settleBackgroundEvidence {
        background := paper
        source := .inferredInteriorMode
        darkDistribution := some dark
        darkMode
        inkMargin } page counts policy
    | none => .error (majorityInkRefusal page background mean level none)
  else
    require (primaryMargin ≤ background) (.backgroundInferenceRefusal
      (s!"the most common pixel on this {page.width}x{page.height} page is {background}, which is " ++
      s!"darker than the {primaryMargin}-point ink margin: the threshold it implies is " ++
      "below every 8-bit sample, so no pixel on this page could ever be counted as ink " ++
      "and a blank result here would be arithmetic rather than a measurement"))
    settleBackgroundEvidence {
      background
      source := .inferredModal
      darkDistribution := none
      darkMode
      inkMargin } page counts policy

/-- The one basis-point rounding rule: half a pixel rounds up. -/
def roundHalfUpBp (dimension bp : ℤ) : ℤ := (dimension * bp + basisPoints / 2) / basisPoints

end Verbatus.Ink
