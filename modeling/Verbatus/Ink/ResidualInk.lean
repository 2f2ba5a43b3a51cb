import Mathlib.Tactic
import Verbatus.Ink.Components

namespace Verbatus.Ink

open Library.Checked Library.Spans Library.ByteRow

/-- The float arithmetic of the ratio a finding is read against, and of its rounding per million. -/
structure FloatArithmetic where
  Value : Type
  zero : Value
  divide : ℤ → ℤ → Value
  perMillion : Value → ℤ
  perMillion_zero : perMillion zero = 0
  perMillion_divide : ∀ part whole, 0 ≤ part → part ≤ whole → 0 < whole →
    0 ≤ perMillion (divide part whole) ∧ perMillion (divide part whole) ≤ 1000000

/-- One page's resolved coverage-audit policy. -/
structure CoverageAuditPolicy where
  substantialInkPixels : ℤ
  edgeBandPx : ℤ
  pageSpanningAreaBp : ℤ
  gapTolerancePx : ℤ
  minimumInkPixels : ℤ
  minimumFractionOutsideBp : ℤ

/-- The sealed coverage-audit values, within the bounds every reader of the table checks. -/
structure CoverageAuditConfig where
  substantialInkAreaBp : ℤ
  edgeBandBp : ℤ
  minimumInkPixels : ℤ
  minimumFractionOutsideBp : ℤ
  pageSpanningAreaBp : ℤ
  gapTolerancePx : ℤ
  substantialBounds : 0 < substantialInkAreaBp ∧ substantialInkAreaBp ≤ basisPoints
  edgeBandBounds : 0 < edgeBandBp ∧ edgeBandBp < basisPoints / 2
  minimumInkPositive : 0 < minimumInkPixels
  fractionBounds : 0 < minimumFractionOutsideBp ∧ minimumFractionOutsideBp ≤ basisPoints
  spanningBounds : 0 < pageSpanningAreaBp ∧ pageSpanningAreaBp ≤ basisPoints
  gapNonnegative : 0 ≤ gapTolerancePx

/-- The dimensions a page is resolved for are already positive. -/
def resolveCoverageAuditPolicy (config : CoverageAuditConfig) (width height : ℕ) :
    CoverageAuditPolicy where
  substantialInkPixels :=
    max config.minimumInkPixels (roundHalfUpBp (width * height) config.substantialInkAreaBp)
  edgeBandPx := max 1 (roundHalfUpBp (min width height) config.edgeBandBp)
  pageSpanningAreaBp := config.pageSpanningAreaBp
  gapTolerancePx := config.gapTolerancePx
  minimumInkPixels := config.minimumInkPixels
  minimumFractionOutsideBp := config.minimumFractionOutsideBp

def minimumContrastBelowBackground : ℤ := 40

def inkRunsSchema : String := "ink-runs.v2"

/-- A map of each pixel value to one for ink and zero for paper. -/
structure InkTable where
  entry : UInt8 → UInt8
  binary : ∀ value, entry value = 0 ∨ entry value = 1

/-- A page-sized 0/1 mask, row after row. -/
structure PageMask (page : Page) where
  bytes : List UInt8
  size : bytes.length = page.width * page.height
  binary : Binary bytes

/-- A page's paper evidence as the audit publishes it. -/
structure PageBackground where
  backgroundLevel : ℤ
  backgroundSource : BackgroundSource
  darkMode : ℤ
  inkMargin : ℤ
  contrastBelowBackground : ℤ
  inkThreshold : ℤ
  deriving DecidableEq

/-- What every measure of one page shares: its paper and its page-spanning ink. -/
structure PageInkBasis (page : Page) where
  background : PageBackground
  spanningComponents : List Bounds
  spanningMask : PageMask page
  inkTable : InkTable

section CoverageFlag

variable (float : FloatArithmetic)

/-- The one outside-coverage gate, and the ratio it is read against. -/
def coverageFlag (totalInkPixels outsideInkPixels substantialInkPixels minimumInkPixels
    minimumFractionOutsideBp : ℤ) : float.Value × Bool :=
  let fractionOutside :=
    if totalInkPixels ≠ 0 then float.divide outsideInkPixels totalInkPixels else float.zero
  let overFraction := decide (totalInkPixels > 0 ∧
    outsideInkPixels * basisPoints ≥ minimumFractionOutsideBp * totalInkPixels)
  let flagged := decide (outsideInkPixels ≥ substantialInkPixels) ||
    (decide (outsideInkPixels ≥ minimumInkPixels) && overFraction)
  (fractionOutside, flagged)

def policyFlag (totalInk outsideInk : ℤ) (coveragePolicy : CoverageAuditPolicy) :
    float.Value × Bool :=
  coverageFlag float totalInk outsideInk coveragePolicy.substantialInkPixels
    coveragePolicy.minimumInkPixels coveragePolicy.minimumFractionOutsideBp

end CoverageFlag

/-- At least one pixel: a one-pixel-wide page has no centre but still has an edge. -/
def edgeBand (width height : ℤ) (coveragePolicy : CoverageAuditPolicy) : ℤ :=
  min (min coveragePolicy.edgeBandPx (max 1 (width / 2))) (max 1 (height / 2))

/-- One row of a page-sized mask. -/
def maskRow (mask : List UInt8) (y width : ℕ) : List UInt8 := (mask.drop (y * width)).take width

def rowBits (mask : List UInt8) (y width : ℕ) : ℕ := fromBytes (maskRow mask y width)

def inkTable (background : ℤ) : Except Refusal InkTable := do
  let _ ← inkThreshold background minimumContrastBelowBackground
  return {
    entry := fun value =>
      if background - value.toNat ≥ minimumContrastBelowBackground then 1 else 0
    binary := by intro value; split_ifs <;> simp }

def pageBackground (page : Page) (backgroundPolicy : BackgroundPolicy) :
    Except Refusal PageBackground := do
  let evidence ← inferBackgroundEvidence page backgroundPolicy
  let threshold ← inkThreshold evidence.background minimumContrastBelowBackground
  return {
    backgroundLevel := evidence.background
    backgroundSource := evidence.source
    darkMode := evidence.darkMode
    inkMargin := evidence.inkMargin
    contrastBelowBackground := minimumContrastBelowBackground
    inkThreshold := threshold }

/-- A mask with one slice, inside it, set to ink. -/
def paint (mask : List UInt8) (start stop : ℕ) : List UInt8 :=
  mask.mapIdx fun index byte => if start ≤ index ∧ index < stop then 1 else byte

@[simp] theorem length_paint (mask : List UInt8) (start stop : ℕ) :
    (paint mask start stop).length = mask.length := by simp [paint]

theorem binary_paint {mask : List UInt8} (binary : Binary mask) (start stop : ℕ) :
    Binary (paint mask start stop) := by
  intro byte member
  obtain ⟨index, inside, rfl⟩ := List.mem_iff_getElem.mp member
  rw [length_paint] at inside
  simp only [paint, List.getElem_mapIdx]
  split_ifs
  · exact .inr rfl
  · exact binary _ (List.getElem_mem inside)

/-- Every slice of a list of slices, painted in order. -/
def paintAll (mask : List UInt8) (slices : List (ℕ × ℕ)) : List UInt8 :=
  slices.foldl (fun mask slice => paint mask slice.1 slice.2) mask

@[simp] theorem length_paintAll (mask : List UInt8) (slices : List (ℕ × ℕ)) :
    (paintAll mask slices).length = mask.length := by
  induction slices generalizing mask with
  | nil => rfl
  | cons slice slices ih => exact (ih _).trans (length_paint _ _ _)

theorem binary_paintAll {mask : List UInt8} (binary : Binary mask) (slices : List (ℕ × ℕ)) :
    Binary (paintAll mask slices) := by
  induction slices generalizing mask with
  | nil => exact binary
  | cons slice slices ih => exact ih (binary_paint binary _ _)

theorem binary_replicate_zero (length : ℕ) : Binary (List.replicate length 0) := by
  intro byte member
  exact .inl (List.eq_of_mem_replicate member)

/-- The page mask with the given slices set to ink and nothing else. -/
def PageMask.ofSlices (page : Page) (slices : List (ℕ × ℕ)) : PageMask page where
  bytes := paintAll (List.replicate (page.width * page.height) 0) slices
  size := by simp
  binary := binary_paintAll (binary_replicate_zero _) slices

/-- The slice of the page mask that one component's run paints. -/
def runSlice (width : ℕ) (run : Run) : ℕ × ℕ :=
  ((run.y * (width : ℤ) + run.x0 : ℤ).toNat, (run.y * (width : ℤ) + run.x1 : ℤ).toNat)

/-- The scanlines that hold ink at or below a level, each with its runs. -/
def inkRunsByRow (page : Page) (threshold : ℤ) : List (ℤ × List (ℤ × ℤ)) :=
  (page.rows.zipIdx.map fun (row, y) =>
    ((y : ℤ), (runsInRow (row.map fun value => if (value.toNat : ℤ) ≤ threshold then 1 else 0)).map
      fun (x0, x1) => ((x0 : ℤ), (x1 : ℤ)))).filter fun (_, runs) => runs ≠ []

def pageSpanningComponents (page : Page) (background : PageBackground)
    (coveragePolicy : CoverageAuditPolicy) :
    Except Refusal (List Component × PageMask page) := do
  let threshold ← inkThreshold background.backgroundLevel background.inkMargin
  let labelled ← labelComponentRuns (inkRunsByRow page threshold) coveragePolicy.gapTolerancePx
  let area : ℤ := page.width * page.height
  let found := labelled.filter fun (component, _) =>
    ¬ (component.bounds.w * component.bounds.h * basisPoints) / area <
      coveragePolicy.pageSpanningAreaBp
  let slices := found.flatMap fun (_, runs) => runs.map (runSlice page.width)
  return (found.map Prod.fst, PageMask.ofSlices page slices)

def pageInkBasis (page : Page) (backgroundPolicy : BackgroundPolicy)
    (coveragePolicy : CoverageAuditPolicy) : Except Refusal (PageInkBasis page) := do
  let background ← pageBackground page backgroundPolicy
  let (spanning, spanningMask) ← pageSpanningComponents page background coveragePolicy
  let table ← inkTable background.backgroundLevel
  return {
    background
    spanningComponents := spanning.map Component.bounds
    spanningMask
    inkTable := table }

def clamp (value : ℤ) (limit : ℕ) : ℕ := (max 0 (min value limit)).toNat

/-- The slices of one covered box, clipped to the page, row by row. -/
def boxSlices (page : Page) (bounds : Bounds) : List (ℕ × ℕ) :=
  let x0 := clamp bounds.x page.width
  let y0 := clamp bounds.y page.height
  let x1 := max x0 (clamp (bounds.x + bounds.w) page.width)
  let y1 := max y0 (clamp (bounds.y + bounds.h) page.height)
  (List.range' y0 (y1 - y0)).map fun y => (y * page.width + x0, y * page.width + x1)

def coveredMask (page : Page) (covered : List Bounds) : PageMask page :=
  PageMask.ofSlices page (covered.flatMap (boxSlices page))

/-- The counts one scanline adds to the page's. -/
structure RowCounts where
  pageInk : ℕ
  spanningInk : ℕ
  totalInk : ℕ
  outsideInk : ℕ

/-- The scanline's ink, with the page-spanning component taken out of it. -/
def auditedBits {page : Page} (basis : PageInkBasis page) (y : ℕ) (row : List UInt8) : ℕ :=
  Nat.ldiff (fromBytes (row.map basis.inkTable.entry))
    (rowBits basis.spanningMask.bytes y page.width)

def rowCounts {page : Page} (basis : PageInkBasis page) (covered : List UInt8) (row : List UInt8)
    (y : ℕ) : RowCounts :=
  let inkRow := row.map basis.inkTable.entry
  let inkBits := fromBytes inkRow
  let spanningBits := rowBits basis.spanningMask.bytes y page.width
  { pageInk := inkRow.count 1
    spanningInk := bitCount (inkBits &&& spanningBits)
    totalInk := bitCount (auditedBits basis y row)
    outsideInk := bitCount (Nat.ldiff (auditedBits basis y row) (rowBits covered y page.width)) }

/-- The residual counts of a page, the ratio of the ink outside coverage, and the gate. -/
structure ResidualFinding (float : FloatArithmetic) where
  background : PageBackground
  pageInkPixels : ℤ
  pageSpanningInkPixels : ℤ
  pageSpanningComponents : List Bounds
  totalInkPixels : ℤ
  outsideInkPixels : ℤ
  fractionOutside : float.Value
  flagged : Bool
  substantialInkPixels : ℤ

section Counts

variable (float : FloatArithmetic)

def residualCounts {page : Page} (covered : List Bounds) (basis : PageInkBasis page)
    (coveragePolicy : CoverageAuditPolicy) : ResidualFinding float :=
  let mask := coveredMask page covered
  let counts := page.rows.zipIdx.map fun (row, y) => rowCounts basis mask.bytes row y
  let totalInk := (counts.map RowCounts.totalInk).sum
  let outsideInk := (counts.map RowCounts.outsideInk).sum
  let gate := policyFlag float totalInk outsideInk coveragePolicy
  { background := basis.background
    pageInkPixels := (counts.map RowCounts.pageInk).sum
    pageSpanningInkPixels := (counts.map RowCounts.spanningInk).sum
    pageSpanningComponents := basis.spanningComponents
    totalInkPixels := totalInk
    outsideInkPixels := outsideInk
    fractionOutside := gate.1
    flagged := gate.2
    substantialInkPixels := coveragePolicy.substantialInkPixels }

/-- Retained ink runs as any reader receives them, each run a list of integers. -/
structure InkRunEvidence where
  schema : String
  width : ℤ
  height : ℤ
  rows : List (List (List ℤ))
  deriving DecidableEq

def auditedRuns {page : Page} (basis : PageInkBasis page) : InkRunEvidence where
  schema := inkRunsSchema
  width := page.width
  height := page.height
  rows := page.rows.zipIdx.map fun (row, y) =>
    (runsInRow (toBytes page.width (auditedBits basis y row))).map fun (start, stop) =>
      [(start : ℤ), (stop : ℤ) - start]

def validatedInkRunEvidence (evidence : InkRunEvidence) :
    Except Refusal (ℤ × ℤ × List (List (List ℤ))) := do
  require (evidence.schema = inkRunsSchema)
    (.valueError "ink-run evidence has the wrong schema")
  require (0 < evidence.width ∧ 0 < evidence.height ∧ evidence.rows.length = evidence.height)
    (.valueError "ink-run evidence has invalid dimensions")
  return (evidence.width, evidence.height, evidence.rows)

/-- A row's runs as ordered, disjoint half-open spans, none before the end already reached. -/
def validatedInkRunsFrom (width : ℤ) : ℤ → List (List ℤ) → Except Refusal (List Span)
  | _, [] => .ok []
  | previousEnd, run :: rest => do
    match run with
    | [start, length] =>
      let stop := start + length
      require (¬ (start < previousEnd ∨ length ≤ 0 ∨ stop > width))
        (.valueError "ink-run evidence has unordered or out-of-bounds runs")
      let runs ← validatedInkRunsFrom width stop rest
      return (start, stop) :: runs
    | _ => .error (.valueError "ink-run evidence has a malformed run")

def validatedInkRuns (row : List (List ℤ)) (width : ℤ) : Except Refusal (List Span) :=
  validatedInkRunsFrom width 0 row

/-- The covered intervals of one row, clipped to the page. -/
def rowIntervals (covered : List Bounds) (y width : ℤ) : List Span :=
  (covered.filter fun bounds => bounds.y ≤ y ∧ y < bounds.y + bounds.h).map fun bounds =>
    (max 0 (min bounds.x width), max 0 (min (bounds.x + bounds.w) width))

def rowCoverage (covered : List Bounds) (y width : ℤ) : List Span :=
  mergeSorted ((rowIntervals covered y width).insertionSort fun first second =>
    toLex first ≤ toLex second)

/-- The ink of one row's runs inside the counted intervals and outside the coverage. -/
def rowOutside (runs counted coverage : List Span) : ℤ :=
  (runs.map fun run => (counted.map fun interval =>
    let start := max run.1 interval.1
    let stop := min run.2 interval.2
    if start < stop then uncoveredLength stop start coverage else 0).sum).sum

/-- All retained ink, and the ink in each row's counted intervals outside the covered boxes. -/
def inkOutside (width : ℤ) (rows : List (List (List ℤ))) (covered : List Bounds)
    (counted : ℤ → List Span) : Except Refusal (ℤ × ℤ) := do
  let measured ← rows.zipIdx.mapM fun (row, y) => do
    let runs ← validatedInkRuns row width
    return ((runs.map fun run => run.2 - run.1).sum,
      rowOutside runs (counted y) (rowCoverage covered y width))
  return ((measured.map Prod.fst).sum, (measured.map Prod.snd).sum)

/-- A coverage measure taken over retained runs. -/
structure RunFinding where
  totalInkPixels : ℤ
  outsideInkPixels : ℤ
  fractionOutside : float.Value
  flagged : Bool
  substantialInkPixels : ℤ

def residualInkFromRuns (evidence : InkRunEvidence) (covered : List Bounds)
    (coveragePolicy : CoverageAuditPolicy) : Except Refusal (RunFinding float) := do
  let (width, _, rows) ← validatedInkRunEvidence evidence
  let (totalInk, outsideInk) ← inkOutside width rows covered fun _ => [(0, width)]
  let gate := policyFlag float totalInk outsideInk coveragePolicy
  return {
    totalInkPixels := totalInk
    outsideInkPixels := outsideInk
    fractionOutside := gate.1
    flagged := gate.2
    substantialInkPixels := coveragePolicy.substantialInkPixels }

def unclaimedEdgeInk : String := "unclaimed-edge-ink"

/-- A perimeter measure taken over retained runs. -/
structure EdgeRunFinding extends RunFinding float where
  edgeBandPixels : ℤ
  namedFinding : String

/-- On a narrow page the side bands touch, so the row is one interval and no run counts twice. -/
def edgeIntervals (width height band y : ℤ) : List Span :=
  if y < band ∨ y ≥ height - band ∨ width ≤ 2 * band then [(0, width)]
  else [(0, band), (width - band, width)]

def edgeInkFromRuns (evidence : InkRunEvidence) (covered : List Bounds)
    (coveragePolicy : CoverageAuditPolicy) : Except Refusal (EdgeRunFinding float) := do
  let (width, height, rows) ← validatedInkRunEvidence evidence
  let band := edgeBand width height coveragePolicy
  let (totalInk, outsideInk) ← inkOutside width rows covered (edgeIntervals width height band)
  let gate := policyFlag float totalInk outsideInk coveragePolicy
  return {
    totalInkPixels := totalInk
    outsideInkPixels := outsideInk
    fractionOutside := gate.1
    flagged := gate.2
    substantialInkPixels := coveragePolicy.substantialInkPixels
    edgeBandPixels := band
    namedFinding := unclaimedEdgeInk }

/-- The producer's perimeter finding, its paper evidence still in it. -/
structure EdgeCounts extends ResidualFinding float where
  edgeBandPixels : ℤ
  namedFinding : String

def edgeCounts {page : Page} (basis : PageInkBasis page) (coveragePolicy : CoverageAuditPolicy) :
    EdgeCounts float :=
  let band := edgeBand page.width page.height coveragePolicy
  let covered : List Bounds :=
    if 2 * band ≥ page.width ∨ 2 * band ≥ page.height then []
    else [⟨band, band, page.width - 2 * band, page.height - 2 * band⟩]
  { residualCounts float covered basis coveragePolicy with
    edgeBandPixels := band
    namedFinding := unclaimedEdgeInk }

/-- The perimeter finding the Ink Map publishes, beside the page's paper rather than with it. -/
structure EdgeFinding where
  pageInkPixels : ℤ
  pageSpanningInkPixels : ℤ
  pageSpanningComponents : List Bounds
  totalInkPixels : ℤ
  outsideInkPixels : ℤ
  fractionOutside : float.Value
  flagged : Bool
  substantialInkPixels : ℤ
  edgeBandPixels : ℤ
  namedFinding : String

/-- Everything the Ink Map publishes for one page, from one inference and one labelling. -/
structure InkMapPage where
  background : PageBackground
  edge : EdgeFinding float
  edgeFindings : InkRunEvidence

def inkMapPage (page : Page) (backgroundPolicy : BackgroundPolicy)
    (coveragePolicy : CoverageAuditPolicy) : Except Refusal (InkMapPage float) := do
  let basis ← pageInkBasis page backgroundPolicy coveragePolicy
  let edge := edgeCounts float basis coveragePolicy
  return {
    background := basis.background
    edge := {
      pageInkPixels := edge.pageInkPixels
      pageSpanningInkPixels := edge.pageSpanningInkPixels
      pageSpanningComponents := edge.pageSpanningComponents
      totalInkPixels := edge.totalInkPixels
      outsideInkPixels := edge.outsideInkPixels
      fractionOutside := edge.fractionOutside
      flagged := edge.flagged
      substantialInkPixels := edge.substantialInkPixels
      edgeBandPixels := edge.edgeBandPixels
      namedFinding := edge.namedFinding }
    edgeFindings := auditedRuns basis }

end Counts

/-- A closed edge finding as an artifact holds it: integers only, its ratio per million. -/
structure RecordedEdgeFinding where
  pageInkPixels : ℤ
  pageSpanningInkPixels : ℤ
  pageSpanningComponents : List Bounds
  totalInkPixels : ℤ
  outsideInkPixels : ℤ
  fractionOutsidePerMillion : ℤ
  flagged : Bool
  substantialInkPixels : ℤ
  edgeBandPixels : ℤ
  namedFinding : String

/-- The stage writes a published finding's ratio as a rounded integer per million. -/
def artifactFinding {float : FloatArithmetic} (finding : EdgeFinding float) :
    RecordedEdgeFinding where
  pageInkPixels := finding.pageInkPixels
  pageSpanningInkPixels := finding.pageSpanningInkPixels
  pageSpanningComponents := finding.pageSpanningComponents
  totalInkPixels := finding.totalInkPixels
  outsideInkPixels := finding.outsideInkPixels
  fractionOutsidePerMillion := float.perMillion finding.fractionOutside
  flagged := finding.flagged
  substantialInkPixels := finding.substantialInkPixels
  edgeBandPixels := finding.edgeBandPixels
  namedFinding := finding.namedFinding

section Reconcile

variable (float : FloatArithmetic) (finding : RecordedEdgeFinding) (evidence : InkRunEvidence)

def edgeCountFields : List (String × ℤ) :=
  [("page_ink_pixels", finding.pageInkPixels),
    ("page_spanning_ink_pixels", finding.pageSpanningInkPixels),
    ("total_ink_pixels", finding.totalInkPixels),
    ("outside_ink_pixels", finding.outsideInkPixels),
    ("fraction_outside_per_million", finding.fractionOutsidePerMillion),
    ("substantial_ink_pixels", finding.substantialInkPixels),
    ("edge_band_pixels", finding.edgeBandPixels)]

/-- A gate and a band are positive; every other count is non-negative. -/
def countFloor (field : String) : ℤ :=
  if field ∈ ["substantial_ink_pixels", "edge_band_pixels"] then 1 else 0

def checkedCount (field : String × ℤ) : Except Refusal Unit :=
  let qualifier := if countFloor field.1 = 1 then "positive" else "non-negative"
  require (countFloor field.1 ≤ field.2)
    (.contractError s!"the ink-map edge finding {field.1} is not a {qualifier} integer")

def checkedComponent (component : Bounds) : Except Refusal Unit :=
  require (¬ (component.x < 0 ∨ component.y < 0 ∨ component.w ≤ 0 ∨ component.h ≤ 0 ∨
      component.x + component.w > evidence.width ∨ component.y + component.h > evidence.height))
    (.contractError "the ink-map edge finding has out-of-page component bounds")

/-- The fields the retained runs measure again, each with whether the two agree. -/
def runDerivedEdgeFields (measured : EdgeRunFinding float) : List (String × Bool) :=
  [("total_ink_pixels", finding.totalInkPixels = measured.totalInkPixels),
    ("outside_ink_pixels", finding.outsideInkPixels = measured.outsideInkPixels),
    ("flagged", finding.flagged = measured.flagged),
    ("substantial_ink_pixels", finding.substantialInkPixels = measured.substantialInkPixels),
    ("edge_band_pixels", finding.edgeBandPixels = measured.edgeBandPixels),
    ("named_finding", finding.namedFinding = measured.namedFinding)]

def checkedAgreement (field : String × Bool) : Except Refusal Unit :=
  require field.2 (.contractError
    s!"the ink-map edge finding {field.1} disagrees with its retained runs")

/-- A refusal of the retained runs is the reader's own refusal of the record. -/
def measuredEdge (coveragePolicy : CoverageAuditPolicy) : Except Refusal (EdgeRunFinding float) :=
  match edgeInkFromRuns float evidence [] coveragePolicy with
  | .error error =>
    .error (.contractError s!"the retained ink-run evidence is invalid: {error.message}")
  | .ok measured => .ok measured

/-- The types of a finding and its runs already close their records and their fields. -/
def reconcileEdgeFindingWithRuns (coveragePolicy : CoverageAuditPolicy)
    (expectedDimensions : ℤ × ℤ) : Except Refusal (EdgeRunFinding float) := do
  let measured ← measuredEdge float evidence coveragePolicy
  require ((evidence.width, evidence.height) = expectedDimensions) (.contractError
    (s!"the retained ink-run evidence is {evidence.width}x{evidence.height}, not " ++
    s!"the sealed page's {expectedDimensions.1}x{expectedDimensions.2}"))
  (edgeCountFields finding).forM checkedCount
  require (finding.fractionOutsidePerMillion ≤ 1000000)
    (.contractError "the ink-map edge finding fraction exceeds one million")
  require (finding.outsideInkPixels ≤ finding.totalInkPixels)
    (.contractError "the ink-map edge finding has more outside than total ink")
  require (finding.pageSpanningInkPixels ≤ finding.pageInkPixels)
    (.contractError "the ink-map edge finding has more spanning than page ink")
  require (finding.pageInkPixels = finding.pageSpanningInkPixels + finding.totalInkPixels)
    (.contractError "the ink-map edge finding does not partition page ink")
  require (¬ (finding.pageInkPixels > evidence.width * evidence.height ∨
      finding.totalInkPixels > evidence.width * evidence.height))
    (.contractError "the ink-map edge finding exceeds the retained page area")
  require (finding.namedFinding = unclaimedEdgeInk)
    (.contractError "the ink-map edge finding has the wrong named finding")
  finding.pageSpanningComponents.forM (checkedComponent evidence)
  require (¬ (finding.pageSpanningComponents = [] ∧ finding.pageSpanningInkPixels ≠ 0))
    (.contractError "the ink-map edge finding has page-spanning ink without component bounds")
  require (finding.pageSpanningInkPixels ≤
      (finding.pageSpanningComponents.map fun component => component.w * component.h).sum)
    (.contractError "the ink-map edge finding page-spanning ink exceeds its component bounds")
  (runDerivedEdgeFields float finding measured).forM checkedAgreement
  require (finding.fractionOutsidePerMillion = float.perMillion measured.fractionOutside)
    (.contractError ("the ink-map edge finding fraction_outside_per_million disagrees with its " ++
      "retained runs"))
  return measured

end Reconcile

end Verbatus.Ink
