import Mathlib.Tactic
import Verbatus.Ink.ComponentBounds

namespace Verbatus.Ink

open Library.Checked Library.Spans Library.ByteRow

section Gate

variable (float : FloatArithmetic) {width height : ℤ}

/-- A resolved policy's band and gate are at least one pixel. -/
theorem resolveCoverageAuditPolicy_positive (config : CoverageAuditConfig) (width height : ℕ) :
    1 ≤ (resolveCoverageAuditPolicy config width height).edgeBandPx ∧
      1 ≤ (resolveCoverageAuditPolicy config width height).substantialInkPixels := by
  have minimum := config.minimumInkPositive
  constructor
  · exact le_max_left _ _
  · exact (show 1 ≤ config.minimumInkPixels by omega).trans (le_max_left _ _)

theorem edgeBand_positive (width height : ℕ) {coveragePolicy : CoverageAuditPolicy}
    (positive : 1 ≤ coveragePolicy.edgeBandPx) : 1 ≤ edgeBand width height coveragePolicy := by
  unfold edgeBand
  omega

theorem edgeIntervals_ordered (height : ℤ) {band : ℤ} (wide : 0 < width) (positive : 1 ≤ band) (y : ℤ) :
    Ordered (edgeIntervals width height band y) := by
  unfold edgeIntervals
  split_ifs with whole
  · exact ⟨by simpa using wide, List.pairwise_singleton _ _⟩
  · rw [not_or, not_or] at whole
    refine ⟨?_, List.pairwise_pair.mpr (by dsimp only; omega)⟩
    intro span member
    simp only [List.mem_cons, List.not_mem_nil, or_false] at member
    rcases member with rfl | rfl <;> dsimp only <;> omega

/-- The perimeter's row intervals are what the inner rectangle leaves of the page. -/
theorem edgeIntervals_covers {band x y : ℤ} (onPage : (0 ≤ x ∧ x < width) ∧ 0 ≤ y ∧ y < height) :
    Covers (edgeIntervals width height band y) x ↔
      ¬ InCoverage (if 2 * band ≥ width ∨ 2 * band ≥ height then []
        else [⟨band, band, width - 2 * band, height - 2 * band⟩]) x y := by
  unfold edgeIntervals
  simp only [InCoverage]
  split_ifs with whole meet meet
  · simp only [covers_cons, covers_nil, or_false, List.not_mem_nil, false_and, exists_false,
      not_false_eq_true, iff_true]
    exact onPage.1
  · simp only [covers_cons, covers_nil, or_false, List.mem_singleton, exists_eq_left, Bounds.Holds]
    omega
  · omega
  · simp only [covers_cons, covers_nil, or_false, List.mem_singleton, exists_eq_left, Bounds.Holds]
    omega

/-- The recorded ratio of a part to its whole is between zero and one million. -/
theorem perMillion_policyFlag {part whole : ℤ} (coveragePolicy : CoverageAuditPolicy)
    (nonnegative : 0 ≤ part) (inside : part ≤ whole) :
    0 ≤ float.perMillion (policyFlag float whole part coveragePolicy).1 ∧
      float.perMillion (policyFlag float whole part coveragePolicy).1 ≤ 1000000 := by
  change 0 ≤ float.perMillion (if whole ≠ 0 then _ else _) ∧
    float.perMillion (if whole ≠ 0 then _ else _) ≤ 1000000
  split_ifs with some
  · exact float.perMillion_divide part whole nonnegative inside (by omega)
  · rw [float.perMillion_zero]
    omega

end Gate

section Totals

variable {page : Page} (basis : PageInkBasis page)

/-- The rows of a page are as many as its height, whatever is added up over them. -/
theorem sum_rows (value : ℕ → ℕ) :
    (page.rows.zipIdx.map fun entry => value entry.2).sum =
      ((List.range page.height).map value).sum := by
  have indices := List.zipIdx_map_snd 0 page.rows
  rw [page.rowCount, ← List.range_eq_range'] at indices
  rw [← indices, List.map_map]
  rfl

/-- One box holds at most its area of the page's pixels. -/
theorem sum_boxes_le (page : Page) {boxes : List Bounds}
    (nonnegative : ∀ bounds ∈ boxes, 0 ≤ bounds.w ∧ 0 ≤ bounds.h) :
    ((((List.range page.height).map fun y : ℕ =>
      count 0 page.width fun x => InCoverage boxes x y).sum : ℕ) : ℤ) ≤
      (boxes.map fun bounds => bounds.w * bounds.h).sum := by
  induction boxes with
  | nil =>
      have empty (y : ℕ) : (count 0 page.width fun x => InCoverage [] x y) = 0 := by
        apply count_eq_zero
        rintro x _ _ ⟨bounds, member, -⟩
        exact List.not_mem_nil member
      simp [empty]
  | cons bounds boxes ih =>
      have rest := ih fun other member => nonnegative other (.tail _ member)
      obtain ⟨width, height⟩ := nonnegative bounds (.head _)
      obtain ⟨w, wEq⟩ := Int.eq_ofNat_of_zero_le width
      have perRow (y : ℕ) : (count 0 page.width fun x => InCoverage (bounds :: boxes) x y) ≤
          (if bounds.y ≤ (y : ℤ) ∧ (y : ℤ) < bounds.y + bounds.h then w else 0) +
            count 0 page.width fun x => InCoverage boxes x y := by
        have union : (count 0 page.width fun x => InCoverage (bounds :: boxes) x y) ≤
            (count 0 page.width fun x => bounds.Holds x y) +
              count 0 page.width fun x => InCoverage boxes x y :=
          (count_congr fun x _ _ => by rw [InCoverage, List.exists_mem_cons_iff]; rfl).le.trans
            count_or_le
        refine union.trans (Nat.add_le_add_right ?_ _)
        split_ifs with inside
        · have within : ((count 0 page.width fun x => bounds.Holds x y : ℕ) : ℤ) ≤
              max 0 (bounds.x + bounds.w - bounds.x) := count_within_le fun x held => held.1
          omega
        · exact (count_eq_zero fun x _ _ held => inside held.2).le
      have summed := List.sum_le_sum (l := List.range page.height) fun y _ => perRow y
      rw [List.sum_map_add, sum_range_weight (fun y =>
        bounds.y ≤ y ∧ y < bounds.y + bounds.h)] at summed
      have rows : ((count 0 page.height fun y => bounds.y ≤ y ∧ y < bounds.y + bounds.h : ℕ) : ℤ) ≤
          max 0 (bounds.y + bounds.h - bounds.y) := count_within_le fun y held => held
      have area : (w : ℤ) * (count 0 page.height fun y => bounds.y ≤ y ∧ y < bounds.y + bounds.h : ℕ) ≤
          bounds.w * bounds.h := by
        rw [wEq]
        exact Int.mul_le_mul_of_nonneg_left (by omega) (by omega)
      rw [List.map_cons, List.sum_cons]
      have cast := Int.ofNat_le.mpr summed
      push_cast at cast rest ⊢
      omega

variable (float : FloatArithmetic) (covered : List Bounds) (coveragePolicy : CoverageAuditPolicy)

/-- Page ink is the ink on the page-spanning component and the audited ink. -/
theorem residualCounts_pageInk :
    (residualCounts float covered basis coveragePolicy).pageInkPixels =
      (residualCounts float covered basis coveragePolicy).pageSpanningInkPixels +
        (residualCounts float covered basis coveragePolicy).totalInkPixels := by
  change (((page.rows.zipIdx.map fun entry => rowCounts basis (coveredMask page covered).bytes
      entry.1 entry.2).map RowCounts.pageInk).sum : ℤ) =
    ((page.rows.zipIdx.map fun entry => rowCounts basis (coveredMask page covered).bytes
      entry.1 entry.2).map RowCounts.spanningInk).sum +
    ((page.rows.zipIdx.map fun entry => rowCounts basis (coveredMask page covered).bytes
      entry.1 entry.2).map RowCounts.totalInk).sum
  rw [← Nat.cast_add, List.map_map, List.map_map, List.map_map, ← List.sum_map_add]
  congr 2
  apply List.map_congr_left
  rintro ⟨row, y⟩ member
  obtain ⟨wide, inside⟩ := row_of_mem_zipIdx member
  exact pageInk_eq basis wide inside _

theorem residualCounts_pageInk_le :
    (residualCounts float covered basis coveragePolicy).pageInkPixels ≤
      (page.width : ℤ) * page.height := by
  change (((page.rows.zipIdx.map fun entry => rowCounts basis (coveredMask page covered).bytes
      entry.1 entry.2).map RowCounts.pageInk).sum : ℤ) ≤ _
  have bound : ∀ ink ∈ (page.rows.zipIdx.map fun entry => rowCounts basis
      (coveredMask page covered).bytes entry.1 entry.2).map RowCounts.pageInk, ink ≤ page.width := by
    intro ink member
    rw [List.map_map, List.mem_map] at member
    obtain ⟨⟨row, y⟩, listed, rfl⟩ := member
    obtain ⟨wide, -⟩ := row_of_mem_zipIdx listed
    exact List.count_le_length.trans_eq ((List.length_map _).trans wide)
  have total := List.sum_le_card_nsmul _ _ bound
  rw [List.length_map, List.length_map, List.length_zipIdx, page.rowCount, smul_eq_mul,
    Nat.mul_comm] at total
  exact_mod_cast total

/-- Page-spanning ink is no more than the area of the boxes that bound it. -/
theorem residualCounts_spanningInk_le (bounded : SpanningBounded basis) :
    (residualCounts float covered basis coveragePolicy).pageSpanningInkPixels ≤
      (basis.spanningComponents.map fun bounds => bounds.w * bounds.h).sum := by
  change (((page.rows.zipIdx.map fun entry => rowCounts basis (coveredMask page covered).bytes
      entry.1 entry.2).map RowCounts.spanningInk).sum : ℤ) ≤ _
  have perRow : ((page.rows.zipIdx.map fun entry => rowCounts basis
      (coveredMask page covered).bytes entry.1 entry.2).map RowCounts.spanningInk).sum ≤
      (page.rows.zipIdx.map fun entry => count 0 page.width fun x =>
        InCoverage basis.spanningComponents x entry.2).sum := by
    rw [List.map_map]
    apply List.sum_le_sum
    rintro ⟨row, y⟩ member
    obtain ⟨wide, inside⟩ := row_of_mem_zipIdx member
    exact spanningInk_le basis wide inside _ (bounded.held y inside)
  rw [sum_rows fun y : ℕ => count 0 page.width fun x =>
    InCoverage basis.spanningComponents x y] at perRow
  have area := sum_boxes_le page fun bounds (member : bounds ∈ basis.spanningComponents) =>
    ⟨(bounded.onPage bounds member).wide.le, (bounded.onPage bounds member).tall.le⟩
  omega

end Totals

section Published

variable (float : FloatArithmetic) {page : Page} (basis : PageInkBasis page)
  (coveragePolicy : CoverageAuditPolicy)

/-- The perimeter the runs are read for is the perimeter the pixels were measured for. -/
theorem edgeInkFromRuns_auditedRuns (positive : 1 ≤ coveragePolicy.edgeBandPx) :
    edgeInkFromRuns float (auditedRuns basis) [] coveragePolicy =
      .ok {
        totalInkPixels := (edgeCounts float basis coveragePolicy).totalInkPixels
        outsideInkPixels := (edgeCounts float basis coveragePolicy).outsideInkPixels
        fractionOutside := (edgeCounts float basis coveragePolicy).fractionOutside
        flagged := (edgeCounts float basis coveragePolicy).flagged
        substantialInkPixels := (edgeCounts float basis coveragePolicy).substantialInkPixels
        edgeBandPixels := (edgeCounts float basis coveragePolicy).edgeBandPixels
        namedFinding := (edgeCounts float basis coveragePolicy).namedFinding } := by
  set band := edgeBand page.width page.height coveragePolicy with bandEq
  have measured := inkOutside_auditedRuns basis [] (edgeIntervals_ordered page.height
    (Int.natCast_pos.mpr page.widthPositive)
    (edgeBand_positive page.width page.height positive))
  have outside : (auditedInk basis fun x y => Covers (edgeIntervals page.width page.height band y) x ∧
      ¬ InCoverage [] x y) = auditedInk basis fun x y => ¬ InCoverage
        (if 2 * band ≥ page.width ∨ 2 * band ≥ page.height then []
        else [⟨band, band, page.width - 2 * band, page.height - 2 * band⟩]) x y := by
    apply auditedInk_congr
    intro x y left right above below
    rw [edgeIntervals_covers ⟨⟨left, right⟩, above, below⟩]
    exact and_iff_left fun ⟨bounds, member, _⟩ => List.not_mem_nil member
  rw [outside, ← residualCounts_total basis float _ coveragePolicy,
    ← residualCounts_outside basis float _ coveragePolicy] at measured
  rw [edgeInkFromRuns, validatedInkRunEvidence_auditedRuns, ok_bind]
  change (inkOutside _ _ _ _ >>= _) = _
  rw [measured, ok_bind]
  rfl

/-- The finding as the stage writes it, from the counts alone. -/
def recordedEdge : RecordedEdgeFinding where
  pageInkPixels := (edgeCounts float basis coveragePolicy).pageInkPixels
  pageSpanningInkPixels := (edgeCounts float basis coveragePolicy).pageSpanningInkPixels
  pageSpanningComponents := (edgeCounts float basis coveragePolicy).pageSpanningComponents
  totalInkPixels := (edgeCounts float basis coveragePolicy).totalInkPixels
  outsideInkPixels := (edgeCounts float basis coveragePolicy).outsideInkPixels
  fractionOutsidePerMillion :=
    float.perMillion (edgeCounts float basis coveragePolicy).fractionOutside
  flagged := (edgeCounts float basis coveragePolicy).flagged
  substantialInkPixels := (edgeCounts float basis coveragePolicy).substantialInkPixels
  edgeBandPixels := (edgeCounts float basis coveragePolicy).edgeBandPixels
  namedFinding := (edgeCounts float basis coveragePolicy).namedFinding

/-- What the reconciliation checks of a finding before it compares it with its runs. -/
structure Sound (finding : RecordedEdgeFinding) (width height : ℤ) : Prop where
  total : 0 ≤ finding.totalInkPixels
  spanning : 0 ≤ finding.pageSpanningInkPixels
  outside : 0 ≤ finding.outsideInkPixels
  inside : finding.outsideInkPixels ≤ finding.totalInkPixels
  partition : finding.pageInkPixels = finding.pageSpanningInkPixels + finding.totalInkPixels
  area : finding.pageInkPixels ≤ width * height
  onPage : ∀ bounds ∈ finding.pageSpanningComponents, bounds.OnPage width height
  boxes : finding.pageSpanningInkPixels ≤
    (finding.pageSpanningComponents.map fun bounds => bounds.w * bounds.h).sum
  ratioNonnegative : 0 ≤ finding.fractionOutsidePerMillion
  ratio : finding.fractionOutsidePerMillion ≤ 1000000
  gate : 1 ≤ finding.substantialInkPixels
  band : 1 ≤ finding.edgeBandPixels
  named : finding.namedFinding = unclaimedEdgeInk

theorem recordedEdge_sound (bounded : SpanningBounded basis)
    (bandPositive : 1 ≤ coveragePolicy.edgeBandPx)
    (gatePositive : 1 ≤ coveragePolicy.substantialInkPixels) :
    Sound (recordedEdge float basis coveragePolicy) page.width page.height := by
  let band := edgeBand page.width page.height coveragePolicy
  let covered : List Bounds :=
    if 2 * band ≥ page.width ∨ 2 * band ≥ page.height then []
    else [⟨band, band, page.width - 2 * band, page.height - 2 * band⟩]
  have total := residualCounts_total basis float covered coveragePolicy
  have outside := residualCounts_outside basis float covered coveragePolicy
  have outsideNonnegative :
      0 ≤ (residualCounts float covered basis coveragePolicy).outsideInkPixels := by
    rw [outside]
    exact Int.natCast_nonneg _
  have inside : (residualCounts float covered basis coveragePolicy).outsideInkPixels ≤
      (residualCounts float covered basis coveragePolicy).totalInkPixels := by
    rw [total, outside, Nat.cast_le]
    exact auditedInk_mono fun _ _ _ => trivial
  have ratio := perMillion_policyFlag float coveragePolicy outsideNonnegative inside
  exact {
    total := outsideNonnegative.trans inside
    spanning := Int.natCast_nonneg _
    outside := outsideNonnegative
    inside
    partition := residualCounts_pageInk basis float covered coveragePolicy
    area := residualCounts_pageInk_le basis float covered coveragePolicy
    onPage := bounded.onPage
    boxes := residualCounts_spanningInk_le basis float covered coveragePolicy bounded
    ratioNonnegative := ratio.1
    ratio := ratio.2
    gate := gatePositive
    band := edgeBand_positive _ _ bandPositive
    named := rfl }

theorem Sound.counts {finding : RecordedEdgeFinding} {width height : ℤ}
    (sound : Sound finding width height) :
    ∀ field ∈ edgeCountFields finding, checkedCount field = .ok () := by
  have pageInk : 0 ≤ finding.pageInkPixels := by
    rw [sound.partition]
    exact add_nonneg sound.spanning sound.total
  intro field member
  rw [checkedCount, require_eq_ok]
  simp only [edgeCountFields, List.mem_cons, List.not_mem_nil, or_false] at member
  rcases member with rfl | rfl | rfl | rfl | rfl | rfl | rfl
  · exact pageInk
  · exact sound.spanning
  · exact sound.total
  · exact sound.outside
  · exact sound.ratioNonnegative
  · exact sound.gate
  · exact sound.band

theorem Sound.components {finding : RecordedEdgeFinding} {evidence : InkRunEvidence}
    (sound : Sound finding evidence.width evidence.height) :
    ∀ component ∈ finding.pageSpanningComponents, checkedComponent evidence component = .ok () := by
  intro component member
  obtain ⟨left, top, wide, tall, right, bottom⟩ := sound.onPage component member
  rw [checkedComponent, require_eq_ok]
  omega

/-- A sound finding that agrees with what its runs give is accepted. -/
theorem Sound.reconciles {finding : RecordedEdgeFinding} (evidence : InkRunEvidence)
    {measured : EdgeRunFinding float} (sound : Sound finding evidence.width evidence.height)
    (accepted : edgeInkFromRuns float evidence [] coveragePolicy = .ok measured)
    (agree : ∀ field ∈ runDerivedEdgeFields float finding measured, checkedAgreement field = .ok ())
    (sameRatio : finding.fractionOutsidePerMillion = float.perMillion measured.fractionOutside) :
    reconcileEdgeFindingWithRuns float finding evidence coveragePolicy
      (evidence.width, evidence.height) = .ok measured := by
  have noInk : ¬ (finding.pageSpanningComponents = [] ∧ finding.pageSpanningInkPixels ≠ 0) := by
    rintro ⟨none, some⟩
    have boxes := sound.boxes
    rw [none, List.map_nil, List.sum_nil] at boxes
    exact some (le_antisymm boxes sound.spanning)
  have partition := sound.partition
  have total := sound.total
  have nonnegative := sound.spanning
  have inPage := sound.area
  have spanning : finding.pageSpanningInkPixels ≤ finding.pageInkPixels := by omega
  have area : ¬ (finding.pageInkPixels > evidence.width * evidence.height ∨
      finding.totalInkPixels > evidence.width * evidence.height) := by omega
  have dimensions : (evidence.width, evidence.height) = (evidence.width, evidence.height) := rfl
  rw [reconcileEdgeFindingWithRuns, measuredEdge, accepted]
  dsimp only
  rw [ok_bind, require_bind_of dimensions, forM_ok_of_forall sound.counts, ok_bind,
    require_bind_of sound.ratio, require_bind_of sound.inside, require_bind_of spanning,
    require_bind_of partition, require_bind_of area, require_bind_of sound.named,
    forM_ok_of_forall sound.components, ok_bind, require_bind_of noInk,
    require_bind_of sound.boxes, forM_ok_of_forall agree, ok_bind, require_bind_of sameRatio]
  rfl

/-- The readers accept the finding the pixels give, at the page's own dimensions. -/
theorem reconcileEdgeFindingWithRuns_recordedEdge (bounded : SpanningBounded basis)
    (bandPositive : 1 ≤ coveragePolicy.edgeBandPx)
    (gatePositive : 1 ≤ coveragePolicy.substantialInkPixels) :
    reconcileEdgeFindingWithRuns float (recordedEdge float basis coveragePolicy) (auditedRuns basis)
      coveragePolicy (page.width, page.height) =
      edgeInkFromRuns float (auditedRuns basis) [] coveragePolicy := by
  have sound := recordedEdge_sound float basis coveragePolicy bounded bandPositive gatePositive
  have runs := edgeInkFromRuns_auditedRuns float basis coveragePolicy bandPositive
  obtain ⟨measured, accepted, agree, ratio⟩ : ∃ measured,
      edgeInkFromRuns float (auditedRuns basis) [] coveragePolicy = .ok measured ∧
      (∀ field ∈ runDerivedEdgeFields float (recordedEdge float basis coveragePolicy) measured,
        checkedAgreement field = .ok ()) ∧
      (recordedEdge float basis coveragePolicy).fractionOutsidePerMillion =
        float.perMillion measured.fractionOutside := by
    refine ⟨_, runs, fun field member => ?_, rfl⟩
    rw [checkedAgreement, require_eq_ok]
    simp only [runDerivedEdgeFields, List.mem_cons, List.not_mem_nil, or_false] at member
    rcases member with rfl | rfl | rfl | rfl | rfl | rfl <;> simp [recordedEdge]
  rw [accepted]
  exact Sound.reconciles float coveragePolicy (auditedRuns basis) sound accepted agree
    ratio

/-- The published edge finding is the one its own retained runs give, and its readers accept it. -/
theorem inkMapPage_edge {config : CoverageAuditConfig} {backgroundPolicy : BackgroundPolicy}
    {published : InkMapPage float}
    (measured : inkMapPage float page backgroundPolicy
      (resolveCoverageAuditPolicy config page.width page.height) = .ok published) :
    ∃ finding,
      edgeInkFromRuns float published.edgeFindings []
        (resolveCoverageAuditPolicy config page.width page.height) = .ok finding ∧
      finding.totalInkPixels = published.edge.totalInkPixels ∧
      finding.outsideInkPixels = published.edge.outsideInkPixels ∧
      finding.flagged = published.edge.flagged ∧
      finding.edgeBandPixels = published.edge.edgeBandPixels ∧
      finding.substantialInkPixels = published.edge.substantialInkPixels ∧
      reconcileEdgeFindingWithRuns float (artifactFinding published.edge) published.edgeFindings
        (resolveCoverageAuditPolicy config page.width page.height)
        ((page.width : ℤ), (page.height : ℤ)) = .ok finding := by
  obtain ⟨basis, inferred, same⟩ := bind_eq_ok.mp measured
  rw [pure_eq_ok] at same
  subst same
  obtain ⟨band, gate⟩ := resolveCoverageAuditPolicy_positive config page.width page.height
  have bounded := pageInkBasis_spanningBounded inferred
  have runs := edgeInkFromRuns_auditedRuns float basis _ band
  have reconciled := reconcileEdgeFindingWithRuns_recordedEdge float basis _ bounded band gate
  rw [runs] at reconciled
  exact ⟨_, runs, rfl, rfl, rfl, rfl, rfl, reconciled⟩

end Published

section Example

/-- Rounding to the nearest integer, a half to the even one. -/
def roundHalfEven (value : ℚ) : ℤ :=
  let low := ⌊value⌋
  let part := value - low
  if part < 1 / 2 ∨ (part = 1 / 2 ∧ low % 2 = 0) then low else low + 1

theorem roundHalfEven_bounds {value : ℚ} {bound : ℤ} (nonnegative : 0 ≤ value)
    (below : value ≤ bound) : 0 ≤ roundHalfEven value ∧ roundHalfEven value ≤ bound := by
  have low : 0 ≤ ⌊value⌋ := Int.floor_nonneg.mpr nonnegative
  have high : ⌊value⌋ ≤ bound := Int.floor_le_iff.mpr (by linarith)
  unfold roundHalfEven
  dsimp only
  split_ifs with kept
  · exact ⟨low, high⟩
  · refine ⟨by omega, ?_⟩
    rw [not_or] at kept
    have strict : (⌊value⌋ : ℚ) < bound := by linarith [not_lt.mp kept.1]
    have := Int.cast_lt.mp strict
    omega

/-- Exact ratios, which a float ratio also is where its quotient is a short binary fraction. -/
def exactRatios : FloatArithmetic where
  Value := ℚ
  zero := 0
  divide part whole := part / whole
  perMillion value := roundHalfEven (value * 1000000)
  perMillion_zero := by simp [roundHalfEven]
  perMillion_divide part whole nonnegative inside positive := by
    have wholePositive : (0 : ℚ) < whole := by exact_mod_cast positive
    have partNonnegative : (0 : ℚ) ≤ part := by exact_mod_cast nonnegative
    have ratio : (part : ℚ) / whole ≤ 1 := (div_le_one wholePositive).mpr (by exact_mod_cast inside)
    apply roundHalfEven_bounds
    · positivity
    · push_cast
      linarith

/-- The sealed coverage-audit values. -/
def sealedCoverageAudit : CoverageAuditConfig where
  substantialInkAreaBp := 4
  edgeBandBp := 100
  minimumInkPixels := 24
  minimumFractionOutsideBp := 200
  pageSpanningAreaBp := 5000
  gapTolerancePx := 3
  substantialBounds := by decide
  edgeBandBounds := by decide
  minimumInkPositive := by decide
  fractionBounds := by decide
  spanningBounds := by decide
  gapNonnegative := by decide

/-- The sealed background values, resolved for a page two pixels wide and two tall. -/
def sealedBackground : BackgroundPolicy where
  bandPxX := 0
  bandPxY := 0
  maxInteriorDarkBp := 5000
  maxInkBp := 7000
  inkMarginBp := 3333

/-- A page of paper with ink in one corner. -/
def cornerPage : Page where
  width := 2
  height := 2
  rows := [[255, 255], [255, 0]]
  widthPositive := by decide
  heightPositive := by decide
  rowCount := rfl
  rowWidth := by decide

theorem inkMapPage_edge_cornerPage :
    ∃ published finding,
      inkMapPage exactRatios cornerPage sealedBackground
        (resolveCoverageAuditPolicy sealedCoverageAudit 2 2) = .ok published ∧
      reconcileEdgeFindingWithRuns exactRatios (artifactFinding published.edge)
        published.edgeFindings (resolveCoverageAuditPolicy sealedCoverageAudit 2 2) (2, 2) =
          .ok finding := by
  obtain ⟨published, measured, -⟩ := exists_ok_of_any (inkMapPage exactRatios cornerPage
    sealedBackground (resolveCoverageAuditPolicy sealedCoverageAudit cornerPage.width
      cornerPage.height)) (fun _ => true) (by decide +kernel)
  obtain ⟨finding, -, -, -, -, -, -, reconciled⟩ := inkMapPage_edge exactRatios measured
  exact ⟨published, finding, measured, reconciled⟩

end Example

end Verbatus.Ink
