import Mathlib.Tactic
import Verbatus.Ink.RunCoverage

namespace Verbatus.Ink

open Library.Checked Library.Spans Library.ByteRow

section Readers

variable {width : ℤ}

/-- Ordered runs inside the row are read back as the spans they were written from. -/
theorem validatedInkRunsFrom_encoded {runs : List (ℕ × ℕ)} {previousEnd : ℤ}
    (nonempty : ∀ run ∈ runs, run.1 < run.2)
    (apart : runs.Pairwise fun first second => first.2 ≤ second.1)
    (later : ∀ run ∈ runs, previousEnd ≤ run.1) (within : ∀ run ∈ runs, (run.2 : ℤ) ≤ width) :
    validatedInkRunsFrom width previousEnd
      (runs.map fun (start, stop) => [(start : ℤ), (stop : ℤ) - start]) = .ok (runSpans runs) := by
  induction runs generalizing previousEnd with
  | nil => rfl
  | cons run runs ih =>
      obtain ⟨start, stop⟩ := run
      have past := nonempty _ (.head _)
      have after := later _ (.head _)
      have short := within _ (.head _)
      obtain ⟨first, rest⟩ := List.pairwise_cons.mp apart
      dsimp only at past after short first
      have tail := @ih stop (fun run member => nonempty run (.tail _ member)) rest
        (fun run member => Int.ofNat_le.mpr (first run member))
        (fun run member => within run (.tail _ member))
      have stopEq : (start : ℤ) + ((stop : ℤ) - start) = stop := by omega
      rw [List.map_cons, validatedInkRunsFrom, require_bind_of (by omega)]
      simp only [stopEq]
      rw [tail]
      rfl

theorem validatedInkRuns_encoded {bits : List UInt8} {runs : List (ℕ × ℕ)}
    (spec : RunsFrom bits 0 runs) :
    validatedInkRuns (runs.map fun (start, stop) => [(start : ℤ), (stop : ℤ) - start]) bits.length =
      .ok (runSpans runs) :=
  validatedInkRunsFrom_encoded spec.nonempty spec.apart (fun run _ => Int.natCast_nonneg run.1)
    fun run member => Int.ofNat_le.mpr (spec.within run member).2

variable {runs : List Span}

/-- The runs' lengths add up to the points they hold. -/
theorem sum_lengths (ordered : Ordered runs) (within : ∀ run ∈ runs, 0 ≤ run.1 ∧ run.2 ≤ width) :
    (runs.map fun run => run.2 - run.1).sum = count 0 width (Covers runs) := by
  have clipped := sum_count_clipped ordered 0 width fun _ => True
  simp only [and_true] at clipped
  rw [← clipped, Nat.cast_list_sum, List.map_map]
  congr 1
  apply List.map_congr_left
  intro run member
  have nonempty := ordered.nonempty run member
  have inside := within run member
  rw [Function.comp_apply, count_all (fun _ _ _ => trivial)]
  omega

/-- The readers' walk over runs, counted intervals and coverage counts their common points. -/
theorem rowOutside_eq {counted coverage : List Span} (ordered : Ordered runs)
    (within : ∀ run ∈ runs, 0 ≤ run.1 ∧ run.2 ≤ width) (countedOrdered : Ordered counted)
    (coverageOrdered : Ordered coverage) :
    rowOutside runs counted coverage =
      count 0 width fun point => Covers runs point ∧ Covers counted point ∧
        ¬ Covers coverage point := by
  have piece (run interval : Span) :
      (if max run.1 interval.1 < min run.2 interval.2 then
        uncoveredLength (min run.2 interval.2) (max run.1 interval.1) coverage else 0) =
      ((count (max run.1 interval.1) (min run.2 interval.2) fun point =>
        ¬ Covers coverage point : ℕ) : ℤ) := by
    split_ifs with overlap
    · exact uncoveredLength_eq_count coverageOrdered _ _
    · rw [count_eq_zero (by intros; omega)]
      rfl
  have perRun (run : Span) (member : run ∈ runs) :
      (counted.map fun interval => if max run.1 interval.1 < min run.2 interval.2 then
        uncoveredLength (min run.2 interval.2) (max run.1 interval.1) coverage else 0).sum =
      ((count (max 0 run.1) (min width run.2) fun point => Covers counted point ∧
        ¬ Covers coverage point : ℕ) : ℤ) := by
    have inside := within run member
    rw [max_eq_right inside.1, min_eq_right inside.2, ← sum_count_clipped countedOrdered,
      Nat.cast_list_sum, List.map_map]
    congr 1
    exact List.map_congr_left fun interval _ => piece run interval
  rw [rowOutside, ← sum_count_clipped ordered, Nat.cast_list_sum, List.map_map]
  congr 1
  exact List.map_congr_left perRun

end Readers

section Page

variable {page : Page} (basis : PageInkBasis page)

theorem zipIdx_map_zipIdx {α β : Type} (elements : List α) (value : α × ℕ → β) :
    (elements.zipIdx.map value).zipIdx = elements.zipIdx.map fun entry => (value entry, entry.2) := by
  apply List.ext_getElem
  · simp
  · intro index _ _
    simp

/-- One row's retained runs: what the producer writes is what its audited pixels hold. -/
theorem auditedRow_runs {row : List UInt8} {y : ℕ} (member : (row, y) ∈ page.rows.zipIdx) :
    let runs := runsInRow (toBytes page.width (auditedBits basis y row))
    RunsFrom (auditedRow basis row y) 0 runs ∧
      ∀ place, Covers (runSpans runs) place ↔ Audited basis row y place := by
  obtain ⟨wide, inside⟩ := row_of_mem_zipIdx member
  have bytes : toBytes page.width (auditedBits basis y row) = auditedRow basis row y := by
    rw [auditedBits_eq basis wide inside, ← length_auditedRow basis wide inside, toBytes_fromBytes]
  have spec := runsInRow_spec (binary_zipWith_combine (fun ink spanning => ink && !spanning)
    (row.map basis.inkTable.entry) (maskRow basis.spanningMask.bytes y page.width))
  rw [← auditedRow, ← bytes] at spec
  dsimp only
  rw [← bytes]
  refine ⟨spec, fun place => ?_⟩
  rw [spec.covers, bytes, oneAt_auditedRow basis wide inside]
  constructor
  · exact And.right
  · exact fun audited => ⟨audited.1.1, audited⟩

/-- The readers' totals over the retained runs are counts of the page's audited pixels. -/
theorem inkOutside_auditedRuns (covered : List Bounds) {counted : ℤ → List Span}
    (countedOrdered : ∀ y, Ordered (counted y)) :
    inkOutside page.width (auditedRuns basis).rows covered counted =
      .ok (auditedInk basis fun _ _ => True,
        auditedInk basis fun x y => Covers (counted y) x ∧ ¬ InCoverage covered x y) := by
  have each : ∀ entry ∈ page.rows.zipIdx, (do
        let runs ← validatedInkRuns ((runsInRow (toBytes page.width
          (auditedBits basis entry.2 entry.1))).map fun (start, stop) =>
            [(start : ℤ), (stop : ℤ) - start]) page.width
        return ((runs.map fun run => run.2 - run.1).sum,
          rowOutside runs (counted entry.2) (rowCoverage covered entry.2 page.width)) :
        Except Refusal (ℤ × ℤ)) =
      .ok (((count 0 page.width fun x => Audited basis entry.1 entry.2 x ∧ True : ℕ) : ℤ),
        ((count 0 page.width fun x => Audited basis entry.1 entry.2 x ∧
          Covers (counted entry.2) x ∧ ¬ InCoverage covered x entry.2 : ℕ) : ℤ)) := by
    rintro ⟨row, y⟩ member
    obtain ⟨wide, inside⟩ := row_of_mem_zipIdx member
    obtain ⟨spec, covers⟩ := auditedRow_runs basis member
    have width := length_auditedRow basis wide inside
    have read := validatedInkRuns_encoded spec
    obtain ⟨coverageOrdered, coverageCovers⟩ := rowCoverage_spec covered y page.width
    have within : ∀ run ∈ runSpans (runsInRow (toBytes page.width (auditedBits basis y row))),
        0 ≤ run.1 ∧ run.2 ≤ page.width := by
      intro span member
      obtain ⟨run, listed, rfl⟩ := List.mem_map.mp member
      have := (spec.within run listed).2
      dsimp only
      omega
    have total : count 0 page.width (Covers (runSpans (runsInRow (toBytes page.width
        (auditedBits basis y row))))) =
        count 0 page.width fun x => Audited basis row y x ∧ True :=
      count_congr fun x _ _ => (covers x).trans (and_iff_left trivial).symm
    have outside : (count 0 page.width fun x => Covers (runSpans (runsInRow (toBytes page.width
        (auditedBits basis y row)))) x ∧ Covers (counted y) x ∧
          ¬ Covers (rowCoverage covered y page.width) x) =
        count 0 page.width fun x => Audited basis row y x ∧ Covers (counted y) x ∧
          ¬ InCoverage covered x y := by
      apply count_congr
      intro x above below
      rw [covers, coverageCovers, and_iff_right (show 0 ≤ x ∧ x < page.width from ⟨above, below⟩)]
    rw [width] at read
    rw [read, ok_bind, sum_lengths spec.ordered within, total,
      rowOutside_eq spec.ordered within (countedOrdered y) coverageOrdered, outside]
    rfl
  have rows : (auditedRuns basis).rows.zipIdx = page.rows.zipIdx.map fun entry =>
      ((runsInRow (toBytes page.width (auditedBits basis entry.2 entry.1))).map
        fun (start, stop) => [(start : ℤ), (stop : ℤ) - start], entry.2) :=
    zipIdx_map_zipIdx _ _
  rw [inkOutside, rows, List.mapM_map]
  simp only [auditedInk]
  rw [Nat.cast_list_sum, Nat.cast_list_sum]
  have measured := mapM_ok_of_forall each
  change (List.mapM _ page.rows.zipIdx >>= _) = _
  erw [measured]
  rw [ok_bind]
  simp only [List.map_map]
  rfl

/-- The audited schema and dimensions pass every reader's envelope check. -/
theorem validatedInkRunEvidence_auditedRuns :
    validatedInkRunEvidence (auditedRuns basis) =
      .ok ((page.width : ℤ), (page.height : ℤ), (auditedRuns basis).rows) := by
  have dimensions : 0 < (auditedRuns basis).width ∧ 0 < (auditedRuns basis).height ∧
      (auditedRuns basis).rows.length = (auditedRuns basis).height := by
    refine ⟨Int.natCast_pos.mpr page.widthPositive, Int.natCast_pos.mpr page.heightPositive, ?_⟩
    simp [auditedRuns, page.rowCount]
  have schema : (auditedRuns basis).schema = inkRunsSchema := rfl
  rw [validatedInkRunEvidence, require_bind_of schema, require_bind_of dimensions]
  rfl

/-- More ink outside coverage never closes the gate. -/
theorem policyFlag_mono (float : FloatArithmetic) {total outside more : ℤ}
    (coveragePolicy : CoverageAuditPolicy) (grows : outside ≤ more)
    (flagged : (policyFlag float total outside coveragePolicy).2 = true) :
    (policyFlag float total more coveragePolicy).2 = true := by
  simp only [policyFlag, coverageFlag, Bool.or_eq_true, Bool.and_eq_true, decide_eq_true_eq]
    at flagged ⊢
  unfold basisPoints at *
  rcases flagged with substantial | ⟨minimum, some, fraction⟩
  · exact .inl (by omega)
  · exact .inr ⟨by omega, some, by omega⟩

variable (float : FloatArithmetic) (coveragePolicy : CoverageAuditPolicy)

/-- Coverage that only grows leaves no more ink outside it. -/
theorem residualCounts_flagged_antitone {covered wider : List Bounds} (subset : covered ⊆ wider)
    (flagged : (residualCounts float wider basis coveragePolicy).flagged = true) :
    (residualCounts float covered basis coveragePolicy).flagged = true := by
  have less : (residualCounts float wider basis coveragePolicy).outsideInkPixels ≤
      (residualCounts float covered basis coveragePolicy).outsideInkPixels := by
    rw [residualCounts_outside, residualCounts_outside, Nat.cast_le]
    apply auditedInk_mono
    rintro x y outside ⟨bounds, member, held⟩
    exact outside ⟨bounds, subset member, held⟩
  have total : (residualCounts float wider basis coveragePolicy).totalInkPixels =
      (residualCounts float covered basis coveragePolicy).totalInkPixels := by
    rw [residualCounts_total, residualCounts_total]
  rw [residualCounts_flagged, total] at flagged
  rw [residualCounts_flagged]
  exact policyFlag_mono float coveragePolicy less flagged

/-- The retained runs answer the pixels' coverage question, and coverage only ever clears it. -/
theorem residualInkFromRuns_auditedRuns (covered : List Bounds) :
    (∃ finding, residualInkFromRuns float (auditedRuns basis) covered coveragePolicy = .ok finding ∧
      finding.totalInkPixels = (residualCounts float covered basis coveragePolicy).totalInkPixels ∧
      finding.outsideInkPixels =
        (residualCounts float covered basis coveragePolicy).outsideInkPixels ∧
      finding.flagged = (residualCounts float covered basis coveragePolicy).flagged) ∧
    ∀ wider, covered ⊆ wider →
      (residualCounts float covered basis coveragePolicy).flagged = false →
      (residualCounts float wider basis coveragePolicy).flagged = false := by
  constructor
  · have whole (y : ℤ) : Ordered ((fun _ => [(0, (page.width : ℤ))]) y) :=
      ⟨by simpa using page.widthPositive, List.pairwise_singleton _ _⟩
    have outside : (auditedInk basis fun x y => Covers [(0, (page.width : ℤ))] x ∧
        ¬ InCoverage covered x y) = auditedInk basis fun x y => ¬ InCoverage covered x y := by
      apply auditedInk_congr
      intro x y above below _ _
      exact and_iff_right ((covers_cons _ _ _).mpr (.inl ⟨above, below⟩))
    have measured := inkOutside_auditedRuns basis covered whole
    rw [outside, ← residualCounts_total basis float covered coveragePolicy,
      ← residualCounts_outside basis float covered coveragePolicy] at measured
    rw [residualInkFromRuns, validatedInkRunEvidence_auditedRuns, ok_bind]
    change ∃ finding, (inkOutside _ _ _ _ >>= _) = _ ∧ _
    rw [measured, ok_bind]
    exact ⟨_, rfl, rfl, rfl, rfl⟩
  · intro wider subset unflagged
    by_contra flagged
    have narrow := residualCounts_flagged_antitone basis float coveragePolicy subset
      (Bool.eq_true_of_not_eq_false flagged)
    rw [unflagged] at narrow
    exact Bool.false_ne_true narrow

end Page

end Verbatus.Ink
