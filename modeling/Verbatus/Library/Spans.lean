import Mathlib.Data.List.Sort
import Mathlib.Data.Int.Interval
import Mathlib.Tactic

namespace Verbatus.Library.Spans

/-- A half-open interval of integers, given by its two ends. -/
abbrev Span := ℤ × ℤ

/-- Some interval of the list holds the point. -/
def Covers (spans : List Span) (point : ℤ) : Prop :=
  ∃ span ∈ spans, span.1 ≤ point ∧ point < span.2

instance (spans : List Span) (point : ℤ) : Decidable (Covers spans point) :=
  inferInstanceAs (Decidable (∃ span ∈ spans, span.1 ≤ point ∧ point < span.2))

@[simp] theorem covers_nil (point : ℤ) : ¬ Covers [] point := by simp [Covers]

@[simp] theorem covers_cons (span : Span) (spans : List Span) (point : ℤ) :
    Covers (span :: spans) point ↔ (span.1 ≤ point ∧ point < span.2) ∨ Covers spans point := by
  simp [Covers]

@[simp] theorem covers_append (first second : List Span) (point : ℤ) :
    Covers (first ++ second) point ↔ Covers first point ∨ Covers second point := by
  simp only [Covers, List.mem_append, or_and_right, exists_or]

theorem covers_mono {first second : List Span} (subset : first ⊆ second) {point : ℤ}
    (covered : Covers first point) : Covers second point := by
  obtain ⟨span, member, inside⟩ := covered
  exact ⟨span, subset member, inside⟩

theorem covers_perm {first second : List Span} (same : first.Perm second) (point : ℤ) :
    Covers first point ↔ Covers second point :=
  ⟨covers_mono same.subset, covers_mono same.symm.subset⟩

/-- Every interval holds a point, and each ends before the next starts. -/
structure Ordered (spans : List Span) : Prop where
  nonempty : ∀ span ∈ spans, span.1 < span.2
  apart : spans.Pairwise fun first second => first.2 ≤ second.1

theorem Ordered.nil : Ordered [] := ⟨by simp, .nil⟩

theorem Ordered.tail {span : Span} {spans : List Span} (ordered : Ordered (span :: spans)) :
    Ordered spans :=
  ⟨fun other member => ordered.nonempty other (.tail _ member), ordered.apart.tail⟩

theorem Ordered.after {span : Span} {spans : List Span} (ordered : Ordered (span :: spans))
    {point : ℤ} (covered : Covers spans point) : span.2 ≤ point := by
  obtain ⟨other, member, inside⟩ := covered
  have apart := (List.pairwise_cons.mp ordered.apart).1 other member
  omega

section Count

open Classical

/-- The points of `[start, stop)` that satisfy the predicate. -/
noncomputable def count (start stop : ℤ) (holds : ℤ → Prop) : ℕ :=
  ((Finset.Ico start stop).filter holds).card

variable {start middle stop : ℤ} {holds other : ℤ → Prop}

theorem count_congr (same : ∀ point, start ≤ point → point < stop → (holds point ↔ other point)) :
    count start stop holds = count start stop other := by
  unfold count
  congr 1
  apply Finset.filter_congr
  intro point member
  rw [Finset.mem_Ico] at member
  exact same point member.1 member.2

theorem count_mono (implies : ∀ point, start ≤ point → point < stop → holds point → other point) :
    count start stop holds ≤ count start stop other := by
  apply Finset.card_le_card
  intro point member
  rw [Finset.mem_filter, Finset.mem_Ico] at member ⊢
  exact ⟨member.1, implies point member.1.1 member.1.2 member.2⟩

theorem count_eq_zero (empty : ∀ point, start ≤ point → point < stop → ¬ holds point) :
    count start stop holds = 0 := by
  rw [count, Finset.card_eq_zero, Finset.filter_eq_empty_iff]
  intro point member
  rw [Finset.mem_Ico] at member
  exact empty point member.1 member.2

theorem count_all (all : ∀ point, start ≤ point → point < stop → holds point) :
    (count start stop holds : ℤ) = max 0 (stop - start) := by
  have whole : (Finset.Ico start stop).filter holds = Finset.Ico start stop := by
    apply Finset.filter_true_of_mem
    intro point member
    rw [Finset.mem_Ico] at member
    exact all point member.1 member.2
  rw [count, whole, Int.card_Ico]
  omega

theorem count_split (start middle stop : ℤ) (low : start ≤ middle) (high : middle ≤ stop) :
    count start stop holds = count start middle holds + count middle stop holds := by
  unfold count
  rw [← Finset.Ico_union_Ico_eq_Ico low high, Finset.filter_union, Finset.card_union_of_disjoint]
  exact Finset.disjoint_filter_filter (Finset.Ico_disjoint_Ico_consecutive start middle stop)

theorem count_or (disjoint : ∀ point, start ≤ point → point < stop → holds point → ¬ other point) :
    count start stop (fun point => holds point ∨ other point) =
      count start stop holds + count start stop other := by
  have apart : Disjoint ((Finset.Ico start stop).filter holds)
      ((Finset.Ico start stop).filter other) := by
    rw [Finset.disjoint_filter]
    intro point member
    rw [Finset.mem_Ico] at member
    exact disjoint point member.1 member.2
  unfold count
  rw [← Finset.card_union_of_disjoint apart, ← Finset.filter_or]
  congr

theorem count_or_le : count start stop (fun point => holds point ∨ other point) ≤
    count start stop holds + count start stop other := by
  have split : count start stop (fun point => holds point ∨ other point) =
      count start stop holds + count start stop fun point => other point ∧ ¬ holds point := by
    rw [← count_or fun point _ _ held rest => rest.2 held]
    exact count_congr fun point _ _ => by tauto
  rw [split]
  exact Nat.add_le_add_left (count_mono fun point _ _ held => held.1) _

/-- The points that hold and satisfy the other predicate, and those that do not. -/
theorem count_partition (other : ℤ → Prop) : count start stop holds =
    (count start stop fun point => holds point ∧ other point) +
      count start stop fun point => holds point ∧ ¬ other point := by
  rw [← count_or fun point _ _ held rest => rest.2 held.2]
  exact count_congr fun point _ _ => by tauto

theorem count_within_le {low high : ℤ}
    (within : ∀ point, holds point → low ≤ point ∧ point < high) :
    (count start stop holds : ℤ) ≤ max 0 (high - low) := by
  have bound : count start stop holds ≤ (Finset.Ico low high).card := by
    apply Finset.card_le_card
    intro point member
    rw [Finset.mem_Ico]
    exact within point (Finset.mem_filter.mp member).2
  rw [Int.card_Ico] at bound
  omega

theorem count_single : count start (start + 1) holds = if holds start then 1 else 0 := by
  unfold count
  rw [show Finset.Ico start (start + 1) = {start} by ext; simp; omega, Finset.filter_singleton]
  split_ifs <;> rfl

/-- Adding one weight for each place that holds adds the weight that many times. -/
theorem sum_range_weight (holds : ℤ → Prop) [DecidablePred holds] (length weight : ℕ) :
    ((List.range length).map fun place : ℕ => if holds place then weight else 0).sum =
      weight * count 0 length holds := by
  induction length with
  | zero => simp [count]
  | succ length ih =>
      have low : (0 : ℤ) ≤ length := by omega
      rw [List.range_succ, List.map_append, List.sum_append, ih, Nat.cast_add, Nat.cast_one,
        count_split 0 length (length + 1) low (by omega), count_single, Nat.mul_add]
      by_cases held : holds length <;> simp [held]

theorem count_le_length : (count start stop holds : ℤ) ≤ max 0 (stop - start) := by
  have bound := Finset.card_filter_le (Finset.Ico start stop) holds
  rw [Int.card_Ico] at bound
  unfold count
  omega

end Count

/-- Clipping a count to each interval of an ordered list counts the points the list covers. -/
theorem sum_count_clipped {spans : List Span} (ordered : Ordered spans) (start stop : ℤ)
    (holds : ℤ → Prop) :
    (spans.map fun span => count (max start span.1) (min stop span.2) holds).sum =
      count start stop fun point => Covers spans point ∧ holds point := by
  induction spans with
  | nil =>
      rw [count_eq_zero (by simp)]
      rfl
  | cons span spans ih =>
      have first : count (max start span.1) (min stop span.2) holds =
          count start stop fun point => (span.1 ≤ point ∧ point < span.2) ∧ holds point := by
        unfold count
        congr 1
        ext point
        simp only [Finset.mem_filter, Finset.mem_Ico]
        constructor
        · rintro ⟨inside, held⟩
          exact ⟨⟨by omega, by omega⟩, ⟨by omega, by omega⟩, held⟩
        · rintro ⟨inside, within, held⟩
          exact ⟨⟨by omega, by omega⟩, held⟩
      rw [List.map_cons, List.sum_cons, ih ordered.tail, first, ← count_or]
      · apply count_congr
        intro point above below
        rw [covers_cons]
        tauto
      · rintro point above below ⟨within, -⟩ ⟨covered, -⟩
        have := ordered.after covered
        omega

/-- One interval joins the last merged one when it touches it, and is appended otherwise.
The merged intervals are kept last first. -/
def mergeStep (merged : List Span) (span : Span) : List Span :=
  if span.1 ≥ span.2 then merged
  else match merged with
    | last :: rest =>
      if span.1 ≤ last.2 then (last.1, max span.2 last.2) :: rest else span :: last :: rest
    | [] => [span]

/-- The union of intervals given in order of their starts, as disjoint intervals. -/
def mergeSorted (spans : List Span) : List Span := (spans.foldl mergeStep []).reverse

/-- The merged intervals, last first, lie apart and start no later than the bound. -/
structure MergedBefore (merged : List Span) (bound : ℤ) : Prop where
  nonempty : ∀ span ∈ merged, span.1 < span.2
  apart : merged.Pairwise fun later earlier => earlier.2 < later.1
  starts : ∀ span ∈ merged, span.1 ≤ bound

theorem mergeStep_merged {merged : List Span} {bound : ℤ} (invariant : MergedBefore merged bound)
    (span : Span) (later : bound ≤ span.1) : MergedBefore (mergeStep merged span) span.1 := by
  have starts : ∀ other ∈ merged, other.1 ≤ span.1 :=
    fun other member => (invariant.starts other member).trans later
  unfold mergeStep
  split_ifs with empty
  · exact ⟨invariant.nonempty, invariant.apart, starts⟩
  · cases merged with
    | nil => exact ⟨by simpa using empty, by simp, by simp⟩
    | cons last rest =>
      have lastNonempty := invariant.nonempty last (.head _)
      have lastStart := starts last (.head _)
      obtain ⟨lastApart, restApart⟩ := List.pairwise_cons.mp invariant.apart
      dsimp only
      split_ifs with touches
      · refine ⟨?_, List.pairwise_cons.mpr ⟨lastApart, restApart⟩, ?_⟩
        · intro other member
          rcases List.mem_cons.mp member with rfl | member
          · dsimp only
            omega
          · exact invariant.nonempty other (.tail _ member)
        · intro other member
          rcases List.mem_cons.mp member with rfl | member
          · exact lastStart
          · exact starts other (.tail _ member)
      · refine ⟨?_, List.pairwise_cons.mpr ⟨?_, invariant.apart⟩, ?_⟩
        · intro other member
          rcases List.mem_cons.mp member with rfl | member
          · omega
          · exact invariant.nonempty other member
        · intro other member
          rcases List.mem_cons.mp member with rfl | member
          · omega
          · have := lastApart other member
            omega
        · intro other member
          rcases List.mem_cons.mp member with rfl | member
          · exact le_rfl
          · exact starts other member

theorem mergeStep_covers {merged : List Span} {bound : ℤ} (invariant : MergedBefore merged bound)
    (span : Span) (later : bound ≤ span.1) (point : ℤ) :
    Covers (mergeStep merged span) point ↔
      Covers merged point ∨ (span.1 ≤ point ∧ point < span.2) := by
  unfold mergeStep
  split_ifs with empty
  · constructor
    · exact Or.inl
    · rintro (covered | inside)
      · exact covered
      · omega
  · cases merged with
    | nil => simp
    | cons last rest =>
      have lastStart := invariant.starts last (.head _)
      dsimp only
      split_ifs with touches
      · simp only [covers_cons]
        by_cases covered : Covers rest point
        · simp [covered]
        · simp only [covered, or_false]
          omega
      · simp only [covers_cons]
        tauto

/-- Merging intervals sorted by their starts keeps the points they hold. -/
theorem foldl_mergeStep {spans merged : List Span} {bound : ℤ}
    (sorted : spans.Pairwise fun first second => first.1 ≤ second.1)
    (bounded : ∀ span ∈ spans, bound ≤ span.1) (invariant : MergedBefore merged bound) :
    (∃ final, MergedBefore (spans.foldl mergeStep merged) final) ∧
      ∀ point, Covers (spans.foldl mergeStep merged) point ↔
        Covers merged point ∨ Covers spans point := by
  induction spans generalizing merged bound with
  | nil => exact ⟨⟨bound, invariant⟩, by simp⟩
  | cons span spans ih =>
      obtain ⟨first, rest⟩ := List.pairwise_cons.mp sorted
      have later := bounded span (.head _)
      obtain ⟨final, same⟩ := ih rest first (mergeStep_merged invariant span later)
      refine ⟨final, fun point => ?_⟩
      rw [List.foldl_cons, same, mergeStep_covers invariant span later, covers_cons, or_assoc]

theorem mergeSorted_spec {spans : List Span}
    (sorted : spans.Pairwise fun first second => first.1 ≤ second.1) :
    Ordered (mergeSorted spans) ∧ ∀ point, Covers (mergeSorted spans) point ↔ Covers spans point := by
  have spec (bound : ℤ) (bounded : ∀ span ∈ spans, bound ≤ span.1) :=
    foldl_mergeStep sorted bounded (⟨by simp, .nil, by simp⟩ : MergedBefore [] bound)
  have result : (∃ final, MergedBefore (spans.foldl mergeStep []) final) ∧
      ∀ point, Covers (spans.foldl mergeStep []) point ↔ Covers spans point := by
    cases spans with
    | nil => exact ⟨⟨0, ⟨by simp, .nil, by simp⟩⟩, by simp⟩
    | cons span spans =>
      have later : ∀ other ∈ span :: spans, span.1 ≤ other.1 := by
        intro other member
        rcases List.mem_cons.mp member with rfl | member
        · exact le_rfl
        · exact (List.pairwise_cons.mp sorted).1 other member
      simpa using spec span.1 later
  obtain ⟨⟨final, merged⟩, same⟩ := result
  constructor
  · refine ⟨fun span member => merged.nonempty span (List.mem_reverse.mp member), ?_⟩
    exact List.pairwise_reverse.mpr (merged.apart.imp fun lower => lower.le)
  · intro point
    rw [mergeSorted, covers_perm (List.reverse_perm _), same]

/-- The length of `[cursor, stop)` that no interval of the list covers. -/
def uncoveredLength (stop : ℤ) : ℤ → List Span → ℤ
  | cursor, [] => max 0 (stop - cursor)
  | cursor, (coveredStart, coveredEnd) :: rest =>
    if coveredEnd ≤ cursor then uncoveredLength stop cursor rest
    else if coveredStart ≥ stop then max 0 (stop - cursor)
    else
      let next := max cursor coveredEnd
      max 0 (min coveredStart stop - cursor) +
        if next ≥ stop then max 0 (stop - next) else uncoveredLength stop next rest

/-- One interval splits the uncovered points into the gap before it and those after it. -/
theorem count_uncovered_cons {span : Span} {rest : List Span} (ordered : Ordered (span :: rest))
    {cursor stop : ℤ} (ahead : cursor < span.2) (before : span.1 < stop) :
    (count cursor stop fun point => ¬ Covers (span :: rest) point : ℤ) =
      max 0 (min span.1 stop - cursor) +
        count (max cursor span.2) stop fun point => ¬ Covers rest point := by
  have nonempty := ordered.nonempty span (.head _)
  have gap : (count cursor (max cursor span.1) fun point => ¬ Covers (span :: rest) point : ℤ) =
      max 0 (min span.1 stop - cursor) := by
    rw [count_all]
    · omega
    · intro point above below covered
      rcases (covers_cons _ _ _).mp covered with inside | covered
      · omega
      · have := ordered.after covered
        omega
  by_cases short : stop ≤ max cursor span.2
  · have hidden : (count (max cursor span.1) stop fun point => ¬ Covers (span :: rest) point) = 0 := by
      apply count_eq_zero
      intro point above below uncovered
      exact uncovered ((covers_cons _ _ _).mpr (.inl ⟨by omega, by omega⟩))
    have past : (count (max cursor span.2) stop fun point => ¬ Covers rest point) = 0 := by
      apply count_eq_zero
      intros
      omega
    by_cases empty : stop ≤ cursor
    · have none_left : (count cursor stop fun point => ¬ Covers (span :: rest) point) = 0 :=
        count_eq_zero (by intros; omega)
      rw [none_left, past]
      push_cast
      omega
    · rw [count_split cursor (max cursor span.1) stop (by omega) (by omega), hidden, past]
      push_cast
      omega
  · have hidden : (count (max cursor span.1) (max cursor span.2)
        fun point => ¬ Covers (span :: rest) point) = 0 := by
      apply count_eq_zero
      intro point above below uncovered
      exact uncovered ((covers_cons _ _ _).mpr (.inl ⟨by omega, by omega⟩))
    have past : (count (max cursor span.2) stop fun point => ¬ Covers (span :: rest) point) =
        count (max cursor span.2) stop fun point => ¬ Covers rest point := by
      apply count_congr
      intro point above below
      rw [covers_cons, not_or]
      exact and_iff_right (by omega)
    rw [count_split cursor (max cursor span.1) stop (by omega) (by omega),
      count_split (max cursor span.1) (max cursor span.2) stop (by omega) (by omega),
      hidden, past]
    push_cast
    omega

/-- The cursor walk counts exactly the points no interval covers. -/
theorem uncoveredLength_eq_count {spans : List Span} (ordered : Ordered spans) (cursor stop : ℤ) :
    uncoveredLength stop cursor spans = count cursor stop fun point => ¬ Covers spans point := by
  induction spans generalizing cursor with
  | nil =>
      rw [uncoveredLength, count_all]
      simp
  | cons span rest ih =>
      obtain ⟨coveredStart, coveredEnd⟩ := span
      have nonempty := ordered.nonempty _ (.head _)
      dsimp only at nonempty
      rw [uncoveredLength]
      by_cases passed : coveredEnd ≤ cursor
      · rw [if_pos passed, ih ordered.tail]
        norm_cast
        apply count_congr
        intro point above below
        rw [covers_cons, not_or]
        exact (and_iff_right (by omega)).symm
      rw [if_neg passed]
      by_cases beyond : coveredStart ≥ stop
      · rw [if_pos beyond, count_all]
        intro point above below covered
        rcases (covers_cons _ _ _).mp covered with inside | covered
        · omega
        · have := ordered.after covered
          omega
      rw [if_neg beyond, count_uncovered_cons ordered (by omega) (by omega)]
      dsimp only
      congr 1
      split_ifs with reached
      · rw [count_eq_zero (by intros; omega)]
        push_cast
        omega
      · exact ih ordered.tail _

end Verbatus.Library.Spans
