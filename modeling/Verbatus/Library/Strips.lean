import Mathlib.Algebra.BigOperators.Intervals
import Mathlib.Data.Int.Interval
import Verbatus.Library.Chains
import Verbatus.Library.Sorting

namespace Verbatus.Library

section Cuts

variable {α : Type} [LinearOrder α]

/-- The distinct elements in ascending order strictly rise. -/
theorem sortedSet_rising (elements : List α) : (sortedSet elements).Pairwise (· < ·) := by
  have ordered := List.pairwise_insertionSort (· ≤ · : α → α → Prop) elements.dedup
  have distinct : (sortedSet elements).Nodup :=
    (List.perm_insertionSort _ _).nodup_iff.mpr elements.nodup_dedup
  exact (ordered.and distinct).imp fun both => lt_of_le_of_ne both.1 both.2

/-- No cut falls between two neighbouring ones. -/
theorem neighbours_apart {cuts : List α} (rising : cuts.Pairwise (· < ·)) {strip : α × α}
    (member : strip ∈ neighbours cuts) :
    strip.1 < strip.2 ∧ ∀ cut ∈ cuts, cut ≤ strip.1 ∨ strip.2 ≤ cut := by
  induction cuts with
  | nil => cases member
  | cons first cuts ih =>
      cases cuts with
      | nil => cases member
      | cons second cuts =>
          rw [List.pairwise_cons] at rising
          rw [neighbours, List.tail_cons, List.zip_cons_cons, List.mem_cons] at member
          rcases member with rfl | later
          · refine ⟨rising.1 second (.head _), List.forall_mem_cons.mpr ⟨.inl le_rfl, ?_⟩⟩
            refine List.forall_mem_cons.mpr ⟨.inr le_rfl, fun cut further => .inr ?_⟩
            exact ((List.pairwise_cons.mp rising.2).1 cut further).le
          · obtain ⟨apart, between⟩ := ih rising.2 later
            refine ⟨apart, List.forall_mem_cons.mpr ⟨.inl ?_, between⟩⟩
            exact (rising.1 strip.1 (mem_of_mem_neighbours later).1).le

theorem le_getLast {cuts : List α} (rising : cuts.Pairwise (· < ·)) (nonempty : cuts ≠ []) :
    ∀ cut ∈ cuts, cut ≤ cuts.getLast nonempty := by
  induction cuts with
  | nil => exact absurd rfl nonempty
  | cons first cuts ih =>
      rw [List.pairwise_cons] at rising
      cases cuts with
      | nil => exact fun cut member => (List.mem_singleton.mp member).le
      | cons second cuts =>
          have later := ih rising.2 (List.cons_ne_nil second cuts)
          rw [List.getLast_cons (List.cons_ne_nil second cuts)]
          refine List.forall_mem_cons.mpr ⟨?_, later⟩
          exact (rising.1 second (.head _)).le.trans (later second (.head _))

end Cuts

section Sums

variable (weight : ℤ → ℤ)

theorem sum_Ico_split {first middle last : ℤ} (low : first ≤ middle) (high : middle ≤ last) :
    ∑ point ∈ Finset.Ico first last, weight point =
      ∑ point ∈ Finset.Ico first middle, weight point +
        ∑ point ∈ Finset.Ico middle last, weight point := by
  rw [← Finset.Ico_union_Ico_eq_Ico low high,
    Finset.sum_union (Finset.Ico_disjoint_Ico_consecutive first middle last)]

/-- The strips between neighbouring cuts make up the stretch from the first cut to the last. -/
theorem sum_strips {first : ℤ} {cuts : List ℤ} (rising : (first :: cuts).Pairwise (· < ·)) :
    ((neighbours (first :: cuts)).map fun strip =>
        ∑ point ∈ Finset.Ico strip.1 strip.2, weight point).sum =
      ∑ point ∈ Finset.Ico first ((first :: cuts).getLast (List.cons_ne_nil _ _)), weight point := by
  induction cuts generalizing first with
  | nil => simp [neighbours]
  | cons second cuts ih =>
      rw [List.pairwise_cons] at rising
      have step := rising.1 second (.head _)
      have later := le_getLast rising.2 (List.cons_ne_nil second cuts) second (.head _)
      rw [List.getLast_cons (List.cons_ne_nil second cuts), sum_Ico_split weight step.le later,
        ← ih rising.2]
      rfl

end Sums

end Verbatus.Library
