import Verbatus.Corpus.HungarianRun
import Verbatus.Library.Assignment

namespace Verbatus.Corpus

open Library

namespace Weights

variable {weights : Weights}

/-- The weight of an edge, nothing where there is none. -/
def edgeWeight (weights : Weights) (pair : ℕ × ℕ) : ℚ := (weights.weight pair.1 pair.2).getD 0

theorem edgeWeight_eq_cost (weights : Weights) (row col : ℕ) :
    weights.edgeWeight (row, col) = -weights.cost row col := by
  cases found : weights.weight row col with
  | none => rw [edgeWeight, found, cost_of_none weights found, neg_zero, Option.getD_none]
  | some edge => rw [edgeWeight, found, cost_of_edge weights found, neg_neg, Option.getD_some]

theorem realMatch_eq_some {labels : Labels} {j : ℕ} {pair : ℕ × ℕ}
    (found : weights.realMatch labels j = some pair) :
    labels.matchedRow j ≠ 0 ∧ pair = (labels.matchedRow j - 1, j - 1) ∧
      (weights.weight pair.1 pair.2).isSome := by
  by_cases empty : labels.matchedRow j = 0
  · simp [realMatch, empty] at found
  simp only [realMatch, if_neg empty] at found
  obtain ⟨edge, weighed, rfl⟩ := Option.map_eq_some_iff.mp found
  exact ⟨empty, rfl, by rw [weighed]; rfl⟩

section Balanced

variable {labels : Labels} (balanced : weights.Balanced weights.size labels)

include balanced

theorem realMatch_apart {j k : ℕ} (jColumn : weights.Column j) (kColumn : weights.Column k)
    {one two : ℕ × ℕ} (first : weights.realMatch labels j = some one)
    (second : weights.realMatch labels k = some two) (same : one.1 = two.1) : j = k := by
  obtain ⟨jMatched, rfl, _⟩ := realMatch_eq_some first
  obtain ⟨kMatched, rfl, _⟩ := realMatch_eq_some second
  change labels.matchedRow j - 1 = labels.matchedRow k - 1 at same
  exact balanced.matched.apart j k jColumn kColumn jMatched (by omega)

/-- No row is reported twice, and no column. -/
theorem realMatches_apart :
    (((List.range' 1 weights.size).filterMap (weights.realMatch labels)).map Prod.fst).Nodup ∧
      (((List.range' 1 weights.size).filterMap (weights.realMatch labels)).map Prod.snd).Nodup := by
  have distinct : (List.range' 1 weights.size).Nodup := List.nodup_range'
  simp only [List.Nodup, List.pairwise_map, List.pairwise_filterMap]
  constructor
  · refine distinct.imp_of_mem fun first second apart one found two also same => apart ?_
    exact realMatch_apart balanced (column_mem.mp first) (column_mem.mp second) found also same
  · refine distinct.imp_of_mem fun first second apart one found two also same => apart ?_
    obtain ⟨_, rfl, _⟩ := realMatch_eq_some found
    obtain ⟨_, rfl, _⟩ := realMatch_eq_some also
    have jPos := (column_mem.mp first).1
    have kPos := (column_mem.mp second).1
    change _ - 1 = _ - 1 at same
    omega

/-- What a column reports weighs as much as its potentials. -/
theorem columnWeight {j : ℕ} (column : weights.Column j) :
    ((weights.realMatch labels j).map weights.edgeWeight).getD 0 =
      (if labels.matchedRow j ≠ 0 then -labels.u (labels.matchedRow j) else 0) + -labels.v j := by
  unfold realMatch
  by_cases empty : labels.matchedRow j = 0
  · simp [empty, balanced.free j column empty]
  · have tight := balanced.tight j column empty
    have cost := weights.edgeWeight_eq_cost (labels.matchedRow j - 1) (j - 1)
    rw [if_pos empty]
    simp only [if_neg empty]
    cases found : weights.weight (labels.matchedRow j - 1) (j - 1) with
    | none =>
        rw [edgeWeight, found, Option.getD_none] at cost
        simp only [Option.map_none, Option.getD_none]
        linarith
    | some edge =>
        simp only [Option.map_some, Option.getD_some]
        rw [cost]
        linarith

/-- The rows' potentials, taken column by column. -/
theorem sum_rows :
    ∑ j ∈ Finset.Icc 1 weights.size,
        (if labels.matchedRow j ≠ 0 then -labels.u (labels.matchedRow j) else 0) =
      ∑ i ∈ Finset.Icc 1 weights.size, -labels.u i := by
  rw [← Finset.sum_filter]
  refine Finset.sum_nbij labels.matchedRow ?_ ?_ ?_ fun _ _ => rfl
  · intro j listed
    obtain ⟨column, matched⟩ := Finset.mem_filter.mp listed
    exact Finset.mem_Icc.mpr ⟨Nat.pos_of_ne_zero matched,
      balanced.matched.within j (Finset.mem_Icc.mp column)⟩
  · intro j listed k also same
    obtain ⟨column, matched⟩ := Finset.mem_filter.mp listed
    exact balanced.matched.apart j k (Finset.mem_Icc.mp column)
      (Finset.mem_Icc.mp (Finset.mem_filter.mp also).1) matched same
  · intro i listed
    obtain ⟨positive, within⟩ := Finset.mem_Icc.mp (Finset.mem_coe.mp listed)
    obtain ⟨j, column, row⟩ := balanced.matched.covers i positive within
    exact ⟨j, Finset.mem_coe.mpr (Finset.mem_filter.mpr ⟨Finset.mem_Icc.mpr column, by omega⟩), row⟩

/-- The matches together weigh as much as all the potentials. -/
theorem realMatches_sum :
    (((List.range' 1 weights.size).filterMap (weights.realMatch labels)).map
        weights.edgeWeight).sum =
      ∑ i ∈ Finset.Icc 1 weights.size, -labels.u i +
        ∑ j ∈ Finset.Icc 1 weights.size, -labels.v j := by
  have columns : ∀ js : List ℕ,
      ((js.filterMap (weights.realMatch labels)).map weights.edgeWeight).sum =
        (js.map fun j => ((weights.realMatch labels j).map weights.edgeWeight).getD 0).sum := by
    intro js
    induction js with
    | nil => rfl
    | cons j rest ih =>
        cases found : weights.realMatch labels j with
        | none => simp [found, ih]
        | some pair => simp [found, ih]
  have listed : ∀ f : ℕ → ℚ, ((List.range' 1 weights.size).map f).sum =
      ∑ j ∈ Finset.Icc 1 weights.size, f j := by
    intro f
    rw [Nat.Icc_eq_range', Nat.add_sub_cancel]
    rfl
  rw [columns, listed, Finset.sum_congr rfl fun j column =>
    columnWeight balanced (Finset.mem_Icc.mp column), Finset.sum_add_distrib, sum_rows balanced]

/-- No matching weighs more than the potentials. -/
theorem matching_le {pairs : Finset (ℕ × ℕ)} (matching : IsMatching pairs)
    (edges : ∀ pair ∈ pairs, (weights.weight pair.1 pair.2).isSome) :
    ∑ pair ∈ pairs, weights.edgeWeight pair ≤
      ∑ i ∈ Finset.Icc 1 weights.size, -labels.u i +
        ∑ j ∈ Finset.Icc 1 weights.size, -labels.v j := by
  have inside : ∀ pair ∈ pairs, pair.1 + 1 ≤ weights.size ∧ pair.2 + 1 ≤ weights.size := by
    intro pair listed
    obtain ⟨edge, found⟩ := Option.isSome_iff_exists.mp (edges pair listed)
    obtain ⟨row, col⟩ := weights.within found
    exact ⟨row.trans_le (le_max_left _ _), col.trans_le (le_max_right _ _)⟩
  have within : ∀ pair ∈ pairs,
      pair.1 ∈ Finset.range weights.size ∧ pair.2 ∈ Finset.range weights.size := by
    intro pair listed
    obtain ⟨row, col⟩ := inside pair listed
    exact ⟨Finset.mem_range.mpr row, Finset.mem_range.mpr col⟩
  have rowNonneg : ∀ row ∈ Finset.range weights.size, 0 ≤ -labels.u (row + 1) := by
    intro row listed
    exact neg_nonneg.mpr
      (balanced.rowNonpos (row + 1) (Nat.succ_pos _) (Finset.mem_range.mp listed))
  have colNonneg : ∀ col ∈ Finset.range weights.size, 0 ≤ -labels.v (col + 1) := by
    intro col listed
    exact neg_nonneg.mpr
      (balanced.colNonpos (col + 1) ⟨Nat.succ_pos _, Finset.mem_range.mp listed⟩)
  have covered : ∀ pair ∈ pairs,
      weights.edgeWeight pair ≤ -labels.u (pair.1 + 1) + -labels.v (pair.2 + 1) := by
    intro pair listed
    obtain ⟨row, col⟩ := inside pair listed
    have room := balanced.feasible (pair.1 + 1) (pair.2 + 1) (Nat.succ_pos _) row
      ⟨Nat.succ_pos _, col⟩
    rw [Nat.add_sub_cancel, Nat.add_sub_cancel] at room
    have cost := weights.edgeWeight_eq_cost pair.1 pair.2
    rw [Prod.mk.eta] at cost
    rw [cost]
    linarith
  have bound := matching.sum_le within rowNonneg colNonneg covered
  have shift : ∀ f : ℕ → ℚ, ∑ i ∈ Finset.range weights.size, f (i + 1) =
      ∑ i ∈ Finset.Icc 1 weights.size, f i := by
    intro f
    rw [Finset.range_eq_Ico, Finset.sum_Ico_add' f 0 weights.size 1]
    rfl
  rw [shift fun i => -labels.u i, shift fun j => -labels.v j] at bound
  exact bound

end Balanced

/-- A matching of eligible edges that weighs no less than any other. -/
structure Optimal (weights : Weights) (pairs : List (ℕ × ℕ)) : Prop where
  eligible : ∀ pair ∈ pairs, (weights.weight pair.1 pair.2).isSome
  rows : (pairs.map Prod.fst).Nodup
  cols : (pairs.map Prod.snd).Nodup
  greatest : ∀ others : Finset (ℕ × ℕ), IsMatching others →
    (∀ pair ∈ others, (weights.weight pair.1 pair.2).isSome) →
      ∑ pair ∈ others, weights.edgeWeight pair ≤ (pairs.map weights.edgeWeight).sum

/-- The assignment returns, with a matching of the greatest weight. -/
theorem maxWeightAssignment_optimal (weights : Weights) :
    ∃ pairs, weights.maxWeightAssignment = some pairs ∧ weights.Optimal pairs := by
  obtain ⟨labels, ran, balanced⟩ := @matchRows_balanced weights weights.size le_rfl
  obtain ⟨rows, cols⟩ := realMatches_apart balanced
  have optimal : weights.Optimal ((List.range' 1 weights.size).filterMap
      (weights.realMatch labels)) := by
    refine ⟨fun pair listed => ?_, rows, cols, fun others matching edges => ?_⟩
    · obtain ⟨j, _, found⟩ := List.mem_filterMap.mp listed
      exact (realMatch_eq_some found).2.2
    · rw [realMatches_sum balanced]
      exact matching_le balanced matching edges
  refine ⟨_, ?_, optimal⟩
  unfold maxWeightAssignment
  by_cases empty : weights.size = 0
  · rw [if_pos empty, empty]
    rfl
  · rw [if_neg empty, ran]
    exact congrArg some (dictOf_of_nodup rows)

end Weights

end Verbatus.Corpus
