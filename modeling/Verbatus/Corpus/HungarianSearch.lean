import Verbatus.Corpus.HungarianPass

namespace Verbatus.Corpus

open Library

namespace Weights

variable {weights : Weights} {count pass : ℕ}

/-- A column of the padded square. -/
def Column (weights : Weights) (j : ℕ) : Prop := 1 ≤ j ∧ j ≤ weights.size

/-- The rows up to a count, each matched to one column. -/
structure Matched (weights : Weights) (count : ℕ) (matchedRow : ℕ → ℕ) : Prop where
  within : ∀ j, weights.Column j → matchedRow j ≤ count
  apart : ∀ j k, weights.Column j → weights.Column k → matchedRow j ≠ 0 →
    matchedRow j = matchedRow k → j = k
  covers : ∀ i, 1 ≤ i → i ≤ count → ∃ j, weights.Column j ∧ matchedRow j = i

/-- The labels between two rows: potentials below the costs, and at them where matched. -/
structure Balanced (weights : Weights) (count : ℕ) (labels : Labels) : Prop where
  matched : weights.Matched count labels.matchedRow
  rowBound : ∀ i, -1 ≤ labels.u i
  rowNonpos : ∀ i, 1 ≤ i → i ≤ count → labels.u i ≤ 0
  fresh : ∀ i, count < i → labels.u i = 0
  colNonpos : ∀ j, weights.Column j → labels.v j ≤ 0
  colBound : ∀ j, weights.Column j → -(count : ℚ) ≤ labels.v j
  feasible : ∀ i j, 1 ≤ i → i ≤ count → weights.Column j →
    labels.u i + labels.v j ≤ weights.cost (i - 1) (j - 1)
  tight : ∀ j, weights.Column j → labels.matchedRow j ≠ 0 →
    labels.u (labels.matchedRow j) + labels.v j = weights.cost (labels.matchedRow j - 1) (j - 1)
  free : ∀ j, weights.Column j → labels.matchedRow j = 0 → labels.v j = 0

/-- The search for the row after a count, some passes on: its tree of used columns hangs together by
    tight edges, and `minv` measures what is left to each column outside it. -/
structure Tree (weights : Weights) (count pass : ℕ) (search : Search) : Prop where
  matched : weights.Matched count search.matchedRow
  root : search.matchedRow 0 = count + 1
  usedMatched : ∀ j, search.used j = true → j ≤ weights.size ∧ search.matchedRow j ≠ 0
  rootUsed : search.used 0 = true
  column : weights.Column search.j0
  unused : search.used search.j0 = false
  rowBound : ∀ i, -1 ≤ search.u i
  fresh : ∀ i, count + 1 < i → search.u i = 0
  colNonpos : ∀ j, weights.Column j → search.v j ≤ 0
  colBound : ∀ j, weights.Column j → -(count : ℚ) - (1 + search.u (count + 1)) ≤ search.v j
  outerBound : ∀ j, weights.Column j → search.used j = false → -(count : ℚ) ≤ search.v j
  feasible : ∀ i j, 1 ≤ i → i ≤ count + 1 → weights.Column j →
    search.u i + search.v j ≤ weights.cost (i - 1) (j - 1)
  tight : ∀ j, weights.Column j → search.matchedRow j ≠ 0 →
    search.u (search.matchedRow j) + search.v j = weights.cost (search.matchedRow j - 1) (j - 1)
  free : ∀ j, weights.Column j → search.matchedRow j = 0 → search.v j = 0
  wayUsed : ∀ j, weights.Column j → search.used (search.way j) = true
  least : ∀ j, weights.Column j → search.used j = false →
    search.minv j = weights.cost (search.matchedRow (search.way j) - 1) (j - 1) -
      search.u (search.matchedRow (search.way j)) - search.v j
  below : ∀ j, weights.Column j → search.used j = false → ∀ k, search.used k = true →
    search.minv j ≤ weights.cost (search.matchedRow k - 1) (j - 1) -
      search.u (search.matchedRow k) - search.v j
  reached : search.minv search.j0 = 0
  branch : ∀ j, weights.Column j → search.used j = true →
    search.u (search.matchedRow (search.way j)) + search.v j =
      weights.cost (search.matchedRow (search.way j) - 1) (j - 1)
  ranked : ∃ rank : ℕ → ℕ, (∀ j, search.used j = true → rank j < pass) ∧
    ∀ j, weights.Column j → search.used j = true → rank (search.way j) < rank j
  passes : ((Finset.range (weights.size + 1)).filter fun j => search.used j = true).card = pass

theorem column_mem {j : ℕ} : j ∈ List.range' 1 weights.size ↔ weights.Column j := by
  rw [List.mem_range'_1, Column]
  omega

/-- While fewer rows than columns are matched, a column is free. -/
theorem Matched.exists_free {matchedRow : ℕ → ℕ} (matched : weights.Matched count matchedRow)
    (fewer : count < weights.size) : ∃ j, weights.Column j ∧ matchedRow j = 0 := by
  by_contra taken
  push Not at taken
  have card := Finset.card_le_card_of_injOn (s := Finset.Icc 1 weights.size)
    (t := Finset.Icc 1 count) matchedRow
    (fun j listed => by
      have column : weights.Column j := Finset.mem_Icc.mp listed
      have filled := taken j column
      exact Finset.mem_Icc.mpr ⟨by omega, matched.within j column⟩)
    (fun j listed k also same => matched.apart j k (Finset.mem_Icc.mp listed)
      (Finset.mem_Icc.mp also) (taken j (Finset.mem_Icc.mp listed)) same)
  rw [Nat.card_Icc, Nat.card_Icc] at card
  omega

/-- The rows of used columns are matched apart, the search's own row among them. -/
theorem rows_apart {search : Search} (matched : weights.Matched count search.matchedRow)
    (root : search.matchedRow 0 = count + 1)
    (usedMatched : ∀ j, search.used j = true → j ≤ weights.size ∧ search.matchedRow j ≠ 0)
    (j k : ℕ) (used : search.used j = true) (also : search.used k = true)
    (same : search.matchedRow j = search.matchedRow k) : j = k := by
  obtain ⟨jWithin, jMatched⟩ := usedMatched j used
  obtain ⟨kWithin, _⟩ := usedMatched k also
  rcases Nat.eq_zero_or_pos j with rfl | jPos
  · rcases Nat.eq_zero_or_pos k with rfl | kPos
    · rfl
    · have kRow := matched.within k ⟨kPos, kWithin⟩
      omega
  · rcases Nat.eq_zero_or_pos k with rfl | kPos
    · have jRow := matched.within j ⟨jPos, jWithin⟩
      omega
    · exact matched.apart j k ⟨jPos, jWithin⟩ ⟨kPos, kWithin⟩ jMatched same

/-- What one pass leaves: the labels of the used columns and their rows moved together by the least
    cost, and the pass's own findings for the columns left. -/
structure Moved (weights : Weights) (search : Search) (swept : Sweep) (after : Search) : Prop where
  swept_spec : Swept weights (mark search) (List.range' 1 weights.size)
    ⟨search.minv, search.way, weights.inf, none⟩ swept
  matchedRow : after.matchedRow = search.matchedRow
  used : after.used = Function.update search.used search.j0 true
  way : after.way = swept.way
  inside : ∀ j, j ≤ weights.size → (mark search).used j = true →
    after.u (search.matchedRow j) = search.u (search.matchedRow j) + swept.delta
  outside : ∀ i, (∀ j, j ≤ weights.size → (mark search).used j = true →
    search.matchedRow j ≠ i) → after.u i = search.u i
  vUsed : ∀ j, weights.Column j → (mark search).used j = true →
    after.v j = search.v j - swept.delta
  vUnused : ∀ j, (mark search).used j = false → after.v j = search.v j
  minv : ∀ j, weights.Column j → (mark search).used j = false →
    after.minv j = swept.minv j - swept.delta

theorem advance_moved (search : Search)
    (apart : ∀ j k, (mark search).used j = true → (mark search).used k = true →
      search.matchedRow j = search.matchedRow k → j = k) :
    Moved weights search (weights.sweep (mark search)) (weights.advance search).1 := by
  have shifted : Shifted (weights.sweep (mark search)).delta (List.range (weights.size + 1))
      { mark search with
        minv := (weights.sweep (mark search)).minv
        way := (weights.sweep (mark search)).way }
      (weights.advance search).1 :=
    shifted_foldl _ _ List.nodup_range _ fun j _ k _ used also => apart j k used also
  have listed : ∀ j, j ≤ weights.size → j ∈ List.range (weights.size + 1) := by
    intro j within
    rw [List.mem_range]
    omega
  refine ⟨swept_foldl _ List.nodup_range' _, shifted.matchedRow, shifted.used, shifted.way,
    fun j within used => shifted.inside j (listed j within) used, fun i missing => ?_,
    fun j column used => ?_, fun j unused => ?_, fun j column unused => ?_⟩
  · refine shifted.outside i fun j member used => missing j ?_ used
    have within := List.mem_range.mp member
    omega
  · rw [shifted.v j]
    exact if_pos ⟨listed j column.2, used⟩
  · rw [shifted.v j]
    refine if_neg fun both => ?_
    rw [show _ = true from both.2] at unused
    cases unused
  · rw [shifted.minv j]
    exact if_pos ⟨listed j column.2, unused⟩

/-- A pass whose costs are all below the sentinel goes on to a column that is not used, whose least
    cost is what the labels move by. -/
theorem Moved.chosen {search after : Search} {swept : Sweep} (moved : Moved weights search swept after)
    {j : ℕ} (column : weights.Column j) (unused : (mark search).used j = false)
    (below : weights.reduced (mark search) j < weights.inf) :
    swept.delta < weights.inf ∧ ∃ j1, swept.j1 = some j1 ∧ weights.Column j1 ∧
      (mark search).used j1 = false ∧ swept.delta = swept.minv j1 := by
  have less : swept.delta < weights.inf := by
    refine (moved.swept_spec.least j (column_mem.mpr column) unused).trans_lt ?_
    rw [moved.swept_spec.minv j, if_pos ⟨column_mem.mpr column, unused⟩]
    exact (min_le_right _ _).trans_lt below
  refine ⟨less, ?_⟩
  rcases moved.swept_spec.chosen with ⟨_, same⟩ | ⟨j1, listed, free, found, least, _⟩
  · exact absurd same less.ne
  · exact ⟨j1, found, column_mem.mp listed, free, least⟩

theorem Moved.sweptMinv {search after : Search} {swept : Sweep}
    (moved : Moved weights search swept after) {j : ℕ} (column : weights.Column j)
    (unused : (mark search).used j = false) :
    swept.minv j = min (search.minv j) (weights.reduced (mark search) j) := by
  rw [moved.swept_spec.minv j, if_pos ⟨column_mem.mpr column, unused⟩]

theorem count_lt_inf {value : ℚ} (fewer : count < weights.size) (bound : value ≤ count + 1) :
    value < weights.inf := by
  have cast : (count : ℚ) + 1 ≤ weights.size := by exact_mod_cast fewer
  unfold inf
  linarith

/-- What holds of every pass: no reduced cost reaches the sentinel, nor does the least of them, and
    the search goes on to a column. -/
structure BelowSentinel (weights : Weights) (search : Search) : Prop where
  reduced : ∀ j, weights.Column j → (mark search).used j = false →
    weights.reduced (mark search) j < weights.inf
  delta : (weights.sweep (mark search)).delta < weights.inf
  j1 : ∃ j1, (weights.sweep (mark search)).j1 = some j1 ∧ weights.Column j1

/-- The first pass for a row makes its tree. -/
theorem Balanced.advance {labels : Labels} (balanced : weights.Balanced count labels)
    (fewer : count < weights.size) :
    weights.BelowSentinel (weights.beginRow labels (count + 1)) ∧
      ∃ j1, (weights.advance (weights.beginRow labels (count + 1))).2 = some j1 ∧
        weights.Tree count 1
          { (weights.advance (weights.beginRow labels (count + 1))).1 with j0 := j1 } := by
  set search := weights.beginRow labels (count + 1) with begun
  have rootRow : search.matchedRow 0 = count + 1 := by
    change Function.update labels.matchedRow 0 (count + 1) 0 = count + 1
    exact Function.update_self _ _ _
  have colRow : ∀ j, weights.Column j → search.matchedRow j = labels.matchedRow j := by
    intro j column
    exact Function.update_of_ne (by have := column.1; omega) _ _
  have usedIff : ∀ j, (mark search).used j = true ↔ j = 0 := by
    intro j
    by_cases zero : j = 0
    · simp [zero, mark, begun, beginRow]
    · simp [zero, mark, begun, beginRow]
  have colUnused : ∀ j, weights.Column j → (mark search).used j = false := by
    intro j column
    rw [Bool.eq_false_iff, ne_eq, usedIff]
    have := column.1
    omega
  have moved := @advance_moved weights search fun j k used also _ =>
    ((usedIff j).mp used).trans ((usedIff k).mp also).symm
  have reduced : ∀ j, weights.reduced (mark search) j =
      weights.cost (count + 1 - 1) (j - 1) - labels.v j := by
    intro j
    have row : (mark search).matchedRow (mark search).j0 = count + 1 := rootRow
    have zero : (mark search).u (count + 1) = 0 := balanced.fresh _ (Nat.lt_succ_self _)
    rw [Weights.reduced, row, zero, sub_zero]
    rfl
  have below : ∀ j, weights.Column j → weights.reduced (mark search) j < weights.inf := by
    intro j column
    refine count_lt_inf fewer ?_
    have bound := balanced.colBound j column
    have cost := weights.cost_nonpos (count + 1 - 1) (j - 1)
    rw [reduced]
    linarith
  have minv : ∀ j, weights.Column j → (weights.sweep (mark search)).minv j =
      weights.cost (count + 1 - 1) (j - 1) - labels.v j := by
    intro j column
    rw [moved.sweptMinv column (colUnused j column), ← reduced]
    exact min_eq_right (below j column).le
  have first : weights.Column 1 := ⟨le_rfl, by omega⟩
  obtain ⟨deltaBelow, j1, found, chosen, _, least⟩ :=
    moved.chosen first (colUnused 1 first) (below 1 first)
  generalize delta_eq : (weights.sweep (mark search)).delta = delta at *
  have sentinel : weights.BelowSentinel search :=
    ⟨fun j column _ => below j column, delta_eq ▸ deltaBelow, j1, found, chosen⟩
  refine ⟨sentinel, j1, found, ?_⟩
  have rootShift : (weights.advance search).1.u (count + 1) = delta := by
    have shift := moved.inside 0 (Nat.zero_le _) ((usedIff 0).mpr rfl)
    have zero : search.u (count + 1) = 0 := balanced.fresh _ (Nat.lt_succ_self _)
    rw [rootRow, zero, zero_add] at shift
    exact shift.trans delta_eq
  have otherShift : ∀ i, i ≠ count + 1 → (weights.advance search).1.u i = labels.u i := by
    intro i other
    refine moved.outside i fun j _ used => ?_
    rw [(usedIff j).mp used, rootRow]
    exact other.symm
  have colShift : ∀ j, weights.Column j → (weights.advance search).1.v j = labels.v j :=
    fun j column => moved.vUnused j (colUnused j column)
  have afterMinv : ∀ j, weights.Column j → (weights.advance search).1.minv j =
      weights.cost (count + 1 - 1) (j - 1) - labels.v j - delta := by
    intro j column
    rw [moved.minv j column (colUnused j column), minv j column, delta_eq]
  have lowest : ∀ j, weights.Column j →
      delta ≤ weights.cost (count + 1 - 1) (j - 1) - labels.v j := by
    intro j column
    rw [← minv j column, ← delta_eq]
    exact moved.swept_spec.least j (column_mem.mpr column) (colUnused j column)
  have afterWay : ∀ j, weights.Column j → (weights.advance search).1.way j = 0 := by
    intro j column
    rw [moved.way, moved.swept_spec.way j]
    exact if_pos ⟨column_mem.mpr column, colUnused j column, below j column⟩
  have afterUsed : ∀ j, (weights.advance search).1.used j = true ↔ j = 0 := by
    intro j
    rw [moved.used]
    exact usedIff j
  have bound : -1 ≤ delta := by
    have cost := weights.neg_one_le_cost (count + 1 - 1) (j1 - 1)
    have col := balanced.colNonpos j1 chosen
    rw [minv j1 chosen] at least
    linarith
  have afterRow : (weights.advance search).1.matchedRow = search.matchedRow := moved.matchedRow
  have unusedCol : ∀ j, weights.Column j → (weights.advance search).1.used j = false := by
    intro j column
    rw [moved.used]
    exact colUnused j column
  constructor
  case matched =>
    rw [afterRow]
    refine ⟨fun j column => ?_, fun j k column also => ?_, fun i positive within => ?_⟩
    · rw [colRow j column]
      exact balanced.matched.within j column
    · rw [colRow j column, colRow k also]
      exact balanced.matched.apart j k column also
    · obtain ⟨j, column, same⟩ := balanced.matched.covers i positive within
      exact ⟨j, column, (colRow j column).trans same⟩
  case root => exact (congrFun afterRow 0).trans rootRow
  case usedMatched =>
    intro j used
    obtain rfl := (afterUsed j).mp used
    refine ⟨Nat.zero_le _, ?_⟩
    change (weights.advance search).1.matchedRow 0 ≠ 0
    rw [afterRow, rootRow]
    exact Nat.succ_ne_zero _
  case rootUsed => exact (afterUsed 0).mpr rfl
  case column => exact chosen
  case unused => exact unusedCol j1 chosen
  case rowBound =>
    intro i
    by_cases root : i = count + 1
    · exact root ▸ rootShift ▸ bound
    · exact (otherShift i root).symm ▸ balanced.rowBound i
  case fresh =>
    intro i later
    exact (otherShift i (by omega)).trans (balanced.fresh i (by omega))
  case colNonpos => exact fun j column => (colShift j column).symm ▸ balanced.colNonpos j column
  case colBound =>
    intro j column
    have col := balanced.colBound j column
    change -(count : ℚ) - (1 + (weights.advance search).1.u (count + 1)) ≤
      (weights.advance search).1.v j
    rw [colShift j column, rootShift]
    linarith
  case outerBound => exact fun j column _ => (colShift j column).symm ▸ balanced.colBound j column
  case feasible =>
    intro i j positive within column
    change (weights.advance search).1.u i + (weights.advance search).1.v j ≤ _
    rw [colShift j column]
    by_cases root : i = count + 1
    · have low := lowest j column
      rw [root, rootShift]
      linarith
    · rw [otherShift i root]
      exact balanced.feasible i j positive (by omega) column
  case tight =>
    intro j column filled
    change (weights.advance search).1.matchedRow j ≠ 0 at filled
    change (weights.advance search).1.u ((weights.advance search).1.matchedRow j) +
      (weights.advance search).1.v j =
        weights.cost ((weights.advance search).1.matchedRow j - 1) (j - 1)
    rw [afterRow, colRow j column] at filled ⊢
    have within := balanced.matched.within j column
    rw [colShift j column, otherShift _ (by omega)]
    exact balanced.tight j column filled
  case free =>
    intro j column empty
    change (weights.advance search).1.matchedRow j = 0 at empty
    rw [afterRow, colRow j column] at empty
    exact (colShift j column).trans (balanced.free j column empty)
  case wayUsed => exact fun j column => (afterUsed _).mpr (afterWay j column)
  case least =>
    intro j column _
    change (weights.advance search).1.minv j =
      weights.cost ((weights.advance search).1.matchedRow ((weights.advance search).1.way j) - 1)
          (j - 1) -
        (weights.advance search).1.u ((weights.advance search).1.matchedRow
          ((weights.advance search).1.way j)) - (weights.advance search).1.v j
    rw [afterWay j column, afterRow, rootRow, rootShift, colShift j column, afterMinv j column]
    ring
  case below =>
    intro j column _ k used
    obtain rfl := (afterUsed k).mp used
    change (weights.advance search).1.minv j ≤
      weights.cost ((weights.advance search).1.matchedRow 0 - 1) (j - 1) -
        (weights.advance search).1.u ((weights.advance search).1.matchedRow 0) -
          (weights.advance search).1.v j
    rw [afterRow, rootRow, rootShift, colShift j column, afterMinv j column]
    linarith
  case reached =>
    change (weights.advance search).1.minv j1 = 0
    rw [afterMinv j1 chosen, least, minv j1 chosen, sub_self]
  case branch =>
    intro j column used
    exact absurd used (by simp [unusedCol j column])
  case ranked =>
    refine ⟨fun _ => 0, fun _ _ => Nat.one_pos, fun j column used => ?_⟩
    exact absurd used (by simp [unusedCol j column])
  case passes =>
    have only : ((Finset.range (weights.size + 1)).filter fun j =>
        (weights.advance search).1.used j = true) = {0} := by
      ext j
      rw [Finset.mem_filter, Finset.mem_range, afterUsed j, Finset.mem_singleton]
      omega
    exact (congrArg Finset.card only).trans (Finset.card_singleton 0)

theorem mark_used_iff {search : Search} {j : ℕ} :
    (mark search).used j = true ↔ j = search.j0 ∨ search.used j = true := by
  change Function.update search.used search.j0 true j = true ↔ _
  by_cases here : j = search.j0
  · simp [here]
  · simp [here]

theorem mark_unused {search : Search} {j : ℕ} (unused : (mark search).used j = false) :
    j ≠ search.j0 ∧ search.used j = false := by
  constructor
  · intro here
    rw [mark_used_iff.mpr (.inl here)] at unused
    cases unused
  · rw [Bool.eq_false_iff]
    intro used
    rw [mark_used_iff.mpr (.inr used)] at unused
    cases unused

namespace Tree

variable {search after : Search} {swept : Sweep}

section Marked

variable (tree : weights.Tree count pass search) (filled : search.matchedRow search.j0 ≠ 0)

include tree filled

/-- The used columns stay matched when the column reached is used too. -/
theorem markedMatched {k : ℕ} (used : (mark search).used k = true) :
    k ≤ weights.size ∧ search.matchedRow k ≠ 0 := by
  rcases mark_used_iff.mp used with rfl | used
  · exact ⟨tree.column.2, filled⟩
  · exact tree.usedMatched k used

theorem marked_apart (j k : ℕ) (used : (mark search).used j = true)
    (also : (mark search).used k = true) (same : search.matchedRow j = search.matchedRow k) :
    j = k :=
  @rows_apart weights count (mark search) tree.matched tree.root
    (fun _ => tree.markedMatched filled) j k used also same

/-- The row of a used column is one of the search's. -/
theorem markedRow {k : ℕ} (used : (mark search).used k = true) :
    1 ≤ search.matchedRow k ∧ search.matchedRow k ≤ count + 1 := by
  obtain ⟨within, matched⟩ := tree.markedMatched filled used
  refine ⟨Nat.pos_of_ne_zero matched, ?_⟩
  rcases Nat.eq_zero_or_pos k with rfl | positive
  · exact tree.root.le
  · exact (tree.matched.within k ⟨positive, within⟩).trans (Nat.le_succ _)

omit filled in
/-- The reduced costs of the row reached stay under the rows matched so far. -/
theorem reduced_le {j : ℕ} (column : weights.Column j) (unused : (mark search).used j = false) :
    weights.reduced (mark search) j ≤ count + 1 := by
  have cost := weights.cost_nonpos (search.matchedRow search.j0 - 1) (j - 1)
  have row := tree.rowBound (search.matchedRow search.j0)
  have col := tree.outerBound j column (mark_unused unused).2
  change weights.cost (search.matchedRow search.j0 - 1) (j - 1) -
    search.u (search.matchedRow search.j0) - search.v j ≤ count + 1
  linarith

theorem reduced_nonneg {j : ℕ} (column : weights.Column j) :
    0 ≤ weights.reduced (mark search) j := by
  obtain ⟨positive, within⟩ := tree.markedRow filled (mark_used_iff.mpr (.inl rfl))
  have room := tree.feasible _ j positive within column
  change 0 ≤ weights.cost (search.matchedRow search.j0 - 1) (j - 1) -
    search.u (search.matchedRow search.j0) - search.v j
  linarith

theorem minv_nonneg {j : ℕ} (column : weights.Column j) (unused : search.used j = false) :
    0 ≤ search.minv j := by
  have parent := mark_used_iff.mpr (.inr (tree.wayUsed j column))
  obtain ⟨positive, within⟩ := tree.markedRow filled parent
  have room := tree.feasible _ j positive within column
  rw [tree.least j column unused]
  linarith

variable (moved : Moved weights search swept after)

include moved

theorem swept_nonneg {j : ℕ} (column : weights.Column j) (unused : (mark search).used j = false) :
    0 ≤ swept.minv j := by
  rw [moved.sweptMinv column unused]
  exact le_min (tree.minv_nonneg filled column (mark_unused unused).2)
    (tree.reduced_nonneg filled column)

omit filled in
/-- A pass measures each column left from every row of the tree. -/
theorem swept_le {j k : ℕ} (column : weights.Column j) (unused : (mark search).used j = false)
    (used : (mark search).used k = true) :
    swept.minv j ≤ weights.cost (search.matchedRow k - 1) (j - 1) -
      search.u (search.matchedRow k) - search.v j := by
  rw [moved.sweptMinv column unused]
  rcases mark_used_iff.mp used with rfl | used
  · exact min_le_right _ _
  · exact (min_le_left _ _).trans (tree.below j column (mark_unused unused).2 k used)

theorem rowMoved {k : ℕ} (used : (mark search).used k = true) :
    after.u (search.matchedRow k) = search.u (search.matchedRow k) + swept.delta :=
  moved.inside k (tree.markedMatched filled used).1 used

omit filled in
/-- The row of a column that is not used does not move. -/
theorem rowKept {j : ℕ} (column : weights.Column j) (unused : (mark search).used j = false)
    (matched : search.matchedRow j ≠ 0) :
    after.u (search.matchedRow j) = search.u (search.matchedRow j) := by
  refine moved.outside _ fun k within used same => ?_
  rcases Nat.eq_zero_or_pos k with rfl | positive
  · have row := tree.matched.within j column
    rw [tree.root] at same
    omega
  · have equal := tree.matched.apart k j ⟨positive, within⟩ column
      (same ▸ matched) same
    rw [equal, unused] at used
    cases used

/-- The moved labels stay below the costs. -/
theorem feasibleMoved (nonneg : 0 ≤ swept.delta)
    (least : ∀ j, weights.Column j → (mark search).used j = false → swept.delta ≤ swept.minv j)
    {i j : ℕ} (positive : 1 ≤ i) (within : i ≤ count + 1) (column : weights.Column j) :
    after.u i + after.v j ≤ weights.cost (i - 1) (j - 1) := by
  have room := tree.feasible i j positive within column
  by_cases inside : ∃ k, (mark search).used k = true ∧ search.matchedRow k = i
  · obtain ⟨k, used, rfl⟩ := inside
    rw [tree.rowMoved filled moved used]
    cases colUsed : (mark search).used j with
    | true =>
        rw [moved.vUsed j column colUsed]
        linarith
    | false =>
        have low := least j column colUsed
        have measured := tree.swept_le moved column colUsed used
        rw [moved.vUnused j colUsed]
        linarith
  · push Not at inside
    rw [moved.outside i fun k _ used => inside k used]
    cases colUsed : (mark search).used j with
    | true =>
        rw [moved.vUsed j column colUsed]
        linarith
    | false =>
        rw [moved.vUnused j colUsed]
        exact room

theorem tightMoved {j : ℕ} (column : weights.Column j) (matched : search.matchedRow j ≠ 0) :
    after.u (search.matchedRow j) + after.v j =
      weights.cost (search.matchedRow j - 1) (j - 1) := by
  rw [← tree.tight j column matched]
  cases used : (mark search).used j with
  | true =>
      rw [tree.rowMoved filled moved used, moved.vUsed j column used]
      ring
  | false =>
      rw [tree.rowKept moved column used matched, moved.vUnused j used]

/-- A column joined to the tree by a tight edge stays joined. -/
theorem branchMoved {j : ℕ} (column : weights.Column j) (used : (mark search).used j = true) :
    after.u (search.matchedRow (after.way j)) + after.v j =
      weights.cost (search.matchedRow (after.way j) - 1) (j - 1) := by
  have same : after.way j = search.way j := by
    rw [moved.way, moved.swept_spec.way j]
    exact if_neg fun all => by simp [used] at all
  have parent := mark_used_iff.mpr (.inr (tree.wayUsed j column))
  rw [same, tree.rowMoved filled moved parent, moved.vUsed j column used]
  rcases mark_used_iff.mp used with rfl | used
  · have measured := tree.least _ column tree.unused
    rw [tree.reached] at measured
    linarith
  · have joined := tree.branch j column used
    linarith

/-- Each column left is measured from the row it is least from. -/
theorem leastMoved {j : ℕ} (column : weights.Column j) (unused : (mark search).used j = false) :
    after.minv j = weights.cost (search.matchedRow (after.way j) - 1) (j - 1) -
      after.u (search.matchedRow (after.way j)) - after.v j := by
  have way := moved.swept_spec.way j
  have minv := moved.sweptMinv column unused
  rw [← moved.way] at way
  rw [moved.minv j column unused, moved.vUnused j unused, minv]
  by_cases lower : weights.reduced (mark search) j < search.minv j
  · rw [if_pos ⟨column_mem.mpr column, unused, lower⟩] at way
    change after.way j = search.j0 at way
    rw [way, tree.rowMoved filled moved (mark_used_iff.mpr (.inl rfl)), min_eq_right lower.le]
    change weights.cost (search.matchedRow search.j0 - 1) (j - 1) -
      search.u (search.matchedRow search.j0) - search.v j - swept.delta = _
    ring
  · rw [if_neg fun all => lower all.2.2] at way
    change after.way j = search.way j at way
    rw [way, tree.rowMoved filled moved (mark_used_iff.mpr (.inr (tree.wayUsed j column))),
      min_eq_left (not_lt.mp lower), tree.least j column (mark_unused unused).2]
    ring

omit filled in
theorem wayMoved {j : ℕ} (column : weights.Column j) :
    (mark search).used (after.way j) = true := by
  rw [moved.way, moved.swept_spec.way j]
  split_ifs
  · exact mark_used_iff.mpr (.inl rfl)
  · exact mark_used_iff.mpr (.inr (tree.wayUsed j column))

omit filled in
theorem rankedMoved : ∃ rank : ℕ → ℕ,
    (∀ j, (mark search).used j = true → rank j < pass + 1) ∧
      ∀ j, weights.Column j → (mark search).used j = true → rank (after.way j) < rank j := by
  obtain ⟨rank, bounded, falls⟩ := tree.ranked
  have apart : ∀ j, search.used j = true → j ≠ search.j0 := by
    rintro j used rfl
    rw [tree.unused] at used
    cases used
  refine ⟨Function.update rank search.j0 pass, fun j used => ?_, fun j column used => ?_⟩
  · rcases mark_used_iff.mp used with rfl | used
    · rw [Function.update_self]
      exact Nat.lt_succ_self _
    · rw [Function.update_of_ne (apart j used)]
      exact (bounded j used).trans (Nat.lt_succ_self _)
  · have same : after.way j = search.way j := by
      rw [moved.way, moved.swept_spec.way j]
      exact if_neg fun all => by simp [used] at all
    have parent := tree.wayUsed j column
    rw [same, Function.update_of_ne (apart _ parent)]
    rcases mark_used_iff.mp used with rfl | used
    · rw [Function.update_self]
      exact bounded _ parent
    · rw [Function.update_of_ne (apart j used)]
      exact falls j column used

end Marked

/-- A pass from a column that is matched adds it to the tree. -/
theorem advance (tree : weights.Tree count pass search)
    (filled : search.matchedRow search.j0 ≠ 0) (fewer : count < weights.size) :
    weights.BelowSentinel search ∧
      ∃ j1, (weights.advance search).2 = some j1 ∧
        weights.Tree count (pass + 1) { (weights.advance search).1 with j0 := j1 } := by
  have moved := @advance_moved weights search (tree.marked_apart filled)
  have below : ∀ j, weights.Column j → (mark search).used j = false →
      weights.reduced (mark search) j < weights.inf :=
    fun j column unused => count_lt_inf fewer (tree.reduced_le column unused)
  obtain ⟨j, column, empty⟩ := tree.matched.exists_free fewer
  have untaken : (mark search).used j = false := by
    rw [Bool.eq_false_iff]
    exact fun used => (tree.markedMatched filled used).2 empty
  obtain ⟨deltaBelow, j1, found, chosen, unchosen, least⟩ :=
    moved.chosen column untaken (below j column untaken)
  refine ⟨⟨below, deltaBelow, j1, found, chosen⟩, j1, found, ?_⟩
  have nonneg : 0 ≤ (weights.sweep (mark search)).delta :=
    least ▸ tree.swept_nonneg filled moved chosen unchosen
  have lowest : ∀ j, weights.Column j → (mark search).used j = false →
      (weights.sweep (mark search)).delta ≤ (weights.sweep (mark search)).minv j :=
    fun j column unused => moved.swept_spec.least j (column_mem.mpr column) unused
  have rootShift : (weights.advance search).1.u (count + 1) =
      search.u (count + 1) + (weights.sweep (mark search)).delta := by
    have shift := tree.rowMoved filled moved (mark_used_iff.mpr (.inr tree.rootUsed))
    rwa [tree.root] at shift
  have sameRow : (weights.advance search).1.matchedRow = search.matchedRow := moved.matchedRow
  have sameUsed : (weights.advance search).1.used = (mark search).used := moved.used
  generalize (weights.advance search).1 = after at *
  generalize (weights.sweep (mark search)) = swept at *
  have rows : ∀ i, search.u i ≤ after.u i := by
    intro i
    by_cases inside : ∃ k, (mark search).used k = true ∧ search.matchedRow k = i
    · obtain ⟨k, used, rfl⟩ := inside
      rw [tree.rowMoved filled moved used]
      exact le_add_of_nonneg_right nonneg
    · push Not at inside
      exact (moved.outside i fun k _ used => inside k used).ge
  have cols : ∀ j, weights.Column j →
      after.v j = search.v j ∨ after.v j = search.v j - swept.delta := by
    intro j column
    cases used : (mark search).used j with
    | true => exact .inr (moved.vUsed j column used)
    | false => exact .inl (moved.vUnused j used)
  constructor
  case matched => exact sameRow ▸ tree.matched
  case root => exact (congrFun sameRow 0).trans tree.root
  case usedMatched =>
    intro j used
    change after.used j = true at used
    change j ≤ weights.size ∧ after.matchedRow j ≠ 0
    rw [sameUsed] at used
    rw [sameRow]
    exact tree.markedMatched filled used
  case rootUsed => exact (congrFun sameUsed 0).trans (mark_used_iff.mpr (.inr tree.rootUsed))
  case column => exact chosen
  case unused => exact (congrFun sameUsed j1).trans unchosen
  case rowBound => exact fun i => (tree.rowBound i).trans (rows i)
  case fresh =>
    intro i later
    refine (moved.outside i fun k _ used same => ?_).trans (tree.fresh i later)
    have row := (tree.markedRow filled used).2
    omega
  case colNonpos =>
    intro j column
    have old := tree.colNonpos j column
    change after.v j ≤ 0
    rcases cols j column with same | same <;> rw [same] <;> linarith
  case colBound =>
    intro j column
    have old := tree.colBound j column
    change -(count : ℚ) - (1 + after.u (count + 1)) ≤ after.v j
    rcases cols j column with same | same <;> rw [same, rootShift] <;> linarith
  case outerBound =>
    intro j column unused
    change after.used j = false at unused
    rw [sameUsed] at unused
    exact (moved.vUnused j unused).symm ▸ tree.outerBound j column (mark_unused unused).2
  case feasible =>
    exact fun i j positive within column =>
      tree.feasibleMoved filled moved nonneg lowest positive within column
  case tight =>
    intro j column matched
    change after.matchedRow j ≠ 0 at matched
    change after.u (after.matchedRow j) + after.v j = weights.cost (after.matchedRow j - 1) (j - 1)
    rw [sameRow] at matched ⊢
    exact tree.tightMoved filled moved column matched
  case free =>
    intro j column empty
    change after.matchedRow j = 0 at empty
    rw [sameRow] at empty
    have unused : (mark search).used j = false := by
      rw [Bool.eq_false_iff]
      exact fun used => (tree.markedMatched filled used).2 empty
    exact (moved.vUnused j unused).trans (tree.free j column empty)
  case wayUsed => exact fun j column => (congrFun sameUsed _).trans (tree.wayMoved moved column)
  case least =>
    intro j column unused
    change after.used j = false at unused
    rw [sameUsed] at unused
    have measured := tree.leastMoved filled moved column unused
    rw [← sameRow] at measured
    exact measured
  case below =>
    intro j column unused k used
    change after.used j = false at unused
    change after.used k = true at used
    rw [sameUsed] at unused used
    change after.minv j ≤ weights.cost (after.matchedRow k - 1) (j - 1) -
      after.u (after.matchedRow k) - after.v j
    have measured := tree.swept_le moved column unused used
    rw [sameRow, moved.minv j column unused, tree.rowMoved filled moved used,
      moved.vUnused j unused]
    linarith
  case reached => exact (moved.minv j1 chosen unchosen).trans (by rw [least, sub_self])
  case branch =>
    intro j column used
    change after.used j = true at used
    rw [sameUsed] at used
    have joined := tree.branchMoved filled moved column used
    rw [← sameRow] at joined
    exact joined
  case ranked =>
    obtain ⟨rank, bounded, falls⟩ := tree.rankedMoved moved
    refine ⟨rank, fun j used => bounded j ?_, fun j column used => falls j column ?_⟩
    · exact sameUsed ▸ used
    · exact sameUsed ▸ used
  case passes =>
    have grown : ((Finset.range (weights.size + 1)).filter fun j => after.used j = true) =
        insert search.j0 ((Finset.range (weights.size + 1)).filter fun j =>
          search.used j = true) := by
      ext j
      rw [Finset.mem_insert, Finset.mem_filter, Finset.mem_filter, sameUsed, mark_used_iff,
        Finset.mem_range]
      constructor
      · rintro ⟨within, rfl | used⟩
        · exact .inl rfl
        · exact .inr ⟨within, used⟩
      · rintro (rfl | ⟨within, used⟩)
        · exact ⟨Nat.lt_succ_of_le tree.column.2, .inl rfl⟩
        · exact ⟨within, .inr used⟩
    refine (congrArg Finset.card grown).trans ?_
    rw [Finset.card_insert_of_notMem, tree.passes]
    rw [Finset.mem_filter, tree.unused]
    simp

end Tree

end Weights

end Verbatus.Corpus
