import Verbatus.Corpus.Hungarian

namespace Verbatus.Corpus

open Library

namespace Weights

variable (weights : Weights) (search : Search)

/-- What a pass over columns leaves in the least costs, in the way, and for the least of them. -/
structure Swept (columns : List ℕ) (before after : Sweep) : Prop where
  minv : ∀ j, after.minv j =
    if j ∈ columns ∧ search.used j = false then min (before.minv j) (weights.reduced search j)
    else before.minv j
  way : ∀ j, after.way j =
    if j ∈ columns ∧ search.used j = false ∧ weights.reduced search j < before.minv j
    then search.j0 else before.way j
  least : ∀ j ∈ columns, search.used j = false → after.delta ≤ after.minv j
  falls : after.delta ≤ before.delta
  chosen : after.j1 = before.j1 ∧ after.delta = before.delta ∨
    ∃ j ∈ columns, search.used j = false ∧ after.j1 = some j ∧ after.delta = after.minv j ∧
      after.delta < before.delta

variable {weights search}

theorem sweepColumn_used {sweep : Sweep} {j : ℕ} (used : search.used j = true) :
    weights.sweepColumn search sweep j = sweep := by
  rw [sweepColumn, if_pos used]

/-- The pass over one column that is not in the tree. -/
theorem sweepColumn_unused {sweep : Sweep} {j : ℕ} (unused : search.used j = false) :
    let least := min (sweep.minv j) (weights.reduced search j)
    let after := weights.sweepColumn search sweep j
    after.minv = Function.update sweep.minv j least ∧
      after.way = (if weights.reduced search j < sweep.minv j
        then Function.update sweep.way j search.j0 else sweep.way) ∧
      after.delta = min sweep.delta least ∧
      after.j1 = if least < sweep.delta then some j else sweep.j1 := by
  intro least after
  have untaken : ¬ search.used j = true := by simp [unused]
  by_cases lower : weights.reduced search j < sweep.minv j
  · have same : least = weights.reduced search j := min_eq_right lower.le
    by_cases below : weights.reduced search j < sweep.delta
    · simp [after, same, sweepColumn, untaken, lower, below, min_eq_right below.le]
    · simp [after, same, sweepColumn, untaken, lower, below, min_eq_left (not_lt.mp below)]
  · have same : least = sweep.minv j := min_eq_left (not_lt.mp lower)
    by_cases below : sweep.minv j < sweep.delta
    · simp [after, same, sweepColumn, untaken, lower, below, min_eq_right below.le]
    · simp [after, same, sweepColumn, untaken, lower, below, min_eq_left (not_lt.mp below)]

theorem swept_foldl (columns : List ℕ) (distinct : columns.Nodup) (before : Sweep) :
    Swept weights search columns before
      (columns.foldl (weights.sweepColumn search) before) := by
  induction columns generalizing before with
  | nil =>
      exact ⟨by simp, by simp, by simp, le_rfl, .inl ⟨rfl, rfl⟩⟩
  | cons column rest ih =>
      obtain ⟨fresh, others⟩ := List.nodup_cons.mp distinct
      have later := ih others (weights.sweepColumn search before column)
      rw [List.foldl_cons]
      generalize rest.foldl (weights.sweepColumn search)
        (weights.sweepColumn search before column) = after at later
      cases used : search.used column with
      | true =>
          rw [sweepColumn_used used] at later
          have skip : ∀ j, (j ∈ column :: rest ∧ search.used j = false) ↔
              (j ∈ rest ∧ search.used j = false) := by
            intro j
            rw [List.mem_cons]
            constructor
            · rintro ⟨rfl | listed, unused⟩
              · rw [used] at unused
                cases unused
              · exact ⟨listed, unused⟩
            · exact fun both => ⟨.inr both.1, both.2⟩
          refine ⟨fun j => ?_, fun j => ?_, fun j listed unused => ?_, later.falls, ?_⟩
          · rw [later.minv j, if_congr (skip j) rfl rfl]
          · rw [later.way j]
            refine if_congr ?_ rfl rfl
            rw [← and_assoc, ← and_assoc, skip j]
          · exact later.least j ((skip j).mp ⟨listed, unused⟩).1 unused
          · rcases later.chosen with same | ⟨j, listed, rest⟩
            · exact .inl same
            · exact .inr ⟨j, List.mem_cons_of_mem _ listed, rest⟩
      | false =>
          obtain ⟨minv, way, delta, j1⟩ := @sweepColumn_unused weights search before
            column used
          have here : after.minv column = min (before.minv column)
              (weights.reduced search column) := by
            rw [later.minv, if_neg fun both => fresh both.1, minv, Function.update_self]
          refine ⟨fun j => ?_, fun j => ?_, fun j listed unused => ?_, ?_, ?_⟩
          · by_cases same : j = column
            · subst same
              rw [here, if_pos ⟨List.mem_cons_self, used⟩]
            · rw [later.minv j, minv, Function.update_of_ne same]
              simp [same]
          · by_cases same : j = column
            · subst same
              rw [later.way j, if_neg fun both => fresh both.1, way]
              split_ifs with lower kept kept
              · rw [Function.update_self]
              · exact absurd ⟨List.mem_cons_self, used, lower⟩ kept
              · exact absurd kept.2.2 lower
              · rfl
            · rw [later.way j, minv, way, Function.update_of_ne same]
              have apart : (if weights.reduced search column < before.minv column
                  then Function.update before.way column search.j0 else before.way) j =
                    before.way j := by
                split_ifs
                · rw [Function.update_of_ne same]
                · rfl
              rw [apart]
              simp [same]
          · rcases List.mem_cons.mp listed with rfl | listed
            · rw [here]
              refine later.falls.trans ?_
              rw [delta]
              exact min_le_right _ _
            · exact later.least j listed unused
          · exact later.falls.trans (delta ▸ min_le_left _ _)
          · rcases later.chosen with ⟨sameColumn, sameDelta⟩ | ⟨j, listed, unused, found, least, fell⟩
            · rw [delta] at sameDelta
              rw [j1] at sameColumn
              by_cases below : min (before.minv column) (weights.reduced search column) <
                  before.delta
              · rw [if_pos below] at sameColumn
                rw [min_eq_right below.le] at sameDelta
                exact .inr ⟨column, List.mem_cons_self, used, sameColumn,
                  sameDelta.trans here.symm, sameDelta ▸ below⟩
              · rw [if_neg below] at sameColumn
                rw [min_eq_left (not_lt.mp below)] at sameDelta
                exact .inl ⟨sameColumn, sameDelta⟩
            · rw [delta] at fell
              exact .inr ⟨j, List.mem_cons_of_mem _ listed, unused, found, least,
                fell.trans_le (min_le_left _ _)⟩

/-- What the shift by the least cost leaves: the tree's labels moved together, the rest of the
    columns' least costs moved with them. -/
structure Shifted (delta : ℚ) (columns : List ℕ) (before after : Search) : Prop where
  matchedRow : after.matchedRow = before.matchedRow
  way : after.way = before.way
  used : after.used = before.used
  v : ∀ j, after.v j = if j ∈ columns ∧ before.used j = true then before.v j - delta else before.v j
  minv : ∀ j, after.minv j =
    if j ∈ columns ∧ before.used j = false then before.minv j - delta else before.minv j
  inside : ∀ j ∈ columns, before.used j = true →
    after.u (before.matchedRow j) = before.u (before.matchedRow j) + delta
  outside : ∀ i, (∀ j ∈ columns, before.used j = true → before.matchedRow j ≠ i) →
    after.u i = before.u i

theorem shifted_foldl (delta : ℚ) (columns : List ℕ) (distinct : columns.Nodup) (before : Search)
    (apart : ∀ j ∈ columns, ∀ k ∈ columns, before.used j = true → before.used k = true →
      before.matchedRow j = before.matchedRow k → j = k) :
    Shifted delta columns before (columns.foldl (shiftColumn delta) before) := by
  induction columns generalizing before with
  | nil =>
      exact ⟨rfl, rfl, rfl, by simp, by simp, by simp, fun i _ => rfl⟩
  | cons column rest ih =>
      obtain ⟨fresh, others⟩ := List.nodup_cons.mp distinct
      have sameRow : (shiftColumn delta before column).matchedRow = before.matchedRow := by
        unfold shiftColumn
        split_ifs <;> rfl
      have sameUsed : (shiftColumn delta before column).used = before.used := by
        unfold shiftColumn
        split_ifs <;> rfl
      have sameWay : (shiftColumn delta before column).way = before.way := by
        unfold shiftColumn
        split_ifs <;> rfl
      have later := ih others (shiftColumn delta before column) (by
        rw [sameRow, sameUsed]
        exact fun j listed k also => apart j (List.mem_cons_of_mem _ listed) k
          (List.mem_cons_of_mem _ also))
      rw [List.foldl_cons]
      generalize rest.foldl (shiftColumn delta) (shiftColumn delta before column) = after at later
      have uses := later.used
      rw [sameUsed] at uses
      have inside := later.inside
      have outside := later.outside
      have cols := later.v
      have mins := later.minv
      rw [sameUsed, sameRow] at inside outside
      simp only [sameUsed] at cols mins
      refine ⟨later.matchedRow.trans sameRow, later.way.trans sameWay, uses, fun j => ?_,
        fun j => ?_, fun j listed used => ?_, fun i missing => ?_⟩
      · rw [cols j]
        by_cases same : j = column
        · subst same
          simp only [fresh, false_and, if_false, List.mem_cons_self, true_and]
          cases taken : before.used j with
          | true =>
              rw [shiftColumn, if_pos taken, if_pos rfl]
              exact Function.update_self _ _ _
          | false => rw [shiftColumn, taken, if_neg Bool.false_ne_true, if_neg Bool.false_ne_true]
        · have kept : (shiftColumn delta before column).v j = before.v j := by
            unfold shiftColumn
            split_ifs
            · exact Function.update_of_ne same _ _
            · rfl
          simp [kept, same]
      · rw [mins j]
        by_cases same : j = column
        · subst same
          simp only [fresh, false_and, if_false, List.mem_cons_self, true_and]
          cases taken : before.used j with
          | true => rw [shiftColumn, if_pos taken, if_neg (by simp)]
          | false =>
              rw [shiftColumn, taken, if_neg Bool.false_ne_true, if_pos rfl]
              exact Function.update_self _ _ _
        · have kept : (shiftColumn delta before column).minv j = before.minv j := by
            unfold shiftColumn
            split_ifs
            · rfl
            · exact Function.update_of_ne same _ _
          simp [kept, same]
      · rcases List.mem_cons.mp listed with rfl | listed
        · rw [outside _ fun k member taken same => ?_]
          · rw [shiftColumn, if_pos used]
            exact Function.update_self _ _ _
          · have equal := apart k (List.mem_cons_of_mem _ member) j List.mem_cons_self taken used same
            exact fresh (equal ▸ member)
        · rw [inside j listed used]
          congr 1
          unfold shiftColumn
          split_ifs with taken
          · refine Function.update_of_ne (fun same => ?_) _ _
            have equal := apart j (List.mem_cons_of_mem _ listed) column List.mem_cons_self used
              taken same
            exact fresh (equal ▸ listed)
          · rfl
      · rw [outside i fun k member => missing k (List.mem_cons_of_mem _ member)]
        unfold shiftColumn
        split_ifs with taken
        · exact Function.update_of_ne
            (fun same => missing column List.mem_cons_self taken same.symm) _ _
        · rfl

end Weights

end Verbatus.Corpus
