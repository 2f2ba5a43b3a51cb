import Mathlib.Data.Finset.Card
import Mathlib.Data.Finset.Range
import Mathlib.Logic.Relation
import Mathlib.Tactic

namespace Verbatus.Library

section Rooted

/-- Following the parents from an index reaches a root after the given number of steps. -/
inductive Rooted (parent : ℕ → ℕ) : ℕ → ℕ → ℕ → Prop
  | root {root : ℕ} : parent root = root → Rooted parent root root 0
  | step {index root steps : ℕ} : parent index ≠ index →
      Rooted parent (parent index) root steps → Rooted parent index root (steps + 1)

variable {parent : ℕ → ℕ} {index root other steps others : ℕ}

theorem Rooted.fixed (rooted : Rooted parent index root steps) : parent root = root := by
  induction rooted with
  | root same => exact same
  | step _ _ ih => exact ih

theorem Rooted.unique (rooted : Rooted parent index root steps)
    (again : Rooted parent index other others) : root = other ∧ steps = others := by
  induction rooted generalizing others with
  | root same =>
      cases again with
      | root => exact ⟨rfl, rfl⟩
      | step differs => exact absurd same differs
  | step differs _ ih =>
      cases again with
      | root same => exact absurd same differs
      | step _ rest =>
          obtain ⟨sameRoot, sameSteps⟩ := ih rest
          exact ⟨sameRoot, congrArg (· + 1) sameSteps⟩

/-- An index passed on the way is nearer to the root. -/
theorem Rooted.iterate (rooted : Rooted parent index root steps) {count : ℕ}
    (early : count ≤ steps) : Rooted parent (parent^[count] index) root (steps - count) := by
  induction rooted generalizing count with
  | root same =>
      obtain rfl := Nat.le_zero.mp early
      exact .root same
  | step differs rest ih =>
      cases count with
      | zero => exact .step differs rest
      | succ count =>
          rw [Function.iterate_succ_apply, Nat.add_sub_add_right]
          exact ih (Nat.le_of_succ_le_succ early)

/-- No index is passed twice, so the steps are fewer than the indices. -/
theorem Rooted.steps_lt {size : ℕ} (closed : ∀ index < size, parent index < size)
    (inside : index < size) (rooted : Rooted parent index root steps) : steps < size := by
  have within : Set.MapsTo (fun count => parent^[count] index) (Finset.range (steps + 1))
      (Finset.range size) := by
    rintro count -
    rw [Finset.mem_coe, Finset.mem_range]
    dsimp only
    induction count with
    | zero => exact inside
    | succ count ih =>
        rw [Function.iterate_succ_apply']
        exact closed _ ih
  have apart : Set.InjOn (fun count => parent^[count] index) (Finset.range (steps + 1)) := by
    intro first early second late same
    rw [Finset.mem_coe, Finset.mem_range, Nat.lt_succ_iff] at early late
    have here := rooted.iterate early
    have there := rooted.iterate late
    dsimp only at same
    rw [← same] at there
    have level := (here.unique there).2
    omega
  have count := Finset.card_le_card_of_injOn _ within apart
  rw [Finset.card_range, Finset.card_range] at count
  omega

/-- An index pointed past its parent leaves every root where it was, no farther than before. -/
theorem Rooted.halve {place : ℕ} (nonroot : parent place ≠ place)
    (rooted : Rooted parent index root steps) : ∃ fewer ≤ steps,
      Rooted (Function.update parent place (parent (parent place))) index root fewer := by
  induction steps using Nat.strong_induction_on generalizing index with
  | _ steps ih =>
      cases rooted with
      | root same =>
          have apart : root ≠ place := by
            rintro rfl
            exact nonroot same
          refine ⟨0, le_rfl, .root ?_⟩
          rw [Function.update_of_ne apart, same]
      | @step _ _ steps differs rest =>
          rcases eq_or_ne index place with rfl | apart
          · have past : parent (parent index) ≠ index := by
              intro back
              cases rest with
              | root same => exact differs (same.symm.trans back)
              | @step _ _ steps _ rest =>
                  have around := (Rooted.step differs (.step ‹_› rest)).unique (back ▸ rest)
                  omega
            cases rest with
            | root same =>
                obtain ⟨fewer, few, found⟩ := ih 0 (Nat.succ_pos _) (.root same)
                refine ⟨fewer + 1, by omega, .step ?_ ?_⟩
                · rw [Function.update_self]
                  exact past
                · rw [Function.update_self]
                  exact same.symm ▸ found
            | @step _ _ steps _ rest =>
                obtain ⟨fewer, few, found⟩ := ih steps (by omega) rest
                refine ⟨fewer + 1, by omega, .step ?_ ?_⟩
                · rw [Function.update_self]
                  exact past
                · rw [Function.update_self]
                  exact found
          · obtain ⟨fewer, few, found⟩ := ih steps (Nat.lt_succ_self _) rest
            refine ⟨fewer + 1, by omega, .step ?_ ?_⟩
            · rwa [Function.update_of_ne apart]
            · rwa [Function.update_of_ne apart]

/-- A root hung under another takes its indices along. -/
theorem Rooted.link {under top : ℕ} (isUnder : parent under = under) (isTop : parent top = top)
    (apart : under ≠ top) (rooted : Rooted parent index root steps) : ∃ more,
      Rooted (Function.update parent under top) index (if root = under then top else root) more := by
  induction rooted with
  | @root root same =>
      split_ifs with here
      · subst here
        refine ⟨1, .step ?_ ?_⟩
        · rw [Function.update_self]
          exact apart.symm
        · rw [Function.update_self]
          refine .root ?_
          rw [Function.update_of_ne apart.symm, isTop]
      · refine ⟨0, .root ?_⟩
        rw [Function.update_of_ne here, same]
  | @step index root steps differs _ ih =>
      obtain ⟨more, found⟩ := ih
      have away : index ≠ under := by
        rintro rfl
        exact differs isUnder
      refine ⟨more + 1, .step ?_ ?_⟩
      · rwa [Function.update_of_ne away]
      · rwa [Function.update_of_ne away]

end Rooted

section Merge

variable {α β : Type} [DecidableEq β]

/-- Representatives after the class of the second is taken into the class of the first. -/
def merge (representative : α → β) (pair : α × α) (element : α) : β :=
  if representative element = representative pair.2 then representative pair.1
  else representative element

theorem merge_joins (representative : α → β) (pair : α × α) :
    merge representative pair pair.1 = merge representative pair pair.2 := by
  rw [merge, merge, if_pos rfl, ite_id]

theorem merge_keeps {representative : α → β} (pair : α × α) {first second : α}
    (same : representative first = representative second) :
    merge representative pair first = merge representative pair second := by
  rw [merge, merge, same]

/-- What two elements have in common after a merge, they had before or by the pair. -/
theorem eqvGen_of_merge {relation : α → α → Prop} {representative : α → β} {pair : α × α}
    (before : ∀ {first second}, representative first = representative second →
      Relation.EqvGen relation first second)
    (joined : Relation.EqvGen relation pair.1 pair.2) {first second : α}
    (same : merge representative pair first = merge representative pair second) :
    Relation.EqvGen relation first second := by
  rw [merge, merge] at same
  split_ifs at same with inFirst inSecond inSecond
  · exact before (inFirst.trans inSecond.symm)
  · exact (before inFirst).trans _ _ _ ((joined.symm _ _).trans _ _ _ (before same))
  · exact (before same).trans _ _ _ (joined.trans _ _ _ (before inSecond.symm))
  · exact before same

/-- After merging pair by pair, two elements are represented alike exactly when the pairs
connect them. -/
theorem foldl_merge_eq_iff {representative : α → β} (injective : Function.Injective representative)
    (pairs : List (α × α)) (first second : α) :
    pairs.foldl merge representative first = pairs.foldl merge representative second ↔
      Relation.EqvGen (fun a b => (a, b) ∈ pairs) first second := by
  induction pairs using List.reverseRecOn generalizing first second with
  | nil =>
      constructor
      · intro same
        rw [injective same]
        exact .refl _
      · intro connected
        induction connected with
        | rel _ _ listed => cases listed
        | refl => rfl
        | symm _ _ _ ih => exact ih.symm
        | trans _ _ _ _ _ ih ih' => exact ih.trans ih'
  | append_singleton pairs pair ih =>
      rw [List.foldl_append]
      constructor
      · refine eqvGen_of_merge (fun same => ?_) (.rel _ _ ?_)
        · exact ((ih _ _).mp same).mono fun a b listed => List.mem_append_left _ listed
        · exact List.mem_append_right _ (.head _)
      · intro connected
        induction connected with
        | rel a b listed =>
            rcases List.mem_append.mp listed with old | new
            · exact merge_keeps pair ((ih a b).mpr (.rel _ _ old))
            · rw [← List.mem_singleton.mp new]
              exact merge_joins _ (a, b)
        | refl => rfl
        | symm _ _ _ ih => exact ih.symm
        | trans _ _ _ _ _ ih ih' => exact ih.trans ih'

end Merge

end Verbatus.Library
