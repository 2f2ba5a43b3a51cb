import Mathlib.Tactic

namespace Verbatus.Library

/-- One stack a key, the newest element of each last. -/
abbrev Stacks (κ α : Type) := κ → List α

/-- What one step does to the stacks. -/
inductive StackMove (κ α : Type) where
  | idle
  | push (key : κ) (element : α)
  | pop (key : κ) (element : α)

section Stacks

variable {κ α : Type}

/-- A step that leaves the stacks, adds to one of them, or takes the newest element of one. -/
def StackMove.Makes : StackMove κ α → Stacks κ α → Stacks κ α → Prop
  | idle, before, after => after = before
  | push key element, before, after =>
    after key = before key ++ [element] ∧ ∀ other, other ≠ key → after other = before other
  | pop key element, before, after =>
    before key = after key ++ [element] ∧ ∀ other, other ≠ key → after other = before other

/-- Stacks that moves lead to, one after another. -/
inductive StackRun : Stacks κ α → List (StackMove κ α) → Stacks κ α → Prop where
  | start (origin : Stacks κ α) : StackRun origin [] origin
  | step {origin between last : Stacks κ α} {moves : List (StackMove κ α)} {move : StackMove κ α} :
    StackRun origin moves between → move.Makes between last → StackRun origin (moves ++ [move]) last

variable [DecidableEq κ] {origin between last : Stacks κ α} {key : κ} {element : α}
  {moves : List (StackMove κ α)}

/-- What a stack is while an element pushed on it is not pushed again. -/
theorem StackRun.above (run : StackRun between moves last) (pushed : between key = origin key ++ [element])
    (once : .push key element ∉ moves) :
    (∃ rest, last key = origin key ++ element :: rest ∧ element ∉ rest) ∨
      (element ∈ last key → element ∈ origin key) := by
  induction run with
  | start => exact .inl ⟨[], pushed, List.not_mem_nil⟩
  | @step middle after moves move run made ih =>
      have earlier : StackMove.push key element ∉ moves := fun inside => once (List.mem_append_left _ inside)
      have own : move ≠ .push key element := by
        rintro rfl
        exact once (List.mem_append_right _ (.head _))
      cases move with
      | idle =>
          obtain rfl := made
          exact ih earlier
      | push other given =>
          obtain ⟨grown, others⟩ := made
          by_cases same : key = other
          · subst same
            have apart : given ≠ element := fun equal => own (equal ▸ rfl)
            rcases ih earlier with ⟨rest, held, absent⟩ | absent
            · refine .inl ⟨rest ++ [given], ?_, ?_⟩
              · rw [grown, held, List.append_assoc, List.cons_append]
              · rw [List.mem_append, List.mem_singleton]
                exact fun inside => inside.elim absent fun equal => apart equal.symm
            · refine .inr fun inside => ?_
              rw [grown, List.mem_append, List.mem_singleton] at inside
              exact inside.elim absent fun equal => absurd equal.symm apart
          · rw [others key same]
            exact ih earlier
      | pop other given =>
          obtain ⟨taken, others⟩ := made
          by_cases same : key = other
          · subst same
            rcases ih earlier with ⟨rest, held, absent⟩ | absent
            · rcases List.eq_nil_or_concat rest with rfl | ⟨more, top, rfl⟩
              · rw [held] at taken
                have bottom := (List.append_inj' taken rfl).1
                exact .inr fun inside => bottom.symm ▸ inside
              · rw [held, List.concat_eq_append, ← List.cons_append, ← List.append_assoc] at taken
                refine .inl ⟨more, (List.append_inj' taken rfl).1.symm, fun inside => absent ?_⟩
                rw [List.concat_eq_append]
                exact List.mem_append_left _ inside
            · refine .inr fun inside => absent ?_
              rw [taken]
              exact List.mem_append_left _ inside
          · rw [others key same]
            exact ih earlier

/-- Taking back an element restores the stack it was pushed on. -/
theorem StackRun.restores {pushedOn final : Stacks κ α} (push : (StackMove.push key element).Makes origin pushedOn)
    (run : StackRun pushedOn moves last) (pop : (StackMove.pop key element).Makes last final)
    (fresh : element ∉ origin key) (once : .push key element ∉ moves) : final key = origin key := by
  obtain ⟨taken, -⟩ := pop
  rcases run.above push.1 once with ⟨rest, held, absent⟩ | absent
  · rcases List.eq_nil_or_concat rest with rfl | ⟨more, top, rfl⟩
    · rw [held] at taken
      exact (List.append_inj' taken rfl).1.symm
    · rw [held, List.concat_eq_append, ← List.cons_append, ← List.append_assoc] at taken
      obtain rfl := List.singleton_inj.mp (List.append_inj' taken rfl).2
      exact absurd (List.mem_append_right _ (.head _)) (List.concat_eq_append ▸ absent)
  · have inside : element ∈ last key := by
      rw [taken]
      exact List.mem_append_right _ (.head _)
    exact absurd (absent inside) fresh

end Stacks

end Verbatus.Library
