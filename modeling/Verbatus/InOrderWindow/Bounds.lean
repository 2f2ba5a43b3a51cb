import Verbatus.InOrderWindow.Order

namespace Verbatus.InOrderWindow

open Verbatus.Library

variable {ε α β : Type} {width : ℕ} {given : List (Job ε α β)} {failure : Option ε}
  {state next : State ε α β}

/-- How many calls are out. -/
def inFlight (window : List (Slot ε α β)) : ℕ := window.countP (·.running)

theorem inFlight_answer (window : List (Slot ε α β)) (position : ℕ) (slot : Slot ε α β) :
    inFlight (window.set position { slot with running := false }) ≤ inFlight window := by
  induction window generalizing position with
  | nil => simp [inFlight]
  | cons first rest ih =>
      cases position with
      | zero =>
          simp only [inFlight, List.set_cons_zero, List.countP_cons]
          split <;> simp_all
      | succ position =>
          have later := ih position
          simp only [inFlight, List.set_cons_succ, List.countP_cons] at later ⊢
          omega

theorem inFlight_take_answer (window : List (Slot ε α β)) (seen position : ℕ)
    (slot : Slot ε α β) :
    inFlight ((window.set position { slot with running := false }).take seen) ≤
      inFlight (window.take seen) := by
  rw [List.take_set]
  exact inFlight_answer _ position slot

theorem inFlight_take_succ {window : List (Slot ε α β)} {position : ℕ}
    (inside : position < window.length) :
    inFlight (window.take (position + 1)) =
      inFlight (window.take position) + if window[position].running then 1 else 0 := by
  rw [inFlight, List.take_succ_eq_append_getElem inside, List.countP_append, List.countP_singleton,
    inFlight]

theorem inFlight_tail_le {window rest : List (Slot ε α β)} {first : Slot ε α β}
    (same : window = first :: rest) : inFlight rest ≤ inFlight window := by
  rw [same, inFlight, inFlight, List.countP_cons]
  omega

/-- The positions `out()` has found cover the calls that are out where it has looked. -/
def Covered (window : List (Slot ε α β)) : Phase → Prop
  | .inspecting position pending =>
    position ≤ window.length ∧ (∀ out ∈ pending, out < position) ∧
      inFlight (window.take position) ≤ pending.length
  | .deciding pending =>
    (∀ out ∈ pending, out < window.length) ∧ inFlight window ≤ pending.length
  | .waiting pending => pending ≠ [] ∧ ∀ out ∈ pending, out < window.length
  | _ => True

/-- The two bounds of the window, and what keeps them. -/
structure Bounded (width : ℕ) (state : State ε α β) : Prop where
  flight : inFlight state.window ≤ width
  length : state.window.length ≤ heldPerSlot * width + width - 1
  covered : Covered state.window state.phase

theorem start_bounded : Bounded width (start given failure) := by
  constructor <;> simp [start, inFlight, Covered]

/-- Every position found is out, or the step is one that leaves the inspection. -/
theorem Covered.answer {window : List (Slot ε α β)} {phase : Phase} (covered : Covered window phase)
    (position : ℕ) (slot : Slot ε α β) :
    Covered (window.set position { slot with running := false }) phase := by
  cases phase with
  | inspecting seen pending =>
      have fewer := inFlight_take_answer window seen position slot
      simp only [Covered, List.length_set] at covered ⊢
      exact ⟨covered.1, covered.2.1, fewer.trans covered.2.2⟩
  | deciding pending =>
      have fewer := inFlight_answer window position slot
      simp only [Covered, List.length_set] at covered ⊢
      exact ⟨covered.1, fewer.trans covered.2⟩
  | waiting pending => simpa only [Covered, List.length_set] using covered
  | loop | heads | draining | ended => trivial

theorem outAt_eq {position : ℕ} (inside : position < state.window.length) :
    state.outAt position = state.window[position].running := by
  simp [State.outAt, inside]

theorem Move.bounded (move : Move width state next) (bounded : Bounded width state) :
    Bounded width next := by
  obtain ⟨flight, length, covered⟩ := bounded
  cases move with
  | enter | leave | stop | again | wake | close => exact ⟨flight, length, trivial⟩
  | look => exact ⟨flight, length, by simp [Covered, inFlight]⟩
  | finish phase first rest window answered =>
      have fields := finishFirst_finished state first rest
      have shorter : rest.length ≤ state.window.length := by simp [window]
      refine ⟨?_, ?_, ?_⟩
      · rw [fields.window]
        exact (inFlight_tail_le window).trans flight
      · rw [fields.window]
        exact shorter.trans length
      · rcases finishFirst_cases state first rest with
          ⟨-, -, -, same, -⟩ | ⟨raised, called, -, same, -⟩
        · rw [same]
          rcases phase with phase | phase <;> rw [phase] <;> trivial
        · rw [same, raise_phase]
          trivial
  | inspect position pending phase inside =>
      rw [phase] at covered
      obtain ⟨-, below, counted⟩ := covered
      refine ⟨flight, length, inside, ?_, ?_⟩
      · split
        · intro out member
          rcases List.mem_append.mp member with earlier | last
          · exact (below out earlier).trans (Nat.lt_succ_self _)
          · rw [List.mem_singleton.mp last]
            exact Nat.lt_succ_self _
        · exact fun out member => (below out member).trans (Nat.lt_succ_self _)
      · rw [inFlight_take_succ inside, ← outAt_eq inside]
        split
        · rw [List.length_append, List.length_singleton]
          omega
        · omega
  | decide position pending phase through =>
      rw [phase] at covered
      obtain ⟨within, below, counted⟩ := covered
      rw [List.take_of_length_le through] at counted
      exact ⟨flight, length, fun out member => (below out member).trans_le within, counted⟩
  | draw job source pending phase drawing slots held yields =>
      rw [phase] at covered
      refine ⟨?_, ?_, trivial⟩
      · have counted := covered.2
        have one : inFlight [(⟨state.drawn, job, job.call.isSome⟩ : Slot ε α β)] ≤ 1 :=
          List.countP_le_length
        simp only [inFlight, List.countP_append] at counted one ⊢
        omega
      · rw [List.length_append, List.length_singleton]
        omega
  | fail raised => exact ⟨by simpa using flight, by simpa using length, by simp [Covered]⟩
  | wait pending phase out =>
      rw [phase] at covered
      exact ⟨flight, length, out, covered.1⟩
  | complete position slot found running =>
      refine ⟨(inFlight_answer _ _ _).trans flight, ?_, covered.answer position slot⟩
      rw [List.length_set]
      exact length

theorem reached_bounded (reached : Reached (Step width) (start given failure) state) :
    Bounded width state := by
  refine reached.invariant ?_ ?_
  · exact start_bounded
  · intro state next _ bounded step
    exact step.move.bounded bounded

end Verbatus.InOrderWindow
