import Verbatus.InOrderWindow.Bounds

namespace Verbatus.InOrderWindow

open Verbatus.Library

variable {ε α β : Type} {width : ℕ} {given : List (Job ε α β)} {failure : Option ε}
  {state next : State ε α β}

/-- The window's first job can be finished. -/
def headAnswered (window : List (Slot ε α β)) : Bool := window.head?.any fun first => !first.running

/-- What is left before the pass has ended: draws, answers, finishes and the two loops. -/
def work (state : State ε α β) : ℕ :=
  4 * state.source.length + 2 * state.window.length + inFlight state.window +
    state.drawing.toNat +
    match state.phase with
    | .draining => 1
    | .ended => 0
    | _ => 2

/-- Some call that `out()` found to be out has been answered since. -/
def stale (state : State ε α β) (pending : List ℕ) : ℕ :=
  if pending.all state.outAt then 0 else state.window.length + 10

/-- How far the thread is from a step that does some of the work, while no call is answered. -/
def distance (state : State ε α β) : ℕ :=
  match state.phase with
  | .loop =>
    if headAnswered state.window || (state.window.isEmpty && !state.drawing) then 1
    else state.window.length + 6
  | .heads => if headAnswered state.window then 0 else state.window.length + 5
  | .inspecting position pending => state.window.length - position + 3 + stale state pending
  | .deciding pending => 2 + stale state pending
  | .waiting pending => 1 + stale state pending
  | .draining => 0
  | .ended => 0

/-- Between two steps of the main loop the work left is the same. -/
theorem work_looping {phase : Phase} (before : state.phase ≠ .draining ∧ state.phase ≠ .ended)
    (after : phase ≠ .draining ∧ phase ≠ .ended) :
    work { state with phase := phase } = work state := by
  unfold work
  cases here : state.phase <;> cases phase <;> simp_all

theorem finishFirst_work {first : Slot ε α β} {rest : List (Slot ε α β)}
    (phase : state.phase = .heads ∨ state.phase = .draining) (window : state.window = first :: rest) :
    work (state.finishFirst first rest) < work state := by
  have fields := finishFirst_finished state first rest
  have fewer := inFlight_tail_le window
  have length : state.window.length = rest.length + 1 := by simp [window]
  unfold work
  rw [fields.source, fields.window, fields.drawing, length]
  rcases finishFirst_cases state first rest with
    ⟨-, -, -, same, -⟩ | ⟨raised, called, -, same, -⟩
  · rw [same]
    omega
  · rw [same, raise_phase]
    rcases phase with phase | phase <;> simp only [phase] <;> omega

theorem stale_inspect (position : ℕ) (pending : List ℕ) :
    stale state (if state.outAt position then pending ++ [position] else pending) =
      stale state pending := by
  split
  · next out => simp [stale, out]
  · rfl

/-- With no call out, a window that is not empty has an answered head. -/
theorem headAnswered_of_inFlight (window : List (Slot ε α β)) (none : inFlight window = 0)
    (some : window ≠ []) : headAnswered window = true := by
  cases window with
  | nil => exact absurd rfl some
  | cons first rest =>
      have answered := List.countP_eq_zero.mp none first (.head _)
      simpa [headAnswered] using answered

theorem again_distance (positive : 0 < width) (bounded : Bounded width state)
    (phase : state.phase = .deciding [])
    (kept : state.drawing = true → heldPerSlot * width ≤ state.window.length ∨ width = 0) :
    distance { state with phase := .loop } < distance state := by
  have covered := bounded.covered
  rw [phase] at covered
  have ready : (headAnswered state.window || (state.window.isEmpty && !state.drawing)) = true := by
    by_cases empty : state.window = []
    · cases drawing : state.drawing with
      | false => simp [empty]
      | true =>
          rcases kept drawing with full | zero
          · rw [empty, heldPerSlot, List.length_nil] at full
            omega
          · omega
    · rw [headAnswered_of_inFlight _ (Nat.le_zero.mp covered.2) empty]
      rfl
  simp only [distance, ready, if_true, phase]
  omega

theorem inFlight_answer_lt {window : List (Slot ε α β)} {position : ℕ}
    (inside : position < window.length) (running : window[position].running = true) :
    inFlight (window.set position { window[position] with running := false }) <
      inFlight window := by
  have out : 0 < window.countP (·.running) :=
    List.countP_pos_iff.mpr ⟨_, List.getElem_mem inside, running⟩
  rw [inFlight, inFlight, List.countP_set inside, if_pos running, if_neg Bool.false_ne_true]
  omega

/-- Every step does some of the work or comes nearer to a step that does. -/
theorem Move.falls (positive : 0 < width) (bounded : Bounded width state)
    (move : Move width state next) :
    Prod.Lex (· < ·) (· < ·) (work next, distance next) (work state, distance state) := by
  cases move with
  | enter phase more =>
      rw [work_looping (by simp [phase]) (by simp)]
      refine .right _ ?_
      simp only [distance, phase]
      cases headAnswered state.window with
      | true => simp
      | false =>
          have last : (state.window.isEmpty && !state.drawing) = false := by
            rcases more with drawing | window
            · simp [drawing]
            · simp [window]
          simp [last]
  | leave phase drawn empty =>
      refine .left _ _ ?_
      simp [work, phase]
  | look phase unanswered =>
      rw [work_looping (by simp [phase]) (by simp)]
      refine .right _ ?_
      have head : headAnswered state.window = false := by
        rw [headAnswered, Option.any_eq_false]
        intro first member
        simp [unanswered first member]
      simp [distance, phase, head, stale]
  | finish phase first rest window answered => exact .left _ _ (finishFirst_work phase window)
  | inspect position pending phase inside =>
      rw [work_looping (by simp [phase]) (by simp)]
      refine .right _ ?_
      simp only [distance, phase]
      change state.window.length - (position + 1) + 3 + stale state _ < _
      rw [stale_inspect]
      omega
  | decide position pending phase through =>
      rw [work_looping (by simp [phase]) (by simp)]
      refine .right _ ?_
      simp only [distance, phase]
      change 2 + stale state pending < _
      omega
  | draw job source pending phase drawing slots held yields =>
      refine .left _ _ ?_
      have one : inFlight [(⟨state.drawn, job, job.call.isSome⟩ : Slot ε α β)] ≤ 1 :=
        List.countP_le_length
      simp only [work, phase, yields, List.length_append, List.length_cons, List.length_nil,
        inFlight, List.countP_append] at one ⊢
      omega
  | stop pending phase drawing dry plain =>
      refine .left _ _ ?_
      simp [work, phase, drawing]
  | fail raised pending phase drawing dry raises =>
      refine .left _ _ ?_
      simp [work, phase]
  | again phase kept =>
      rw [work_looping (by simp [phase]) (by simp)]
      exact .right _ (again_distance positive bounded phase kept)
  | wait pending phase out =>
      rw [work_looping (by simp [phase]) (by simp)]
      refine .right _ ?_
      simp only [distance, phase]
      change 1 + stale state pending < _
      omega
  | wake position pending phase member answered =>
      rw [work_looping (by simp [phase]) (by simp)]
      refine .right _ ?_
      have old : stale state pending = state.window.length + 10 := by
        rw [stale, if_neg]
        simp only [List.all_eq_true]
        intro all
        rw [all position member] at answered
        cases answered
      simp only [distance, phase, old]
      split <;> omega
  | close phase empty =>
      refine .left _ _ ?_
      simp [work, phase]
  | complete position slot found running =>
      refine .left _ _ ?_
      obtain ⟨inside, rfl⟩ := List.getElem?_eq_some_iff.mp found
      have fewer := inFlight_answer_lt inside running
      simp only [work, List.length_set] at fewer ⊢
      omega

/-- A position that is out has a call that can be answered. -/
theorem complete_of_outAt {position : ℕ} (out : state.outAt position = true) :
    ∃ next, Step width state next := by
  unfold State.outAt at out
  cases found : state.window[position]? with
  | none => simp [found] at out
  | some slot =>
      rw [found, Option.any_some] at out
      exact ⟨_, .inr ⟨position, by simp only [State.complete, found, out, if_true]; rfl⟩⟩

/-- Before its end the pass is never stuck: where the thread waits, a call is out. -/
theorem Bounded.moves (bounded : Bounded width state) :
    state.phase = .ended ∨ ∃ next, Step width state next := by
  cases own : state.advance width with
  | some next => exact .inr ⟨next, .inl own⟩
  | none =>
      unfold State.advance at own
      split at own
      · split at own <;> cases own
      · split at own
        · cases own
        · split at own <;> cases own
      · split at own <;> cases own
      · split at own
        · cases own
        · split at own <;> cases own
      · next pending phase =>
          have covered := bounded.covered
          rw [phase] at covered
          obtain ⟨position, member⟩ := List.exists_mem_of_ne_nil _ covered.1
          split at own
          · next all =>
              exact .inr (complete_of_outAt (List.all_eq_true.mp all position member))
          · cases own
      · next phase =>
          split at own
          · cases own
          · next first rest window =>
              split at own
              · next running =>
                  have out : state.outAt 0 = true := by simp [State.outAt, window, running]
                  exact .inr (complete_of_outAt out)
              · cases own
      · next phase => exact .inl phase

end Verbatus.InOrderWindow
