import Verbatus.InOrderWindow.Window

namespace Verbatus.InOrderWindow

variable {ε α β : Type}

/-- Everything one step of the window can do, with what it finds there. -/
inductive Move (width : ℕ) (state : State ε α β) : State ε α β → Prop where
  | enter (phase : state.phase = .loop) (more : state.drawing = true ∨ state.window ≠ []) :
      Move width state { state with phase := .heads }
  | leave (phase : state.phase = .loop) (drawn : state.drawing = false)
      (empty : state.window = []) : Move width state { state with phase := .draining }
  | look (phase : state.phase = .heads)
      (unanswered : ∀ first ∈ state.window.head?, first.running = true) :
      Move width state { state with phase := .inspecting 0 [] }
  | finish (phase : state.phase = .heads ∨ state.phase = .draining)
      (first : Slot ε α β) (rest : List (Slot ε α β)) (window : state.window = first :: rest)
      (answered : first.running = false) : Move width state (state.finishFirst first rest)
  | inspect (position : ℕ) (pending : List ℕ) (phase : state.phase = .inspecting position pending)
      (inside : position < state.window.length) :
      Move width state { state with
        phase := .inspecting (position + 1)
          (if state.outAt position then pending ++ [position] else pending) }
  | decide (position : ℕ) (pending : List ℕ) (phase : state.phase = .inspecting position pending)
      (through : state.window.length ≤ position) :
      Move width state { state with phase := .deciding pending }
  | draw (job : Job ε α β) (source : List (Job ε α β)) (pending : List ℕ)
      (phase : state.phase = .deciding pending)
      (drawing : state.drawing = true) (slots : pending.length < width)
      (held : state.window.length - pending.length < heldPerSlot * width)
      (yields : state.source = job :: source) :
      Move width state { state with
        source := source
        drawn := state.drawn + 1
        window := state.window ++ [⟨state.drawn, job, job.call.isSome⟩]
        phase := .loop
        events := state.events ++ [Event.drew state.drawn] }
  | stop (pending : List ℕ) (phase : state.phase = .deciding pending)
      (drawing : state.drawing = true) (dry : state.source = []) (plain : state.failure = none) :
      Move width state { state with drawing := false, phase := .loop }
  | fail (raised : ε) (pending : List ℕ) (phase : state.phase = .deciding pending)
      (drawing : state.drawing = true) (dry : state.source = [])
      (raises : state.failure = some raised) : Move width state (state.raise raised)
  | again (phase : state.phase = .deciding [])
      (kept : state.drawing = true → heldPerSlot * width ≤ state.window.length ∨ width = 0) :
      Move width state { state with phase := .loop }
  | wait (pending : List ℕ) (phase : state.phase = .deciding pending) (out : pending ≠ []) :
      Move width state { state with phase := .waiting pending }
  | wake (position : ℕ) (pending : List ℕ) (phase : state.phase = .waiting pending)
      (member : position ∈ pending) (answered : state.outAt position = false) :
      Move width state { state with phase := .loop }
  | close (phase : state.phase = .draining) (empty : state.window = []) :
      Move width state { state with phase := .ended }
  | complete (position : ℕ) (slot : Slot ε α β) (found : state.window[position]? = some slot)
      (running : slot.running = true) :
      Move width state { state with
        window := state.window.set position { slot with running := false } }

theorem draw_move {width : ℕ} {state : State ε α β} {pending : List ℕ}
    (phase : state.phase = .deciding pending) (drawing : state.drawing = true)
    (slots : pending.length < width)
    (held : state.window.length - pending.length < heldPerSlot * width) :
    Move width state state.draw := by
  unfold State.draw
  split
  · next job source yields => exact .draw job source pending phase drawing slots held yields
  · next dry =>
      split
      · next plain => exact .stop pending phase drawing dry plain
      · next raised raises => exact .fail raised pending phase drawing dry raises

theorem advance_move {width : ℕ} {state next : State ε α β}
    (step : state.advance width = some next) : Move width state next := by
  unfold State.advance at step
  split at step
  · next phase =>
      split at step <;> cases step
      · next more => exact .enter phase (by simpa using more)
      · next none =>
          simp only [Bool.or_eq_true, Bool.not_eq_true', List.isEmpty_eq_false_iff, not_or,
            Bool.not_eq_true, not_not] at none
          exact .leave phase none.1 none.2
  · next phase =>
      split at step
      · next window => cases step; exact .look phase (by simp [window])
      · next first rest window =>
          split at step <;> cases step
          · next running => exact .look phase (by simpa [window] using running)
          · next answered => exact .finish (.inl phase) first rest window (by simpa using answered)
  · next position pending phase =>
      split at step <;> cases step
      · next inside => exact .inspect position pending phase inside
      · next through => exact .decide position pending phase (by omega)
  · next pending phase =>
      split at step
      · next room => cases step; exact draw_move phase room.1 room.2.1 room.2.2
      · next full =>
          split at step <;> cases step
          · next empty =>
              rw [List.isEmpty_iff] at empty
              subst empty
              refine .again phase fun drawing => ?_
              by_contra other
              simp only [not_or, not_le] at other
              exact full ⟨drawing, by simpa using Nat.pos_of_ne_zero other.2, by simpa using other.1⟩
          · next out => exact .wait pending phase (by simpa using out)
  · next pending phase =>
      split at step <;> cases step
      next answered =>
        obtain ⟨position, member, done⟩ : ∃ position ∈ pending, state.outAt position = false := by
          simpa using answered
        exact .wake position pending phase member done
  · next phase =>
      split at step
      · next empty => cases step; exact .close phase empty
      · next first rest window =>
          split at step <;> cases step
          next answered =>
            exact .finish (.inr phase) first rest window (by simpa using answered)
  · cases step

theorem Step.move {width : ℕ} {state next : State ε α β} (step : Step width state next) :
    Move width state next := by
  rcases step with own | ⟨position, call⟩
  · exact advance_move own
  · unfold State.complete at call
    split at call
    · cases call
    · next slot found =>
        split at call <;> cases call
        next running => exact .complete position slot found running

end Verbatus.InOrderWindow
