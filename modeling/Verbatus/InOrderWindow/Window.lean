import Mathlib.Tactic

namespace Verbatus.InOrderWindow

variable {ε α β : Type}

/-- How many answered jobs, per slot of width, may wait behind an unanswered head. -/
def heldPerSlot : ℕ := 4

/-- A job: what its call returns or raises, if it has one, and what its finish does with that. -/
structure Job (ε α β : Type) where
  call : Option (Except ε α)
  finish : Option α → Except ε β

/-- `call() if call is not None else None` -/
def Job.reply (job : Job ε α β) : Except ε (Option α) :=
  match job.call with
  | none => .ok none
  | some (.ok answer) => .ok (some answer)
  | some (.error raised) => .error raised

def Job.result (job : Job ε α β) : Except ε β := job.reply >>= job.finish

/-- The pass of width 1: each call is made inline, in order. The jobs may end by raising. -/
def serial : List (Job ε α β) → Option ε → List β → Except ε (List β)
  | [], none, finished => .ok finished
  | [], some raised, _ => .error raised
  | job :: jobs, failure, finished => do
      let result ← job.result
      serial jobs failure (finished ++ [result])

/-- A job in the window. Its call is running until the future is done. -/
structure Slot (ε α β : Type) where
  number : ℕ
  job : Job ε α β
  running : Bool

/-- Where the driving thread stands. Calls may complete between any two of its steps. -/
inductive Phase where
  /-- at `while drawing or window` -/
  | loop
  /-- at the inner `while`, before it looks at the window's first job -/
  | heads
  /-- inside `out()`, before it looks at this position -/
  | inspecting (position : ℕ) (pending : List ℕ)
  /-- `out()` returned these positions -/
  | deciding (pending : List ℕ)
  /-- inside `wait` -/
  | waiting (pending : List ℕ)
  /-- at the last `while window` -/
  | draining
  | ended
  deriving DecidableEq

/-- What the driving thread does that can be seen: it draws a job, it calls a finish with a
reply, or something raises on it. -/
inductive Event (ε α : Type) where
  | drew (number : ℕ)
  | finish (number : ℕ) (reply : Option α)
  | failed (raised : ε)

def Event.draw? : Event ε α → Option ℕ
  | .drew number => some number
  | _ => none

def Event.finish? : Event ε α → Option (ℕ × Option α)
  | .finish number reply => some (number, reply)
  | _ => none

def Event.failure? : Event ε α → Option ε
  | .failed raised => some raised
  | _ => none

structure State (ε α β : Type) where
  /-- the jobs the source has still to yield -/
  source : List (Job ε α β)
  /-- what drawing raises where the source does not just stop -/
  failure : Option ε
  drawing : Bool
  drawn : ℕ
  window : List (Slot ε α β)
  finished : List β
  error : Option ε
  /-- the later errors, attached to the first one -/
  notes : List ε
  phase : Phase
  events : List (Event ε α)

def start (jobs : List (Job ε α β)) (failure : Option ε) : State ε α β where
  source := jobs
  failure := failure
  drawing := true
  drawn := 0
  window := []
  finished := []
  error := none
  notes := []
  phase := .loop
  events := []

/-- An exception on the driving thread ends the drawing, or is caught while it drains. -/
def State.raise (state : State ε α β) (raised : ε) : State ε α β :=
  let met := { state with phase := .draining, events := state.events ++ [Event.failed raised] }
  match state.error with
  | none => { met with error := some raised }
  | some _ => { met with notes := state.notes ++ [raised] }

/-- `finish_first`, on a first job whose call is not running: `future.result()` returns or
raises at once. -/
def State.finishFirst (state : State ε α β) (first : Slot ε α β) (rest : List (Slot ε α β)) :
    State ε α β :=
  match first.job.reply with
  | .error raised => { state with window := rest }.raise raised
  | .ok reply =>
    let called :=
      { state with window := rest, events := state.events ++ [Event.finish first.number reply] }
    match first.job.finish reply with
    | .error raised => called.raise raised
    | .ok result => { called with finished := state.finished ++ [result] }

/-- `next(source)`, and the submission of what it yields. -/
def State.draw (state : State ε α β) : State ε α β :=
  match state.source with
  | job :: source =>
    { state with
      source := source
      drawn := state.drawn + 1
      window := state.window ++ [⟨state.drawn, job, job.call.isSome⟩]
      phase := .loop
      events := state.events ++ [Event.drew state.drawn] }
  | [] =>
    match state.failure with
    | none => { state with drawing := false, phase := .loop }
    | some raised => state.raise raised

/-- The job at this position has a call that is not done. -/
def State.outAt (state : State ε α β) (position : ℕ) : Bool :=
  (state.window[position]?).any (·.running)

/-- The next step of the driving thread; `none` where it waits for a call, or has ended. -/
def State.advance (width : ℕ) (state : State ε α β) : Option (State ε α β) :=
  match state.phase with
  | .loop =>
    if state.drawing || !state.window.isEmpty then some { state with phase := .heads }
    else some { state with phase := .draining }
  | .heads =>
    match state.window with
    | [] => some { state with phase := .inspecting 0 [] }
    | first :: rest =>
      if first.running then some { state with phase := .inspecting 0 [] }
      else some (state.finishFirst first rest)
  | .inspecting position pending =>
    if position < state.window.length then
      some { state with
        phase := .inspecting (position + 1)
          (if state.outAt position then pending ++ [position] else pending) }
    else some { state with phase := .deciding pending }
  | .deciding pending =>
    if state.drawing ∧ pending.length < width ∧
        state.window.length - pending.length < heldPerSlot * width then
      some state.draw
    else if pending.isEmpty then some { state with phase := .loop }
    else some { state with phase := .waiting pending }
  | .waiting pending =>
    if pending.all state.outAt then none else some { state with phase := .loop }
  | .draining =>
    match state.window with
    | [] => some { state with phase := .ended }
    | first :: rest => if first.running then none else some (state.finishFirst first rest)
  | .ended => none

/-- The call at this position of the window is done. -/
def State.complete (position : ℕ) (state : State ε α β) : Option (State ε α β) :=
  match state.window[position]? with
  | none => none
  | some slot =>
    if slot.running then
      some { state with window := state.window.set position { slot with running := false } }
    else none

/-- One step of the driving thread, or of an outstanding call. -/
def Step (width : ℕ) (state next : State ε α β) : Prop :=
  state.advance width = some next ∨ ∃ position, state.complete position = some next

/-- What `in_order_window` returns or raises once it has ended. -/
def State.outcome (state : State ε α β) : Except ε (List β) :=
  match state.error with
  | none => .ok state.finished
  | some raised => .error raised

end Verbatus.InOrderWindow
