import Verbatus.Library.Checked

namespace Verbatus.Library

/-- A call on a state: what it returns or raises, and the state it leaves. -/
abbrev Call (σ ε α : Type) := ExceptT ε (StateM σ) α

namespace Call

variable {σ ε α β : Type}

/-- A call made on a state. -/
def on (call : Call σ ε α) (state : σ) : Except ε α × σ := call state

/-- A computation that sees no state. -/
def lift (result : Except ε α) : Call σ ε α := fun state => (result, state)

/-- The state as it stands. -/
def current : Call σ ε σ := fun state => (.ok state, state)

/-- The state replaced. -/
def replace (state : σ) : Call σ ε Unit := fun _ => (.ok (), state)

@[simp] theorem lift_on (result : Except ε α) (state : σ) :
    (lift result : Call σ ε α).on state = (result, state) := rfl

@[simp] theorem current_on (state : σ) :
    (current : Call σ ε σ).on state = (.ok state, state) := rfl

@[simp] theorem replace_on (next state : σ) :
    (replace next : Call σ ε Unit).on state = (.ok (), next) := rfl

@[simp] theorem pure_on (value : α) (state : σ) :
    (pure value : Call σ ε α).on state = (.ok value, state) := rfl

theorem bind_on (first : Call σ ε α) (next : α → Call σ ε β) (state : σ) :
    (first >>= next).on state = match first.on state with
      | (.ok value, between) => (next value).on between
      | (.error raised, between) => (.error raised, between) := by
  change (ExceptT.bindCont next (first.on state).1).run (first.on state).2 = _
  rcases first.on state with ⟨result, between⟩
  cases result <;> rfl

theorem bind_on_ok {first : Call σ ε α} {next : α → Call σ ε β} {state last : σ} {result : β} :
    (first >>= next).on state = (.ok result, last) ↔ ∃ value between,
      first.on state = (.ok value, between) ∧ (next value).on between = (.ok result, last) := by
  rw [bind_on]
  rcases first.on state with ⟨outcome, between⟩
  cases outcome with
  | ok value => simp
  | error raised => simp

/-- A lifted computation in front of a call. -/
theorem lift_bind_on_ok {first : Except ε α} {next : α → Call σ ε β} {state last : σ} {result : β} :
    (lift first >>= next).on state = (.ok result, last) ↔
      ∃ value, first = .ok value ∧ (next value).on state = (.ok result, last) := by
  rw [bind_on_ok]
  simp [and_assoc]

/-- A lifted computation raises with the state as it was, or lets the call go on. -/
theorem lift_bind_cases {first : Except ε α} {next : α → Call σ ε β} {state : σ}
    {answer : Except ε β × σ} (made : (lift first >>= next).on state = answer) :
    (∃ raised, first = .error raised ∧ answer = (.error raised, state)) ∨
      ∃ value, first = .ok value ∧ (next value).on state = answer := by
  cases first with
  | error raised => exact .inl ⟨raised, rfl, made.symm⟩
  | ok value => exact .inr ⟨value, rfl, made⟩

/-- A call that leaves the state as it was. -/
def Reads (call : Call σ ε α) : Prop := ∀ state, (call.on state).2 = state

/-- A call that leaves the state as it was where it raises. -/
def KeepsOnRefusal (call : Call σ ε α) : Prop :=
  ∀ state raised last, call.on state = (.error raised, last) → last = state

theorem reads_lift (result : Except ε α) : Reads (lift result : Call σ ε α) := fun _ => rfl

theorem Reads.keepsOnRefusal {call : Call σ ε α} (reads : call.Reads) : call.KeepsOnRefusal := by
  intro state raised last refused
  have unchanged := reads state
  rw [refused] at unchanged
  exact unchanged

theorem Reads.bind {first : Call σ ε α} {next : α → Call σ ε β} (reads : first.Reads)
    (rest : ∀ value, (next value).Reads) : (first >>= next).Reads := by
  intro state
  have unchanged := reads state
  rw [bind_on]
  generalize first.on state = answered at unchanged
  rcases answered with ⟨_ | value, between⟩
  · exact unchanged
  · exact (rest value between).trans unchanged

/-- A call that only reads before its first write raises with the state as it was. -/
theorem KeepsOnRefusal.bind {first : Call σ ε α} {next : α → Call σ ε β} (reads : first.Reads)
    (rest : ∀ value, (next value).KeepsOnRefusal) : (first >>= next).KeepsOnRefusal := by
  intro state raised last refused
  have unchanged := reads state
  rw [bind_on] at refused
  generalize first.on state = answered at unchanged refused
  rcases answered with ⟨_ | value, between⟩
  · exact (congrArg Prod.snd refused).symm.trans unchanged
  · exact (rest value between raised last refused).trans unchanged

end Call

end Verbatus.Library
