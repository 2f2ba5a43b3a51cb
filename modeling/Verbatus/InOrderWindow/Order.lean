import Verbatus.Library.Runs
import Verbatus.InOrderWindow.Moves

namespace Verbatus.InOrderWindow

open Verbatus.Library

variable {ε α β : Type} {width : ℕ} {given popped : List (Job ε α β)} {failure : Option ε}
  {state next : State ε α β}

section Raise

variable (state : State ε α β) (raised : ε)

@[simp] theorem raise_source : (state.raise raised).source = state.source := by
  unfold State.raise; split <;> rfl

@[simp] theorem raise_failure : (state.raise raised).failure = state.failure := by
  unfold State.raise; split <;> rfl

@[simp] theorem raise_drawing : (state.raise raised).drawing = state.drawing := by
  unfold State.raise; split <;> rfl

@[simp] theorem raise_drawn : (state.raise raised).drawn = state.drawn := by
  unfold State.raise; split <;> rfl

@[simp] theorem raise_window : (state.raise raised).window = state.window := by
  unfold State.raise; split <;> rfl

@[simp] theorem raise_finished : (state.raise raised).finished = state.finished := by
  unfold State.raise; split <;> rfl

@[simp] theorem raise_phase : (state.raise raised).phase = .draining := by
  unfold State.raise; split <;> rfl

@[simp] theorem raise_events :
    (state.raise raised).events = state.events ++ [Event.failed raised] := by
  unfold State.raise; split <;> rfl

/-- The errors a raise leaves are those before it, then the new one. -/
theorem raise_errors (attached : state.error = none → state.notes = []) :
    (state.raise raised).error.toList ++ (state.raise raised).notes =
      state.error.toList ++ state.notes ++ [raised] := by
  unfold State.raise
  split
  · next none => simp [none, attached none]
  · next first some => simp [some]

theorem raise_error_ne_none : (state.raise raised).error ≠ none := by
  unfold State.raise
  split
  · exact Option.some_ne_none _
  · next first some => simp [some]

end Raise

section Finish

variable (state : State ε α β) (first : Slot ε α β) (rest : List (Slot ε α β))

/-- The call of a job's finish, with its number and the reply it gets. -/
def called (job : Job ε α β × ℕ) : Option (ℕ × Option α) :=
  job.1.reply.toOption.map (job.2, ·)

/-- What finishing the first job of the window does, whether or not something raises. -/
structure Finished (next : State ε α β) : Prop where
  source : next.source = state.source
  failure : next.failure = state.failure
  drawing : next.drawing = state.drawing
  drawn : next.drawn = state.drawn
  window : next.window = rest
  draws : next.events.filterMap Event.draw? = state.events.filterMap Event.draw?
  finishes : next.events.filterMap Event.finish? =
    state.events.filterMap Event.finish? ++ (called (first.job, first.number)).toList
  finished : next.finished = state.finished ++ first.job.result.toOption.toList

theorem finishFirst_finished : Finished state first rest (state.finishFirst first rest) := by
  unfold State.finishFirst
  split
  · next raised fails =>
      constructor <;> simp [Event.draw?, Event.finish?, called, fails, Job.result, Bind.bind,
        Except.bind, Except.toOption]
  · next reply answers =>
      split
      · next raised fails =>
          constructor <;> simp [Event.draw?, Event.finish?, called, answers, fails, Job.result,
            Bind.bind, Except.bind, Except.toOption]
      · next result returns =>
          constructor <;> simp [Event.draw?, Event.finish?, called, answers, returns, Job.result,
            Bind.bind, Except.bind, Except.toOption]

/-- Either the job's result is kept and no event fails, or what raised is the last error. -/
theorem finishFirst_cases :
    ((∃ result, first.job.result = .ok result) ∧
      (state.finishFirst first rest).error = state.error ∧
      (state.finishFirst first rest).notes = state.notes ∧
      (state.finishFirst first rest).phase = state.phase ∧
      ∃ reply, (state.finishFirst first rest).events =
        state.events ++ [Event.finish first.number reply]) ∨
    ∃ raised called, first.job.result = .error raised ∧
      state.finishFirst first rest = State.raise { state with window := rest, events := called }
        raised ∧
      (called = state.events ∨ ∃ reply, called = state.events ++ [Event.finish first.number reply]) := by
  unfold State.finishFirst
  split
  · next raised fails =>
      refine .inr ⟨raised, state.events, ?_, rfl, .inl rfl⟩
      simp [Job.result, fails, Bind.bind, Except.bind]
  · next reply answers =>
      split
      · next raised fails =>
          refine .inr ⟨raised, _, ?_, rfl, .inr ⟨reply, rfl⟩⟩
          simp [Job.result, answers, fails, Bind.bind, Except.bind]
      · next result returns =>
          refine .inl ⟨⟨result, ?_⟩, rfl, rfl, rfl, reply, rfl⟩
          simp [Job.result, answers, returns, Bind.bind, Except.bind]

end Finish

section Accounting

/-- Every given job is finished, in the window or still to be drawn, in the given order, and
the finishes called so far are those of the jobs that left the window. -/
structure Accounted (given : List (Job ε α β)) (failure : Option ε) (popped : List (Job ε α β))
    (state : State ε α β) : Prop where
  jobs : given = popped ++ state.window.map (·.job) ++ state.source
  failure : state.failure = failure
  numbers : state.window.map (·.number) = List.range' popped.length state.window.length
  drawn : state.drawn = popped.length + state.window.length
  draws : state.events.filterMap Event.draw? = List.range state.drawn
  finishes : state.events.filterMap Event.finish? = popped.zipIdx.filterMap called
  finished : state.finished = popped.filterMap (·.result.toOption)

theorem start_accounted : Accounted given failure [] (start given failure) := by
  constructor <;> simp [start]

theorem Accounted.moved (accounted : Accounted given failure popped state) (phase : Phase)
    (drawing : Bool) :
    Accounted given failure popped { state with phase := phase, drawing := drawing } :=
  ⟨accounted.jobs, accounted.failure, accounted.numbers, accounted.drawn, accounted.draws,
    accounted.finishes, accounted.finished⟩

theorem Accounted.finishFirst (accounted : Accounted given failure popped state)
    {first : Slot ε α β} {rest : List (Slot ε α β)} (window : state.window = first :: rest) :
    Accounted given failure (popped ++ [first.job]) (state.finishFirst first rest) := by
  obtain ⟨source, unfailed, -, drawn, left, draws, finishes, finished⟩ :=
    finishFirst_finished state first rest
  have numbers := accounted.numbers
  rw [window, List.map_cons, List.length_cons, List.range'_succ, List.cons_eq_cons] at numbers
  refine ⟨?_, unfailed.trans accounted.failure, ?_, ?_, ?_, ?_, ?_⟩
  · rw [accounted.jobs, source, left, window]
    simp
  · rw [left, numbers.2]
    simp
  · rw [drawn, accounted.drawn, left, window]
    simp
    omega
  · rw [draws, accounted.draws, drawn]
  · rw [finishes, accounted.finishes, List.zipIdx_append, List.filterMap_append, numbers.1]
    cases call : called (first.job, popped.length) <;> simp [call]
  · rw [finished, accounted.finished, List.filterMap_append]
    cases result : first.job.result.toOption <;> simp [result]

theorem Accounted.draw (accounted : Accounted given failure popped state) {job : Job ε α β}
    {source : List (Job ε α β)} (yields : state.source = job :: source) :
    Accounted given failure popped { state with
        source := source
        drawn := state.drawn + 1
        window := state.window ++ [⟨state.drawn, job, job.call.isSome⟩]
        phase := .loop
        events := state.events ++ [Event.drew state.drawn] } := by
  refine ⟨?_, accounted.failure, ?_, ?_, ?_, ?_, accounted.finished⟩
  · rw [accounted.jobs, yields]
    simp
  · simp only [List.map_append, accounted.numbers, List.map_cons, List.map_nil, accounted.drawn,
      List.length_append, List.length_cons, List.length_nil, zero_add, List.range'_concat, one_mul]
  · simp only [accounted.drawn, List.length_append, List.length_cons, List.length_nil]
    omega
  · simp [accounted.draws, Event.draw?, List.range_succ]
  · simp [accounted.finishes, Event.finish?]

/-- An answer changes nothing of a slot but that its call is done. -/
theorem map_answered {γ : Type} {window : List (Slot ε α β)} (read : Slot ε α β → γ)
    (same : ∀ slot : Slot ε α β, read { slot with running := false } = read slot)
    {position : ℕ} (inside : position < window.length) :
    (window.set position { window[position] with running := false }).map read =
      window.map read := by
  apply List.ext_getElem?
  intro index
  rw [List.map_set, same, List.getElem?_set]
  split
  · next here =>
      subst here
      simp [inside]
  · rfl

/-- Answering a call changes nothing that is counted. -/
theorem Accounted.answer (accounted : Accounted given failure popped state) {position : ℕ}
    {slot : Slot ε α β} (found : state.window[position]? = some slot) :
    Accounted given failure popped { state with
      window := state.window.set position { slot with running := false } } := by
  obtain ⟨inside, rfl⟩ := List.getElem?_eq_some_iff.mp found
  have jobs := map_answered (·.job) (fun slot => rfl) inside
  have numbers := map_answered (·.number) (fun slot => rfl) inside
  constructor <;> simp [jobs, numbers, accounted.jobs, accounted.failure, accounted.numbers,
    accounted.drawn, accounted.draws, accounted.finishes, accounted.finished]

theorem Accounted.raise (accounted : Accounted given failure popped state) (raised : ε) :
    Accounted given failure popped (state.raise raised) := by
  constructor <;> simp [accounted.jobs, accounted.failure, accounted.numbers, accounted.drawn,
    accounted.draws, accounted.finishes, accounted.finished, Event.draw?, Event.finish?]

end Accounting

section Errors

/-- What is known of the errors: the first one is kept, the later ones are its notes, each is
raised by drawing or by a job that left the window, and no job is drawn after one. -/
structure Blamed (failure : Option ε) (popped : List (Job ε α β)) (state : State ε α β) :
    Prop where
  raised : state.events.filterMap Event.failure? = state.error.toList ++ state.notes
  attached : state.error = none → state.notes = []
  quiet : state.phase ≠ .draining → state.phase ≠ .ended → state.error = none
  after : state.events.Pairwise fun earlier later =>
    earlier.failure?.isSome = true → later.draw? = none
  clean : state.error = none → ∀ job ∈ popped, ∃ result, job.result = .ok result
  blame : state.error ≠ none →
    failure ≠ none ∨ ∃ job ∈ popped, ∀ result, job.result ≠ .ok result
  dry : state.drawing = false → state.source = [] ∧ state.failure = none
  through : state.phase = .draining ∨ state.phase = .ended → state.error = none →
    state.drawing = false
  emptied : state.phase = .ended → state.window = []

theorem start_blamed : Blamed failure [] (start given failure) := by
  constructor <;> simp [start]

theorem Blamed.unfailed (blamed : Blamed failure popped state) (silent : state.error = none) :
    ∀ event ∈ state.events, event.failure? = none := by
  have raised := blamed.raised
  rw [silent, blamed.attached silent] at raised
  simpa [List.filterMap_eq_nil_iff] using raised

/-- Between two steps of the main loop only the phase changes. -/
theorem Blamed.looping (blamed : Blamed failure popped state) (phase : Phase)
    (before : state.phase ≠ .draining ∧ state.phase ≠ .ended)
    (after : phase ≠ .draining ∧ phase ≠ .ended) :
    Blamed failure popped { state with phase := phase } where
  raised := blamed.raised
  attached := blamed.attached
  quiet := fun _ _ => blamed.quiet before.1 before.2
  after := blamed.after
  clean := blamed.clean
  blame := blamed.blame
  dry := blamed.dry
  through := by simp [after.1, after.2]
  emptied := by simp [after.2]

/-- A raise after which the thread drains, where what raised is to blame. -/
theorem Blamed.raise (blamed : Blamed failure popped state) (raised : ε)
    {later : List (Job ε α β)}
    (source : failure ≠ none ∨ ∃ job ∈ popped ++ later, ∀ result, job.result ≠ .ok result) :
    Blamed failure (popped ++ later) (state.raise raised) where
  raised := by
    rw [raise_errors state raised blamed.attached, raise_events, List.filterMap_append,
      blamed.raised]
    rfl
  attached := fun silent => absurd silent (raise_error_ne_none state raised)
  quiet := by simp
  after := by
    rw [raise_events, List.pairwise_append]
    refine ⟨blamed.after, List.pairwise_singleton _ _, ?_⟩
    intro earlier _ event single _
    rw [List.mem_singleton] at single
    rw [single]
    rfl
  clean := fun silent => absurd silent (raise_error_ne_none state raised)
  blame := fun _ => source
  dry := by simpa using blamed.dry
  through := fun _ silent => absurd silent (raise_error_ne_none state raised)
  emptied := by simp

/-- A finish call is no failure and no draw. -/
theorem Blamed.calling (blamed : Blamed failure popped state) (rest : List (Slot ε α β))
    (phase : state.phase ≠ .ended) (number : ℕ) (reply : Option α) :
    Blamed failure popped { state with
      window := rest, events := state.events ++ [Event.finish number reply] } where
  raised := by
    rw [List.filterMap_append, blamed.raised]
    simp [Event.failure?]
  attached := blamed.attached
  quiet := blamed.quiet
  after := by
    rw [List.pairwise_append]
    refine ⟨blamed.after, List.pairwise_singleton _ _, ?_⟩
    intro earlier _ event single _
    rw [List.mem_singleton] at single
    rw [single]
    rfl
  clean := blamed.clean
  blame := blamed.blame
  dry := blamed.dry
  through := blamed.through
  emptied := fun ended => absurd ended phase

theorem Blamed.finishFirst (blamed : Blamed failure popped state) (first : Slot ε α β)
    (rest : List (Slot ε α β)) (phase : state.phase ≠ .ended) :
    Blamed failure (popped ++ [first.job]) (state.finishFirst first rest) := by
  rcases finishFirst_cases state first rest with
    ⟨⟨result, returns⟩, error, notes, same, reply, events⟩ |
    ⟨raised, called, fails, same, events⟩
  · have kept := blamed.calling rest phase first.number reply
    obtain ⟨source, unfailed, drawing, -, left, -, -, -⟩ := finishFirst_finished state first rest
    refine ⟨?_, ?_, ?_, ?_, ?_, ?_, ?_, ?_, ?_⟩
    · rw [events, error, notes]
      exact kept.raised
    · rw [error, notes]
      exact kept.attached
    · rw [same, error]
      exact kept.quiet
    · rw [events]
      exact kept.after
    · rw [error]
      intro silent job member
      rcases List.mem_append.mp member with earlier | last
      · exact kept.clean silent job earlier
      · rw [List.mem_singleton.mp last]
        exact ⟨result, returns⟩
    · rw [error]
      intro loud
      rcases kept.blame loud with drawn | ⟨job, member, bad⟩
      · exact .inl drawn
      · exact .inr ⟨job, List.mem_append_left _ member, bad⟩
    · rw [drawing, source, unfailed]
      exact kept.dry
    · rw [same, error, drawing]
      exact kept.through
    · rw [same]
      exact fun ended => absurd ended phase
  · have cause : ∀ result, first.job.result ≠ .ok result := by simp [fails]
    rw [same]
    refine Blamed.raise ?_ raised (.inr ⟨first.job, by simp, cause⟩)
    rcases events with rfl | ⟨reply, rfl⟩
    · exact ⟨blamed.raised, blamed.attached, blamed.quiet, blamed.after, blamed.clean,
        blamed.blame, blamed.dry, blamed.through, fun ended => absurd ended phase⟩
    · exact blamed.calling rest phase first.number reply

/-- A job is drawn only while nothing has raised. -/
theorem Blamed.draw (blamed : Blamed failure popped state) {job : Job ε α β}
    {source : List (Job ε α β)} {pending : List ℕ} (phase : state.phase = .deciding pending)
    (drawing : state.drawing = true) :
    Blamed failure popped { state with
        source := source
        drawn := state.drawn + 1
        window := state.window ++ [⟨state.drawn, job, job.call.isSome⟩]
        phase := .loop
        events := state.events ++ [Event.drew state.drawn] } where
  raised := by
    rw [List.filterMap_append, blamed.raised]
    simp [Event.failure?]
  attached := blamed.attached
  quiet := fun _ _ => blamed.quiet (by simp [phase]) (by simp [phase])
  after := by
    rw [List.pairwise_append]
    refine ⟨blamed.after, List.pairwise_singleton _ _, ?_⟩
    intro earlier member event _ failed
    have silent := blamed.unfailed (blamed.quiet (by simp [phase]) (by simp [phase]))
    rw [silent earlier member] at failed
    cases failed
  clean := blamed.clean
  blame := blamed.blame
  dry := by simp [drawing]
  through := by simp
  emptied := by simp

end Errors

section Kept

/-- One step keeps what is known of the jobs and of the errors. -/
theorem Move.kept (move : Move width state next) (accounted : Accounted given failure popped state)
    (blamed : Blamed failure popped state) :
    ∃ later, Accounted given failure (popped ++ later) next ∧
      Blamed failure (popped ++ later) next := by
  cases move with
  | enter phase | look phase | inspect _ _ phase | decide _ _ phase | again phase | wait _ phase
  | wake _ _ phase =>
      refine ⟨[], by simpa using accounted.moved _ _, ?_⟩
      rw [List.append_nil]
      refine blamed.looping _ ?_ ?_ <;> simp [phase]
  | leave phase drawn empty =>
      refine ⟨[], by simpa using accounted.moved _ _, ?_⟩
      rw [List.append_nil]
      exact ⟨blamed.raised, blamed.attached, by simp, blamed.after, blamed.clean, blamed.blame,
        blamed.dry, fun _ _ => drawn, by simp⟩
  | finish phase first rest window answered =>
      have live : state.phase ≠ .ended := by rcases phase with phase | phase <;> simp [phase]
      exact ⟨[first.job], accounted.finishFirst window, blamed.finishFirst first rest live⟩
  | draw job source pending phase drawing slots held yields =>
      exact ⟨[], by simpa using ⟨accounted.draw yields, blamed.draw phase drawing⟩⟩
  | stop pending phase drawing dry plain =>
      refine ⟨[], by simpa using accounted.moved _ _, ?_⟩
      rw [List.append_nil]
      exact ⟨blamed.raised, blamed.attached,
        fun _ _ => blamed.quiet (by simp [phase]) (by simp [phase]), blamed.after, blamed.clean,
        blamed.blame, fun _ => ⟨dry, plain⟩, fun _ _ => rfl, by simp⟩
  | fail raised pending phase drawing dry raises =>
      have cause : failure ≠ none := by simp [← accounted.failure, raises]
      exact ⟨[], by simpa using accounted.raise raised, blamed.raise raised (.inl cause)⟩
  | close phase empty =>
      refine ⟨[], by simpa using accounted.moved _ _, ?_⟩
      rw [List.append_nil]
      exact ⟨blamed.raised, blamed.attached, by simp, blamed.after, blamed.clean, blamed.blame,
        blamed.dry, fun _ => blamed.through (.inl phase), fun _ => empty⟩
  | complete position slot found running =>
      refine ⟨[], by simpa using accounted.answer found, ?_⟩
      rw [List.append_nil]
      refine ⟨blamed.raised, blamed.attached, blamed.quiet, blamed.after, blamed.clean,
        blamed.blame, blamed.dry, blamed.through, fun ended => ?_⟩
      simp [blamed.emptied ended]

theorem reached_kept (reached : Reached (Step width) (start given failure) state) :
    ∃ popped, Accounted given failure popped state ∧ Blamed failure popped state := by
  refine reached.invariant ?_ ?_
  · exact ⟨[], start_accounted, start_blamed⟩
  · rintro state next - ⟨popped, accounted, blamed⟩ step
    obtain ⟨later, kept⟩ := step.move.kept accounted blamed
    exact ⟨popped ++ later, kept⟩

end Kept

end Verbatus.InOrderWindow
