import Verbatus.InOrderWindow.Progress

namespace Verbatus.InOrderWindow

open Verbatus.Library

variable {ε α β : Type} {width : ℕ} {given popped : List (Job ε α β)} {failure : Option ε}
  {state : State ε α β}

/-- The serial pass returns when no job fails and drawing does not raise, and only then. -/
theorem serial_eq_ok (jobs : List (Job ε α β)) (failure : Option ε) (finished results : List β) :
    serial jobs failure finished = .ok results ↔
      failure = none ∧ (∀ job ∈ jobs, ∃ result, job.result = .ok result) ∧
        results = finished ++ jobs.filterMap (·.result.toOption) := by
  induction jobs generalizing finished with
  | nil =>
      cases failure with
      | none => simp [serial, eq_comm]
      | some raised => simp [serial]
  | cons job jobs ih =>
      cases one : job.result with
      | error raised => simp [serial, one, Bind.bind, Except.bind]
      | ok result =>
          simp only [serial, one, Bind.bind, Except.bind, ih, List.forall_mem_cons,
            List.filterMap_cons, Except.toOption, List.append_assoc, List.singleton_append]
          simp

theorem mem_called {number : ℕ} {reply : Option α} :
    (number, reply) ∈ popped.zipIdx.filterMap called ↔
      ∃ job, popped[number]? = some job ∧ job.reply = .ok reply := by
  simp only [List.mem_filterMap, Prod.exists, List.mem_zipIdx_iff_getElem?, called]
  constructor
  · rintro ⟨job, position, found, call⟩
    cases answer : job.reply with
    | error raised => simp [answer, Except.toOption] at call
    | ok given =>
        simp only [answer, Except.toOption, Option.map_some, Option.some.injEq,
          Prod.mk.injEq] at call
        rw [call.1] at found
        exact ⟨job, found, by rw [answer, call.2]⟩
  · rintro ⟨job, found, answer⟩
    exact ⟨job, number, found, by simp [answer, Except.toOption]⟩

theorem called_pairwise :
    (popped.zipIdx.filterMap called).Pairwise fun earlier later => earlier.1 < later.1 := by
  rw [List.pairwise_filterMap]
  have rising : popped.zipIdx.Pairwise fun earlier later => earlier.2 < later.2 := by
    rw [List.pairwise_iff_getElem]
    intro first second _ _ before
    simpa using before
  refine rising.imp ?_
  rintro ⟨job, number⟩ ⟨other, position⟩ before earlier first later second
  simp only [called, Option.map_eq_some_iff] at first second
  obtain ⟨-, -, rfl⟩ := first
  obtain ⟨-, -, rfl⟩ := second
  exact before

theorem mem_finish? {events : List (Event ε α)} {number : ℕ} {reply : Option α} :
    (number, reply) ∈ events.filterMap Event.finish? ↔ Event.finish number reply ∈ events := by
  rw [List.mem_filterMap]
  constructor
  · rintro ⟨event, member, same⟩
    cases event with
    | finish position answer =>
        simp only [Event.finish?, Option.some.injEq, Prod.mk.injEq] at same
        rw [← same.1, ← same.2]
        exact member
    | drew | failed => simp [Event.finish?] at same
  · exact fun member => ⟨_, member, rfl⟩

/-- What holds at every moment of a pass: its two bounds, and the order of what it does. -/
structure InOrder (width : ℕ) (given : List (Job ε α β)) (state : State ε α β) : Prop where
  flight : inFlight state.window ≤ width
  held : state.window.length ≤ heldPerSlot * width + width - 1
  draws : state.events.filterMap Event.draw? = List.range state.drawn
  finishes : (state.events.filterMap Event.finish?).Pairwise
    fun earlier later => earlier.1 < later.1
  replies : ∀ number reply, Event.finish number reply ∈ state.events →
    ∃ job, given[number]? = some job ∧ job.reply = .ok reply
  undrawn : state.events.Pairwise fun earlier later =>
    earlier.failure?.isSome = true → later.draw? = none

/-- What holds once it has ended: no reply is lost, the first error is raised with the later ones
as its notes, and where nothing raises the results are those of the serial pass. -/
structure Complete (given : List (Job ε α β)) (failure : Option ε) (state : State ε α β) :
    Prop where
  recorded : ∀ number job reply, number < state.drawn → given[number]? = some job →
    job.reply = .ok reply → Event.finish number reply ∈ state.events
  errors : state.events.filterMap Event.failure? = state.error.toList ++ state.notes
  returned : (∀ event ∈ state.events, event.failure? = none) →
    state.outcome = .ok state.finished ∧ serial given failure [] = .ok state.finished
  serial : ∀ results, serial given failure [] = .ok results → state.outcome = .ok results

theorem Accounted.replies (accounted : Accounted given failure popped state) {number : ℕ}
    {reply : Option α} (called : Event.finish number reply ∈ state.events) :
    ∃ job, given[number]? = some job ∧ job.reply = .ok reply := by
  rw [← mem_finish?, accounted.finishes, mem_called] at called
  obtain ⟨job, found, answer⟩ := called
  obtain ⟨inside, -⟩ := List.getElem?_eq_some_iff.mp found
  refine ⟨job, ?_, answer⟩
  rw [accounted.jobs, List.append_assoc, List.getElem?_append_left inside, found]

theorem Accounted.recorded (accounted : Accounted given failure popped state)
    (emptied : state.window = []) {number : ℕ} {job : Job ε α β} {reply : Option α}
    (drawn : number < state.drawn) (found : given[number]? = some job)
    (answer : job.reply = .ok reply) : Event.finish number reply ∈ state.events := by
  have inside : number < popped.length := by
    simpa [accounted.drawn, emptied] using drawn
  rw [← mem_finish?, accounted.finishes, mem_called]
  rw [accounted.jobs, List.append_assoc, List.getElem?_append_left inside] at found
  exact ⟨job, found, answer⟩

/-- Where nothing raised, every job was drawn and the results are all of theirs. -/
theorem serial_of_silent (accounted : Accounted given failure popped state)
    (blamed : Blamed failure popped state) (ended : state.phase = .ended)
    (silent : state.error = none) : serial given failure [] = .ok state.finished := by
  obtain ⟨source, plain⟩ := blamed.dry (blamed.through (.inr ended) silent)
  have all : given = popped := by
    have jobs := accounted.jobs
    rwa [blamed.emptied ended, source, List.map_nil, List.append_nil, List.append_nil] at jobs
  rw [serial_eq_ok]
  refine ⟨accounted.failure ▸ plain, ?_, ?_⟩
  · rw [all]
    exact blamed.clean silent
  · rw [accounted.finished, all]
    rfl

theorem silent_of_serial (accounted : Accounted given failure popped state)
    (blamed : Blamed failure popped state) {results : List β}
    (returns : serial given failure [] = .ok results) : state.error = none := by
  obtain ⟨plain, fine, -⟩ := (serial_eq_ok given failure [] results).mp returns
  by_contra loud
  rcases blamed.blame loud with drawing | ⟨job, member, bad⟩
  · exact drawing plain
  · have given : job ∈ given := by
      rw [accounted.jobs, List.append_assoc]
      exact List.mem_append_left _ member
    obtain ⟨result, good⟩ := fine job given
    exact bad result good

theorem outcome_of_silent (silent : state.error = none) :
    state.outcome = .ok state.finished := by
  rw [State.outcome, silent]

theorem complete_of_ended (accounted : Accounted given failure popped state)
    (blamed : Blamed failure popped state) (ended : state.phase = .ended) :
    Complete given failure state where
  recorded := fun _ _ _ => accounted.recorded (blamed.emptied ended)
  errors := blamed.raised
  returned := by
    intro unfailed
    have silent : state.error = none := by
      have raised := blamed.raised
      rw [List.filterMap_eq_nil_iff.mpr unfailed] at raised
      have first := (List.append_eq_nil_iff.mp raised.symm).1
      simpa using first
    exact ⟨outcome_of_silent silent, serial_of_silent accounted blamed ended silent⟩
  serial := by
    intro results returns
    have silent := silent_of_serial accounted blamed returns
    have same := serial_of_silent accounted blamed ended silent
    rw [outcome_of_silent silent, ← same, returns]

/-- However drawing, answers and finishes interleave, the window keeps its bounds, finishes in
job order and draws nothing after an error; every pass ends, with every reply recorded and, where
nothing raises, with the result of the serial pass. -/
theorem inOrderWindow_publishes (width : ℕ) (wide : 2 ≤ width) (given : List (Job ε α β))
    (failure : Option ε) :
    (∀ state, Reached (Step width) (start given failure) state →
      InOrder width given state ∧
      (state.phase = .ended → Complete given failure state) ∧
      ∃ last, Reached (Step width) state last ∧ last.phase = .ended) ∧
    ¬ ∃ run : ℕ → State ε α β, run 0 = start given failure ∧
      ∀ index, Step width (run index) (run (index + 1)) := by
  have positive : 0 < width := by omega
  have falls : ∀ {state next : State ε α β}, Reached (Step width) (start given failure) state →
      Step width state next →
      Prod.Lex (· < ·) (· < ·) (work next, distance next) (work state, distance state) :=
    fun reached step => step.move.falls positive (reached_bounded reached)
  have wellFounded : WellFounded (Prod.Lex (· < ·) (· < ·) : ℕ × ℕ → ℕ × ℕ → Prop) :=
    WellFounded.prod_lex wellFounded_lt wellFounded_lt
  refine ⟨?_, no_endless_run wellFounded _ falls⟩
  intro state reached
  obtain ⟨popped, accounted, blamed⟩ := reached_kept reached
  have bounded := reached_bounded reached
  refine ⟨?_, complete_of_ended accounted blamed, ?_⟩
  · exact {
      flight := bounded.flight
      held := bounded.length
      draws := accounted.draws
      finishes := by
        rw [accounted.finishes]
        exact called_pairwise
      replies := fun _ _ => accounted.replies
      undrawn := blamed.after }
  · exact exists_ended wellFounded _ falls (fun reached => (reached_bounded reached).moves) reached

/-- Two jobs at width 2, from a source that then raises: the pass comes to its end. -/
theorem inOrderWindow_publishes_twoJobs :
    let job : ℕ → Job String ℕ ℕ := fun answer =>
      { call := some (.ok answer), finish := fun reply => .ok (reply.getD 0 + 1) }
    ∃ last, Reached (Step 2) (start [job 5, job 7] (some "deadline")) last ∧
      last.phase = .ended := by
  intro job
  exact (((inOrderWindow_publishes 2 (by decide) [job 5, job 7] (some "deadline")).1 _ .refl).2).2

end Verbatus.InOrderWindow
