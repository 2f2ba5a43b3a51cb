import Verbatus.StageSeal.Runs

namespace Verbatus.StageSeal

open Library Library.Checked Refusal RunTree

variable {hashing : Hashing} {stage : Stage}

/-- The seal the nth attempt publishes over a tree that holds its environment. -/
def sealOver (hashing : Hashing) (stage : Stage) (tree : Tree) (ordinal : ℤ)
    (environment : Envelope) : Envelope :=
  sealAt hashing stage tree.run ordinal (payloadOf hashing stage tree ordinal environment)

/-- The decode environment a process would publish with the next seal. -/
def nextEnvironment (hashing : Hashing) (stage : Stage) (tree : Tree) (witnessed : List Inventory)
    (machine : Machine) : Envelope :=
  environmentAt hashing stage tree.run machine (witnessed.length + 1)

/-- The decode environment an interrupted seal left for the next one. -/
def leftEnvironment (hashing : Hashing) (stage : Stage) (tree : Tree) (witnessed : List Inventory) :
    Option Envelope :=
  tree.artifacts.get? (boundaryKey hashing stage "decode-environment" (witnessed.length + 1))

theorem publish_unsealed {session : Session} (unsealed : session.sealed = false) {draft : Draft}
    (ordinary : draft.kind ≠ "serving-receipt") : session.publish hashing stage draft =
      session.publishArtifact hashing (draft.envelope hashing stage session.tree) := by
  rw [Session.publish, unsealed, if_neg Bool.false_ne_true, if_neg ordinary]

/-- With its environment on disk the next seal is published, unless the process is killed first. -/
theorem Sound.publishSeal (injective : hashing.Injective) (session : Session)
    {witnessed : List Inventory} (sound : Sound hashing stage session.tree witnessed)
    (unsealed : session.sealed = false) {environment : Envelope}
    (left : leftEnvironment hashing stage session.tree witnessed = some environment) :
    (session.writesLeft = some 0 ∧ session.publishSeal hashing stage (witnessed.length + 1)
      (sealAttempt hashing stage (witnessed.length + 1)) = (.error .killed, session)) ∨
    (session.writesLeft ≠ some 0 ∧ ∃ writes, session.publishSeal hashing stage
      (witnessed.length + 1) (sealAttempt hashing stage (witnessed.length + 1)) =
        (.ok ⟨.artifact (boundaryKey hashing stage "stage-seal" (witnessed.length + 1)), false⟩,
          ⟨session.tree.addArtifact (sealOver hashing stage session.tree (witnessed.length + 1)
            environment), true, writes⟩)) := by
  have payload : stageSealPayload hashing session.tree stage (witnessed.length + 1)
      (sealAttempt hashing stage (witnessed.length + 1)) none =
      .ok (payloadOf hashing stage session.tree (witnessed.length + 1) environment) :=
    stageSealPayload_readable hashing stage sound.readable _ (by simp) left
  have absent := sound.seal_absent injective
  let minted := sealOver hashing stage session.tree (witnessed.length + 1) environment
  have published : Publishable hashing session.tree minted := sealAt_publishable session.tree _ _
  have drafted : session.publish hashing stage (sealDraft stage
      (sealAttempt hashing stage (witnessed.length + 1))
      (payloadOf hashing stage session.tree (witnessed.length + 1) environment)) =
      session.publishArtifact hashing minted := by
    apply publish_unsealed unsealed
    change "stage-seal" ≠ "serving-receipt"
    decide
  rw [Session.publishSeal, payload]
  simp only [drafted]
  have free : session.tree.artifacts.get? minted.key = none := absent
  rcases Session.publishArtifact_of_publishable published with
    ⟨held, _⟩ | ⟨⟨_, held, _⟩, _⟩ | ⟨_, stop, same⟩ | ⟨_, going, writes, same, _⟩
  · rw [free] at held
    cases held
  · rw [free] at held
    cases held
  · rw [same]
    exact .inl ⟨stop, rfl⟩
  · rw [same]
    exact .inr ⟨going, writes, by rw [unsealed]; rfl⟩

/-- A due seal's pass publishes its environment and then, unless that halts, the seal. -/
theorem Session.sealBoundary_due (session : Session) {ordinal : ℤ}
    (unsealed : session.sealed = false)
    (due : nextSeal hashing stage session.tree = .ok (.due ordinal)) (machine : Machine) :
    session.sealBoundary hashing stage machine =
      match session.publish hashing stage (environmentDraft stage machine
          (sealAttempt hashing stage ordinal)) with
      | (.error halt, session) => (.error halt, session)
      | (.ok _, session) => session.publishSeal hashing stage ordinal
          (sealAttempt hashing stage ordinal) := by
  simp only [Session.sealBoundary, unsealed, due, Bool.false_eq_true, if_false]
  rfl

/-- What a call to `seal_boundary` over a changed inventory does, by what it finds left. -/
theorem Sound.sealBoundary_changed (injective : hashing.Injective) {tree : Tree}
    {witnessed : List Inventory} (sound : Sound hashing stage tree witnessed)
    (changed : witnessed.getLast? ≠ some (inventory hashing stage tree)) (machine : Machine)
    (writes : Option ℕ) :
    let observed := nextEnvironment hashing stage tree witnessed machine
    let outcome := (Session.fresh tree writes).sealBoundary hashing stage machine
    let completed (grown : Tree) := outcome.1 = .ok ⟨.artifact (boundaryKey hashing stage
        "stage-seal" (witnessed.length + 1)), false⟩ ∧ outcome.2.tree =
      grown.addArtifact (sealOver hashing stage grown (witnessed.length + 1) observed)
    match leftEnvironment hashing stage tree witnessed with
    | some environment =>
      if environment = observed then
        if writes = some 0 then outcome.1 = .error .killed ∧ outcome.2.tree = tree
        else completed tree
      else (∃ message, outcome.1 = .error (.incompatibleReuse message)) ∧ outcome.2.tree = tree
    | none =>
      if writes = some 0 then outcome.1 = .error .killed ∧ outcome.2.tree = tree
      else if writes = some 1 then
        outcome.1 = .error .killed ∧ outcome.2.tree = tree.addArtifact observed
      else completed (tree.addArtifact observed) := by
  intro observed outcome completed
  have due := (sound.nextSeal injective).2 changed
  have drafted : (Session.fresh tree writes).publish hashing stage (environmentDraft stage machine
      (sealAttempt hashing stage (witnessed.length + 1))) =
      (Session.fresh tree writes).publishArtifact hashing observed := by
    apply publish_unsealed rfl
    change "decode-environment" ≠ "serving-receipt"
    decide
  have begun := Session.sealBoundary_due (Session.fresh tree writes) rfl due machine
  rw [drafted] at begun
  change outcome = _ at begun
  have published : Publishable hashing (Session.fresh tree writes).tree observed :=
    environmentAt_publishable tree machine _
  rcases Session.publishArtifact_of_publishable published with
    ⟨held, same⟩ | ⟨⟨existing, held, other⟩, message, same⟩ | ⟨free, stop, same⟩ |
      ⟨free, going, left, same, counted⟩
  · have found : leftEnvironment hashing stage tree witnessed = some observed := held
    have went : outcome = (Session.fresh tree writes).publishSeal hashing stage
        (witnessed.length + 1) (sealAttempt hashing stage (witnessed.length + 1)) := by
      rw [begun, same]
    rw [found]
    simp only [if_true]
    rcases Sound.publishSeal injective (Session.fresh tree writes) sound rfl found with
      ⟨stop, ended⟩ | ⟨going, rest, ended⟩
    · have stopped : writes = some 0 := stop
      rw [if_pos stopped, went, ended]
      exact ⟨rfl, rfl⟩
    · have alive : writes ≠ some 0 := going
      rw [if_neg alive]
      change outcome.1 = _ ∧ outcome.2.tree = _
      rw [went, ended]
      exact ⟨rfl, rfl⟩
  · have found : leftEnvironment hashing stage tree witnessed = some existing := held
    rw [found]
    simp only [if_neg other]
    rw [begun, same]
    exact ⟨⟨message, rfl⟩, rfl⟩
  · have none : leftEnvironment hashing stage tree witnessed = none := free
    have stopped : writes = some 0 := stop
    rw [none]
    simp only [if_pos stopped]
    rw [begun, same]
    exact ⟨rfl, rfl⟩
  · have none : leftEnvironment hashing stage tree witnessed = none := free
    have alive : writes ≠ some 0 := going
    have total : writes = left.map (· + 1) := counted
    have went : outcome = (Session.mk (tree.addArtifact observed) false left).publishSeal hashing
        stage (witnessed.length + 1) (sealAttempt hashing stage (witnessed.length + 1)) := by
      rw [begun, same]
      rfl
    rw [none]
    simp only [if_neg alive]
    have grown := sound.addEnvironment injective machine _ none
    have found : leftEnvironment hashing stage (tree.addArtifact observed) witnessed =
        some observed := (Mapping.get?_set _ _ _ _).trans (if_pos rfl)
    rcases Sound.publishSeal injective ⟨tree.addArtifact observed, false, left⟩ grown rfl found with
      ⟨stop, ended⟩ | ⟨further, rest, ended⟩
    · have last : writes = some 1 := by
        rw [total, show left = some 0 from stop]
        rfl
      rw [if_pos last, went, ended]
      exact ⟨rfl, rfl⟩
    · have more : writes ≠ some 1 := by
        rw [total]
        intro one
        obtain ⟨count, given, single⟩ := Option.map_eq_some_iff.mp one
        have zero : count = 0 := by omega
        exact further (zero ▸ given)
      rw [if_neg more]
      change outcome.1 = _ ∧ outcome.2.tree = _
      rw [went, ended]
      exact ⟨rfl, rfl⟩

end Verbatus.StageSeal
