import Verbatus.RunTree.Numbered
import Verbatus.StageSeal.Boundary

namespace Verbatus.StageSeal

open Library Library.Checked Refusal RunTree

/-- What may happen to one stage, each in a freshly opened context that may be killed. -/
inductive Action where
  | publish (draft : Draft) (writesLeft : Option ℕ)
  | retain (data : List UInt8) (writesLeft : Option ℕ)
  | sealBoundary (machine : Machine) (writesLeft : Option ℕ)
  | finish (writesLeft : Option ℕ)
  | approve (record : AdvanceRecord)

/-- A stage publishes boundary kinds through `seal_boundary` only. -/
def Action.Ordinary : Action → Prop
  | publish draft _ => draft.kind ∉ sealExcludedKinds
  | _ => True

/-- The tree of a stage, with the inventory at each publication of a seal so far. -/
structure Run where
  tree : Tree
  witnessed : List Inventory

section Runs

variable (hashing : Hashing) (stage : Stage)

/-- The files an action leaves. -/
def Action.perform (action : Action) (tree : Tree) : Tree :=
  match action with
  | publish draft writes => ((Session.fresh tree writes).publish hashing stage draft).2.tree
  | retain data writes => ((Session.fresh tree writes).retain hashing stage data).2.tree
  | sealBoundary machine writes => ((Session.fresh tree writes).sealBoundary hashing stage machine).2.tree
  | finish writes => ((Session.fresh tree writes).finish hashing stage).2.tree
  | approve record => { tree with approvalRecords := tree.approvalRecords ++ [record] }

/-- The run after an action; a new seal on disk is remembered with the inventory it met. -/
def Run.after (run : Run) (action : Action) : Run :=
  let tree := action.perform hashing stage run.tree
  ⟨tree, if (sealsOf stage run.tree).length < (sealsOf stage tree).length then
    run.witnessed ++ [inventory hashing stage tree] else run.witnessed⟩

def Step (run next : Run) : Prop :=
  ∃ action : Action, action.Ordinary ∧ next = run.after hashing stage action

/-- A tree in which the stage has published no boundary yet. -/
structure Opened (tree : Tree) : Prop where
  readable : Readable hashing stage tree
  bare : ∀ envelope ∈ ownArtifacts stage tree, envelope.kind ∉ sealExcludedKinds
  noted : ∀ stored ∈ tree.manifest, ∃ entries, stored = .inventory stage entries ∧
    ∀ entry ∈ entries, entry.kind ≠ "stage-seal"

end Runs

section Invariant

variable {hashing : Hashing} {stage : Stage}

theorem Opened.sound (injective : hashing.Injective) {tree : Tree}
    (opened : Opened hashing stage tree) : Sound hashing stage tree [] := by
  refine ⟨opened.readable, ⟨[], ?_, by simp, rfl⟩, ?_, by simp [ordinalsUpTo], ?_⟩
  · intro envelope
    rw [mem_sealsOf_iff]
    refine ⟨?_, fun listed => by cases listed⟩
    rintro ⟨own, kind⟩
    exact absurd (kind ▸ List.mem_cons_self) (opened.bare envelope own)
  · intro ordinal environment found
    obtain ⟨own, kind, _⟩ := boundary_file injective opened.readable found
    exact absurd (kind ▸ List.mem_cons_of_mem _ List.mem_cons_self) (opened.bare environment own)
  · intro stored given
    obtain ⟨entries, rfl, none⟩ := opened.noted stored given
    exact ⟨entries, rfl, fun entry inside kind => absurd kind (none entry inside)⟩

/-- Over an unchanged inventory `seal_boundary` writes nothing and answers with the latest seal. -/
theorem Sound.sealBoundary_unchanged (injective : hashing.Injective) {tree : Tree}
    {witnessed : List Inventory} (sound : Sound hashing stage tree witnessed)
    (standing : witnessed.getLast? = some (inventory hashing stage tree)) (machine : Machine)
    (writes : Option ℕ) : ∃ last ∈ sealsOf stage tree, ordinalOf last = witnessed.length ∧
      (Session.fresh tree writes).sealBoundary hashing stage machine =
        (.ok ⟨.artifact last.key, true⟩, ⟨tree, true, writes⟩) := by
  obtain ⟨last, onDisk, ordinal, reuse⟩ := (sound.nextSeal injective).1 standing
  have own := ((mem_sealsOf hashing stage sound.readable).mp onDisk)
  refine ⟨last, onDisk, ordinal, ?_⟩
  have fresh : (Session.fresh tree writes).sealed = false := rfl
  have decided : StageSeal.nextSeal hashing stage (Session.fresh tree writes).tree =
      .ok (.reuse last) := reuse
  rw [Session.sealBoundary, fresh, if_neg Bool.false_ne_true, decided]
  simp only [Envelope.key, own.1, own.2.1]
  rfl

/-- An action either leaves the seals as they were or publishes the next one. -/
theorem Sound.perform (injective : hashing.Injective) {tree : Tree} {witnessed : List Inventory}
    (sound : Sound hashing stage tree witnessed) {action : Action} (ordinary : action.Ordinary) :
    Sound hashing stage (action.perform hashing stage tree) witnessed ∨
      Sound hashing stage (action.perform hashing stage tree)
        (witnessed ++ [inventory hashing stage (action.perform hashing stage tree)]) := by
  cases action with
  | publish draft writes =>
      left
      change Sound hashing stage ((Session.fresh tree writes).publish hashing stage draft).2.tree _
      rcases (Session.fresh tree writes).publish_tree draft with same | ⟨envelope, rfl, grown⟩
      · rw [same]
        exact sound
      · obtain ⟨published, absent, same⟩ := grown
        rw [same]
        apply sound.addArtifact published absent
        · intro kind
          have same : draft.kind = "stage-seal" := kind
          exact ordinary (same ▸ List.mem_cons_self)
        · intro ordinal place
          have kind : draft.kind = "decode-environment" := congrArg ArtifactKey.kind place
          exact absurd (kind ▸ List.mem_cons_of_mem _ List.mem_cons_self) ordinary
  | retain data writes =>
      left
      change Sound hashing stage ((Session.fresh tree writes).retain hashing stage data).2.tree _
      rcases (Session.fresh tree writes).retain_tree data with same | ⟨absent, same⟩
      · rw [same]
        exact sound
      · rw [same]
        exact sound.addBlob absent
  | finish writes =>
      left
      change Sound hashing stage ((Session.fresh tree writes).finish hashing stage).2.tree _
      rcases (Session.fresh tree writes).finish_tree with same | ⟨manifest, built, same⟩
      · rw [same]
        exact sound
      · rw [same]
        exact sound.storeManifest built
  | approve record => exact .inl (sound.approve _)
  | sealBoundary machine writes =>
      by_cases standing : witnessed.getLast? = some (inventory hashing stage tree)
      · obtain ⟨last, _, _, same⟩ := sound.sealBoundary_unchanged injective standing machine writes
        left
        change Sound hashing stage
          ((Session.fresh tree writes).sealBoundary hashing stage machine).2.tree _
        rw [same]
        exact sound
      · have outcome := sound.sealBoundary_changed injective standing machine writes
        change Sound hashing stage
          ((Session.fresh tree writes).sealBoundary hashing stage machine).2.tree _ ∨ Sound hashing
            stage ((Session.fresh tree writes).sealBoundary hashing stage machine).2.tree (_ ++
              [inventory hashing stage
                ((Session.fresh tree writes).sealBoundary hashing stage machine).2.tree])
        cases left_ : leftEnvironment hashing stage tree witnessed with
        | some environment =>
            simp only [left_] at outcome
            split_ifs at outcome with same stop
            · rw [outcome.2]
              exact .inl sound
            · rw [outcome.2]
              exact .inr (sound.addSeal injective (left_.trans (congrArg some same)) rfl).1
            · rw [outcome.2]
              exact .inl sound
        | none =>
            simp only [left_] at outcome
            have grown := sound.addEnvironment injective machine _ left_
            split_ifs at outcome with stop last
            · rw [outcome.2]
              exact .inl sound
            · rw [outcome.2]
              exact .inl grown
            · rw [outcome.2]
              refine .inr (grown.addSeal injective ?_ rfl).1
              exact (Mapping.get?_set _ _ _ _).trans (if_pos rfl)

/-- A run's record of its seals is kept right by every step. -/
theorem Sound.after (injective : hashing.Injective) {run : Run}
    (sound : Sound hashing stage run.tree run.witnessed) {action : Action}
    (ordinary : action.Ordinary) :
    Sound hashing stage (run.after hashing stage action).tree
      (run.after hashing stage action).witnessed := by
  rcases sound.perform injective ordinary with kept | grown
  · have counted : ¬ (sealsOf stage run.tree).length <
        (sealsOf stage (action.perform hashing stage run.tree)).length := by
      rw [sound.length, kept.length]
      exact lt_irrefl _
    rw [Run.after]
    simp only [if_neg counted]
    exact kept
  · have counted : (sealsOf stage run.tree).length <
        (sealsOf stage (action.perform hashing stage run.tree)).length := by
      rw [sound.length, grown.length, List.length_append]
      exact Nat.lt_succ_self _
    rw [Run.after]
    simp only [if_pos counted]
    exact grown

theorem sound_reached (injective : hashing.Injective) {start run : Run}
    (opened : Sound hashing stage start.tree start.witnessed)
    (reached : Reached (Step hashing stage) start run) :
    Sound hashing stage run.tree run.witnessed := by
  refine Reached.invariant reached opened ?_
  rintro state _ _ sound ⟨action, ordinary, rfl⟩
  exact sound.after injective ordinary

end Invariant

section Statement

variable (hashing : Hashing) (stage : Stage)

/-- Whether an advance record passes the boundary as it is on disk. -/
def AdvanceAccepted (tree : Tree) (record : AdvanceRecord) : Prop :=
  boundaryAdvanced hashing { tree with approvalRecords := [record] } stage = .ok true

/-- A process can publish the next seal: none is due, or no other environment was left for it. -/
def Resumable (tree : Tree) (witnessed : List Inventory) (machine : Machine) : Prop :=
  witnessed.getLast? = some (inventory hashing stage tree) ∨
    ∀ environment ∈ leftEnvironment hashing stage tree witnessed,
      environment = nextEnvironment hashing stage tree witnessed machine

/-- What the seals of a stage witness in one state of a run, read by a process on a machine. -/
structure SealsHonest (run : Run) (machine : Machine) : Prop where
  /-- The latest seal is accepted exactly over the inventory it recorded. -/
  verified : ∀ changed, Readable hashing stage changed → SameSeals stage run.tree changed →
    ∀ reader role manifest, (∀ snapshot ∈ manifest, snapshot = manifestOf hashing stage changed) →
      (verifyStageSeal hashing changed stage reader role manifest = .ok () ↔
        run.witnessed.getLast? = some (inventory hashing stage changed))
  ordinals : ((sealsOf stage run.tree).map ordinalOf).Perm (ordinalsUpTo run.witnessed.length)
  reused : run.witnessed.getLast? = some (inventory hashing stage run.tree) → ∀ writes,
    ∃ last ∈ sealsOf stage run.tree, ordinalOf last = run.witnessed.length ∧
      (Session.fresh run.tree writes).sealBoundary hashing stage machine =
        (.ok ⟨.artifact last.key, true⟩, ⟨run.tree, true, writes⟩)
  published : run.witnessed.getLast? ≠ some (inventory hashing stage run.tree) →
    ∃ minted session, (Session.fresh run.tree none).sealBoundary hashing stage machine =
        (.ok ⟨.artifact minted.key, false⟩, session) ∧
      ordinalOf minted = run.witnessed.length + 1 ∧
      ∀ envelope, envelope ∈ sealsOf stage session.tree ↔
        envelope ∈ sealsOf stage run.tree ∨ envelope = minted
  /-- A seal the stored manifest names and the disk lacks makes producer and reader refuse. -/
  deleted : ∀ changed : Tree, ∀ producer entries, changed.manifest = some (.inventory producer entries) →
    ∀ entry ∈ entries, entry.kind = "stage-seal" →
      changed.artifacts.get? (artifactKey stage "stage-seal" entry.artifactId) = none →
      (∀ writes, ∃ refusal, (Session.fresh changed writes).sealBoundary hashing stage machine =
        (.error (.refused refusal), Session.fresh changed writes)) ∧
      ∀ reader role manifest, ∃ refusal,
        verifyStageSeal hashing changed stage reader role manifest = .error refusal
  advanced : (boundaryAdvanced hashing run.tree stage = .ok true ↔
      ∃ record ∈ run.tree.approvalRecords, AdvanceAccepted hashing stage run.tree record) ∧
    ∀ record, AdvanceAccepted hashing stage run.tree record → ∀ later,
      Reached (Step hashing stage) run later → run.witnessed.length < later.witnessed.length →
      ¬ AdvanceAccepted hashing stage later.tree record

end Statement

section Proof

variable {hashing : Hashing} {stage : Stage}

/-- Another environment left for the next seal ends every attempt at it. -/
theorem Sound.sealBoundary_stuck (injective : hashing.Injective) {tree : Tree}
    {witnessed : List Inventory} (sound : Sound hashing stage tree witnessed)
    (changed : witnessed.getLast? ≠ some (inventory hashing stage tree)) {machine : Machine}
    (writes : Option ℕ) {environment : Envelope}
    (left : leftEnvironment hashing stage tree witnessed = some environment)
    (differs : environment ≠ nextEnvironment hashing stage tree witnessed machine) :
    (∃ message, ((Session.fresh tree writes).sealBoundary hashing stage machine).1 =
      .error (.incompatibleReuse message)) ∧
    ((Session.fresh tree writes).sealBoundary hashing stage machine).2.tree = tree := by
  have outcome := sound.sealBoundary_changed injective changed machine writes
  simp only [left, if_neg differs] at outcome
  exact outcome

/-- The seal a process publishes over a changed inventory, when no other environment was left. -/
theorem Sound.sealBoundary_published (injective : hashing.Injective) {tree : Tree}
    {witnessed : List Inventory} (sound : Sound hashing stage tree witnessed)
    (changed : witnessed.getLast? ≠ some (inventory hashing stage tree)) {machine : Machine}
    (alike : ∀ environment ∈ leftEnvironment hashing stage tree witnessed,
      environment = nextEnvironment hashing stage tree witnessed machine) :
    ∃ grown, Sound hashing stage grown witnessed ∧
      (∀ envelope, envelope ∈ sealsOf stage grown ↔ envelope ∈ sealsOf stage tree) ∧
      leftEnvironment hashing stage grown witnessed =
        some (nextEnvironment hashing stage tree witnessed machine) ∧
      grown.run = tree.run ∧
      ((Session.fresh tree none).sealBoundary hashing stage machine).1 =
        .ok ⟨.artifact (boundaryKey hashing stage "stage-seal" (witnessed.length + 1)), false⟩ ∧
      ((Session.fresh tree none).sealBoundary hashing stage machine).2.tree =
        grown.addArtifact (sealOver hashing stage grown (witnessed.length + 1)
          (nextEnvironment hashing stage tree witnessed machine)) := by
  have outcome := sound.sealBoundary_changed injective changed machine none
  cases left : leftEnvironment hashing stage tree witnessed with
  | some environment =>
      have same := alike environment left
      simp only [left, if_pos same, reduceCtorEq, if_false] at outcome
      exact ⟨tree, sound, fun _ => .rfl, left.trans (congrArg some same), rfl, outcome.1, outcome.2⟩
  | none =>
      simp only [left, reduceCtorEq, if_false] at outcome
      have published : Publishable hashing tree
          (environmentAt hashing stage tree.run machine (witnessed.length + 1)) :=
        environmentAt_publishable tree machine _
      refine ⟨_, sound.addEnvironment injective machine _ left, ?_, ?_, rfl, outcome.1, outcome.2⟩
      · intro envelope
        rw [mem_sealsOf_iff, mem_sealsOf_iff,
          mem_ownArtifacts_addArtifact sound.readable published left]
        constructor
        · rintro ⟨earlier | ⟨rfl, _⟩, kind⟩
          · exact ⟨earlier, kind⟩
          · exact absurd kind (by
              change "decode-environment" ≠ "stage-seal"
              decide)
        · rintro ⟨earlier, kind⟩
          exact ⟨.inl earlier, kind⟩
      · exact (Mapping.get?_set _ _ _ _).trans (if_pos rfl)

theorem exists_error {α : Type} {result : Except Refusal α} (failed : ∀ value, result ≠ .ok value) :
    ∃ refusal, result = .error refusal := by
  cases result with
  | error refusal => exact ⟨refusal, rfl⟩
  | ok value => exact absurd rfl (failed value)

/-- The records of a kind are read from the files their ids name. -/
theorem stageRecords_onDisk {tree : Tree} {kind : String} {manifest : Option (List ManifestEntry)}
    {records : List Envelope} (read : stageRecords hashing tree stage kind manifest = .ok records)
    {record : Envelope} (listed : record ∈ records) :
    tree.artifacts.get? (artifactKey stage kind record.artifactId) = some record := by
  obtain ⟨snapshot, _, read⟩ := bind_eq_ok.mp read
  obtain ⟨entry, inside, one⟩ := mapM_mem_right read listed
  obtain ⟨found, got, rest⟩ := bind_eq_ok.mp one
  obtain ⟨_, rest⟩ := require_bind_eq_ok.mp rest
  rw [pure_eq_ok] at rest
  subst rest
  obtain ⟨held, _, _, named⟩ := readArtifact_found got
  rw [List.mem_filter, decide_eq_true_eq] at inside
  rw [inside.2] at held
  rw [named]
  exact held

/-- A stored manifest that names a missing seal establishes nothing. -/
theorem refuseDeletedSeal_missing {tree : Tree} {producer : Stage} {entries : List ManifestEntry}
    (stored : tree.manifest = some (.inventory producer entries)) {entry : ManifestEntry}
    (inside : entry ∈ entries) (kind : entry.kind = "stage-seal") {present : List String}
    (missing : entry.artifactId ∉ present) :
    ∃ refusal, refuseDeletedSeal tree stage present = .error refusal := by
  apply exists_error
  rintro ⟨⟩ accepted
  simp only [refuseDeletedSeal, stored] at accepted
  obtain ⟨_, accepted⟩ := require_bind_eq_ok.mp accepted
  have none := require_eq_ok.mp accepted
  rw [sortedSet_eq_nil, List.filter_eq_nil_iff] at none
  have named : entry.artifactId ∈
      (entries.filter (·.kind = "stage-seal")).map ManifestEntry.artifactId :=
    List.mem_map_of_mem (List.mem_filter.mpr ⟨inside, decide_eq_true kind⟩)
  exact none entry.artifactId named (decide_eq_true missing)

/-- With a named seal missing the producer writes nothing and the reader accepts nothing. -/
theorem refused_of_deleted {changed : Tree} {producer : Stage} {entries : List ManifestEntry}
    (stored : changed.manifest = some (.inventory producer entries)) {entry : ManifestEntry}
    (inside : entry ∈ entries) (kind : entry.kind = "stage-seal")
    (gone : changed.artifacts.get? (artifactKey stage "stage-seal" entry.artifactId) = none)
    (machine : Machine) :
    (∀ writes, ∃ refusal, (Session.fresh changed writes).sealBoundary hashing stage machine =
      (.error (.refused refusal), Session.fresh changed writes)) ∧
    ∀ reader role manifest, ∃ refusal,
      verifyStageSeal hashing changed stage reader role manifest = .error refusal := by
  have refused : ∀ {manifest records},
      stageRecords hashing changed stage "stage-seal" manifest = .ok records →
      ∃ refusal, refuseDeletedSeal changed stage (records.map Envelope.artifactId) =
        .error refusal := by
    intro manifest records read
    apply refuseDeletedSeal_missing stored inside kind
    intro listed
    obtain ⟨record, there, same⟩ := List.mem_map.mp listed
    have held := stageRecords_onDisk read there
    rw [same, gone] at held
    cases held
  constructor
  · intro writes
    have halted : ∃ refusal, nextSeal hashing stage changed = .error refusal := by
      apply exists_error
      intro decided accepted
      obtain ⟨records, read, rest⟩ := bind_eq_ok.mp accepted
      obtain ⟨⟨⟩, kept, _⟩ := bind_eq_ok.mp rest
      obtain ⟨refusal, error⟩ := refused read
      rw [kept] at error
      cases error
    obtain ⟨refusal, halted⟩ := halted
    have fresh : (Session.fresh changed writes).sealed = false := rfl
    have opened : nextSeal hashing stage (Session.fresh changed writes).tree = .error refusal :=
      halted
    refine ⟨refusal, ?_⟩
    rw [Session.sealBoundary, fresh, if_neg Bool.false_ne_true, opened]
  · intro reader role manifest
    apply exists_error
    rintro ⟨⟩ accepted
    obtain ⟨records, read, rest⟩ := bind_eq_ok.mp accepted
    obtain ⟨_, rest⟩ := require_bind_eq_ok.mp rest
    obtain ⟨⟨⟩, kept, _⟩ := bind_eq_ok.mp rest
    obtain ⟨refusal, error⟩ := refused read
    rw [kept] at error
    cases error

/-- The current seal is the last one published, with the digest of its bytes. -/
theorem currentStageSeal_sound {tree : Tree} {witnessed : List Inventory}
    (sound : Sound hashing stage tree witnessed) :
    witnessed = [] ∧ currentStageSeal hashing tree stage = .ok none ∨
      ∃ last, last.attemptId = some (sealAttempt hashing stage witnessed.length) ∧
        currentStageSeal hashing tree stage = .ok (some (last, hashing.envelope last)) := by
  have manifest := buildManifest_readable hashing stage sound.readable false
  have read : ((manifestOf hashing stage tree).filter (·.kind = "stage-seal")).mapM
      (fun entry => tree.readArtifact hashing stage "stage-seal" entry.artifactId) =
      .ok (sealsOf stage tree) := by
    rw [manifestOf, List.filter_map, mapM_eq_ok, List.forall₂_map_left_iff]
    refine List.forall₂_same.mpr fun envelope listed => ?_
    obtain ⟨own, kind⟩ := mem_sealsOf_iff.mp listed
    exact kind ▸ readArtifact_readable hashing stage sound.readable own
  obtain ⟨seals, sealed⟩ := sound.sealed
  rcases sealed.last sound.readable with ⟨rfl, none⟩ | ⟨earlier, recorded, last, rest⟩
  · refine .inl ⟨rfl, ?_⟩
    rw [currentStageSeal, manifest, ok_bind, read, ok_bind, none]
    rfl
  · obtain ⟨_, onDisk, witness, latest⟩ := rest
    refine .inr ⟨last, witness.attempt, ?_⟩
    obtain ⟨own, kind, found⟩ := (mem_sealsOf hashing stage sound.readable).mp onDisk
    have digest : tree.readDigest hashing
        (.artifact (artifactKey stage "stage-seal" last.artifactId)) =
        some (hashing.envelope last) := by
      rw [Envelope.key, own, kind] at found
      exact congrArg (Option.map hashing.envelope) found
    rw [currentStageSeal, manifest, ok_bind, read, ok_bind,
      if_neg (List.ne_nil_of_mem onDisk), latest, ok_bind]
    simp only [digest]
    rfl

/-- An advance record is accepted exactly when it binds the digest of the current seal. -/
theorem advanceAccepted_iff {tree : Tree} {record : AdvanceRecord} :
    AdvanceAccepted hashing stage tree record ↔ ∃ latest digest,
      currentStageSeal hashing tree stage = .ok (some (latest, digest)) ∧
      AdvancePasses record stage digest := by
  have same : currentStageSeal hashing { tree with approvalRecords := [record] } stage =
      currentStageSeal hashing tree stage := rfl
  rw [AdvanceAccepted, boundaryAdvanced, same, bind_eq_ok]
  constructor
  · rintro ⟨current, read, passed⟩
    cases current with
    | none => cases passed
    | some current =>
        obtain ⟨latest, digest⟩ := current
        rw [pure_eq_ok] at passed
        exact ⟨latest, digest, read, by simpa using passed⟩
  · rintro ⟨latest, digest, read, passes⟩
    exact ⟨_, read, pure_eq_ok.mpr (by simpa using passes)⟩

/-- A boundary is advanced exactly when one of the run's records is accepted. -/
theorem boundaryAdvanced_iff {tree : Tree} : boundaryAdvanced hashing tree stage = .ok true ↔
    ∃ record ∈ tree.approvalRecords, AdvanceAccepted hashing stage tree record := by
  simp only [advanceAccepted_iff]
  rw [boundaryAdvanced, bind_eq_ok]
  constructor
  · rintro ⟨current, read, passed⟩
    cases current with
    | none => cases passed
    | some current =>
        obtain ⟨latest, digest⟩ := current
        rw [pure_eq_ok, List.any_eq_true] at passed
        obtain ⟨record, listed, passes⟩ := passed
        exact ⟨record, listed, latest, digest, read, of_decide_eq_true passes⟩
  · rintro ⟨record, listed, latest, digest, read, passes⟩
    refine ⟨_, read, pure_eq_ok.mpr (List.any_eq_true.mpr ⟨record, listed, ?_⟩)⟩
    exact decide_eq_true passes

/-- A record one seal's boundary accepts is not accepted once a later seal is current. -/
theorem advance_superseded (injective : hashing.Injective) {tree later : Tree}
    {witnessed more : List Inventory} (sound : Sound hashing stage tree witnessed)
    (soundLater : Sound hashing stage later more) (grown : witnessed.length < more.length)
    {record : AdvanceRecord} (accepted : AdvanceAccepted hashing stage tree record) :
    ¬ AdvanceAccepted hashing stage later record := by
  intro again
  obtain ⟨latest, digest, read, passes⟩ := advanceAccepted_iff.mp accepted
  obtain ⟨newest, other, readLater, passesLater⟩ := advanceAccepted_iff.mp again
  have digests : digest = other := passes.2.2.symm.trans passesLater.2.2
  have first : ∃ last, last.attemptId = some (sealAttempt hashing stage witnessed.length) ∧
      digest = hashing.envelope last := by
    rcases currentStageSeal_sound sound with ⟨_, none⟩ | ⟨last, attempt, current⟩
    · rw [read] at none
      cases none
    · rw [read] at current
      cases current
      exact ⟨latest, attempt, rfl⟩
  have second : ∃ last, last.attemptId = some (sealAttempt hashing stage more.length) ∧
      other = hashing.envelope last := by
    rcases currentStageSeal_sound soundLater with ⟨_, none⟩ | ⟨last, attempt, current⟩
    · rw [readLater] at none
      cases none
    · rw [readLater] at current
      cases current
      exact ⟨newest, attempt, rfl⟩
  obtain ⟨one, attempt, hashOne⟩ := first
  obtain ⟨two, attemptLater, hashTwo⟩ := second
  have same : one = two := injective.envelope (hashOne.symm.trans (digests.trans hashTwo))
  rw [same, attemptLater] at attempt
  have ordinals := injective.attemptId _ _ (Option.some.inj attempt)
  omega

/-- Everything a seal promises holds in every state of a run, but that the next can be published. -/
theorem Sound.sealsHonest_iff (injective : hashing.Injective) {run : Run}
    (sound : Sound hashing stage run.tree run.witnessed) (machine : Machine) :
    SealsHonest hashing stage run machine ↔
      Resumable hashing stage run.tree run.witnessed machine := by
  constructor
  · intro honest
    by_contra stuck
    rw [Resumable, not_or] at stuck
    obtain ⟨changed, other⟩ := stuck
    obtain ⟨minted, session, completed, _⟩ := honest.published changed
    cases left : leftEnvironment hashing stage run.tree run.witnessed with
    | none =>
        rw [left] at other
        exact other (by simp)
    | some environment =>
        rw [left] at other
        have differs : environment ≠
            nextEnvironment hashing stage run.tree run.witnessed machine := by
          intro same
          exact other (by simp [same])
        obtain ⟨⟨_, halted⟩, _⟩ := sound.sealBoundary_stuck injective changed none left differs
        rw [completed] at halted
        cases halted
  · intro resumable
    refine ⟨?_, ?_, ?_, ?_, ?_, boundaryAdvanced_iff, ?_⟩
    · intro changed readable same reader role manifest current
      exact sound.verifyStageSeal injective readable same reader role current
    · obtain ⟨seals, sealed⟩ := sound.sealed
      rw [← sealed.length, ← sealed.ordinals]
      exact (sealed.perm sound.readable).map ordinalOf
    · intro standing writes
      exact sound.sealBoundary_unchanged injective standing machine writes
    · intro changed
      obtain ⟨grown, soundGrown, seals, left, _, completed, files⟩ :=
        sound.sealBoundary_published injective changed (resumable.resolve_left changed)
      refine ⟨sealOver hashing stage grown (run.witnessed.length + 1)
        (nextEnvironment hashing stage run.tree run.witnessed machine), _,
        Prod.ext completed rfl, rfl, ?_⟩
      intro envelope
      have published : Publishable hashing grown (sealOver hashing stage grown
          (run.witnessed.length + 1) (nextEnvironment hashing stage run.tree run.witnessed machine)) :=
        sealAt_publishable grown _ _
      rw [files, mem_sealsOf_iff, mem_ownArtifacts_addArtifact soundGrown.readable published
        (soundGrown.seal_absent injective), ← seals envelope, mem_sealsOf_iff]
      constructor
      · rintro ⟨earlier | ⟨rfl, _⟩, kind⟩
        · exact .inl ⟨earlier, kind⟩
        · exact .inr rfl
      · rintro (⟨earlier, kind⟩ | rfl)
        · exact ⟨.inl earlier, kind⟩
        · exact ⟨.inr ⟨rfl, rfl⟩, rfl⟩
    · intro changed producer entries stored entry inside kind gone
      exact refused_of_deleted stored inside kind gone machine
    · intro record accepted later reached grown
      exact advance_superseded injective sound (sound_reached injective sound reached) grown accepted

end Proof

section Instance

/-- A run's tree with nothing published in it. -/
def emptyTree : Tree where
  run := ⟨"run", "config", "register", fun _ => "recipe", none⟩
  artifacts := .empty
  blobs := .empty
  others := .empty
  manifest := none
  approvalRecords := []

theorem emptyTree_opened (hashing : Hashing) (stage : Stage) : Opened hashing stage emptyTree := by
  refine ⟨⟨?_, ?_⟩, ?_, ?_⟩
  · intro key envelope found
    cases found
  · intro key data found
    cases found
  · intro envelope own
    cases own
  · intro stored given
    cases given

/-- A machine on which one version of Pillow is installed. -/
def machineWith (pillow : String) (named : pillow ≠ "") : Machine where
  pillow := pillow
  jpegCodec := some "6.2"
  libjpegTurbo := some "3.0.1"
  pillowHeif := "0.18.0"
  libheif := "1.18.2"
  pdfium := "126.0.6462.0"
  platform := "Linux"
  machine := "x86_64"
  named := by simp [named]

def installed : Machine := machineWith "10.4.0" (by decide)

def upgraded : Machine := machineWith "11.0.0" (by decide)

/-- A first seal killed between its decode environment and itself. -/
def interruptedRun (hashing : Hashing) : Run :=
  (Run.mk emptyTree []).after hashing .perlector (.sealBoundary installed (some 1))

theorem interruptedRun_reached (hashing : Hashing) :
    Reached (Step hashing .perlector) ⟨emptyTree, []⟩ (interruptedRun hashing) :=
  .single ⟨.sealBoundary installed (some 1), trivial, rfl⟩

/-- The killed process left its decode environment and no seal. -/
theorem interruptedRun_left {hashing : Hashing} (injective : hashing.Injective) :
    (interruptedRun hashing).witnessed = [] ∧
    Sound hashing .perlector (interruptedRun hashing).tree [] ∧
    (interruptedRun hashing).tree.run = emptyTree.run ∧
    leftEnvironment hashing .perlector (interruptedRun hashing).tree [] =
      some (nextEnvironment hashing .perlector emptyTree [] installed) := by
  have sound : Sound hashing .perlector emptyTree [] :=
    (emptyTree_opened hashing .perlector).sound injective
  have none : leftEnvironment hashing .perlector emptyTree [] = none := rfl
  have outcome := sound.sealBoundary_changed injective (by simp) installed (some 1)
  simp only [none, Option.some.injEq, one_ne_zero, if_false, if_true] at outcome
  have grown := sound.addEnvironment injective installed _ none
  have files : (interruptedRun hashing).tree = emptyTree.addArtifact
      (nextEnvironment hashing .perlector emptyTree [] installed) := outcome.2
  have counted : ¬ (sealsOf .perlector emptyTree).length <
      (sealsOf .perlector (interruptedRun hashing).tree).length := by
    have kept : Sound hashing .perlector (interruptedRun hashing).tree [] := files ▸ grown
    rw [kept.length]
    simp
  refine ⟨if_neg counted, files ▸ grown, files ▸ rfl, ?_⟩
  rw [files]
  exact (Mapping.get?_set _ _ _ _).trans (if_pos rfl)

end Instance

end Verbatus.StageSeal
