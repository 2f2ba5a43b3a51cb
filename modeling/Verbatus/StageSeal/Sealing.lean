import Verbatus.StageSeal.Growth

namespace Verbatus.StageSeal

open Library Library.Checked Refusal RunTree

variable (hashing : Hashing) (stage : Stage)

/-- The decode-environment artifact a process publishes at the nth seal attempt. -/
def environmentAt (run : RunAuthority) (machine : Machine) (ordinal : ℤ) : Envelope where
  runId := run.runId
  artifactId := hashing.artifactId stage "decode-environment" stage.name
    (some (sealAttempt hashing stage ordinal))
  attemptId := some (sealAttempt hashing stage ordinal)
  subjectId := stage.name
  stage := stage
  kind := "decode-environment"
  outcome := "recorded"
  configDigest := run.configDigest
  adapterRevision := run.adapterRecipes stage
  inputs := []
  payload := .environment (decodeEnvironment stage machine)
  approvalRef := none

/-- The stage-seal artifact of the nth attempt. -/
def sealAt (run : RunAuthority) (ordinal : ℤ) (payload : SealPayload) : Envelope where
  runId := run.runId
  artifactId := hashing.artifactId stage "stage-seal" stage.name
    (some (sealAttempt hashing stage ordinal))
  attemptId := some (sealAttempt hashing stage ordinal)
  subjectId := stage.name
  stage := stage
  kind := "stage-seal"
  outcome := "sealed"
  configDigest := run.configDigest
  adapterRevision := run.adapterRecipes stage
  inputs := []
  payload := .seal payload
  approvalRef := none

/-- What holds of the tree in every run of one stage, with the inventories sealed so far. -/
structure Sound (tree : Tree) (witnessed : List Inventory) : Prop where
  readable : Readable hashing stage tree
  sealed : ∃ seals, SealedBy hashing stage tree witnessed seals
  environments : ∀ ordinal : ℤ, ∀ environment,
    tree.artifacts.get? (boundaryKey hashing stage "decode-environment" ordinal) =
      some environment → ∃ machine, environment = environmentAt hashing stage tree.run machine ordinal
  present : ∀ ordinal ∈ ordinalsUpTo witnessed.length,
    tree.artifacts.get? (boundaryKey hashing stage "decode-environment" ordinal) ≠ none
  noted : ∀ stored ∈ tree.manifest, ∃ entries, stored = .inventory stage entries ∧
    ∀ entry ∈ entries, entry.kind = "stage-seal" →
      entry.artifactId ∈ (sealsOf stage tree).map Envelope.artifactId

variable {hashing stage}

/-- An artifact the run itself vouches for is publishable when it cites no input. -/
theorem publishable_of_run {tree : Tree} {envelope : Envelope}
    (valid : validateEnvelope hashing envelope = .ok ()) (run : envelope.runId = tree.run.runId)
    (config : envelope.configDigest = tree.run.configDigest) (inputs : envelope.inputs = []) :
    Publishable hashing tree envelope := by
  refine ⟨valid, ?_, ?_⟩
  · rw [Tree.verifyArtifactRun, require_bind_of]
    · exact require_eq_ok.mpr config
    · simp [Tree.holdsRunId, run]
  · rw [Tree.verifyArtifactInputs, inputs]
    rfl

theorem environmentAt_publishable (tree : Tree) (machine : Machine) (ordinal : ℤ) :
    Publishable hashing tree (environmentAt hashing stage tree.run machine ordinal) := by
  refine publishable_of_run ?_ rfl rfl rfl
  exact require_bind_eq_ok.mpr ⟨rfl, require_eq_ok.mpr rfl⟩

theorem sealAt_publishable (tree : Tree) (ordinal : ℤ) (payload : SealPayload) :
    Publishable hashing tree (sealAt hashing stage tree.run ordinal payload) := by
  refine publishable_of_run ?_ rfl rfl rfl
  exact require_bind_eq_ok.mpr ⟨rfl, require_eq_ok.mpr rfl⟩

/-- Seal attempts of different ordinals have different paths, also across the boundary kinds. -/
theorem boundaryKey_injective (injective : hashing.Injective) {kind other : String}
    {first second : ℤ}
    (same : boundaryKey hashing stage kind first = boundaryKey hashing stage other second) :
    kind = other ∧ first = second := by
  have kinds : kind = other := congrArg ArtifactKey.kind same
  subst kinds
  refine ⟨rfl, ?_⟩
  have binding : (stage, kind, stage.name, some (sealAttempt hashing stage first)) =
      (stage, kind, stage.name, some (sealAttempt hashing stage second)) :=
    injective.artifactId (congrArg ArtifactKey.artifactId same)
  have attempts := Option.some.inj (congrArg (fun row => row.2.2.2) binding)
  exact injective.attemptId _ _ attempts

theorem Sound.length {tree : Tree} {witnessed : List Inventory}
    (sound : Sound hashing stage tree witnessed) :
    (sealsOf stage tree).length = witnessed.length := by
  obtain ⟨seals, sealed⟩ := sound.sealed
  rw [(sealed.perm sound.readable).length_eq, sealed.length]

/-- A stored manifest names no seal that is missing. -/
theorem Sound.refuseDeletedSeal {tree : Tree} {witnessed : List Inventory}
    (sound : Sound hashing stage tree witnessed) {other : Tree} (same : other.manifest = tree.manifest)
    {present : List String}
    (kept : ∀ envelope ∈ sealsOf stage tree, envelope.artifactId ∈ present) :
    refuseDeletedSeal other stage present = .ok () := by
  unfold StageSeal.refuseDeletedSeal
  cases stored : tree.manifest with
  | none => simp only [same, stored]
  | some manifest =>
      obtain ⟨entries, rfl, named⟩ := sound.noted manifest stored
      simp only [same, stored]
      refine require_bind_eq_ok.mpr ⟨trivial, require_eq_ok.mpr ?_⟩
      rw [sortedSet_eq_nil, List.filter_eq_nil_iff]
      intro name listed
      obtain ⟨entry, inside, rfl⟩ := List.mem_map.mp listed
      rw [List.mem_filter, decide_eq_true_eq] at inside
      obtain ⟨envelope, onDisk, sameId⟩ := List.mem_map.mp (named entry inside.1 inside.2)
      have there := kept envelope onDisk
      rw [sameId] at there
      simpa using there

/-- The path of a seal attempt not yet made is free. -/
theorem Sound.seal_absent (injective : hashing.Injective) {tree : Tree}
    {witnessed : List Inventory} (sound : Sound hashing stage tree witnessed) :
    tree.artifacts.get? (boundaryKey hashing stage "stage-seal" (witnessed.length + 1)) = none := by
  by_contra held
  obtain ⟨envelope, found⟩ := Option.ne_none_iff_exists'.mp held
  obtain ⟨own, kind, _, attempt⟩ := boundary_file injective sound.readable found
  have onDisk : envelope ∈ sealsOf stage tree := mem_sealsOf_iff.mpr ⟨own, kind⟩
  obtain ⟨seals, sealed⟩ := sound.sealed
  obtain ⟨index, inside, rfl⟩ := List.mem_iff_getElem.mp ((sealed.listed envelope).mp onDisk)
  obtain ⟨_, _, witness⟩ := sealed.witness inside
  have same := attempt.symm.trans witness.attempt
  have ordinals := injective.attemptId _ _ (Option.some.inj same)
  have counted := sealed.length
  omega

/-- A seal that still answers for the inventory is reused; otherwise the next ordinal is due. -/
theorem Sound.nextSeal (injective : hashing.Injective) {tree : Tree} {witnessed : List Inventory}
    (sound : Sound hashing stage tree witnessed) :
    (witnessed.getLast? = some (inventory hashing stage tree) →
      ∃ last ∈ sealsOf stage tree, ordinalOf last = witnessed.length ∧
        nextSeal hashing stage tree = .ok (.reuse last)) ∧
    (witnessed.getLast? ≠ some (inventory hashing stage tree) →
      nextSeal hashing stage tree = .ok (.due (witnessed.length + 1))) := by
  have records : stageRecords hashing tree stage "stage-seal" none = .ok (sealsOf stage tree) :=
    stageRecords_readable hashing stage sound.readable "stage-seal" (by simp)
  have undeleted : StageSeal.refuseDeletedSeal tree stage
      ((sealsOf stage tree).map Envelope.artifactId) = .ok () :=
    sound.refuseDeletedSeal rfl fun _ => List.mem_map_of_mem
  obtain ⟨seals, sealed⟩ := sound.sealed
  rcases sealed.last sound.readable with ⟨rfl, none⟩ | ⟨earlier, recorded, last, rest⟩
  · refine ⟨fun same => (by cases same), fun _ => ?_⟩
    rw [StageSeal.nextSeal, records, ok_bind, undeleted, ok_bind, none]
    rfl
  · obtain ⟨given, onDisk, witness, latest⟩ := rest
    have counted : inventory hashing stage tree =
        inventoryAt hashing stage tree witnessed.length := by rw [inventory, sound.length]
    obtain ⟨old, environment, readOld, foundOld, _, published, taken⟩ := witness.payload
    obtain ⟨present, found⟩ := Option.ne_none_iff_exists'.mp
      (sound.present witnessed.length (mem_ordinalsUpTo.mpr ⟨by simp [given], le_rfl⟩))
    have rebuilt : stageSealPayload hashing tree stage witnessed.length
        (sealAttempt hashing stage witnessed.length) none =
        .ok (payloadOf hashing stage tree witnessed.length present) :=
      stageSealPayload_readable hashing stage sound.readable _ (by simp) found
    have same := payloadOf_eq_iff hashing stage injective readOld sound.readable foundOld found
    have decided : StageSeal.nextSeal hashing stage tree =
        if payloadOf hashing stage old witnessed.length environment =
          payloadOf hashing stage tree witnessed.length present then .ok (.reuse last)
        else .ok (.due (witnessed.length + 1)) := by
      rw [StageSeal.nextSeal, records, ok_bind, undeleted, ok_bind,
        if_neg (List.ne_nil_of_mem onDisk), latest, ok_bind, published, witness.attempt]
      change (stageSealPayload hashing tree stage witnessed.length
        (sealAttempt hashing stage witnessed.length) none >>= fun unchanged =>
          if payloadOf hashing stage old witnessed.length environment = unchanged then
            .ok (NextSeal.reuse last) else .ok (.due (witnessed.length + 1))) = _
      rw [rebuilt, ok_bind]
    have standing : witnessed.getLast? = some (inventory hashing stage tree) ↔
        payloadOf hashing stage old witnessed.length environment =
          payloadOf hashing stage tree witnessed.length present := by
      rw [same, counted, ← taken, given, List.getLast?_concat, Option.some.injEq]
    rw [Ne, standing, decided]
    refine ⟨fun equal => ⟨last, onDisk, witness.ordinalOf_eq.2, if_pos equal⟩, fun differs => ?_⟩
    exact if_neg differs

end Verbatus.StageSeal
