import Verbatus.StageSeal.Sealing

namespace Verbatus.StageSeal

open Library Library.Checked Refusal RunTree

variable {hashing : Hashing} {stage : Stage}

theorem mapError_eq_ok {α : Type} {result : Except Refusal α} {image : Refusal → Refusal}
    {value : α} : result.mapError image = .ok value ↔ result = .ok value := by
  cases result <;> simp [Except.mapError]

/-- What no tampering with the other files of a stage changes: its seals and its manifest. -/
structure SameSeals (stage : Stage) (tree changed : Tree) : Prop where
  seals : ∀ envelope, envelope ∈ sealsOf stage changed ↔ envelope ∈ sealsOf stage tree
  manifest : changed.manifest = tree.manifest

theorem SameSeals.refl (tree : Tree) : SameSeals stage tree tree := ⟨fun _ => .rfl, rfl⟩

/-- Verification accepts exactly when what is on disk is what the latest seal recorded. -/
theorem Sound.verifyStageSeal (injective : hashing.Injective) {tree : Tree}
    {witnessed : List Inventory} (sound : Sound hashing stage tree witnessed) {changed : Tree}
    (readable : Readable hashing stage changed) (same : SameSeals stage tree changed)
    (reader role : String) {manifest : Option (List ManifestEntry)}
    (current : ∀ snapshot ∈ manifest, snapshot = manifestOf hashing stage changed) :
    verifyStageSeal hashing changed stage reader role manifest = .ok () ↔
      witnessed.getLast? = some (inventory hashing stage changed) := by
  have records : stageRecords hashing changed stage "stage-seal" manifest =
      .ok (sealsOf stage changed) :=
    stageRecords_readable hashing stage readable "stage-seal" current
  have undeleted : StageSeal.refuseDeletedSeal changed stage
      ((sealsOf stage changed).map Envelope.artifactId) = .ok () :=
    sound.refuseDeletedSeal same.manifest fun envelope listed =>
      List.mem_map_of_mem ((same.seals envelope).mpr listed)
  obtain ⟨seals, sealed⟩ := sound.sealed
  have sealedHere : SealedBy hashing stage changed witnessed seals :=
    ⟨fun envelope => (same.seals envelope).trans (sealed.listed envelope), sealed.each,
      sealed.length⟩
  rw [StageSeal.verifyStageSeal, records, ok_bind]
  rcases sealedHere.last readable with ⟨rfl, none⟩ | ⟨earlier, recorded, last, rest⟩
  · rw [none]
    constructor
    · intro accepted
      exact absurd rfl (require_bind_eq_ok.mp accepted).1
    · intro standing
      cases standing
  · obtain ⟨given, onDisk, witness, latest⟩ := rest
    have counted : inventory hashing stage changed =
        inventoryAt hashing stage changed witnessed.length := by
      rw [inventory, (sealedHere.perm readable).length_eq, sealed.length]
    obtain ⟨old, environment, readOld, foundOld, valid, published, taken⟩ := witness.payload
    rw [require_bind_of (List.ne_nil_of_mem onDisk), undeleted, ok_bind, latest, ok_bind,
      published, witness.attempt, given, List.getLast?_concat, Option.some.injEq, ← given, counted,
      taken]
    have rebuilt : ∀ {present}, changed.artifacts.get?
        (boundaryKey hashing stage "decode-environment" witnessed.length) = some present →
        stageSealPayload hashing changed stage witnessed.length
          (sealAttempt hashing stage witnessed.length) manifest =
          .ok (payloadOf hashing stage changed witnessed.length present) :=
      fun found => stageSealPayload_readable hashing stage readable _ current found
    constructor
    · intro accepted
      obtain ⟨_, accepted⟩ := require_bind_eq_ok.mp accepted
      obtain ⟨_, accepted⟩ := require_bind_eq_ok.mp accepted
      obtain ⟨_, accepted⟩ := require_bind_eq_ok.mp accepted
      obtain ⟨present, read, accepted⟩ := bind_eq_ok.mp accepted
      obtain ⟨_, _, accepted⟩ := bind_eq_ok.mp accepted
      obtain ⟨_, accepted⟩ := require_bind_eq_ok.mp accepted
      obtain ⟨expected, built, accepted⟩ := bind_eq_ok.mp accepted
      have found := (readArtifact_found (mapError_eq_ok.mp read)).1
      have stated := (rebuilt found).symm.trans (mapError_eq_ok.mp built)
      have equal := require_eq_ok.mp accepted
      rw [← Except.ok.inj stated] at equal
      exact (payloadOf_eq_iff hashing stage injective readOld readable foundOld found).mp equal
    · intro standing
      have found : changed.artifacts.get?
          (boundaryKey hashing stage "decode-environment" witnessed.length) = some environment :=
        (congrArg Inventory.environment standing).symm.trans foundOld
      obtain ⟨own, kind, named, _⟩ := boundary_file injective readable found
      have read := readArtifact_readable hashing stage readable own
      rw [kind, named] at read
      have equal := (payloadOf_eq_iff hashing stage injective readOld readable foundOld found).mpr
        standing
      refine require_bind_eq_ok.mpr ⟨rfl, require_bind_eq_ok.mpr
        ⟨congrArg Inventory.configDigest standing, require_bind_eq_ok.mpr
        ⟨congrArg Inventory.registerDigest standing, ?_⟩⟩⟩
      refine bind_eq_ok.mpr ⟨environment, mapError_eq_ok.mpr read, ?_⟩
      refine bind_eq_ok.mpr ⟨(), valid _, require_bind_eq_ok.mpr ⟨rfl, ?_⟩⟩
      refine bind_eq_ok.mpr ⟨_, mapError_eq_ok.mpr (rebuilt found), ?_⟩
      exact require_eq_ok.mpr equal

end Verbatus.StageSeal
