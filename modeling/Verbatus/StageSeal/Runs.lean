import Verbatus.Library.Runs
import Verbatus.StageSeal.Verified

namespace Verbatus.StageSeal

open Library Library.Checked Refusal RunTree

section Kept

variable {hashing : Hashing} {stage : Stage}

/-- Publishing what is no seal leaves the seals and their inventories as they were. -/
theorem Sound.addArtifact {tree : Tree} {witnessed : List Inventory}
    (sound : Sound hashing stage tree witnessed) {envelope : Envelope}
    (published : Publishable hashing tree envelope)
    (absent : tree.artifacts.get? envelope.key = none) (noSeal : envelope.kind ≠ "stage-seal")
    (environment : ∀ ordinal : ℤ,
      envelope.key = boundaryKey hashing stage "decode-environment" ordinal →
      ∃ machine, envelope = environmentAt hashing stage tree.run machine ordinal) :
    Sound hashing stage (tree.addArtifact envelope) witnessed := by
  have seals : ∀ other, other ∈ sealsOf stage (tree.addArtifact envelope) ↔
      other ∈ sealsOf stage tree := by
    intro other
    rw [mem_sealsOf_iff, mem_sealsOf_iff,
      mem_ownArtifacts_addArtifact sound.readable published absent]
    constructor
    · rintro ⟨earlier | ⟨rfl, _⟩, kind⟩
      · exact ⟨earlier, kind⟩
      · exact absurd kind noSeal
    · rintro ⟨earlier, kind⟩
      exact ⟨.inl earlier, kind⟩
  have files : ∀ key, (tree.addArtifact envelope).artifacts.get? key =
      if key = envelope.key then some envelope else tree.artifacts.get? key :=
    fun key => Mapping.get?_set tree.artifacts envelope.key key envelope
  refine ⟨sound.readable.addArtifact published absent, ?_, ?_, ?_, ?_⟩
  · obtain ⟨all, sealed⟩ := sound.sealed
    exact ⟨all, fun other => (seals other).trans (sealed.listed other), sealed.each, sealed.length⟩
  · intro ordinal other found
    rw [files] at found
    split_ifs at found with here
    · cases found
      exact environment ordinal here.symm
    · exact sound.environments ordinal other found
  · intro ordinal listed
    rw [files]
    split_ifs
    · exact Option.some_ne_none envelope
    · exact sound.present ordinal listed
  · intro stored given
    obtain ⟨entries, rfl, named⟩ := sound.noted stored given
    refine ⟨entries, rfl, fun entry inside kind => ?_⟩
    obtain ⟨other, onDisk, same⟩ := List.mem_map.mp (named entry inside kind)
    exact List.mem_map.mpr ⟨other, (seals other).mpr onDisk, same⟩

theorem Sound.addEnvironment (injective : hashing.Injective) {tree : Tree}
    {witnessed : List Inventory} (sound : Sound hashing stage tree witnessed) (machine : Machine)
    (ordinal : ℤ) (absent : tree.artifacts.get?
      (boundaryKey hashing stage "decode-environment" ordinal) = none) :
    Sound hashing stage (tree.addArtifact (environmentAt hashing stage tree.run machine ordinal))
      witnessed := by
  apply sound.addArtifact (environmentAt_publishable tree machine ordinal) absent
  · change "decode-environment" ≠ "stage-seal"
    decide
  · intro other same
    obtain ⟨_, rfl⟩ := boundaryKey_injective injective same
    exact ⟨machine, rfl⟩

theorem Sound.addBlob {tree : Tree} {witnessed : List Inventory}
    (sound : Sound hashing stage tree witnessed) {data : List UInt8}
    (absent : tree.blobs.get? ⟨stage.writingDirectory, hashing.bytes data⟩ = none) :
    Sound hashing stage (tree.addBlob ⟨stage.writingDirectory, hashing.bytes data⟩ data)
      witnessed := by
  obtain ⟨all, sealed⟩ := sound.sealed
  exact ⟨sound.readable.addBlob rfl absent,
    ⟨all, sealed.listed, sealed.each, sealed.length⟩, sound.environments, sound.present,
    sound.noted⟩

/-- Parts of a tree that no seal is read from may be replaced. -/
theorem Sound.replaced {tree later : Tree} {witnessed : List Inventory}
    (sound : Sound hashing stage tree witnessed) (run : later.run = tree.run)
    (artifacts : later.artifacts = tree.artifacts) (blobs : later.blobs = tree.blobs)
    (others : later.others = tree.others)
    (noted : ∀ stored ∈ later.manifest, ∃ entries, stored = .inventory stage entries ∧
      ∀ entry ∈ entries, entry.kind = "stage-seal" →
        entry.artifactId ∈ (sealsOf stage tree).map Envelope.artifactId) :
    Sound hashing stage later witnessed := by
  obtain ⟨run', artifacts', blobs', others', manifest, approvals⟩ := later
  subst run artifacts blobs others
  have kept : ∀ path digest, tree.readDigest hashing path = some digest →
      (Tree.mk tree.run tree.artifacts tree.blobs tree.others manifest approvals).readDigest
        hashing path = some digest := by
    intro path digest read
    cases path <;> exact read
  obtain ⟨all, sealed⟩ := sound.sealed
  refine ⟨⟨?_, sound.readable.blobs⟩, ⟨all, sealed.listed, sealed.each, sealed.length⟩,
    sound.environments, sound.present, noted⟩
  intro key envelope found inside
  obtain ⟨place, published⟩ := sound.readable.artifacts key envelope found inside
  exact ⟨place, Publishable.grown (show (Tree.mk tree.run tree.artifacts tree.blobs tree.others manifest
    approvals).run = tree.run from rfl) kept published⟩

/-- A written manifest names the seals that are on disk. -/
theorem Sound.storeManifest {tree : Tree} {witnessed : List Inventory}
    (sound : Sound hashing stage tree witnessed) {manifest : List ManifestEntry}
    (built : tree.buildManifest hashing stage true = .ok manifest) :
    Sound hashing stage (tree.storeManifest stage manifest) witnessed := by
  rw [buildManifest_readable hashing stage sound.readable, Except.ok.injEq] at built
  refine sound.replaced rfl rfl rfl rfl ?_
  rintro stored ⟨⟩
  refine ⟨manifest, rfl, fun entry inside kind => ?_⟩
  rw [← built, manifestOf, List.mem_map] at inside
  obtain ⟨envelope, own, rfl⟩ := inside
  refine List.mem_map_of_mem (mem_sealsOf_iff.mpr ⟨?_, kind⟩)
  exact (mem_sortBy _).mp own

theorem Sound.approve {tree : Tree} {witnessed : List Inventory}
    (sound : Sound hashing stage tree witnessed) (records : List AdvanceRecord) :
    Sound hashing stage { tree with approvalRecords := records } witnessed :=
  sound.replaced rfl rfl rfl rfl sound.noted

/-- A seal published over the inventory on disk joins the ones before it. -/
theorem Sound.addSeal (injective : hashing.Injective) {tree : Tree} {witnessed : List Inventory}
    (sound : Sound hashing stage tree witnessed) {environment minted : Envelope}
    (found : tree.artifacts.get? (boundaryKey hashing stage "decode-environment"
      (witnessed.length + 1)) = some environment)
    (given : minted = sealAt hashing stage tree.run (witnessed.length + 1)
      (payloadOf hashing stage tree (witnessed.length + 1) environment)) :
    Sound hashing stage (tree.addArtifact minted)
      (witnessed ++ [inventory hashing stage (tree.addArtifact minted)]) ∧
    (sealsOf stage (tree.addArtifact minted)).length = witnessed.length + 1 := by
  have published : Publishable hashing tree minted := given ▸ sealAt_publishable tree _ _
  have place : minted.key = boundaryKey hashing stage "stage-seal" (witnessed.length + 1) :=
    given ▸ rfl
  have kind : minted.kind = "stage-seal" := given ▸ rfl
  have own : minted.stage = stage := given ▸ rfl
  have absent : tree.artifacts.get? minted.key = none := place ▸ sound.seal_absent injective
  have readable := sound.readable.addArtifact published absent
  have files : ∀ ordinal : ℤ, (tree.addArtifact minted).artifacts.get?
      (boundaryKey hashing stage "decode-environment" ordinal) =
      tree.artifacts.get? (boundaryKey hashing stage "decode-environment" ordinal) := by
    intro ordinal
    refine (Mapping.get?_set tree.artifacts minted.key _ minted).trans (if_neg ?_)
    intro same
    have kinds : "decode-environment" = minted.kind := congrArg ArtifactKey.kind same
    rw [kind] at kinds
    exact absurd kinds (by decide)
  have counted : inventoryAt hashing stage (tree.addArtifact minted) (witnessed.length + 1) =
      inventoryAt hashing stage tree (witnessed.length + 1) := by
    apply Inventory.ext
    · ext envelope
      change (_ ∈ _ ∧ _) ↔ (_ ∈ _ ∧ _)
      rw [mem_ownArtifacts_addArtifact sound.readable published absent]
      constructor
      · rintro ⟨earlier | ⟨rfl, _⟩, ordinary⟩
        · exact ⟨earlier, ordinary⟩
        · rw [kind] at ordinary
          exact absurd ordinary (by decide)
      · rintro ⟨earlier, ordinary⟩
        exact ⟨.inl earlier, ordinary⟩
    · rfl
    · rfl
    · rfl
    · exact files _
  obtain ⟨all, sealed⟩ := sound.sealed
  have valid : ∀ owner, validateDecodeEnvironment environment.payload owner = .ok () := by
    obtain ⟨machine, rfl⟩ := sound.environments _ _ found
    exact validateDecodeEnvironment_machine stage machine
  have joined : SealedBy hashing stage (tree.addArtifact minted)
      (witnessed ++ [inventoryAt hashing stage (tree.addArtifact minted) (witnessed.length + 1)])
      (all ++ [minted]) := by
    refine ⟨?_, ?_, by simp [sealed.length]⟩
    · intro other
      rw [mem_sealsOf_iff, mem_ownArtifacts_addArtifact sound.readable published absent,
        List.mem_append, ← sealed.listed, mem_sealsOf_iff, List.mem_singleton]
      constructor
      · rintro ⟨earlier | ⟨rfl, _⟩, same⟩
        · exact .inl ⟨earlier, same⟩
        · exact .inr rfl
      · rintro (⟨earlier, same⟩ | rfl)
        · exact ⟨.inl earlier, same⟩
        · exact ⟨.inr ⟨rfl, own⟩, kind⟩
    · intro index envelope listed recorded sealedThen
      rcases Nat.lt_or_ge index all.length with before | after
      · rw [List.getElem?_append_left before] at listed
        rw [List.getElem?_append_left (sealed.length ▸ before)] at sealedThen
        exact sealed.each index envelope listed recorded sealedThen
      · have last : index = all.length := by
          by_contra other
          rw [List.getElem?_eq_none (by rw [List.length_append, List.length_singleton]; omega)]
            at listed
          cases listed
        subst last
        rw [List.getElem?_concat_length, Option.mem_some_iff] at listed
        rw [sealed.length, List.getElem?_concat_length, Option.mem_some_iff] at sealedThen
        subst listed sealedThen
        rw [sealed.length]
        exact ⟨given ▸ rfl, given ▸ rfl, tree, environment, sound.readable, found, valid,
          given ▸ rfl, counted⟩
  have length : (sealsOf stage (tree.addArtifact minted)).length = witnessed.length + 1 := by
    rw [(joined.perm readable).length_eq, List.length_append, sealed.length]
    rfl
  refine ⟨⟨readable, ?_, ?_, ?_, ?_⟩, length⟩
  · refine ⟨all ++ [minted], ?_⟩
    rw [inventory, length]
    exact_mod_cast joined
  · intro ordinal other held
    rw [files] at held
    exact sound.environments ordinal other held
  · intro ordinal listed
    rw [files]
    rw [mem_ordinalsUpTo, List.length_append, List.length_singleton] at listed
    by_cases last : ordinal = witnessed.length + 1
    · rw [last, found]
      exact Option.some_ne_none environment
    · exact sound.present ordinal (mem_ordinalsUpTo.mpr (by omega))
  · intro stored held
    obtain ⟨entries, rfl, named⟩ := sound.noted stored held
    refine ⟨entries, rfl, fun entry inside same => ?_⟩
    obtain ⟨other, onDisk, equal⟩ := List.mem_map.mp (named entry inside same)
    refine List.mem_map.mpr ⟨other, ?_, equal⟩
    exact (joined.listed other).mpr (List.mem_append_left _ ((sealed.listed other).mp onDisk))

end Kept

end Verbatus.StageSeal
