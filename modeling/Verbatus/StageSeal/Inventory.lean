import Verbatus.StageSeal.Readable

namespace Verbatus.StageSeal

open Library Library.Checked Refusal RunTree

variable (hashing : Hashing) (stage : Stage)

/-- The identity of a stage's nth seal attempt. -/
def sealAttempt (ordinal : ℤ) : String := hashing.attemptId stage.name "seal" ordinal

/-- The path one boundary kind has at the nth seal attempt. -/
def boundaryKey (kind : String) (ordinal : ℤ) : ArtifactKey :=
  artifactKey stage kind (hashing.artifactId stage kind stage.name
    (some (sealAttempt hashing stage ordinal)))

/-- What a stage seal witnesses: the stage's evidence, the run's digests, its decoders. -/
@[ext]
structure Inventory where
  artifacts : Set Envelope
  blobs : Set (String × List UInt8)
  configDigest : String
  registerDigest : String
  environment : Option Envelope

/-- What is on disk for a seal of the given ordinal to witness. -/
def inventoryAt (tree : Tree) (ordinal : ℤ) : Inventory where
  artifacts := fun envelope => envelope ∈ ownArtifacts stage tree ∧
    envelope.kind ∉ sealExcludedKinds
  blobs := fun blob => tree.blobs.get? ⟨stage.writingDirectory, blob.1⟩ = some blob.2
  configDigest := tree.run.configDigest
  registerDigest := tree.run.registerDigest
  environment := tree.artifacts.get? (boundaryKey hashing stage "decode-environment" ordinal)

/-- What is on disk for the latest seal to answer for. -/
def inventory (tree : Tree) : Inventory := inventoryAt hashing stage tree (sealsOf stage tree).length

/-- The artifacts a seal counts, in the order of their ids. -/
def countedArtifacts (tree : Tree) : List Envelope :=
  (sortedArtifacts stage tree).filter (·.kind ∉ sealExcludedKinds)

/-- The blobs of the stage's directory in the order of their names. -/
def sortedBlobs (tree : Tree) : List (BlobKey × List UInt8) :=
  sortBy (fun file => file.1.name)
    (tree.blobs.items.filter (·.1.directory = stage.writingDirectory))

/-- The payload a seal of the given ordinal has over a readable tree. -/
def payloadOf (tree : Tree) (ordinal : ℤ) (environment : Envelope) : SealPayload where
  stage := stage
  attemptOrdinal := ordinal
  attemptId := sealAttempt hashing stage ordinal
  configDigest := tree.run.configDigest
  registerDigest := tree.run.registerDigest
  artifactInventory := hashing.artifacts ((countedArtifacts stage tree).map (entryOf hashing))
  blobInventory := hashing.blobs ((sortedBlobs stage tree).map fun file =>
    ⟨file.1.name, hashing.bytes file.2⟩)
  census := census ((countedArtifacts stage tree).map (entryOf hashing))
  decodeEnvironmentArtifactId := hashing.artifactId stage "decode-environment" stage.name
    (some (sealAttempt hashing stage ordinal))
  decodeEnvironmentSha256 := hashing.envelope environment

theorem mem_countedArtifacts {tree : Tree} {envelope : Envelope} :
    envelope ∈ countedArtifacts stage tree ↔
      envelope ∈ ownArtifacts stage tree ∧ envelope.kind ∉ sealExcludedKinds := by
  rw [countedArtifacts, List.mem_filter, sortedArtifacts, mem_sortBy, decide_eq_true_eq]

/-- Trees that count the same artifacts list them alike. -/
theorem countedArtifacts_congr (injective : hashing.Injective) {first second : Tree}
    (readFirst : Readable hashing stage first) (readSecond : Readable hashing stage second)
    (same : ∀ envelope, envelope ∈ countedArtifacts stage first ↔
      envelope ∈ countedArtifacts stage second) :
    countedArtifacts stage first = countedArtifacts stage second := by
  have sorted : ∀ tree, countedArtifacts stage tree =
      sortBy Envelope.artifactId (countedArtifacts stage tree) := by
    intro tree
    exact (sortBy_of_pairwise _ ((sortBy_pairwise _ _).filter _)).symm
  have distinct : ∀ {tree}, Readable hashing stage tree → (countedArtifacts stage tree).Nodup := by
    intro tree readable
    apply List.Nodup.filter
    exact (sortBy_perm _ _).nodup_iff.mpr (ownArtifacts_nodup hashing stage readable)
  have perm : (countedArtifacts stage first).Perm (countedArtifacts stage second) :=
    (List.perm_ext_iff_of_nodup (distinct readFirst) (distinct readSecond)).mpr same
  rw [sorted first, sorted second]
  apply sortBy_eq_of_perm perm
  intro one inOne two inTwo equal
  exact ownArtifacts_apart hashing stage injective readFirst
    ((mem_countedArtifacts stage).mp inOne).1 ((mem_countedArtifacts stage).mp inTwo).1 equal

theorem mem_sortedBlobs {tree : Tree} {file : BlobKey × List UInt8} :
    file ∈ sortedBlobs stage tree ↔ file.1.directory = stage.writingDirectory ∧
      tree.blobs.get? file.1 = some file.2 := by
  rw [sortedBlobs, mem_sortBy, List.mem_filter, decide_eq_true_eq, Mapping.get?_eq_some]
  tauto

/-- Trees that hold the same blobs list them alike. -/
theorem sortedBlobs_congr {first second : Tree}
    (same : ∀ file, file ∈ sortedBlobs stage first ↔ file ∈ sortedBlobs stage second) :
    sortedBlobs stage first = sortedBlobs stage second := by
  have distinct : ∀ tree, (sortedBlobs stage tree).Nodup := by
    intro tree
    refine (sortBy_perm _ _).nodup_iff.mpr (List.Nodup.filter _ ?_)
    exact List.Nodup.of_map Prod.fst tree.blobs.distinct
  have perm := (List.perm_ext_iff_of_nodup (distinct first) (distinct second)).mpr same
  have sorted : ∀ tree, sortBy (fun file : BlobKey × List UInt8 => file.1.name)
      (sortedBlobs stage tree) = sortedBlobs stage tree :=
    fun tree => sortBy_of_pairwise _ (sortBy_pairwise _ _)
  rw [← sorted first, ← sorted second]
  apply sortBy_eq_of_perm perm
  rintro ⟨⟨place, name⟩, data⟩ inOne ⟨⟨other, label⟩, content⟩ inTwo equal
  obtain ⟨here, one⟩ := (mem_sortedBlobs stage).mp inOne
  obtain ⟨there, two⟩ := (mem_sortedBlobs stage).mp inTwo
  simp only at here there one two equal
  subst here there equal
  rw [one] at two
  rw [Option.some.inj two]

theorem stageBlobInventory_readable {tree : Tree} (readable : Readable hashing stage tree) :
    stageBlobInventory hashing tree stage =
      .ok ((sortedBlobs stage tree).map fun file => ⟨file.1.name, hashing.bytes file.2⟩) := by
  apply mapM_ok_of_forall
  intro file listed
  obtain ⟨inside, found⟩ := (mem_sortedBlobs stage).mp listed
  exact require_bind_of (readable.blobs file.1 file.2 found inside)

/-- Over a readable tree the payload of a seal is what its environment's presence allows. -/
theorem stageSealPayload_readable {tree : Tree} (readable : Readable hashing stage tree)
    (ordinal : ℤ) {environment : Envelope} {manifest : Option (List ManifestEntry)}
    (current : ∀ snapshot ∈ manifest, snapshot = manifestOf hashing stage tree)
    (found : tree.artifacts.get? (boundaryKey hashing stage "decode-environment" ordinal) =
      some environment) :
    stageSealPayload hashing tree stage ordinal (sealAttempt hashing stage ordinal) manifest =
      .ok (payloadOf hashing stage tree ordinal environment) := by
  have snapshot : manifest.elim (tree.buildManifest hashing stage true) .ok =
      .ok (manifestOf hashing stage tree) := by
    cases manifest with
    | none => exact buildManifest_readable hashing stage readable true
    | some snapshot => exact congrArg Except.ok (current snapshot rfl)
  have counted : (manifestOf hashing stage tree).filter (·.kind ∉ sealExcludedKinds) =
      (countedArtifacts stage tree).map (entryOf hashing) := List.filter_map
  have read : tree.readDigest hashing (.artifact (artifactKey stage "decode-environment"
      (hashing.artifactId stage "decode-environment" stage.name
        (some (sealAttempt hashing stage ordinal))))) = some (hashing.envelope environment) :=
    congrArg (Option.map hashing.envelope) found
  rw [stageSealPayload, snapshot, ok_bind, stageBlobInventory_readable hashing stage readable,
    ok_bind]
  simp only [read, counted]
  rfl

/-- Two payloads of one ordinal are the same exactly when they are of one inventory. -/
theorem payloadOf_eq_iff (injective : hashing.Injective) {first second : Tree}
    (readFirst : Readable hashing stage first) (readSecond : Readable hashing stage second)
    {ordinal : ℤ} {one two : Envelope}
    (foundOne : first.artifacts.get? (boundaryKey hashing stage "decode-environment" ordinal) =
      some one)
    (foundTwo : second.artifacts.get? (boundaryKey hashing stage "decode-environment" ordinal) =
      some two) :
    payloadOf hashing stage first ordinal one = payloadOf hashing stage second ordinal two ↔
      inventoryAt hashing stage first ordinal = inventoryAt hashing stage second ordinal := by
  constructor
  · intro same
    have entries := injective.artifacts (congrArg SealPayload.artifactInventory same)
    have rows := injective.blobs (congrArg SealPayload.blobInventory same)
    have environments := injective.envelope (congrArg SealPayload.decodeEnvironmentSha256 same)
    have entryInjective : Function.Injective (entryOf hashing) :=
      fun _ _ equal => injective.envelope (congrArg ManifestEntry.sha256 equal)
    have counted := List.map_injective_iff.mpr entryInjective entries
    have stored : ∀ {tree other : Tree}, ((sortedBlobs stage tree).map fun file =>
        (⟨file.1.name, hashing.bytes file.2⟩ : BlobEntry)) =
        ((sortedBlobs stage other).map fun file => ⟨file.1.name, hashing.bytes file.2⟩) →
        ∀ blob : String × List UInt8,
          tree.blobs.get? ⟨stage.writingDirectory, blob.1⟩ = some blob.2 →
          other.blobs.get? ⟨stage.writingDirectory, blob.1⟩ = some blob.2 := by
      intro tree other equal blob held
      have listed : (⟨stage.writingDirectory, blob.1⟩, blob.2) ∈ sortedBlobs stage tree :=
        (mem_sortedBlobs stage).mpr ⟨rfl, held⟩
      have image := List.mem_map_of_mem (f := fun file : BlobKey × List UInt8 =>
        (⟨file.1.name, hashing.bytes file.2⟩ : BlobEntry)) listed
      rw [equal, List.mem_map] at image
      obtain ⟨⟨⟨place, name⟩, data⟩, there, match_⟩ := image
      obtain ⟨inside, found⟩ := (mem_sortedBlobs stage).mp there
      simp only [BlobEntry.mk.injEq] at match_ inside found
      rw [inside, match_.1, injective.bytes match_.2] at found
      exact found
    apply Inventory.ext
    · ext envelope
      change (_ ∈ _ ∧ _) ↔ (_ ∈ _ ∧ _)
      rw [← mem_countedArtifacts stage, ← mem_countedArtifacts stage, counted]
    · ext blob
      exact ⟨stored rows blob, stored rows.symm blob⟩
    · exact congrArg SealPayload.configDigest same
    · exact congrArg SealPayload.registerDigest same
    · change first.artifacts.get? _ = second.artifacts.get? _
      rw [foundOne, foundTwo, environments]
  · intro same
    have counted : countedArtifacts stage first = countedArtifacts stage second := by
      apply countedArtifacts_congr hashing stage injective readFirst readSecond
      intro envelope
      rw [mem_countedArtifacts, mem_countedArtifacts]
      exact iff_of_eq (congrFun (congrArg Inventory.artifacts same) envelope)
    have stored : sortedBlobs stage first = sortedBlobs stage second := by
      apply sortedBlobs_congr stage
      rintro ⟨⟨place, name⟩, data⟩
      rw [mem_sortedBlobs, mem_sortedBlobs]
      apply and_congr_right
      rintro rfl
      exact iff_of_eq (congrFun (congrArg Inventory.blobs same) (name, data))
    have config : first.run.configDigest = second.run.configDigest :=
      congrArg Inventory.configDigest same
    have register : first.run.registerDigest = second.run.registerDigest :=
      congrArg Inventory.registerDigest same
    have environments := congrArg Inventory.environment same
    change first.artifacts.get? _ = second.artifacts.get? _ at environments
    rw [foundOne, foundTwo] at environments
    rw [payloadOf, payloadOf, counted, stored, config, register, Option.some.inj environments]

end Verbatus.StageSeal
