import Mathlib
import Verbatus.StageSeal.Session

namespace Verbatus.StageSeal

open Library Library.Checked Refusal RunTree

variable (hashing : Hashing) (stage : Stage)

/-- What the store checks of an envelope before it publishes it and when it reads it back. -/
structure Publishable (tree : Tree) (envelope : Envelope) : Prop where
  valid : validateEnvelope hashing envelope = .ok ()
  run : tree.verifyArtifactRun envelope = .ok ()
  inputs : tree.verifyArtifactInputs hashing envelope = .ok ()

/-- A tree in which every file of the stage's directory reads back. -/
structure Readable (tree : Tree) : Prop where
  artifacts : ∀ key envelope, tree.artifacts.get? key = some envelope →
    key.directory = stage.writingDirectory → key = envelope.key ∧ Publishable hashing tree envelope
  blobs : ∀ key data, tree.blobs.get? key = some data →
    key.directory = stage.writingDirectory → hashing.bytes data = key.name

/-- The stage's own artifacts, in the order their directory lists them. -/
def ownArtifacts (tree : Tree) : List Envelope :=
  ((tree.artifacts.items.filter (·.1.directory = stage.writingDirectory)).map Prod.snd).filter
    (·.stage = stage)

/-- The manifest entry of an artifact. -/
def entryOf (envelope : Envelope) : ManifestEntry :=
  ⟨envelope.artifactId, envelope.kind, envelope.subjectId, envelope.outcome,
    .artifact envelope.key, hashing.envelope envelope⟩

def sortedArtifacts (tree : Tree) : List Envelope :=
  sortBy Envelope.artifactId (ownArtifacts stage tree)

def manifestOf (tree : Tree) : List ManifestEntry :=
  (sortedArtifacts stage tree).map (entryOf hashing)

/-- The stage seals that are on disk, in the order of their ids. -/
def sealsOf (tree : Tree) : List Envelope :=
  (sortedArtifacts stage tree).filter (·.kind = "stage-seal")

/-- An own artifact is the file at the path its fields derive. -/
theorem mem_ownArtifacts {tree : Tree} (readable : Readable hashing stage tree)
    {envelope : Envelope} : envelope ∈ ownArtifacts stage tree ↔
      envelope.stage = stage ∧ tree.artifacts.get? envelope.key = some envelope := by
  simp only [ownArtifacts, List.mem_filter, List.mem_map, decide_eq_true_eq]
  constructor
  · rintro ⟨⟨⟨key, other⟩, ⟨listed, inside⟩, rfl⟩, own⟩
    have found := Mapping.get?_eq_some.mpr listed
    have place := (readable.artifacts key other found inside).1
    exact ⟨own, place ▸ found⟩
  · rintro ⟨own, found⟩
    refine ⟨⟨(envelope.key, envelope), ⟨Mapping.get?_eq_some.mp found, ?_⟩, rfl⟩, own⟩
    rw [Envelope.key, artifactKey, own]

theorem ownArtifacts_publishable {tree : Tree} (readable : Readable hashing stage tree)
    {envelope : Envelope} (own : envelope ∈ ownArtifacts stage tree) :
    Publishable hashing tree envelope := by
  obtain ⟨here, found⟩ := (mem_ownArtifacts hashing stage readable).mp own
  refine (readable.artifacts envelope.key envelope found ?_).2
  rw [Envelope.key, artifactKey, here]

/-- No artifact is listed twice. -/
theorem ownArtifacts_nodup {tree : Tree} (readable : Readable hashing stage tree) :
    (ownArtifacts stage tree).Nodup := by
  apply List.Nodup.filter
  apply List.Nodup.map_on
  · rintro ⟨key, envelope⟩ first ⟨other, _⟩ second rfl
    simp only [List.mem_filter, decide_eq_true_eq] at first second
    have one := (readable.artifacts key envelope (Mapping.get?_eq_some.mpr first.1) first.2).1
    have two := (readable.artifacts other envelope (Mapping.get?_eq_some.mpr second.1) second.2).1
    rw [one, two]
  · exact (List.Nodup.of_map Prod.fst tree.artifacts.distinct).filter _

theorem validateEnvelope_artifactId {envelope : Envelope}
    (valid : validateEnvelope hashing envelope = .ok ()) : envelope.artifactId =
      hashing.artifactId envelope.stage envelope.kind envelope.subjectId envelope.attemptId :=
  (require_bind_eq_ok.mp valid).1

/-- Own artifacts with one id are one artifact. -/
theorem ownArtifacts_apart (injective : hashing.Injective) {tree : Tree}
    (readable : Readable hashing stage tree) {first second : Envelope}
    (inFirst : first ∈ ownArtifacts stage tree) (inSecond : second ∈ ownArtifacts stage tree)
    (same : first.artifactId = second.artifactId) : first = second := by
  have one := validateEnvelope_artifactId hashing
    (ownArtifacts_publishable hashing stage readable inFirst).valid
  have two := validateEnvelope_artifactId hashing
    (ownArtifacts_publishable hashing stage readable inSecond).valid
  obtain ⟨hereFirst, foundFirst⟩ := (mem_ownArtifacts hashing stage readable).mp inFirst
  obtain ⟨hereSecond, foundSecond⟩ := (mem_ownArtifacts hashing stage readable).mp inSecond
  have binding : (first.stage, first.kind, first.subjectId, first.attemptId) =
      (second.stage, second.kind, second.subjectId, second.attemptId) :=
    injective.artifactId (one.symm.trans (same.trans two))
  have kinds : first.kind = second.kind := congrArg (fun row => row.2.1) binding
  have keys : first.key = second.key := by
    rw [Envelope.key, Envelope.key, hereFirst, hereSecond, kinds, same]
  rw [keys, foundSecond] at foundFirst
  exact (Option.some.inj foundFirst).symm

theorem mem_sealsOf {tree : Tree} (readable : Readable hashing stage tree) {envelope : Envelope} :
    envelope ∈ sealsOf stage tree ↔ envelope.stage = stage ∧ envelope.kind = "stage-seal" ∧
      tree.artifacts.get? envelope.key = some envelope := by
  rw [sealsOf, List.mem_filter, sortedArtifacts, mem_sortBy,
    mem_ownArtifacts hashing stage readable, decide_eq_true_eq]
  tauto

/-- A readable directory builds its manifest, with its inputs verified or not. -/
theorem buildManifest_readable {tree : Tree} (readable : Readable hashing stage tree)
    (verifyInputs : Bool) :
    tree.buildManifest hashing stage verifyInputs = .ok (manifestOf hashing stage tree) := by
  have each : ∀ file ∈ tree.artifacts.items.filter (·.1.directory = stage.writingDirectory),
      tree.manifestEntry hashing stage verifyInputs file =
        .ok (if file.2.stage = stage then some (entryOf hashing file.2) else none) := by
    rintro ⟨key, envelope⟩ listed
    rw [List.mem_filter, decide_eq_true_eq] at listed
    obtain ⟨place, published⟩ :=
      readable.artifacts key envelope (Mapping.get?_eq_some.mpr listed.1) listed.2
    have found : Tree.verifyArtifactPath key envelope = .ok () := require_eq_ok.mpr place
    rw [Tree.manifestEntry, published.valid, ok_bind, published.run, ok_bind, found, ok_bind]
    by_cases own : envelope.stage = stage
    · cases verifyInputs <;>
        simp [own, published.inputs, place, entryOf, pure, Except.pure, bind, Except.bind]
    · simp [own, pure, Except.pure]
  have entries : ∀ files : List (ArtifactKey × Envelope),
      (files.map fun file => if file.2.stage = stage then some (entryOf hashing file.2)
        else none).reduceOption =
      ((files.map Prod.snd).filter (·.stage = stage)).map (entryOf hashing) := by
    intro files
    induction files with
    | nil => rfl
    | cons file files ih =>
        by_cases own : file.2.stage = stage
        · simp [own, ← ih, List.reduceOption]
        · simp [own, ← ih, List.reduceOption]
  rw [Tree.buildManifest, mapM_ok_of_forall each, ok_bind, entries, sortBy_map]
  rfl

/-- An own artifact reads back under its kind and id. -/
theorem readArtifact_readable {tree : Tree} (readable : Readable hashing stage tree)
    {envelope : Envelope} (own : envelope ∈ ownArtifacts stage tree) :
    tree.readArtifact hashing stage envelope.kind envelope.artifactId = .ok envelope := by
  obtain ⟨here, found⟩ := (mem_ownArtifacts hashing stage readable).mp own
  have published := ownArtifacts_publishable hashing stage readable own
  have place : artifactKey stage envelope.kind envelope.artifactId = envelope.key := by
    rw [Envelope.key, here]
  have path : Tree.verifyArtifactPath envelope.key envelope = .ok () := require_eq_ok.mpr rfl
  simp only [Tree.readArtifact, place, found, published.valid, ok_bind, published.run]
  rw [require_bind_of ⟨here, trivial, trivial⟩, path, ok_bind, published.inputs, ok_bind]
  rfl

/-- The records of a kind are the own artifacts of that kind, in the order of their ids. -/
theorem stageRecords_readable {tree : Tree} (readable : Readable hashing stage tree)
    (kind : String) {manifest : Option (List ManifestEntry)}
    (current : ∀ snapshot ∈ manifest, snapshot = manifestOf hashing stage tree) :
    stageRecords hashing tree stage kind manifest =
      .ok ((sortedArtifacts stage tree).filter (·.kind = kind)) := by
  have snapshot : manifest.elim (tree.buildManifest hashing stage false) .ok =
      .ok (manifestOf hashing stage tree) := by
    cases manifest with
    | none => exact buildManifest_readable hashing stage readable false
    | some snapshot => exact congrArg Except.ok (current snapshot rfl)
  have each : ∀ envelope ∈ (sortedArtifacts stage tree).filter (·.kind = kind),
      manifestArtifact hashing tree stage (entryOf hashing envelope) = .ok envelope := by
    intro envelope listed
    have own := (mem_sortBy _).mp (List.mem_of_mem_filter listed)
    have same : tree.readArtifact hashing stage (entryOf hashing envelope).kind
        (entryOf hashing envelope).artifactId = .ok envelope :=
      readArtifact_readable hashing stage readable own
    rw [manifestArtifact, same, ok_bind]
    exact require_bind_of rfl
  rw [stageRecords, snapshot, ok_bind, manifestOf, List.filter_map, mapM_eq_ok,
    List.forall₂_map_left_iff]
  exact List.forall₂_same.mpr each

end Verbatus.StageSeal
