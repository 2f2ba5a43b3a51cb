import Mathlib.Data.String.Basic
import Verbatus.Library.Checked
import Verbatus.Library.Mapping
import Verbatus.Library.Sorting
import Verbatus.Refusal

namespace Verbatus.RunTree

open Library Library.Checked Refusal

/-- The producers of a run tree, in flow order. -/
inductive Stage where
  | door
  | exemplar
  | inkMap
  | designator
  | attestatores
  | perlector
  | coniector
  | recensor
  | archetypus
  | armarium
  deriving DecidableEq, Repr

def Stage.name : Stage → String
  | door => "door"
  | exemplar => "exemplar"
  | inkMap => "ink-map"
  | designator => "designator"
  | attestatores => "attestatores"
  | perlector => "perlector"
  | coniector => "coniector"
  | recensor => "recensor"
  | archetypus => "archetypus"
  | armarium => "armarium"

/-- `WRITING_DIRECTORIES`: the door writes into the Exemplar's directory. -/
def Stage.writingDirectory : Stage → String
  | door => "1_exemplar"
  | exemplar => "1_exemplar"
  | inkMap => "1_ink_map"
  | designator => "2_designator"
  | attestatores => "3_attestatores"
  | perlector => "4_perlector"
  | coniector => "4b_coniector"
  | recensor => "5_recensor"
  | archetypus => "6_archetypus"
  | armarium => "7_armarium"

structure ArtifactKey where
  directory : String
  kind : String
  artifactId : String
  deriving DecidableEq, Repr

structure BlobKey where
  directory : String
  name : String
  deriving DecidableEq, Repr

/-- A path of the run tree, in the parts its writer makes it of. -/
inductive RelativePath where
  | artifact (key : ArtifactKey)
  | blob (key : BlobKey)
  | other (path : String)
  deriving DecidableEq, Repr

def RelativePath.text : RelativePath → String
  | artifact key => s!"{key.directory}/artifacts/{key.kind}/{key.artifactId}.json"
  | blob key => s!"{key.directory}/blobs/{key.name}"
  | other path => path

structure InputRef where
  relativePath : RelativePath
  sha256 : String
  deriving DecidableEq, Repr

/-- How many artifacts of one kind have one outcome. -/
structure CensusRow where
  kind : String
  outcome : String
  count : ℕ
  deriving DecidableEq, Repr

/-- What a stage seal records of the boundary it was published over. -/
structure SealPayload where
  stage : Stage
  attemptOrdinal : ℤ
  attemptId : String
  configDigest : String
  registerDigest : String
  artifactInventory : String
  blobInventory : String
  census : List CensusRow
  decodeEnvironmentArtifactId : String
  decodeEnvironmentSha256 : String
  deriving DecidableEq, Repr

structure Decoder where
  name : String
  version : String
  deriving DecidableEq, Repr

/-- The decoders that can turn source bytes into pixels, and the machine they run on. -/
structure DecodeEnvironment where
  decoders : List Decoder
  platform : String
  machine : String
  decodePathsUsed : List String
  producedPixels : Bool
  deriving DecidableEq, Repr

/-- What an artifact tells; the canonical text of any other kind is kept as it is. -/
inductive Payload where
  | seal (payload : SealPayload)
  | environment (environment : DecodeEnvironment)
  | record (canonical : String)
  deriving DecidableEq, Repr

structure Envelope where
  runId : String
  artifactId : String
  attemptId : Option String
  subjectId : String
  stage : Stage
  kind : String
  outcome : String
  configDigest : String
  adapterRevision : String
  inputs : List InputRef
  payload : Payload
  approvalRef : Option String
  deriving DecidableEq, Repr

structure ManifestEntry where
  artifactId : String
  kind : String
  subjectId : String
  outcome : String
  relativePath : RelativePath
  sha256 : String
  deriving DecidableEq, Repr

/-- A manifest as it was last written; one that is no inventory cannot be read. -/
inductive StoredManifest where
  | unreadable
  | inventory (stage : Stage) (artifacts : List ManifestEntry)
  deriving DecidableEq, Repr

structure BlobEntry where
  name : String
  sha256OfContent : String
  deriving DecidableEq, Repr

/-- What `run.json` binds a run to. -/
structure RunAuthority where
  runId : String
  configDigest : String
  registerDigest : String
  adapterRecipes : Stage → String
  imports : Option (String × List Stage)

/-- The fields of an approval record an advance is read from. -/
structure AdvanceRecord where
  action : String
  subjectIds : List String
  targetVersionHash : String
  deriving DecidableEq, Repr

/-- The files of a run tree; an artifact's bytes are the canonical bytes of its envelope. -/
structure Tree where
  run : RunAuthority
  artifacts : Mapping ArtifactKey Envelope
  blobs : Mapping BlobKey (List UInt8)
  others : Mapping String (List UInt8)
  manifest : Option StoredManifest
  approvalRecords : List AdvanceRecord

/-- SHA-256 of what is hashed as canonical bytes, and the identities derived from it. -/
structure Hashing where
  bytes : List UInt8 → String
  envelope : Envelope → String
  artifacts : List ManifestEntry → String
  blobs : List BlobEntry → String
  attemptId : String → String → ℤ → String
  artifactId : Stage → String → String → Option String → String

/-- No two things hashed have one digest, and no two bindings one identity. -/
structure Hashing.Injective (hashing : Hashing) : Prop where
  bytes : Function.Injective hashing.bytes
  envelope : Function.Injective hashing.envelope
  artifacts : Function.Injective hashing.artifacts
  blobs : Function.Injective hashing.blobs
  attemptId : ∀ subject operation, Function.Injective (hashing.attemptId subject operation)
  artifactId : Function.Injective fun binding : Stage × String × String × Option String =>
    hashing.artifactId binding.1 binding.2.1 binding.2.2.1 binding.2.2.2

variable (hashing : Hashing)

namespace Tree

/-- `holds_run_id`: a run's own records, and those of the stages a replay imported. -/
def holdsRunId (tree : Tree) (runId : String) (stage : Stage) : Bool :=
  runId = tree.run.runId ∨ tree.run.imports.any fun (source, stages) =>
    runId = source ∧ stage ∈ stages

/-- The digest of the bytes at a path. -/
def readDigest (tree : Tree) : RelativePath → Option String
  | .artifact key => (tree.artifacts.get? key).map hashing.envelope
  | .blob key => (tree.blobs.get? key).map hashing.bytes
  | .other path => (tree.others.get? path).map hashing.bytes

/-- `read_verified` -/
def readVerified (tree : Tree) (reference : InputRef) : Except Refusal Unit :=
  match tree.readDigest hashing reference.relativePath with
  | none => .error (.schemaRefusal s!"artifact input {reference.relativePath.text} could not be read")
  | some actual => require (actual = reference.sha256) (.schemaRefusal
      (s!"artifact input {reference.relativePath.text} has digest {actual}, but its reference " ++
      s!"recorded {reference.sha256}: the bytes changed under a sealed reference"))

end Tree

/-- `artifact_path` -/
def artifactKey (stage : Stage) (kind artifactId : String) : ArtifactKey :=
  ⟨stage.writingDirectory, kind, artifactId⟩

/-- The path an envelope's own fields derive. -/
def Envelope.key (envelope : Envelope) : ArtifactKey :=
  artifactKey envelope.stage envelope.kind envelope.artifactId

/-- The boundary kinds and the outcome reserved for each. -/
def boundaryOutcomes : List (String × String) :=
  [("stage-seal", "sealed"), ("decode-environment", "recorded"),
    ("chandra-native-attempt-intent", "recorded"), ("chandra-native-attempt", "recorded"),
    ("review-decisions", "recorded"), ("witness-routing", "recorded")]

/-- `validate_envelope`: the identity is the one its fields derive, a boundary outcome its own. -/
def validateEnvelope (envelope : Envelope) : Except Refusal Unit := do
  let expected := hashing.artifactId envelope.stage envelope.kind envelope.subjectId
    envelope.attemptId
  require (envelope.artifactId = expected) (.schemaRefusal
    (s!"artifact_id {quote envelope.artifactId} does not verify against its stage, kind, " ++
    s!"subject, and attempt binding (recomputed {quote expected})"))
  match boundaryOutcomes.lookup envelope.kind with
  | some outcome => require (envelope.outcome = outcome) (.schemaRefusal
      (s!"boundary artifact {quote envelope.kind} has outcome {quote envelope.outcome}, not its " ++
      s!"required boundary outcome {quote outcome}"))
  | none => .ok ()

namespace Tree

/-- `_verify_artifact_run` -/
def verifyArtifactRun (tree : Tree) (envelope : Envelope) : Except Refusal Unit := do
  require (tree.holdsRunId envelope.runId envelope.stage) (.schemaRefusal
    s!"artifact belongs to run {quote envelope.runId}, not {quote tree.run.runId}")
  require (envelope.configDigest = tree.run.configDigest) (.schemaRefusal
    (s!"artifact was produced under configuration {quote envelope.configDigest} and this run is " ++
    s!"bound to {quote tree.run.configDigest}; two runs may share a name, so the name alone does " ++
    "not say an artifact belongs here"))

/-- `_verify_artifact_path` -/
def verifyArtifactPath (key : ArtifactKey) (envelope : Envelope) : Except Refusal Unit :=
  let expected := envelope.key
  require (key = expected) (.schemaRefusal
    (s!"artifact at {quote (RelativePath.artifact key).text} does not occupy its derived path " ++
    quote (RelativePath.artifact expected).text))

/-- `_verify_artifact_inputs` -/
def verifyArtifactInputs (tree : Tree) (envelope : Envelope) : Except Refusal Unit :=
  envelope.inputs.forM (tree.readVerified hashing)

/-- `read_artifact` -/
def readArtifact (tree : Tree) (stage : Stage) (kind artifactId : String) :
    Except Refusal Envelope := do
  let key := artifactKey stage kind artifactId
  match tree.artifacts.get? key with
  | none => .error (.schemaRefusal s!"{(RelativePath.artifact key).text} could not be read")
  | some envelope =>
    validateEnvelope hashing envelope
    tree.verifyArtifactRun envelope
    require (envelope.stage = stage ∧ envelope.kind = kind ∧ envelope.artifactId = artifactId)
      (.schemaRefusal ("artifact contents do not match the stage, kind, and identity requested " ++
        s!"by their path {quote (RelativePath.artifact key).text}"))
    verifyArtifactPath key envelope
    tree.verifyArtifactInputs hashing envelope
    return envelope

/-- One walked file's entry in the manifest of a stage; a sibling's record has none. -/
def manifestEntry (tree : Tree) (stage : Stage) (verifyInputs : Bool)
    (file : ArtifactKey × Envelope) : Except Refusal (Option ManifestEntry) := do
  let (key, envelope) := file
  validateEnvelope hashing envelope
  tree.verifyArtifactRun envelope
  verifyArtifactPath key envelope
  if envelope.stage ≠ stage then return none
  let inputs := if verifyInputs then tree.verifyArtifactInputs hashing envelope else .ok ()
  inputs
  return some ⟨envelope.artifactId, envelope.kind, envelope.subjectId, envelope.outcome,
    .artifact key, hashing.envelope envelope⟩

/-- `build_manifest`, the artifacts only: what the files of the stage's directory are. -/
def buildManifest (tree : Tree) (stage : Stage) (verifyInputs : Bool) :
    Except Refusal (List ManifestEntry) := do
  let members := tree.artifacts.items.filter (·.1.directory = stage.writingDirectory)
  let entries ← members.mapM (tree.manifestEntry hashing stage verifyInputs)
  return sortBy ManifestEntry.artifactId entries.reduceOption

/-- The tree with one more artifact file. -/
def addArtifact (tree : Tree) (envelope : Envelope) : Tree :=
  { tree with artifacts := tree.artifacts.set envelope.key envelope }

def addBlob (tree : Tree) (key : BlobKey) (data : List UInt8) : Tree :=
  { tree with blobs := tree.blobs.set key data }

def storeManifest (tree : Tree) (stage : Stage) (manifest : List ManifestEntry) : Tree :=
  { tree with manifest := some (.inventory stage manifest) }

end Tree

end Verbatus.RunTree
