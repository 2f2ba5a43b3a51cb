import Verbatus.StageSeal.Seal

namespace Verbatus.StageSeal

open Library Library.Checked Refusal RunTree

/-- Why a process ended its call. -/
inductive Halt where
  | refused (refusal : Refusal)
  | incompatibleReuse (message : String)
  | killed
  deriving DecidableEq, Repr

structure PublishResult where
  relativePath : RelativePath
  reused : Bool
  deriving DecidableEq, Repr

/-- One process over the tree: whether its context has sealed, and the writes it lives to make. -/
structure Session where
  tree : Tree
  sealed : Bool
  writesLeft : Option ℕ

/-- A freshly opened context. -/
def Session.fresh (tree : Tree) (writesLeft : Option ℕ) : Session := ⟨tree, false, writesLeft⟩

/-- What a stage gives `publish` for one artifact; its inputs as the envelope sorts them. -/
structure Draft where
  kind : String
  subjectId : String
  outcome : String
  payload : Payload
  inputs : List InputRef
  attempt : Option String
  approvalRef : Option String
  deriving DecidableEq, Repr

variable (hashing : Hashing) (stage : Stage)

/-- `StageContext.envelope` -/
def Draft.envelope (draft : Draft) (tree : Tree) : Envelope where
  runId := tree.run.runId
  artifactId := hashing.artifactId stage draft.kind draft.subjectId draft.attempt
  attemptId := draft.attempt
  subjectId := draft.subjectId
  stage := stage
  kind := draft.kind
  outcome := draft.outcome
  configDigest := tree.run.configDigest
  adapterRevision := tree.run.adapterRecipes stage
  inputs := draft.inputs
  payload := draft.payload
  approvalRef := draft.approvalRef

namespace Session

/-- One atomic write, unless the process is killed before it. -/
def write (session : Session) (update : Tree → Tree) : Except Halt Unit × Session :=
  match session.writesLeft with
  | none => (.ok (), { session with tree := update session.tree })
  | some 0 => (.error .killed, session)
  | some (left + 1) =>
    (.ok (), { session with tree := update session.tree, writesLeft := some left })

/-- `publish_artifact`: the same bytes are reused, other bytes at the same path are refused. -/
def publishArtifact (session : Session) (envelope : Envelope) :
    Except Halt PublishResult × Session :=
  let checked := do
    validateEnvelope hashing envelope
    session.tree.verifyArtifactRun envelope
    session.tree.verifyArtifactInputs hashing envelope
  let key := envelope.key
  match checked with
  | .error refusal => (.error (.refused refusal), session)
  | .ok () =>
    match session.tree.artifacts.get? key with
    | some existing =>
      if existing = envelope then (.ok ⟨.artifact key, true⟩, session)
      else (.error (.incompatibleReuse
        (s!"{(RelativePath.artifact key).text} already holds different bytes. Artifacts are " ++
        "immutable: the same identity may not describe two different things, and the existing " ++
        "file was not touched")), session)
    | none =>
      match session.write (·.addArtifact envelope) with
      | (.error halt, session) => (.error halt, session)
      | (.ok (), session) => (.ok ⟨.artifact key, false⟩, session)

/-- `StageContext.publish` -/
def publish (session : Session) (draft : Draft) : Except Halt PublishResult × Session :=
  if session.sealed then
    (.error (.refused (.schemaRefusal (s!"{stage.name} has sealed its completion boundary; " ++
      s!"publishing {quote draft.kind} afterwards would make its witnessed inventory false"))),
      session)
  else if draft.kind = "serving-receipt" then
    (.error (.refused (.schemaRefusal ("serving receipts are run receipts, never stage " ++
      "artifacts; use StageContext.write_serving_receipt"))), session)
  else session.publishArtifact hashing (draft.envelope hashing stage session.tree)

/-- `StageContext.retain`: bytes are stored under their own digest. -/
def retain (session : Session) (data : List UInt8) : Except Halt PublishResult × Session :=
  let key : BlobKey := ⟨stage.writingDirectory, hashing.bytes data⟩
  if session.sealed then
    (.error (.refused (.schemaRefusal (s!"{stage.name} has sealed its completion boundary; " ++
      "storing a blob afterwards would make its witnessed blob inventory false"))), session)
  else match session.tree.blobs.get? key with
    | some existing =>
      if existing = data then (.ok ⟨.blob key, true⟩, session)
      else (.error (.incompatibleReuse
        (s!"{(RelativePath.blob key).text} already holds different bytes. Artifacts are " ++
        "immutable: the same identity may not describe two different things, and the existing " ++
        "file was not touched")), session)
    | none =>
      match session.write (·.addBlob key data) with
      | (.error halt, session) => (.error halt, session)
      | (.ok (), session) => (.ok ⟨.blob key, false⟩, session)

/-- `write_manifest`: the derived manifest in place of the one stored. -/
def finish (session : Session) : Except Halt Unit × Session :=
  match session.tree.buildManifest hashing stage true with
  | .error refusal => (.error (.refused refusal), session)
  | .ok manifest => session.write (·.storeManifest stage manifest)

end Session

/-- What `seal_boundary` finds to do: an earlier seal still stands, or the next is due. -/
inductive NextSeal where
  | reuse (prior : Envelope)
  | due (ordinal : ℤ)
  deriving DecidableEq

/-- The checks of `seal_boundary` before it writes. -/
def nextSeal (tree : Tree) : Except Refusal NextSeal := do
  let records ← stageRecords hashing tree stage "stage-seal" none
  refuseDeletedSeal tree stage (records.map Envelope.artifactId)
  if records = [] then return .due 1
  let prior ← latestAttempt hashing records s!"{stage.name} stage seal" "seal"
  let .seal payload := prior.payload
    | .error (.typeError "a stage seal's payload has no attempt ordinal")
  let unchanged ← stageSealPayload hashing tree stage payload.attemptOrdinal
    (prior.attemptId.getD "None") none
  if payload = unchanged then return .reuse prior
  return .due (payload.attemptOrdinal + 1)

/-- The decode environment a seal attempt publishes before its seal. -/
def environmentDraft (machine : Machine) (attempt : String) : Draft where
  kind := "decode-environment"
  subjectId := stage.name
  outcome := "recorded"
  payload := .environment (decodeEnvironment stage machine)
  inputs := []
  attempt := some attempt
  approvalRef := none

def sealDraft (attempt : String) (payload : SealPayload) : Draft where
  kind := "stage-seal"
  subjectId := stage.name
  outcome := "sealed"
  payload := .seal payload
  inputs := []
  attempt := some attempt
  approvalRef := none

/-- The last steps of `seal_boundary`: the payload of what is on disk, published as the seal. -/
def Session.publishSeal (ordinal : ℤ) (attempt : String) (session : Session) :
    Except Halt PublishResult × Session :=
  match stageSealPayload hashing session.tree stage ordinal attempt none with
  | .error refusal => (.error (.refused refusal), session)
  | .ok payload =>
    match session.publish hashing stage (sealDraft stage attempt payload) with
    | (.error halt, session) => (.error halt, session)
    | (.ok result, session) => (.ok result, { session with sealed := true })

/-- `StageContext.seal_boundary` -/
def Session.sealBoundary (machine : Machine) (session : Session) :
    Except Halt PublishResult × Session :=
  if session.sealed then
    (.error (.refused (.schemaRefusal s!"{stage.name} completion boundary is already sealed")),
      session)
  else match nextSeal hashing stage session.tree with
  | .error refusal => (.error (.refused refusal), session)
  | .ok (.reuse prior) =>
    (.ok ⟨.artifact (artifactKey stage "stage-seal" prior.artifactId), true⟩,
      { session with sealed := true })
  | .ok (.due ordinal) =>
    let attempt := hashing.attemptId stage.name "seal" ordinal
    match session.publish hashing stage (environmentDraft stage machine attempt) with
    | (.error halt, session) => (.error halt, session)
    | (.ok _, session) => session.publishSeal hashing stage ordinal attempt

end Verbatus.StageSeal
