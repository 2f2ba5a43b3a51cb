import Verbatus.RunTree.Store

namespace Verbatus.StageSeal

open Library Library.Checked Refusal RunTree

/-- `_SEAL_EXCLUDED_KINDS`: the two kinds a seal itself publishes. -/
def sealExcludedKinds : List String := ["stage-seal", "decode-environment"]

/-- `_DECODE_PATHS` -/
def decodePaths : List String := ["project-png", "pillow", "pdfium", "none"]

/-- `_STAGE_DECODE_PATHS`: the routes a stage decodes image bytes by, in order. -/
def stageDecodePaths : Stage → List String
  | .door => ["pdfium", "pillow"]
  | .exemplar | .inkMap | .designator | .attestatores | .perlector | .recensor => ["project-png"]
  | .coniector | .archetypus | .armarium => ["none"]

/-- `_DECODER_NAMES` -/
def decoderNames : List String := ["pillow", "jpeg-codec", "pillow-heif", "libheif", "pdfium"]

/-- What a machine's decoders and platform report; the version of a decoder is never blank. -/
structure Machine where
  pillow : String
  jpegCodec : Option String
  libjpegTurbo : Option String
  pillowHeif : String
  libheif : String
  pdfium : String
  platform : String
  machine : String
  named : ∀ version ∈ [pillow, pillowHeif, libheif, pdfium], version ≠ ""

/-- `_decode_environment` -/
def decodeEnvironment (stage : Stage) (machine : Machine) : DecodeEnvironment where
  decoders := [⟨"pillow", machine.pillow⟩,
    ⟨"jpeg-codec", machine.jpegCodec.getD "unavailable" ++ ";libjpeg-turbo=" ++
      machine.libjpegTurbo.getD "None"⟩,
    ⟨"pillow-heif", machine.pillowHeif⟩, ⟨"libheif", machine.libheif⟩,
    ⟨"pdfium", machine.pdfium⟩]
  platform := machine.platform
  machine := machine.machine
  decodePathsUsed := stageDecodePaths stage
  producedPixels := stageDecodePaths stage ≠ ["none"]

/-- `_validate_decode_environment` -/
def validateDecodeEnvironment (payload : Payload) (owner : String) : Except Refusal Unit := do
  let .environment value := payload
    | .error (.schemaRefusal (owner ++ " decode-environment does not have the closed field set"))
  require (∀ decoder ∈ value.decoders, decoder.version ≠ "")
    (.schemaRefusal (owner ++ " decode-environment has a malformed decoder list"))
  let names := value.decoders.map Decoder.name
  require (names.Nodup ∧ names ⊆ decoderNames ∧ decoderNames ⊆ names)
    (.schemaRefusal (owner ++ " decode-environment does not name each decoder exactly once"))
  require (value.decodePathsUsed = sortedSet value.decodePathsUsed ∧
      value.decodePathsUsed ⊆ decodePaths)
    (.schemaRefusal (owner ++ " decode-environment has malformed decode_paths_used"))

/-- Every environment a stage records passes the check its reader makes. -/
theorem validateDecodeEnvironment_machine (stage : Stage) (machine : Machine) (owner : String) :
    validateDecodeEnvironment (.environment (decodeEnvironment stage machine)) owner = .ok () := by
  refine require_bind_eq_ok.mpr ⟨?_, require_bind_eq_ok.mpr ⟨?_, require_eq_ok.mpr ?_⟩⟩
  · have named := machine.named
    have joined : machine.jpegCodec.getD "unavailable" ++ ";libjpeg-turbo=" ++
        machine.libjpegTurbo.getD "None" ≠ "" := by
      intro blank
      have length := congrArg String.length blank
      simp at length
    simp only [decodeEnvironment, List.forall_mem_cons] at named ⊢
    obtain ⟨pillow, pillowHeif, libheif, pdfium, _⟩ := named
    exact ⟨pillow, joined, pillowHeif, libheif, pdfium, by simp⟩
  · exact (by decide : decoderNames.Nodup ∧ decoderNames ⊆ decoderNames ∧
      decoderNames ⊆ decoderNames)
  · have routes : ∀ stage, stageDecodePaths stage = sortedSet (stageDecodePaths stage) ∧
        stageDecodePaths stage ⊆ decodePaths := by
      intro stage
      cases stage <;> decide
    exact routes stage

variable (hashing : Hashing)

/-- `_manifest_artifact`: the bytes one manifest snapshot witnessed. -/
def manifestArtifact (tree : Tree) (stage : Stage) (entry : ManifestEntry) :
    Except Refusal Envelope := do
  let record ← tree.readArtifact hashing stage entry.kind entry.artifactId
  require (hashing.envelope record = entry.sha256) (.schemaRefusal
    (s!"{stage.name} artifact {quote entry.artifactId} changed between its manifest snapshot and " ++
    "use; a completion seal cannot authorize replacement bytes"))
  return record

/-- `_stage_records` -/
def stageRecords (tree : Tree) (stage : Stage) (kind : String)
    (manifest : Option (List ManifestEntry)) : Except Refusal (List Envelope) := do
  let snapshot ← manifest.elim (tree.buildManifest hashing stage false) .ok
  (snapshot.filter (·.kind = kind)).mapM (manifestArtifact hashing tree stage)

/-- `_refuse_deleted_seal`: every seal the stored manifest names must be present. -/
def refuseDeletedSeal (tree : Tree) (stage : Stage) (present : List String) :
    Except Refusal Unit :=
  match tree.manifest with
  | none => .ok ()
  | some .unreadable =>
    .error (.schemaRefusal s!"stored {stage.name} manifest cannot establish its prior seal")
  | some (.inventory producer artifacts) => do
    require (producer = stage) (.schemaRefusal
      (s!"stored {stage.name} manifest names producer {quote producer.name}; " ++
      "a sibling inventory cannot establish which completion seals existed"))
    let named := (artifacts.filter (·.kind = "stage-seal")).map ManifestEntry.artifactId
    let missing := sortedSet (named.filter (· ∉ present))
    require (missing = []) (.schemaRefusal
      (s!"{stage.name} stage-seal(s) {quote missing} are missing although its stored inventory " ++
      "names them; a completion seal is witnessed evidence and is never re-derived"))

section Attempts

/-- The ordinal an artifact's payload gives its attempt. -/
def attemptOrdinal? : Payload → Option ℤ
  | .seal payload => some payload.attemptOrdinal
  | .environment _ => none
  | .record _ => none

/-- The loop of `attempt_ordinals`. -/
def collectOrdinals (what operation : String) : List Envelope → List (ℤ × Envelope) →
    Except Refusal (List (ℤ × Envelope))
  | [], ordinals => .ok ordinals
  | record :: records, ordinals =>
    match attemptOrdinal? record.payload with
    | none => .error (.fatalAccounting
        (s!"a {what} artifact carries no attempt ordinal, so which attempt is current cannot be " ++
        "derived. A guess here silently picks a stale record"))
    | some ordinal =>
      if ordinal ∈ ordinals.map Prod.fst then .error (.fatalAccounting
        (s!"{what} carries duplicate attempt ordinal {ordinal}; a tie is not a latest attempt " ++
        "and may not be selected"))
      else if record.attemptId = some (hashing.attemptId record.subjectId operation ordinal) then
        collectOrdinals what operation records (ordinals ++ [(ordinal, record)])
      else .error (.fatalAccounting
        (s!"a {what} artifact claims attempt ordinal {ordinal} in its payload but its sealed " ++
        s!"attempt identity {quote record.attemptId} does not derive from " ++
        s!"({quote record.subjectId}, {quote operation}, {ordinal})"))

/-- `attempt_ordinals`: the records by attempt ordinal, which must run 1..N without a gap. -/
def attemptOrdinals (records : List Envelope) (what operation : String) :
    Except Refusal (List (ℤ × Envelope)) := do
  require (records ≠ []) (.fatalAccounting s!"no {what} to derive a current outcome from")
  let ordinals ← collectOrdinals hashing what operation records []
  let present := sortBy id (ordinals.map Prod.fst)
  require (present = (List.range ordinals.length).map fun index : ℕ => (index : ℤ) + 1)
    (.fatalAccounting (s!"{what} carries attempt ordinals {quote present}, which is not the " ++
      "contiguous run 1.. that append-only attempts produce; a gap is an attempt that is no " ++
      "longer here, and nothing is lost silently"))
  return ordinals

/-- `latest_attempt`: the record of the greatest ordinal. -/
def latestAttempt (records : List Envelope) (what operation : String) : Except Refusal Envelope := do
  let ordinals ← attemptOrdinals hashing records what operation
  match (ordinals.map Prod.fst).max?.bind fun last => ordinals.lookup last with
  | none => .error (.fatalAccounting s!"no {what} to derive a current outcome from")
  | some record => return record

end Attempts

/-- `_stage_blob_inventory`: every blob of the stage's directory, its name its own digest. -/
def stageBlobInventory (tree : Tree) (stage : Stage) : Except Refusal (List BlobEntry) :=
  let files := sortBy (fun file => file.1.name)
    (tree.blobs.items.filter (·.1.directory = stage.writingDirectory))
  files.mapM fun file => do
    let observed := hashing.bytes file.2
    require (observed = file.1.name) (.schemaRefusal
      (s!"{stage.name} blob {quote file.1.name} contains digest {observed}, not the digest in " ++
      "its name"))
    return ⟨file.1.name, observed⟩

/-- The census of an inventory: how many artifacts each kind has of each outcome. -/
def census (artifacts : List ManifestEntry) : List CensusRow :=
  let keys := sortedSet (artifacts.map fun entry => toLex (entry.kind, entry.outcome))
  keys.map fun key => ⟨(ofLex key).1, (ofLex key).2,
    artifacts.countP fun entry => (entry.kind, entry.outcome) = ofLex key⟩

/-- `_stage_seal_payload` -/
def stageSealPayload (tree : Tree) (stage : Stage) (ordinal : ℤ) (attempt : String)
    (manifest : Option (List ManifestEntry)) : Except Refusal SealPayload := do
  let manifest ← manifest.elim (tree.buildManifest hashing stage true) .ok
  let artifacts := manifest.filter (·.kind ∉ sealExcludedKinds)
  let blobs ← stageBlobInventory hashing tree stage
  let environmentId := hashing.artifactId stage "decode-environment" stage.name (some attempt)
  let environmentPath := RelativePath.artifact (artifactKey stage "decode-environment" environmentId)
  match tree.readDigest hashing environmentPath with
  | none => .error (.schemaRefusal
      (s!"{stage.name} cannot seal its boundary: decode-environment {quote environmentId} is " ++
      "unreadable"))
  | some environmentSha256 =>
    return {
      stage := stage
      attemptOrdinal := ordinal
      attemptId := attempt
      configDigest := tree.run.configDigest
      registerDigest := tree.run.registerDigest
      artifactInventory := hashing.artifacts artifacts
      blobInventory := hashing.blobs blobs
      census := census artifacts
      decodeEnvironmentArtifactId := environmentId
      decodeEnvironmentSha256 := environmentSha256 }

section Verify

/-- `_verify_stage_seal`: the latest seal is of the inventory that is on disk. -/
def verifyStageSeal (tree : Tree) (producer : Stage) (reader role : String)
    (manifest : Option (List ManifestEntry)) : Except Refusal Unit := do
  let seals ← stageRecords hashing tree producer "stage-seal" manifest
  require (seals ≠ []) (.schemaRefusal (s!"{reader} refuses: {role} {producer.name} has no " ++
    "stage-seal; a missing witnessed statement is never re-derived"))
  refuseDeletedSeal tree producer (seals.map Envelope.artifactId)
  let latest ← latestAttempt hashing seals s!"{producer.name} stage seal" "seal"
  let refused := fun reason => Refusal.schemaRefusal
    (reader ++ " refuses " ++ producer.name ++ " stage-seal: " ++ reason)
  let .seal payload := latest.payload
    | .error (refused "wrong decode environment name")
  let expectedId := hashing.artifactId producer "decode-environment" producer.name latest.attemptId
  require (payload.decodeEnvironmentArtifactId = expectedId)
    (refused "wrong decode environment name")
  require (payload.configDigest = tree.run.configDigest)
    (refused "config_digest differs from run authority")
  require (payload.registerDigest = tree.run.registerDigest)
    (refused "register_digest differs from run authority")
  let environment ← (tree.readArtifact hashing producer "decode-environment" expectedId).mapError
    fun _ => refused "its decode-environment is missing or damaged"
  validateDecodeEnvironment environment.payload s!"{producer.name} stored"
  require (payload.decodeEnvironmentSha256 = hashing.envelope environment)
    (refused "its decode-environment digest differs from the witnessed bytes")
  let expected ← (stageSealPayload hashing tree producer payload.attemptOrdinal
      (latest.attemptId.getD "None") manifest).mapError fun error =>
    refused ("its named inventory no longer matches disk: " ++ error.message)
  require (payload = expected) (refused "its named inventory no longer matches disk")

end Verify

section Advance

/-- `current_stage_seal`: the latest stored seal and the digest of its bytes. -/
def currentStageSeal (tree : Tree) (stage : Stage) : Except Refusal (Option (Envelope × String)) := do
  let manifest ← tree.buildManifest hashing stage false
  let seals ← (manifest.filter (·.kind = "stage-seal")).mapM fun entry =>
    tree.readArtifact hashing stage "stage-seal" entry.artifactId
  if seals = [] then return none
  let latest ← latestAttempt hashing seals s!"{stage.name} stage seal" "seal"
  let path := RelativePath.artifact (artifactKey stage "stage-seal" latest.artifactId)
  match tree.readDigest hashing path with
  | none => .error (.schemaRefusal s!"{path.text} could not be read")
  | some digest => return some (latest, digest)

/-- `ADVANCE_ACTION` -/
def advanceAction : String := "advance"

/-- `ADVANCE_SUBJECT_PREFIX` -/
def advanceSubjectPrefix : String := "stage-boundary:"

/-- Whether an advance record passes a boundary whose seal has the given digest. -/
def AdvancePasses (record : AdvanceRecord) (stage : Stage) (digest : String) : Prop :=
  record.action = advanceAction ∧ record.subjectIds = [advanceSubjectPrefix ++ stage.name] ∧
    record.targetVersionHash = digest

instance (record : AdvanceRecord) (stage : Stage) (digest : String) :
    Decidable (AdvancePasses record stage digest) := inferInstanceAs (Decidable (_ ∧ _ ∧ _))

/-- `boundary_advanced` -/
def boundaryAdvanced (tree : Tree) (stage : Stage) : Except Refusal Bool := do
  match ← currentStageSeal hashing tree stage with
  | none => return false
  | some (_, digest) => return tree.approvalRecords.any (AdvancePasses · stage digest)

end Advance

end Verbatus.StageSeal
