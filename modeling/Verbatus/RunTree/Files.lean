import Mathlib
import Verbatus.Contracts.Records
import Verbatus.RunTree.Paths

namespace Verbatus.RunTree

open Library Library.Checked Refusal Python CodePoint Canonical
open Identities (str)

/-- The files of one run by their paths. -/
abbrev Files := Mapping String ByteArray

/-- A JSON tree as a Python program holds one. -/
structure Record where
  json : JsonValue
  keyed : Keyed json

/-- A dict of JSON trees. -/
structure Dict where
  fields : List (Str × JsonValue)
  keyed : Keyed (.object fields)

/-- A dict of texts. -/
structure TextDict where
  items : List (String × String)
  distinct : (items.map Prod.fst).Nodup

/-- A file an artifact was made from, and the digest its bytes had. -/
structure CitedInput where
  relativePath : String
  sha256 : String
  deriving DecidableEq

/-- What the store reads of a valid envelope. -/
structure EnvelopeFields where
  stage : Stage
  kind : String
  artifactId : String
  runId : String
  configDigest : String
  inputs : List CitedInput
  deriving DecidableEq

/-- What the store is told by the modules it calls, and by the host it runs on. -/
structure StoreRules where
  digestBytes : ByteArray → String
  integerDigits : ℕ
  digitsFloor : 640 ≤ integerDigits
  parseIngress : Record → Except Refusal Unit
  readRegister : ByteArray → Except Refusal Unit
  emptyRegister : ByteArray
  envelopeFields : Record → Except Refusal EnvelopeFields
  receiptRecord : Record → Except Refusal Record
  approvalRecord : Record → Except Refusal Record
  importsOf : List (Str × JsonValue) → Except Refusal (Option String × List Stage)
  derivedBytes : Derived → Files → Record → Except Refusal ByteArray

def maxRecordReadBytes : ℕ := 64 * 1024 * 1024

def maxTreeReadBytes : ℕ := 192 * 1024 * 1024

def maxRegisterBytes : ℕ := 64 * 1024 * 1024

def schemaLabel : String := "skeleton.v1"

def sealMethod : String := "toml-sorted-json.v1"

def sealMethodField : String := "sealed_config_method"

/-- The facts a run id is bound to. -/
def boundFields : List String := ["source_manifest", "config_digest", "adapter_recipes",
  "witness_chairs", "corpus_frame_membership", "register_digest", "register_required"]

/-- The facts a run id is bound to where either side names them. -/
def optionalBoundFields : List String := ["ingress", "render_settings", "sealed_config_digests",
  sealMethodField, "replay"]

/-- What a run is opened with. -/
structure CreateArguments where
  sourceManifest : List Dict
  configDigest : String
  adapterRecipes : TextDict
  witnessChairs : List String
  registerBytes : Option ByteArray
  ingress : Option Record
  renderSettings : Option Dict
  sealedConfigDigests : Option TextDict
  repositoryCommit : Option String

section Authority

variable (rules : StoreRules)

def jsonText (text : String) : JsonValue := .str (str text)

def jsonTexts (items : List (String × String)) : JsonValue :=
  .object (items.map fun item => (str item.1, jsonText item.2))

def ordinal? (page : Dict) : Option ℤ :=
  match field? "ordinal" page.fields with
  | some (.int ordinal) => some ordinal
  | _ => none

/-- The lowercase hexadecimal text of a length. -/
def isLowerHexText (length : ℕ) (text : Str) : Bool :=
  text.length = length && text.all fun point => point.scalar?.any isLowerHexDigit

/-- The inspected digest of a page, or the declared one. -/
def frameRow (page : Dict) : Except Refusal JsonValue :=
  let declared := field? "sha256" page.fields
  let computed := match field? "computed_sha256" page.fields with
    | none | some .null => declared
    | some found => some found
  match computed with
  | some (.str digest) => do
    require (isLowerHexText 64 digest) (.schemaRefusal ("corpus frame membership needs an " ++
      "inspected or declared sha256 for every source page"))
    .ok (.object [(str "ordinal", ((ordinal? page).map JsonValue.int).getD .null),
      (str "sha256", .str digest)])
  | _ => .error (.schemaRefusal ("corpus frame membership needs an inspected or declared sha256 " ++
      "for every source page"))

def recordDigest (record : JsonValue) : Except Refusal String :=
  (recordBytes record).map rules.digestBytes

/-- The frame the pages of a manifest make up. -/
def frameMembership (manifest : List Dict) : Except Refusal JsonValue := do
  let rows ← manifest.mapM frameRow
  let pages := JsonValue.list rows
  let pageDigest ← recordDigest rules pages
  let frameDigest ← recordDigest rules (.object [(str "pages", pages)])
  let seed ← recordDigest rules (.object
    [(str "page_digest", jsonText pageDigest), (str "purpose", jsonText "frame")])
  require (isSha256 frameDigest ∧ isSha256 pageDigest ∧ isSha256 seed)
    (.schemaRefusal "corpus_frame_membership is not of sha256 digests")
  .ok (jsonTexts [("frame_digest", frameDigest), ("page_digest", pageDigest), ("seed", seed)])

/-- The ordinal of every source page, each at least one and no two the same. -/
def checkOrdinals (manifest : List Dict) : Except Refusal Unit := do
  let ordinals := manifest.map ordinal?
  require (none ∉ ordinals) (.schemaRefusal ("every source page must declare an integer ordinal: " ++
    "a run cannot account for pages it cannot count"))
  let nonPositive := sortedSet ((ordinals.filterMap id).filter (· < 1))
  require (nonPositive = []) (.schemaRefusal
    (s!"source pages declare ordinal(s) {quote nonPositive}; a source page ordinal is its " ++
      "position in the submission and is counted from one, so a run cannot say which page a " ++
      "value below it names"))
  require ordinals.Nodup (.schemaRefusal ("source pages declare ordinal(s) more than once; an " ++
    "ordinal names one page, so a repeat leaves the run unable to say how many pages it was given"))

def settingsField : Option Dict → Except Refusal (List (String × JsonValue))
  | none => .ok []
  | some settings => do
    require (settings.fields ≠ [])
      (.schemaRefusal "run render_settings must be a non-empty object when supplied")
    .ok [("render_settings", .object settings.fields)]

def digestFields : Option TextDict → Except Refusal (List (String × JsonValue))
  | none => .ok []
  | some digests => do
    require (digests.items ≠ [])
      (.schemaRefusal "run sealed_config_digests must be a non-empty object when supplied")
    require (∀ item ∈ digests.items, item.1 ≠ "" ∧ isSha256 item.2)
      (.schemaRefusal ("every sealed configuration digest must be a lowercase sha256 recorded " ++
        "under a named policy; an unnamed or malformed one names nothing a point of use could " ++
        "ask for"))
    .ok [("sealed_config_digests", jsonTexts (sortBy Prod.fst digests.items)),
      (sealMethodField, jsonText sealMethod)]

def commitField : Option String → Except Refusal (List (String × JsonValue))
  | none => .ok []
  | some commit => do
    require (commit.length = 40 ∧ commit.toList.all isLowerHexDigit)
      (.schemaRefusal ("a run's repository_commit must be forty lowercase hexadecimal " ++
        "characters; a short or decorated revision names a commit only against the repository " ++
        "that resolved it, which a fetched tree no longer has"))
    .ok [("repository_commit", jsonText commit)]

def ingressField : Option Record → List (String × JsonValue)
  | none => []
  | some ingress => [("ingress", ingress.json)]

/-- The fields a caller may leave out of a run's authority. -/
def optionalFields (arguments : CreateArguments) : Except Refusal (List (String × JsonValue)) := do
  let settings ← settingsField arguments.renderSettings
  let digests ← digestFields arguments.sealedConfigDigests
  let commit ← commitField arguments.repositoryCommit
  .ok (ingressField arguments.ingress ++ settings ++ digests ++ commit)

def checkIngress (rules : StoreRules) : Option Record → Except Refusal Unit
  | none => .ok ()
  | some ingress => rules.parseIngress ingress

def snapshotOf (arguments : CreateArguments) : ByteArray :=
  arguments.registerBytes.getD rules.emptyRegister

/-- The checks `create` makes of its arguments, and the fields of the authority they make. -/
def authorityFields (runId : String) (arguments : CreateArguments) :
    Except Refusal (List (String × JsonValue)) := do
  require (isSha256 arguments.configDigest) (.schemaRefusal ("a run's config_digest must be a " ++
    "lowercase sha256; every artifact is bound to the run through it, so any other value leaves " ++
    "nothing readable"))
  checkIngress rules arguments.ingress
  require ("" ∉ arguments.witnessChairs ∧ arguments.witnessChairs.Nodup)
    (.schemaRefusal "witness_chairs must be a list of distinct, non-empty chair names")
  let snapshot := snapshotOf rules arguments
  require (snapshot.size ≤ maxRegisterBytes) (.schemaRefusal (s!"corpus register is " ++
    s!"{snapshot.size} bytes, past the {maxRegisterBytes}-byte validation bound"))
  rules.readRegister snapshot
  checkOrdinals arguments.sourceManifest
  let manifest := sortBy (fun page : Dict => (ordinal? page).getD 0) arguments.sourceManifest
  let membership ← frameMembership rules manifest
  let optional ← optionalFields arguments
  .ok ([("schema", jsonText schemaLabel),
    ("run_id", jsonText runId),
    ("source_manifest", .list (manifest.map fun page => .object page.fields)),
    ("config_digest", jsonText arguments.configDigest),
    ("adapter_recipes", jsonTexts (sortBy Prod.fst arguments.adapterRecipes.items)),
    ("witness_chairs", .list ((sortBy id arguments.witnessChairs).map jsonText)),
    ("corpus_frame_membership", membership),
    ("register_digest", jsonText (rules.digestBytes snapshot)),
    ("register_required", .bool arguments.registerBytes.isSome)] ++ optional)

def hashText (data : ByteArray) : Str := str (rules.digestBytes data)

/-- The run authority the arguments make, with its own digest. -/
def authorityOf (runId : String) (arguments : CreateArguments) :
    Except Refusal (List (Str × JsonValue)) := do
  let fields ← authorityFields rules runId arguments
  sealRecord (hashText rules) (fields.map fun field => (str field.1, field.2))

end Authority

section Reading

variable (rules : StoreRules) (runId : String)

/-- `read_run`: the run authority, as it is stored. -/
def readRun (files : Files) : Except Refusal (List (Str × JsonValue)) := do
  match files.get? runFile with
  | none => .error (.incompatibleReuse
      s!"no {runFile} under the run: there is no run here to read")
  | some data => do
    require (data.size ≤ maxRecordReadBytes) (.schemaRefusal (s!"{runFile} is {data.size} bytes, " ++
      s!"above the {maxRecordReadBytes}-byte tree read limit"))
    match loadsBytes rules.integerDigits data with
    | some (.object fields) => do
      require (recordVerifies (hashText rules) fields) (.incompatibleReuse
        (runFile ++ " fails its own self-hash: the run authority was edited after it was sealed"))
      require (field? "schema" fields = some (jsonText schemaLabel)) (.incompatibleReuse
        s!"{runFile} declares another schema than {schemaLabel}")
      require (field? "run_id" fields = some (jsonText runId)) (.incompatibleReuse
        s!"{runFile} belongs to another run than {quote runId}")
      .ok fields
    | some _ => .error (.incompatibleReuse (runFile ++ " is not a JSON object"))
    | none => .error (.schemaRefusal (runFile ++ " could not be read as an artifact"))

/-- `path.split("/")` -/
def segments : List Char → List (List Char)
  | [] => [[]]
  | character :: characters =>
    if character = '/' then [] :: segments characters
    else match segments characters with
      | [] => [[character]]
      | first :: rest => (character :: first) :: rest

/-- What `resolve` asks of a path's text. -/
def staysInside (relative : String) : Bool :=
  relative.toList.head? ≠ some '/' && (segments relative.toList).all (· ≠ ['.', '.'])

/-- `read_verified` through `read_bytes`. -/
def readVerified (files : Files) (relative sha256 : String) (what : String) :
    Except Refusal ByteArray := do
  require (staysInside relative) (.schemaRefusal s!"{quote relative} escapes the run tree")
  match files.get? relative with
  | none => .error (.schemaRefusal s!"{what} {relative} could not be read")
  | some data => do
    require (data.size ≤ maxTreeReadBytes) (.schemaRefusal (s!"{relative} is {data.size} bytes, " ++
      s!"above the {maxTreeReadBytes}-byte tree read limit"))
    require (rules.digestBytes data = sha256) (.schemaRefusal (s!"{what} {relative} hashes to " ++
      s!"{rules.digestBytes data}, not the {sha256} its reference claims"))
    .ok data

/-- Whether a field of a stored authority is the one a caller would record. -/
def agrees (existing authority : List (Str × JsonValue)) (field : String) : Bool :=
  match field? field existing with
  | none => false
  | some value => pythonEqual value ((field? field authority).getD .null)

/-- The fields in which a stored authority is bound to another run than the caller's. -/
def differingFields (existing authority : List (Str × JsonValue)) : List String :=
  let optional := optionalBoundFields.filter fun field =>
    (field? field authority).isSome || (field? field existing).isSome
  (boundFields ++ optional).filter fun field => !agrees existing authority field

/-- `_verify_compatible_reuse` -/
def verifyCompatibleReuse (files : Files) (authority : List (Str × JsonValue)) :
    Except Refusal Unit := do
  let existing ← readRun rules runId files
  require ((field? "sealed_config_digests" existing).isSome →
      field? sealMethodField existing = some (jsonText sealMethod))
    (.incompatibleReuse (s!"run {quote runId} sealed its configurations by another method and " ++
      s!"this code seals by {quote sealMethod}"))
  require (differingFields existing authority = []) (.incompatibleReuse
    (s!"run {quote runId} already exists and is bound to different " ++
      ", ".intercalate (differingFields existing authority) ++
      "; a run id names one set of inputs and one configuration, so this is a different run " ++
      "wearing an old name. Nothing was written"))

/-- `_verify_register_snapshot_present` -/
def verifySnapshotPresent (files : Files) (digest : String) : Except Refusal Unit := do
  let path ← blobPath .door digest
  let _ ← readVerified rules files path digest "run.json's sealed corpus-register snapshot"
  .ok ()

/-- `_run_authority`: the sealed configuration digest. -/
def runAuthority (files : Files) : Except Refusal String := do
  let fields ← readRun rules runId files
  match field? "config_digest" fields with
  | some (.str digest) => do
    require (isLowerHexText 64 digest) (.incompatibleReuse ("run.json has no lowercase sha256 " ++
      "config_digest, so no artifact in this tree can be bound to its run authority"))
    .ok (String.ofList (digest.filterMap scalar?))
  | _ => .error (.incompatibleReuse ("run.json has no lowercase sha256 config_digest, so no " ++
      "artifact in this tree can be bound to its run authority"))

/-- Whether a record of a stage that names a run belongs to this one. -/
def holdsRunId (files : Files) (named : String) (stage : Stage) : Except Refusal Bool :=
  if named = runId then .ok true else do
    let fields ← readRun rules runId files
    let (source, imported) ← rules.importsOf fields
    .ok (source = some named && stage ∈ imported)

/-- `_verify_artifact_run` -/
def verifyArtifactRun (files : Files) (envelope : EnvelopeFields) : Except Refusal Unit := do
  let held ← holdsRunId rules runId files envelope.runId envelope.stage
  require held
    (.schemaRefusal s!"artifact belongs to run {quote envelope.runId}, not {quote runId}")
  let authority ← runAuthority rules runId files
  require (envelope.configDigest = authority) (.schemaRefusal
    (s!"artifact was produced under configuration {quote envelope.configDigest} and this run is " ++
      s!"bound to {quote authority}; two runs may share a name, so the name alone does not say " ++
      "an artifact belongs here"))

/-- `_verify_artifact_inputs` -/
def verifyArtifactInputs (files : Files) (envelope : EnvelopeFields) : Except Refusal Unit :=
  envelope.inputs.forM fun input => do
    let _ ← readVerified rules files input.relativePath input.sha256 "artifact input"
    .ok ()

end Reading

/-- What is published once, under an identity of its own. -/
inductive Publication where
  | artifact (envelope : Record)
  | blob (stage : Stage) (data : ByteArray)
  | runReceipt (receipt : Record)
  | approval (record : Record)
  | auditNote (stage : Stage) (digest : String)

section Writing

variable (rules : StoreRules) (runId : String)

/-- `_publish_bytes`: whether the file was there already. -/
def publishBytes (files : Files) (relative : String) (data : ByteArray) :
    Except Refusal (Files × Bool) := do
  requireInventoryPath relative
  match files.get? relative with
  | none => .ok (files.set relative data, false)
  | some existing => do
    require (existing = data) (.incompatibleReuse (relative ++ " already holds different bytes. " ++
      "Artifacts are immutable: the same identity may not describe two different things, and the " ++
      "existing file was not touched"))
    .ok (files, true)

/-- Where a publication goes, and the bytes it puts there. -/
def target : Publication → Except Refusal (String × ByteArray)
  | .artifact envelope => do
    let fields ← rules.envelopeFields envelope
    let relative ← artifactPath fields.stage fields.kind fields.artifactId
    let data ← recordBytes envelope.json
    .ok (relative, data)
  | .blob stage data => do
    let relative ← blobPath stage (rules.digestBytes data)
    .ok (relative, data)
  | .runReceipt receipt => do
    let record ← rules.receiptRecord receipt
    let data ← recordBytes record.json
    let relative ← receiptPath (rules.digestBytes data)
    .ok (relative, data)
  | .approval record => do
    let validated ← rules.approvalRecord record
    let data ← recordBytes validated.json
    let relative ← receiptPath (rules.digestBytes data)
    .ok (relative, data)
  | .auditNote stage digest => do
    let relative ← auditNotePath stage digest
    .ok (relative, .empty)

/-- What a publication checks of the tree before it writes. -/
def checkPublication (files : Files) : Publication → Except Refusal Unit
  | .artifact envelope => do
    let fields ← rules.envelopeFields envelope
    verifyArtifactRun rules runId files fields
    verifyArtifactInputs rules files fields
  | _ => .ok ()

def publish (files : Files) (publication : Publication) : Except Refusal (Files × Bool) := do
  checkPublication rules runId files publication
  let (relative, data) ← target rules publication
  publishBytes files relative data

/-- Whether another producer writes into a stage's directory. -/
def directoryShared (stage : Stage) : Bool :=
  1 < stages.countP fun other => other.writingDirectory = stage.writingDirectory

/-- One index file cannot account for two producers. -/
def checkDirectory : Derived → Except Refusal Unit
  | .index stage => require (¬ directoryShared stage) (.schemaRefusal
      (s!"stage {quote stage.name} shares run-tree directory {quote stage.writingDirectory} with " ++
        "another producer, so one index file cannot account for both; give the index a " ++
        "stage-qualified name before either stage writes one"))
  | _ => .ok ()

/-- A derived file, written anew in place; a summary that stands already is left as it is. -/
def writeDerived (files : Files) (derived : Derived) (record : Record) :
    Except Refusal (Files × Bool) := do
  let _ ← runAuthority rules runId files
  checkDirectory derived
  let data ← rules.derivedBytes derived files record
  if derived ∈ [.reviewSummary, .routingSummary] ∧ files.get? derived.path = some data then
    .ok (files, true)
  else
    requireInventoryPath derived.path
    .ok (files.set derived.path data, false)

/-- `RunTree.create`: whether the run was there already. -/
def create (files : Files) (arguments : CreateArguments) : Except Refusal (Files × Bool) := do
  let authority ← authorityOf rules runId arguments
  let snapshot := snapshotOf rules arguments
  if (files.get? runFile).isSome then
    verifyCompatibleReuse rules runId files authority
    verifySnapshotPresent rules files (rules.digestBytes snapshot)
    .ok (files, true)
  else
    let relative ← blobPath .door (rules.digestBytes snapshot)
    let (stored, _) ← publishBytes files relative snapshot
    let data ← recordBytes (.object authority)
    .ok (stored.set runFile data, false)

/-- One operation on a run. -/
inductive Operation where
  | create (arguments : CreateArguments)
  | publish (publication : Publication)
  | writeDerived (derived : Derived) (record : Record)

/-- An operation's files and whether it reused what was there; a refused one leaves every file. -/
def perform (files : Files) : Operation → Except Refusal (Files × Bool)
  | .create arguments => create rules runId files arguments
  | .publish publication => publish rules runId files publication
  | .writeDerived derived record => writeDerived rules runId files derived record

/-- The files after an operation, done or refused. -/
def after (files : Files) (operation : Operation) : Files :=
  match perform rules runId files operation with
  | .ok (changed, _) => changed
  | .error _ => files

end Writing

end Verbatus.RunTree
