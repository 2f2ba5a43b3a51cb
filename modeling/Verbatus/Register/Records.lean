import Mathlib
import Verbatus.Contracts.Dicts
import Verbatus.Library.Calls

namespace Verbatus.Register

open Library Library.Checked Refusal Python CodePoint Canonical
open Identities (str IdentityKind isWellFormed)

/-- What the register is told by its host: its digest, its bound on the digits of an integer, and
the identities its records name, each of the bindings beside it. -/
structure RegisterRules where
  sha256 : ByteArray → Str
  limit : ℕ
  host : 640 ≤ limit
  physicalPageId : JsonValue → JsonValue → JsonValue → Except Refusal Str
  physicalActId : JsonValue → JsonValue → Except Refusal Str
  actId : JsonValue → JsonValue → JsonValue → Except Refusal Str

def registerSchema : String := "corpus-register-v1"

def maxRegisterBytes : ℕ := 64 * 1024 * 1024

def maxRegisterRecords : ℕ := 100000

def maxRecordListItems : ℕ := 100000

/-- `_FORBIDDEN_PREFERENCE_FIELDS` -/
def forbiddenPreferenceFields : List String := ["primary", "canonical", "best", "better",
  "preferred", "superseded_by", "winner", "selected", "chosen", "consensus", "majority", "vote",
  "quorum"]

section Shapes

/-- `walk_dicts` -/
def walkDicts : JsonValue → List (List (Str × JsonValue))
  | .object fields => fields :: walkFields fields
  | .list items => walkItems items
  | _ => []
where
  walkItems : List JsonValue → List (List (Str × JsonValue))
    | [] => []
    | item :: items => walkItems items ++ walkDicts item
  walkFields : List (Str × JsonValue) → List (List (Str × JsonValue))
    | [] => []
    | (_, item) :: fields => walkFields fields ++ walkDicts item

/-- The preference a dict claims. -/
def preferences (fields : List (Str × JsonValue)) : List String :=
  forbiddenPreferenceFields.filter fun name => decide (str name ∈ fields.map Prod.fst)

/-- `refuse_capture_preference` -/
def refuseCapturePreference (value : JsonValue) : Except Refusal Unit :=
  match (walkDicts value).find? fun fields => !(preferences fields).isEmpty with
  | some fields => .error (.schemaRefusal ("corpus register may not express capture preference: " ++
      ", ".intercalate ((sortedSet (preferences fields)).map quote)))
  | none => .ok ()

/-- `_closed` -/
def closed (record : List (Str × JsonValue)) (names : List String) (what : String) :
    Except Refusal Unit :=
  require (hasExactly names record = true) (.schemaRefusal (what ++ " must be the closed record " ++
    ", ".intercalate ((sortedSet names).map quote)))

/-- The texts of a list that holds nothing else. -/
def textsOf : JsonValue → Option (List Str)
  | .list items => items.mapM fun item => match item with
    | .str text => some text
    | _ => none
  | _ => none

/-- `_digests` -/
def digests (value : JsonValue) (what : String) : Except Refusal (List Str) :=
  match textsOf value with
  | some members => do
    require (members.length ≤ maxRecordListItems ∧ members = sortedSet members ∧
        members.all isSha256 = true)
      (.schemaRefusal (what ++ " must be sorted unique source digests"))
    .ok members
  | none => .error (.schemaRefusal (what ++ " must be sorted unique source digests"))

/-- `_identity` -/
def requireIdentity (value : JsonValue) (kind : IdentityKind) (what : String) :
    Except Refusal Unit :=
  match value with
  | .str text =>
    require (isWellFormed text = true ∧ (str (kind.mark ++ "_")).isPrefixOf text = true)
      (.schemaRefusal s!"{what} must be a well-formed {kind.mark}_ identity")
  | _ => .error (.schemaRefusal s!"{what} must be a well-formed {kind.mark}_ identity")

/-- `_evidence` -/
def evidence (value : JsonValue) (what : String) : Except Refusal Unit :=
  match value with
  | .list items =>
    require (items ≠ [] ∧ items.length ≤ maxRecordListItems ∧ items.all isText = true)
      (.schemaRefusal (what ++ " must name one or more evidence records"))
  | _ => .error (.schemaRefusal (what ++ " must name one or more evidence records"))

/-- `_require_declared` of a value that is a text, and the text. -/
def requireDeclared (value : JsonValue) (declared : List Str) (what : String) :
    Except Refusal Str :=
  match value with
  | .str identity => do
    require (identity ∈ declared) (.schemaRefusal
      s!"corpus register names {what} {quote (plainText identity)} before any earlier record declares it")
    .ok identity
  | _ => .error (.typeError "unhashable or foreign identity")

end Shapes

/-- A link of a page's membership chain: the digest of its record, and its members. -/
structure Link where
  digest : Str
  members : List Str
  deriving DecidableEq

/-- What replaying the records establishes, carried between record checks. -/
structure Reading where
  seen : List Str
  physicalPages : List Str
  physicalActs : List Str
  physicalActPages : Mapping Str Str
  correspondenceRecords : Mapping Str (List (Str × JsonValue))
  membershipHead : Mapping Str Link
  membershipChain : Mapping Str (List Link)
  membershipLinks : List Str
  retractedMembershipLinks : List Str

def Reading.start : Reading := ⟨[], [], [], .empty, .empty, .empty, .empty, [], []⟩

section Kinds

variable (rules : RegisterRules)

/-- `digest_of` -/
def digestOf (record : List (Str × JsonValue)) : Except Refusal Str :=
  (recordBytes (.object record)).map rules.sha256

def pageNames : List String :=
  ["kind", "corpus_id", "volume_id", "designation", "physical_page_id", "appending_run"]

def membershipNames : List String :=
  ["kind", "physical_page_id", "members", "predecessor", "appending_run"]

def physicalActNames : List String := ["kind", "physical_page_id", "mint_designation",
  "physical_act_id", "evidence", "appending_run"]

def correspondenceNames : List String := ["kind", "page_id", "act_id", "act_class", "act_bounds",
  "physical_page_id", "physical_act_id", "evidence", "appending_run"]

def retractionNames : List String := ["kind", "retracts", "reason", "appending_run"]

/-- What a record adds to a reading, beside the identity it is seen under. -/
abbrev Read := Except Refusal (Str × Reading)

/-- A physical page's declaration. -/
def readPage (record : List (Str × JsonValue)) (reading : Reading) : Read := do
  closed record pageNames "physical-page"
  let expected ← rules.physicalPageId (fieldOf "corpus_id" record) (fieldOf "volume_id" record)
    (fieldOf "designation" record)
  require (fieldOf "physical_page_id" record = .str expected)
    (.schemaRefusal "physical-page record id does not bind its declaration")
  require (isText (fieldOf "appending_run" record) = true)
    (.schemaRefusal "physical-page record names no appending run")
  .ok (expected, { reading with physicalPages := expected :: reading.physicalPages })

/-- A first link names no predecessor; a later one names the head and adds to its members. -/
def checkSuccession (page : Str) (predecessor : JsonValue) (members : List Str) (reading : Reading) :
    Except Refusal Unit :=
  match reading.membershipHead.get? page with
  | none => do
    let _ ← requireDeclared (.str page) reading.physicalPages "physical page"
    require (predecessor = .null) (.schemaRefusal
      s!"the first membership record for {quote (plainText page)} names a predecessor that is not in this register; a chain cannot start midway through itself")
  | some prior => do
    require (predecessor = .str prior.digest) (.schemaRefusal
      s!"membership record for {quote (plainText page)} does not name the digest of the membership record it succeeds; the chain is what makes growth append-only rather than an edit nobody can see")
    require (prior.members ⊆ members ∧ ¬ members ⊆ prior.members) (.schemaRefusal
      s!"membership record for {quote (plainText page)} does not add a capture to its predecessor; membership grows, and a capture already declared is never withdrawn")

/-- The page a membership record is about. -/
def membershipPage : JsonValue → Except Refusal Str
  | .str page => do
    require (page ≠ []) (.schemaRefusal "membership record names no physical page")
    .ok page
  | _ => .error (.schemaRefusal "membership record names no physical page")

/-- `_validate_membership`: the page and the link a record adds to its chain. -/
def validateMembership (record : List (Str × JsonValue)) (reading : Reading) :
    Except Refusal (Str × Link) := do
  let page ← membershipPage (fieldOf "physical_page_id" record)
  require (isText (fieldOf "appending_run" record) = true)
    (.schemaRefusal "membership record names no appending run")
  let members ← digests (fieldOf "members" record) "membership members"
  require (members ≠ []) (.schemaRefusal
    s!"membership record for {quote (plainText page)} names no capture; a record that asserts nothing cannot be retracted and cannot be told from no record at all")
  checkSuccession page (fieldOf "predecessor" record) members reading
  let digest ← digestOf rules record
  .ok (page, ⟨digest, members⟩)

/-- What is held of the chain of a page. -/
def Reading.chain (reading : Reading) (page : Str) : List Link :=
  (reading.membershipChain.get? page).getD []

/-- A reading with one more link at the head of a page's chain. -/
def Reading.linked (reading : Reading) (page : Str) (link : Link) : Reading :=
  { reading with
    membershipHead := reading.membershipHead.set page link
    membershipChain := reading.membershipChain.set page (reading.chain page ++ [link])
    membershipLinks := link.digest :: reading.membershipLinks }

def membershipMark : Str := str "membership:"

/-- One link of one physical page's append-only membership chain. -/
def readMembership (record : List (Str × JsonValue)) (reading : Reading) : Read := do
  closed record membershipNames "membership"
  let found ← validateMembership rules record reading
  .ok (membershipMark ++ found.2.digest, reading.linked found.1 found.2)

def readPhysicalAct (record : List (Str × JsonValue)) (reading : Reading) : Read := do
  closed record physicalActNames "physical-act"
  let expected ← rules.physicalActId (fieldOf "physical_page_id" record)
    (fieldOf "mint_designation" record)
  require (fieldOf "physical_act_id" record = .str expected ∧
      isText (fieldOf "appending_run" record) = true)
    (.schemaRefusal "physical-act record is malformed or does not bind its mint")
  evidence (fieldOf "evidence" record) "physical-act evidence"
  let page ← requireDeclared (fieldOf "physical_page_id" record) reading.physicalPages "physical page"
  .ok (expected, { reading with
    physicalActs := expected :: reading.physicalActs
    physicalActPages := reading.physicalActPages.set expected page })

/-- The act the bindings of a correspondence name. -/
def localAct (record : List (Str × JsonValue)) : Except Refusal Str :=
  match rules.actId (fieldOf "page_id" record) (fieldOf "act_class" record)
      (fieldOf "act_bounds" record) with
  | .ok identity => .ok identity
  | .error raised => .error (.schemaRefusal
      ("correspondence has malformed local act bindings: " ++ raised.message))

/-- `_correspondence_identity` -/
def correspondenceIdentity (act physicalAct : Str) : Str := act ++ str "->" ++ physicalAct

/-- The run a record was appended by. -/
def runOf (record : List (Str × JsonValue)) : Str :=
  match fieldOf "appending_run" record with
  | .str run => run
  | _ => []

def readCorrespondence (record : List (Str × JsonValue)) (reading : Reading) : Read := do
  closed record correspondenceNames "correspondence"
  require (isText (fieldOf "appending_run" record) = true)
    (.schemaRefusal "correspondence record is malformed")
  requireIdentity (fieldOf "page_id" record) .page "correspondence page_id"
  requireIdentity (fieldOf "act_id" record) .act "correspondence act_id"
  requireIdentity (fieldOf "physical_page_id" record) .physicalPage
    "correspondence physical_page_id"
  requireIdentity (fieldOf "physical_act_id" record) .physicalAct "correspondence physical_act_id"
  let expected ← localAct rules record
  require (fieldOf "act_id" record = .str expected) (.schemaRefusal
    "correspondence act_id does not bind the page, class, and bounds beside it")
  evidence (fieldOf "evidence" record) "correspondence evidence"
  let page ← requireDeclared (fieldOf "physical_page_id" record) reading.physicalPages "physical page"
  let act ← requireDeclared (fieldOf "physical_act_id" record) reading.physicalActs "physical act"
  require (reading.physicalActPages.get? act = some page) (.schemaRefusal
    "correspondence physical_act_id was minted for a different physical page")
  let identity := correspondenceIdentity expected act
  require (identity ∉ reading.correspondenceRecords) (.schemaRefusal
    s!"corpus register already declares correspondence {quote (plainText identity)} and no retraction has withdrawn it; declaring it twice records nothing new")
  .ok (identity ++ str "@" ++ runOf record, { reading with
    correspondenceRecords := reading.correspondenceRecords.set identity record })

/-- The page whose chain a link heads. -/
def Reading.headedBy (reading : Reading) (target : Str) : Option Str :=
  (reading.membershipHead.items.find? fun item =>
    decide (item.2.digest = target) && !(reading.chain item.1).isEmpty).map Prod.fst

/-- A reading with the head of a page's chain withdrawn. -/
def Reading.unlinked (reading : Reading) (page target : Str) : Reading :=
  let chain := (reading.chain page).dropLast
  { reading with
    membershipChain := reading.membershipChain.set page chain
    retractedMembershipLinks := target :: reading.retractedMembershipLinks
    membershipHead := match chain.getLast? with
      | some link => reading.membershipHead.set page link
      | none => reading.membershipHead.without page }

/-- `_retract_membership` -/
def retractMembership (target : Str) (reading : Reading) : Except Refusal Reading :=
  match reading.headedBy target with
  | some page => .ok (reading.unlinked page target)
  | none =>
    .error (.schemaRefusal (
      if target ∈ reading.retractedMembershipLinks then
        s!"retraction names membership link {quote (plainText target)}, which was already retracted; a retraction that corrects nothing is not a correction"
      else if target ∈ reading.membershipLinks then
        s!"retraction names membership link {quote (plainText target)}, which is not the current head of its page's chain; every successor contains the captures it declared, so withdrawing it would leave them asserted anyway. Retract from the head."
      else
        s!"retraction names membership link {quote (plainText target)}, which this register never declares; a retraction that corrects nothing is not a correction"))

/-- What a retraction withdraws: a link of a chain, or else a correspondence. -/
def withdraw (target : Str) (reading : Reading) : Except Refusal Reading :=
  if membershipMark.isPrefixOf target then
    retractMembership (target.drop membershipMark.length) reading
  else if target ∈ reading.correspondenceRecords then
    .ok { reading with correspondenceRecords := reading.correspondenceRecords.without target }
  else .error (.schemaRefusal
    s!"retraction names {quote (plainText target)}, which no earlier correspondence or membership link in this register declares; a retraction that corrects nothing is not a correction")

/-- What a retraction names. -/
def retracted (record : List (Str × JsonValue)) : Str :=
  match fieldOf "retracts" record with
  | .str target => target
  | _ => []

def readRetraction (record : List (Str × JsonValue)) (reading : Reading) : Read := do
  closed record retractionNames "retraction"
  require (isText (fieldOf "retracts" record) = true ∧ isText (fieldOf "reason" record) = true ∧
      isText (fieldOf "appending_run" record) = true)
    (.schemaRefusal "retraction record is malformed")
  let after ← withdraw (retracted record) reading
  .ok (str "retract:" ++ retracted record ++ str "@" ++ runOf record, after)

/-- The kinds of record a register holds. -/
inductive RecordKind where
  | physicalPage
  | membership
  | physicalAct
  | correspondence
  | retraction
  deriving DecidableEq

def RecordKind.text : RecordKind → String
  | physicalPage => "physical-page"
  | membership => "membership"
  | physicalAct => "physical-act"
  | correspondence => "correspondence"
  | retraction => "retraction"

def recordKinds : List RecordKind :=
  [.physicalPage, .membership, .physicalAct, .correspondence, .retraction]

def kindOf (record : List (Str × JsonValue)) : Option RecordKind :=
  recordKinds.find? fun kind => decide (field? "kind" record = some (text kind.text))
where
  text (name : String) : JsonValue := .str (str name)

def readKind (record : List (Str × JsonValue)) (reading : Reading) : Read :=
  match kindOf record with
  | some .physicalPage => readPage rules record reading
  | some .membership => readMembership rules record reading
  | some .physicalAct => readPhysicalAct rules record reading
  | some .correspondence => readCorrespondence rules record reading
  | some .retraction => readRetraction record reading
  | none => .error (.schemaRefusal "unknown corpus register record kind, or none")

/-- `_validate_record` -/
def validateRecord (reading : Reading) (record : JsonValue) : Except Refusal Reading :=
  match record with
  | .object fields => do
    let found ← readKind rules fields reading
    require (found.1 ∉ reading.seen) (.schemaRefusal
      s!"corpus register repeats immutable record {quote (plainText found.1)}")
    .ok { found.2 with seen := found.1 :: reading.seen }
  | _ => .error (.schemaRefusal "corpus register record has no kind")

/-- The reading of a list of records. -/
def replay (records : List JsonValue) : Except Refusal Reading :=
  records.foldlM (validateRecord rules) .start

end Kinds

section Register

variable (rules : RegisterRules)

def registerValue (records : List JsonValue) : JsonValue :=
  .object (named [("schema", .str (str registerSchema)), ("records", .list records)])

def emptyRegister : ByteArray := (recordBytes (registerValue [])).toOption.getD .empty

/-- The records of a register value. -/
def recordsOf (value : JsonValue) : Except Refusal (List JsonValue) :=
  match value with
  | .object fields => do
    require (hasExactly ["schema", "records"] fields = true)
      (.schemaRefusal "corpus register must be the closed {schema, records} record")
    require (fieldOf "schema" fields = .str (str registerSchema))
      (.schemaRefusal "corpus register has an unknown schema or non-list records")
    match fieldOf "records" fields with
    | .list records => .ok records
    | _ => .error (.schemaRefusal "corpus register has an unknown schema or non-list records")
  | _ => .error (.schemaRefusal "corpus register must be the closed {schema, records} record")

/-- `json.loads(data.decode("utf-8"))` -/
def parsed (data : ByteArray) : Except Refusal JsonValue :=
  match loadsBytes rules.limit data with
  | some value => .ok value
  | none => .error (.schemaRefusal "corpus register is not UTF-8 JSON")

/-- `_read`: the records of a register and what replaying them establishes. -/
def readRegister (data : ByteArray) : Except Refusal (List JsonValue × Reading) := do
  require (data.size ≤ maxRegisterBytes)
    (.schemaRefusal s!"corpus register is {data.size} bytes, past the {maxRegisterBytes}-byte validation bound")
  let value ← parsed rules data
  let records ← recordsOf value
  require (records.length ≤ maxRegisterRecords)
    (.schemaRefusal s!"corpus register has {records.length} records, past the {maxRegisterRecords}-record replay bound")
  refuseCapturePreference value
  let reading ← replay rules records
  let written ← recordBytes value
  require (written = data)
    (.schemaRefusal "corpus register must be canonical JSON before it can be snapshotted")
  .ok (records, reading)

/-- `register_digest` -/
def registerDigest (data : ByteArray) : Except Refusal Str := do
  let _ ← readRegister rules data
  .ok (rules.sha256 data)

/-- `members_of` -/
def membersOf (data : ByteArray) (page : Str) : Except Refusal (List Str) := do
  let found ← readRegister rules data
  requireIdentity (.str page) .physicalPage "membership lookup physical page"
  .ok (match found.2.membershipHead.get? page with
    | some head => sortedSet head.members
    | none => [])

end Register

section Calls

variable (rules : RegisterRules)

/-- What is at the register's path. -/
abbrev RegisterFile := Option ByteArray

/-- A dict a writer appends. -/
abbrev RecordDict := {fields : List (Str × JsonValue) // Keyed (.object fields)}

/-- How a replacement of the register's file ended. -/
inductive Replacement where
  | settled
  | unsettled
  | failed
  | moved
  deriving DecidableEq

/-- `_require_same_register_identity` and `_atomic_replace` -/
def replaceRegister (replacement : Replacement) (data : ByteArray) : Call RegisterFile Refusal Unit :=
  match replacement with
  | .settled => Call.replace (some data)
  | .unsettled => do
    Call.replace (some data)
    Call.lift (.error (.contractError
      "the corpus register was replaced but its directory entry is not proven durable"))
  | .failed => Call.lift (.error (.contractError "the corpus register was not replaced"))
  | .moved => Call.lift (.error (.incompatibleReuse
      "the corpus register path changed after its predecessor was validated; the append was not written and must be rebuilt against the current register file"))

/-- `_resolved_register_path`, of a path that can be resolved -/
def requireExpectedDigest (expected : Str) : Except Refusal Unit :=
  require (isSha256 expected = true)
    (.schemaRefusal "expected corpus-register digest must be lowercase SHA-256")

/-- `_require_observed_head` -/
def requireObservedHead (current : ByteArray) (expected : Str) : Except Refusal Str := do
  let observed ← registerDigest rules current
  require (observed = expected) (.incompatibleReuse
    "the corpus register changed after this writer read it; the append was not written and must be rebuilt against the current register digest")
  .ok observed

/-- The bytes of the register there is; where there is none, those of the empty one. -/
def currentRegister : Call RegisterFile Refusal ByteArray := do
  let file ← Call.current
  pure (file.getD emptyRegister)

/-- `append_records` -/
def appendRecords (records : List RecordDict) (expected : Str) (replacement : Replacement) :
    Call RegisterFile Refusal Str := do
  Call.lift (requireExpectedDigest expected)
  Call.lift (require (records ≠ [])
    (.schemaRefusal "a corpus-register append must contain one or more records"))
  Call.lift (require (records.length ≤ maxRegisterRecords) (.schemaRefusal
    s!"a corpus-register append has {records.length} records, past the {maxRegisterRecords}-record replay bound"))
  let current ← currentRegister
  let _ ← Call.lift (requireObservedHead rules current expected)
  let found ← Call.lift (readRegister rules current)
  let successor ← Call.lift (recordBytes (registerValue
    (found.1 ++ records.map fun record => .object record.1)))
  let digest ← Call.lift (registerDigest rules successor)
  replaceRegister replacement successor
  pure digest

/-- `confirm_unchanged_head` -/
def confirmUnchangedHead (expected : Str) : Call RegisterFile Refusal Str := do
  Call.lift (requireExpectedDigest expected)
  let current ← currentRegister
  Call.lift (requireObservedHead rules current expected)

/-- One call of a writer. -/
inductive RegisterCall where
  | append (records : List RecordDict) (expected : Str) (replacement : Replacement)
  | confirm (expected : Str)

def RegisterCall.run : RegisterCall → Call RegisterFile Refusal Str
  | append records expected replacement => appendRecords rules records expected replacement
  | confirm expected => confirmUnchangedHead rules expected

/-- The register's file after one call after another. -/
def afterCalls (file : RegisterFile) (calls : List RegisterCall) : RegisterFile :=
  calls.foldl (fun file call => ((call.run rules).on file).2) file

end Calls

end Verbatus.Register
