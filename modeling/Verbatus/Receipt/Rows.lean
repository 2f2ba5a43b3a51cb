import Verbatus.Contracts.References
import Verbatus.Outcomes.Vocabulary

namespace Verbatus.Receipt

open Library Library.Checked Refusal Python CodePoint Canonical Outcomes
open Identities (str)

/-- What a receipt is told by its host: its digest, `str.isdigit`, `int` of a text that is not plain
digits, and its bound on the digits of an integer. -/
structure ReceiptRules where
  sha256 : ByteArray → Str
  isDigit : Str → Bool
  foreignInt : Str → Except Refusal ℤ
  limit : ℕ

section Values

def refused {α : Type} (message : String) : Except Refusal α := .error (.schemaRefusal message)

/-- `_validate_reference` -/
def validateReference (value : JsonValue) (what : String) : Except Refusal Reference :=
  digestRef value ("Recensor partition receipt " ++ what)

variable (rules : ReceiptRules) in
/-- `int(text)` -/
def toInt (text : Str) : Except Refusal ℤ :=
  if text.isEmpty = false ∧ text.all isDigit = true then
    if text.length ≤ rules.limit then .ok (magnitude text)
    else .error (.valueError "Exceeds the limit for integer string conversion")
  else rules.foreignInt text

def intText (number : ℤ) : Str := Str.ofChars (decimal number)

end Values

section Classes

def outcomeClasses : List OutcomeClass := [.completed, .unresolved, .failed]

/-- The outcomes that stand for evidence of a boundary, in every stage's vocabulary. -/
def boundaryOutcomes : List (String × OutcomeClass) :=
  [("sealed", .completed), ("recorded", .completed)]

def recensorVocabulary : List (String × OutcomeClass) :=
  [("accepted", .completed), ("confirmed-blank", .completed), ("held-for-review", .unresolved),
    ("failed", .failed), ("excluded", .completed)] ++ boundaryOutcomes

def attestatoresVocabulary : List (String × OutcomeClass) :=
  [("read", .completed), ("genuinely-empty", .completed), ("failed", .failed), ("dead", .failed),
    ("not-run", .unresolved), ("excluded", .completed)] ++ boundaryOutcomes

/-- The outcomes of a chair that read the page. -/
def witnessReadingOutcomes : List String := ["read", "genuinely-empty"]

/-- `classify` of an outcome, where it is in the vocabulary. -/
def classIn (vocabulary : List (String × OutcomeClass)) (outcome : Str) : Option OutcomeClass :=
  (vocabulary.find? fun entry => decide (str entry.1 = outcome)).map Prod.snd

end Classes

section Coverage

/-- The witnesses of a unit's page, as an item counts them. -/
structure Coverage where
  configured : ℤ
  floor : ℤ
  unresolvedChairs : ℤ
  byOutcome : List (Str × ℤ)
  byClass : OutcomeClass → ℤ
  underWitnessed : Bool
  healthUnrecorded : ℤ
  failed : ℤ
  truncated : ℤ
  unaligned : ℤ

def coverageNames : List String := ["configured", "floor", "by_outcome", "by_class",
  "under_witnessed", "unresolved_chairs", "health_unrecorded", "shortfalls"]

/-- How many chairs ended in an outcome. -/
def chairs (byOutcome : List (Str × ℤ)) (outcome : String) : ℤ :=
  ((byOutcome.find? fun entry => decide (entry.1 = str outcome)).map Prod.snd).getD 0

def readingChairs (byOutcome : List (Str × ℤ)) : ℤ :=
  (witnessReadingOutcomes.map (chairs byOutcome)).sum

/-- `witnessed_count` -/
def witnessedCount (byOutcome : List (Str × ℤ)) (truncated : ℤ) : ℤ :=
  readingChairs byOutcome - truncated

/-- What the chairs of each outcome come to in each class. -/
def derivedByClass (byOutcome : List (Str × ℤ)) : Except Refusal (OutcomeClass → ℤ) := do
  let classes ← byOutcome.mapM fun entry =>
    match classIn attestatoresVocabulary entry.1 with
    | some klass => .ok (klass, entry.2)
    | none => refused "Recensor partition receipt has an unknown witness outcome"
  .ok fun klass => ((classes.filter fun entry => entry.1 = klass).map Prod.snd).sum

/-- A count under a key. -/
def countUnder (fields : List (Str × JsonValue)) (name : String) : Except Refusal ℤ :=
  match count? (fieldOf name fields) with
  | some count => .ok count
  | none => refused s!"Recensor partition receipt has invalid witness coverage counts: {quote name} is not a non-negative integer"

def readByOutcome (value : JsonValue) : Except Refusal (List (Str × ℤ)) :=
  match value with
  | .object fields =>
    match fields.mapM fun entry => if entry.1 = [] then none else
        (count? entry.2).map fun count => (entry.1, count) with
    | some counts => .ok counts
    | none => refused "Recensor partition receipt's by_outcome is not a mapping of non-empty witness outcome names to non-negative integer counts"
  | _ => refused "Recensor partition receipt's by_outcome is not a mapping of non-empty witness outcome names to non-negative integer counts"

def readByClass (value : JsonValue) : Except Refusal (OutcomeClass → ℤ) :=
  match value with
  | .object fields => do
    require (hasExactly (outcomeClasses.map OutcomeClass.text) fields = true)
      (.schemaRefusal "Recensor partition receipt's by_class does not name exactly the partition classes")
    require (outcomeClasses.all (fun klass => (count? (fieldOf klass.text fields)).isSome) = true)
      (.schemaRefusal "Recensor partition receipt's by_class holds a count that is not a non-negative integer")
    .ok fun klass => (count? (fieldOf klass.text fields)).getD 0
  | _ => refused "Recensor partition receipt's by_class does not name exactly the partition classes"

def readFlag (value : JsonValue) : Except Refusal Bool :=
  match value with
  | .bool flag => .ok flag
  | _ => refused "Recensor partition receipt's under_witnessed is not a boolean"

/-- The truncated readings, typed before they are subtracted. -/
def readTruncated (shortfalls : JsonValue) (readings : ℤ) : Except Refusal ℤ :=
  match shortfalls with
  | .object fields =>
    match count? (fieldOf "truncated" fields) with
    | some truncated => do
      require (truncated ≤ readings) (.schemaRefusal
        "Recensor page-read receipt counts truncated readings that are not a count of chairs that read the page")
      .ok truncated
    | none => refused "Recensor page-read receipt counts truncated readings that are not a count of chairs that read the page"
  | _ => refused "Recensor page-read receipt counts truncated readings that are not a count of chairs that read the page"

/-- The failed and the unaligned shortfalls. -/
def readShortfalls (shortfalls : JsonValue) : Except Refusal (ℤ × ℤ) :=
  match shortfalls with
  | .object fields =>
    match hasExactly ["failed", "truncated", "unaligned"] fields, count? (fieldOf "failed" fields),
        count? (fieldOf "unaligned" fields) with
    | true, some failed, some unaligned => .ok (failed, unaligned)
    | _, _, _ => refused "Recensor partition receipt has malformed shortfalls"
  | _ => refused "Recensor partition receipt has malformed shortfalls"

def readHealth (value : JsonValue) : Except Refusal ℤ :=
  match count? value with
  | some count => .ok count
  | none => refused "Recensor partition receipt has invalid health_unrecorded count"

/-- `_validate_coverage`, and the coverage it checks. -/
def validateCoverage (value : JsonValue) : Except Refusal Coverage :=
  match value with
  | .object fields => do
    require (hasExactly coverageNames fields = true)
      (.schemaRefusal "Recensor partition receipt has malformed witness coverage")
    let configured ← countUnder fields "configured"
    let floor ← countUnder fields "floor"
    let unresolved ← countUnder fields "unresolved_chairs"
    let byOutcome ← readByOutcome (fieldOf "by_outcome" fields)
    let byClass ← readByClass (fieldOf "by_class" fields)
    require ((byOutcome.map Prod.snd).sum = configured)
      (.schemaRefusal "Recensor partition receipt's by_outcome does not total its configured chairs; every configured chair gets exactly one outcome")
    require ((outcomeClasses.map byClass).sum = configured)
      (.schemaRefusal "Recensor partition receipt's by_class does not total its configured chairs")
    require (unresolved = byClass .unresolved)
      (.schemaRefusal "Recensor partition receipt names unresolved chairs its own by_class does not count")
    let underWitnessed ← readFlag (fieldOf "under_witnessed" fields)
    let truncated ← readTruncated (fieldOf "shortfalls" fields) (readingChairs byOutcome)
    require (underWitnessed = decide (witnessedCount byOutcome truncated < floor))
      (.schemaRefusal "Recensor partition receipt's under_witnessed is not what its page reads and its floor say")
    let derived ← derivedByClass byOutcome
    require (∀ klass ∈ outcomeClasses, byClass klass = derived klass)
      (.schemaRefusal "Recensor partition receipt's by_class does not fall out of its own per-outcome counts")
    let health ← readHealth (fieldOf "health_unrecorded" fields)
    let (failed, unaligned) ← readShortfalls (fieldOf "shortfalls" fields)
    require (health ≤ configured ∧ failed ≤ configured ∧ truncated ≤ configured ∧
        unaligned ≤ configured)
      (.schemaRefusal "Recensor partition receipt counts more health or shortfall facts than configured chairs")
    require (unaligned = 0)
      (.schemaRefusal "Recensor partition receipt claims an unaligned shortfall; a page reading aligns no witness to acts, so it is always 0")
    require (failed = chairs byOutcome "failed")
      (.schemaRefusal "Recensor partition receipt's failed shortfall does not derive from its own failed witness outcomes")
    .ok ⟨configured, floor, unresolved, byOutcome, byClass, underWitnessed, health, failed, truncated,
      unaligned⟩
  | _ => refused "Recensor partition receipt has malformed witness coverage"

end Coverage

section Items

/-- One counted unit, as the Recensor reviewed it. -/
structure Item where
  actId : Str
  actKey : Str
  held : Bool
  reviewOutcome : Str
  partitionClass : OutcomeClass
  releaseReason : Option Str
  review : Reference
  coverage : Coverage

def itemNames : List String := ["act_id", "act_key", "review_ref", "review_outcome",
  "partition_class", "coverage", "page_disposition", "release_reason"]

/-- Digits that start with no zero. -/
def isPositive (text : Str) : Bool :=
  !text.isEmpty && text.all isDigit && decide (text.head? ≠ some (scalar '0'))

/-- The page and the unit of an act key: `p`, the page, a colon, the unit. -/
def keyParts (key : Str) : Option (Str × Str) :=
  if key.head? = some (scalar 'p') then
    let found := digits key.tail
    if isPositive found.1 = true ∧ found.2.head? = some (scalar ':') then
      some (found.1, found.2.tail)
    else none
  else none

/-- `_READING_ACT_KEY.fullmatch` -/
def isReadingKey (key : Str) : Bool :=
  match keyParts key with
  | some (_, unit) => isPositive unit || decide (unit ∈ ["unread", "blank"].map str)
  | none => false

def readText (value : JsonValue) (message : String) : Except Refusal Str :=
  match value with
  | .str text => do
    require (text ≠ []) (.schemaRefusal message)
    .ok text
  | _ => refused message

/-- Whether a unit's page disposition is that its page reading held it. -/
def readDisposition (value : JsonValue) : Except Refusal Bool :=
  if value = .str (str "held") then .ok true
  else if value = .str (str "read") then .ok false
  else refused "Recensor partition receipt item names a page_disposition that is not one of ['held', 'read']"

/-- The outcome of a review and its class. -/
def readOutcome (value : JsonValue) : Except Refusal (Str × OutcomeClass) :=
  match value with
  | .str outcome =>
    match classIn recensorVocabulary outcome with
    | some klass => .ok (outcome, klass)
    | none => refused "Recensor partition receipt item names an unknown Recensor outcome"
  | _ => refused "Recensor partition receipt item names an unknown Recensor outcome"

/-- `_validate_release`, and the reason there is. -/
def validateRelease (released : Bool) (reason : JsonValue) : Except Refusal (Option Str) :=
  match released, reason with
  | true, .str text => do
    require (isBlank text = false)
      (.schemaRefusal "Recensor page-read receipt item names no reason its review released it")
    .ok (some text)
  | true, _ => refused "Recensor page-read receipt item names no reason its review released it"
  | false, .null => .ok none
  | false, _ => refused "Recensor page-read receipt item names a release reason, but only a held unit completed at review is released"

/-- `_validate_item`, and the item it checks. -/
def validateItem (value : JsonValue) : Except Refusal Item :=
  match value with
  | .object fields => do
    require (hasExactly itemNames fields = true)
      (.schemaRefusal "Recensor partition receipt item has the wrong closed schema")
    let actId ← readText (fieldOf "act_id" fields)
      "Recensor partition receipt item has no act identity"
    let actKey ← readText (fieldOf "act_key" fields) "Recensor partition receipt item has no act key"
    require (isReadingKey actKey = true) (.schemaRefusal
      s!"Recensor page-read receipt item names act key {quote (plainText actKey)}, not p<page>:<n>, p<page>:unread or p<page>:blank")
    let held ← readDisposition (fieldOf "page_disposition" fields)
    let (outcome, klass) ← readOutcome (fieldOf "review_outcome" fields)
    require (fieldOf "partition_class" fields = .str (str klass.text))
      (.schemaRefusal "Recensor partition receipt item names a partition_class its review_outcome does not derive")
    let review ← validateReference (fieldOf "review_ref" fields) "review reference"
    let reason ← validateRelease (held && klass = .completed) (fieldOf "release_reason" fields)
    let coverage ← validateCoverage (fieldOf "coverage" fields)
    .ok ⟨actId, actKey, held, outcome, klass, reason, review, coverage⟩
  | _ => refused "Recensor partition receipt item has the wrong closed schema"

end Items

section Links

/-- One page break an answer flags. -/
structure Link where
  subject : Str
  order : List ℤ
  outcome : Str
  reference : Reference
  deriving DecidableEq

def linkOutcomes : List String := ["accepted", "held-for-review"]

variable (rules : ReceiptRules)

/-- `_link_order` of a subject -/
def subjectOrder (subject : Str) : Except Refusal (List ℤ) :=
  ((subject.splitOn (scalar ':')).drop 1).mapM (toInt rules)

def wrongSubject (subject : Str) : Refusal :=
  .schemaRefusal s!"Recensor partition receipt names continuation link {quote (plainText subject)}, not page-break:<p>:<p+1>"

/-- A page ordinal in a link's subject. -/
def subjectPart (subject part : Str) : Except Refusal ℤ := do
  require (rules.isDigit part = true) (wrongSubject subject)
  let number ← toInt rules part
  require (intText number = part) (wrongSubject subject)
  .ok number

/-- The pages a link's subject names. -/
def subjectPages (subject : Str) : Except Refusal (List ℤ) :=
  match subject.splitOn (scalar ':') with
  | [mark, first, second] => do
    require (mark = str "page-break") (wrongSubject subject)
    let head ← subjectPart rules subject first
    let tail ← subjectPart rules subject second
    require (tail = head + 1) (wrongSubject subject)
    .ok [head, tail]
  | _ => .error (wrongSubject subject)

/-- `_validate_link`, and the link it checks. -/
def validateLink (value : JsonValue) : Except Refusal Link :=
  match value with
  | .object fields => do
    require (hasExactly ["subject_id", "link_ref", "outcome"] fields = true)
      (.schemaRefusal "Recensor partition receipt continuation link has the wrong shape")
    match fieldOf "subject_id" fields with
    | .str subject => do
      let order ← subjectPages rules subject
      match fieldOf "outcome" fields with
      | .str outcome => do
        require (outcome ∈ linkOutcomes.map str)
          (.schemaRefusal "Recensor partition receipt continuation link has an unknown outcome")
        let reference ← validateReference (fieldOf "link_ref" fields) "continuation-link reference"
        .ok ⟨subject, order, outcome, reference⟩
      | _ => refused "Recensor partition receipt continuation link has an unknown outcome"
    | _ => .error (wrongSubject [])
  | _ => refused "Recensor partition receipt continuation link has the wrong shape"

end Links

section Pages

/-- What a page's re-ask did: the ids it names, and how they are split. -/
structure Reask where
  named : List Str
  cleared : List Str
  setAside : List Str
  held : List Str
  unread : List Str
  duplicate : List ℤ

def Reask.parts (reask : Reask) : List (List Str) :=
  [reask.cleared, reask.setAside, reask.held, reask.unread]

/-- A page's reading, its re-ask and its last accounting. -/
structure PageRow where
  ordinal : ℤ
  reading : Reference
  reask : Option (Reference × Reask)
  accounting : Reference

def pageNames : List String :=
  ["page_ordinal", "reading_ref", "reask_ref", "accounting_ref", "reask"]

def reaskNames : List String := ["named", "cleared", "set_aside", "held", "unread", "duplicate"]

/-- `_FEED_ID.fullmatch` -/
def isFeedId (text : Str) : Bool :=
  match text with
  | .scalar letter :: number => letter.isUpper && isPositive number
  | _ => false

def plainInts (value : JsonValue) : Option (List ℤ) :=
  match value with
  | .list items => items.mapM fun item => match item with
    | .int number => some number
    | _ => none
  | _ => none

def badSplit : Refusal := .schemaRefusal
  "Recensor partition receipt page's re-ask does not split its named ids into cleared, set aside, held and unread, each in the order named"

/-- The ids of one part of a re-ask, in the order named. -/
def readPart (named : List Str) (value : JsonValue) : Except Refusal (List Str) :=
  match textsOf? value with
  | some part => do
    require (part = named.filter fun item => decide (item ∈ part)) badSplit
    .ok part
  | none => .error badSplit

def readNamed (value : JsonValue) : Except Refusal (List Str) :=
  match textsOf? value with
  | some named => do
    require (named ≠ [] ∧ named.all isFeedId = true ∧ named.Nodup)
      (.schemaRefusal "Recensor partition receipt page's re-ask names no id, or one id twice")
    .ok named
  | none => refused "Recensor partition receipt page's re-ask names no id, or one id twice"

def readDuplicate (value : JsonValue) : Except Refusal (List ℤ) :=
  match plainInts value with
  | some duplicate => do
    require ((∀ number ∈ duplicate, 1 ≤ number) ∧ duplicate = sortedSet duplicate)
      (.schemaRefusal "Recensor partition receipt page's re-ask duplicates are not increasing entry numbers")
    .ok duplicate
  | none => refused "Recensor partition receipt page's re-ask duplicates are not increasing entry numbers"

def readReask (value : JsonValue) : Except Refusal Reask :=
  match value with
  | .object fields => do
    require (hasExactly reaskNames fields = true)
      (.schemaRefusal "Recensor partition receipt page's re-ask has the wrong shape")
    let named ← readNamed (fieldOf "named" fields)
    let cleared ← readPart named (fieldOf "cleared" fields)
    let setAside ← readPart named (fieldOf "set_aside" fields)
    let held ← readPart named (fieldOf "held" fields)
    let unread ← readPart named (fieldOf "unread" fields)
    require (sortBy id (cleared ++ setAside ++ held ++ unread) = sortBy id named) badSplit
    let duplicate ← readDuplicate (fieldOf "duplicate" fields)
    .ok ⟨named, cleared, setAside, held, unread, duplicate⟩
  | _ => refused "Recensor partition receipt page's re-ask has the wrong shape"

/-- `_validate_reask` -/
def validateReask (reference reask : JsonValue) : Except Refusal (Option (Reference × Reask)) :=
  match reference, reask with
  | .null, .null => .ok none
  | .null, _ | _, .null =>
    refused "Recensor partition receipt page names a re-ask without what it did, or what a re-ask did without the re-ask"
  | reference, reask => do
    let asked ← validateReference reference "page re-ask reference"
    let found ← readReask reask
    .ok (some (asked, found))

def badPage : Refusal :=
  .schemaRefusal "Recensor partition receipt page reading has the wrong shape or no positive page ordinal"

/-- A row of the receipt's pages. -/
def validatePage (value : JsonValue) : Except Refusal PageRow :=
  match value with
  | .object fields => do
    require (hasExactly pageNames fields = true) badPage
    match fieldOf "page_ordinal" fields with
    | .int ordinal => do
      require (1 ≤ ordinal) badPage
      let reading ← validateReference (fieldOf "reading_ref" fields) "page-reading reference"
      let accounting ← validateReference (fieldOf "accounting_ref" fields) "page-accounting reference"
      let reask ← validateReask (fieldOf "reask_ref" fields) (fieldOf "reask" fields)
      .ok ⟨ordinal, reading, reask, accounting⟩
    | _ => .error badPage
  | _ => .error badPage

/-- A page the run's operator review decisions leave held. -/
structure PageHold where
  ordinal : ℤ
  codes : List Str
  deriving DecidableEq

def badHold : Refusal := .schemaRefusal
  "Recensor partition receipt page_holds are not page_ordinal, hold_codes rows naming a sealed page and its sorted hold codes"

def validateHold (ordinals : List ℤ) (value : JsonValue) : Except Refusal PageHold :=
  match value with
  | .object fields => do
    require (hasExactly ["page_ordinal", "hold_codes"] fields = true) badHold
    match fieldOf "page_ordinal" fields, textsOf? (fieldOf "hold_codes" fields) with
    | .int ordinal, some codes => do
      require (ordinal ∈ ordinals ∧ codes ≠ [] ∧ [] ∉ codes ∧ codes = sortedSet codes) badHold
      .ok ⟨ordinal, codes⟩
    | _, _ => .error badHold
  | _ => .error badHold

end Pages

end Verbatus.Receipt
