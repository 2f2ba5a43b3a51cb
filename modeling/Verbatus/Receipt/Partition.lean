import Verbatus.Receipt.Rows

namespace Verbatus.Receipt

open Library Library.Checked Refusal Python CodePoint Canonical Outcomes
open Identities (str)

section Summary

/-- A receipt as its reader takes it. -/
structure PartitionReceipt where
  runId : Str
  pages : List PageRow
  links : List Link
  pageHolds : List PageHold
  items : List Item
  reasons : List Str
  status : Str

/-- `_partition_counts` -/
def partitionCounts (items : List Item) : List (Str × JsonValue) :=
  outcomeClasses.map fun klass =>
    (str klass.text, .int (items.countP fun item => decide (item.partitionClass = klass)))

/-- What an item gives against a complete review. -/
def itemReasons (item : Item) : List Str :=
  (if item.held = true ∧ item.partitionClass ≠ .completed then
    [str "unit " ++ item.actId ++ str " was held by its page reading and is not released"]
    else []) ++
  (if item.partitionClass ≠ .completed then
    [str "unit " ++ item.actId ++ str " is " ++ str item.partitionClass.text ++
      str " at the Recensor"]
    else []) ++
  (if item.coverage.underWitnessed = true then
    [str "unit " ++ item.actId ++ str " is under-witnessed (" ++
      intText (witnessedCount item.coverage.byOutcome item.coverage.truncated) ++
      str " page reads of a floor of " ++ intText item.coverage.floor ++ str ")"]
    else []) ++
  if item.coverage.unresolvedChairs ≠ 0 then
    [str "unit " ++ item.actId ++ str " has " ++ intText item.coverage.unresolvedChairs ++
      str " chair(s) with no outcome yet"]
    else []

def linkReasons (link : Link) : List Str :=
  if link.outcome ≠ str "accepted" then
    [link.subject ++ str " is " ++ link.outcome ++
      str ": only one side says the text runs across the page break"]
  else []

def holdReason (hold : PageHold) : Str :=
  str "page " ++ intText hold.ordinal ++ str " is held after operator review (" ++
    (str ", ").intercalate hold.codes ++ str ")"

/-- `_reasons` -/
def reasonsOf (items : List Item) (links : List Link) (holds : List PageHold) : List Str :=
  items.flatMap itemReasons ++ links.flatMap linkReasons ++ holds.map holdReason

/-- `_status` -/
def statusOf (reasons : List Str) : Str := if reasons = [] then str "complete" else str "partial"

end Summary

variable (rules : ReceiptRules)

section Validate

def schemaName : String := "recensor-partition-receipt.v6"
def scopeName : String := "reading-acts-and-configured-witnesses"

def receiptNames : List String := ["schema", "run_id", "config_digest", "scope", "pages",
  "expected_unit_count", "continuation_links", "page_holds", "items", "by_partition_class",
  "recensor_status", "reasons", "self_hash"]

def isText? (value : JsonValue) : Except Refusal Str :=
  match value with
  | .str text => do
    require (text ≠ []) (.schemaRefusal "Recensor partition receipt has invalid run or denominator facts")
    .ok text
  | _ => refused "Recensor partition receipt has invalid run or denominator facts"

def listOf (value : JsonValue) (message : String) : Except Refusal (List JsonValue) :=
  match value with
  | .list items => .ok items
  | _ => refused message

/-- The run and the denominator a receipt is over, and its items as they stand. -/
def readDenominator (fields : List (Str × JsonValue)) : Except Refusal (Str × List JsonValue) := do
  let runId ← isText? (fieldOf "run_id" fields)
  require ((match fieldOf "config_digest" fields with
      | .str digest => isSha256 digest
      | _ => false) = true ∧ fieldOf "scope" fields = .str (str scopeName))
    (.schemaRefusal "Recensor partition receipt has invalid run or denominator facts")
  let items ← listOf (fieldOf "items" fields)
    "Recensor partition receipt has invalid run or denominator facts"
  require (count? (fieldOf "expected_unit_count" fields) = some (items.length : ℤ))
    (.schemaRefusal "Recensor partition receipt has invalid run or denominator facts")
  .ok (runId, items)

/-- The links of a receipt, one per page break and in page order. -/
def readLinks (value : JsonValue) : Except Refusal (List Link) := do
  let rows ← listOf value "Recensor page-read receipt continuation_links is not a list"
  let links ← rows.mapM (validateLink rules)
  let ordered ← (links.map Link.subject).dedup.mapM fun subject =>
    (subjectOrder rules subject).map fun order => (order, subject)
  require (links.map Link.subject = (sortBy Prod.fst ordered).map Prod.snd)
    (.schemaRefusal "Recensor page-read receipt continuation links are not one per page break, in page order")
  .ok links

/-- The items of a receipt, strictly in order of their act identities. -/
def readItems (rows : List JsonValue) : Except Refusal (List Item) := do
  let items ← rows.mapM validateItem
  require ((items.map Item.actId).Pairwise (· < ·))
    (.schemaRefusal "Recensor partition receipt items must be strictly sorted by unique act identity")
  .ok items

/-- The page an act key names. -/
def keyPage (item : Item) : Except Refusal ℤ :=
  match keyParts item.actKey with
  | some (page, _) => toInt rules page
  | none => .error (.schemaRefusal "Recensor page-read receipt item names no page")

/-- `_validate_page_readings` -/
def readPages (value : JsonValue) (items : List Item) : Except Refusal (List PageRow) := do
  let rows ← listOf value "Recensor page-read receipt names no page reading; every sealed page's reading is part of its denominator"
  require (rows ≠ []) (.schemaRefusal
    "Recensor page-read receipt names no page reading; every sealed page's reading is part of its denominator")
  let pages ← rows.mapM validatePage
  require (pages.map PageRow.ordinal = sortedSet (pages.map PageRow.ordinal)) (.schemaRefusal
    "Recensor page-read receipt page readings are not keyed by strictly increasing page ordinals; each sealed page is named once, in page order")
  require ((pages.map fun page => page.reading.path).Nodup)
    (.schemaRefusal "Recensor page-read receipt names one page reading twice")
  require ((items.map Item.actKey).Nodup)
    (.schemaRefusal "Recensor page-read receipt names one act key twice")
  let counted ← items.mapM (keyPage rules)
  require (∀ ordinal ∈ pages.map PageRow.ordinal, ordinal ∈ counted)
    (.schemaRefusal "Recensor page-read receipt counts no unit on a sealed page; every sealed page is at least one unit")
  require (∀ page ∈ counted, page ∈ pages.map PageRow.ordinal)
    (.schemaRefusal "Recensor page-read receipt counts units on pages which name no sealed page reading")
  .ok pages

/-- `_validate_page_holds` -/
def readHolds (value : JsonValue) (ordinals : List ℤ) : Except Refusal (List PageHold) :=
  match value with
  | .list rows => do
    let holds ← rows.mapM (validateHold ordinals)
    require (holds.map PageHold.ordinal = sortedSet (holds.map PageHold.ordinal))
      (.schemaRefusal "Recensor partition receipt names a held page twice or out of order")
    .ok holds
  | _ => .error badHold

/-- What a receipt's summary says of its rows. -/
def checkSummary (fields : List (Str × JsonValue)) (items : List Item) (links : List Link)
    (holds : List PageHold) : Except Refusal Unit := do
  require (pythonEqual (fieldOf "by_partition_class" fields) (.object (partitionCounts items)) = true)
    (.schemaRefusal "Recensor partition receipt partition counts do not reconcile")
  require (fieldOf "reasons" fields = .list ((reasonsOf items links holds).map .str) ∧
      fieldOf "recensor_status" fields = .str (statusOf (reasonsOf items links holds)))
    (.schemaRefusal "Recensor partition receipt status does not derive from its items")

/-- `validate_recensor_partition_receipt`, and the receipt it accepts. -/
def validateRecensorPartitionReceipt (record : JsonValue) : Except Refusal PartitionReceipt :=
  match record with
  | .object fields => do
    require (fieldOf "schema" fields = .str (str schemaName) ∧ hasExactly receiptNames fields = true)
      (.schemaRefusal "Recensor partition receipt has the wrong closed schema")
    require (recordVerifies rules.sha256 fields = true)
      (.schemaRefusal "Recensor partition receipt has an invalid schema or self-hash")
    let (runId, rows) ← readDenominator fields
    let links ← readLinks rules (fieldOf "continuation_links" fields)
    let items ← readItems rows
    let pages ← readPages rules (fieldOf "pages" fields) items
    let holds ← readHolds (fieldOf "page_holds" fields) (pages.map PageRow.ordinal)
    checkSummary fields items links holds
    .ok ⟨runId, pages, links, holds, items, reasonsOf items links holds,
      statusOf (reasonsOf items links holds)⟩
  | _ => refused "Recensor partition receipt has the wrong closed schema"

end Validate

section Build

/-- What a dict holds under a key, or the key that is missing. -/
def entry (name : String) (value : JsonValue) : Except Refusal JsonValue :=
  match value with
  | .object fields =>
    match field? name fields with
    | some found => .ok found
    | none => .error (.keyError name)
  | _ => .error (.typeError "indices must be integers")

/-- `dict(value)` of a dict; every other value a receipt is built from is refused. -/
def dictCopy (value : JsonValue) : Except Refusal JsonValue :=
  match value with
  | .object fields => .ok (.object fields)
  | _ => .error (.typeError "cannot convert to a dict")

/-- `dict(value)`, and `None` of `None`. -/
def dictCopy? (value : JsonValue) : Except Refusal JsonValue :=
  match value with
  | .null => .ok .null
  | value => dictCopy value

/-- `_link_order` -/
def linkOrder (link : JsonValue) : Except Refusal (List ℤ) := do
  let subject ← entry "subject_id" link
  match subject with
  | .str text => subjectOrder rules text
  | _ => .error (.typeError "a subject that is no text has no parts")

/-- A page row with the fields a receipt keeps of it. -/
def copyPage (row : JsonValue) : Except Refusal JsonValue := do
  let ordinal ← entry "page_ordinal" row
  let reading ← entry "reading_ref" row >>= dictCopy
  let asked ← entry "reask_ref" row >>= dictCopy?
  let accounting ← entry "accounting_ref" row >>= dictCopy
  let reask ← entry "reask" row >>= dictCopy?
  .ok (.object (named [("page_ordinal", ordinal), ("reading_ref", reading), ("reask_ref", asked),
    ("accounting_ref", accounting), ("reask", reask)]))

/-- The codes of a page hold as a list; those of a text are its characters. -/
def listedCodes (value : JsonValue) : Except Refusal (List JsonValue) :=
  match value with
  | .list items => .ok items
  | .str text => .ok (text.map fun point => .str [point])
  | .object fields => .ok (fields.map fun field => .str field.1)
  | _ => .error (.typeError "object is not iterable")

/-- A page hold as its copy gives it a reason; an ordinal of another type is refused below. -/
def heldPage (ordinal : JsonValue) (codes : List JsonValue) : Except Refusal PageHold :=
  match ordinal, textsOf? (.list codes) with
  | .int ordinal, some texts => .ok ⟨ordinal, texts⟩
  | _, _ => .error (.typeError "sequence item: expected str instance")

/-- The copy of a page hold, and what it gives a reason. -/
def copyHold (row : JsonValue) : Except Refusal (JsonValue × PageHold) := do
  let ordinal ← entry "page_ordinal" row
  let codes ← entry "hold_codes" row >>= listedCodes
  let hold ← heldPage ordinal codes
  .ok (.object (named [("page_ordinal", ordinal), ("hold_codes", .list codes)]), hold)

/-- A row beside what its check reads in it. -/
def beside {α : Type} (check : JsonValue → Except Refusal α) (row : JsonValue) :
    Except Refusal (JsonValue × α) :=
  (check row).map fun found => (row, found)

/-- The items of a receipt under construction, in order of their act identities. -/
def orderedItems (items : List JsonValue) : Except Refusal (List (JsonValue × Item)) := do
  let copies ← items.mapM dictCopy
  let checked ← copies.mapM (beside validateItem)
  .ok (sortBy (fun pair => pair.2.actId) checked)

/-- The links of a receipt under construction, in page order. -/
def orderedLinks (links : List JsonValue) : Except Refusal (List (JsonValue × Link)) := do
  let copies ← links.mapM dictCopy
  let keyed ← copies.mapM (beside (linkOrder rules))
  ((sortBy Prod.snd keyed).map Prod.fst).mapM (beside (validateLink rules))

/-- The fields of a receipt before it has its digest. -/
def receiptFields (runId configDigest : JsonValue) (pages : List JsonValue)
    (items : List (JsonValue × Item)) (links : List (JsonValue × Link))
    (holds : List (JsonValue × PageHold)) : List (Str × JsonValue) :=
  let reasons := reasonsOf (items.map Prod.snd) (links.map Prod.snd) (holds.map Prod.snd)
  named [("schema", .str (str schemaName)), ("run_id", runId), ("config_digest", configDigest),
    ("scope", .str (str scopeName)), ("pages", .list pages),
    ("expected_unit_count", .int items.length),
    ("continuation_links", .list (links.map Prod.fst)),
    ("page_holds", .list (holds.map Prod.fst)), ("items", .list (items.map Prod.fst)),
    ("by_partition_class", .object (partitionCounts (items.map Prod.snd))),
    ("recensor_status", .str (statusOf reasons)), ("reasons", .list (reasons.map .str))]

/-- `build_recensor_reading_receipt` -/
def buildRecensorReadingReceipt (runId configDigest : JsonValue)
    (pages items links holds : List JsonValue) : Except Refusal JsonValue := do
  let items ← orderedItems items
  let links ← orderedLinks rules links
  let holds ← holds.mapM copyHold
  let pages ← pages.mapM copyPage
  let fields ← sealRecord rules.sha256 (receiptFields runId configDigest pages items links holds)
  let _ ← validateRecensorPartitionReceipt rules (.object fields)
  .ok (.object fields)

end Build

end Verbatus.Receipt
