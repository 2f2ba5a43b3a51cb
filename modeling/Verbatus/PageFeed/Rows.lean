import Verbatus.PageFeed.Table

namespace Verbatus.PageFeed

open Library Library.Checked Refusal Python CodePoint Canonical Ink
open Identities (str)

/-- The most elements a list has on its host, `sys.maxsize`. -/
def maxLength : ℕ := 2 ^ 63 - 1

/-- A list is no longer than its host lets it be. -/
def Sized (value : JsonValue) : Prop := ∀ items, value = .list items → items.length ≤ maxLength

section Witnesses

inductive Regime where
  | named
  | blinded
  deriving DecidableEq

def Regime.text : Regime → String
  | named => "named"
  | blinded => "blinded"

/-- A witness's reading of a page as it is given to the feed. -/
structure Witness where
  chair : Str
  label : Str
  adapter : Str
  outcome : Str
  testimoniumRef : JsonValue
  units : JsonValue
  findings : JsonValue
  answerHealth : JsonValue
  sized : Sized units

/-- What one unit of an adapter is. -/
def unitKinds : List (String × String) := [("chandra.v1", "layout-block"),
  ("dai.v1", "detector-record"), ("churro.v1", "line"), ("dots-mocr.v1", "layout-block")]

def unitKind? (adapter : Str) : Option String :=
  (unitKinds.find? fun kind => decide (str kind.1 = adapter)).map Prod.snd

def readOutcome : Str := str "read"

/-- The letters of the layout detector's lines and blocks, and then those a witness may take. -/
def detectionLetters : List Char := ['L', 'S']

def witnessLetters : List Char :=
  "ABCDEFGHIJKLMNOPQRSTUVWXYZ".toList.filter fun letter => letter ∉ detectionLetters

/-- `_checked_roster` -/
def checkedRoster (roster : List Str) : Except Refusal Unit :=
  require ((∀ chair ∈ roster, isBlank chair = false) ∧ roster.Nodup)
    (.schemaRefusal "the sealed page-witness roster is not a list of distinct chair names")

/-- `_shown_chairs` -/
def shownChairs (listed : Option (List Str)) (roster : List Str) : Except Refusal (List Str) :=
  match listed with
  | none => .ok roster
  | some names => do
    require (∀ name ∈ names, name ∈ roster)
      (.schemaRefusal "the sealed feed shows witness chairs which are not in this page's roster")
    .ok names

/-- What one witness's row is checked for before any is shown. -/
def checkedWitness (regime : Regime) (witness : Witness) : Except Refusal Unit := do
  require (regime = .named → witness.label = witness.chair)
    (.schemaRefusal "under the named regime a witness's label is its chair")
  require (regime = .blinded → witness.label ≠ witness.chair)
    (.schemaRefusal "under the blinded regime a witness's label is not its chair")
  require (unitKind? witness.adapter).isSome
    (.schemaRefusal s!"witness adapter {quote (plainText witness.adapter)} has no page-unit reader")

variable (rules : FeedRules) in
def referenceDigest (witness : Witness) : Except Refusal Str := do
  let reference ← digestRef witness.testimoniumRef "a page Testimonium reference"
  digestOf rules reference.json

variable (rules : FeedRules) in
/-- `_checked_witnesses` -/
def checkedWitnesses (witnesses : List Witness) (regime : Regime) (roster : List Str)
    (noTestimony : Bool) : Except Refusal Unit :=
  if noTestimony = true then
    require (witnesses = [])
      (.schemaRefusal "a page with no witness testimony is given witnesses")
  else do
    witnesses.forM (checkedWitness regime)
    require (witnesses.map Witness.chair).Nodup
      (.schemaRefusal "two page-feed witnesses share a chair")
    require (witnesses.map Witness.label).Nodup
      (.schemaRefusal "two page-feed witnesses share a witness_label")
    let digests ← witnesses.mapM (referenceDigest rules)
    require digests.Nodup (.schemaRefusal
      "two page-feed witnesses share a testimonium_ref; each row is its own chair's page Testimonium")
    require (∀ chair ∈ roster, chair ∈ witnesses.map Witness.chair) (.schemaRefusal
      "configured page witnesses of the sealed roster have no row on this page's feed; a witness is never silently absent")
    require (∀ chair ∈ witnesses.map Witness.chair, chair ∈ roster)
      (.schemaRefusal "page-feed witnesses are not in the sealed page-witness roster")

end Witnesses

section Units

/-- A witness's unit as the feed shows it. -/
structure ShownUnit where
  id : String
  ordinal : Option ℤ
  boxPx : Option Bounds
  box1000 : Option (List ℤ)
  label : Option Str
  text : Str

/-- A shown witness. -/
structure Row where
  letter : Char
  label : Str
  chair : Option Str
  unitKind : String
  outcome : Str
  testimoniumRef : Reference
  findings : List JsonValue
  answerHealth : JsonValue
  units : List ShownUnit

/-- A citable id: a letter and a number. -/
def idOf (letter : Char) (number : ℕ) : String := String.singleton letter ++ toString number

def unitNames : List String := ["ordinal", "box_px", "label", "text"]

def badUnit : Refusal := .schemaRefusal
  "a witness unit is not exactly ['box_px', 'label', 'ordinal', 'text']"

def readOrdinal : JsonValue → Except Refusal (Option ℤ)
  | .null => .ok none
  | .int ordinal => .ok (some ordinal)
  | _ => .error badUnit

def readLabel (value : JsonValue) (error : Refusal) : Except Refusal (Option Str) :=
  match value with
  | .null => .ok none
  | .str label => .ok (some label)
  | _ => .error error

def readText : JsonValue → Except Refusal Str
  | .str text => .ok text
  | _ => .error badUnit

/-- A unit's box, and no box where it has none. -/
def unitBox (value : JsonValue) (size : PageSize) : Except Refusal (Option Bounds) :=
  match value with
  | .null => .ok none
  | value => (checkedBox value size "a unit box").map some

/-- A unit with its id, `_checked_unit` of it. -/
def shownUnit (letter : Char) (boxesShown : Bool) (size : PageSize) (entry : JsonValue × ℕ) :
    Except Refusal ShownUnit :=
  match entry.1 with
  | .object fields => do
    require (hasExactly unitNames fields = true) badUnit
    let ordinal ← readOrdinal (fieldOf "ordinal" fields)
    let label ← readLabel (fieldOf "label" fields) badUnit
    let text ← readText (fieldOf "text" fields)
    let box ← unitBox (fieldOf "box_px" fields) size
    .ok ⟨idOf letter entry.2, ordinal, box,
      if boxesShown then box.map fun given => PageFeed.box1000 given size else none, label, text⟩
  | _ => .error badUnit

def repetitionKinds : List String := ["post-hoc-repetition", "post-hoc-repetition-uninspected"]

def noAnswerHealth : JsonValue := .object (named [("truncated", .null), ("repetition", .list [])])

/-- A finding that a witness's answer repeats itself. -/
def isRepetition : JsonValue → Bool
  | .object fields => decide (fieldOf "kind" fields ∈ repetitionKinds.map fun kind => .str (str kind))
  | _ => false

/-- Whether a witness's answer health is stated as it must be. -/
def isHealth : JsonValue → Bool
  | .object fields =>
    hasExactly ["truncated", "repetition"] fields &&
      [JsonValue.bool true, .bool false, .null].any (pythonEqual (fieldOf "truncated" fields)) &&
      match fieldOf "repetition" fields with
      | .list findings => findings.all isRepetition
      | _ => false
  | _ => false

def readList (value : JsonValue) (message : String) : Except Refusal (List JsonValue) :=
  match value with
  | .list items => .ok items
  | _ => refused message

/-- `_witness_row` -/
def witnessRow (switches : Switches) (regime : Regime) (size : PageSize)
    (entry : Char × Witness) : Except Refusal Row := do
  let (letter, witness) := entry
  let units ← readList witness.units "a shown witness carries no units or no findings list"
  let findings ← readList witness.findings "a shown witness carries no units or no findings list"
  require (isHealth witness.answerHealth = true)
    (.schemaRefusal "a shown witness carries no answer health of ['repetition', 'truncated']")
  require (witness.outcome ≠ readOutcome → units = [] ∧ findings = [] ∧
      pythonEqual witness.answerHealth noAnswerHealth = true)
    (.schemaRefusal "a witness that did not read carries units, findings or answer health")
  let shown ← (units.zipIdx 1).mapM
    (shownUnit letter (switches.witnessCoordinates && !switches.flat) size)
  let reference ← digestRef witness.testimoniumRef "a page Testimonium reference"
  match unitKind? witness.adapter with
  | none => .error (.keyError (plainText witness.adapter))
  | some kind =>
    .ok ⟨letter, witness.label, if regime = .named then some witness.chair else none, kind,
      witness.outcome, reference, findings, witness.answerHealth, shown⟩

def ShownUnit.json (unit : ShownUnit) : JsonValue :=
  .object (named [("id", .str (str unit.id)), ("ordinal", (unit.ordinal.map .int).getD .null),
    ("box_px", (unit.boxPx.map boxJson).getD .null),
    ("box_1000", (unit.box1000.map fun box => .list (box.map .int)).getD .null),
    ("label", (unit.label.map .str).getD .null), ("text", .str unit.text)])

def Row.json (row : Row) : JsonValue :=
  .object (named [("letter", .str [scalar row.letter]), ("witness_label", .str row.label),
    ("chair", (row.chair.map .str).getD .null), ("unit_kind", .str (str row.unitKind)),
    ("outcome", .str row.outcome), ("testimonium_ref", row.testimoniumRef.json),
    ("findings", .list row.findings), ("answer_health", row.answerHealth),
    ("units", .list (row.units.map ShownUnit.json))])

end Units

section Detections

/-- Surya's census of a page as it is given to the feed. -/
structure Census where
  censusRef : JsonValue
  blockSequence : JsonValue
  blockSequenceReason : JsonValue
  lines : JsonValue
  blocks : JsonValue
  sizedLines : Sized lines
  sizedBlocks : Sized blocks

/-- No census, a run without any, or the page's census. -/
inductive SuryaInput where
  | missing
  | absent
  | census (given : Census)

/-- A line or a block of the layout detector as the feed shows it. -/
structure Detection where
  id : String
  boxPx : Bounds
  box1000 : List ℤ
  label : Option Str
  confidence : Option ℤ
  reference : Reference

/-- What the feed shows of Surya; an absent Surya has no census. -/
structure Surya where
  census : Option (Reference × Bool × Option Str)
  lines : List Detection
  blocks : List Detection

/-- `_confidence` -/
def confidence (value : JsonValue) : Except Refusal (Option ℤ) :=
  match value with
  | .null => .ok none
  | .int points => do
    require (0 ≤ points ∧ points ≤ 10000)
      (.schemaRefusal "a Surya confidence is not null or basis points in 0..10000")
    .ok (some points)
  | _ => refused "a Surya confidence is not null or basis points in 0..10000"

/-- Whether the order head placed the blocks, or why their order is a raster's. -/
def readSequence (order reason : JsonValue) : Except Refusal (Bool × Option Str) :=
  match reason with
  | .null => do
    require (order = .str (str "surya-order-head"))
      (.schemaRefusal "Surya's block_sequence is not 'surya-order-head' with no reason or 'raster-fallback' with one")
    .ok (true, none)
  | .str text => do
    require (order = .str (str "raster-fallback") ∧ isBlank text = false)
      (.schemaRefusal "Surya's block_sequence is not 'surya-order-head' with no reason or 'raster-fallback' with one")
    .ok (false, some text)
  | _ => refused "Surya's block_sequence is not 'surya-order-head' with no reason or 'raster-fallback' with one"

def badLine : Refusal := .schemaRefusal "a Surya line is not exactly ['box_px', 'confidence_bp', 'ref']"

def shownLine (size : PageSize) (entry : JsonValue × ℕ) : Except Refusal Detection :=
  match entry.1 with
  | .object fields => do
    require (hasExactly ["box_px", "confidence_bp", "ref"] fields = true) badLine
    let box ← checkedBox (fieldOf "box_px" fields) size "a Surya line box"
    let points ← confidence (fieldOf "confidence_bp" fields)
    let reference ← digestRef (fieldOf "ref" fields) "a Surya line reference"
    .ok ⟨idOf 'L' entry.2, box, box1000 box size, none, points, reference⟩
  | _ => .error badLine

/-- A block with its place in the sequence and its label. -/
structure Block where
  position : ℤ
  label : Option Str
  fields : List (Str × JsonValue)

def badBlock : Refusal := .schemaRefusal
  "a Surya block is not exactly ['box_px', 'confidence_bp', 'label', 'position', 'ref']"

def readBlock (value : JsonValue) : Except Refusal Block :=
  match value with
  | .object fields => do
    require (hasExactly ["box_px", "label", "position", "confidence_bp", "ref"] fields = true) badBlock
    match fieldOf "position" fields with
    | .int position => do
      let label ← readLabel (fieldOf "label" fields) badBlock
      .ok ⟨position, label, fields⟩
    | _ => .error badBlock
  | _ => .error badBlock

def shownBlock (size : PageSize) (entry : Block × ℕ) : Except Refusal Detection := do
  let box ← checkedBox (fieldOf "box_px" entry.1.fields) size "a Surya block box"
  let points ← confidence (fieldOf "confidence_bp" entry.1.fields)
  let reference ← digestRef (fieldOf "ref" entry.1.fields) "a Surya block reference"
  .ok ⟨idOf 'S' entry.2, box, box1000 box size, entry.1.label, points, reference⟩

def shownBlocks (size : PageSize) (rows : List JsonValue) : Except Refusal (List Detection) := do
  let blocks ← rows.mapM readBlock
  require (blocks.map Block.position).Nodup
    (.schemaRefusal "two Surya blocks share a reading-order position")
  ((sortBy Block.position blocks).zipIdx 1).mapM (shownBlock size)

/-- The rows a switch shows. -/
def switched (on : Bool) (rows : JsonValue) : JsonValue := if on then rows else .list []

def suryaOf (census : Census) (switches : Switches) (size : PageSize) : Except Refusal Surya := do
  let (head, reason) ← readSequence census.blockSequence census.blockSequenceReason
  let lines ← readList (switched switches.suryaLines census.lines)
    "Surya's lines and blocks are not lists"
  let blocks ← readList (switched switches.suryaBlocks census.blocks)
    "Surya's lines and blocks are not lists"
  let shown ← (lines.zipIdx 1).mapM (shownLine size)
  let placed ← shownBlocks size blocks
  let reference ← digestRef census.censusRef "the Surya page census reference"
  .ok ⟨some (reference, head, reason), shown, placed⟩

/-- `_surya` -/
def suryaShown (surya : SuryaInput) (switches : Switches) (size : PageSize) :
    Except Refusal (Option Surya) :=
  if switches.suryaLines = false ∧ switches.suryaBlocks = false then .ok none
  else match surya with
    | .absent => .ok (some ⟨none, [], []⟩)
    | .missing =>
      refused "the sealed feed shows Surya's detections, but no Surya census was given for this page"
    | .census given => (suryaOf given switches size).map some

def Detection.fields (detection : Detection) : List (String × JsonValue) :=
  [("id", .str (str detection.id)), ("box_px", boxJson detection.boxPx),
    ("box_1000", .list (detection.box1000.map .int))]

def Detection.evidence (detection : Detection) : List (String × JsonValue) :=
  [("confidence_bp", (detection.confidence.map .int).getD .null),
    ("ref", detection.reference.json)]

def lineJson (line : Detection) : JsonValue := .object (named (line.fields ++ line.evidence))

def blockJson (block : Detection) : JsonValue :=
  .object (named (block.fields ++ [("label", (block.label.map .str).getD .null)] ++ block.evidence))

def Surya.json (surya : Surya) : JsonValue :=
  match surya.census with
  | none => .object (named [("census_ref", .null),
      ("absent", .str (str "no Surya page census was sealed in this run")),
      ("block_sequence", .null), ("block_sequence_reason", .null), ("lines", .list []),
      ("blocks", .list [])])
  | some (reference, head, reason) => .object (named [("census_ref", reference.json),
      ("block_sequence", .str (str (if head then "surya-order-head" else "raster-fallback"))),
      ("block_sequence_reason", (reason.map .str).getD .null),
      ("lines", .list (surya.lines.map lineJson)), ("blocks", .list (surya.blocks.map blockJson))])

end Detections

end Verbatus.PageFeed
