import Verbatus.Dissent.Opcodes
import Verbatus.Python.Json
import Verbatus.Python.StrText

namespace Verbatus.Dissent

open Library Library.Checked PageAccounting Python

def maxComparisonCharacterPairs : ℕ := 100000000

/-- `text.split()` -/
def splitWords (text : Str) : List Str := (text.splitOnP CodePoint.isSpace).filter (· ≠ [])

/-- A text in canonical form with its white space collapsed, and how much the collapse dropped. -/
structure ComparisonView where
  normalized : Str
  droppedCharacters : ℤ

section Views

variable (nfc : Str → Str)

def comparisonView (text : Str) : ComparisonView :=
  let composed := nfc text
  let normalized := [CodePoint.scalar ' '].intercalate (splitWords composed)
  ⟨normalized, composed.length - normalized.length⟩

end Views

/-- A stretch of the reading and the stretch of the report it departs from. -/
structure DepartureSpan where
  readingStart : ℕ
  readingEnd : ℕ
  testimoniumStart : ℕ
  testimoniumEnd : ℕ
  deriving DecidableEq, Repr

def boundsRecord (start stop : ℕ) : Json := .object [("start", .int start), ("end", .int stop)]

def DepartureSpan.record (span : DepartureSpan) : Json :=
  .object [("reading_span", boundsRecord span.readingStart span.readingEnd),
    ("testimonium_span", boundsRecord span.testimoniumStart span.testimoniumEnd)]

def departureSpans (opcodes : List Opcode) : List DepartureSpan :=
  (opcodes.filter fun opcode => opcode.tag ≠ .equal).map fun opcode =>
    ⟨opcode.i1, opcode.i2, opcode.j1, opcode.j2⟩

/-- The explicit non-verdict of a comparison that would pass its step budget. -/
def unmeasuredComparison (maxComparisonSteps : ℤ) : Json :=
  .object [("measured", .bool false), ("reason", .str "comparison-step-limit"),
    ("max_comparison_steps", .int maxComparisonSteps)]

/-- Every span where the reading and one report differ. -/
def departures (reading reported : Str) (maxComparisonSteps : ℤ) :
    Except Json (List DepartureSpan) :=
  match ((getOpcodes reading reported).on maxComparisonSteps).1 with
  | .error _ => .error (unmeasuredComparison maxComparisonSteps)
  | .ok opcodes => .ok (departureSpans opcodes)

/-- The row of a comparison the sealed budget stopped before it finished. -/
def unalignedRow (reading reported : Str) (maxComparisonSteps : ℤ) : Json :=
  .object [("compared", .str "unknown"),
    ("reason", .str (s!"a {reading.length}-character reading against a {reported.length}-" ++
      s!"character report did not align within the sealed {maxComparisonSteps}-step dissent " ++
      "budget; neither text is clipped and neither is changed, the alignment simply did not " ++
      "finish")),
    ("max_comparison_steps", .int maxComparisonSteps)]

/-- Where the reading departed from one witness's comparison text. -/
def dissentAgainst (nfc : Str → Str) (reading reported : Str) (maxComparisonSteps : ℤ) : Json :=
  let pairs := reading.length * reported.length
  if pairs > maxComparisonCharacterPairs then
    .object [("compared", .str "unknown"),
      ("reason", .str (s!"a {reading.length}-character reading against a {reported.length}-" ++
        s!"character report is {pairs} character pairs to align, past this module's " ++
        s!"{maxComparisonCharacterPairs} bound; neither text is clipped and neither is " ++
        "changed, the alignment simply did not run"))]
  else
    match departures reading reported maxComparisonSteps with
    | .error _ => unalignedRow reading reported maxComparisonSteps
    | .ok spans =>
      let readingView := comparisonView nfc reading
      let witnessView := comparisonView nfc reported
      .object [("compared", .bool true),
        ("departed", .bool (witnessView.normalized ≠ readingView.normalized)),
        ("departed_raw", .bool (reported ≠ reading)),
        ("departures", .list (spans.map DepartureSpan.record)),
        ("comparison_loss", .object
          [("reading_dropped_characters", .int readingView.droppedCharacters),
            ("witness_dropped_characters", .int witnessView.droppedCharacters)])]

section Validating

/-- Keys that are the given fields, as sets. -/
def keysMatch (keys fields : List String) : Bool :=
  keys.all (· ∈ fields) && fields.all (· ∈ keys)

def comparedFields : List String :=
  ["compared", "departed", "departed_raw", "departures", "comparison_loss"]

def lossFields : List String := ["reading_dropped_characters", "witness_dropped_characters"]

/-- The values of an object, and none of any other value. -/
def entries : Json → List (String × Json)
  | .object fields => fields
  | _ => []

/-- A count is an integer that is not negative. -/
def isCount (value : Json) : Bool := value.int?.any (0 ≤ ·)

def boundsValid (text : Str) (name : String) (bounds : Json) : Bool :=
  bounds.isObject && keysMatch bounds.keys ["start", "end"] &&
    (entries bounds).all (fun entry => entry.2.int?.isSome) &&
    0 ≤ (bounds.get "start").number && (bounds.get "start").number ≤ (bounds.get "end").number &&
    (name ≠ "reading_span" || (bounds.get "end").number ≤ text.length)

/-- One departure span, by its place in the row. -/
def validateSpan (text : Str) (span : Json) (index : ℕ) : Except Refusal Unit := do
  require (span.isObject ∧ keysMatch span.keys ["reading_span", "testimonium_span"])
    (.schemaRefusal s!"departures[{index}] is not the closed span schema")
  (entries span).forM fun entry =>
    require (boundsValid text entry.1 entry.2)
      (.schemaRefusal s!"departures[{index}].{entry.1} has invalid bounds")

def validateCompared (nfc : Str → Str) (row : Json) (text : Str) : Except Refusal Unit := do
  require (keysMatch row.keys comparedFields)
    (.schemaRefusal "a dissent row is not the closed compared-row schema")
  require ((row.get "departed").bool?.isSome ∧ (row.get "departed_raw").bool?.isSome)
    (.schemaRefusal "a dissent row has no boolean departure findings")
  let loss := row.get "comparison_loss"
  require (loss.isObject ∧ keysMatch loss.keys lossFields ∧
      (entries loss).all fun entry => isCount entry.2)
    (.schemaRefusal "a dissent row has no loss-accounted comparison view")
  require (row.get "departures").list?.isSome
    (.schemaRefusal "a dissent row has no departure span list")
  let spans := (row.get "departures").elements
  require ((spans ≠ [] ↔ (row.get "departed_raw").flag = true) ∧
      ¬ ((row.get "departed").flag ∧ ¬ (row.get "departed_raw").flag))
    (.schemaRefusal "a dissent row contradicts its own departure spans")
  require ((loss.get "reading_dropped_characters").number =
      (comparisonView nfc text).droppedCharacters)
    (.schemaRefusal "a dissent row misstates the reading's comparison-view loss")
  spans.zipIdx.forM fun entry => validateSpan text entry.1 entry.2

/-- A row that says why its comparison did not run. -/
def validateUncomputed (row : Json) (maxComparisonSteps : ℤ) : Except Refusal Unit := do
  require (keysMatch (row.keys.filter (· ≠ "max_comparison_steps")) ["compared", "reason"] ∧
      (row.get "reason").str?.any (· ≠ ""))
    (.schemaRefusal "a dissent row is not the closed uncomputed-row schema")
  let budget := row.get "max_comparison_steps"
  require ("max_comparison_steps" ∈ row.keys → budget.int? = some maxComparisonSteps)
    (.schemaRefusal (s!"a dissent row records a {budget.repr}-step dissent budget, but this run " ++
      s!"sealed {maxComparisonSteps}"))

/-- A dissent row that misstates a comparison of a text with one witness is refused. -/
def validateRow (nfc : Str → Str) (row : Json) (text : Str) (maxComparisonSteps : ℤ) :
    Except Refusal Unit := do
  require row.isObject (.schemaRefusal "a dissent row is not a record")
  match row.get "compared" with
  | .bool true => validateCompared nfc row text
  | .str "unknown" => validateUncomputed row maxComparisonSteps
  | _ => .error (.schemaRefusal
      "a dissent row of a witness that produced a reading must be compared or unknown")

end Validating

end Verbatus.Dissent
