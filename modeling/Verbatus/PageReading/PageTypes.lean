import Mathlib.Data.String.Basic
import Verbatus.Ink.Background
import Verbatus.Library.Mapping

namespace Verbatus.PageReading

open Library

/-- What a page is. -/
inductive PageType where
  | registerActs
  | index
  | table
  | ledger
  | instrument
  | prose
  | blank
  deriving DecidableEq, Repr

def PageType.text : PageType → String
  | .registerActs => "register-acts"
  | .index => "index"
  | .table => "table"
  | .ledger => "ledger"
  | .instrument => "instrument"
  | .prose => "prose"
  | .blank => "blank"

def pageTypes : List PageType :=
  [.registerActs, .index, .table, .ledger, .instrument, .prose, .blank]

/-- What an entry of a page is. -/
inductive EntryKind where
  | act
  | indexRow
  | tableRow
  | ledgerEntry
  | instrument
  | paragraph
  | other
  deriving DecidableEq, Repr

def EntryKind.text : EntryKind → String
  | .act => "act"
  | .indexRow => "index-row"
  | .tableRow => "table-row"
  | .ledgerEntry => "ledger-entry"
  | .instrument => "instrument"
  | .paragraph => "paragraph"
  | .other => "other"

def entryKinds : List EntryKind :=
  [.act, .indexRow, .tableRow, .ledgerEntry, .instrument, .paragraph, .other]

/-- How a page is written. -/
inductive Writing where
  | handwritten
  | typed
  | printed
  | mixed
  deriving DecidableEq, Repr

def Writing.text : Writing → String
  | .handwritten => "handwritten"
  | .typed => "typed"
  | .printed => "printed"
  | .mixed => "mixed"

def writings : List Writing := [.handwritten, .typed, .printed, .mixed]

def handWritings : List Writing := [.handwritten, .mixed]

/-- The member of a vocabulary a text names. -/
def named? {α : Type} (vocabulary : List α) (text : α → String) (name : String) : Option α :=
  vocabulary.find? fun member => text member = name

def pageType? : String → Option PageType := named? pageTypes PageType.text
def entryKind? : String → Option EntryKind := named? entryKinds EntryKind.text
def writing? : String → Option Writing := named? writings Writing.text

/-- The two classes every record after the answer carries as its kind. -/
inductive ActClass where
  | act
  | other
  deriving DecidableEq, Repr

def ActClass.text : ActClass → String
  | act => "act"
  | other => "other"

def actClassKinds : List EntryKind := [.act, .instrument]

/-- The kinds that are rows of a list. -/
def rowKinds : List EntryKind := [.indexRow, .tableRow, .ledgerEntry]

def actClass (kind : EntryKind) : ActClass := if kind ∈ actClassKinds then .act else .other

/-- The kinds a page of a type is expected to hold beside `other`. -/
def expectedKinds : PageType → List EntryKind
  | .registerActs => [.act]
  | .index => [.indexRow]
  | .table => [.tableRow]
  | .ledger => [.ledgerEntry, .tableRow]
  | .instrument => [.instrument, .tableRow]
  | .prose => [.paragraph]
  | .blank => []

/-- Whether a check applies to a page, and why. -/
structure Applicability where
  applies : Bool
  reason : String

def Writing.stated (writing : Option Writing) : String := (writing.map Writing.text).getD "None"

/-- Whether the record detector's rule applies; every other rule applies to every page. -/
def applicability (pageType : Option PageType) (writing : Option Writing) : Applicability :=
  let written := Writing.stated writing
  match pageType with
  | none => ⟨true, "no valid answer stated a type: every check applies"⟩
  | some .registerActs =>
    if writing ∈ handWritings.map some then
      ⟨true, written ++ " register acts: the record detector's own page type"⟩
    else ⟨false, written ++ " register acts: the record detector was built for handwriting"⟩
  | some other => ⟨false, other.text ++ " page: the record detector finds register acts"⟩

/-- A unit of a witness as the feed shows it. -/
structure FeedUnit where
  id : String
  boxPx : Option Ink.Bounds
  text : String
  label : Option String

structure FeedWitness where
  letter : String
  chair : Option String
  outcome : Option String
  units : List FeedUnit

/-- A line or a block of the layout detector as the feed shows it. -/
structure FeedDetection where
  id : String
  boxPx : Ink.Bounds
  label : Option String

structure FeedSurya where
  lines : List FeedDetection
  blocks : List FeedDetection

structure PageSize where
  w : ℤ
  h : ℤ

/-- What the model was shown of one page. -/
structure Feed where
  pageId : String
  pageOrdinal : ℤ
  pageSize : PageSize
  witnessUnits : String
  witnesses : List FeedWitness
  surya : Option FeedSurya

def tableLabel : String := "Table"

/-- What the detectors found that bears on the page type. -/
structure TypeFacts where
  suryaTableBlocks : Option ℕ
  witnessTableUnits : List (String × ℕ)
  detectorRecords : Option ℕ

def shownBlocks (feed : Feed) : Option (List FeedDetection) :=
  feed.surya.bind fun surya => if surya.blocks = [] then none else some surya.blocks

def typeFacts (feed : Feed) (recordCount : Option ℕ) : TypeFacts where
  suryaTableBlocks := (shownBlocks feed).map fun blocks =>
    blocks.countP fun block => block.label = some tableLabel
  witnessTableUnits := (feed.witnesses.filter fun row => row.units ≠ []).foldl
    (fun facts row => assign facts
      (match row.chair with
        | none | some "" => row.letter
        | some chair => chair)
      (row.units.countP fun unit => unit.label = some tableLabel)) []
  detectorRecords := recordCount

def tableEvidence (facts : TypeFacts) : Option Bool :=
  let seen := facts.suryaTableBlocks :: facts.witnessTableUnits.map fun row => some row.2
  let measured := seen.filterMap id
  if measured = [] then none else some (measured.any (0 < ·))

/-- One model-free check of the stated type; no verdict where its facts were not measured. -/
structure TypeCheck where
  check : String
  agrees : Option Bool
  detail : String

def foundText : Option Bool → String
  | some true => "was found"
  | some false => "was not found"
  | none => "unmeasured"

def tableCheck (pageType : PageType) (facts : TypeFacts) : List TypeCheck :=
  let table := tableEvidence facts
  match pageType with
  | .index | .table | .ledger =>
    [⟨"table-evidence", table, s!"a {pageType.text} page; a Table block or unit " ++ foundText table⟩]
  | .registerActs =>
    [⟨"table-evidence", table.map (!·),
      "a register-acts page; a Table block or unit " ++ foundText table⟩]
  | _ => []

def recordsText (records : Option ℕ) : String := (records.map toString).getD "None"

def recordsCheck (pageType : PageType) (writing : Option Writing) (facts : TypeFacts) :
    List TypeCheck :=
  let records := facts.detectorRecords
  match pageType with
  | .registerActs =>
    if writing ∈ handWritings.map some then
      [⟨"detector-records", records.map (0 < ·),
        "handwritten register acts; the record detector found " ++ recordsText records⟩]
    else []
  | .index | .table =>
    [⟨"detector-records", records.map (· = 0),
      s!"a {pageType.text} page; the record detector found " ++ recordsText records⟩]
  | _ => []

def typeAgreement (pageType : Option PageType) (writing : Option Writing) (facts : TypeFacts) :
    List TypeCheck :=
  match pageType with
  | none => []
  | some stated => tableCheck stated facts ++ recordsCheck stated writing facts

structure KindAgreement where
  agrees : Bool
  unexpectedKinds : List String

/-- The entries whose kind a page of the stated type is not expected to hold. -/
def kindAgreement (pageType : Option PageType) (kinds : List EntryKind) : Option KindAgreement :=
  pageType.map fun stated =>
    let unexpected := sortedSet ((kinds.filter fun kind =>
      kind ∉ expectedKinds stated ∧ kind ≠ .other).map EntryKind.text)
    ⟨unexpected = [], unexpected⟩

end Verbatus.PageReading
