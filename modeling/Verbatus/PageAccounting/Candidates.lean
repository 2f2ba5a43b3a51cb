import Verbatus.Library.Checked
import Verbatus.PageAccounting.Geometry
import Verbatus.PageAccounting.Text
import Verbatus.PageReading.Grammar

namespace Verbatus.PageAccounting

open Library Library.Checked Refusal Python PageReading Ink

/-- Every citable id of a page feed, and the box it places an entry by, or `None`. -/
abbrev Candidates := Mapping String (Option Bounds)

/-- The dict of the given rows; a later row of an id replaces an earlier one. -/
def candidatesOf (rows : List (String × Option Bounds)) : Candidates :=
  rows.foldl (fun boxes row => boxes.set row.1 row.2) .empty

/-- The letters of the layout detector's lines and blocks. -/
def detectionLetters : List Char := ['L', 'S']

/-- A letter and the digits of a positive number, as one id is written. -/
structure IdParts where
  letter : Char
  digits : List Char
  deriving DecidableEq

/-- `_ID.fullmatch` -/
def idParts? : List Char → Option IdParts
  | letter :: first :: digits =>
    if letter.isUpper ∧ first.isDigit ∧ first ≠ '0' ∧ digits.all Char.isDigit then
      some ⟨letter, first :: digits⟩
    else none
  | _ => none

/-- `_RANGE.fullmatch` -/
def rangeParts? (cite : List Char) : Option (IdParts × IdParts) :=
  match cite.span (· ≠ '-') with
  | (first, '-' :: last) => do
    let first ← idParts? first
    let last ← idParts? last
    return (first, last)
  | _ => none

/-- The digits `int` reads without raising. -/
def maxIntegerDigits : ℕ := 4300

/-- `int(digits)` -/
def readInteger (digits : List Char) : Except Refusal ℕ := do
  require (digits.length ≤ maxIntegerDigits)
    (.valueError (s!"Exceeds the limit ({maxIntegerDigits} digits) for integer string " ++
      s!"conversion: value has {digits.length} digits; use sys.set_int_max_str_digits() to " ++
      "increase the limit"))
  .ok (Nat.ofDigitChars 10 digits 0)

def isDetectionId (identifier : String) : Bool := identifier.toList.head?.any (· ∈ detectionLetters)

/-- The ids of one letter from a first number to a last one. -/
def spanIds (letter : Char) (first last : ℕ) : List String :=
  (List.range' first (last + 1 - first)).map fun number => s!"{letter}{number}"

/-- `_range_ids` -/
def rangeIds (cite : String) : Except Refusal (List String) :=
  match rangeParts? cite.toList with
  | none => .error (.typeError "'NoneType' object is not subscriptable")
  | some (first, last) => do
    let low ← readInteger first.digits
    let high ← readInteger last.digits
    .ok (spanIds first.letter low high)

/-- What is wrong with one citation, one id set aside or one flag of an answer. -/
inductive AnswerFinding where
  | answerGrammar (problem : GrammarProblem)
  | unknownId (id : String)
  | malformedRange (cite : String)
  | detectionRange (cite : String)
  | citedAndSetAside (id : String)
  | setAsideTwice (id : String)
  | setAsideWithoutReason (id : String)
  | reaskContinuation (flag : String)

namespace AnswerFinding

def code : AnswerFinding → String
  | answerGrammar _ => "answer-grammar"
  | unknownId _ => "unknown-id"
  | malformedRange _ => "malformed-range"
  | detectionRange _ => "detection-range"
  | citedAndSetAside _ => "cited-and-set-aside"
  | setAsideTwice _ => "set-aside-twice"
  | setAsideWithoutReason _ => "set-aside-without-reason"
  | reaskContinuation _ => "reask-continuation"

end AnswerFinding

/-- One finding of an answer's reading, with the entry or the set-aside row it is about. -/
structure AnswerProblem where
  finding : AnswerFinding
  n : Option ℤ
  setAsideIndex : Option ℕ

section Feed

variable (unicode : UnicodeTables) (policy : PageAccountingPolicy)

/-- Every citable id of a page feed, in feed order. -/
def feedItems (feed : Feed) : List String :=
  (feed.witnesses.flatMap fun witness => witness.units.map FeedUnit.id) ++
    match feed.surya with
    | none => []
    | some surya => (surya.lines ++ surya.blocks).map FeedDetection.id

/-- `_box` -/
def box (value : Bounds) (place : String) : Except Refusal Bounds := do
  require (0 ≤ value.x ∧ 0 ≤ value.y ∧ 0 < value.w ∧ 0 < value.h)
    (.contractError (place ++ " box_px is not \x7bx, y, w, h\x7d with x, y >= 0 and w, h > 0"))
  .ok value

/-- Whether a unit's text is long enough to claim its box's share of the page. -/
def vouchesFor (text : String) (box : Bounds) (pageArea : ℤ) : Bool :=
  let characters := (normalizedText unicode text false).length
  0 < characters &&
    area box * basisPoints ≤ policy.maxUnitAreaPerCharacterBp * characters * pageArea

def witnessUnitsFlat : String := "flat"

/-- The box a witness unit places an entry by. -/
def unitPlacement (feed : Feed) (unit : FeedUnit) : Except Refusal (String × Option Bounds) := do
  let given ← unit.boxPx.mapM fun value => box value unit.id
  let pageArea := feed.pageSize.w * feed.pageSize.h
  .ok (unit.id, given.filter fun value =>
    feed.witnessUnits ≠ witnessUnitsFlat && vouchesFor unicode policy unit.text value pageArea)

/-- Every id a page feed defines, with the box it places an entry by, or `None`. -/
def placementBoxes (feed : Feed) : Except Refusal Candidates := do
  let units ← (feed.witnesses.flatMap FeedWitness.units).mapM (unitPlacement unicode policy feed)
  let lines ← ((feed.surya.map FeedSurya.lines).getD []).mapM fun line => do
    let placed ← box line.boxPx line.id
    .ok (line.id, some placed)
  let blocks ← ((feed.surya.map FeedSurya.blocks).getD []).mapM fun block => do
    let _ ← box block.boxPx block.id
    .ok (block.id, none)
  .ok (candidatesOf (units ++ lines ++ blocks))

/-- The check of each id of the feed: its shape, and that no id before it is the same. -/
def checkFeedIds : List String → List String → Except Refusal Unit
  | _, [] => .ok ()
  | seen, identifier :: identifiers => do
    require (idParts? identifier.toList).isSome
      (.contractError s!"feed id {quote identifier} is not a letter and a number")
    require (identifier ∉ seen) (.contractError s!"feed id {identifier} appears twice")
    checkFeedIds (identifier :: seen) identifiers

/-- The numbers of the ids of one letter. -/
def numbersOf (parts : List IdParts) (letter : Char) : Except Refusal (List ℕ) :=
  (parts.filter fun found => found.letter = letter).mapM fun found => readInteger found.digits

/-- Every citable id of a page feed and the box it places an entry by. -/
def feedCandidates (feed : Feed) : Except Refusal Candidates := do
  checkFeedIds [] (feedItems feed)
  let candidates ← placementBoxes unicode policy feed
  let parts := candidates.keys.filterMap fun identifier => idParts? identifier.toList
  let _ ← parts.mapM fun found => readInteger found.digits
  (sortedSet (parts.map IdParts.letter)).forM fun letter => do
    let found ← numbersOf parts letter
    require (sortBy (fun number : ℕ => number) found = (List.range found.length).map (· + 1))
      (.contractError s!"feed ids of letter {letter} are not numbered 1..n without a gap")
  .ok candidates

end Feed

section Cites

variable (candidates : Candidates)

/-- What one citation names, or what is wrong with it. -/
def expandCite (cite : Json) : Except Refusal (List String × List AnswerFinding) :=
  match cite with
  | .str text =>
    if (idParts? text.toList).isSome then
      .ok (if text ∈ candidates then ([text], []) else ([], [.unknownId text]))
    else
      match rangeParts? text.toList with
      | none => .ok ([], [.malformedRange text])
      | some (first, last) =>
        if first.letter ≠ last.letter then .ok ([], [.malformedRange text]) else do
          let low ← readInteger first.digits
          let high ← readInteger last.digits
          if high < low then .ok ([], [.malformedRange text])
          else if first.letter ∈ detectionLetters then .ok ([], [.detectionRange text])
          else
            let span := spanIds first.letter low high
            let missing := [s!"{first.letter}{low}", s!"{first.letter}{high}"].filter
              (· ∉ candidates)
            if missing ≠ [] then .ok ([], missing.map .unknownId) else .ok (span, [])
  | other => .ok ([], [.malformedRange other.repr])

/-- The known ids a list of citations names, in the order given, and its problems. -/
def expandCites (cites : List Json) : Except Refusal (List String × List AnswerFinding) := do
  let expanded ← cites.mapM (expandCite candidates)
  .ok ((expanded.flatMap Prod.fst).eraseDups, expanded.flatMap Prod.snd)

end Cites

end Verbatus.PageAccounting
