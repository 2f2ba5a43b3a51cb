import Verbatus.Library.Sorting
import Verbatus.Recensor.Review

namespace Verbatus.Recensor

open Library Library.Checked Refusal Contracts Review

/-- The reading holds no operator decision overrides, each with why the export cannot carry it. -/
def notOverridable : List (String × String) :=
  [(unplaced, "the reading has no region on its page, so the export cannot cite where it is"),
    (doubtMarksMalformed, "its doubt marks could not be read, and the export delivers a reading " ++
      "only with a doubt report it can anchor"),
    (entryNoReadableText, "it has no readable text, and an empty reading is exported only as a " ++
      "proved blank")]

/-- The ones a person's edit lifts. -/
def editCarries : List String := [doubtMarksMalformed, entryNoReadableText]

/-- Why no operator decision can send this held reading to export, or nothing when one can. -/
def overrideRefusal (row : CountedRow) (edit : Bool) : Option String :=
  if row.perlectio = none ∨ row.unitClass ≠ readingClass then
    some s!"{row.actKey} is a {row.unitClass} row, which has no region on its page to export"
  else
    let blocked := (sortedSet row.holdCodes).filter fun code =>
      code ∈ notOverridable.map Prod.fst ∧ ¬ (edit = true ∧ code ∈ editCarries)
    if blocked = [] then none
    else some ("; ".intercalate (blocked.map fun code =>
      code ++ ": " ++ (notOverridable.lookup code).getD ""))

section Operator

variable {Digest : Type} [LinearOrder Digest]

local instance lawfulBEqDigest : LawfulBEq Digest := inferInstance

/-- What an operator override rests on: the codes overridden and the decisions that did it. -/
structure Override (Digest : Type) where
  codes : List String
  decisions : List (Summary Digest)

/-- A review as a later stage reads it: its outcome and its payload. -/
structure RecordedReview (Digest : Type) where
  outcome : Outcome
  payload : PageReview Digest

/-- The current decisions of one kind about a subject at a basis that the pass applied. -/
def decisionsMaking (decisions : List (Summary Digest)) (scope : ReviewScope) (subject : String)
    (decision : ReviewDecision) (basis : Digest) (applied : Option (List Digest)) :
    List (Summary Digest) :=
  sortBy Summary.decisionHash (decisions.filter fun summary =>
    summary.scope = scope ∧ summary.subjectId = subject ∧ summary.decision = decision ∧
    summary.state = .current ∧ summary.basisDigest = basis ∧
    ∀ hashes ∈ applied, summary.decisionHash ∈ hashes)

/-- The current edits that correct this unit's reading, or nothing when none does. -/
def operatorCorrection (row : CountedRow) (review : RecordedReview Digest)
    (applied : Option (List Digest)) : Except Refusal (Option (List (Summary Digest))) :=
  match review.payload.operatorReview with
  | none => .ok none
  | some block =>
    if review.outcome ≠ .accepted then .ok none else
    let edits := decisionsMaking block.decisions .unit row.actId .edit block.basisDigest applied
    if 1 < (edits.map Summary.correctionDigest).dedup.length then
      .error (.fatalAccounting (s!"the operator review of {row.actKey} applies edits that say " ++
        "different things"))
    else .ok (if edits = [] then none else some edits)

/-- The decisions that clear the row's codes of one scope, where it has any. -/
def overriding (row : CountedRow) (block : OperatorReview Digest) (applied : Option (List Digest))
    (codes cleared : List String) (scope : ReviewScope) (subject : String)
    (decision : ReviewDecision) (basis : Digest) : Except Refusal (List (Summary Digest)) :=
  if ∀ code ∈ codes, code ∉ cleared then .ok [] else do
  let matching := decisionsMaking block.decisions scope subject decision basis applied
  require (matching ≠ []) (.fatalAccounting
    (s!"the operator override of {row.actKey} clears its {scope.text} holds with no current " ++
    s!"{decision.text} of its {scope.text} that the Recensor's review-decisions record applied"))
  return matching

/-- The current operator decisions that release a held reading to export, or nothing. -/
def operatorOverride (row : CountedRow) (review : RecordedReview Digest)
    (applied : Option (List Digest)) : Except Refusal (Option (Override Digest)) :=
  let codes := sortedSet row.holdCodes
  match review.payload.operatorReview with
  | none => .ok none
  | some block =>
    if review.outcome ≠ .accepted ∨ codes = [] then .ok none else
    if ¬ ∀ code ∈ codes, code ∈ block.cleared.unit ∨ code ∈ block.cleared.page then .ok none else do
    let correction ← operatorCorrection row review applied
    let refusal := overrideRefusal row correction.isSome
    require (refusal = none) (.fatalAccounting
      (s!"the operator override of {row.actKey} is refused: " ++ refusal.getD ""))
    let unitDecision := if correction.isSome then .edit else .release
    let own ← overriding row block applied codes block.cleared.unit .unit row.actId unitDecision
      block.basisDigest
    let page ← overriding row block applied codes block.cleared.page .page row.pageId .noMissedAct
      block.pageBasisDigest
    return some ⟨codes, own ++ page⟩

/-- A machine release that names exactly the row's codes, each one a reading's review may release. -/
def releasesRow (row : CountedRow) (release : Option Release) : Bool :=
  row.holdCodes ≠ [] ∧ (∀ code ∈ row.holdCodes, code ∈ releasableReadingHolds) ∧
    release.map Release.holdCodes = some (row.holdCodes.insertionSort (· ≤ ·))

/-- An accepted review stands over a reading the denominator reads, or releases its hold. -/
def requireEstablishable (row : CountedRow) (review : RecordedReview Digest)
    (applied : Option (List Digest)) : Except Refusal (Option (Override Digest)) := do
  require (review.outcome = .accepted)
    (.fatalAccounting s!"the review of {row.actKey} did not accept it")
  require row.perlectio.isSome (.fatalAccounting
    (s!"{row.actKey} is a {row.unitClass} row with no reading, yet the Recensor accepted it; a " ++
    "page with no reading has no text to establish"))
  if row.disposition = .read ∧ review.payload.release = none then .ok none else
  let overridden :=
    if review.payload.release = none then operatorOverride row review applied else .ok none
  let override ← overridden
  if override.isSome then .ok override else
  require (releasesRow row review.payload.release) (.fatalAccounting
    (s!"{row.actKey} is held (" ++
    (if row.holdCodes = [] then "no code" else ", ".intercalate row.holdCodes) ++
    "), yet the Recensor accepted it without releasing exactly those holds; a stage may not " ++
    "resurrect a held reading into an established one"))
  return none

end Operator

end Verbatus.Recensor
