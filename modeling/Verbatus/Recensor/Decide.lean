import Verbatus.Recensor.Establish
import Verbatus.Review.Results

namespace Verbatus.Recensor

open Library Library.Checked Refusal Contracts Review

/-- The code of a unit its decisions would accept and its reading keeps held. -/
def readingHeldCode : String := "review-reading-held"

def reviewDecisionsSchema : String := "recensor-review-decisions.v1"

variable {Digest : Type}

/-- One unit's planned review, with the evidence it cites. -/
structure Plan (Digest : Type) where
  act : CountedRow
  outcome : Outcome
  review : PageReview Digest
  inputs : List String

/-- A planned review once decided, with the exclusion it rests on. -/
structure Decided (Digest : Type) extends Plan Digest where
  approvalRef : Option String
  /-- The codes that hold the unit again, where its decisions could not complete it. -/
  reheld : Option (List String)

/-- One stored operator decision, by the reference it is kept under. -/
structure StoredDecision (Digest : Type) where
  relativePath : String
  sha256 : Digest
  record : ApprovalRecord Digest

/-- What one pass did with the run's operator decisions. -/
structure ReviewDecisions (Digest : Type) where
  schema : String
  decisionsDigest : Digest
  applied : List (Summary Digest)
  stale : List (Summary Digest)
  conflicting : List (Summary Digest)
  carried : List (Summary Digest)
  unkept : List (Summary Digest)
  clearances : List (Clearance Digest)
  corrections : List (CorrectionRow Digest)
  pageHolds : List (ℤ × List String)
  requests : List (Request Digest)

def Plan.derivedUnit (written : ReviewFacts → String) (plan : Plan Digest) : DerivedUnit Digest where
  actId := plan.act.actId
  pageId := plan.act.pageId
  outcome := plan.outcome
  payload := plan.review.payload written
  unitHolds := plan.act.unitHolds
  pageHolds := plan.act.pageHolds

/-- The machine's reviews as operator decisions read them. -/
def derivedReview (written : ReviewFacts → String) (runId : String) (planned : List (Plan Digest)) :
    DerivedReview Digest where
  runId := runId
  units := planned.map (Plan.derivedUnit written)

/-- What a refusal of the accounting said; any other exception is raised on. -/
def fatalMessage {α : Type} (attempt : Except Refusal α) : Except Refusal (Option String) :=
  match attempt with
  | .ok _ => .ok none
  | .error (.fatalAccounting message) => .ok (some message)
  | .error raised => .error raised

section Decide

variable [LinearOrder Digest]

/-- Why this unit's reading would not be established were its review accepted. -/
def notEstablishable (act : CountedRow) (review : PageReview Digest) :
    Except Refusal (Option String) :=
  if act.perlectio = none then .ok none else do
  let correction ← operatorCorrection act ⟨.accepted, review⟩ none
  let refusal := if act.holdCodes ≠ [] ∨ correction.isSome then
    overrideRefusal act correction.isSome else none
  if refusal.isSome then .ok refusal else
  fatalMessage (requireEstablishable act ⟨.accepted, review⟩ none)

omit [LinearOrder Digest] in
/-- A decided review that stays held because no decision can send its reading to export. -/
def readingHeld (act : CountedRow) (review : PageReview Digest) (refusal : String) :
    Except Refusal (PageReview Digest) :=
  match review.operatorReview with
  | none => .error (.keyError "operator_review")
  | some block =>
    let readingCodes :=
      if act.holdCodes = [] then "no code" else ", ".intercalate act.holdCodes
    let held := review.holdCodes ++ act.holdCodes ++ [readingHeldCode]
    .ok { review with
      holdCodes := sortedSet held
      reason := s!"operator review would release it, but its page reading holds it " ++
        s!"({readingCodes}) and no decision can send that reading to export ({refusal}), so it " ++
        s!"stays held ({readingHeldCode}); {review.reason}"
      operatorReview := some { block with
        cleared := ⟨block.cleared.unit.filter (· ∉ held), block.cleared.page.filter (· ∉ held)⟩
        added := sortedSet (block.added ++ [readingHeldCode]) } }

/-- The stored path of a current exclusion of a unit. -/
def exclusionPath [ToString Digest] (stored : List (StoredDecision Digest))
    (applied : List (Summary Digest)) (actId : String) : Except Refusal String :=
  let excluding := applied.filter fun summary =>
    summary.scope = .unit ∧ summary.subjectId = actId ∧ summary.decision = .exclude
  match (excluding.map Summary.recordSha256).min? with
  | none => .error (.valueError "min() iterable argument is empty")
  | some least =>
    match (dictOf (stored.map fun decision => (decision.sha256, decision.relativePath))).lookup
      least with
    | none => .error (.keyError (toString least))
    | some path => .ok path

/-- One planned review with the run's decisions applied. -/
def decidePlan [ToString Digest] (stored : List (StoredDecision Digest)) (result : Applied Digest)
    (plan : Plan Digest) : Except Refusal (Decided Digest) :=
  match result.units.lookup plan.act.actId with
  | none => .error (.keyError plan.act.actId)
  | some unit => do
    let review := plan.review.decided unit.payload
    let excluded := if unit.outcome = .excluded then
      (exclusionPath stored result.applied plan.act.actId).map some else .ok none
    let approvalRef ← excluded
    let refused := if unit.outcome = .accepted ∧ plan.outcome ≠ .accepted then
      notEstablishable plan.act review else .ok none
    let refusal ← refused
    match refusal with
    | none =>
      .ok { plan with
        outcome := unit.outcome, review := review.queued, approvalRef, reheld := none }
    | some refusal => do
      let held ← readingHeld plan.act review refusal
      return { plan with
        outcome := .heldForReview, review := held.queued, approvalRef,
        reheld := some held.holdCodes }

omit [LinearOrder Digest] in
/-- The codes that hold a unit again, or any unit of a page. -/
def heldAgain (decided : List (Decided Digest)) (scope : ReviewScope) (subject : String) :
    List String :=
  decided.flatMap fun final =>
    let named := match scope with
      | .unit => final.act.actId
      | .page => final.act.pageId
    if named = subject then final.reheld.getD [] else []

omit [LinearOrder Digest] in
/-- A clearance without the codes that hold again, or nothing once it has cleared none. -/
def effectiveClearance (decided : List (Decided Digest)) (row : Clearance Digest) :
    Option (Clearance Digest) :=
  let held := heldAgain decided row.scope row.subjectId
  if held = [] then some row else
  let cleared := row.cleared.filter (· ∉ held)
  if cleared = [] then none else some { row with cleared }

/-- Each page still held once decisions are applied, by ordinal, with its page-scope codes. -/
def heldPages (result : Applied Digest) : List (ℤ × List String) :=
  dictOf ((result.pages.filter fun page => page.2.holdCodes ≠ []).map fun page =>
    (page.2.pageOrdinal, page.2.holdCodes))

/-- The record of what the pass did, over the reviews it decided. -/
def decisionsRecord (result : Applied Digest) (decided : List (Decided Digest)) :
    ReviewDecisions Digest where
  schema := reviewDecisionsSchema
  decisionsDigest := result.decisionsDigest
  applied := result.applied
  stale := result.stale
  conflicting := result.conflicting
  carried := result.carried
  unkept := result.unkept
  clearances := result.clearances.filterMap (effectiveClearance decided)
  corrections := result.corrections.filter fun row =>
    ∀ final ∈ decided, final.act.actId = row.subjectId → final.reheld = none
  pageHolds := sortBy Prod.fst (heldPages result)
  requests := result.requests

/-- Every planned review with the run's operator decisions applied, and their record. -/
def decideReviews [ToString Digest] (hashing : Hashing Digest) (written : ReviewFacts → String)
    (runId : String) (stored : List (StoredDecision Digest)) (planned : List (Plan Digest)) :
    Except Refusal (List (Decided Digest) × Option (ReviewDecisions Digest)) :=
  if stored = [] then
    .ok (planned.map fun plan => { plan with approvalRef := none, reheld := none }, none)
  else do
  let result ← applyDecisions hashing (derivedReview written runId planned)
    (stored.map StoredDecision.record)
  let decided ← planned.mapM (decidePlan stored result)
  return (decided, some (decisionsRecord result decided))

omit [LinearOrder Digest] in
/-- The decisions a record applied, by self-hash; none without a record. -/
def appliedDecisionHashes (record : Option (ReviewDecisions Digest)) : List Digest :=
  (record.map fun record => record.applied.map Summary.decisionHash).getD []

end Decide

end Verbatus.Recensor
