import Mathlib.Tactic
import Verbatus.Review.Apply

namespace Verbatus.Review

open Library Library.Checked Refusal Contracts

variable {Digest : Type} [LinearOrder Digest]

/-- A derived unit with the outcome and payload a review gave it; its sealed holds stay. -/
def DerivedUnit.reviewedAs (unit : DerivedUnit Digest) (reviewed : UnitResult Digest) :
    DerivedUnit Digest :=
  { unit with outcome := reviewed.outcome, payload := reviewed.payload }

/-- Each derived unit as the review of an application publishes it. -/
def published (derived : DerivedReview Digest) (result : Applied Digest) :
    List (DerivedUnit Digest) :=
  derived.units.filterMap fun unit =>
    (result.units.lookup unit.actId).map unit.reviewedAs

variable {hashing : Hashing Digest} {derived : DerivedReview Digest}
  {decisions : List (ApprovalRecord Digest)} {result : Applied Digest}

/-- A published unit is read back as the machine's own entry, whatever the review did to it. -/
theorem publishedEntry_reviewedAs {unit : DerivedUnit Digest} {entry : UnitEntry Digest}
    (row : unitBasis hashing unit = .ok (unit.actId, entry)) (page : PageResult Digest)
    (summaries : List (Summary Digest)) (kinds : Kinds) :
    publishedEntry hashing
      (unit.reviewedAs (unitResult unit.actId unit entry page summaries kinds)) =
        .ok (unit.actId, entry) := by
  have of := (unitBasis_entryOf row).2
  unfold unitResult
  dsimp only
  split_ifs with untouched
  · -- No decision concerns the unit, so its payload is still the machine's.
    rw [← row]
    simp only [publishedEntry, DerivedUnit.reviewedAs, of.unreviewed]
  · simp only [publishedEntry, DerivedUnit.reviewedAs, reviewedPayload, ← of.pageId,
      ← of.pageOrdinal, ← of.actKey, ← of.unitClass, ← of.kind, ← of.pageHolds, ← of.outcome]

/-- The reviews an application publishes have the machine's own entries. -/
theorem published_entries (accepted : applyDecisions hashing derived decisions = .ok result) :
    (published derived result).mapM (publishedEntry hashing) =
      derived.units.mapM (unitBasis hashing) := by
  obtain ⟨basis, checked, built, -, rfl⟩ := applyDecisions_eq_ok.mp accepted
  have each : ∀ unit ∈ derived.units, ∃ entry page, Described hashing basis unit entry page :=
    fun unit member => currentBasis_described built member
  suffices agree : ∀ units : List (DerivedUnit Digest), (∀ unit ∈ units, unit ∈ derived.units) →
      (units.filterMap fun unit => ((appliedTo hashing derived basis checked).units.lookup
        unit.actId).map unit.reviewedAs).mapM (publishedEntry hashing) =
          units.mapM (unitBasis hashing) from agree derived.units fun _ member => member
  intro units within
  induction units with
  | nil => rfl
  | cons unit units ih =>
      have member := within unit (.head _)
      obtain ⟨entry, page, described⟩ := each unit member
      rw [List.filterMap_cons, lookup_appliedTo_units built checked member described,
        Option.map_some]
      dsimp only
      rw [List.mapM_cons, List.mapM_cons, publishedEntry_reviewedAs described.row, described.row,
        ih fun other listed => within other (.tail _ listed)]

/-- Two bases over the same entries are one when they exclude the same acts on each page. -/
theorem basisOver_unique {runId : String} {entries : List (String × UnitEntry Digest)}
    {first second : List (ApprovalRecord Digest)} {one other : Basis Digest}
    (left : basisOver hashing runId entries first = .ok one)
    (right : basisOver hashing runId entries second = .ok other)
    (same : ∀ pageId, (one.pages.lookup pageId).map PageEntry.excludedActs =
      (other.pages.lookup pageId).map PageEntry.excludedActs) : one = other := by
  obtain ⟨-, -, excluded, -, rfl⟩ := basisOver_eq_ok.mp left
  obtain ⟨-, -, also, -, rfl⟩ := basisOver_eq_ok.mp right
  simp only [lookup_pagesOf, Option.map_map, Function.comp_def] at same
  rw [Basis.mk.injEq]
  refine ⟨rfl, rfl, ?_⟩
  refine List.filterMap_congr fun pageId _ => Option.map_congr fun first found => ?_
  have acts := same pageId
  rw [Option.mem_def.mp found, Option.map_some, Option.map_some, Option.some_inj] at acts
  simp only [pageEntry] at acts ⊢
  rw [acts]

/-- What a person reads in the published reviews is the basis the next pass derives, so a
decision bound to it is checked there as it is here. -/
theorem publishedBasis_published (accepted : applyDecisions hashing derived decisions = .ok result) :
    (∀ later, publishedBasis hashing derived.runId (published derived result) later =
      currentBasis hashing derived later) ∧
    ∀ later next seen current,
      publishedBasis hashing derived.runId (published derived result) later = .ok seen →
      currentBasis hashing derived next = .ok current →
      (∀ pageId, (seen.pages.lookup pageId).map PageEntry.excludedActs =
        (current.pages.lookup pageId).map PageEntry.excludedActs) →
      ∀ record, reviewDecision hashing seen record = reviewDecision hashing current record := by
  have readBack : ∀ later, publishedBasis hashing derived.runId (published derived result) later =
      currentBasis hashing derived later := by
    intro later
    obtain ⟨basis, _, built, -, -⟩ := applyDecisions_eq_ok.mp accepted
    obtain ⟨named, -⟩ := currentBasis_eq_ok.mp built
    rw [publishedBasis, currentBasis, require_bind_of named, require_bind_of named,
      published_entries accepted]
  refine ⟨readBack, fun later next seen current read derivedNext same record => ?_⟩
  rw [readBack] at read
  obtain ⟨-, entries, rows, left⟩ := currentBasis_eq_ok.mp read
  obtain ⟨-, others, again, right⟩ := currentBasis_eq_ok.mp derivedNext
  rw [rows] at again
  cases again
  rw [basisOver_unique left right same]

section Sample

/-- A hashing that writes its values out. -/
def writtenOut : Hashing String where
  selfHash body := quote body.subjectIds ++
    quote (body.review.map ReviewBlock.decision) ++ body.targetVersionHash
  record record := record.selfHash
  correction correction := quote correction.text ++ quote correction.note
  payload payload := payload.actKey ++ quote payload.holdCodes
  page pageId units excluded :=
    pageId ++ quote (units.map fun unit => unit.1 ++ unit.2) ++ quote excluded
  decisions hashes := quote hashes

/-- An entry of one page, as the machine reviews it with these holds. -/
def sampleUnit (actId kind : String) (holdCodes unitHolds pageHolds : List String) :
    DerivedUnit String where
  actId := actId
  pageId := "page-1"
  outcome := derivedOutcome holdCodes readingClass
  payload := {
    holdCodes
    pageOrdinal := 1
    actKey := actId
    unitClass := readingClass
    kind := some kind
    reason := "the machine's reason"
    rest := ""
    attemptOrdinal := none
    operatorReview := none }
  unitHolds := unitHolds
  pageHolds := pageHolds

def sampleDecision (scope : ReviewScope) (subject : String) (decision : ReviewDecision)
    (digest : String) : ApprovalRecord String :=
  let body : ApprovalBody String := {
    subjectIds := [subject]
    action := .review
    approver := approver
    reason := "read against the page"
    targetVersionHash := digest
    timestamp := "2026-01-01T00:00:00Z"
    review := some {
      runId := "run-1"
      scope
      pageId := "page-1"
      decision
      finding := if decision = .hold then some .other else none
      correction := none } }
  { body with selfHash := writtenOut.selfHash body }

/-- Two acts of one page, the first held by its own reading. -/
def heldReview : DerivedReview String :=
  ⟨"run-1", [sampleUnit "act-1" "act" ["text-doubt"] ["text-doubt"] [],
    sampleUnit "act-2" "act" [] [] []]⟩

def releaseAct : ApprovalRecord String :=
  sampleDecision .unit "act-1" .release
    (writtenOut.payload (sampleUnit "act-1" "act" ["text-doubt"] [] []).payload)

/-- A release published with its review is read back as the machine's own basis. -/
theorem publishedBasis_published_release :
    ∃ result, applyDecisions writtenOut heldReview [releaseAct] = .ok result ∧
      (result.units.lookup "act-1").map UnitResult.outcome = some .accepted ∧
      ∀ later, publishedBasis writtenOut "run-1" (published heldReview result) later =
        currentBasis writtenOut heldReview later := by
  obtain ⟨result, accepted, outcome⟩ := exists_ok_of_any (applyDecisions writtenOut
    heldReview [releaseAct]) (fun result =>
      (result.units.lookup "act-1").map UnitResult.outcome = some .accepted) (by decide +kernel)
  exact ⟨result, accepted, of_decide_eq_true outcome, (publishedBasis_published accepted).1⟩

end Sample

end Verbatus.Review
