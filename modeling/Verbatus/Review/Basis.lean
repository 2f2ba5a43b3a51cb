import Mathlib.Tactic
import Verbatus.Contracts.Approval

namespace Verbatus.Review

open Library Library.Checked Refusal Contracts

/-- The words a Recensor review ends in. -/
inductive Outcome where
  | accepted
  | heldForReview
  | confirmedBlank
  | excluded
  | failed
  deriving DecidableEq, Repr

def Outcome.text : Outcome → String
  | accepted => "accepted"
  | heldForReview => "held-for-review"
  | confirmedBlank => "confirmed-blank"
  | excluded => "excluded"
  | failed => "failed"

def readingClass : String := "reading"
def readingUnplacedClass : String := "reading-unplaced"
def pageUnreadClass : String := "page-unread"
def pageBlankClass : String := "page-blank"
def pageUnreadHold : String := "page-unread"
def pageBlankHold : String := "page-blank-unconfirmed"
def noActOnPageHold : String := "no-act-on-page-unconfirmed"

def readingClasses : List String := [readingClass, readingUnplacedClass]

/-- A page-level row stands for its whole page, so all its holds are page scope. -/
def pageRowClasses : List String := [pageUnreadClass, pageBlankClass]

def recensorUnitCodes : List String :=
  ["uncertainty-assessment-malformed", "continuation-off-page-edge"]

def recensorPageCodes : List String :=
  ["under-witnessed", "unresolved-witness", "residual-ink", "residual-ink-not-measurable",
    "residual-ink-not-measured"]

def rowPageCodes : List String := [pageUnreadHold, pageBlankHold, noActOnPageHold]

/-- Holds stage 4 puts on every entry of a page for a fact about the whole page. -/
def pageWideEntryCodes : List String :=
  ["no-autopsia", "superseded-act-not-read", "page-doubt-share-high"]

/-- Holds by scope. -/
structure Scopes where
  unit : List String
  page : List String
  deriving DecidableEq

/-- Why a decision is stale. -/
inductive StaleBecause where
  | subjectAbsent
  | basisChanged
  deriving DecidableEq, Repr

inductive SummaryState where
  | current
  | stale
  | conflicting
  deriving DecidableEq, Repr

/-- One decision as a review keeps it, checked against a basis. -/
structure Summary (Digest : Type) where
  decisionHash : Digest
  recordSha256 : Digest
  scope : ReviewScope
  subjectId : String
  pageId : String
  decision : ReviewDecision
  finding : Option Finding
  basisDigest : Digest
  reason : String
  state : SummaryState
  staleBecause : Option StaleBecause
  correctionDigest : Option Digest
  deriving DecidableEq

/-- What an applied review adds to a unit's payload. -/
structure OperatorReview (Digest : Type) where
  basisDigest : Digest
  pageBasisDigest : Digest
  machineOutcome : Outcome
  machineHoldCodes : List String
  scopes : Scopes
  cleared : Scopes
  added : List String
  carried : List String
  findings : List String
  decisions : List (Summary Digest)
  deriving DecidableEq

/-- A unit's review payload; `rest` is every field a review neither reads nor writes. -/
structure Payload (Digest : Type) where
  holdCodes : List String
  pageOrdinal : ℤ
  actKey : String
  unitClass : String
  kind : Option String
  reason : String
  rest : String
  attemptOrdinal : Option ℤ
  operatorReview : Option (OperatorReview Digest)
  deriving DecidableEq

structure DerivedUnit (Digest : Type) where
  actId : String
  pageId : String
  outcome : Outcome
  payload : Payload Digest
  unitHolds : List String
  pageHolds : List String
  deriving DecidableEq

/-- The Recensor's review as the machine derives it, before any decision. -/
structure DerivedReview (Digest : Type) where
  runId : String
  units : List (DerivedUnit Digest)

/-- The digests a review binds decisions to. -/
structure Hashing (Digest : Type) extends ApprovalHashing Digest where
  payload : Payload Digest → Digest
  page : String → List (String × Digest) → List String → Digest
  decisions : List Digest → Digest

structure UnitEntry (Digest : Type) where
  pageId : String
  pageOrdinal : ℤ
  actKey : String
  unitClass : String
  outcome : Outcome
  basisDigest : Digest
  kind : Option String
  pageHolds : List String
  unitCodes : List String
  pageCodes : List String
  deriving DecidableEq

structure PageEntry (Digest : Type) where
  pageOrdinal : ℤ
  pageHolds : List String
  basisDigest : Digest
  units : List String
  actUnits : List String
  excludedActs : List String
  pageCodes : List String
  deriving DecidableEq

/-- Every unit and page a decision can bind to, its units in order of their ids. -/
structure Basis (Digest : Type) where
  runId : String
  units : List (String × UnitEntry Digest)
  pages : List (String × PageEntry Digest)
  deriving DecidableEq

/-- The one decision a subject's current decisions make, or that they differ. -/
inductive Kind where
  | one (decision : ReviewDecision)
  | conflict
  deriving DecidableEq, Repr

section Scope

/-- A unit's hold codes by scope; a code of neither scope is refused. -/
def classifyHolds (holdCodes : List String) (unitClass : String) (unitHolds pageHolds : List String) :
    Except Refusal Scopes :=
  let codes := sortedSet holdCodes
  if unitClass ∈ pageRowClasses then .ok ⟨[], codes⟩ else do
  require (unitClass ∈ readingClasses)
    (.fatalAccounting s!"a review names unit class {quote unitClass}")
  let unit := codes.filter fun code =>
    (code ∈ unitHolds ∨ code ∈ recensorUnitCodes) ∧ code ∉ pageWideEntryCodes
  let page := codes.filter fun code =>
    code ∈ pageHolds ∨ code ∈ recensorPageCodes ∨ code ∈ rowPageCodes ∨ code ∈ pageWideEntryCodes
  let unknown := codes.filter fun code => code ∉ unit ∧ code ∉ page
  require (unknown = []) (.fatalAccounting
    (s!"hold code(s) {quote unknown} are neither the entry's own nor its page's, so no " ++
    "decision can be bound to their scope"))
  return ⟨unit, page⟩

def derivedOutcome (holdCodes : List String) (unitClass : String) : Outcome :=
  if holdCodes ≠ [] then .heldForReview
  else if unitClass = pageBlankClass then .confirmedBlank
  else .accepted

end Scope

section Basis

variable {Digest : Type} [DecidableEq Digest] (hashing : Hashing Digest)

/-- The digest a unit decision binds to: the machine's payload, before any decision. -/
def basisDigest (payload : Payload Digest) : Except Refusal Digest := do
  require (payload.operatorReview.isNone ∧ payload.attemptOrdinal.isNone) (.fatalAccounting
    ("a review basis is the payload the machine derives before any decision is " ++
    "applied or any attempt stamped; this one already carries one"))
  return hashing.payload payload

def unitBasis (unit : DerivedUnit Digest) : Except Refusal (String × UnitEntry Digest) := do
  require (unit.actId ≠ "" ∧ unit.pageId ≠ "")
    (.fatalAccounting "a derived review unit names no act id or page id")
  require ("" ∉ unit.payload.holdCodes ∧ "" ∉ unit.unitHolds ∧ "" ∉ unit.pageHolds)
    (.fatalAccounting s!"unit {quote unit.actId} names its holds as something other than codes")
  let scopes ← classifyHolds unit.payload.holdCodes unit.payload.unitClass unit.unitHolds
    unit.pageHolds
  require (unit.outcome = derivedOutcome unit.payload.holdCodes unit.payload.unitClass)
    (.fatalAccounting
      (s!"unit {quote unit.actId} is {quote unit.outcome.text} with hold codes " ++
      s!"{quote unit.payload.holdCodes}; a machine " ++
      "review is held exactly when a code holds it"))
  let digest ← basisDigest hashing unit.payload
  return (unit.actId, {
    pageId := unit.pageId
    pageOrdinal := unit.payload.pageOrdinal
    actKey := unit.payload.actKey
    unitClass := unit.payload.unitClass
    outcome := unit.outcome
    basisDigest := digest
    kind := unit.payload.kind
    pageHolds := sortedSet unit.pageHolds
    unitCodes := scopes.unit
    pageCodes := scopes.page })

/-- Refuses a bound decision its subject's current state does not allow. -/
def requireAllowedUnit (decision : ReviewDecision) (subject : String) (found : UnitEntry Digest) :
    Except Refusal Unit := do
  let what := s!"{decision.text} of unit {quote subject}"
  require (found.unitClass ∈ readingClasses) (.approvalRefusal
    s!"a {what}: a page-level row stands for its page and takes page decisions")
  require (decision = .release → found.unitCodes ≠ [])
    (.approvalRefusal s!"a {what}: the unit has no hold of its own to release")
  require (decision = .edit → found.outcome = .heldForReview)
    (.approvalRefusal s!"a {what}: only a held reading is corrected by a person")

def requireAllowedPage (decision : ReviewDecision) (subject : String) (found : PageEntry Digest) :
    Except Refusal Unit :=
  require (decision = .noMissedAct → pageUnreadHold ∉ found.pageCodes) (.approvalRefusal
    (s!"a {decision.text} of page {quote subject}: the page was never read, so nothing shows " ++
    "whether an act is on it"))

/-- A decision's summary while nothing has been found out about its basis. -/
def summaryOf (record : ApprovalRecord Digest) (review : ReviewBlock) (subject : String) :
    Summary Digest where
  decisionHash := record.selfHash
  recordSha256 := hashing.record record
  scope := review.scope
  subjectId := subject
  pageId := review.pageId
  decision := review.decision
  finding := review.finding
  basisDigest := record.targetVersionHash
  reason := record.reason
  state := .current
  staleBecause := none
  correctionDigest := review.correction.map hashing.correction

def Summary.staled (summary : Summary Digest) (because : StaleBecause) : Summary Digest :=
  { summary with state := .stale, staleBecause := some because }

/-- A unit decision against the unit it names, if that unit is in the review. -/
def boundToUnit (summary : Summary Digest) (found : Option (UnitEntry Digest)) :
    Except Refusal (Summary Digest) :=
  match found with
  | none => .ok (summary.staled .subjectAbsent)
  | some found => do
    require (found.pageId = summary.pageId) (.approvalRefusal
      s!"a decision about unit {quote summary.subjectId} names another page")
    if found.basisDigest ≠ summary.basisDigest then .ok (summary.staled .basisChanged) else
    requireAllowedUnit summary.decision summary.subjectId found
    return summary

def boundToPage (summary : Summary Digest) (found : Option (PageEntry Digest)) :
    Except Refusal (Summary Digest) :=
  match found with
  | none => .ok (summary.staled .subjectAbsent)
  | some found =>
    if found.basisDigest ≠ summary.basisDigest then .ok (summary.staled .basisChanged) else do
    requireAllowedPage summary.decision summary.subjectId found
    return summary

/-- One decision checked against the current basis. -/
def reviewDecision (basis : Basis Digest) (record : ApprovalRecord Digest) :
    Except Refusal (Summary Digest) := do
  validateApprovalRecord hashing.toApprovalHashing record
  match record.review, record.subjectIds with
  | some review, subject :: _ => do
    require (review.runId = basis.runId) (.approvalRefusal
      (s!"a review decision for run {quote review.runId} was offered to run " ++
      s!"{quote basis.runId}"))
    let summary := summaryOf hashing record review subject
    match review.scope with
    | .unit => boundToUnit summary (basis.units.lookup subject)
    | .page => boundToPage summary (basis.pages.lookup subject)
  | _, _ => .error (.approvalRefusal
      s!"a {quote record.action.text} approval is not a review decision")

/-- What decisions about one subject come to: the one thing they all decide, or a conflict. -/
def agreed {α : Type} [DecidableEq α] (decided : List (ReviewDecision × α)) : Option Kind :=
  match decided.dedup with
  | [] => none
  | [(decision, _)] => some (.one decision)
  | _ => some .conflict

/-- What each current decision about a subject decides, with what an edit says. -/
def decided (summaries : List (Summary Digest)) (scope : ReviewScope) (subject : String) :
    List (ReviewDecision × Option Digest) :=
  (summaries.filter fun summary => summary.state = .current ∧ summary.scope = scope ∧
    summary.subjectId = subject).map fun summary => (summary.decision, summary.correctionDigest)

/-- The one decision a subject's current decisions make, or a conflict when they differ. -/
def currentKindBySubject (summaries : List (Summary Digest)) (scope : ReviewScope)
    (subject : String) : Option Kind :=
  agreed (decided summaries scope subject)

/-- A unit decision's summary; any other approval has none here. -/
def unitSummary (basis : Basis Digest) (record : ApprovalRecord Digest) :
    Except Refusal (Option (Summary Digest)) := do
  validateApprovalRecord hashing.toApprovalHashing record
  if record.action = .review ∧ record.review.map ReviewBlock.scope = some .unit then
    (reviewDecision hashing basis record).map some
  else .ok none

/-- The units the current unit decisions exclude; a unit decision binds no page digest. -/
def excludedUnits (decisions : List (ApprovalRecord Digest)) (basis : Basis Digest) :
    Except Refusal (String → Bool) := do
  let summaries ← decisions.mapM (unitSummary hashing basis)
  return fun subject => currentKindBySubject (summaries.filterMap id) .unit subject =
    some (.one .exclude)

/-- The units of one page, in order of their ids. -/
def unitsOfPage (units : List (String × UnitEntry Digest)) (pageId : String) :
    List (String × UnitEntry Digest) :=
  units.filter fun unit => unit.2.pageId = pageId

/-- One page's entry, over its own units and the units that are excluded. -/
def pageEntry (units : List (String × UnitEntry Digest)) (excluded : String → Bool)
    (pageId : String) (pageOrdinal : ℤ) (pageHolds : List String) : PageEntry Digest :=
  let members := unitsOfPage units pageId
  let actUnits := (members.filter fun unit =>
    unit.2.kind = some "act" ∧ unit.2.unitClass ∈ readingClasses).map Prod.fst
  let excludedActs := actUnits.filter excluded
  { pageOrdinal
    pageHolds
    basisDigest :=
      hashing.page pageId (members.map fun unit => (unit.1, unit.2.basisDigest)) excludedActs
    units := members.map Prod.fst
    actUnits
    excludedActs
    pageCodes := sortedSet (members.flatMap fun unit => unit.2.pageCodes) }

/-- Every unit of a page names its first unit's ordinal and page holds. -/
def checkedPages (units : List (String × UnitEntry Digest)) : Except Refusal Unit :=
  units.forM fun unit => (unitsOfPage units unit.2.pageId).head?.toList.forM fun first => do
    require (first.2.pageOrdinal = unit.2.pageOrdinal) (.fatalAccounting
      s!"page {quote unit.2.pageId} is named with two ordinals")
    require (first.2.pageHolds = unit.2.pageHolds) (.fatalAccounting
      s!"the units of page {quote unit.2.pageId} name different page accounting holds")

def pagesOf (units : List (String × UnitEntry Digest)) (excluded : String → Bool) :
    List (String × PageEntry Digest) :=
  (sortedSet (units.map fun unit => unit.2.pageId)).filterMap fun pageId =>
    (unitsOfPage units pageId).head?.map fun first =>
      (pageId, pageEntry hashing units excluded pageId first.2.pageOrdinal first.2.pageHolds)

/-- The first id named again, after those already seen. -/
def firstRepeated : List String → List String → Option String
  | _, [] => none
  | seen, id :: rest => if id ∈ seen then some id else firstRepeated (id :: seen) rest

/-- The basis over each unit's entry: its pages, their exclusions and digests. -/
def basisOver (runId : String) (entries : List (String × UnitEntry Digest))
    (decisions : List (ApprovalRecord Digest)) : Except Refusal (Basis Digest) := do
  require (entries.map Prod.fst).Nodup (.fatalAccounting
    s!"a derived review names unit {quote (firstRepeated [] (entries.map Prod.fst))} twice")
  let units := entries.insertionSort fun first second => first.1 ≤ second.1
  checkedPages units
  let excluded ← excludedUnits hashing decisions ⟨runId, units, []⟩
  return ⟨runId, units, pagesOf hashing units excluded⟩

/-- Every unit and page of a derived review, with its digest and scoped holds. -/
def currentBasis (derived : DerivedReview Digest) (decisions : List (ApprovalRecord Digest)) :
    Except Refusal (Basis Digest) := do
  require (derived.runId ≠ "")
    (.fatalAccounting "a derived review names no run and no list of units")
  let entries ← derived.units.mapM (unitBasis hashing)
  basisOver hashing derived.runId entries decisions

/-- A published unit's entry; one a decision concerns keeps the machine's own in its block. -/
def publishedEntry (unit : DerivedUnit Digest) : Except Refusal (String × UnitEntry Digest) :=
  match unit.payload.operatorReview with
  | none => unitBasis hashing unit
  | some block => .ok (unit.actId, {
      pageId := unit.pageId
      pageOrdinal := unit.payload.pageOrdinal
      actKey := unit.payload.actKey
      unitClass := unit.payload.unitClass
      outcome := block.machineOutcome
      basisDigest := block.basisDigest
      kind := unit.payload.kind
      pageHolds := sortedSet unit.pageHolds
      unitCodes := block.scopes.unit
      pageCodes := block.scopes.page })

/-- The current basis read back from the reviews a Recensor pass published. -/
def publishedBasis (runId : String) (published : List (DerivedUnit Digest))
    (decisions : List (ApprovalRecord Digest)) : Except Refusal (Basis Digest) := do
  require (runId ≠ "") (.fatalAccounting "published reviews name no run")
  let entries ← published.mapM (publishedEntry hashing)
  basisOver hashing runId entries decisions

end Basis

section Spec

variable {Digest : Type} {hashing : Hashing Digest}

/-- What a unit's entry keeps of it, and what was checked to make the entry. -/
structure EntryOf (hashing : Hashing Digest) (unit : DerivedUnit Digest)
    (entry : UnitEntry Digest) : Prop where
  pageId : entry.pageId = unit.pageId
  pageOrdinal : entry.pageOrdinal = unit.payload.pageOrdinal
  actKey : entry.actKey = unit.payload.actKey
  unitClass : entry.unitClass = unit.payload.unitClass
  outcome : entry.outcome = unit.outcome
  kind : entry.kind = unit.payload.kind
  pageHolds : entry.pageHolds = sortedSet unit.pageHolds
  scopes : classifyHolds unit.payload.holdCodes unit.payload.unitClass unit.unitHolds
    unit.pageHolds = .ok ⟨entry.unitCodes, entry.pageCodes⟩
  derived : unit.outcome = derivedOutcome unit.payload.holdCodes unit.payload.unitClass
  digest : basisDigest hashing unit.payload = .ok entry.basisDigest

theorem unitBasis_entryOf {unit : DerivedUnit Digest} {row : String × UnitEntry Digest}
    (built : unitBasis hashing unit = .ok row) :
    row.1 = unit.actId ∧ EntryOf hashing unit row.2 := by
  obtain ⟨-, built⟩ := require_bind_eq_ok.mp built
  obtain ⟨-, built⟩ := require_bind_eq_ok.mp built
  obtain ⟨scopes, classified, built⟩ := bind_eq_ok.mp built
  obtain ⟨outcome, built⟩ := require_bind_eq_ok.mp built
  obtain ⟨digest, digested, built⟩ := bind_eq_ok.mp built
  rw [pure_eq_ok] at built
  subst built
  exact ⟨rfl, rfl, rfl, rfl, rfl, rfl, rfl, rfl, classified, outcome, digested⟩

theorem EntryOf.unreviewed {unit : DerivedUnit Digest} {entry : UnitEntry Digest}
    (of : EntryOf hashing unit entry) : unit.payload.operatorReview = none := by
  obtain ⟨⟨fresh, -⟩, -⟩ := require_bind_eq_ok.mp of.digest
  exact Option.isNone_iff_eq_none.mp fresh

/-- A reading's codes are each of its own scope or its page's. -/
theorem classifyHolds_covers {holdCodes unitHolds pageHolds : List String} {unitClass : String}
    {scopes : Scopes} (classified : classifyHolds holdCodes unitClass unitHolds pageHolds = .ok scopes)
    (code : String) : code ∈ holdCodes ↔ code ∈ scopes.unit ∨ code ∈ scopes.page := by
  unfold classifyHolds at classified
  dsimp only at classified
  split_ifs at classified with row
  · cases classified
    simp
  · obtain ⟨-, classified⟩ := require_bind_eq_ok.mp classified
    obtain ⟨known, classified⟩ := require_bind_eq_ok.mp classified
    rw [pure_eq_ok] at classified
    subst classified
    rw [List.filter_eq_nil_iff] at known
    have covered := known code
    simp only [mem_sortedSet, List.mem_filter, decide_eq_true_eq] at covered ⊢
    tauto

/-- A page is found by its id when a unit is on it. -/
theorem lookup_pagesOf (units : List (String × UnitEntry Digest)) (excluded : String → Bool)
    (pageId : String) :
    (pagesOf hashing units excluded).lookup pageId =
      (unitsOfPage units pageId).head?.map fun first =>
        pageEntry hashing units excluded pageId first.2.pageOrdinal first.2.pageHolds := by
  have keyed := lookup_keyed (sortedSet (units.map fun unit => unit.2.pageId))
    (fun pageId => (unitsOfPage units pageId).head?.map fun first =>
      pageEntry hashing units excluded pageId first.2.pageOrdinal first.2.pageHolds) pageId
  simp only [Option.map_map, Function.comp_def] at keyed
  rw [pagesOf, keyed]
  split_ifs with present
  · rfl
  · have none_of : unitsOfPage units pageId = [] := by
      rw [unitsOfPage, List.filter_eq_nil_iff]
      intro unit member same
      rw [mem_sortedSet] at present
      exact present (List.mem_map.mpr ⟨unit, member, of_decide_eq_true same⟩)
    rw [none_of]
    rfl

theorem lookup_pagesOf_of_mem (hashing : Hashing Digest) (excluded : String → Bool)
    {units : List (String × UnitEntry Digest)} {actId : String} {entry : UnitEntry Digest}
    (member : (actId, entry) ∈ units) :
    ∃ ordinal holds, (pagesOf hashing units excluded).lookup entry.pageId =
      some (pageEntry hashing units excluded entry.pageId ordinal holds) := by
  have onPage : (actId, entry) ∈ unitsOfPage units entry.pageId :=
    List.mem_filter.mpr ⟨member, decide_eq_true rfl⟩
  obtain ⟨first, rest, same⟩ := List.exists_cons_of_ne_nil (List.ne_nil_of_mem onPage)
  rw [lookup_pagesOf, same]
  exact ⟨first.2.pageOrdinal, first.2.pageHolds, rfl⟩

variable [DecidableEq Digest]

theorem basisOver_eq_ok {runId : String} {entries : List (String × UnitEntry Digest)}
    {decisions : List (ApprovalRecord Digest)} {basis : Basis Digest} :
    basisOver hashing runId entries decisions = .ok basis ↔
      (entries.map Prod.fst).Nodup ∧
      checkedPages (entries.insertionSort fun first second => first.1 ≤ second.1) = .ok () ∧
      ∃ excluded, excludedUnits hashing decisions
          ⟨runId, entries.insertionSort fun first second => first.1 ≤ second.1, []⟩ = .ok excluded ∧
        (⟨runId, entries.insertionSort fun first second => first.1 ≤ second.1,
          pagesOf hashing (entries.insertionSort fun first second => first.1 ≤ second.1)
            excluded⟩ : Basis Digest) = basis := by
  rw [basisOver, require_bind_eq_ok]
  refine and_congr_right fun _ => ?_
  rw [bind_eq_ok]
  constructor
  · rintro ⟨⟨⟩, checked, rest⟩
    obtain ⟨excluded, found, built⟩ := bind_eq_ok.mp rest
    exact ⟨checked, excluded, found, pure_eq_ok.mp built⟩
  · rintro ⟨checked, excluded, found, built⟩
    exact ⟨(), checked, bind_eq_ok.mpr ⟨excluded, found, pure_eq_ok.mpr built⟩⟩

theorem currentBasis_eq_ok {derived : DerivedReview Digest}
    {decisions : List (ApprovalRecord Digest)} {basis : Basis Digest} :
    currentBasis hashing derived decisions = .ok basis ↔
      derived.runId ≠ "" ∧ ∃ entries, derived.units.mapM (unitBasis hashing) = .ok entries ∧
        basisOver hashing derived.runId entries decisions = .ok basis := by
  rw [currentBasis, require_bind_eq_ok, bind_eq_ok]

/-- Each derived unit has its own entry, under its own id, on its page's entry. -/
structure Described (hashing : Hashing Digest) (basis : Basis Digest) (unit : DerivedUnit Digest)
    (entry : UnitEntry Digest) (page : PageEntry Digest) : Prop where
  row : unitBasis hashing unit = .ok (unit.actId, entry)
  found : basis.units.lookup unit.actId = some entry
  onPage : basis.pages.lookup entry.pageId = some page

theorem currentBasis_ids {derived : DerivedReview Digest}
    {decisions : List (ApprovalRecord Digest)} {basis : Basis Digest}
    (built : currentBasis hashing derived decisions = .ok basis) :
    (basis.units.map Prod.fst).Perm (derived.units.map DerivedUnit.actId) ∧
      (derived.units.map DerivedUnit.actId).Nodup := by
  obtain ⟨-, entries, rows, entered⟩ := currentBasis_eq_ok.mp built
  obtain ⟨distinct, -, excluded, -, rfl⟩ := basisOver_eq_ok.mp entered
  have ids : entries.map Prod.fst = derived.units.map DerivedUnit.actId :=
    mapM_map_eq rows fun _ _ row => (unitBasis_entryOf row).1
  have sorted := (List.perm_insertionSort (fun first second : String × UnitEntry Digest =>
    first.1 ≤ second.1) entries).map Prod.fst
  rw [ids] at sorted distinct
  exact ⟨sorted, distinct⟩

theorem currentBasis_distinct {derived : DerivedReview Digest}
    {decisions : List (ApprovalRecord Digest)} {basis : Basis Digest}
    (built : currentBasis hashing derived decisions = .ok basis) :
    (basis.units.map Prod.fst).Nodup :=
  have ids := currentBasis_ids built
  ids.1.nodup_iff.mpr ids.2

theorem currentBasis_described {derived : DerivedReview Digest}
    {decisions : List (ApprovalRecord Digest)} {basis : Basis Digest}
    (built : currentBasis hashing derived decisions = .ok basis) {unit : DerivedUnit Digest}
    (member : unit ∈ derived.units) : ∃ entry page, Described hashing basis unit entry page := by
  have unique := currentBasis_distinct built
  obtain ⟨-, entries, rows, entered⟩ := currentBasis_eq_ok.mp built
  obtain ⟨distinct, -, excluded, -, rfl⟩ := basisOver_eq_ok.mp entered
  obtain ⟨⟨actId, entry⟩, listed, row⟩ := mapM_mem_left rows member
  obtain rfl : actId = unit.actId := (unitBasis_entryOf row).1
  have sorted := (List.mem_insertionSort (fun first second : String × UnitEntry Digest =>
    first.1 ≤ second.1)).mpr listed
  obtain ⟨ordinal, holds, onPage⟩ := lookup_pagesOf_of_mem hashing excluded sorted
  exact ⟨entry, _, row, (lookup_eq_some_iff_mem unique).mpr sorted, onPage⟩

end Spec

end Verbatus.Review
