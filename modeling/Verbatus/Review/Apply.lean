import Mathlib.Data.Prod.Lex
import Mathlib.Tactic
import Verbatus.Review.Basis

namespace Verbatus.Review

open Library Library.Checked Refusal Contracts

/-- The hold code each holding decision adds, by scope. -/
def addedCode : ReviewScope → Kind → Option String
  | .unit, .one .hold => some "review-hold"
  | .unit, .one .reAsk => some "review-reask"
  | .unit, .conflict => some "review-conflict"
  | .page, .one .missedAct => some "review-missed-act"
  | .page, .one .reAsk => some "review-page-reask"
  | .page, .one .reShoot => some "review-reshoot"
  | .page, .one .hold => some "review-page-hold"
  | .page, .conflict => some "review-page-conflict"
  | _, _ => none

/-- The hold code a stale holding decision carries onto its subject, by scope. -/
def carriedCode : ReviewScope → ReviewDecision → Option String
  | .unit, .hold => some "review-hold-carried"
  | .page, .missedAct => some "review-missed-act-carried"
  | .page, .hold => some "review-page-hold-carried"
  | _, _ => none

/-- The decisions that clear a hold of their scope. -/
def clearing : ReviewScope → ReviewDecision → Bool
  | .unit, .release => true
  | .unit, .exclude => true
  | .unit, .edit => true
  | .page, .noMissedAct => true
  | _, _ => false

/-- What a page's decisions leave on it. -/
structure PageResult (Digest : Type) where
  pageOrdinal : ℤ
  basisDigest : Digest
  decision : Option Kind
  holdCodes : List String
  cleared : List String
  added : List String
  carried : List String
  raised : List String
  decisions : List (Summary Digest)
  deriving DecidableEq

structure UnitResult (Digest : Type) where
  outcome : Outcome
  payload : Payload Digest
  deriving DecidableEq

/-- Each subject a clearing decision cleared, with the codes it cleared. -/
structure Clearance (Digest : Type) where
  scope : ReviewScope
  subjectId : String
  actKey : Option String
  pageId : String
  pageOrdinal : ℤ
  decision : ReviewDecision
  cleared : List String
  decisionHashes : List Digest
  deriving DecidableEq

/-- Each unit a person's current edit corrected and accepted. -/
structure CorrectionRow (Digest : Type) where
  subjectId : String
  actKey : String
  pageId : String
  pageOrdinal : ℤ
  cleared : List String
  decisionHashes : List Digest
  deriving DecidableEq

structure Request (Digest : Type) where
  scope : ReviewScope
  subjectId : String
  pageId : String
  pageOrdinal : ℤ
  decision : ReviewDecision
  decisionHashes : List Digest
  deriving DecidableEq

/-- The derived review with every current decision applied, and every stale one kept. -/
structure Applied (Digest : Type) where
  decisionsDigest : Digest
  units : List (String × UnitResult Digest)
  pages : List (String × PageResult Digest)
  applied : List (Summary Digest)
  stale : List (Summary Digest)
  conflicting : List (Summary Digest)
  carried : List (Summary Digest)
  unkept : List (Summary Digest)
  clearances : List (Clearance Digest)
  corrections : List (CorrectionRow Digest)
  requests : List (Request Digest)
  deriving DecidableEq

section Reason

/-- A reviewed unit's reason: what the review did, then what the machine found. -/
def reasonText (machineReason : String) (kind : Option Kind) (ordinal : ℤ)
    (clearedUnit clearedPage added findings : List String) (stale conflicting : ℕ)
    (carried still : List String) : String :=
  let listed (codes : List String) := ", ".intercalate codes
  let excluded := kind = some (.one .exclude)
  let decided :=
    if excluded then ["operator review excluded it as not an act"]
    else if kind = some (.one .edit) then
      ["operator review corrected its text (a person's edit)" ++
        if clearedUnit ≠ [] then s!", clearing its own holds ({listed clearedUnit})" else ""]
    else if clearedUnit ≠ [] then
      [s!"operator review released its own holds ({listed clearedUnit})"]
    else []
  let page :=
    if clearedPage ≠ [] then
      [s!"operator review found no missed act on page {ordinal}, clearing {listed clearedPage}"]
    else []
  let disagreeing :=
    if conflicting ≠ 0 then
      [s!"{conflicting} current operator decision(s) disagree, so none is applied and it " ++
        "is held until they agree"]
    else []
  let holding :=
    if added ≠ [] ∧ ¬ excluded then
      [s!"operator review holds it ({listed added})" ++
        if findings ≠ [] then s!" with finding(s) {listed findings}" else ""]
    else []
  let staled :=
    if stale ≠ 0 then
      [s!"{stale} operator decision(s) are stale, bound to facts that have since changed, " ++
        "and release nothing"]
    else []
  let kept :=
    if carried ≠ [] ∧ ¬ excluded then
      [s!"held by {listed carried}, carried from stale operator decision(s) until a " ++
        "person records a decision against the current basis"]
    else []
  let last :=
    if excluded ∧ (still ≠ [] ∨ added ≠ [] ∨ carried ≠ []) then
      [s!"its page stays held by {listed (sortedSet (still ++ added ++ carried))}"]
    else if still ≠ [] then [s!"still held by {listed still}"]
    else []
  let parts := decided ++ page ++ disagreeing ++ holding ++ staled ++ kept ++ last
  let said := if parts = [] then [s!"operator review decided about page {ordinal}"] else parts
  "; ".intercalate said ++ s!" (the machine's review: {machineReason})"

end Reason

section Apply

variable {Digest : Type} [LinearOrder Digest]

/-- One summary for each decision hash; a later one takes the place of an earlier. -/
def insertByHash (kept : List (Summary Digest)) (summary : Summary Digest) :
    List (Summary Digest) :=
  if summary.decisionHash ∈ kept.map Summary.decisionHash then
    kept.map fun other => if other.decisionHash = summary.decisionHash then summary else other
  else kept ++ [summary]

def byHash (summaries : List (Summary Digest)) : List (Summary Digest) :=
  summaries.foldl insertByHash []

def summaryKey (summary : Summary Digest) : String ×ₗ String ×ₗ String ×ₗ Digest :=
  toLex (summary.scope.text, toLex (summary.subjectId,
    toLex (summary.decision.text, summary.decisionHash)))

def sortSummaries (summaries : List (Summary Digest)) : List (Summary Digest) :=
  summaries.insertionSort fun first second => summaryKey first ≤ summaryKey second

@[simp] theorem sortSummaries_eq_nil {summaries : List (Summary Digest)} :
    sortSummaries summaries = [] ↔ summaries = [] := by
  rw [← List.length_eq_zero_iff, sortSummaries, List.length_insertionSort, List.length_eq_zero_iff]

/-- The one decision of each subject, as the application looks it up. -/
abbrev Kinds := ReviewScope → String → Option Kind

def withConflict (kinds : Kinds) (summary : Summary Digest) : Summary Digest :=
  if summary.state = .current ∧ kinds summary.scope summary.subjectId = some .conflict then
    { summary with state := .conflicting }
  else summary

/-- The hold codes stale holding decisions carry onto a subject that is in the review. -/
def carriedOnto (scope : ReviewScope) (subject : String) (summaries : List (Summary Digest))
    (kinds : Kinds) : List String :=
  if (kinds scope subject).isSome then [] else
  sortedSet ((summaries.filter fun summary => summary.state = .stale ∧ summary.scope = scope ∧
    summary.subjectId = subject).filterMap fun summary => carriedCode scope summary.decision)

/-- A page decision about this page, or a unit decision on it whose unit is gone. -/
def concernsPage (summary : Summary Digest) (pageId : String) (units : List String) : Bool :=
  summary.pageId = pageId ∧ (summary.scope = .page ∨ summary.subjectId ∉ units)

/-- A page's page-scope codes, and the no-act hold once its every act entry is excluded. -/
def standingCodes (page : PageEntry Digest) : List String :=
  page.pageCodes ++
    if page.actUnits ≠ [] ∧ page.excludedActs = page.actUnits then [noActOnPageHold] else []

/-- A page's holds after review: its page-scope codes, less what was cleared, plus added ones. -/
def pageResult (pageId : String) (page : PageEntry Digest) (summaries : List (Summary Digest))
    (kinds : Kinds) : PageResult Digest :=
  let kind := kinds .page pageId
  let codes := standingCodes page
  let cleared := if kind = some (.one .noMissedAct) then sortedSet codes else []
  let added := (kind.bind (addedCode .page)).toList
  let carried := carriedOnto .page pageId summaries kinds
  let holdCodes := sortedSet (codes.filter (· ∉ cleared) ++ added ++ carried)
  { pageOrdinal := page.pageOrdinal
    basisDigest := page.basisDigest
    decision := kind
    holdCodes
    cleared
    added
    carried
    raised := holdCodes.filter (· ∉ page.pageCodes)
    decisions := summaries.filter fun summary => concernsPage summary pageId page.units }

/-- Whether a unit's own decisions clear its unit-scope holds. -/
def clearsUnit : Option Kind → Bool
  | some (.one decision) => clearing .unit decision
  | _ => false

/-- The page's holds this unit carries: its own page-scope codes, less what a page decision
cleared, and any the review raised on the page. -/
def pageHeld (entry : UnitEntry Digest) (page : PageResult Digest) (kind : Option Kind) :
    List String :=
  (entry.pageCodes.filter (· ∉ page.cleared) ++ page.raised).filter fun code =>
    ¬ (kind = some (.one .exclude) ∧ code = noActOnPageHold)

/-- Every hold code a reviewed unit ends with. -/
def unitHoldCodes (entry : UnitEntry Digest) (page : PageResult Digest) (kind : Option Kind)
    (carried : List String) : List String :=
  sortedSet ((if clearsUnit kind then [] else entry.unitCodes) ++ pageHeld entry page kind ++
    (kind.bind (addedCode .unit)).toList ++ page.added ++ carried ++ page.carried)

/-- A unit's payload once the decisions touching it are applied, with what they did in its block. -/
def reviewedPayload (unit : DerivedUnit Digest) (entry : UnitEntry Digest)
    (page : PageResult Digest) (touching : List (Summary Digest)) (kind : Option Kind)
    (ownCarried : List String) : Payload Digest :=
  let machine := unit.payload
  let clearedUnit := if clearsUnit kind then entry.unitCodes else []
  let clearedPage := sortedSet (entry.pageCodes.filter (· ∈ page.cleared))
  let added := ((kind.bind (addedCode .unit)).toList ++ page.added).insertionSort (· ≤ ·)
  let carried := sortedSet (ownCarried ++ page.carried)
  let holdCodes := unitHoldCodes entry page kind ownCarried
  let findings := sortedSet ((touching.filter fun summary => summary.state = .current).filterMap
    fun summary => summary.finding.map Finding.text)
  let reason := reasonText machine.reason kind entry.pageOrdinal clearedUnit clearedPage added
    findings (touching.countP fun summary => summary.state = .stale)
    (touching.countP fun summary => summary.state = .conflicting) carried
    (holdCodes.filter fun code => code ∉ added ∧ code ∉ carried)
  { machine with
    holdCodes
    reason
    operatorReview := some {
      basisDigest := entry.basisDigest
      pageBasisDigest := page.basisDigest
      machineOutcome := unit.outcome
      machineHoldCodes := machine.holdCodes
      scopes := ⟨entry.unitCodes, entry.pageCodes⟩
      cleared := ⟨clearedUnit, clearedPage⟩
      added
      carried
      findings
      decisions := touching } }

def reviewedOutcome (holdCodes : List String) (unitClass : String) (kind : Option Kind) : Outcome :=
  if kind = some (.one .exclude) then .excluded else derivedOutcome holdCodes unitClass

def unitResult (actId : String) (unit : DerivedUnit Digest) (entry : UnitEntry Digest)
    (page : PageResult Digest) (summaries : List (Summary Digest)) (kinds : Kinds) :
    UnitResult Digest :=
  let own := summaries.filter fun summary => summary.scope = .unit ∧ summary.subjectId = actId
  let touching := sortSummaries (own ++ page.decisions)
  if touching = [] ∧ page.raised = [] then ⟨unit.outcome, unit.payload⟩ else
  let kind := kinds .unit actId
  let reviewed := reviewedPayload unit entry page touching kind (carriedOnto .unit actId own kinds)
  ⟨reviewedOutcome reviewed.holdCodes entry.unitClass kind, reviewed⟩

/-- The subjects of some summaries, in the order of their scopes and ids. -/
def subjectsOf (summaries : List (Summary Digest)) : List (ReviewScope × String) :=
  let named (scope : ReviewScope) :=
    sortedSet ((summaries.filter fun summary => summary.scope = scope).map Summary.subjectId)
  (named .page).map (ReviewScope.page, ·) ++ (named .unit).map (ReviewScope.unit, ·)

def aboutSubject (summaries : List (Summary Digest)) (subject : ReviewScope × String) :
    List (Summary Digest) :=
  summaries.filter fun summary => summary.scope = subject.1 ∧ summary.subjectId = subject.2

def clearedOf (units : List (String × UnitResult Digest)) (subject : String) : List String :=
  ((units.lookup subject).bind fun result =>
    result.payload.operatorReview.map fun block => block.cleared.unit).getD []

/-- A person's edit is not among them: it establishes the person's text as the truth. -/
def clearancesOf (basis : Basis Digest) (units : List (String × UnitResult Digest))
    (pages : List (String × PageResult Digest)) (applied : List (Summary Digest)) :
    List (Clearance Digest) :=
  let kept := applied.filter fun summary =>
    clearing summary.scope summary.decision ∧ summary.decision ≠ .edit
  (subjectsOf kept).filterMap fun subject => do
    let summary ← (aboutSubject kept subject).head?
    let hashes := (aboutSubject kept subject).map Summary.decisionHash
    match subject.1 with
    | .unit => do
      let entry ← basis.units.lookup subject.2
      some ⟨.unit, subject.2, some entry.actKey, summary.pageId, entry.pageOrdinal,
        summary.decision, clearedOf units subject.2, hashes⟩
    | .page => do
      let page ← pages.lookup subject.2
      some ⟨.page, subject.2, none, summary.pageId, page.pageOrdinal, summary.decision,
        page.cleared, hashes⟩

/-- An edited unit something else still holds is corrected by nothing yet. -/
def correctionsOf (basis : Basis Digest) (units : List (String × UnitResult Digest))
    (applied : List (Summary Digest)) : List (CorrectionRow Digest) :=
  let kept := applied.filter fun summary => summary.decision = .edit ∧
    (units.lookup summary.subjectId).map UnitResult.outcome = some .accepted
  (subjectsOf kept).filterMap fun subject => do
    let summary ← (aboutSubject kept subject).head?
    let entry ← basis.units.lookup subject.2
    some ⟨subject.2, entry.actKey, summary.pageId, entry.pageOrdinal, clearedOf units subject.2,
      (aboutSubject kept subject).map Summary.decisionHash⟩

/-- Each re-ask or re-shoot the current decisions ask the driver for. -/
def requestsOf (basis : Basis Digest) (applied : List (Summary Digest)) :
    List (Request Digest) :=
  let kept := applied.filter fun summary => summary.decision = .reAsk ∨ summary.decision = .reShoot
  (subjectsOf kept).filterMap fun subject => do
    let summary ← (aboutSubject kept subject).head?
    let ordinal ← match subject.1 with
      | .unit => (basis.units.lookup subject.2).map UnitEntry.pageOrdinal
      | .page => (basis.pages.lookup subject.2).map PageEntry.pageOrdinal
    some ⟨subject.1, subject.2, summary.pageId, ordinal, summary.decision,
      (aboutSubject kept subject).map Summary.decisionHash⟩

/-- Whether a stale holding decision still puts a hold on its subject. -/
def carries (basis : Basis Digest) (kinds : Kinds) (summary : Summary Digest) : Bool :=
  let present : Bool := match summary.scope with
    | .unit => (basis.units.lookup summary.subjectId).isSome
    | .page => (basis.pages.lookup summary.subjectId).isSome
  summary.state = .stale ∧ (kinds summary.scope summary.subjectId).isNone ∧ present ∧
    (carriedCode summary.scope summary.decision).isSome

variable (hashing : Hashing Digest)

/-- The pages of a basis, as the decisions of these summaries leave them. -/
def pageResults (basis : Basis Digest) (summaries : List (Summary Digest)) (kinds : Kinds) :
    List (String × PageResult Digest) :=
  basis.pages.map fun (pageId, page) => (pageId, pageResult pageId page summaries kinds)

def unitResults (derived : DerivedReview Digest) (basis : Basis Digest)
    (pages : List (String × PageResult Digest)) (summaries : List (Summary Digest))
    (kinds : Kinds) : List (String × UnitResult Digest) :=
  basis.units.filterMap fun (actId, entry) => do
    let unit ← derived.units.find? fun unit => unit.actId = actId
    let page ← pages.lookup entry.pageId
    some (actId, unitResult actId unit entry page summaries kinds)

def kindsOf (checked : List (Summary Digest)) : Kinds := currentKindBySubject (byHash checked)

def summariesOf (checked : List (Summary Digest)) : List (Summary Digest) :=
  sortSummaries ((byHash checked).map (withConflict (kindsOf checked)))

/-- What the checked decisions make of the derived review. -/
def appliedTo (derived : DerivedReview Digest) (basis : Basis Digest)
    (checked : List (Summary Digest)) : Applied Digest :=
  let kinds := kindsOf checked
  let summaries := summariesOf checked
  let pages := pageResults basis summaries kinds
  let units := unitResults derived basis pages summaries kinds
  let applied := summaries.filter fun summary => summary.state = .current
  let stale := summaries.filter fun summary => summary.state = .stale
  { decisionsDigest := hashing.decisions (sortedSet (summaries.map Summary.recordSha256))
    units
    pages
    applied
    stale
    conflicting := summaries.filter fun summary => summary.state = .conflicting
    carried := stale.filter (carries basis kinds)
    unkept := stale.filter fun summary => (basis.pages.lookup summary.pageId).isNone
    clearances := clearancesOf basis units pages applied
    corrections := correctionsOf basis units applied
    requests := requestsOf basis applied }

def applyDecisions (derived : DerivedReview Digest) (decisions : List (ApprovalRecord Digest)) :
    Except Refusal (Applied Digest) := do
  let basis ← currentBasis hashing derived decisions
  let checked ← decisions.mapM (reviewDecision hashing basis)
  return appliedTo hashing derived basis checked

variable {hashing}

/-- An accepted application is over the current basis and every decision checked against it. -/
theorem applyDecisions_eq_ok {derived : DerivedReview Digest}
    {decisions : List (ApprovalRecord Digest)} {result : Applied Digest} :
    applyDecisions hashing derived decisions = .ok result ↔
      ∃ basis checked, currentBasis hashing derived decisions = .ok basis ∧
        decisions.mapM (reviewDecision hashing basis) = .ok checked ∧
        appliedTo hashing derived basis checked = result := by
  simp only [applyDecisions, bind_eq_ok, pure_eq_ok]
  tauto

/-- Each unit's result is made from its own entry and its page's result. -/
theorem lookup_appliedTo_units {derived : DerivedReview Digest}
    {decisions : List (ApprovalRecord Digest)} {basis : Basis Digest}
    (built : currentBasis hashing derived decisions = .ok basis) (checked : List (Summary Digest))
    {unit : DerivedUnit Digest} (member : unit ∈ derived.units) {entry : UnitEntry Digest}
    {page : PageEntry Digest} (described : Described hashing basis unit entry page) :
    (appliedTo hashing derived basis checked).units.lookup unit.actId =
      some (unitResult unit.actId unit entry
        (pageResult entry.pageId page (summariesOf checked) (kindsOf checked))
        (summariesOf checked) (kindsOf checked)) := by
  have found : derived.units.find? (fun other => other.actId = unit.actId) = some unit := by
    have some_found : (derived.units.find? fun other => other.actId = unit.actId).isSome := by
      rw [List.find?_isSome]
      exact ⟨unit, member, decide_eq_true rfl⟩
    obtain ⟨other, present⟩ := Option.isSome_iff_exists.mp some_found
    have same : other.actId = unit.actId := by simpa using List.find?_some present
    rw [present, List.inj_on_of_nodup_map (currentBasis_ids built).2
      (List.mem_of_find?_eq_some present) member same]
  have paged : (pageResults basis (summariesOf checked) (kindsOf checked)).lookup entry.pageId =
      some (pageResult entry.pageId page (summariesOf checked) (kindsOf checked)) := by
    have rows := lookup_map basis.pages
      (fun pageId page => pageResult pageId page (summariesOf checked) (kindsOf checked)) entry.pageId
    rw [described.onPage] at rows
    exact rows
  have rows := lookup_filterMap (currentBasis_distinct built) (fun actId entry =>
    (derived.units.find? fun unit => unit.actId = actId).bind fun unit =>
      ((pageResults basis (summariesOf checked) (kindsOf checked)).lookup entry.pageId).map
        fun page => unitResult actId unit entry page (summariesOf checked) (kindsOf checked))
    unit.actId
  rw [described.found, Option.bind_some, found, Option.bind_some, paged, Option.map_some] at rows
  rw [← rows]
  simp only [appliedTo, unitResults, Option.bind_eq_bind, Option.map_eq_bind, Option.bind_assoc,
    Option.bind_some, Function.comp_def]

end Apply

end Verbatus.Review
