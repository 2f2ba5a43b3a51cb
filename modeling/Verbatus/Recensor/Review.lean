import Verbatus.Recensor.Rows

namespace Verbatus.Recensor

open Library Contracts Review PageAccounting

def underWitnessed : String := "under-witnessed"
def unresolvedWitness : String := "unresolved-witness"
def residualInk : String := "residual-ink"
def residualInkNotMeasurable : String := "residual-ink-not-measurable"
def residualInkNotMeasured : String := "residual-ink-not-measured"
def assessmentMalformed : String := "uncertainty-assessment-malformed"
def continuationOffEdgeCode : String := "continuation-off-page-edge"

/-- A reason to hold a unit: its code, and the sentence that says why. -/
structure OwnFinding where
  code : String
  sentence : String
  deriving DecidableEq

section Confirmation

/-- The page accounting as a confirmation reads it. -/
structure Accounting where
  rules : List (RuleName × Status)
  lines : ℕ
  /-- Whether each rule applies to the page's stated type, where it states one. -/
  applicability : List (RuleName × Bool)
  deriving DecidableEq

/-- The page accounting rules a page said to hold no act must pass. -/
def noActRules : List RuleName := [.d, .e, .f, .i]

def confirming : List Status := [.pass, .flag]

/-- The statuses that confirm a blank page: it may have no record detector for rule (i). -/
def blankRules (rule : RuleName) : List Status :=
  if rule = .i then confirming ++ [.notApplicable] else confirming

/-- The rules the page accounting records as switched off by the page's stated type. -/
def rulesNotApplying (accounting : Accounting) : List RuleName :=
  (accounting.applicability.filter fun verdict => verdict.2 = false).map Prod.fst

/-- Why the looks of its witnesses do not confirm a page blank. -/
def blankFailures (lines : ℕ) (witnesses : List WitnessLook) (census : List String) :
    List String :=
  let reading := witnesses.filter fun look => look.outcome ∈ witnessReadingOutcomes
  (if lines ≠ 0 then [s!"Surya detected {lines} line(s) on the page"] else []) ++
  (if reading = [] then ["no witness read the page"]
    else if ∀ look ∈ reading, look.chair ∈ census then
      ["only a record detector's census found the page blank; no witness read its text"]
    else []) ++
  (reading.filter fun look => look.blank ≠ some true).map fun look =>
    s!"witness {look.chair} read the page and its retained text is not blank"

/-- Whether a page the reading says holds no act is confirmed so, and why not. -/
def confirmation (accounting : Accounting) (witnesses : List WitnessLook) (blank : Bool)
    (census : List String) : Confirmation :=
  let allowed (rule : RuleName) := if blank then blankRules rule else confirming
  let statuses := noActRules.map fun rule => (rule, accounting.rules.lookup rule)
  let unconfirmed := statuses.filter fun row =>
    (∀ status ∈ row.2, status ∉ allowed row.1) ∧ row.1 ∉ rulesNotApplying accounting
  let failures := (unconfirmed.map fun row =>
      s!"page accounting rule ({row.1.text}) is " ++ (row.2.map Status.text).getD "absent" ++
        ", not " ++ " or ".intercalate (sortedSet ((allowed row.1).map Status.text))) ++
    if blank then blankFailures accounting.lines witnesses census else []
  { confirms := if blank then "page-blank" else "no-act-on-page"
    rules := statuses
    suryaLines := accounting.lines
    witnesses
    confirmed := failures = []
    failures }

end Confirmation

section Findings

/-- This stage's witness-floor reasons to hold a unit. -/
def coverageFindings (coverage : Coverage) (ordinal : ℤ) : List OwnFinding :=
  let truncated := coverage.shortfalls.truncated
  (if coverage.underWitnessed then
    [⟨underWitnessed, s!"{witnessedCount coverage} page witness(es) read page {ordinal} against " ++
      s!"a floor of {coverage.floor}" ++
      if truncated ≠ 0 then s!" ({truncated} truncated reading(s) not counted)" else ""⟩]
    else []) ++
  if coverage.unresolvedChairs ≠ 0 then
    [⟨unresolvedWitness, s!"{coverage.unresolvedChairs} page witness(es) have no outcome for " ++
      s!"page {ordinal} yet"⟩]
  else []

/-- What the page's ink gives reason to hold. -/
def inkFindings (pageCoverage : PageCoverage) (ordinal : ℤ) : List OwnFinding :=
  if pageCoverage.flaggedPages ≠ [] then
    [⟨residualInk, s!"page {ordinal} carries ink outside every reading region cut on it (a " ++
      "residual-ink check against the page image itself); accepting would leave that ink " ++
      "unaccounted for"⟩]
  else if pageCoverage.unmeasurablePages ≠ [] then
    [⟨residualInkNotMeasurable, s!"page {ordinal}'s paper value could not be inferred, so its " ++
      "residual ink was not measured"⟩]
  else if pageCoverage.checkedPages = [] then
    [⟨residualInkNotMeasured, s!"page {ordinal} has no sealed pixels to measure residual ink on"⟩]
  else []

/-- This stage's own reasons to hold a unit. -/
def ownFindings (coverage : Coverage) (pageCoverage : PageCoverage)
    (assessment : Option Assessment) (ordinal : ℤ) (offEdge : List String) : List OwnFinding :=
  coverageFindings coverage ordinal ++ inkFindings pageCoverage ordinal ++
  (match assessment with
    | some ⟨some "malformed", problem⟩ =>
      [⟨assessmentMalformed, "the reading's uncertainty assessment is malformed: " ++
        problem.getD "None"⟩]
    | _ => []) ++
  if offEdge ≠ [] then
    [⟨continuationOffEdgeCode, "the entry says " ++ " and ".intercalate offEdge ++
      s!" but is not at the edge of page {ordinal}, so no page break has it as a side"⟩]
  else []

end Findings

section Review

/-- What this stage measured for one unit, before its review. -/
structure Measured where
  coverage : Coverage
  pageCoverage : PageCoverage
  assessment : Option Assessment
  confirmed : Option Confirmation
  offEdge : List String
  recoveriesUsed : ℕ
  deriving DecidableEq

/-- Why a confirmed page releases the holds of a unit on it. -/
def releaseReason (confirmed : Confirmation) : String :=
  let blank := confirmed.confirms = "page-blank"
  let status := (confirmed.rules.lookup .i).join
  let switchedOff : Bool := ∀ found ∈ status, found ∉ if blank then blankRules .i else confirming
  "confirmed: the page accounting's rules (d), (e) and (f) pass" ++
  if blank then
    (if switchedOff then ", rule (i) does not apply to the page's stated type"
      else ", rule (i) passes or has no record detector to apply") ++
    ", no line was detected and every witness that read the page retained blank text"
  else if switchedOff then
    " and rule (i) does not apply to the page's stated type, so every reading on the page is " ++
    "accounted for by the rules that apply and none is an act"
  else
    " and so does rule (i), so every reading on the page is accounted for and none is an act"

/-- The release of a unit's row holds, where its confirmed page and nothing else decides them. -/
def releaseOf (act : CountedRow) (confirmed : Option Confirmation) (own : List OwnFinding) :
    Option Release :=
  confirmed.bind fun confirmed =>
    if confirmed.confirmed ∧ own = [] ∧ act.holdCodes ≠ [] ∧
      ∀ code ∈ act.holdCodes, code ∈ releasableHolds
    then some ⟨act.holdCodes, releaseReason confirmed⟩ else none

/-- The outcome and payload of one unit's review. -/
def reviewOf (Digest : Type) (act : CountedRow) (measured : Measured) (flagCodes : List String) :
    Outcome × PageReview Digest :=
  let ordinal := act.pageOrdinal
  let found := ownFindings measured.coverage measured.pageCoverage measured.assessment ordinal
    measured.offEdge
  let own := found.filter fun finding => finding.code ∉ flagCodes
  let flagged := found.filter fun finding => finding.code ∈ flagCodes
  let flags := sortedSet (act.flagCodes ++ flagged.map OwnFinding.code)
  let release := releaseOf act measured.confirmed own
  let rowCodes := if release.isSome then [] else act.holdCodes
  let unconfirmed := match measured.confirmed with
    | some confirmed =>
      if confirmed.confirmed then []
      else ["the page is not confirmed to hold no act: " ++ "; ".intercalate confirmed.failures]
    | none => []
  let holding := if rowCodes ≠ [] then
      ["the page-read records hold this unit: " ++ ", ".intercalate rowCodes] else []
  let flagging := if flags ≠ [] then
      ["flagged for review, not held, under the sealed review flags: " ++
        ", ".intercalate flags ++
        String.join (flagged.map fun finding => "; " ++ finding.sentence)] else []
  let sentences := holding ++ own.map OwnFinding.sentence ++ unconfirmed ++ flagging
  let holdCodes := sortedSet (rowCodes ++ own.map OwnFinding.code)
  let outcome := derivedOutcome holdCodes act.unitClass
  let decided :=
    if act.unitClass = pageBlankClass then s!"page {ordinal} is confirmed blank"
    else if flags ≠ [] then "read, and nothing holds it"
    else "read, witnessed to the floor, and no ink on its page lies outside the reading regions"
  let reason :=
    if holdCodes ≠ [] then "; ".intercalate sentences
    else if flags ≠ [] then "; ".intercalate (decided :: sentences)
    else decided
  (outcome, {
    actKey := act.actKey
    unitClass := act.unitClass
    kind := act.kind
    pageOrdinal := ordinal
    reason
    holdCodes
    flagCodes := flags
    reviewPriority := reviewPriority (holdCodes ++ flags)
    coverage := measured.coverage
    pageReadingRef := act.readingRef
    pageAccountingRef := act.accountingRef
    actRegionRef := act.regionRef
    perlectioRef := act.perlectio.map Perlectio.ref
    pageCoverage := measured.pageCoverage
    continuesFromPreviousPage := act.continuesFromPreviousPage
    continuesToNextPage := act.continuesToNextPage
    uncertaintyAssessment := measured.assessment
    confirmation := measured.confirmed
    release
    notes := PageEdges.continuationNotes act.entry
    recoveriesUsed := measured.recoveriesUsed
    operatorReview := none })

/-- The sealed evidence one unit's review is measured from. -/
structure Evidence where
  accounting : Accounting
  witnesses : List WitnessLook
  census : List String
  coverage : Coverage
  pageCoverage : PageCoverage
  assessment : Option Assessment
  offEdge : List String
  recoveriesUsed : ℕ
  deriving DecidableEq

/-- What the evidence of a unit's page says, its confirmation where the row asks for one. -/
def measure (act : CountedRow) (evidence : Evidence) : Measured where
  coverage := evidence.coverage
  pageCoverage := evidence.pageCoverage
  assessment := evidence.assessment
  confirmed :=
    if pageBlankHold ∈ act.holdCodes ∨ noActOnPageHold ∈ act.holdCodes then
      some (confirmation evidence.accounting evidence.witnesses (act.unitClass = pageBlankClass)
        evidence.census)
    else none
  offEdge := evidence.offEdge
  recoveriesUsed := evidence.recoveriesUsed

/-- One unit's planned review. -/
def planReview (Digest : Type) (act : CountedRow) (evidence : Evidence) (flagCodes : List String) :
    Outcome × PageReview Digest :=
  reviewOf Digest act (measure act evidence) flagCodes

end Review

end Verbatus.Recensor
