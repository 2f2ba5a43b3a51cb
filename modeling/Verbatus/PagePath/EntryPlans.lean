import Verbatus.Contracts.Identities
import Verbatus.PageAccounting.Answer
import Verbatus.PagePath.SupersededActs

namespace Verbatus.PagePath

open Library Library.Checked Refusal Python PageReading PageAccounting Identities Ink

/-- A page feed, with the page image the reader was shown, where it was shown one. -/
structure ShownFeed extends Feed where
  pageRender : Option String

/-- What a plan reads of the doubt marks and the truncation signals of a text. -/
structure TextRules (Assessment Truncation : Type) where
  readDoubtMarks : String → String × Assessment
  malformed : Assessment → Bool
  assessed : Assessment → Bool
  doubtCount : String → Assessment → ℤ × ℤ
  classify : String → ℤ → ℤ → Option String → Option EntryKind → Except Refusal Truncation
  holdsAsFailure : Truncation → Bool

def firstReading : ℤ := 1

def reaskReading : ℤ := 2

def operatorRereadFirst : ℤ := 3

def isOperatorReread (ordinal : ℤ) : Bool := operatorRereadFirst ≤ ordinal

def pageReadOperation : String := "page-read"

def unplaced : String := "reading-unplaced"

def readingClass : String := "reading"

def unplacedClass : String := "reading-unplaced"

/-- The kinds of entry the truncation's length signal judges. -/
def lengthSignalKinds : List EntryKind := [.act, .instrument]

/-- One entry of a valid answer: the entry, its region and what its region holds. -/
structure PageEntry where
  act : ReadEntry
  holds : List String

/-- An entry as it is published. -/
structure Plan (Assessment Truncation : Type) where
  act : ReadEntry
  actId : Str
  readingAttempt : ℤ
  n : ℤ
  readingN : ℤ
  actClass : String
  regionHolds : List String
  readingHolds : List String
  text : String
  assessment : Assessment
  truncation : Option Truncation
  autopsia : Bool

/-- What the entry plans of one reading are made from. -/
structure PlanRequest (Assessment Truncation : Type) where
  answer : Json
  feed : ShownFeed
  pageId : Str
  stopReason : Option String
  attempt : ℤ
  named : Option (List String)
  firstCount : ℤ
  superseded : Option (List (Plan Assessment Truncation))

section Plans

variable (isPrintable : CodePoint → Bool) (sha256 : ByteArray → Str) (limit : ℕ)

/-- The attempt of a page's first reading, its re-ask or an operator re-read. -/
def pageReadingAttempt (pageId : Str) (ordinal : ℤ) : Except Refusal Str := do
  require (ordinal ∈ [firstReading, reaskReading] ∨ isOperatorReread ordinal)
    (.contractError ("a page reading is attempt 1, its re-ask 2, or an operator re-read from " ++
      s!"{operatorRereadFirst} on, never {ordinal}"))
  attemptId isPrintable sha256 limit pageId pageReadOperation ordinal

variable (unicode : UnicodeTables) (policy : PageAccountingPolicy)

/-- The answer read against every feed id, or a re-ask's against the ids it names. -/
def validated (answer : Json) (feed : Feed) (named : Option (List String)) :
    Except Refusal ReadAnswer := do
  let candidates ← feedCandidates unicode policy feed
  match named with
  | none => validateAnswer candidates (some policy) answer
  | some named => validateReaskAnswer candidates answer named

/-- The length of `answer["entries"]`, as a loop over it goes. -/
def entryCount (answer : Json) : Except Refusal ℕ := do
  require answer.isObject (.typeError "the answer has no entries to go over")
  match answer.get? "entries" with
  | none => .error (.keyError "entries")
  | some (.list elements) => .ok elements.length
  | some (.object fields) => .ok fields.length
  | some (.str text) => .ok text.length
  | some _ => .error (.typeError "the answer's entries are not iterable")

/-- Each entry of a valid answer: the entry, its expanded ids, region and region holds. -/
def pageEntries (answer : Json) (feed : Feed) (named : Option (List String)) :
    Except Refusal (List PageEntry) := do
  let read ← validated unicode policy answer feed named
  let shared := (duplicateRegions read.entries policy).flatMap fun found => [found.ns.1, found.ns.2]
  let count ← entryCount answer
  require (count = read.entries.length)
    (.valueError "zip() argument 2 is shorter than argument 1")
  .ok (read.entries.map fun entry =>
    { act := entry
      holds := (if entry.unionBoxPx.isSome then [] else [unplaced]) ++
        if entry.n ∈ shared then [Code.duplicateRegion.text] else [] })

/-- Whether more than the sealed share of a reading is doubtful or unread, exactly. -/
def doubtExceeds (count : ℤ × ℤ) (limitBp : ℤ) : Except Refusal Bool := do
  require (0 < count.2) (.contractError "a doubt share over no characters has no meaning")
  .ok (limitBp * count.2 < count.1 * PageAccounting.basisPoints)

variable {Assessment Truncation : Type} (rules : TextRules Assessment Truncation)

/-- The truncation of a placed entry, over the area of its region. -/
def truncationOf (stopReason : Option String) (pagePixels : ℤ) (act : ReadEntry) (text : String) :
    Except Refusal (Option Truncation) :=
  match act.unionBoxPx with
  | none => .ok none
  | some _ => do
    let exempt := if act.entryKind ∈ lengthSignalKinds then none else some act.entryKind
    let record ← rules.classify text (regionArea act.regionBoxesPx) pagePixels stopReason exempt
    .ok (some record)

/-- Whether the doubt marked in one entry's readable text is over the sealed limit. -/
def doubtful (text : String) (assessment : Assessment) : Except Refusal Bool :=
  if strip text ≠ "" ∧ rules.assessed assessment then
    doubtExceeds (rules.doubtCount text assessment) policy.maxActDoubtShareBp
  else .ok false

/-- The binding of an act id to a reading's attempt, its number there and its union box. -/
def entryBinding (attempt : Str) (act : ReadEntry) : ReadingBinding :=
  ⟨attempt, act.n, act.unionBoxPx⟩

def entryClass (act : ReadEntry) : String :=
  if act.unionBoxPx.isSome then readingClass else unplacedClass

/-- One entry as it is published. -/
def entryPlan (request : PlanRequest Assessment Truncation) (attempt : Str) (entry : PageEntry) :
    Except Refusal (Plan Assessment Truncation) := do
  let act := entry.act
  let autopsia := request.feed.pageRender.isSome
  let regionHolds := entry.holds ++ if autopsia then [] else ["no-autopsia"]
  let (text, assessment) := rules.readDoubtMarks act.text
  let truncation ← truncationOf rules request.stopReason
    (request.feed.pageSize.w * request.feed.pageSize.h) act text
  let doubted ← doubtful policy rules text assessment
  let actId ← actId isPrintable sha256 limit request.pageId (entryClass act)
    (.reading (entryBinding attempt act))
  .ok
    { act := act
      actId := actId
      readingAttempt := request.attempt
      n := request.firstCount + act.n
      readingN := act.n
      actClass := entryClass act
      regionHolds := regionHolds
      readingHolds := regionHolds ++
        (if rules.malformed assessment then ["doubt-marks-malformed"] else []) ++
        (if truncation.any rules.holdsAsFailure then ["reading-incomplete"] else []) ++
        (if strip text = "" then ["entry-no-readable-text"] else []) ++
        if doubted then ["doubt-share-high"] else []
      text := text
      assessment := assessment
      truncation := truncation
      autopsia := autopsia }

/-- A plan as the plans of a re-read are compared by. -/
def Plan.outline (plan : Plan Assessment Truncation) : EntryPlan where
  kind := if plan.act.kind = .act then .act else .other
  citedIds := plan.act.citedIds
  readingHolds := plan.readingHolds

/-- Plans that leave out an act of the reading they replace hold it, every one of them. -/
def holdReplacing (superseded : Option (List (Plan Assessment Truncation)))
    (plans : List (Plan Assessment Truncation)) : List (Plan Assessment Truncation) :=
  match superseded with
  | none => plans
  | some replaced =>
    if supersededActsKept (replaced.map Plan.outline) (plans.map Plan.outline) then plans
    else plans.map fun plan =>
      { plan with readingHolds := plan.readingHolds ++ [supersededActNotRead] }

/-- Each entry of a read answer as it is published. -/
def entryPlans (request : PlanRequest Assessment Truncation) :
    Except Refusal (List (Plan Assessment Truncation)) := do
  require (request.superseded.isSome = isOperatorReread request.attempt)
    (.contractError "only an operator re-read is planned against the reading it replaces")
  require ((request.attempt = reaskReading) ↔ request.named.isSome)
    (.contractError "a re-ask's entries are planned with its named ids, and only its")
  require (request.firstCount = 0 ∨ request.attempt = reaskReading)
    (.contractError "only a re-ask's entries are numbered on after a first reading's")
  let attempt ← pageReadingAttempt isPrintable sha256 limit request.pageId request.attempt
  let entries ← pageEntries unicode policy request.answer request.feed.toFeed request.named
  let plans ← entries.mapM (entryPlan isPrintable sha256 limit policy rules request attempt)
  .ok (holdReplacing request.superseded plans)

end Plans

section Counted

variable {Assessment Truncation : Type}

/-- What the combined accounting of a re-asked page says of the entries it counts. -/
structure CountedEntry where
  readingAttempt : ℤ
  readingN : ℤ
  n : ℤ
  deriving DecidableEq

structure CombinedAccounting where
  combined : Bool
  reaskCodes : List Code
  entries : List CountedEntry

/-- Whether a page accounting counts its page's re-ask among the entries it measures. -/
def reaskStood (accounting : CombinedAccounting) : Bool :=
  accounting.combined && accounting.reaskCodes.all (· ≠ .reaskUnread)

def Plan.counted (plan : Plan Assessment Truncation) : CountedEntry :=
  ⟨plan.readingAttempt, plan.readingN, plan.n⟩

/-- The plans a re-asked page publishes act records for, in the accounting's order. -/
def reaskActPlans (accounting : CombinedAccounting)
    (firstPlans reaskPlans : List (Plan Assessment Truncation)) (what : String) :
    Except Refusal (List (Plan Assessment Truncation)) := do
  let plans := firstPlans ++ if reaskStood accounting then reaskPlans else []
  require (accounting.entries = plans.map Plan.counted)
    (.fatalAccounting (what ++ "'s re-ask accounting counts other entries than its readings give " ++
      "act records for; an act nothing measured, or a measured entry with no act, is never counted"))
  .ok plans

end Counted

end Verbatus.PagePath
