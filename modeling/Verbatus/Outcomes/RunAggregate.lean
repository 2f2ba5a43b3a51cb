import Mathlib.Tactic
import Verbatus.Outcomes.Vocabulary

namespace Verbatus.Outcomes

open Library Library.Checked Refusal

/-- An act's category as a caller gives it; a bare word is not yet one of the categories. -/
inductive ActCategory where
  | category (value : ArmariumCategory)
  | word (text : String)
  deriving DecidableEq

/-- An act's witness-coverage record; its two flags may be missing or of another type. -/
structure CoverageRecord where
  underWitnessed : Option Bool
  unresolvedChairs : Option ℤ
  byOutcome : Mapping String ℤ
  truncated : ℤ
  floor : ℤ

/-- One census page; its outcome and its reason are read where they are recorded. -/
structure CensusPage where
  outcome : Option String
  reason : Option String
  deriving DecidableEq

structure ContinuationJoin where
  joinId : String
  status : String
  headPageOrdinal : ℤ
  tailPageOrdinal : ℤ
  notReconstructedReason : String

/-- What a clearance is about: a unit's key or a page's ordinal. -/
inductive ClearanceSubject where
  | key (text : String)
  | ordinal (value : ℤ)
  deriving DecidableEq

instance : Quoted ClearanceSubject where
  quote
    | .key text => quote text
    | .ordinal value => quote value

structure ReviewClearance where
  scope : String
  subject : ClearanceSubject
  page : ℤ
  decision : String
  cleared : List String

structure SystemicReview where
  heldPages : List ℤ
  pages : ℤ
  maxHeldPageShare : String

/-- Everything a run hands its aggregate; an input nobody gave is `none`. -/
structure RunInput where
  actCategories : Mapping String ActCategory
  coverageRecords : Option (Mapping String CoverageRecord)
  pageCensus : Option (Mapping ℤ CensusPage)
  unaddressedChairs : Option (List String)
  actPages : Option (Mapping String (List ℤ))
  actTextStatus : Option (Mapping String String)
  edgeHoldPages : Option (List ℤ)
  continuationJoins : Option (List ContinuationJoin)
  otherCategoriesByPage : Option (Mapping ℤ (List String))
  unpairedContinuations : List (String × String)
  reviewClearances : List ReviewClearance
  reviewPageHolds : Option (Mapping ℤ (List String))
  systemicReview : Option SystemicReview

namespace RunInput

variable (input : RunInput)

def census : Mapping ℤ CensusPage := input.pageCensus.getD .empty
def coverage : Mapping String CoverageRecord := input.coverageRecords.getD .empty
def textStatus : Mapping String String := input.actTextStatus.getD .empty
def edgeHolds : List ℤ := input.edgeHoldPages.getD []
def joins : List ContinuationJoin := input.continuationJoins.getD []
def pageHolds : Mapping ℤ (List String) := input.reviewPageHolds.getD .empty

/-- The categories of the other readings listed for a page. -/
def others (ordinal : ℤ) : List String :=
  ((input.otherCategoriesByPage.bind fun listed => listed.get? ordinal)).getD []

end RunInput

def witnessReadingOutcomes : List String := ["read", "genuinely-empty"]

/-- The reading outcomes less the truncated ones. -/
def witnessedCount (coverage : CoverageRecord) : ℤ :=
  (witnessReadingOutcomes.map fun outcome => (coverage.byOutcome.get? outcome).getD 0).sum -
    coverage.truncated

def textStatuses : List String := ["established", "partial", "no_readable_text"]

section Sentences

def pageReadSilentPageReason (ordinal : ℤ) : String :=
  s!"page {ordinal} was sealed and read whole, yet the page-read denominator counts no " ++
  "reading of it; a page no reading accounts for cannot be told from one nobody read"

def noActPageHeldReason (ordinal : ℤ) (categories : String) : String :=
  s!"page {ordinal} was read and carries no act; its other readings are {categories}, not " ++
  "delivered, because they are held until the Recensor confirms that no act is on the " ++
  "page; once it does, they are delivered in the other layer and the page counts as a " ++
  "confirmed no-act page"

def heldOtherOnActPageReason (ordinal : ℤ) (categories : String) : String :=
  s!"page {ordinal} carries acts and other readings that are {categories}, not delivered; " ++
  "an other reading held for review may be an act the reading did not establish, so the " ++
  "page's readings are not all accounted for"

def unpairedContinuationReason (act said : String) : String :=
  s!"act {act} says it {said}, and no continuation link pairs it with a reading across " ++
  "that break; it is delivered as its own literal and may be only part of an act"

def continuationSays : List (String × String) :=
  [("continues_from_previous_page", "continues from the previous page"),
    ("continues_to_next_page", "continues onto the next page")]

def noAttributionReason : String :=
  "the run supplied no act-to-page attribution, so no page could be checked for " ++
  "silence; a page that produced nothing cannot be told from a page nobody marked out"

def noTextStatusReason (act : String) : String :=
  s!"act {act} was delivered with no established-text status record, so whether its " ++
  "one reading is whole was never measured"

/-- The sentence of each status but `established`, which names no shortfall. -/
def textStatusReason (status act : String) : Option String :=
  if status = "partial" then some
    (s!"act {act} was delivered with partial text: its record carries ink the Perlector " ++
    "knows is present and could not read")
  else if status = "no_readable_text" then some
    (s!"act {act} was delivered with a record that establishes no readable text; a proved " ++
    "blank is confirmed-blank business, and a delivered act with no text is not reconciled")
  else none

def unresolvedActReason (act category : String) : String := s!"act {act} is {category}"

def edgeHoldReason (ordinal : ℤ) : String :=
  s!"page {ordinal} carries unreleased unclaimed-edge-ink: ink at its edge that no " ++
  "reading region on the page claims, so its coverage is not reconciled"

/-- A reason that was recorded empty counts as none. -/
def unsealedPageReason (ordinal : ℤ) (outcome : String) (reason : Option String) : String :=
  let recorded := (reason.filter (· ≠ "")).getD "no reason was recorded"
  s!"page {ordinal} was {outcome}: {recorded}"

def systemicReasonPrefix : String := "systemic: "

def systemicReason (heldPages : List ℤ) (pages : ℤ) (limit : String) : String :=
  let held := ", ".intercalate (heldPages.map toString)
  systemicReasonPrefix ++
    s!"{heldPages.length} of {pages} page(s) are held after the " ++
    s!"recensor, more than the sealed limit of {limit} (config/review.toml); so many holds " ++
    "point to a problem with the run itself, not a few hard pages " ++
    s!"(held pages: {held})"

end Sentences

/-- Counts of the words, in the order they first appear. -/
def increment (word : String) : List (String × ℕ) → List (String × ℕ)
  | [] => [(word, 1)]
  | (other, count) :: rest =>
    if other = word then (other, count + 1) :: rest else (other, count) :: increment word rest

def tally (words : List String) : List (String × ℕ) :=
  words.foldl (fun counts word => increment word counts) []

section Sections

variable (input : RunInput)

/-- The pages one act was marked out on, each of them a sealed census page. -/
def attributedAct (actPages : Mapping String (List ℤ)) (act : String) :
    Except Refusal (List String × List ℤ) :=
  match actPages.get? act with
  | none => .ok ([s!"act {act} names no page, so the page it came from cannot be checked for coverage"],
      [])
  | some ordinals => do
    ordinals.forM fun ordinal =>
      match input.census.get? ordinal with
      | none => .error (.fatalAccounting
          (s!"act {act} was marked out on page {ordinal}, which the run's page census " ++
          "does not account for; an act on a page nobody counted is an accounting " ++
          "imbalance"))
      | some page => require (page.outcome = some "sealed") (.fatalAccounting
          (s!"act {act} was marked out on page {ordinal}, which the Exemplar did not " ++
          "seal; nothing may be marked out on pixels that were never sealed"))
    return ([], ordinals)

/-- Which sealed pages an act was marked out on, or `none` when nobody said. -/
def attributedPages : Except Refusal (List String × Option (List ℤ)) :=
  if input.census.items = [] then .ok ([], none) else
  match input.actPages with
  | none =>
    if input.actCategories.items = [] then .ok ([], some []) else .ok ([noAttributionReason], none)
  | some actPages => do
    let unknownActs := sortedSet (actPages.keys.filter fun act => act ∉ input.actCategories)
    require (unknownActs = []) (.fatalAccounting
      (s!"act-to-page attribution names unknown act(s) {quote unknownActs}; attribution and " ++
      "terminal categories must describe the same act denominator"))
    let perAct ← (sortedSet input.actCategories.keys).mapM (attributedAct input actPages)
    return ((perAct.map Prod.fst).flatten, some (perAct.map Prod.snd).flatten)

def emptyPopulationReasons : List String :=
  if input.actCategories.items = [] ∧ input.census.items = [] then
    ["the run accounted for no acts and no pages, so nothing was reconciled"]
  else []

def missingCoverageReasons : Except Refusal (List String) := do
  let unexpected := sortedSet (input.coverage.keys.filter fun act => act ∉ input.actCategories)
  require (unexpected = []) (.fatalAccounting
    (s!"witness coverage names unknown act(s) {quote unexpected}; coverage and terminal " ++
    "categories must describe the same act denominator"))
  return (sortedSet (input.actCategories.keys.filter fun act => act ∉ input.coverage)).map
    fun act => s!"act {act} has no witness-coverage record"

def checkedTextStatus : Except Refusal Unit :=
  let unexpected := sortedSet (input.textStatus.keys.filter fun act => act ∉ input.actCategories)
  require (unexpected = []) (.fatalAccounting
    (s!"established-text status names unknown act(s) {quote unexpected}; text status and " ++
    "terminal categories must describe the same act denominator"))

def missingCensusReasons : List String :=
  if input.actCategories.items ≠ [] ∧ input.census.items = [] then
    ["the run has acts but no page census, so page conservation was not checked"]
  else []

def unaddressedChairReasons : List String :=
  (sortedSet (input.unaddressedChairs.getD [])).map fun chair =>
    s!"chair {chair} is configured and no stage addresses that role, so nothing " ++
    "resolved it and no artifact records it"

def edgeHoldReasons : Except Refusal (List String) := do
  let unknownHolds := sortedSet (input.edgeHolds.filter fun ordinal => ordinal ∉ input.census)
  require (unknownHolds = []) (.fatalAccounting
    (s!"an edge hold names page(s) {quote unknownHolds}, which the run's page census does not " ++
    "account for; edge holds and the page census must describe the same page denominator"))
  return (sortedSet input.edgeHolds).map edgeHoldReason

def continuationJoinReasons : List String := input.joins.map fun join =>
  s!"continuation join {join.joinId} ({join.status}): an act may cross the " ++
  s!"break from page {join.headPageOrdinal} to page {join.tailPageOrdinal}; " ++
  s!"no reconstruction was made ({join.notReconstructedReason}), " ++
  "and no act was joined"

def unpairedContinuationReasons : Except Refusal (List String) :=
  (sortedSet (input.unpairedContinuations.map toLex)).mapM fun row =>
    let act := (ofLex row).1
    let flag := (ofLex row).2
    match continuationSays.lookup flag with
    | some said => do
      require (act ∈ input.actCategories) (.fatalAccounting
        (s!"an unpaired continuation names {quote act} and {quote flag}, not a counted act and a " ++
        "continuation flag"))
      return unpairedContinuationReason act said
    | none => .error (.fatalAccounting
        (s!"an unpaired continuation names {quote act} and {quote flag}, not a counted act and a " ++
        "continuation flag"))

/-- The decisions that clear a hold, by scope. -/
def clearingDecisions (scope : String) : List String :=
  if scope = "unit" then ["release", "exclude"] else ["no-missed-act"]

/-- The words for what a clearance is about: an act, another reading, or its own page. -/
def clearanceWhat (row : ReviewClearance) : Except Refusal String :=
  let refused := Refusal.fatalAccounting
    s!"a review clearance names {quote row.scope} {quote row.subject} on page {row.page}"
  match row.subject with
  | .key subject =>
    if row.scope = "unit" ∧ subject ≠ "" then
      let named := if subject ∈ input.actCategories then s!"act {subject}" else s!"reading {subject}"
      .ok (named ++ s!" on page {row.page}")
    else .error refused
  | .ordinal subject =>
    if row.scope = "page" ∧ subject = row.page then .ok s!"page {row.page}" else .error refused

def clearanceReason (row : ReviewClearance) : Except Refusal (String × String) := do
  require (row.page ∈ input.census) (.fatalAccounting
    s!"a review clearance names page {quote row.page}, not a census page")
  let what ← clearanceWhat input row
  require (row.decision ∈ clearingDecisions row.scope ∧ "" ∉ row.cleared) (.fatalAccounting
    s!"the review clearance of {what} names no clearing decision or no codes")
  let listed := ", ".intercalate (row.cleared.insertionSort (· ≤ ·))
  let codes := if listed = "" then "no machine hold" else listed
  return (what, s!"{what} was cleared by an operator review decision ({row.decision}), clearing " ++
    s!"{codes}; a person's decision, not a machine check")

/-- One reason for each cleared subject, in the order of the scopes and the subjects' texts. -/
def clearanceReasonsFrom (rows : List ReviewClearance) :
    List ((String ×ₗ String) × String) → Except Refusal (List ((String ×ₗ String) × String))
  | named => match rows with
    | [] => .ok named
    | row :: rest => do
      let (what, reason) ← clearanceReason input row
      let key := toLex (row.scope, quote row.subject)
      require (key ∉ named.map Prod.fst) (.fatalAccounting
        s!"{what} is named by more than one review clearance")
      clearanceReasonsFrom rest (named ++ [(key, reason)])

def clearanceReasons : Except Refusal (List String) := do
  let named ← clearanceReasonsFrom input input.reviewClearances []
  return (named.insertionSort fun first second => first.1 ≤ second.1).map Prod.snd

def reviewPageHoldReason (ordinal : ℤ) : Except Refusal String := do
  let codes := (input.pageHolds.get? ordinal).getD []
  require (ordinal ∈ input.census ∧ codes ≠ []) (.fatalAccounting
    (s!"a review page hold names page {quote ordinal} and codes {quote codes}, not a held " ++
    "census page"))
  require ("" ∉ codes) (.fatalAccounting
    s!"the review page hold of page {ordinal} names {quote codes}, not a list of hold codes")
  let listed := ", ".intercalate (codes.insertionSort (· ≤ ·))
  return s!"page {ordinal} is still held by {listed}"

def reviewPageHoldReasons : Except Refusal (List String) :=
  (sortedSet input.pageHolds.keys).mapM (reviewPageHoldReason input)

def systemicReviewReasons : Except Refusal (List String) :=
  match input.systemicReview with
  | none => .ok []
  | some review => do
    require (review.heldPages ≠ [] ∧ (∀ page ∈ review.heldPages, 0 < page) ∧
        review.heldPages = sortedSet review.heldPages ∧
        review.heldPages.length ≤ review.pages ∧ review.maxHeldPageShare ≠ "") (.fatalAccounting
      (s!"the systemic review record names held pages {quote review.heldPages} of " ++
      s!"{quote review.pages} under {quote review.maxHeldPageShare}, not page ordinals within a " ++
      "page count under a sealed limit"))
    return [systemicReason review.heldPages review.pages review.maxHeldPageShare]

/-- Only a delivered act has an established text whose status can be described. -/
def textStatusReasons (act : String) (category : ArmariumCategory) :
    Except Refusal (List String) :=
  if category ≠ .delivered then do
    require (act ∉ input.textStatus) (.fatalAccounting
      (s!"act {act} is {category.text} and carries an established-text status; only " ++
      "a delivered act has an Archetypus record for a status to describe"))
    return []
  else match input.textStatus.get? act with
    | none => .ok [noTextStatusReason act]
    | some status => do
      require (status ∈ textStatuses) (.fatalAccounting
        (s!"act {act} carries established-text status {quote status}, which is not one of " ++
        s!"{quote (sortedSet textStatuses)}"))
      return (textStatusReason status act).toList

def categoryReasons (act : String) : Except Refusal (List String) :=
  match input.actCategories.get? act with
  | some (.category category) => do
    let text ← textStatusReasons input act category
    return (if category.outcomeClass ≠ .completed then [unresolvedActReason act category.text] else [])
      ++ text
  | some (.word word) =>
    .error (.fatalAccounting s!"act {act} carries {quote word}, not a category")
  | none => .ok []

/-- Both flags are required, so a record stripped of them cannot pass as witnessed. -/
def coverageReasons (act : String) : Except Refusal (List String) :=
  let refused := Refusal.fatalAccounting
    (s!"act {act}'s witness coverage record carries no boolean under_witnessed and " ++
    "non-negative integer unresolved_chairs, so it cannot say whether the act " ++
    "was witnessed")
  match input.coverage.get? act with
  | none => .ok []
  | some record => match record.underWitnessed, record.unresolvedChairs with
    | some underWitnessed, some unresolvedChairs => do
      require (0 ≤ unresolvedChairs) refused
      return (if underWitnessed then
          [s!"act {act} is under-witnessed ({witnessedCount record} of a floor of " ++
            s!"{record.floor})"] else []) ++
        if unresolvedChairs ≠ 0 then
          [s!"act {act} has {unresolvedChairs} chair(s) with no outcome yet"] else []
    | _, _ => .error refused

/-- A sealed page with acts may hold no undelivered other reading, and one without must have
other readings, all delivered. -/
def sealedPageReasons (pagesWithActs : Option (List ℤ)) (ordinal : ℤ) : List String :=
  match pagesWithActs with
  | none => []
  | some attributed =>
    if ordinal ∈ attributed then
      let held := sortedSet ((input.others ordinal).filter (· ≠ ArmariumCategory.delivered.text))
      if held ≠ [] then [heldOtherOnActPageReason ordinal (", ".intercalate held)] else []
    else if input.others ordinal = [] then [pageReadSilentPageReason ordinal]
    else if sortedSet (input.others ordinal) ≠ [ArmariumCategory.delivered.text] then
      [noActPageHeldReason ordinal (", ".intercalate (sortedSet (input.others ordinal)))]
    else []

def pageReasons (pagesWithActs : Option (List ℤ)) (ordinal : ℤ) : Except Refusal (List String) :=
  match input.census.get? ordinal with
  | none => .ok []
  | some page => do
    let _ ← classifyExemplar page.outcome
    return if page.outcome ≠ some "sealed" then
      [unsealedPageReason ordinal (page.outcome.getD "") page.reason]
    else sealedPageReasons input pagesWithActs ordinal

end Sections

/-- A partial result is visibly partial. -/
inductive RunStatus where
  | complete
  | partialResult
  deriving DecidableEq, Repr

def RunStatus.text : RunStatus → String
  | complete => "complete"
  | partialResult => "partial"

/-- The run's terminal state, and every reason it is not complete. -/
structure Aggregate where
  status : RunStatus
  byCategory : List (String × ℕ)
  byPageOutcome : List (String × ℕ)
  reasons : List String
  deriving DecidableEq

/-- The words of the categories in the order of the acts. -/
def categoryWords (input : RunInput) : List String :=
  (sortedSet input.actCategories.keys).filterMap fun act => match input.actCategories.get? act with
    | some (.category category) => some category.text
    | _ => none

def outcomeWords (input : RunInput) : List String :=
  (sortedSet input.census.keys).filterMap fun ordinal =>
    (input.census.get? ordinal).bind CensusPage.outcome

def runAggregate (input : RunInput) : Except Refusal Aggregate := do
  let (attribution, pagesWithActs) ← attributedPages input
  let missingCoverage ← missingCoverageReasons input
  checkedTextStatus input
  let edges ← edgeHoldReasons input
  let unpaired ← unpairedContinuationReasons input
  let clearances ← clearanceReasons input
  let pageHolds ← reviewPageHoldReasons input
  let systemic ← systemicReviewReasons input
  let categories ← (sortedSet input.actCategories.keys).mapM (categoryReasons input)
  let coverage ← (sortedSet input.coverage.keys).mapM (coverageReasons input)
  let pages ← (sortedSet input.census.keys).mapM (pageReasons input pagesWithActs)
  let reasons := emptyPopulationReasons input ++ attribution ++ missingCoverage ++
    missingCensusReasons input ++ unaddressedChairReasons input ++ edges ++
    continuationJoinReasons input ++ unpaired ++ clearances ++ pageHolds ++ systemic ++
    categories.flatten ++ coverage.flatten ++ pages.flatten
  return {
    status := if reasons = [] then .complete else .partialResult
    byCategory := tally (categoryWords input)
    byPageOutcome := tally (outcomeWords input)
    reasons }

end Verbatus.Outcomes
