import Verbatus.PageAccounting.Findings
import Verbatus.PageEdges.Continuation
import Verbatus.Review.Apply

namespace Verbatus.Recensor

open Library Contracts Review

def unplaced : String := "reading-unplaced"
def duplicateRegion : String := "duplicate-region"
def noAutopsia : String := "no-autopsia"
def doubtMarksMalformed : String := "doubt-marks-malformed"
def readingIncomplete : String := "reading-incomplete"
def entryNoReadableText : String := "entry-no-readable-text"
def doubtShareHigh : String := "doubt-share-high"
def supersededActNotRead : String := "superseded-act-not-read"
def pageDoubtShareHigh : String := "page-doubt-share-high"

/-- The codes an entry's own Perlectio is held by. -/
def perlectioHolds : List String :=
  [unplaced, duplicateRegion, noAutopsia, doubtMarksMalformed, readingIncomplete,
    entryNoReadableText, doubtShareHigh, supersededActNotRead, pageDoubtShareHigh]

/-- One entry's sealed reading, as far as its row and its review read it. -/
structure Perlectio where
  ref : String
  holds : List String
  pageHolds : List String
  ownCodes : ∀ code ∈ holds, code ∈ perlectioHolds
  accountingCodes : ∀ code ∈ pageHolds,
    code ∈ PageAccounting.Code.holdCodes.map PageAccounting.Code.text
  deriving DecidableEq

inductive Disposition where
  | read
  | held
  deriving DecidableEq, Repr

/-- A unit the page-read denominator counts: an entry of a page, or the row of a page with none. -/
structure CountedRow where
  actId : String
  actKey : String
  pageId : String
  pageOrdinal : ℤ
  n : Option ℤ
  kind : PageReading.ActClass
  unitClass : String
  disposition : Disposition
  regionRef : Option String
  readingRef : String
  accountingRef : String
  perlectio : Option Perlectio
  holdCodes : List String
  flagCodes : List String
  continuesFromPreviousPage : Option Bool
  continuesToNextPage : Option Bool
  readingAttempt : Option ℤ
  keyed : ∀ number, n = some number → actKey = PageEdges.entryKey pageOrdinal number
  classed : if perlectio.isSome then unitClass ∈ readingClasses else unitClass ∈ pageRowClasses
  held : disposition = .held ↔ holdCodes ≠ []
  codes : ∀ reading ∈ perlectio, ∃ noAct, (noAct = [] ∨ noAct = [noActOnPageHold]) ∧
    holdCodes = sortedSet (reading.holds ++ reading.pageHolds ++ noAct)

/-- The row as a page's edges and continuation notes read it. -/
def CountedRow.entry (act : CountedRow) : PageEdges.Entry where
  actId := some act.actId
  actKey := act.actKey
  pageOrdinal := act.pageOrdinal
  n := act.n
  kind := some act.kind
  continuesFromPreviousPage := act.continuesFromPreviousPage
  continuesToNextPage := act.continuesToNextPage
  readingAttempt := act.readingAttempt
  keyed := act.keyed

/-- The holds of a row's Perlectio; a page row has no reading and no holds here. -/
def CountedRow.unitHolds (act : CountedRow) : List String :=
  (act.perlectio.map Perlectio.holds).getD []

def CountedRow.pageHolds (act : CountedRow) : List String :=
  (act.perlectio.map Perlectio.pageHolds).getD []

/-- The row holds a review may release by name, on a page confirmed blank or holding no act. -/
def releasableHolds : List String := [pageBlankHold, noActOnPageHold]

/-- Of those, the one a reading can carry. -/
def releasableReadingHolds : List String := [noActOnPageHold]

def reviewPriorityLookFirst : ℕ := 1

/-- A unit's place in the review queue, by code: 1 first, then structure, then thin evidence. -/
def reviewPriorityTable : List (String × ℕ) :=
  [("page-unread", 1), ("page-answer-incomplete", 1), ("unknown-id", 1), ("detection-range", 1),
    ("reading-unplaced", 1), ("unaccounted-witness-unit", 1), ("set-aside-substantial", 1),
    ("witness-text-not-read", 1), ("unread-line", 1), ("unread-ink", 1), ("residual-ink", 1),
    ("record-not-read", 1), ("merged-detection", 1), ("set-aside-record", 1),
    ("reask-set-aside", 1), ("reask-unread", 1), ("reask-no-text", 1),
    ("entry-no-readable-text", 1), ("superseded-act-not-read", 1), ("review-missed-act", 1),
    ("review-hold", 1), ("duplicate-region", 2), ("shared-line", 2), ("split-detection", 2),
    ("record-read-as-other", 2), ("reading-incomplete", 2), ("truncation-not-classified", 2),
    ("reask-unplaced", 2), ("reask-duplicate", 2), ("continuation-off-page-edge", 2),
    ("doubt-marks-malformed", 2), ("doubt-share-high", 2), ("page-doubt-share-high", 2),
    ("uncertainty-assessment-malformed", 2), ("under-witnessed", 3), ("unresolved-witness", 3),
    ("witness-not-read", 3), ("witness-read-no-units", 3), ("witness-short-unit-not-read", 3),
    ("no-detector-record-on-act-page", 3), ("no-autopsia", 3), ("unread-line-not-measured", 3),
    ("witness-text-not-measured", 3), ("unread-ink-not-measured", 3),
    ("detector-records-not-measured", 3), ("detector-record-not-measured", 3),
    ("record-detector-capped", 3), ("reask-duplicate-not-measured", 3),
    ("residual-ink-not-measurable", 3), ("residual-ink-not-measured", 3),
    ("page-blank-unconfirmed", 3), ("no-act-on-page-unconfirmed", 3)]

/-- The review tier of a unit carrying these codes; a code the table does not name comes first. -/
def reviewPriority (codes : List String) : Option ℕ :=
  (codes.map fun code => (reviewPriorityTable.lookup code).getD reviewPriorityLookFirst).min?

/-- How many readings of a page failed, or were cut off. -/
structure Shortfalls where
  failed : ℕ
  truncated : ℕ
  unaligned : ℕ
  deriving DecidableEq

/-- One page's witness coverage over its sealed roster. -/
structure Coverage where
  configured : ℕ
  floor : ℕ
  byOutcome : List (String × ℕ)
  byClass : List (String × ℕ)
  unresolvedChairs : ℕ
  healthUnrecorded : ℕ
  shortfalls : Shortfalls
  underWitnessed : Bool
  deriving DecidableEq

def witnessReadingOutcomes : List String := ["read", "genuinely-empty"]

/-- The reading outcomes less the truncated ones. -/
def witnessedCount (coverage : Coverage) : ℤ :=
  ((witnessReadingOutcomes.map fun outcome => (coverage.byOutcome.lookup outcome).getD 0).sum : ℕ) -
    (coverage.shortfalls.truncated : ℤ)

/-- One page's residual-ink fact: whether it was checked, flagged or could not be measured. -/
structure PageCoverage where
  checkedPages : List ℤ
  flaggedPages : List ℤ
  unmeasurablePages : List ℤ
  deriving DecidableEq

/-- How a reading's own doubt marks were assessed. -/
structure Assessment where
  state : Option String
  problem : Option String
  deriving DecidableEq

/-- What one page witness recorded, and whether the text it retained is blank. -/
structure WitnessLook where
  chair : String
  outcome : String
  blank : Option Bool
  deriving DecidableEq

/-- Whether a page the reading says holds no act is confirmed so, and why not. -/
structure Confirmation where
  confirms : String
  rules : List (PageAccounting.RuleName × Option PageAccounting.Status)
  suryaLines : ℕ
  witnesses : List WitnessLook
  confirmed : Bool
  failures : List String
  deriving DecidableEq

/-- The row holds a machine review releases, and why. -/
structure Release where
  holdCodes : List String
  reason : String
  deriving DecidableEq

/-- The fields of a page review that no operator decision reads. -/
structure ReviewFacts where
  flagCodes : List String
  coverage : Coverage
  pageReadingRef : String
  pageAccountingRef : String
  actRegionRef : Option String
  perlectioRef : Option String
  pageCoverage : PageCoverage
  continuesFromPreviousPage : Option Bool
  continuesToNextPage : Option Bool
  uncertaintyAssessment : Option Assessment
  confirmation : Option Confirmation
  release : Option Release
  notes : List PageEdges.ReviewNote
  recoveriesUsed : ℕ
  reviewPriority : Option ℕ
  deriving DecidableEq

/-- One unit's page review. -/
structure PageReview (Digest : Type) extends ReviewFacts where
  actKey : String
  unitClass : String
  kind : PageReading.ActClass
  pageOrdinal : ℤ
  reason : String
  holdCodes : List String
  operatorReview : Option (OperatorReview Digest)
  deriving DecidableEq

section Payload

variable {Digest : Type}

/-- The review as operator decisions read it, its other fields as they are written down. -/
def PageReview.payload (written : ReviewFacts → String) (review : PageReview Digest) :
    Payload Digest where
  holdCodes := review.holdCodes
  pageOrdinal := review.pageOrdinal
  actKey := review.actKey
  unitClass := review.unitClass
  kind := some review.kind.text
  reason := review.reason
  rest := written review.toReviewFacts
  attemptOrdinal := none
  operatorReview := review.operatorReview

/-- The review with the fields operator decisions write taken from a decided payload. -/
def PageReview.decided (review : PageReview Digest) (payload : Payload Digest) :
    PageReview Digest :=
  { review with
    holdCodes := payload.holdCodes
    reason := payload.reason
    operatorReview := payload.operatorReview }

/-- The review with its place in the queue taken from the codes it now carries. -/
def PageReview.queued (review : PageReview Digest) : PageReview Digest :=
  { review with reviewPriority := reviewPriority (review.holdCodes ++ review.flagCodes) }

end Payload

section Row

variable {act : CountedRow}

/-- A reading is never held for an unconfirmed blank page: a blank page has no reading. -/
theorem CountedRow.pageBlankHold_notMem (read : act.perlectio.isSome) :
    pageBlankHold ∉ act.holdCodes := by
  obtain ⟨reading, found⟩ := Option.isSome_iff_exists.mp read
  obtain ⟨noAct, none_or_one, codes⟩ := act.codes reading found
  intro held
  rw [codes, mem_sortedSet, List.mem_append, List.mem_append] at held
  rcases held with (own | page) | noActHeld
  · exact absurd (reading.ownCodes _ own) (by decide)
  · exact absurd (reading.accountingCodes _ page) (by decide)
  · rcases none_or_one with rfl | rfl
    · exact List.not_mem_nil noActHeld
    · exact absurd noActHeld (by decide)

/-- A row with a reading stands for the reading, not for a blank page. -/
theorem CountedRow.notPageBlank (read : act.perlectio.isSome) : act.unitClass ≠ pageBlankClass := by
  intro blank
  have classed := act.classed
  rw [if_pos read, blank] at classed
  exact absurd classed (by decide)

/-- A reading's hold codes are listed in order. -/
theorem CountedRow.sorted_holdCodes (read : act.perlectio.isSome) :
    act.holdCodes.insertionSort (· ≤ ·) = act.holdCodes := by
  obtain ⟨reading, found⟩ := Option.isSome_iff_exists.mp read
  obtain ⟨noAct, -, codes⟩ := act.codes reading found
  rw [codes, sortedSet]
  exact (List.pairwise_insertionSort _ _).insertionSort_eq

end Row

end Verbatus.Recensor
