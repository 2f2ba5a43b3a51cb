import Mathlib.Tactic

namespace Verbatus.PageAccounting

def schema : String := "page-accounting.v3"

def basisPoints : ℕ := 10000

/-- The codes of the accounting's findings, and of the flaggable check that is not its own. -/
inductive Code where
  | pageAnswerIncomplete
  | unknownId
  | duplicateRegion
  | readingUnplaced
  | unaccountedWitnessUnit
  | setAsideSubstantial
  | witnessNotRead
  | witnessReadNoUnits
  | witnessReadBlank
  | unreadLine
  | unreadLineNotMeasured
  | witnessTextNotRead
  | witnessShortUnitNotRead
  | witnessTextNotMeasured
  | tooFewDistinctivePieces
  | unreadInk
  | unreadInkNotMeasured
  | readingIncomplete
  | truncationNotClassified
  | sharedLine
  | rowsShareUnit
  | mergedDetection
  | recordReadAsOther
  | recordNotRead
  | noRecordOnActPage
  | setAsideRecord
  | splitDetection
  | recordsNotMeasured
  | recordNotMeasured
  | recordDetectorCapped
  | noRecordDetector
  | noParsedAnswer
  | reaskSetAside
  | reaskUnread
  | reaskUnplaced
  | reaskDuplicate
  | reaskNoText
  | reaskDuplicateNotMeasured
  | residualInk
  deriving DecidableEq, Repr

namespace Code

def text : Code → String
  | pageAnswerIncomplete => "page-answer-incomplete"
  | unknownId => "unknown-id"
  | duplicateRegion => "duplicate-region"
  | readingUnplaced => "reading-unplaced"
  | unaccountedWitnessUnit => "unaccounted-witness-unit"
  | setAsideSubstantial => "set-aside-substantial"
  | witnessNotRead => "witness-not-read"
  | witnessReadNoUnits => "witness-read-no-units"
  | witnessReadBlank => "witness-read-blank"
  | unreadLine => "unread-line"
  | unreadLineNotMeasured => "unread-line-not-measured"
  | witnessTextNotRead => "witness-text-not-read"
  | witnessShortUnitNotRead => "witness-short-unit-not-read"
  | witnessTextNotMeasured => "witness-text-not-measured"
  | tooFewDistinctivePieces => "too-few-distinctive-pieces"
  | unreadInk => "unread-ink"
  | unreadInkNotMeasured => "unread-ink-not-measured"
  | readingIncomplete => "reading-incomplete"
  | truncationNotClassified => "truncation-not-classified"
  | sharedLine => "shared-line"
  | rowsShareUnit => "rows-share-unit"
  | mergedDetection => "merged-detection"
  | recordReadAsOther => "record-read-as-other"
  | recordNotRead => "record-not-read"
  | noRecordOnActPage => "no-detector-record-on-act-page"
  | setAsideRecord => "set-aside-record"
  | splitDetection => "split-detection"
  | recordsNotMeasured => "detector-records-not-measured"
  | recordNotMeasured => "detector-record-not-measured"
  | recordDetectorCapped => "record-detector-capped"
  | noRecordDetector => "no-record-detector"
  | noParsedAnswer => "no-parsed-answer"
  | reaskSetAside => "reask-set-aside"
  | reaskUnread => "reask-unread"
  | reaskUnplaced => "reask-unplaced"
  | reaskDuplicate => "reask-duplicate"
  | reaskNoText => "reask-no-text"
  | reaskDuplicateNotMeasured => "reask-duplicate-not-measured"
  | residualInk => "residual-ink"

/-- The codes that hold the page; the others are recorded only. -/
def holdCodes : List Code :=
  [pageAnswerIncomplete, unknownId, readingUnplaced, unaccountedWitnessUnit, setAsideSubstantial,
    witnessNotRead, witnessReadNoUnits, unreadLine, unreadLineNotMeasured, witnessTextNotRead,
    witnessShortUnitNotRead, witnessTextNotMeasured, unreadInk, unreadInkNotMeasured,
    readingIncomplete, truncationNotClassified, duplicateRegion, mergedDetection,
    recordReadAsOther, recordNotRead, noRecordOnActPage, setAsideRecord, recordsNotMeasured,
    recordNotMeasured, recordDetectorCapped, reaskSetAside, reaskUnread, reaskUnplaced,
    reaskDuplicate, reaskNoText, reaskDuplicateNotMeasured]

/-- The codes that say a rule could not be measured. -/
def notMeasuredCodes : List Code :=
  [unreadLineNotMeasured, witnessTextNotMeasured, unreadInkNotMeasured, recordsNotMeasured,
    recordNotMeasured, recordDetectorCapped, noParsedAnswer, truncationNotClassified,
    reaskDuplicateNotMeasured]

/-- An entry's own hold is never a page's review flag. -/
def flaggableCodes : List Code :=
  holdCodes.filter (· ∉ [duplicateRegion, readingIncomplete, readingUnplaced]) ++ [residualInk]

end Code

/-- The sealed thresholds: each positive, each share at most the whole. -/
structure PageAccountingPolicy where
  insideMinAreaBp : ℕ
  maxUnreadCharacters : ℕ
  maxSetAsideCharacters : ℕ
  maxUnreadShareBp : ℕ
  minBlockCharacters : ℕ
  anchorCharacters : ℕ
  anchorNeighbours : ℕ
  anchorOffsetTolerance : ℕ
  bandSlack : ℕ
  directAlignmentMaxPairs : ℕ
  maxAlignmentPairs : ℕ
  maxCharacters : ℕ
  maxAlignmentSteps : ℕ
  pieceCharacters : ℕ
  pieceEdits : ℕ
  windowSlack : ℕ
  minPieces : ℕ
  minDistinctiveShareBp : ℕ
  maxShortUnitDistanceBp : ℕ
  maxSharedShareBp : ℕ
  maxUnitAreaPerCharacterBp : ℕ
  maxActDoubtShareBp : ℕ
  maxPageDoubtShareBp : ℕ
  sha256 : String
  flagCodes : List Code
  shortUnitCharacters : ℕ
  positive : ∀ value ∈ [insideMinAreaBp, maxUnreadCharacters, maxSetAsideCharacters,
    maxUnreadShareBp, minBlockCharacters, anchorCharacters, anchorNeighbours,
    anchorOffsetTolerance, bandSlack, directAlignmentMaxPairs, maxAlignmentPairs, maxCharacters,
    maxAlignmentSteps, pieceCharacters, pieceEdits, windowSlack, minPieces,
    minDistinctiveShareBp, maxShortUnitDistanceBp, maxSharedShareBp, maxUnitAreaPerCharacterBp,
    maxActDoubtShareBp, maxPageDoubtShareBp, shortUnitCharacters], 0 < value
  shares : ∀ value ∈ [insideMinAreaBp, maxUnreadShareBp, minDistinctiveShareBp,
    maxShortUnitDistanceBp, maxSharedShareBp, maxUnitAreaPerCharacterBp, maxActDoubtShareBp,
    maxPageDoubtShareBp], value ≤ basisPoints
  directPairs : directAlignmentMaxPairs ≤ maxAlignmentPairs
  flaggable : ∀ code ∈ flagCodes, code ∈ Code.flaggableCodes
  distinctFlags : flagCodes.Nodup

end Verbatus.PageAccounting
