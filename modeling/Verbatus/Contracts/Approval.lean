import Mathlib.Data.String.Basic
import Mathlib.Tactic
import Verbatus.Library.Checked
import Verbatus.Library.Mapping
import Verbatus.Python.Text
import Verbatus.Refusal

namespace Verbatus.Contracts

open Library Library.Checked Refusal

/-- A review decision is about one unit or one page. -/
inductive ReviewScope where
  | unit
  | page
  deriving DecidableEq, Repr

def ReviewScope.text : ReviewScope → String
  | unit => "unit"
  | page => "page"

inductive ReviewDecision where
  | release
  | exclude
  | hold
  | reAsk
  | edit
  | noMissedAct
  | missedAct
  | reShoot
  deriving DecidableEq, Repr

def ReviewDecision.text : ReviewDecision → String
  | release => "release"
  | exclude => "exclude"
  | hold => "hold"
  | reAsk => "re-ask"
  | edit => "edit"
  | noMissedAct => "no-missed-act"
  | missedAct => "missed-act"
  | reShoot => "re-shoot"

instance : Quoted ReviewDecision := ⟨fun decision => quote decision.text⟩

def reviewDecisions : ReviewScope → List ReviewDecision
  | .unit => [.release, .exclude, .hold, .reAsk, .edit]
  | .page => [.noMissedAct, .missedAct, .reAsk, .reShoot, .hold]

/-- What a hold names. -/
inductive Finding where
  | textMisread
  | splitNeeded
  | mergeNeeded
  | continuationWrong
  | regionWrong
  | other
  deriving DecidableEq, Repr

def Finding.text : Finding → String
  | textMisread => "text-misread"
  | splitNeeded => "split-needed"
  | mergeNeeded => "merge-needed"
  | continuationWrong => "continuation-wrong"
  | regionWrong => "region-wrong"
  | other => "other"

def findings : List Finding :=
  [.textMisread, .splitNeeded, .mergeNeeded, .continuationWrong, .regionWrong, .other]

inductive ApprovalAction where
  | advance
  | exclusion
  | salvagePromotion
  | review
  | other
  deriving DecidableEq, Repr

def ApprovalAction.text : ApprovalAction → String
  | advance => "advance"
  | exclusion => "exclusion"
  | salvagePromotion => "salvage-promotion"
  | review => "review"
  | other => "other"

/-- A person's corrected text, and the note that may travel with it. -/
structure Correction where
  text : String
  note : Option String
  deriving DecidableEq

/-- The closed review block of one decision. -/
structure ReviewBlock where
  runId : String
  scope : ReviewScope
  pageId : String
  decision : ReviewDecision
  finding : Option Finding
  correction : Option Correction
  deriving DecidableEq

/-- The fields an approval record's self-hash is computed over. -/
structure ApprovalBody (Digest : Type) where
  subjectIds : List String
  action : ApprovalAction
  approver : String
  reason : String
  targetVersionHash : Digest
  timestamp : String
  review : Option ReviewBlock
  deriving DecidableEq

/-- One stored approval; it is of the second schema exactly when it carries a review block. -/
structure ApprovalRecord (Digest : Type) extends ApprovalBody Digest where
  selfHash : Digest
  deriving DecidableEq

/-- The digests of records, texts and payloads, as sealed artifacts name them. -/
structure ApprovalHashing (Digest : Type) where
  selfHash : ApprovalBody Digest → Digest
  record : ApprovalRecord Digest → Digest
  correction : Correction → Digest

def approver : String := "project-lead"

def maxApprovalSubjects : ℕ := 384
def maxApprovalSubjectBytes : ℕ := 1024
def maxApprovalReasonBytes : ℕ := 256 * 1024
def maxApprovalTimestampBytes : ℕ := 256
def maxApprovalTextBytes : ℕ := 256 * 1024
def maxApprovalNoteBytes : ℕ := 256 * 1024

/-- Why a text is not sound approval text, or nothing if it is. -/
def textFieldRefusal (value : String) (maximumBytes : ℕ) : Option String :=
  if Python.strip value = "" then some "is empty"
  else if maximumBytes < value.utf8ByteSize then some s!"exceeds {maximumBytes} UTF-8 bytes"
  else none

def boundedText (value : String) (maximumBytes : ℕ) : Bool :=
  (textFieldRefusal value maximumBytes).isNone

def requireFinding (review : ReviewBlock) : Except Refusal Unit :=
  if review.decision = .hold then
    require review.finding.isSome (.approvalRefusal
      (s!"a hold names its finding, one of {quote (findings.map Finding.text)}; None is not one"))
  else
    require review.finding.isNone (.approvalRefusal
      s!"only a hold names a finding; a {review.decision.text} names none")

def requireCorrection (review : ReviewBlock) : Except Refusal Unit :=
  match review.correction with
  | none => .ok ()
  | some correction => do
    require (boundedText correction.text maxApprovalTextBytes = true) (.approvalRefusal
      ("an edit's text must be non-blank UTF-8 text no larger than " ++
      s!"{maxApprovalTextBytes} bytes; it is the reading a person establishes"))
    require (∀ note ∈ correction.note, boundedText note maxApprovalNoteBytes = true)
      (.approvalRefusal
        ("an edit's note is absent (null) or non-blank UTF-8 text no larger than " ++
        s!"{maxApprovalNoteBytes} bytes"))

/-- Refuses a review block that is not closed, or that its scope does not allow. -/
def requireReviewBlock (review : ReviewBlock) (subjects : List String) : Except Refusal Unit := do
  require (review.decision = .edit ↔ review.correction.isSome) (.approvalRefusal
    ("a review decision's review block must hold exactly " ++
    quote (sortedSet (["run_id", "scope", "page_id", "decision", "finding"] ++
      if review.decision = .edit then ["text", "note"] else []))))
  [("run_id", review.runId), ("page_id", review.pageId)].forM fun (field, value) =>
    require (boundedText value maxApprovalSubjectBytes = true) (.approvalRefusal
      (s!"a review decision's {field} must be non-blank UTF-8 text no larger than " ++
      s!"{maxApprovalSubjectBytes} bytes"))
  require (review.decision ∈ reviewDecisions review.scope) (.approvalRefusal
    (s!"{quote review.decision} is not a {review.scope.text} decision; a {review.scope.text} " ++
    s!"decision is one of {quote (reviewDecisions review.scope)}"))
  requireFinding review
  requireCorrection review
  require (subjects.length = 1) (.approvalRefusal "a review decision names exactly one subject")
  require (review.scope = .page → subjects = [review.pageId])
    (.approvalRefusal "a page decision's subject is the page it names")

/-- The schema a record's fields close it under. -/
def ApprovalBody.schema {Digest : Type} (body : ApprovalBody Digest) : String :=
  if body.review.isSome then "approval-record.v1" else "approval-record.v0"

section Validate

variable {Digest : Type} [DecidableEq Digest] (hashing : ApprovalHashing Digest)

/-- Refuses anything that is not a sound, unedited approval record. -/
def validateApprovalRecord (record : ApprovalRecord Digest) : Except Refusal Unit := do
  require (record.approver = approver) (.approvalRefusal
    (s!"approval record names approver {quote record.approver}; only the project lead " ++
    s!"({quote approver}) approves, and no agent stands in for them"))
  require (record.action = .review ↔ record.review.isSome) (.approvalRefusal
    (s!"approval record {record.toApprovalBody.schema} has action {quote record.action.text}; " ++
    "the review action is approval-record.v1's, and only its"))
  require (record.subjectIds ≠ []) (.approvalRefusal "approval record names no subjects")
  require (record.subjectIds.length ≤ maxApprovalSubjects) (.approvalRefusal
    s!"approval record names more than {maxApprovalSubjects} subjects")
  require (∀ subject ∈ record.subjectIds, boundedText subject maxApprovalSubjectBytes = true)
    (.approvalRefusal
      ("approval record subjects must be non-blank UTF-8 text no larger than " ++
      s!"{maxApprovalSubjectBytes} bytes"))
  require record.subjectIds.Nodup
    (.approvalRefusal "approval record names the same subject more than once")
  require (record.subjectIds = record.subjectIds.insertionSort (· ≤ ·)) (.approvalRefusal
    ("approval record subjects are not in canonical order; one subject set must have " ++
    "one content address"))
  [("reason", record.reason, maxApprovalReasonBytes),
    ("timestamp", record.timestamp, maxApprovalTimestampBytes)].forM fun (field, value, maximum) =>
      match textFieldRefusal value maximum with
      | none => .ok ()
      | some problem => .error (.approvalRefusal
          (s!"approval record field {quote field} {problem}; an approval that does not " ++
          "say what it approved, why, or when is unreviewable later, which is the " ++
          s!"whole point of writing it down; the field is bounded to {maximum} " ++
          "UTF-8 bytes"))
  record.review.toList.forM fun review => requireReviewBlock review record.subjectIds
  require (record.selfHash = hashing.selfHash record.toApprovalBody) (.approvalRefusal
    ("approval record fails its own self-hash: it was edited after it was " ++
    "sealed, and an edited approval is not an approval"))

/-- What validation establishes of a review decision. -/
structure SoundReview (record : ApprovalRecord Digest) (review : ReviewBlock) : Prop where
  block : record.review = some review
  allowed : review.decision ∈ reviewDecisions review.scope
  editing : review.decision = .edit ↔ review.correction.isSome
  subject : ∃ subject, record.subjectIds = [subject]
  pageSubject : review.scope = .page → record.subjectIds = [review.pageId]
  sealed : record.selfHash = hashing.selfHash record.toApprovalBody

variable {hashing}

theorem validateApprovalRecord_reviewed {record : ApprovalRecord Digest}
    (accepted : validateApprovalRecord hashing record = .ok ()) :
    record.action = .review ↔ record.review.isSome := by
  obtain ⟨-, accepted⟩ := require_bind_eq_ok.mp accepted
  exact (require_bind_eq_ok.mp accepted).1

theorem validateApprovalRecord_sound {record : ApprovalRecord Digest}
    (accepted : validateApprovalRecord hashing record = .ok ()) {review : ReviewBlock}
    (present : record.review = some review) : SoundReview hashing record review := by
  obtain ⟨-, accepted⟩ := require_bind_eq_ok.mp accepted
  obtain ⟨-, accepted⟩ := require_bind_eq_ok.mp accepted
  obtain ⟨-, accepted⟩ := require_bind_eq_ok.mp accepted
  obtain ⟨-, accepted⟩ := require_bind_eq_ok.mp accepted
  obtain ⟨-, accepted⟩ := require_bind_eq_ok.mp accepted
  obtain ⟨-, accepted⟩ := require_bind_eq_ok.mp accepted
  obtain ⟨-, accepted⟩ := require_bind_eq_ok.mp accepted
  obtain ⟨_, -, accepted⟩ := bind_eq_ok.mp accepted
  obtain ⟨_, checked, accepted⟩ := bind_eq_ok.mp accepted
  have block := forM_eq_ok.mp checked review (by rw [present]; exact List.mem_singleton_self review)
  obtain ⟨editing, block⟩ := require_bind_eq_ok.mp block
  obtain ⟨_, -, block⟩ := bind_eq_ok.mp block
  obtain ⟨allowed, block⟩ := require_bind_eq_ok.mp block
  obtain ⟨_, -, block⟩ := bind_eq_ok.mp block
  obtain ⟨_, -, block⟩ := bind_eq_ok.mp block
  obtain ⟨single, page⟩ := require_bind_eq_ok.mp block
  exact ⟨present, allowed, editing, List.length_eq_one_iff.mp single, require_eq_ok.mp page,
    require_eq_ok.mp accepted⟩

end Validate

end Verbatus.Contracts
