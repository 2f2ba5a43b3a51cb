import Verbatus.DoubtMarks.Layer
import Verbatus.DoubtMarks.Marks

namespace Verbatus.DoubtMarks

open Library Library.Checked Refusal Python CodePoint
open Identities (str)
open Canonical (plainText)

section Reading

/-- A reader's doubts beside the text they anchor to. -/
structure Report where
  state : State
  uncertainSpans : List Span
  gaps : List Gap
  problem : Option String
  deriving DecidableEq

/-- A doubt report that could not be anchored, its layers empty. -/
def malformedAssessment (problem : String) : Report := ⟨.malformed, [], [], some problem⟩

/-- The doubtful readings among the tokens, whose text begins at an offset. -/
def spansFrom (offset : ℕ) : List Token → List Span
  | [] => []
  | .doubt marked :: tokens =>
      ⟨offset, offset + marked.reading.length, marked.alternatives, .low⟩ ::
        spansFrom (offset + marked.reading.length) tokens
  | token :: tokens => spansFrom (offset + token.text.length) tokens

/-- Where the unread ink among the tokens is, whose text begins at an offset. -/
def gapOffsetsFrom (offset : ℕ) : List Token → List ℕ
  | [] => []
  | .gap :: tokens => offset :: gapOffsetsFrom offset tokens
  | token :: tokens => gapOffsetsFrom (offset + token.text.length) tokens

def gapPosition (text : Str) (offset : ℕ) : GapPosition :=
  if offset = 0 then .leading
  else if isTrailingOffset text offset then .trailing
  else .internal

def gapAt (text : Str) (offset : ℕ) : Gap := ⟨gapPosition text offset, offset, offset, []⟩

/-- The report of a reading whose marks are all anchored. -/
def assessedReport (tokens : List Token) : Report where
  state := .assessed
  uncertainSpans := spansFrom 0 tokens
  gaps := if (textOf tokens).strip = [] then []
    else (gapOffsetsFrom 0 tokens).map (gapAt (textOf tokens))
  problem := none

/-- A marked reading as its text and the doubts the reader marked. -/
def readDoubtMarks (raw : Str) : Str × Report :=
  match tokensOf raw with
  | .error found =>
    (raw, malformedAssessment s!"the doubt mark {quote (plainText found)} names no reading")
  | .ok tokens =>
    if opening <:+: textOf tokens ∨ closing <:+: textOf tokens then
      (raw, malformedAssessment "the reading holds a [[ or ]] that is not a closed doubt mark")
    else (textOf tokens, assessedReport tokens)

end Reading

section Parsed

/-- What a reading is made of whose marks are all closed and anchored. -/
structure Parsed (raw : Str) (tokens : List Token) : Prop where
  read : tokensOf raw = .ok tokens
  unopened : ¬ opening <:+: textOf tokens
  unclosed : ¬ closing <:+: textOf tokens

variable {raw : Str} {tokens : List Token}

theorem Parsed.eq (parsed : Parsed raw tokens) :
    readDoubtMarks raw = (textOf tokens, assessedReport tokens) := by
  rw [readDoubtMarks, parsed.read]
  exact if_neg (not_or.mpr ⟨parsed.unopened, parsed.unclosed⟩)

theorem Parsed.raw_eq (parsed : Parsed raw tokens) : rawOf tokens = raw :=
  tokensOf_raw parsed.read

theorem Parsed.scan_eq (parsed : Parsed raw tokens) : mark.scan raw = tokens.map Token.piece :=
  tokensOf_scan parsed.read

/-- Tokens are what they are written as, when neither `[[` nor `]]` stands in their text. -/
theorem parsed_rawOf (unopened : ¬ opening <:+: textOf tokens)
    (unclosed : ¬ closing <:+: textOf tokens) : Parsed (rawOf tokens) tokens :=
  ⟨tokensOf_rawOf unopened, unopened, unclosed⟩

/-- A reading is assessed with the doubts it holds, or malformed with a problem named. -/
theorem readDoubtMarks_cases (raw : Str) : (∃ tokens, Parsed raw tokens) ∨
    ∃ problem, problem ≠ "" ∧ readDoubtMarks raw = (raw, malformedAssessment problem) := by
  cases read : tokensOf raw with
  | error found =>
      refine .inr ⟨_, ?_, by rw [readDoubtMarks, read]⟩
      intro empty
      rw [String.append_eq_empty_iff] at empty
      exact absurd empty.2 (by decide)
  | ok tokens =>
      by_cases closed : opening <:+: textOf tokens ∨ closing <:+: textOf tokens
      · refine .inr ⟨"the reading holds a [[ or ]] that is not a closed doubt mark", by decide, ?_⟩
        rw [readDoubtMarks, read]
        exact if_pos closed
      · rw [not_or] at closed
        exact .inl ⟨tokens, read, closed.1, closed.2⟩

theorem state_assessed_iff :
    (readDoubtMarks raw).2.state = .assessed ↔ ∃ tokens, Parsed raw tokens := by
  constructor
  · intro assessed
    rcases readDoubtMarks_cases raw with parsed | ⟨problem, -, same⟩
    · exact parsed
    · rw [same] at assessed
      cases assessed
  · rintro ⟨tokens, parsed⟩
    rw [parsed.eq]
    rfl

end Parsed

section Recorded

/-- The tokens a report records: a reading with no text has no gap. -/
def recorded (tokens : List Token) : List Token :=
  if (textOf tokens).strip = [] then tokens.filter (· ≠ .gap) else tokens

variable {tokens : List Token}

theorem textOf_filter (tokens : List Token) : textOf (tokens.filter (· ≠ .gap)) = textOf tokens := by
  induction tokens with
  | nil => rfl
  | cons token tokens ih =>
      cases token with
      | gap => exact ih
      | plain point => exact congrArg (_ ++ ·) ih
      | doubt marked => exact congrArg (_ ++ ·) ih

theorem spansFrom_filter (offset : ℕ) (tokens : List Token) :
    spansFrom offset (tokens.filter (· ≠ .gap)) = spansFrom offset tokens := by
  induction tokens generalizing offset with
  | nil => rfl
  | cons token tokens ih =>
      cases token with
      | gap => exact ih offset
      | plain point => exact ih (offset + 1)
      | doubt marked => exact congrArg (_ :: ·) (ih _)

theorem gapOffsetsFrom_filter (offset : ℕ) (tokens : List Token) :
    gapOffsetsFrom offset (tokens.filter (· ≠ .gap)) = [] := by
  induction tokens generalizing offset with
  | nil => rfl
  | cons token tokens ih =>
      cases token with
      | gap => exact ih offset
      | plain point => exact ih (offset + 1)
      | doubt marked => exact ih (offset + marked.reading.length)

@[simp] theorem textOf_recorded (tokens : List Token) : textOf (recorded tokens) = textOf tokens := by
  rw [recorded]
  split_ifs
  · exact textOf_filter tokens
  · rfl

/-- Every gap of the recorded tokens is in the report. -/
theorem assessedReport_eq (tokens : List Token) : assessedReport tokens =
    ⟨.assessed, spansFrom 0 (recorded tokens),
      (gapOffsetsFrom 0 (recorded tokens)).map (gapAt (textOf tokens)), none⟩ := by
  rw [assessedReport, recorded]
  split_ifs
  · rw [spansFrom_filter, gapOffsetsFrom_filter]
    rfl
  · rfl

theorem assessedReport_recorded (tokens : List Token) :
    assessedReport (recorded tokens) = assessedReport tokens := by
  have again : recorded (recorded tokens) = recorded tokens := by
    rw [recorded, textOf_recorded, recorded]
    split_ifs
    · rw [List.filter_filter]
      congr 1
      funext token
      exact Bool.and_self _
    · rfl
  rw [assessedReport_eq, assessedReport_eq, again, textOf_recorded]

/-- Tokens are all recorded when some of their text is not white space, or none is a gap. -/
theorem recorded_of (all : (∃ point ∈ textOf tokens, point.isSpace = false) ∨ .gap ∉ tokens) :
    recorded tokens = tokens := by
  rw [recorded]
  split_ifs with blank
  · rcases all with ⟨point, member, ink⟩ | none
    · rw [Str.strip_eq_nil.mp blank point member] at ink
      cases ink
    · rw [List.filter_eq_self]
      intro token listed
      rw [decide_eq_true_eq]
      rintro rfl
      exact none listed
  · rfl

end Recorded

section Anchors

variable {text : Str} {tokens : List Token}

/-- Each doubtful reading is a stretch of its tokens' text, which is not empty. -/
theorem mem_spansFrom {span : Span} {offset : ℕ} (listed : span ∈ spansFrom offset tokens) :
    offset ≤ span.start ∧ span.start < span.stop ∧
      span.stop ≤ offset + (textOf tokens).length := by
  induction tokens generalizing offset with
  | nil => exact absurd listed List.not_mem_nil
  | cons token tokens ih =>
      rw [textOf_cons, List.length_append]
      cases token with
      | plain point =>
          have later := @ih (offset + 1) listed
          change _ ∧ _ ∧ _ ≤ offset + (1 + _)
          omega
      | gap =>
          have later := @ih offset listed
          change _ ∧ _ ∧ _ ≤ offset + (0 + _)
          omega
      | doubt marked =>
          change _ ∧ _ ∧ _ ≤ offset + (marked.reading.length + _)
          rcases List.mem_cons.mp listed with rfl | listed
          · have pos := List.length_pos_of_ne_nil marked.named.1
            simp only
            omega
          · have later := ih listed
            omega

theorem mem_gapOffsetsFrom {place offset : ℕ} (listed : place ∈ gapOffsetsFrom offset tokens) :
    offset ≤ place ∧ place ≤ offset + (textOf tokens).length := by
  induction tokens generalizing offset with
  | nil => exact absurd listed List.not_mem_nil
  | cons token tokens ih =>
      rw [textOf_cons, List.length_append]
      cases token with
      | plain point =>
          have later := @ih (offset + 1) listed
          change _ ∧ _ ≤ offset + (1 + _)
          omega
      | gap =>
          change _ ∧ _ ≤ offset + (0 + _)
          rcases List.mem_cons.mp listed with rfl | listed
          · omega
          · have later := @ih offset listed
            omega
      | doubt marked =>
          have later := @ih (offset + marked.reading.length) listed
          change _ ∧ _ ≤ offset + (marked.reading.length + _)
          omega

/-- A gap past a text's start that nothing but its end may follow is a trailing one. -/
theorem isTrailingOffset_length (pos : 0 < text.length) :
    isTrailingOffset text text.length = true := by
  simp [isTrailingOffset, pos]

/-- A gap stands where its own position puts it. -/
theorem checkPosition_gapAt {offset : ℕ} (inside : offset ≤ text.length) (label : String) :
    checkPosition text label (gapAt text offset) = .ok () := by
  rw [checkPosition, require_bind_eq_ok, require_bind_eq_ok, require_bind_eq_ok, require_eq_ok,
    gapAt, gapPosition]
  dsimp only
  split_ifs with start trailing
  · exact ⟨fun _ => start, nofun, nofun, nofun⟩
  · exact ⟨nofun, fun _ _ => trailing, nofun, nofun⟩
  · refine ⟨nofun, nofun, fun _ => ⟨⟨by omega, ?_⟩, by simpa using trailing⟩, nofun⟩
    refine lt_of_le_of_ne inside ?_
    rintro rfl
    exact trailing (isTrailingOffset_length (by omega))

end Anchors

end Verbatus.DoubtMarks
