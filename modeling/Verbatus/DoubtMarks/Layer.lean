import Verbatus.Contracts.References
import Verbatus.Python.StrText

namespace Verbatus.DoubtMarks

open Library Library.Checked Refusal Python
open Identities (str)
open Canonical (Reference digestRef)

section Records

inductive Confidence where
  | low
  | medium
  | high
  deriving DecidableEq

/-- A doubtful stretch of the text, from `start` to just before `stop`. -/
structure Span where
  start : ℕ
  stop : ℕ
  alternatives : List Str
  confidence : Confidence
  deriving DecidableEq

inductive GapPosition where
  | leading
  | internal
  | trailing
  | wholeAct
  deriving DecidableEq

def GapPosition.text : GapPosition → String
  | leading => "leading"
  | internal => "internal"
  | trailing => "trailing"
  | wholeAct => "whole-act"

instance : Quoted GapPosition := ⟨fun position => quote position.text⟩

/-- What a witness reads where the reader could not. -/
structure GapEvidence where
  chair : Str
  testimoniumId : Str
  reference : Reference
  variant : Str
  deriving DecidableEq

/-- Ink the reader could not read, at an offset of the text. -/
structure Gap where
  position : GapPosition
  start : ℕ
  stop : ℕ
  witnessEvidence : List GapEvidence
  deriving DecidableEq

inductive State where
  | assessed
  | notAssessed
  | malformed
  deriving DecidableEq

structure Assessment where
  state : State
  problem : Option String
  deriving DecidableEq

/-- How a reading was made; a layer may name a kind the contract does not know. -/
inductive LectioKind where
  | pageRead
  | personCorrected
  | unknown
  deriving DecidableEq

/-- The doubts of a reading beside its text; `selfRevisions` is whether they were measured. -/
structure Layer where
  uncertainSpans : List Span
  gaps : List Gap
  selfRevisions : Bool
  assessment : Assessment
  lectioKind : LectioKind
  deriving DecidableEq

def correctedProblem : String :=
  "corrected by a person: the person's text is taken as the truth and carries no " ++
    "machine doubt layer"

/-- The layer of a reading a person corrected. -/
def correctedLayer : Layer where
  uncertainSpans := []
  gaps := []
  selfRevisions := false
  assessment := ⟨.notAssessed, some correctedProblem⟩
  lectioKind := .personCorrected

end Records

section Validation

/-- What may follow a trailing gap. -/
def trailingTail : Str := str ".,;:!?)]\x7d»›\"'’”"

/-- Whether a gap at the offset ends the reading. -/
def isTrailingOffset (text : Str) (offset : ℕ) : Bool :=
  0 < offset && (text.drop offset).all fun point => point.isSpace || trailingTail.contains point

def validateAssessmentRecord (assessment : Assessment) : Except Refusal Unit := do
  require (assessment.problem ≠ some "")
    (.schemaRefusal "canonical uncertainty's assessment problem is not null or a string")
  require (assessment.state = .assessed ↔ assessment.problem = none)
    (.schemaRefusal ("canonical uncertainty's assessment carries a problem exactly when it " ++
      "is not assessed"))

def checkSpan (text : Str) (span : Span × ℕ) : Except Refusal Unit :=
  require ((span.1.start ≤ span.1.stop ∧ span.1.stop ≤ text.length) ∧ span.1.start ≠ span.1.stop)
    (.schemaRefusal
      s!"uncertain_spans[{span.2}] is outside the canonical text's Unicode offsets")

def checkEvidence (gap : ℕ) (evidence : GapEvidence × ℕ) : Except Refusal Unit := do
  let label := s!"gaps[{gap}].witness_evidence[{evidence.2}]"
  require (evidence.1.chair ≠ [] ∧ evidence.1.testimoniumId ≠ [])
    (.schemaRefusal (label ++ " is not the canonical witness-evidence record"))
  let _ ← digestRef evidence.1.reference.json (label ++ ".reference")

/-- Whether a gap stands where its position puts it. -/
def checkPosition (text : Str) (label : String) (gap : Gap) : Except Refusal Unit := do
  require (gap.position = .leading → gap.start = 0)
    (.schemaRefusal (label ++ " is declared leading but does not start at 0"))
  require (gap.position = .trailing → text.strip ≠ [] → isTrailingOffset text gap.stop = true)
    (.schemaRefusal (label ++ " is declared trailing but text follows it other than whitespace " ++
      "or closing punctuation"))
  require (gap.position = .internal →
      (0 < gap.start ∧ gap.start < text.length) ∧ isTrailingOffset text gap.start = false)
    (.schemaRefusal (label ++ " is declared internal but is not strictly inside the text"))
  require (gap.position = .wholeAct → text.strip = [] ∧ gap.start = 0)
    (.schemaRefusal (label ++ " is declared whole-act but the text is not empty"))

def checkGap (text : Str) (gap : Gap × ℕ) : Except Refusal Unit := do
  let label := s!"gaps[{gap.2}]"
  require (gap.1.start ≤ gap.1.stop ∧ gap.1.stop ≤ text.length)
    (.schemaRefusal (label ++ " is outside the canonical text's Unicode offsets"))
  require (gap.1.start = gap.1.stop)
    (.schemaRefusal (label ++ " is not a zero-width canonical gap"))
  checkPosition text label gap.1
  gap.1.witnessEvidence.zipIdx.forM (checkEvidence gap.2)

def checkEmptyText (gap : Gap × ℕ) : Except Refusal Unit :=
  require (gap.1.position = .wholeAct)
    (.schemaRefusal (s!"gaps[{gap.2}] is declared {quote gap.1.position} over an empty text; the " ++
      "only position that means anything where nothing was read is 'whole-act'"))

/-- The layer, unless it cannot anchor exactly to the text. -/
def validate (layer : Layer) (text : Str) : Except Refusal Layer := do
  validateAssessmentRecord layer.assessment
  if layer.lectioKind = .personCorrected then
    require (layer = correctedLayer)
      (.schemaRefusal ("a person's correction carries no machine doubt layer, only the fixed " ++
        "record that says so"))
    .ok layer
  else
    require (layer.lectioKind = .pageRead)
      (.schemaRefusal "canonical uncertainty names an unknown lectio kind")
    require (layer.selfRevisions = false)
      (.schemaRefusal "a page reading's self-revisions are not measured")
    layer.uncertainSpans.zipIdx.forM (checkSpan text)
    layer.gaps.zipIdx.forM (checkGap text)
    let wholeActRows := layer.gaps.countP fun gap => gap.position = .wholeAct
    require (wholeActRows = 0 ∨ wholeActRows = 1 ∧ layer.gaps.length = 1)
      (.schemaRefusal ("a whole-act gap must be the only gap in canonical uncertainty; a " ++
        "reading cannot be simultaneously wholly illegible and partly read"))
    if text.strip = [] then
      layer.gaps.zipIdx.forM checkEmptyText
    .ok layer

end Validation

section Accepted

variable {text : Str} {layer : Layer}

theorem checkSpan_eq_ok {span : Span × ℕ} : checkSpan text span = .ok () ↔
    span.1.start < span.1.stop ∧ span.1.stop ≤ text.length := by
  rw [checkSpan, require_eq_ok]
  omega

theorem checkGap_width {gap : Gap × ℕ} (checked : checkGap text gap = .ok ()) :
    gap.1.start = gap.1.stop ∧ gap.1.stop ≤ text.length := by
  rw [checkGap, require_bind_eq_ok, require_bind_eq_ok] at checked
  exact ⟨checked.2.1, checked.1.2⟩

/-- A gap without evidence is accepted where it stands as its position says. -/
theorem checkGap_of_position {gap : Gap × ℕ} (inside : gap.1.stop ≤ text.length)
    (width : gap.1.start = gap.1.stop) (unwitnessed : gap.1.witnessEvidence = [])
    (stands : ∀ label, checkPosition text label gap.1 = .ok ()) :
    checkGap text gap = .ok () := by
  rw [checkGap, require_bind_of ⟨width.le, inside⟩, require_bind_of width, stands, ok_bind,
    unwitnessed]
  rfl

theorem forall_mem_zipIdx {α : Type} {elements : List α} {holds : α → Prop} :
    (∀ element ∈ elements.zipIdx, holds element.1) ↔ ∀ element ∈ elements, holds element := by
  have named := List.zipIdx_map_fst 0 elements
  constructor
  · intro each element member
    rw [← named, List.mem_map] at member
    obtain ⟨numbered, listed, rfl⟩ := member
    exact each numbered listed
  · intro each element member
    refine each _ ?_
    rw [← named]
    exact List.mem_map_of_mem member

/-- Each mark of the layer lies in the text, its spans not empty and its gaps of no width. -/
structure Anchored (text : Str) (layer : Layer) : Prop where
  spans : ∀ span ∈ layer.uncertainSpans, span.start < span.stop ∧ span.stop ≤ text.length
  gaps : ∀ gap ∈ layer.gaps, gap.start = gap.stop ∧ gap.stop ≤ text.length

theorem validate_anchored {accepted : Layer} (valid : validate layer text = .ok accepted) :
    Anchored text layer := by
  obtain ⟨-, -, valid⟩ := bind_eq_ok.mp valid
  by_cases corrected : layer.lectioKind = .personCorrected
  · rw [if_pos corrected, require_bind_eq_ok] at valid
    rw [valid.1]
    constructor <;> simp [correctedLayer]
  · rw [if_neg corrected, require_bind_eq_ok, require_bind_eq_ok, bind_eq_ok] at valid
    obtain ⟨-, -, _, spans, valid⟩ := valid
    obtain ⟨_, gaps, -⟩ := bind_eq_ok.mp valid
    constructor
    · refine forall_mem_zipIdx.mp fun span listed => ?_
      exact checkSpan_eq_ok.mp (forM_eq_ok.mp spans span listed)
    · refine forall_mem_zipIdx.mp fun gap listed => ?_
      exact checkGap_width (forM_eq_ok.mp gaps gap listed)

/-- A page reading's layer is accepted when no gap of it carries evidence, covers the whole act or
is over an empty text, and each mark stands where it says. -/
theorem validate_of_anchored (kind : layer.lectioKind = .pageRead)
    (unmeasured : layer.selfRevisions = false)
    (assessed : validateAssessmentRecord layer.assessment = .ok ()) (anchored : Anchored text layer)
    (gaps : ∀ gap ∈ layer.gaps, gap.witnessEvidence = [] ∧ gap.position ≠ .wholeAct ∧
      ∀ label, checkPosition text label gap = .ok ())
    (something : layer.gaps ≠ [] → text.strip ≠ []) : validate layer text = .ok layer := by
  have eachSpan : layer.uncertainSpans.zipIdx.forM (checkSpan text) = .ok () := by
    refine forM_eq_ok.mpr fun span listed => checkSpan_eq_ok.mpr ?_
    exact forall_mem_zipIdx.mpr anchored.spans span listed
  have eachGap : layer.gaps.zipIdx.forM (checkGap text) = .ok () := by
    refine forM_eq_ok.mpr fun gap listed => ?_
    obtain ⟨width, inside⟩ := forall_mem_zipIdx.mpr anchored.gaps gap listed
    obtain ⟨unwitnessed, -, stands⟩ := forall_mem_zipIdx.mpr gaps gap listed
    exact checkGap_of_position inside width unwitnessed stands
  have none : layer.gaps.countP (fun gap => gap.position = .wholeAct) = 0 := by
    rw [List.countP_eq_zero]
    intro gap listed
    simpa using (gaps gap listed).2.1
  have uncorrected : layer.lectioKind ≠ .personCorrected := by
    rw [kind]
    exact nofun
  rw [validate, assessed, ok_bind, if_neg uncorrected, require_bind_of kind,
    require_bind_of unmeasured, eachSpan, ok_bind, eachGap, ok_bind, require_bind_of (.inl none)]
  split_ifs with empty
  · rw [not_not.mp fun some => something some empty]
    rfl
  · rfl

end Accepted

end Verbatus.DoubtMarks
