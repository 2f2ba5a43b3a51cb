import Verbatus.Churro.Parse
import Verbatus.Churro.Performed

namespace Verbatus.Churro

open Library Library.Checked Python
open Identities (str)
open Canonical

section Validating

def parseStates : List String := ["parsed", "failed", "unrecognized-shape"]

def documentShapes : List String := ["historical-document", "plain-text"]

def documentFindingKinds : List String :=
  ["prompt-echo-trimmed", "stray-markup-escaped", "page-text-outside-sections",
    "document-text-outside-pages"]

def countedFindingKinds : List String := ["prompt-echo-trimmed", "stray-markup-escaped"]

def unparsedFields : List String := ["state", "parser", "response_bytes", "findings", "reason"]

def parsedFields : List String :=
  ["state", "parser", "response_bytes", "findings", "shape", "view", "text", "sections",
    "marked_spans", "pages"]

def sectionFields : List String := ["page_ordinal", "section", "span", "lines"]

/-- Whether a value is a text among some names. -/
def among (names : List Str) : JsonValue → Bool
  | .str text => text ∈ names
  | _ => false

/-- `value in frozenset(…)`, which raises on a value that has no hash. -/
def inSet (names : List Str) (value : JsonValue) : Except Refusal Bool :=
  match value with
  | .list _ => .error (.typeError "unhashable type: 'list'")
  | .object _ => .error (.typeError "unhashable type: 'dict'")
  | value => .ok (among names value)

def fieldsOf : JsonValue → List (Str × JsonValue)
  | .object fields => fields
  | _ => []

def isDict : JsonValue → Bool
  | .object _ => true
  | _ => false

/-- `_positive_int` -/
def positiveInt : JsonValue → Bool
  | .int value => 0 ≤ value
  | _ => false

def numberOf : JsonValue → ℤ
  | .int value => value
  | _ => 0

def itemsOf : JsonValue → List JsonValue
  | .list items => items
  | _ => []

def isList : JsonValue → Bool
  | .list _ => true
  | _ => false

def textOf : JsonValue → Option Str
  | .str text => some text
  | _ => none

def validateFinding (finding : JsonValue) : Except Refusal Unit := do
  let unknown := Refusal.schemaRefusal "a Churro document parse has an unknown finding kind"
  require (isDict finding) unknown
  let fields := fieldsOf finding
  let kind := fieldOf "kind" fields
  let known ← inSet (documentFindingKinds.map str) kind
  require known unknown
  let name := plainText ((textOf kind).getD [])
  let malformed := Refusal.schemaRefusal s!"a Churro {name} finding is malformed"
  if among (countedFindingKinds.map str) kind then
    require (hasExactly ["kind", "characters"] fields ∧ positiveInt (fieldOf "characters" fields))
      malformed
  else if kind = .str (str "page-text-outside-sections") then
    require (hasExactly ["kind", "page_ordinal"] fields ∧
      positiveInt (fieldOf "page_ordinal" fields) ∧
      ¬ numberOf (fieldOf "page_ordinal" fields) < 1) malformed
  else require (hasExactly ["kind"] fields) malformed

/-- A span may be empty, but it names no offset the text cannot answer. -/
def validateSpan (start stop : JsonValue) (text : Str) (what : String) : Except Refusal Unit := do
  require (positiveInt start ∧ positiveInt stop ∧ ¬ numberOf stop < numberOf start)
    (.schemaRefusal s!"{what} is not a non-negative [start, end) span")
  require (¬ numberOf stop > text.length)
    (.schemaRefusal s!"{what} runs past the end of the text it addresses")

def validateSection (host : ChurroHost) (text : Str) (value : JsonValue) : Except Refusal Unit := do
  let fields := fieldsOf value
  require (isDict value ∧ hasExactly sectionFields fields)
    (.schemaRefusal "a Churro document section record is not its closed schema")
  let named := host.repr (fieldOf "section" fields)
  require (among pageSectionNames (fieldOf "section" fields))
    (.schemaRefusal s!"a Churro document section is named {named}")
  require (positiveInt (fieldOf "page_ordinal" fields) ∧
      ¬ numberOf (fieldOf "page_ordinal" fields) < 1)
    (.schemaRefusal "a Churro document section has no 1-based page ordinal")
  require (positiveInt (fieldOf "lines" fields))
    (.schemaRefusal "a Churro document section has no line count")
  let span := fieldOf "span" fields
  require (isDict span ∧ hasExactly ["start", "end"] (fieldsOf span))
    (.schemaRefusal "a Churro document section span is not its closed schema")
  validateSpan (fieldOf "start" (fieldsOf span)) (fieldOf "end" (fieldsOf span)) text
    "a Churro document section"

def validateMarkedSpan (host : ChurroHost) (text : Str) (value : JsonValue) :
    Except Refusal Unit := do
  let fields := fieldsOf value
  require (isDict value ∧ hasExactly ["kind", "start", "end"] fields)
    (.schemaRefusal "a Churro marked span is not its closed schema")
  let known ← inSet markedSpanKinds (fieldOf "kind" fields)
  let kind := host.repr (fieldOf "kind" fields)
  require known (.schemaRefusal s!"a Churro marked span has unknown kind {kind}")
  validateSpan (fieldOf "start" fields) (fieldOf "end" fields) text "a Churro marked span"

def validateParsed (host : ChurroHost) (fields : List (Str × JsonValue)) : Except Refusal Unit := do
  let shape := fieldOf "shape" fields
  let known ← inSet (documentShapes.map str) shape
  require known (.schemaRefusal s!"a parsed Churro document has unknown shape {host.repr shape}")
  require (fieldOf "view" fields = .str (str churroTextView))
    (.schemaRefusal "a parsed Churro document does not name the Churro text view")
  match textOf (fieldOf "text" fields) with
  | none => .error (.schemaRefusal "a parsed Churro document carries no text")
  | some text =>
    require (positiveInt (fieldOf "pages" fields))
      (.schemaRefusal "a parsed Churro document has no page count")
    let sections := fieldOf "sections" fields
    let spans := fieldOf "marked_spans" fields
    require (isList sections ∧ isList spans)
      (.schemaRefusal "a parsed Churro document's sections and spans are not lists")
    require (shape ≠ .str (str "historical-document") →
        itemsOf sections = [] ∧ itemsOf spans = [] ∧ numberOf (fieldOf "pages" fields) = 0)
      (.schemaRefusal
        s!"a {host.repr shape} Churro document claims page structure it cannot have read")
    (itemsOf sections).forM (validateSection host text)
    (itemsOf spans).forM (validateMarkedSpan host text)

/-- Close the record a parse produces, at any consumer seam. -/
def validateChurroDocumentParse (host : ChurroHost) (value : JsonValue) : Except Refusal Unit := do
  require (isDict value) (.schemaRefusal "a Churro document parse is not an object")
  let fields := fieldsOf value
  let state := fieldOf "state" fields
  let known ← inSet (parseStates.map str) state
  require known
    (.schemaRefusal s!"a Churro document parse has unknown state {host.repr state}")
  let isParsed := state = .str (str "parsed")
  require (hasExactly (if isParsed then parsedFields else unparsedFields) fields)
    (.schemaRefusal s!"a Churro document parse in state {host.repr state} is not its closed schema")
  require (fieldOf "parser" fields = .str (str churroParser))
    (.schemaRefusal "a Churro document parse does not name the Churro parser")
  require (positiveInt (fieldOf "response_bytes" fields))
    (.schemaRefusal "a Churro document parse has no response byte count")
  require (isList (fieldOf "findings" fields))
    (.schemaRefusal "a Churro document parse findings block is not a list")
  (itemsOf (fieldOf "findings" fields)).forM validateFinding
  if isParsed then validateParsed host fields
  else
    require ((textOf (fieldOf "reason" fields)).any fun reason => !isBlank reason)
      (.schemaRefusal s!"a {host.repr state} Churro document parse carries no reason")

end Validating

section Accepting

theorem require_true {condition : Prop} [Decidable condition] {error : Refusal} (holds : condition) :
    Checked.require condition error = .ok () := by
  rw [Checked.require, if_pos holds]

theorem Finding.accepted (finding : Finding) (places : finding.Places) :
    validateFinding finding.record = .ok () := by
  have counted : ∀ (kind : String) (characters : ℕ), kind ∈ countedFindingKinds →
      validateFinding (.object (named [("kind", .str (str kind)), ("characters", .int characters)])) =
        .ok () := by
    intro kind characters counts
    have atKind : fieldOf "kind" (named [("kind", .str (str kind)),
        ("characters", .int characters)]) = .str (str kind) :=
      fieldOf_named (by simp) (.head _)
    have atCharacters : fieldOf "characters" (named [("kind", .str (str kind)),
        ("characters", .int characters)]) = .int characters :=
      fieldOf_named (by simp) (.tail _ (.head _))
    have closed : hasExactly ["kind", "characters"] (named [("kind", .str (str kind)),
        ("characters", .int characters)]) = true := hasExactly_named (.refl _)
    rw [countedFindingKinds] at counts
    have known : str kind ∈ documentFindingKinds.map str := List.mem_map_of_mem (by
      rw [documentFindingKinds]
      rcases List.mem_cons.mp counts with rfl | second
      · exact .head _
      · exact .tail _ (List.mem_singleton.mp second ▸ .head _))
    have counted : str kind ∈ countedFindingKinds.map str := List.mem_map_of_mem counts
    simp only [validateFinding, isDict, fieldsOf, atKind, atCharacters, closed, inSet, among, known,
      counted, positiveInt, decide_true, if_true, require_true, ok_bind, Int.natCast_nonneg, and_self]
  cases finding with
  | promptEchoTrimmed characters => exact counted _ characters (.head _)
  | strayMarkupEscaped characters => exact counted _ characters (.tail _ (.head _))
  | pageTextOutsideSections pageOrdinal =>
      have positive : ¬ (pageOrdinal : ℤ) < 1 := by
        have first : 1 ≤ pageOrdinal := places
        omega
      have atKind : fieldOf "kind" (named [("kind", .str (str "page-text-outside-sections")),
          ("page_ordinal", .int pageOrdinal)]) = .str (str "page-text-outside-sections") :=
        fieldOf_named (by simp) (.head _)
      have atOrdinal : fieldOf "page_ordinal" (named [("kind",
          .str (str "page-text-outside-sections")), ("page_ordinal", .int pageOrdinal)]) =
            .int pageOrdinal :=
        fieldOf_named (by simp) (.tail _ (.head _))
      have closed : hasExactly ["kind", "page_ordinal"] (named [("kind",
          .str (str "page-text-outside-sections")), ("page_ordinal", .int pageOrdinal)]) = true :=
        hasExactly_named (.refl _)
      have known : str "page-text-outside-sections" ∈ documentFindingKinds.map str := by decide
      have counted : str "page-text-outside-sections" ∉ countedFindingKinds.map str := by decide
      simp only [validateFinding, Finding.record, isDict, fieldsOf, atKind, atOrdinal, closed, inSet,
        among, known, counted, positiveInt, numberOf, positive, decide_true, decide_false, if_true,
        if_false, Bool.false_eq_true, require_true, ok_bind, Int.natCast_nonneg, not_false_eq_true,
        and_self]
  | documentTextOutsidePages => decide +kernel

variable (host : ChurroHost)

theorem validateSpan_accepts {start stop : ℕ} {text : Str} (what : String)
    (ordered : start ≤ stop) (within : stop ≤ text.length) :
    validateSpan (.int start) (.int stop) text what = .ok () := by
  have before : ¬ (stop : ℤ) < start := by omega
  have inside : ¬ (stop : ℤ) > text.length := by omega
  simp only [validateSpan, positiveInt, numberOf, before, inside, Int.natCast_nonneg, decide_true,
    require_true, ok_bind, not_false_eq_true, and_self]

theorem SectionSpan.accepted {span : SectionSpan} {text : Str} (first : 1 ≤ span.pageOrdinal)
    (name : span.name ∈ pageSectionNames) (ordered : span.start ≤ span.stop)
    (within : span.stop ≤ text.length) : validateSection host text span.record = .ok () := by
  have positive : ¬ (span.pageOrdinal : ℤ) < 1 := by omega
  let fields : List (String × JsonValue) :=
    [("page_ordinal", .int span.pageOrdinal), ("section", .str span.name),
      ("span", .object (named [("start", .int span.start), ("end", .int span.stop)])),
      ("lines", .int span.lines)]
  have distinct : (fields.map Prod.fst).Nodup := by simp [fields]
  have closed : hasExactly sectionFields (named fields) = true := hasExactly_named (.refl _)
  have atOrdinal : fieldOf "page_ordinal" (named fields) = .int span.pageOrdinal :=
    fieldOf_named distinct (.head _)
  have atSection : fieldOf "section" (named fields) = .str span.name :=
    fieldOf_named distinct (.tail _ (.head _))
  have atSpan : fieldOf "span" (named fields) =
      .object (named [("start", .int span.start), ("end", .int span.stop)]) :=
    fieldOf_named distinct (.tail _ (.tail _ (.head _)))
  have atLines : fieldOf "lines" (named fields) = .int span.lines :=
    fieldOf_named distinct (.tail _ (.tail _ (.tail _ (.head _))))
  have bounds : hasExactly ["start", "end"]
      (named [("start", .int span.start), ("end", .int span.stop)]) = true :=
    hasExactly_named (.refl _)
  have atStart : fieldOf "start" (named [("start", .int span.start), ("end", .int span.stop)]) =
      .int span.start := fieldOf_named (by simp) (.head _)
  have atStop : fieldOf "end" (named [("start", .int span.start), ("end", .int span.stop)]) =
      .int span.stop := fieldOf_named (by simp) (.tail _ (.head _))
  change validateSection host text (.object (named fields)) = _
  simp only [validateSection, isDict, fieldsOf, closed, atOrdinal, atSection, atSpan, atLines, bounds,
    atStart, atStop, among, name, positiveInt, numberOf, positive, Int.natCast_nonneg, decide_true,
    require_true, ok_bind, not_false_eq_true, and_self,
    validateSpan_accepts "a Churro document section" ordered within]

theorem MarkedSpan.accepted {span : MarkedSpan} {text : Str} (kind : span.kind ∈ markedSpanKinds)
    (ordered : span.start ≤ span.stop) (within : span.stop ≤ text.length) :
    validateMarkedSpan host text span.record = .ok () := by
  let fields : List (String × JsonValue) :=
    [("kind", .str span.kind), ("start", .int span.start), ("end", .int span.stop)]
  have distinct : (fields.map Prod.fst).Nodup := by simp [fields]
  have closed : hasExactly ["kind", "start", "end"] (named fields) = true :=
    hasExactly_named (.refl _)
  have atKind : fieldOf "kind" (named fields) = .str span.kind := fieldOf_named distinct (.head _)
  have atStart : fieldOf "start" (named fields) = .int span.start :=
    fieldOf_named distinct (.tail _ (.head _))
  have atStop : fieldOf "end" (named fields) = .int span.stop :=
    fieldOf_named distinct (.tail _ (.tail _ (.head _)))
  change validateMarkedSpan host text (.object (named fields)) = _
  simp only [validateMarkedSpan, isDict, fieldsOf, closed, atKind, atStart, atStop, inSet, among, kind,
    decide_true, require_true, ok_bind, and_self,
    validateSpan_accepts "a Churro marked span" ordered within]

theorem findings_accepted {findings : List Finding} (places : ∀ finding ∈ findings, finding.Places) :
    (findings.map Finding.record).forM validateFinding = .ok () := by
  refine forM_ok_of_forall fun value listed => ?_
  obtain ⟨finding, inside, rfl⟩ := List.mem_map.mp listed
  exact finding.accepted (places finding inside)

/-- A record of an answer that was not read is accepted, whatever its reason says. -/
theorem unread_accepted {state : String} {responseBytes : ℕ} {findings : List Finding} {reason : Str}
    (known : state ∈ parseStates) (notParsed : state ≠ "parsed")
    (places : ∀ finding ∈ findings, finding.Places) (given : isBlank reason = false) :
    validateChurroDocumentParse host (unread state responseBytes findings reason) = .ok () := by
  let fields := baseFields state responseBytes findings ++ [("reason", .str reason)]
  have distinct : (fields.map Prod.fst).Nodup := by simp [fields, baseFields]
  have closed : hasExactly unparsedFields (named fields) = true := hasExactly_named (.refl _)
  have atState : fieldOf "state" (named fields) = .str (str state) :=
    fieldOf_named distinct (.head _)
  have atParser : fieldOf "parser" (named fields) = .str (str churroParser) :=
    fieldOf_named distinct (.tail _ (.head _))
  have atBytes : fieldOf "response_bytes" (named fields) = .int responseBytes :=
    fieldOf_named distinct (.tail _ (.tail _ (.head _)))
  have atFindings : fieldOf "findings" (named fields) = .list (findings.map Finding.record) :=
    fieldOf_named distinct (.tail _ (.tail _ (.tail _ (.head _))))
  have atReason : fieldOf "reason" (named fields) = .str reason :=
    fieldOf_named distinct (.tail _ (.tail _ (.tail _ (.tail _ (.head _)))))
  have inStates : str state ∈ parseStates.map str := List.mem_map_of_mem known
  have other : ¬ JsonValue.str (str state) = .str (str "parsed") := fun same =>
    notParsed (Identities.str_injective (JsonValue.str.inj same))
  change validateChurroDocumentParse host (.object (named fields)) = _
  simp only [validateChurroDocumentParse, isDict, fieldsOf, atState, atParser, atBytes, atFindings,
    atReason, inSet, among, inStates, other, closed, positiveInt, isList, itemsOf, textOf, given,
    Option.any_some, Int.natCast_nonneg, decide_true, require_true, ok_bind, Bool.not_false,
    if_false, findings_accepted places]

/-- What a parsed record must hold for the seam to accept it. -/
structure Readable (text : Str) (findings : List Finding) (sections : List SectionSpan)
    (markedSpans : List MarkedSpan) : Prop where
  findings : ∀ finding ∈ findings, finding.Places
  sections : ∀ span ∈ sections, 1 ≤ span.pageOrdinal ∧ span.name ∈ pageSectionNames ∧
    span.start ≤ span.stop ∧ span.stop ≤ text.length
  markedSpans : ∀ span ∈ markedSpans, span.kind ∈ markedSpanKinds ∧ span.start ≤ span.stop ∧
    span.stop ≤ text.length

theorem parsed_accepted {shape : String} {text : Str} {responseBytes : ℕ} {findings : List Finding}
    {sections : List SectionSpan} {markedSpans : List MarkedSpan} {pages : ℕ}
    (known : shape ∈ documentShapes) (readable : Readable text findings sections markedSpans)
    (structured : shape ≠ "historical-document" → sections = [] ∧ markedSpans = [] ∧ pages = 0) :
    validateChurroDocumentParse host
      (parsed shape text responseBytes findings sections markedSpans pages) = .ok () := by
  let fields := baseFields "parsed" responseBytes findings ++
    [("shape", .str (str shape)), ("view", .str (str churroTextView)), ("text", .str text),
      ("sections", .list (sections.map SectionSpan.record)),
      ("marked_spans", .list (markedSpans.map MarkedSpan.record)), ("pages", .int pages)]
  have distinct : (fields.map Prod.fst).Nodup := by simp [fields, baseFields]
  have closed : hasExactly parsedFields (named fields) = true := hasExactly_named (.refl _)
  have field : ∀ {name : String} {value : JsonValue}, (name, value) ∈ fields →
      fieldOf name (named fields) = value := fieldOf_named distinct
  have atState : fieldOf "state" (named fields) = .str (str "parsed") :=
    field (by simp [fields, baseFields])
  have atParser : fieldOf "parser" (named fields) = .str (str churroParser) :=
    field (by simp [fields, baseFields])
  have atBytes : fieldOf "response_bytes" (named fields) = .int responseBytes :=
    field (by simp [fields, baseFields])
  have atFindings : fieldOf "findings" (named fields) = .list (findings.map Finding.record) :=
    field (by simp [fields, baseFields])
  have atShape : fieldOf "shape" (named fields) = .str (str shape) := field (by simp [fields])
  have atView : fieldOf "view" (named fields) = .str (str churroTextView) := field (by simp [fields])
  have atText : fieldOf "text" (named fields) = .str text := field (by simp [fields])
  have atSections : fieldOf "sections" (named fields) =
      .list (sections.map SectionSpan.record) := field (by simp [fields])
  have atSpans : fieldOf "marked_spans" (named fields) =
      .list (markedSpans.map MarkedSpan.record) := field (by simp [fields])
  have atPages : fieldOf "pages" (named fields) = .int pages := field (by simp [fields])
  have inStates : str "parsed" ∈ parseStates.map str := by decide
  have inShapes : str shape ∈ documentShapes.map str := List.mem_map_of_mem known
  have plain : JsonValue.str (str shape) ≠ .str (str "historical-document") →
      sections.map SectionSpan.record = [] ∧ markedSpans.map MarkedSpan.record = [] ∧
        (pages : ℤ) = 0 := by
    intro other
    obtain ⟨rfl, rfl, rfl⟩ := structured fun same => other (by rw [same])
    exact ⟨rfl, rfl, rfl⟩
  have each : (sections.map SectionSpan.record).forM (validateSection host text) = .ok () := by
    refine forM_ok_of_forall fun value listed => ?_
    obtain ⟨span, inside, rfl⟩ := List.mem_map.mp listed
    obtain ⟨first, name, ordered, within⟩ := readable.sections span inside
    exact span.accepted host first name ordered within
  have marks : (markedSpans.map MarkedSpan.record).forM (validateMarkedSpan host text) = .ok () := by
    refine forM_ok_of_forall fun value listed => ?_
    obtain ⟨span, inside, rfl⟩ := List.mem_map.mp listed
    obtain ⟨kind, ordered, within⟩ := readable.markedSpans span inside
    exact span.accepted host kind ordered within
  change validateChurroDocumentParse host (.object (named fields)) = _
  have body : validateParsed host (named fields) = .ok () := by
    simp only [validateParsed, atShape, atView, atText, atSections, atSpans, atPages, inSet, among,
      inShapes, textOf, positiveInt, isList, itemsOf, numberOf, decide_true, Int.natCast_nonneg,
      and_self, require_true, ok_bind, each, marks]
    rw [require_true plain]
    rfl
  simp only [validateChurroDocumentParse, isDict, fieldsOf, atState, atParser, atBytes, atFindings,
    inSet, among, inStates, closed, positiveInt, isList, itemsOf, Int.natCast_nonneg, decide_true,
    require_true, ok_bind, if_true, findings_accepted readable.findings, body]

theorem not_blank {first : Char} {text rest : Str} (shown : Python.isSpace first = false)
    (begins : text = .scalar first :: rest) : isBlank text = false := by
  rw [begins, isBlank, List.all_cons, CodePoint.scalar?, Option.any_some, shown, Bool.false_and]

theorem str_append (first second : String) : str (first ++ second) = str first ++ str second := by
  rw [str, str, str, Str.ofChars, Str.ofChars, Str.ofChars, String.toList_append, List.map_append]

theorem flattened_readable {root : Element} {flattened : Flattened}
    (returned : flattenDocument root = .ok flattened) :
    Readable flattened.text flattened.findings flattened.sections flattened.markedSpans := by
  obtain ⟨account, views⟩ := flattenDocument_views returned
  refine ⟨views.findings, fun span listed => ?_, fun span listed => ?_⟩
  · obtain ⟨first, name⟩ := views.places span listed
    obtain ⟨mark, closed, starts, stops⟩ := views.sections span listed
    have placed := views.kept.placed mark closed
    refine ⟨first, name, ?_, ?_⟩
    · rw [← starts, ← stops]
      exact placed.ordered
    · rw [← stops, ← views.text]
      exact placed.within
  · obtain ⟨kind, mark, closed, starts, stops⟩ := views.markedSpans span listed
    have placed := views.kept.placed mark closed
    refine ⟨kind, ?_, ?_⟩
    · rw [← starts, ← stops]
      exact placed.ordered
    · rw [← stops, ← views.text]
      exact placed.within

theorem readRoot_accepted {responseBytes : ℕ} {findings : List Finding} {root : Element}
    {record : JsonValue} (places : ∀ finding ∈ findings, finding.Places)
    (read : readRoot host responseBytes findings root = .ok record) :
    validateChurroDocumentParse host record = .ok () := by
  rw [readRoot] at read
  split_ifs at read with grammar
  · split at read
    · rename_i flattened flattens
      cases read
      have readable := flattened_readable flattens
      refine parsed_accepted host (by decide) ⟨fun finding listed => ?_, readable.sections,
        readable.markedSpans⟩ fun other => absurd rfl other
      rcases List.mem_append.mp listed with old | new
      · exact places finding old
      · exact readable.findings finding new
    · cases read
      exact unread_accepted host (by decide) (by decide) places (not_blank (by decide) rfl)
    · cases read
  · cases read
    refine unread_accepted host (by decide) (by decide) places ?_
    simp only [str_append]
    exact not_blank (by decide) rfl

theorem promptEcho_places (decoded body : Str) :
    ∀ finding ∈ promptEcho decoded body, finding.Places := by
  intro finding listed
  rw [promptEcho] at listed
  split_ifs at listed
  · obtain rfl := List.mem_singleton.mp listed
    exact trivial
  · cases listed

theorem readOffered_failed {body reason : Str} (offered : readOffered host body = .failed reason) :
    isBlank reason = false := by
  rw [readOffered] at offered
  split at offered
  · cases offered
  · split_ifs at offered with named_
    dsimp only at offered
    split_ifs at offered with clean
    · cases offered
      exact not_blank (by decide) rfl
    · split at offered
      · cases offered
      · cases offered
        exact not_blank (by decide) rfl

theorem readOffered_places {body : Str} {root : Element} {found : List Finding}
    (offered : readOffered host body = .root root found) : ∀ finding ∈ found, finding.Places := by
  rw [readOffered] at offered
  split at offered
  · cases offered
    simp
  · split_ifs at offered with named_
    dsimp only at offered
    split_ifs at offered with clean
    split at offered
    · cases offered
      intro finding listed
      obtain rfl := List.mem_singleton.mp listed
      exact trivial
    · cases offered

/-- The record of every answer is accepted at every seam. -/
theorem parse_accepted {raw : ByteArray} {systemPrompt : Option Str} {maxBytes : Option ℤ}
    {record : JsonValue}
    (read : parseChurroDocument host raw systemPrompt maxBytes = .ok record) :
    validateChurroDocumentParse host record = .ok () := by
  rw [parseChurroDocument] at read
  split_ifs at read with large
  · cases read
    refine unread_accepted host (by decide) (by decide) (by simp) ?_
    simp only [str_append]
    exact not_blank (by decide) rfl
  split at read
  · cases read
    exact unread_accepted host (by decide) (by decide) (by simp)
      (not_blank (by decide) rfl)
  · rename_i decoded decodes
    have echoes := promptEcho_places decoded (trimLeadingPrompt decoded systemPrompt)
    dsimp only at read
    split_ifs at read with doctype
    · cases read
      exact unread_accepted host (by decide) (by decide) echoes (by decide +kernel)
    · split at read
      · cases read
        exact parsed_accepted host (by decide) ⟨echoes, by simp, by simp⟩ fun _ => ⟨rfl, rfl, rfl⟩
      · rename_i reason offered
        cases read
        exact unread_accepted host (by decide) (by decide) echoes (readOffered_failed host offered)
      · rename_i root found offered
        refine readRoot_accepted host (fun finding listed => ?_) read
        rcases List.mem_append.mp listed with old | new
        · exact echoes finding old
        · exact readOffered_places host offered finding new

end Accepting

/-- A document's view: operations of the builder write its text, each of its spans is a mark they
    close, and its sections follow one another. -/
structure Viewed (flattened : Flattened) (account : Account) : Prop where
  reached : Account.start.Reaches account
  text : account.text = flattened.text
  markedSpans : ∀ span ∈ flattened.markedSpans, ∃ mark ∈ account.closed,
    mark.start = span.start ∧ mark.stop = span.stop
  sections : ∀ span ∈ flattened.sections, ∃ mark ∈ account.closed,
    mark.start = span.start ∧ mark.stop = span.stop
  ordered : flattened.sections.Pairwise fun earlier later => earlier.stop ≤ later.start

/-- The text view is exact after any operations, an added text may be cut anywhere, a document's
    view is such a view, and the record of every answer is accepted. -/
theorem textView_exact (host : ChurroHost) :
    (∀ operations account, Account.start.performAll operations = .ok account → account.Exact) ∧
      (∀ before after : List Operation, ∀ first second : Str,
        Account.start.performAll (before ++ .add (first ++ second) :: after) =
          Account.start.performAll (before ++ .add first :: .add second :: after)) ∧
      (∀ root flattened, flattenDocument root = .ok flattened →
        ∃ account, Viewed flattened account) ∧
      ∀ raw systemPrompt maxBytes record,
        parseChurroDocument host raw systemPrompt maxBytes = .ok record →
          validateChurroDocumentParse host record = .ok () := by
  refine ⟨fun operations account performed => ?_, fun before after first second => ?_,
    fun root flattened returned => ?_, fun raw systemPrompt maxBytes record read => ?_⟩
  · exact (Account.start_kept.performAll performed).exact
  · have once : ∀ account : Account, account.performAll (.add (first ++ second) :: after) =
        account.performAll (.add first :: .add second :: after) := by
      intro account
      change Account.performAll _ after = Account.performAll _ after
      rw [TextBuilder.add_append, List.filter_append, List.append_assoc]
    rw [Account.performAll, Account.performAll, List.foldlM_append, List.foldlM_append]
    exact bind_congr once
  · obtain ⟨account, views⟩ := flattenDocument_views returned
    exact ⟨account, views.reached, views.text, fun span listed => (views.markedSpans span listed).2,
      views.sections, views.ordered⟩
  · exact parse_accepted host read

/-- A host whose parser reads no answer. -/
def silentHost : ChurroHost := ⟨fun _ => .error [], id, fun _ => [], fun _ => ""⟩

def markedWord : List Operation := [.add (str "a "), .beginMark, .add (str " b"), .endMark 0]

/-- A mark begun before a space covers the word after it. -/
theorem textView_exact_markedWord : ∃ account, Account.start.performAll markedWord = .ok account ∧
    account.text = str "a b" ∧ account.closed = [⟨0, 1, 2, 2, 3⟩] ∧ account.Exact := by
  have performed : Account.start.performAll markedWord =
      .ok ⟨⟨str "a b", 0, false, [], 1⟩, str "ab", [], [⟨0, 1, 2, 2, 3⟩]⟩ := by
    decide +kernel
  exact ⟨_, performed, rfl, rfl, (textView_exact silentHost).1 markedWord _ performed⟩

end Verbatus.Churro
