import Verbatus.PageReading.BareKeys

namespace Verbatus.PageReading

open Library Python Python.CodePoint Python.JsonGrammar

/-- The text of a string, without the surrogates it has no character for. -/
def plainString (text : Str) : String := String.ofList (text.filterMap scalar?)

/-- A value the decoder found no lone surrogate in, with its texts as the grammar reads them. -/
def plainValue : JsonValue → Json
  | .null => .null
  | .bool value => .bool value
  | .int value => .int value
  | .float printed => .float (plainString printed)
  | .str text => .str (plainString text)
  | .list items => .list (plainItems items)
  | .object fields => .object (plainFields fields)
where
  plainItems : List JsonValue → List Json
    | [] => []
    | item :: items => plainValue item :: plainItems items
  plainFields : List (Str × JsonValue) → List (String × Json)
    | [] => []
    | (key, item) :: fields => (plainString key, plainValue item) :: plainFields fields

/-- A reply's parse state, with the answer where it is parsed and the problems where it is not. -/
inductive Graded where
  | parsed (answer : JsonValue)
  | malformed (problems : List GrammarProblem)

/-- A decoded value is graded by the page answer grammar. -/
def graded : Decoded → Graded
  | .error problems => .malformed problems
  | .ok value =>
    let problems := grammarProblems (plainValue value)
    if problems = [] then .parsed value else .malformed problems

/-- One page reading's reply, unrepaired. -/
def parsePageAnswer (decoder : Decoder) (reply : Reply) : Graded :=
  graded (decodeJsonReply decoder reply)

/-- One repair, as the reading records it beside the answer. -/
structure Repair where
  code : String
  keys : ℕ
  detail : String

def unquotedKeysQuoted (keys : List Str) : Repair where
  code := "unquoted-keys-quoted"
  keys := keys.length
  detail := s!"{keys.length} bare grammar key(s) quoted before parsing " ++
    "(" ++ ", ".intercalate (sortedSet (keys.map plainString)) ++
    "); the reply's bytes are kept as sent"

/-- The codes of the problems that leave no value, and none where there is one. -/
def problemCodes : Decoded → List String
  | .error problems => problems.map GrammarProblem.code
  | .ok _ => []

/-- One page reading's reply, with the one repair where it is no JSON without it. -/
def parsePageAnswerRepaired (decoder : Decoder) (reply : Reply) : Graded × List Repair :=
  let decoded := decodeJsonReply decoder reply
  let unrepaired := (graded decoded, [])
  match reply with
  | .other => unrepaired
  | .text rawText =>
    if problemCodes decoded = ["not-json"] then
      let (repaired, keys) := quoteBareKeys rawText
      if keys = [] then unrepaired
      else
        match decode decoder repaired with
        | .error _ => unrepaired
        | .ok value => (graded (.ok value), [unquotedKeysQuoted keys])
    else unrepaired

section Repaired

variable {decoder : Decoder} {reply : Reply}

/-- A reply is read as it came, or as it reads with its bare keys quoted. -/
theorem parsePageAnswerRepaired_cases (decoder : Decoder) (reply : Reply) :
    parsePageAnswerRepaired decoder reply = (parsePageAnswer decoder reply, []) ∨
      ∃ rawText value, reply = .text rawText ∧
        problemCodes (decodeJsonReply decoder reply) = ["not-json"] ∧
        (quoteBareKeys rawText).2 ≠ [] ∧ decode decoder (quoteBareKeys rawText).1 = .ok value ∧
        parsePageAnswerRepaired decoder reply =
          (graded (.ok value), [unquotedKeysQuoted (quoteBareKeys rawText).2]) := by
  cases reply with
  | other => exact .inl rfl
  | text rawText =>
      by_cases notJson : problemCodes (decodeJsonReply decoder (.text rawText)) = ["not-json"]
      · by_cases keys : (quoteBareKeys rawText).2 = []
        · left
          simp only [parsePageAnswerRepaired, if_pos notJson, if_pos keys]
          rfl
        · cases decoded : decode decoder (quoteBareKeys rawText).1 with
          | error problems =>
              left
              simp only [parsePageAnswerRepaired, if_pos notJson, if_neg keys, decoded]
              rfl
          | ok value =>
              right
              refine ⟨rawText, value, rfl, notJson, keys, decoded, ?_⟩
              simp only [parsePageAnswerRepaired, if_pos notJson, if_neg keys, decoded]
      · left
        simp only [parsePageAnswerRepaired, if_neg notJson]
        rfl

end Repaired

/-- The one answer repair quotes bare grammar keys and nothing else: the pieces it leaves or
quotes, no key twice, no text that is a value already, and no reply but one that is no JSON as it
came and one sound value once its keys are quoted. -/
theorem bareKeys_only_repair (decoder : Decoder) :
    (∀ text, ∃ pieces : List Piece, pieces.flatMap Piece.source = text ∧
      pieces.flatMap Piece.written = (quoteBareKeys text).1 ∧
      pieces.filterMap Piece.key? = (quoteBareKeys text).2 ∧
      ∀ before word after, pieces = before ++ .key word :: after →
        Bare (before.flatMap Piece.source) word (after.flatMap Piece.source)) ∧
    (∀ text, quoteBareKeys (quoteBareKeys text).1 = ((quoteBareKeys text).1, [])) ∧
    (∀ text value, IsValue value text → quoteBareKeys text = (text, [])) ∧
    (∀ text value, decode decoder text = .ok value → quoteBareKeys text = (text, [])) ∧
    ∀ reply,
      (problemCodes (decodeJsonReply decoder reply) ≠ ["not-json"] →
        parsePageAnswerRepaired decoder reply = (parsePageAnswer decoder reply, [])) ∧
      ((parsePageAnswerRepaired decoder reply).2 = [] →
        (parsePageAnswerRepaired decoder reply).1 = parsePageAnswer decoder reply) ∧
      ((parsePageAnswerRepaired decoder reply).2 ≠ [] → ∃ rawText value,
        reply = .text rawText ∧ Sound value (quoteBareKeys rawText).1 ∧
          parsePageAnswerRepaired decoder reply =
            (graded (.ok value), [unquotedKeysQuoted (quoteBareKeys rawText).2])) := by
  refine ⟨quoteBareKeys_pieces, fun text => quoteFrom_unquoted _ text,
    fun _ _ isValue => quoteBareKeys_of_isValue isValue,
    fun _ _ decoded => quoteBareKeys_of_isValue (decode_sound decoded).isValue, fun reply => ?_⟩
  rcases parsePageAnswerRepaired_cases decoder reply with same |
    ⟨rawText, value, isText, notJson, keys, decoded, same⟩
  · rw [same]
    exact ⟨fun _ => rfl, fun _ => rfl, fun some => absurd rfl some⟩
  · refine ⟨fun other => absurd notJson other, fun none => ?_, fun _ => ?_⟩
    · rw [same] at none
      cases none
    · exact ⟨rawText, value, isText, decode_sound decoded, same⟩

end Verbatus.PageReading
