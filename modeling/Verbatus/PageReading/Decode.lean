import Verbatus.PageReading.Grammar
import Verbatus.Python.JsonGrammar
import Verbatus.Python.JsonRoundTrip
import Verbatus.Python.StrText

namespace Verbatus.PageReading

open Library Python Python.CodePoint

/-- Whether a scanner stands outside every string, or inside one and past a backslash or not. -/
inductive Lexical where
  | outside
  | inside (escaped : Bool)
  deriving DecidableEq

def Lexical.step : Lexical → CodePoint → Lexical
  | inside true, _ => inside false
  | inside false, point =>
    if point = scalar '\\' then inside true
    else if point = scalar '"' then outside else inside false
  | outside, point => if point = scalar '"' then inside false else outside

def maxNestingDepth : ℤ := 64

/-- What the count of open brackets has come to. -/
structure Nesting where
  depth : ℤ
  deepest : ℤ
  lexical : Lexical

def Nesting.step (nesting : Nesting) (point : CodePoint) : Nesting :=
  let lexical := nesting.lexical.step point
  if nesting.lexical = .outside ∧ (point = scalar '[' ∨ point = scalar '\x7b') then
    ⟨nesting.depth + 1, max nesting.deepest (nesting.depth + 1), lexical⟩
  else if nesting.lexical = .outside ∧ (point = scalar ']' ∨ point = scalar '\x7d') then
    ⟨nesting.depth - 1, nesting.deepest, lexical⟩
  else ⟨nesting.depth, nesting.deepest, lexical⟩

/-- The deepest nesting in a text, not counting brackets inside strings. -/
def nestingDepth (text : Str) : ℤ := (text.foldl Nesting.step ⟨0, 0, .outside⟩).deepest

/-- What ends the reading of a value. -/
inductive ReadError where
  | duplicateKeys (keys : List Str)
  | notJson

/-- What the host's decoder brings: its bound on the digits of an integer, the text of its
`ValueError`, and how a string is shown. -/
structure Decoder where
  digitLimit : ℕ
  errorText : Str → String
  repr : Str → String

section Reading

def orNotJson {α : Type} (read : Option α) : Except ReadError α :=
  match read with
  | none => .error .notJson
  | some found => .ok found

/-- The hook every object goes through when its brace is reached. -/
def refuseDuplicates (pairs : List (Str × JsonValue)) : Except ReadError JsonValue :=
  let keys := pairs.map Prod.fst
  let duplicated := sortedSet (keys.filter fun key => 1 < keys.count key)
  if duplicated = [] then .ok (.object pairs) else .error (.duplicateKeys duplicated)

/-- A value that is no string, list or object; each constant that is no number is refused. -/
def decodeScalar (limit : ℕ) (text : Str) : Except ReadError (JsonValue × Str) :=
  if ["NaN", "Infinity", "-Infinity"].any fun word => (expect word text).isSome then
    .error .notJson
  else orNotJson (readWord text <|> readNumber limit text)

mutual

/-- One JSON value at the start of a text. A bracket takes two turns, so fuel for twice the length
of the text is enough. -/
def decodeValue (limit : ℕ) : ℕ → Str → Except ReadError (JsonValue × Str)
  | 0, _ => .error .notJson
  | _ + 1, [] => .error .notJson
  | fuel + 1, first :: rest =>
    if first = scalar '"' then do
      let (text, rest) ← orNotJson (readString (rest.length + 1) rest)
      return (.str text, rest)
    else if first = scalar '[' then
      match expectMark ']' (skipSpace rest) with
      | some rest => .ok (.list [], rest)
      | none => do
        let (items, rest) ← decodeItems limit fuel (skipSpace rest)
        return (.list items, rest)
    else if first = scalar '\x7b' then
      match expectMark '\x7d' (skipSpace rest) with
      | some rest => do
        let value ← refuseDuplicates []
        return (value, rest)
      | none => do
        let (fields, rest) ← decodeFields limit fuel (skipSpace rest)
        let value ← refuseDuplicates fields
        return (value, rest)
    else decodeScalar limit (first :: rest)

/-- The values of a list up to its closing bracket. -/
def decodeItems (limit : ℕ) : ℕ → Str → Except ReadError (List JsonValue × Str)
  | 0, _ => .error .notJson
  | fuel + 1, text => do
      let (item, rest) ← decodeValue limit fuel text
      match expectMark ']' (skipSpace rest) with
      | some rest => return ([item], rest)
      | none =>
        let rest ← orNotJson (expectMark ',' (skipSpace rest))
        let (items, rest) ← decodeItems limit fuel (skipSpace rest)
        return (item :: items, rest)

/-- The keys and values of an object up to its closing brace. -/
def decodeFields (limit : ℕ) : ℕ → Str → Except ReadError (List (Str × JsonValue) × Str)
  | 0, _ => .error .notJson
  | fuel + 1, text => do
      let rest ← orNotJson (expectMark '"' text)
      let (key, rest) ← orNotJson (readString (rest.length + 1) rest)
      let rest ← orNotJson (expectMark ':' (skipSpace rest))
      let (item, rest) ← decodeValue limit fuel (skipSpace rest)
      match expectMark '\x7d' (skipSpace rest) with
      | some rest => return ([(key, item)], rest)
      | none =>
        let rest ← orNotJson (expectMark ',' (skipSpace rest))
        let (fields, rest) ← decodeFields limit fuel (skipSpace rest)
        return ((key, item) :: fields, rest)

end

end Reading

/-- A key as a problem's detail names it. -/
def shownKey (decoder : Decoder) (key : Str) : String :=
  let quoted := decoder.repr (key.take Json.quotedMaxCharacters)
  if key.length ≤ Json.quotedMaxCharacters then quoted else quoted ++ "..."

/-- Where the first key or string holding a lone surrogate sits, in the order of the text. -/
def loneSurrogate (decoder : Decoder) (label : String) : JsonValue → Option String
  | .str text => if text.Encodable then none else some label
  | .object fields =>
    if ∀ field ∈ fields, field.1.Encodable then inFields label fields
    else some ("a key of " ++ label)
  | .list items => inItems label 0 items
  | _ => none
where
  inItems (label : String) (index : ℕ) : List JsonValue → Option String
    | [] => none
    | item :: items =>
      loneSurrogate decoder s!"{label}[{index}]" item <|> inItems label (index + 1) items
  inFields (label : String) : List (Str × JsonValue) → Option String
    | [] => none
    | (key, item) :: fields =>
      loneSurrogate decoder (label ++ "[" ++ shownKey decoder key ++ "]") item <|>
        inFields label fields

/-- A text without the JSON white space at either end. -/
def stripSpace (body : Str) : Str :=
  (((body.dropWhile isWhitespace).reverse).dropWhile isWhitespace).reverse

/-- A value, or the problems that leave none. -/
abbrev Decoded := Except (List GrammarProblem) JsonValue

/-- Exactly one JSON value spanning a text, surrounding white space aside, or problems. -/
def decode (decoder : Decoder) (body : Str) : Decoded :=
  let stripped := stripSpace body
  let depth := nestingDepth stripped
  if depth > maxNestingDepth then
    .error [⟨"too-deep", s!"nested {depth} deep, past the {maxNestingDepth} admitted"⟩]
  else
    match decodeValue decoder.digitLimit (2 * stripped.length + 2) stripped with
    | .error (.duplicateKeys keys) =>
      .error [⟨"duplicate-key",
        "duplicate key(s) [" ++ ", ".intercalate (keys.map decoder.repr) ++ "]"⟩]
    | .error .notJson => .error [⟨"not-json", decoder.errorText stripped⟩]
    | .ok (value, rest) =>
      if rest ≠ [] then
        .error [⟨"content-outside-object", s!"{rest.length} characters follow the value"⟩]
      else
        match loneSurrogate decoder "the answer" value with
        | some label => .error [⟨"lone-surrogate", label ++ " holds a lone surrogate"⟩]
        | none => .ok value

def fenceMark : Str := Str.ofString "```"

/-- Whether a reply is wrapped in a Markdown code fence. -/
def isFenced (text : Str) : Bool :=
  let stripped := text.strip
  2 * fenceMark.length ≤ stripped.length && fenceMark.isPrefixOf stripped &&
    fenceMark.isSuffixOf stripped

/-- What a reader is handed: text, or something else. -/
inductive Reply where
  | text (raw : Str)
  | other

/-- The value of a reply that must be one bare JSON value, never repaired. -/
def decodeJsonReply (decoder : Decoder) : Reply → Decoded
  | .other => .error [⟨"not-text", "the reply is not text"⟩]
  | .text raw =>
    if isFenced raw then
      .error [⟨"fenced-answer", "the reply wraps its object in a Markdown code fence"⟩]
    else decode decoder raw

end Verbatus.PageReading
