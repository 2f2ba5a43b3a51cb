import Verbatus.Library.Sorting
import Verbatus.Python.CodePoint
import Verbatus.Python.Decimal

namespace Verbatus.Python

open CodePoint Library

/-- A JSON value over Python strings; a float is kept as it prints. -/
inductive JsonValue where
  | null
  | bool (value : Bool)
  | int (value : ℤ)
  | float (printed : Str)
  | str (text : Str)
  | list (items : List JsonValue)
  | object (fields : List (Str × JsonValue))

namespace JsonValue

/-- A value with the keys of every object in it in order. -/
def sorted : JsonValue → JsonValue
  | list items => list (sortedItems items)
  | object fields => object (sortBy Prod.fst (sortedFields fields))
  | value => value
where
  sortedItems : List JsonValue → List JsonValue
    | [] => []
    | item :: items => item.sorted :: sortedItems items
  sortedFields : List (Str × JsonValue) → List (Str × JsonValue)
    | [] => []
    | (key, item) :: fields => (key, item.sorted) :: sortedFields fields

/-- A value and every value inside it. -/
def parts : JsonValue → List JsonValue
  | list items => list items :: itemParts items
  | object fields => object fields :: fieldParts fields
  | value => [value]
where
  itemParts : List JsonValue → List JsonValue
    | [] => []
    | item :: items => item.parts ++ itemParts items
  fieldParts : List (Str × JsonValue) → List JsonValue
    | [] => []
    | (_, item) :: fields => item.parts ++ fieldParts fields

@[simp] theorem sortedItems_eq (items : List JsonValue) :
    sorted.sortedItems items = items.map sorted := by
  induction items with
  | nil => rfl
  | cons item items ih => rw [sorted.sortedItems, ih, List.map_cons]

@[simp] theorem sortedFields_eq (fields : List (Str × JsonValue)) :
    sorted.sortedFields fields = fields.map fun field => (field.1, field.2.sorted) := by
  induction fields with
  | nil => rfl
  | cons field fields ih => rw [sorted.sortedFields, ih, List.map_cons]

@[simp] theorem itemParts_eq (items : List JsonValue) :
    parts.itemParts items = items.flatMap parts := by
  induction items with
  | nil => rfl
  | cons item items ih => rw [parts.itemParts, ih, List.flatMap_cons]

@[simp] theorem fieldParts_eq (fields : List (Str × JsonValue)) :
    parts.fieldParts fields = fields.flatMap fun field => field.2.parts := by
  induction fields with
  | nil => rfl
  | cons field fields ih => rw [parts.fieldParts, ih, List.flatMap_cons]

/-- What every value has when its items and fields have it. -/
@[elab_as_elim]
theorem induct {motive : JsonValue → Prop} (null : motive null)
    (bool : ∀ value, motive (bool value)) (int : ∀ value, motive (int value))
    (float : ∀ printed, motive (float printed)) (str : ∀ text, motive (str text))
    (list : ∀ items, (∀ item ∈ items, motive item) → motive (list items))
    (object : ∀ fields, (∀ field ∈ fields, motive field.2) → motive (object fields))
    (value : JsonValue) : motive value :=
  @JsonValue.rec motive (fun items => ∀ item ∈ items, motive item)
    (fun fields => ∀ field ∈ fields, motive field.2) (fun field => motive field.2)
    null bool int float str list object (List.forall_mem_nil _)
    (fun _ _ first rest => List.forall_mem_cons.mpr ⟨first, rest⟩) (List.forall_mem_nil _)
    (fun _ _ first rest => List.forall_mem_cons.mpr ⟨first, rest⟩) (fun _ _ item => item) value

end JsonValue

section Writing

/-- A character inside a JSON string; `ensure_ascii` is off. -/
def escape (point : CodePoint) : Str :=
  if point = scalar '"' then ofCharsOf "\\\""
  else if point = scalar '\\' then ofCharsOf "\\\\"
  else if point = scalar '\n' then ofCharsOf "\\n"
  else if point = scalar '\r' then ofCharsOf "\\r"
  else if point = scalar '\t' then ofCharsOf "\\t"
  else if point.code = 0x0C then ofCharsOf "\\f"
  else if point.code = 0x08 then ofCharsOf "\\b"
  else if point.code < 0x20 then
    ofCharsOf "\\u00" ++ [scalar (Nat.digitChar (point.code / 16)),
      scalar (Nat.digitChar (point.code % 16))]
  else [point]
where
  ofCharsOf (text : String) : Str := Str.ofChars text.toList

def quoted (text : Str) : Str := scalar '"' :: text.flatMap escape ++ [scalar '"']

/-- Texts with commas between them. -/
def separated : List Str → Str
  | [] => []
  | first :: rest => first ++ rest.flatMap (scalar ',' :: ·)

def JsonValue.write : JsonValue → Str
  | null => Str.ofChars "null".toList
  | bool true => Str.ofChars "true".toList
  | bool false => Str.ofChars "false".toList
  | int value => Str.ofChars (decimal value)
  | float printed => printed
  | str text => quoted text
  | list items => scalar '[' :: separated (writeItems items) ++ [scalar ']']
  | object fields => scalar '{' :: separated (writeFields fields) ++ [scalar '}']
where
  writeItems : List JsonValue → List Str
    | [] => []
    | item :: items => item.write :: writeItems items
  writeFields : List (Str × JsonValue) → List Str
    | [] => []
    | (key, item) :: fields => (quoted key ++ scalar ':' :: item.write) :: writeFields fields

namespace JsonValue

@[simp] theorem writeItems_eq (items : List JsonValue) :
    write.writeItems items = items.map write := by
  induction items with
  | nil => rfl
  | cons item items ih => rw [write.writeItems, ih, List.map_cons]

@[simp] theorem writeFields_eq (fields : List (Str × JsonValue)) :
    write.writeFields fields =
      fields.map fun field => quoted field.1 ++ scalar ':' :: field.2.write := by
  induction fields with
  | nil => rfl
  | cons field fields ih => rw [write.writeFields, ih, List.map_cons]

end JsonValue

end Writing

section Reading

def isWhitespace (point : CodePoint) : Bool :=
  point = scalar ' ' || point = scalar '\t' || point = scalar '\n' || point = scalar '\r'

def skipSpace (text : Str) : Str := text.dropWhile isWhitespace

/-- What follows a word the text starts with. -/
def expect (word : String) (text : Str) : Option Str :=
  let word := Str.ofChars word.toList
  if word.isPrefixOf text then some (text.drop word.length) else none

/-- What follows a mark the text starts with. -/
def expectMark (mark : Char) (text : Str) : Option Str :=
  if text.head? = some (scalar mark) then some text.tail else none

/-- The value of a hexadecimal digit. -/
def hexValue (point : CodePoint) : Option ℕ :=
  let code := point.code
  if 48 ≤ code ∧ code ≤ 57 then some (code - 48)
  else if 97 ≤ code ∧ code ≤ 102 then some (code - 87)
  else if 65 ≤ code ∧ code ≤ 70 then some (code - 55)
  else none

/-- The code unit of four hexadecimal digits. -/
def hexUnit : Str → Option (ℕ × Str)
  | a :: b :: c :: d :: rest => do
      let first ← hexValue a
      let second ← hexValue b
      let third ← hexValue c
      let fourth ← hexValue d
      some (((first * 16 + second) * 16 + third) * 16 + fourth, rest)
  | _ => none

/-- After `\\u`: a high surrogate is joined with a low one that is escaped right after it. -/
def readUnit (text : Str) : Option (CodePoint × Str) := do
  let (unit, rest) ← hexUnit text
  let next := if 0xD800 ≤ unit ∧ unit ≤ 0xDBFF then expect "\\u" rest else none
  match next with
  | none => some (ofCode unit, rest)
  | some more =>
    let (low, after) ← hexUnit more
    if 0xDC00 ≤ low ∧ low ≤ 0xDFFF then
      some (ofCode (0x10000 + (unit - 0xD800) * 0x400 + (low - 0xDC00)), after)
    else some (ofCode unit, rest)

/-- The character a one-character escape stands for. -/
def unescape (mark : CodePoint) : Option CodePoint :=
  [(scalar '"', scalar '"'), (scalar '\\', scalar '\\'), (scalar '/', scalar '/'),
    (scalar 'b', ofCode 0x08), (scalar 'f', ofCode 0x0C), (scalar 'n', scalar '\n'),
    (scalar 'r', scalar '\r'), (scalar 't', scalar '\t')].lookup mark

/-- One character inside a string; a control character must be escaped. -/
def readPoint (first : CodePoint) (rest : Str) : Option (CodePoint × Str) :=
  if first = scalar '\\' then
    match rest with
    | [] => none
    | mark :: rest =>
      if mark = scalar 'u' then readUnit rest else (unescape mark).map fun point => (point, rest)
  else if first.code < 0x20 then none
  else some (first, rest)

/-- A string after its opening quote. The fuel counts characters, of which each turn reads one. -/
def readString : ℕ → Str → Option (Str × Str)
  | 0, _ => none
  | _ + 1, [] => none
  | fuel + 1, first :: rest =>
    if first = scalar '"' then some ([], rest)
    else do
      let (point, rest) ← readPoint first rest
      let (text, rest) ← readString fuel rest
      some (point :: text, rest)

def isDigit (point : CodePoint) : Bool := point.scalar?.any Char.isDigit

def digits (text : Str) : Str × Str := text.span isDigit

/-- The whole part of a number: one zero, or digits that do not start with one. -/
def wholePart (text : Str) : Option (Str × Str) :=
  if text.head? = some (scalar '0') then some ([scalar '0'], text.tail)
  else if (digits text).1.isEmpty then none else some (digits text)

/-- A point and digits, where there are digits. -/
def fractionPart (text : Str) : Str × Str :=
  if text.head? = some (scalar '.') ∧ ¬ (digits text.tail).1.isEmpty then
    (scalar '.' :: (digits text.tail).1, (digits text.tail).2)
  else ([], text)

/-- A mark, a sign where there is one, and digits, where there are digits. -/
def exponentPart (text : Str) : Str × Str :=
  let signed := text.tail
  let sign := signed.take (if signed.head? = some (scalar '+') ∨ signed.head? = some (scalar '-')
    then 1 else 0)
  let unsigned := signed.drop sign.length
  if (text.head? = some (scalar 'e') ∨ text.head? = some (scalar 'E')) ∧
      ¬ (digits unsigned).1.isEmpty then
    (text.take 1 ++ sign ++ (digits unsigned).1, (digits unsigned).2)
  else ([], text)

/-- The number of a run of digits. -/
def magnitude (text : Str) : ℕ := Nat.ofDigitChars 10 (text.filterMap scalar?) 0

/-- A number after its sign; `limit` is the host's bound on the digits of an integer. -/
def readUnsigned (limit : ℕ) (negative : Bool) (text : Str) : Option (JsonValue × Str) := do
  let (whole, rest) ← wholePart text
  let (fraction, rest) := fractionPart rest
  let (exponent, rest) := exponentPart rest
  if fraction.isEmpty ∧ exponent.isEmpty then
    if whole.length ≤ limit then
      some (.int (if negative then -magnitude whole else magnitude whole), rest)
    else none
  else
    some (.float ((if negative then [scalar '-'] else []) ++ whole ++ fraction ++ exponent), rest)

def readNumber (limit : ℕ) (text : Str) : Option (JsonValue × Str) :=
  if text.head? = some (scalar '-') then readUnsigned limit true text.tail
  else readUnsigned limit false text

/-- A value that is one word. -/
def readWord (text : Str) : Option (JsonValue × Str) :=
  ((expect "null" text).map fun rest => (JsonValue.null, rest)) <|>
  ((expect "true" text).map fun rest => (JsonValue.bool true, rest)) <|>
  ((expect "false" text).map fun rest => (JsonValue.bool false, rest)) <|>
  ((expect "NaN" text).map fun rest => (JsonValue.float (Str.ofChars "nan".toList), rest)) <|>
  ((expect "Infinity" text).map fun rest => (JsonValue.float (Str.ofChars "inf".toList), rest)) <|>
  ((expect "-Infinity" text).map fun rest => (JsonValue.float (Str.ofChars "-inf".toList), rest))

mutual

/-- One JSON value at the start of a text. Each item and each bracket takes a turn, so fuel for
the length of the text is enough. -/
def readValue (limit : ℕ) : ℕ → Str → Option (JsonValue × Str)
  | 0, _ => none
  | _ + 1, [] => none
  | fuel + 1, first :: rest =>
    if first = scalar '"' then
      (readString (rest.length + 1) rest).map fun (text, rest) => (.str text, rest)
    else if first = scalar '[' then
      match expectMark ']' (skipSpace rest) with
      | some rest => some (.list [], rest)
      | none => (readItems limit fuel (skipSpace rest)).map fun (items, rest) => (.list items, rest)
    else if first = scalar '{' then
      match expectMark '}' (skipSpace rest) with
      | some rest => some (.object [], rest)
      | none =>
        (readFields limit fuel (skipSpace rest)).map fun (fields, rest) =>
          (.object (dictOf fields), rest)
    else readWord (first :: rest) <|> readNumber limit (first :: rest)

/-- The values of a list up to its closing bracket. -/
def readItems (limit : ℕ) : ℕ → Str → Option (List JsonValue × Str)
  | 0, _ => none
  | fuel + 1, text => do
      let (item, rest) ← readValue limit fuel text
      match expectMark ']' (skipSpace rest) with
      | some rest => some ([item], rest)
      | none =>
        let rest ← expectMark ',' (skipSpace rest)
        let (items, rest) ← readItems limit fuel (skipSpace rest)
        some (item :: items, rest)

/-- The keys and values of an object up to its closing brace. -/
def readFields (limit : ℕ) : ℕ → Str → Option (List (Str × JsonValue) × Str)
  | 0, _ => none
  | fuel + 1, text => do
      let rest ← expectMark '"' text
      let (key, rest) ← readString (rest.length + 1) rest
      let rest ← expectMark ':' (skipSpace rest)
      let (item, rest) ← readValue limit fuel (skipSpace rest)
      match expectMark '}' (skipSpace rest) with
      | some rest => some ([(key, item)], rest)
      | none =>
        let rest ← expectMark ',' (skipSpace rest)
        let (fields, rest) ← readFields limit fuel (skipSpace rest)
        some ((key, item) :: fields, rest)

end

/-- `json.loads`: one value, with nothing but white space around it. -/
def loads (limit : ℕ) (text : Str) : Option JsonValue :=
  if text.head? = some (ofCode 0xFEFF) then none
  else do
    let (value, rest) ← readValue limit (text.length + 1) (skipSpace text)
    if (skipSpace rest).isEmpty then some value else none

/-- `json.loads` of what a file holds. -/
def loadsBytes (limit : ℕ) (data : ByteArray) : Option JsonValue :=
  (Str.decode data).bind (loads limit)

end Reading

end Verbatus.Python
