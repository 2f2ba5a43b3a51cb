import Verbatus.Python.JsonText

namespace Verbatus.Python

open CodePoint Library

section Strings

theorem hexUnit_control (code : ℕ) (control : code < 0x20) (rest : Str) :
    hexUnit (scalar '0' :: scalar '0' :: scalar (Nat.digitChar (code / 16)) ::
      scalar (Nat.digitChar (code % 16)) :: rest) = some (code, rest) := by
  interval_cases code <;> rfl

theorem readUnit_control {point : CodePoint} (control : point.code < 0x20) (rest : Str) :
    readUnit (scalar '0' :: scalar '0' :: scalar (Nat.digitChar (point.code / 16)) ::
      scalar (Nat.digitChar (point.code % 16)) :: rest) = some (point, rest) := by
  cases point with
  | surrogate offset =>
      simp only [code] at control
      omega
  | scalar character =>
      have low : ¬ (0xD800 ≤ (scalar character).code ∧ (scalar character).code ≤ 0xDBFF) := by omega
      rw [readUnit, hexUnit_control _ control]
      simp only [Option.bind_eq_bind, Option.bind_some, if_neg low]
      rw [code, ofCode_toNat]

theorem eq_of_code {point : CodePoint} {number : ℕ} (same : point.code = number)
    (known : (ofCode number).code = number) : point = ofCode number :=
  code_injective (same.trans known.symm)

/-- One escaped character is read back. -/
theorem readPoint_escape (point : CodePoint) (rest : Str) :
    ∃ first more, escape point ++ rest = first :: more ∧ first ≠ scalar '"' ∧
      readPoint first more = some (point, rest) := by
  unfold escape
  split
  · next quote => exact ⟨_, _, rfl, by decide, by rw [quote]; rfl⟩
  split
  · next slash => exact ⟨_, _, rfl, by decide, by rw [slash]; rfl⟩
  split
  · next newline => exact ⟨_, _, rfl, by decide, by rw [newline]; rfl⟩
  split
  · next carriage => exact ⟨_, _, rfl, by decide, by rw [carriage]; rfl⟩
  split
  · next tab => exact ⟨_, _, rfl, by decide, by rw [tab]; rfl⟩
  split
  · next feed => exact ⟨_, _, rfl, by decide, by rw [eq_of_code feed (by decide)]; rfl⟩
  split
  · next back => exact ⟨_, _, rfl, by decide, by rw [eq_of_code back (by decide)]; rfl⟩
  split
  · next control => exact ⟨_, _, rfl, by decide, readUnit_control control rest⟩
  · next quote slash _ _ _ _ _ printable =>
      exact ⟨point, rest, rfl, quote, by unfold readPoint; rw [if_neg slash, if_neg printable]⟩

theorem readString_escaped (text rest : Str) {fuel : ℕ} (enough : text.length < fuel) :
    readString fuel (text.flatMap escape ++ scalar '"' :: rest) = some (text, rest) := by
  induction text generalizing fuel with
  | nil =>
      cases fuel with
      | zero => cases enough
      | succ fuel => simp [readString]
  | cons point text ih =>
      cases fuel with
      | zero => cases enough
      | succ fuel =>
          obtain ⟨first, more, same, other, read⟩ :=
            readPoint_escape point (text.flatMap escape ++ scalar '"' :: rest)
          rw [List.flatMap_cons, List.append_assoc, same, readString, if_neg other, read]
          have shorter : text.length < fuel := by simpa using enough
          have later := ih shorter
          simp only [Option.bind_eq_bind, Option.bind_some, later]

theorem length_le_escaped (text : Str) : text.length ≤ (text.flatMap escape).length := by
  induction text with
  | nil => exact le_rfl
  | cons point text ih =>
      have one : 1 ≤ (escape point).length := by
        obtain ⟨first, more, same, -⟩ := readPoint_escape point []
        rw [List.append_nil] at same
        simp [same]
      rw [List.flatMap_cons, List.length_append, List.length_cons]
      omega

/-- A string is read back after its opening quote. -/
theorem readString_quoted (text rest : Str) :
    quoted text ++ rest = scalar '"' :: (text.flatMap escape ++ scalar '"' :: rest) ∧
      readString ((text.flatMap escape ++ scalar '"' :: rest).length + 1)
        (text.flatMap escape ++ scalar '"' :: rest) = some (text, rest) := by
  refine ⟨by simp [quoted], readString_escaped text rest ?_⟩
  have long := length_le_escaped text
  rw [List.length_append]
  omega

end Strings

section Numbers

/-- A text a number cannot go on into. -/
def Stops (text : Str) : Prop :=
  ∀ point ∈ text.head?, isDigit point = false ∧ point ≠ scalar '.' ∧ point ≠ scalar 'e' ∧
    point ≠ scalar 'E'

theorem stops_nil : Stops [] := by simp [Stops]

theorem digits_append {characters : List Char} (all : ∀ character ∈ characters, character.isDigit)
    {rest : Str} (stops : Stops rest) :
    digits (Str.ofChars characters ++ rest) = (Str.ofChars characters, rest) := by
  rw [digits, List.span_eq_takeWhile_dropWhile]
  have inside : ∀ point ∈ Str.ofChars characters, isDigit point = true := by
    intro point member
    obtain ⟨character, given, rfl⟩ := List.mem_map.mp member
    exact all character given
  have ends : rest.takeWhile isDigit = [] ∧ rest.dropWhile isDigit = rest := by
    cases rest with
    | nil => exact ⟨rfl, rfl⟩
    | cons point rest =>
        have stop := (stops point rfl).1
        simp [stop]
  rw [List.takeWhile_append_of_pos inside, List.dropWhile_append_of_pos inside, ends.1, ends.2,
    List.append_nil]

/-- Only zero is written with a leading zero. -/
theorem head_digits {value : ℕ} (positive : 0 < value) :
    (Nat.toDigits 10 value).head? ≠ some '0' := by
  induction value using Nat.strong_induction_on with
  | _ value ih =>
      rcases Nat.lt_or_ge value 10 with small | large
      · rw [Nat.toDigits_of_lt_base small]
        interval_cases value <;> decide
      · rw [Nat.toDigits_of_base_le (by decide) large]
        have fewer := ih (value / 10) (by omega) (by omega)
        cases tens : Nat.toDigits 10 (value / 10) with
        | nil => exact absurd tens Nat.toDigits_ne_nil
        | cons first others =>
            rw [tens] at fewer
            simpa using fewer

theorem magnitude_ofChars (value : ℕ) : magnitude (Str.ofChars (Nat.toDigits 10 value)) = value := by
  have characters : (Str.ofChars (Nat.toDigits 10 value)).filterMap scalar? =
      Nat.toDigits 10 value := by
    rw [Str.ofChars, List.filterMap_map]
    exact List.filterMap_some
  rw [magnitude, characters, Nat.ofDigitChars_ten_toDigits]

theorem wholePart_digits (value : ℕ) {rest : Str} (stops : Stops rest) :
    wholePart (Str.ofChars (Nat.toDigits 10 value) ++ rest) =
      some (Str.ofChars (Nat.toDigits 10 value), rest) := by
  have all : ∀ character ∈ Nat.toDigits 10 value, character.isDigit :=
    fun _ => isDigit_of_mem_digits
  rcases Nat.eq_zero_or_pos value with rfl | positive
  · rfl
  · have head : (Str.ofChars (Nat.toDigits 10 value) ++ rest).head? ≠ some (scalar '0') := by
      cases written : Nat.toDigits 10 value with
      | nil => exact absurd written Nat.toDigits_ne_nil
      | cons first others =>
          have other := head_digits positive
          rw [written] at other
          simpa [Str.ofChars] using other
    have some : (Str.ofChars (Nat.toDigits 10 value)).isEmpty = false := by
      simp [Str.ofChars, Nat.toDigits_ne_nil]
    rw [wholePart, if_neg head, digits_append all stops]
    simp [some]

theorem fractionPart_stops {rest : Str} (stops : Stops rest) : fractionPart rest = ([], rest) := by
  rw [fractionPart, if_neg]
  rintro ⟨point, -⟩
  exact (stops _ point).2.1 rfl

theorem exponentPart_stops {rest : Str} (stops : Stops rest) : exponentPart rest = ([], rest) := by
  rw [exponentPart, if_neg]
  rintro ⟨mark | mark, -⟩
  · exact (stops _ mark).2.2.1 rfl
  · exact (stops _ mark).2.2.2 rfl

theorem readUnsigned_digits {limit value : ℕ} (short : (Nat.toDigits 10 value).length ≤ limit)
    (negative : Bool) {rest : Str} (stops : Stops rest) :
    readUnsigned limit negative (Str.ofChars (Nat.toDigits 10 value) ++ rest) =
      some (.int (if negative then -(value : ℤ) else value), rest) := by
  have fits : (Str.ofChars (Nat.toDigits 10 value)).length ≤ limit := by
    rw [Str.ofChars, List.length_map]
    exact short
  simp only [readUnsigned, wholePart_digits value stops, Option.bind_eq_bind, Option.bind_some,
    fractionPart_stops stops, exponentPart_stops stops, magnitude_ofChars, List.isEmpty_nil,
    and_self, if_true, if_pos fits]

/-- An integer within the host's limit is read back. -/
theorem readNumber_decimal {limit : ℕ} {value : ℤ}
    (short : (Nat.toDigits 10 value.natAbs).length ≤ limit) {rest : Str} (stops : Stops rest) :
    readNumber limit (Str.ofChars (decimal value) ++ rest) = some (.int value, rest) := by
  cases value with
  | ofNat value =>
      have positive : (Str.ofChars (Nat.toDigits 10 value) ++ rest).head? ≠ some (scalar '-') := by
        cases written : Nat.toDigits 10 value with
        | nil => exact absurd written Nat.toDigits_ne_nil
        | cons first others =>
            have digit : first.isDigit := isDigit_of_mem_digits (written ▸ List.mem_cons_self)
            simp only [Str.ofChars, List.map_cons, List.cons_append, List.head?_cons, ne_eq,
              Option.some.injEq, scalar.injEq]
            rintro rfl
            cases digit
      rw [decimal, readNumber, if_neg positive]
      exact readUnsigned_digits short false stops
  | negSucc value =>
      rw [readNumber, if_pos (by rfl)]
      exact readUnsigned_digits short true stops

end Numbers

section Values

theorem expect_eq_none (word : String) {head : Char} {tail : List Char}
    (letters : word.toList = head :: tail) {first : CodePoint} (other : first ≠ scalar head)
    (rest : Str) : expect word (first :: rest) = none := by
  have different : (scalar head == first) = false := by simpa using Ne.symm other
  simp [expect, letters, Str.ofChars, List.isPrefixOf, different]

theorem expect_append (word : String) (rest : Str) :
    expect word (Str.ofChars word.toList ++ rest) = some rest := by
  simp [expect]

@[simp] theorem expectMark_cons (mark : Char) (rest : Str) :
    expectMark mark (scalar mark :: rest) = some rest := by
  simp [expectMark]

theorem expectMark_eq_none {mark : Char} {first : CodePoint} (other : first ≠ scalar mark)
    (rest : Str) : expectMark mark (first :: rest) = none := by
  simp [expectMark, other]

theorem skipSpace_cons {first : CodePoint} (solid : isWhitespace first = false) (rest : Str) :
    skipSpace (first :: rest) = first :: rest := by
  simp [skipSpace, solid]

/-- A character that starts a value: no white space, no end of a list and no byte order mark. -/
def Opens (first : CodePoint) : Prop :=
  isWhitespace first = false ∧ first ≠ scalar ']' ∧ first ≠ ofCode 0xFEFF

theorem opens_of_isDigit {first : CodePoint} (digit : isDigit first = true) : Opens first := by
  refine ⟨?_, ?_, ?_⟩
  · by_contra space
    simp only [isWhitespace, Bool.or_eq_true, decide_eq_true_eq, Bool.not_eq_false] at space
    rcases space with ((rfl | rfl) | rfl) | rfl <;> exact absurd digit (by decide)
  · rintro rfl
    exact absurd digit (by decide)
  · rintro rfl
    exact absurd digit (by decide)

theorem readWord_of_isDigit {first : CodePoint} (digit : isDigit first = true) (rest : Str) :
    readWord (first :: rest) = none := by
  have other (letter : Char) (bad : isDigit (scalar letter) = false) : first ≠ scalar letter := by
    rintro rfl
    rw [bad] at digit
    cases digit
  have missing (letter : Char) (tail : List Char) (word : String) (letters : word.toList = letter :: tail)
      (bad : isDigit (scalar letter) = false) : expect word (first :: rest) = none :=
    expect_eq_none word letters (other letter bad) rest
  rw [readWord, missing 'n' _ "null" rfl rfl, missing 't' _ "true" rfl rfl, missing 'f' _ "false" rfl rfl,
    missing 'N' _ "NaN" rfl rfl, missing 'I' _ "Infinity" rfl rfl, missing '-' _ "-Infinity" rfl rfl]
  rfl

theorem readWord_negative {first : CodePoint} (digit : isDigit first = true) (rest : Str) :
    readWord (scalar '-' :: first :: rest) = none := by
  have other : first ≠ scalar 'I' := by
    rintro rfl
    exact absurd digit (by decide)
  have infinite : expect "-Infinity" (scalar '-' :: first :: rest) = none := by
    have different : (scalar 'I' == first) = false := by simpa using Ne.symm other
    have letters : "-Infinity".toList = '-' :: 'I' :: "nfinity".toList := rfl
    simp [expect, letters, Str.ofChars, List.isPrefixOf, different]
  rw [readWord, infinite, expect_eq_none "null" rfl (by decide),
    expect_eq_none "true" rfl (by decide), expect_eq_none "false" rfl (by decide),
    expect_eq_none "NaN" rfl (by decide),
    expect_eq_none "Infinity" rfl (by decide)]
  rfl

/-- What makes one value readable from what it is written as. -/
def Readable (limit : ℕ) : JsonValue → Prop
  | .float _ => False
  | .int value => (Nat.toDigits 10 value.natAbs).length ≤ limit
  | .object fields => (fields.map Prod.fst).Nodup
  | _ => True

/-- A value is read back whatever follows it, where that does not continue a number. -/
def ReadsBack (limit : ℕ) (value : JsonValue) : Prop :=
  ∀ fuel rest, value.write.length ≤ fuel → Stops rest →
    readValue limit fuel (value.write ++ rest) = some (value, rest)

theorem write_opens {limit : ℕ} {value : JsonValue} (readable : Readable limit value) :
    ∃ first more, value.write = first :: more ∧ Opens first := by
  cases value with
  | null => exact ⟨_, _, rfl, by decide, by decide, by decide⟩
  | bool value => cases value <;> exact ⟨_, _, rfl, by decide, by decide, by decide⟩
  | int value =>
      cases value with
      | ofNat value =>
          cases written : Nat.toDigits 10 value with
          | nil => exact absurd written Nat.toDigits_ne_nil
          | cons first more =>
              have digit : first.isDigit := isDigit_of_mem_digits (written ▸ List.mem_cons_self)
              exact ⟨scalar first, Str.ofChars more, by simp [JsonValue.write, decimal, written,
                Str.ofChars], opens_of_isDigit digit⟩
      | negSucc value => exact ⟨scalar '-', _, rfl, by decide, by decide, by decide⟩
  | float printed => exact readable.elim
  | str text => exact ⟨scalar '"', _, rfl, by decide, by decide, by decide⟩
  | list items => exact ⟨scalar '[', _, rfl, by decide, by decide, by decide⟩
  | object fields => exact ⟨scalar '{', _, rfl, by decide, by decide, by decide⟩

theorem separated_cons_cons (first second : Str) (rest : List Str) :
    separated (first :: second :: rest) = first ++ scalar ',' :: separated (second :: rest) := by
  simp [separated]

theorem stops_of_mark {mark : CodePoint} (rest : Str)
    (other : isDigit mark = false ∧ mark ≠ scalar '.' ∧ mark ≠ scalar 'e' ∧ mark ≠ scalar 'E') :
    Stops (mark :: rest) := by
  intro point head
  cases head
  exact other

/-- The items of a list are read back up to its closing bracket. -/
theorem readItems_separated {limit : ℕ} {items : List JsonValue}
    (each : ∀ item ∈ items, ReadsBack limit item ∧ Readable limit item) (several : items ≠ [])
    {fuel : ℕ} (enough : (separated (items.map JsonValue.write)).length < fuel) (rest : Str) :
    readItems limit fuel (separated (items.map JsonValue.write) ++ scalar ']' :: rest) =
      some (items, rest) := by
  induction items generalizing fuel with
  | nil => exact absurd rfl several
  | cons item items ih =>
      obtain ⟨fuel, rfl⟩ := Nat.exists_eq_succ_of_ne_zero (Nat.ne_zero_of_lt enough)
      have own := (each item (.head _)).1
      cases items with
      | nil =>
          have fits : item.write.length ≤ fuel := by
            simpa [separated, Nat.lt_succ_iff] using enough
          have read := own fuel (scalar ']' :: rest) fits (stops_of_mark _ (by decide))
          simp only [List.map_cons, List.map_nil, separated, List.flatMap_nil, List.append_nil,
            readItems, read, Option.bind_eq_bind, Option.bind_some]
          rw [skipSpace_cons (by decide), expectMark_cons]
      | cons next items =>
          simp only [List.map_cons] at enough ih ⊢
          rw [separated_cons_cons, List.length_append, List.length_cons] at enough
          rw [separated_cons_cons, List.append_assoc, List.cons_append]
          have read := own fuel (scalar ',' :: (separated (next.write :: items.map JsonValue.write) ++
            scalar ']' :: rest)) (by omega) (stops_of_mark _ (by decide))
          obtain ⟨first, more, head, opens⟩ := write_opens (each next (.tail _ (.head _))).2
          have shorter : (separated (next.write :: items.map JsonValue.write)).length < fuel := by
            omega
          have later := ih (fun item member => each item (.tail _ member)) (by simp) shorter
          have solid : skipSpace (separated (next.write :: items.map JsonValue.write) ++
              scalar ']' :: rest) = separated (next.write :: items.map JsonValue.write) ++
              scalar ']' :: rest := by
            rw [separated, head]
            exact skipSpace_cons opens.1 _
          simp only [readItems, read, Option.bind_eq_bind, Option.bind_some]
          rw [skipSpace_cons (by decide), expectMark_eq_none (by decide)]
          simp only [expectMark_cons, Option.bind_some, solid, later]

/-- A field of an object as it is written. -/
def writeField (field : Str × JsonValue) : Str := quoted field.1 ++ scalar ':' :: field.2.write

theorem writeField_append (field : Str × JsonValue) (rest : Str) :
    writeField field ++ rest = scalar '"' :: (field.1.flatMap escape ++
      scalar '"' :: scalar ':' :: (field.2.write ++ rest)) := by
  simp [writeField, quoted]

/-- The key of a field and its colon are read back, up to the value. -/
theorem read_key (field : Str × JsonValue) (rest : Str) :
    readString ((field.1.flatMap escape ++ scalar '"' :: rest).length + 1)
      (field.1.flatMap escape ++ scalar '"' :: rest) = some (field.1, rest) :=
  (readString_quoted field.1 rest).2

/-- The fields of an object are read back up to its closing brace. -/
theorem readFields_separated {limit : ℕ} {fields : List (Str × JsonValue)}
    (each : ∀ field ∈ fields, ReadsBack limit field.2 ∧ Readable limit field.2)
    (several : fields ≠ []) {fuel : ℕ}
    (enough : (separated (fields.map writeField)).length < fuel) (rest : Str) :
    readFields limit fuel (separated (fields.map writeField) ++ scalar '}' :: rest) =
      some (fields, rest) := by
  induction fields generalizing fuel with
  | nil => exact absurd rfl several
  | cons field fields ih =>
      obtain ⟨fuel, rfl⟩ := Nat.exists_eq_succ_of_ne_zero (Nat.ne_zero_of_lt enough)
      obtain ⟨own, readable⟩ := each field (.head _)
      obtain ⟨start, more, head, opens⟩ := write_opens readable
      have solid (after : Str) : skipSpace (field.2.write ++ after) = field.2.write ++ after := by
        rw [head]
        exact skipSpace_cons opens.1 _
      have written : field.2.write.length ≤ (writeField field).length := by
        simp only [writeField, List.length_append, List.length_cons]
        omega
      cases fields with
      | nil =>
          have fits : field.2.write.length ≤ fuel := by
            simp only [List.map_cons, List.map_nil, separated, List.flatMap_nil,
              List.append_nil] at enough
            omega
          have read := own fuel (scalar '}' :: rest) fits (stops_of_mark _ (by decide))
          simp only [List.map_cons, List.map_nil, separated, List.flatMap_nil, List.append_nil]
          rw [writeField_append]
          simp only [readFields, expectMark_cons, Option.bind_eq_bind, Option.bind_some, read_key]
          rw [skipSpace_cons (by decide), expectMark_cons]
          simp only [Option.bind_some, solid, read]
          rw [skipSpace_cons (by decide), expectMark_cons]
      | cons next fields =>
          simp only [List.map_cons] at enough ih ⊢
          rw [separated_cons_cons, List.length_append, List.length_cons] at enough
          rw [separated_cons_cons, List.append_assoc, List.cons_append, writeField_append]
          have read := own fuel (scalar ',' :: (separated (writeField next ::
            fields.map writeField) ++ scalar '}' :: rest)) (by omega) (stops_of_mark _ (by decide))
          have shorter : (separated (writeField next :: fields.map writeField)).length < fuel := by
            omega
          have later := ih (fun field member => each field (.tail _ member)) (by simp) shorter
          have quote : skipSpace (separated (writeField next :: fields.map writeField) ++
              scalar '}' :: rest) = separated (writeField next :: fields.map writeField) ++
              scalar '}' :: rest := by
            rw [separated, List.append_assoc, writeField_append]
            exact skipSpace_cons (by decide) _
          simp only [readFields, expectMark_cons, Option.bind_eq_bind, Option.bind_some, read_key]
          rw [skipSpace_cons (by decide), expectMark_cons]
          simp only [Option.bind_some, solid, read]
          rw [skipSpace_cons (by decide), expectMark_eq_none (by decide)]
          simp only [expectMark_cons, Option.bind_some, quote, later]

theorem readValue_word {limit fuel : ℕ} {value : JsonValue} {first : CodePoint} {more rest : Str}
    (word : readWord (first :: more) = some (value, rest))
    (plain : first ≠ scalar '"' ∧ first ≠ scalar '[' ∧ first ≠ scalar '{') :
    readValue limit (fuel + 1) (first :: more) = some (value, rest) := by
  rw [readValue, if_neg plain.1, if_neg plain.2.1, if_neg plain.2.2, word]
  rfl

theorem readValue_int {limit : ℕ} {value : ℤ}
    (short : (Nat.toDigits 10 value.natAbs).length ≤ limit) {fuel : ℕ} {rest : Str}
    (stops : Stops rest) :
    readValue limit (fuel + 1) (Str.ofChars (decimal value) ++ rest) = some (.int value, rest) := by
  have number := readNumber_decimal short stops
  have word : readWord (Str.ofChars (decimal value) ++ rest) = none ∧
      ∃ first more, Str.ofChars (decimal value) ++ rest = first :: more ∧
        first ≠ scalar '"' ∧ first ≠ scalar '[' ∧ first ≠ scalar '{' := by
    cases value with
    | ofNat value =>
        cases written : Nat.toDigits 10 value with
        | nil => exact absurd written Nat.toDigits_ne_nil
        | cons first more =>
            have digit : isDigit (scalar first) = true :=
              isDigit_of_mem_digits (written ▸ List.mem_cons_self)
            have same : Str.ofChars (decimal (.ofNat value)) ++ rest =
                scalar first :: (Str.ofChars more ++ rest) := by
              simp [decimal, written, Str.ofChars]
            rw [same]
            refine ⟨readWord_of_isDigit digit _, _, _, rfl, ?_, ?_, ?_⟩ <;> intro mark <;>
              rw [mark] at digit <;> exact absurd digit (by decide)
    | negSucc value =>
        cases written : Nat.toDigits 10 (value + 1) with
        | nil => exact absurd written Nat.toDigits_ne_nil
        | cons first more =>
            have digit : isDigit (scalar first) = true :=
              isDigit_of_mem_digits (written ▸ List.mem_cons_self)
            have same : Str.ofChars (decimal (.negSucc value)) ++ rest =
                scalar '-' :: scalar first :: (Str.ofChars more ++ rest) := by
              simp [decimal, written, Str.ofChars]
            rw [same]
            exact ⟨readWord_negative digit _, _, _, rfl, by decide, by decide, by decide⟩
  obtain ⟨none, first, more, same, quote, bracket, brace⟩ := word
  rw [same] at none number ⊢
  rw [readValue, if_neg quote, if_neg bracket, if_neg brace, none, number]
  rfl

theorem self_mem_parts (value : JsonValue) : value ∈ value.parts := by
  cases value <;> exact .head _

theorem item_parts {items : List JsonValue} {item part : JsonValue} (member : item ∈ items)
    (inside : part ∈ item.parts) : part ∈ (JsonValue.list items).parts := by
  rw [JsonValue.parts, JsonValue.itemParts_eq]
  exact .tail _ (List.mem_flatMap.mpr ⟨item, member, inside⟩)

theorem field_parts {fields : List (Str × JsonValue)} {field : Str × JsonValue} {part : JsonValue}
    (member : field ∈ fields) (inside : part ∈ field.2.parts) :
    part ∈ (JsonValue.object fields).parts := by
  rw [JsonValue.parts, JsonValue.fieldParts_eq]
  exact .tail _ (List.mem_flatMap.mpr ⟨field, member, inside⟩)

/-- A list or an object with nothing in it closes at once. -/
theorem closing (mark : Char) (solid : isWhitespace (scalar mark) = false) (rest : Str) :
    expectMark mark (skipSpace (scalar mark :: rest)) = some rest := by
  rw [skipSpace_cons solid, expectMark_cons]

theorem readValue_list {limit : ℕ} {items : List JsonValue}
    (each : ∀ item ∈ items, ReadsBack limit item ∧ Readable limit item) :
    ReadsBack limit (.list items) := by
  intro fuel rest enough stops
  rw [JsonValue.write, JsonValue.writeItems_eq] at enough ⊢
  obtain ⟨fuel, rfl⟩ := Nat.exists_eq_succ_of_ne_zero (Nat.ne_zero_of_lt enough)
  rw [List.cons_append, List.cons_append, List.append_assoc, readValue, if_neg (by decide),
    if_pos rfl]
  simp only [List.length_append, List.length_cons, List.length_nil] at enough
  cases items with
  | nil => simp [separated, closing ']' (by decide)]
  | cons item items =>
      have fits : (separated ((item :: items).map JsonValue.write)).length < fuel := by omega
      have read := readItems_separated each (by simp) fits rest
      obtain ⟨first, more, head, opens⟩ := write_opens (each item (.head _)).2
      have solid : separated ((item :: items).map JsonValue.write) ++ [scalar ']'] ++ rest =
          first :: (more ++ (items.map JsonValue.write).flatMap (scalar ',' :: ·) ++
            [scalar ']'] ++ rest) := by
        simp [separated, head]
      rw [List.append_assoc] at solid
      rw [solid, skipSpace_cons opens.1, expectMark_eq_none opens.2.1, ← solid]
      simp only [List.singleton_append, read, Option.map_some]

theorem readValue_object {limit : ℕ} {fields : List (Str × JsonValue)}
    (each : ∀ field ∈ fields, ReadsBack limit field.2 ∧ Readable limit field.2)
    (distinct : (fields.map Prod.fst).Nodup) : ReadsBack limit (.object fields) := by
  intro fuel rest enough stops
  rw [JsonValue.write, JsonValue.writeFields_eq] at enough ⊢
  change (scalar '{' :: separated (fields.map writeField) ++ [scalar '}']).length ≤ fuel at enough
  change readValue limit fuel (scalar '{' :: separated (fields.map writeField) ++ [scalar '}'] ++
    rest) = _
  obtain ⟨fuel, rfl⟩ := Nat.exists_eq_succ_of_ne_zero (Nat.ne_zero_of_lt enough)
  rw [List.cons_append, List.cons_append, List.append_assoc, readValue, if_neg (by decide),
    if_neg (by decide), if_pos rfl]
  simp only [List.length_append, List.length_cons, List.length_nil] at enough
  cases fields with
  | nil => simp [separated, closing '}' (by decide)]
  | cons field fields =>
      have fits : (separated ((field :: fields).map writeField)).length < fuel := by omega
      have read := readFields_separated each (by simp) fits rest
      have solid : separated ((field :: fields).map writeField) ++ ([scalar '}'] ++ rest) =
          scalar '"' :: (field.1.flatMap escape ++ scalar '"' :: scalar ':' ::
            (field.2.write ++ ((fields.map writeField).flatMap (scalar ',' :: ·) ++
              ([scalar '}'] ++ rest)))) := by
        rw [List.map_cons, separated, List.append_assoc, writeField_append]
      rw [solid, skipSpace_cons (by decide), expectMark_eq_none (by decide), ← solid]
      simp only [List.singleton_append, read, Option.map_some, dictOf_of_nodup distinct]

/-- Every value that is written is read back. -/
theorem readsBack {limit : ℕ} (value : JsonValue)
    (readable : ∀ part ∈ value.parts, Readable limit part) : ReadsBack limit value := by
  induction value using JsonValue.induct with
  | null =>
      intro fuel rest enough stops
      obtain ⟨fuel, rfl⟩ := Nat.exists_eq_succ_of_ne_zero (Nat.ne_zero_of_lt enough)
      exact readValue_word rfl (by decide)
  | bool value =>
      intro fuel rest enough stops
      have positive : 0 < (JsonValue.bool value).write.length := by cases value <;> decide
      obtain ⟨fuel, rfl⟩ := Nat.exists_eq_succ_of_ne_zero (Nat.ne_zero_of_lt
        (positive.trans_le enough))
      cases value <;> exact readValue_word rfl (by decide)
  | int value =>
      intro fuel rest enough stops
      obtain ⟨first, more, head, -⟩ := write_opens (readable _ (self_mem_parts _))
      rw [head] at enough
      obtain ⟨fuel, rfl⟩ := Nat.exists_eq_succ_of_ne_zero (Nat.ne_zero_of_lt enough)
      exact readValue_int (readable _ (self_mem_parts _)) stops
  | float printed => exact (readable _ (self_mem_parts _)).elim
  | str text =>
      intro fuel rest enough stops
      obtain ⟨fuel, rfl⟩ := Nat.exists_eq_succ_of_ne_zero (Nat.ne_zero_of_lt enough)
      obtain ⟨same, read⟩ := readString_quoted text rest
      rw [JsonValue.write, same, readValue, if_pos rfl, read]
      rfl
  | list items ih =>
      refine readValue_list fun item member => ?_
      exact ⟨ih item member fun part here => readable part (item_parts member here),
        readable item (item_parts member (self_mem_parts item))⟩
  | object fields ih =>
      refine readValue_object (fun field member => ?_) (readable _ (self_mem_parts _))
      exact ⟨ih field member fun part here => readable part (field_parts member here),
        readable field.2 (field_parts member (self_mem_parts field.2))⟩

/-- Sorting the keys sorts every value inside. -/
theorem sorted_parts (value : JsonValue) :
    value.sorted.parts.Perm (value.parts.map JsonValue.sorted) := by
  induction value using JsonValue.induct with
  | null | bool | int | float | str => exact .refl _
  | list items ih =>
      simp only [JsonValue.sorted, JsonValue.sortedItems_eq, JsonValue.parts,
        JsonValue.itemParts_eq, List.map_cons, List.map_flatMap, List.flatMap_map]
      exact (List.Perm.flatMap_left _ ih).cons _
  | object fields ih =>
      simp only [JsonValue.sorted, JsonValue.sortedFields_eq, JsonValue.parts,
        JsonValue.fieldParts_eq, List.map_cons, List.map_flatMap]
      refine List.Perm.cons _ (((sortBy_perm _ _).flatMap_right _).trans ?_)
      rw [List.flatMap_map]
      exact List.Perm.flatMap_left _ ih

theorem mem_sorted_parts {value part : JsonValue} :
    part ∈ value.sorted.parts ↔ ∃ given ∈ value.parts, given.sorted = part := by
  rw [(sorted_parts value).mem_iff, List.mem_map]

theorem readable_sorted {limit : ℕ} {value : JsonValue} (readable : Readable limit value) :
    Readable limit value.sorted := by
  cases value with
  | object fields =>
      rw [JsonValue.sorted, JsonValue.sortedFields_eq, Readable]
      have keys : (sortBy Prod.fst (fields.map fun field => (field.1, field.2.sorted))).map
          Prod.fst |>.Perm (fields.map Prod.fst) := by
        refine ((sortBy_perm _ _).map _).trans ?_
        rw [List.map_map]
        exact .refl _
      exact keys.nodup_iff.mpr readable
  | null | bool | int | float | str | list => exact readable

/-- `json.loads` reads back what a readable value is written as. -/
theorem loads_write {limit : ℕ} {value : JsonValue}
    (readable : ∀ part ∈ value.parts, Readable limit part) :
    loads limit value.write = some value := by
  obtain ⟨first, more, head, opens⟩ := write_opens (readable value (self_mem_parts value))
  have read := readsBack value readable (value.write.length + 1) [] (by omega) stops_nil
  have mark : value.write.head? ≠ some (ofCode 0xFEFF) := by
    rw [head, List.head?_cons, ne_eq, Option.some.injEq]
    exact opens.2.2
  rw [List.append_nil] at read
  rw [loads, if_neg mark, head, skipSpace_cons opens.1, ← head, read]
  rfl

end Values

section Encoding

theorem encodable_flatMap {α : Type} {elements : List α} {text : α → Str} :
    Str.Encodable (elements.flatMap text) ↔ ∀ element ∈ elements, (text element).Encodable := by
  induction elements with
  | nil => simp
  | cons element elements ih =>
      rw [List.flatMap_cons, Str.encodable_append, ih, List.forall_mem_cons]

theorem escape_encodable (point : CodePoint) :
    (escape point).Encodable ↔ point.isSurrogate = false := by
  cases point with
  | scalar character =>
      refine iff_of_true ?_ rfl
      unfold escape
      iterate 8
        split
        · first
            | exact Str.encodable_ofChars _
            | exact Str.encodable_append.mpr ⟨Str.encodable_ofChars _, by simp [isSurrogate]⟩
      simp [isSurrogate]
  | surrogate offset =>
      have high : ¬ (surrogate offset).code < 0x20 := by
        simp only [code]
        omega
      have apart : escape (surrogate offset) = [surrogate offset] := by
        have feed : (surrogate offset).code ≠ 0x0C := by omega
        have back : (surrogate offset).code ≠ 0x08 := by omega
        simp [escape, high, feed, back]
      simp [apart]

theorem quoted_encodable (text : Str) : (quoted text).Encodable ↔ text.Encodable := by
  rw [quoted, List.cons_append, Str.encodable_cons, Str.encodable_append, encodable_flatMap]
  simp only [escape_encodable]
  exact ⟨fun marked => marked.2.1, fun all => ⟨rfl, all, by decide⟩⟩

theorem separated_encodable (texts : List Str) :
    (separated texts).Encodable ↔ ∀ text ∈ texts, text.Encodable := by
  cases texts with
  | nil => simp [separated]
  | cons first rest =>
      rw [separated, Str.encodable_append, encodable_flatMap, List.forall_mem_cons]
      simp [isSurrogate]

/-- The texts of one value itself have a UTF-8 form. -/
def JsonValue.Textual : JsonValue → Prop
  | .str text => text.Encodable
  | .object fields => ∀ field ∈ fields, field.1.Encodable
  | _ => True

theorem textual_sorted (value : JsonValue) : value.sorted.Textual ↔ value.Textual := by
  cases value with
  | object fields =>
      rw [JsonValue.sorted, JsonValue.sortedFields_eq]
      simp only [JsonValue.Textual, mem_sortBy, List.forall_mem_map]
  | null | bool | int | float | str | list => exact .rfl

/-- What is written has a UTF-8 form exactly when every text in it has one. -/
theorem write_encodable {limit : ℕ} {value : JsonValue}
    (readable : ∀ part ∈ value.parts, Readable limit part) :
    value.write.Encodable ↔ ∀ part ∈ value.parts, part.Textual := by
  induction value using JsonValue.induct with
  | null => exact iff_of_true (Str.encodable_ofChars _) (by simp [JsonValue.parts, JsonValue.Textual])
  | bool value =>
      refine iff_of_true ?_ (by simp [JsonValue.parts, JsonValue.Textual])
      cases value <;> exact Str.encodable_ofChars _
  | int value =>
      exact iff_of_true (Str.encodable_ofChars _) (by simp [JsonValue.parts, JsonValue.Textual])
  | float printed => exact (readable _ (self_mem_parts _)).elim
  | str text => simp [JsonValue.write, JsonValue.parts, JsonValue.Textual, quoted_encodable]
  | list items ih =>
      have each := fun item member => ih item member fun part here =>
        readable part (item_parts member here)
      simp only [JsonValue.write, JsonValue.writeItems_eq, List.cons_append, Str.encodable_cons,
        Str.encodable_append, separated_encodable, List.forall_mem_map, isSurrogate, true_and,
        Str.encodable_nil, and_true, JsonValue.parts, JsonValue.itemParts_eq, List.forall_mem_cons,
        JsonValue.Textual, List.mem_flatMap, forall_exists_index, and_imp]
      constructor
      · exact fun all part item member here => (each item member).mp (all item member) part here
      · exact fun all item member => (each item member).mpr fun part here =>
          all part item member here
  | object fields ih =>
      have each := fun field member => ih field member fun part here =>
        readable part (field_parts member here)
      simp only [JsonValue.write, JsonValue.writeFields_eq, List.cons_append, Str.encodable_cons,
        Str.encodable_append, separated_encodable, List.forall_mem_map, isSurrogate, true_and,
        Str.encodable_nil, and_true, JsonValue.parts, JsonValue.fieldParts_eq,
        List.forall_mem_cons, JsonValue.Textual, List.mem_flatMap, forall_exists_index, and_imp,
        quoted_encodable]
      constructor
      · intro all
        exact ⟨fun field member => (all field member).1, fun part field member here =>
          (each field member).mp (all field member).2 part here⟩
      · rintro ⟨keys, all⟩ field member
        exact ⟨keys field member, (each field member).mpr fun part here =>
          all part field member here⟩

end Encoding

end Verbatus.Python
