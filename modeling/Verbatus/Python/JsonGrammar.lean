import Mathlib.Data.List.TakeWhile
import Verbatus.Python.JsonText

namespace Verbatus.Python.JsonGrammar

open CodePoint

/-- White space in front of the rest of a text. -/
inductive Space : Str → Str → Prop
  | nil (text : Str) : Space text text
  | cons {point : CodePoint} {text rest : Str} (blank : isWhitespace point = true)
      (more : Space text rest) : Space (point :: text) rest

theorem space_skipSpace (text : Str) : Space text (skipSpace text) := by
  induction text with
  | nil => exact .nil []
  | cons point text ih =>
      rw [skipSpace, List.dropWhile_cons]
      split_ifs with blank
      · exact .cons blank ih
      · exact .nil _

theorem space_of_forall {text : Str} (blank : ∀ point ∈ text, isWhitespace point = true)
    (rest : Str) : Space (text ++ rest) rest := by
  induction text with
  | nil => exact .nil rest
  | cons point text ih =>
      obtain ⟨first, others⟩ := List.forall_mem_cons.mp blank
      exact .cons first (ih others)

/-- How a string spells one of its characters. -/
inductive SpellsPoint : CodePoint → Str → Prop
  | plain {point : CodePoint} (quote : point ≠ scalar '"') (slash : point ≠ scalar '\\')
      (printable : 0x20 ≤ point.code) : SpellsPoint point [point]
  | mark {mark point : CodePoint} (named : unescape mark = some point) :
      SpellsPoint point [scalar '\\', mark]
  | unit {a b c d : CodePoint} {unit : ℕ} (read : hexUnit [a, b, c, d] = some (unit, [])) :
      SpellsPoint (ofCode unit) [scalar '\\', scalar 'u', a, b, c, d]
  | pair {a b c d a' b' c' d' : CodePoint} {high low : ℕ}
      (readHigh : hexUnit [a, b, c, d] = some (high, []))
      (readLow : hexUnit [a', b', c', d'] = some (low, []))
      (isHigh : 0xD800 ≤ high ∧ high ≤ 0xDBFF) (isLow : 0xDC00 ≤ low ∧ low ≤ 0xDFFF) :
      SpellsPoint (ofCode (0x10000 + (high - 0xD800) * 0x400 + (low - 0xDC00)))
        [scalar '\\', scalar 'u', a, b, c, d, scalar '\\', scalar 'u', a', b', c', d']

/-- A string after its opening quote, up to the rest of the text after its closing one. -/
inductive SpellsText : Str → Str → Str → Prop
  | close (rest : Str) : SpellsText [] (scalar '"' :: rest) rest
  | point {point : CodePoint} {spelled text more rest : Str} (first : SpellsPoint point spelled)
      (later : SpellsText text more rest) : SpellsText (point :: text) (spelled ++ more) rest

/-- One digit at least, and digits alone. -/
def IsDigits (text : Str) : Prop := text ≠ [] ∧ ∀ point ∈ text, isDigit point = true

/-- The parts of a number. -/
structure Numeral (sign whole fraction exponent : Str) : Prop where
  sign : sign = [] ∨ sign = [scalar '-']
  whole : whole = [scalar '0'] ∨ IsDigits whole ∧ whole.head? ≠ some (scalar '0')
  fraction : fraction = [] ∨ ∃ digits, IsDigits digits ∧ fraction = scalar '.' :: digits
  exponent : exponent = [] ∨ ∃ mark sign digits, (mark = scalar 'e' ∨ mark = scalar 'E') ∧
    (sign = [] ∨ sign = [scalar '+'] ∨ sign = [scalar '-']) ∧ IsDigits digits ∧
      exponent = mark :: (sign ++ digits)

theorem Numeral.pos {sign whole fraction exponent : Str}
    (numeral : Numeral sign whole fraction exponent) : 0 < whole.length := by
  rcases numeral.whole with rfl | ⟨⟨nonempty, -⟩, -⟩
  · exact Nat.one_pos
  · exact List.length_pos_of_ne_nil nonempty

/-- The words that are values; the last three are no JSON, and Python reads them. -/
def words : List (String × JsonValue) :=
  [("null", .null), ("true", .bool true), ("false", .bool false),
    ("NaN", .float (Str.ofChars "nan".toList)), ("Infinity", .float (Str.ofChars "inf".toList)),
    ("-Infinity", .float (Str.ofChars "-inf".toList))]

/-- What a stretch of JSON text spells: a value, the items of a list up to its bracket, or the
fields of an object up to its brace. -/
inductive Phrase where
  | value (value : JsonValue)
  | items (items : List JsonValue)
  | fields (fields : List (Str × JsonValue))

/-- How deep lists and objects are nested in a value. -/
def depth : JsonValue → ℕ
  | .list items => itemsDepth items + 1
  | .object fields => fieldsDepth fields + 1
  | _ => 0
where
  itemsDepth : List JsonValue → ℕ
    | [] => 0
    | item :: items => max (depth item) (itemsDepth items)
  fieldsDepth : List (Str × JsonValue) → ℕ
    | [] => 0
    | (_, item) :: fields => max (depth item) (fieldsDepth fields)

def Phrase.depth : Phrase → ℕ
  | .value spelled => JsonGrammar.depth spelled
  | .items spelled => depth.itemsDepth spelled
  | .fields spelled => depth.fieldsDepth spelled

/-- The front of a text spells a phrase; an object keeps every field, also of one key twice. -/
inductive Spells : Phrase → Str → Str → Prop
  | word {word : String} {value : JsonValue} (listed : (word, value) ∈ words) (rest : Str) :
      Spells (.value value) (Str.ofChars word.toList ++ rest) rest
  | int {sign whole : Str} (numeral : Numeral sign whole [] []) (rest : Str) :
      Spells (.value (.int (if sign = [] then magnitude whole else -magnitude whole)))
        (sign ++ whole ++ rest) rest
  | float {sign whole fraction exponent : Str} (numeral : Numeral sign whole fraction exponent)
      (more : fraction ++ exponent ≠ []) (rest : Str) :
      Spells (.value (.float (sign ++ whole ++ fraction ++ exponent)))
        (sign ++ whole ++ fraction ++ exponent ++ rest) rest
  | str {text source rest : Str} (spelled : SpellsText text source rest) :
      Spells (.value (.str text)) (scalar '"' :: source) rest
  | emptyList {text rest : Str} (space : Space text (scalar ']' :: rest)) :
      Spells (.value (.list [])) (scalar '[' :: text) rest
  | list {items : List JsonValue} {text first rest : Str} (space : Space text first)
      (inside : Spells (.items items) first rest) :
      Spells (.value (.list items)) (scalar '[' :: text) rest
  | emptyObject {text rest : Str} (space : Space text (scalar '\x7d' :: rest)) :
      Spells (.value (.object [])) (scalar '\x7b' :: text) rest
  | object {fields : List (Str × JsonValue)} {text first rest : Str} (space : Space text first)
      (inside : Spells (.fields fields) first rest) :
      Spells (.value (.object fields)) (scalar '\x7b' :: text) rest
  | lastItem {item : JsonValue} {text after rest : Str} (first : Spells (.value item) text after)
      (space : Space after (scalar ']' :: rest)) : Spells (.items [item]) text rest
  | item {item : JsonValue} {items : List JsonValue} {text after more next rest : Str}
      (first : Spells (.value item) text after) (space : Space after (scalar ',' :: more))
      (gap : Space more next) (later : Spells (.items items) next rest) :
      Spells (.items (item :: items)) text rest
  | lastField {key : Str} {item : JsonValue} {text colon value start after rest : Str}
      (named : SpellsText key text colon) (before : Space colon (scalar ':' :: value))
      (between : Space value start) (first : Spells (.value item) start after)
      (space : Space after (scalar '\x7d' :: rest)) :
      Spells (.fields [(key, item)]) (scalar '"' :: text) rest
  | field {key : Str} {item : JsonValue} {fields : List (Str × JsonValue)}
      {text colon value start after more next rest : Str}
      (named : SpellsText key text colon) (before : Space colon (scalar ':' :: value))
      (between : Space value start) (first : Spells (.value item) start after)
      (space : Space after (scalar ',' :: more)) (gap : Space more next)
      (later : Spells (.fields fields) next rest) :
      Spells (.fields ((key, item) :: fields)) (scalar '"' :: text) rest

theorem Space.append {text rest : Str} (space : Space text rest) (more : Str) :
    Space (text ++ more) (rest ++ more) := by
  induction space with
  | nil => exact .nil _
  | cons blank _ ih => exact .cons blank ih

theorem SpellsText.append {content source rest : Str} (spells : SpellsText content source rest)
    (more : Str) : SpellsText content (source ++ more) (rest ++ more) := by
  induction spells with
  | close => exact .close _
  | point first _ ih =>
      rw [List.append_assoc]
      exact .point first ih

/-- What a text spells it spells with more after it. -/
theorem Spells.append {phrase : Phrase} {text rest : Str} (spells : Spells phrase text rest)
    (more : Str) : Spells phrase (text ++ more) (rest ++ more) := by
  induction spells with
  | word listed rest =>
      rw [List.append_assoc]
      exact .word listed _
  | int numeral rest =>
      rw [List.append_assoc]
      exact .int numeral _
  | float numeral some rest =>
      rw [List.append_assoc _ rest]
      exact .float numeral some _
  | str spelled => exact .str (spelled.append more)
  | emptyList space => exact .emptyList (space.append more)
  | list space _ ih => exact .list (space.append more) ih
  | emptyObject space => exact .emptyObject (space.append more)
  | object space _ ih => exact .object (space.append more) ih
  | lastItem _ space ih => exact .lastItem ih (space.append more)
  | item _ space gap _ first later =>
      exact .item first (space.append more) (gap.append more) later
  | lastField named before between _ space ih =>
      exact .lastField (named.append more) (before.append more) (between.append more) ih
        (space.append more)
  | field named before between _ space gap _ first later =>
      exact .field (named.append more) (before.append more) (between.append more) first
        (space.append more) (gap.append more) later

theorem Space.length_le {text rest : Str} (space : Space text rest) :
    rest.length ≤ text.length := by
  induction space with
  | nil => exact le_rfl
  | cons _ _ ih => exact ih.trans (Nat.le_succ _)

theorem SpellsText.length_lt {content source rest : Str} (spells : SpellsText content source rest) :
    rest.length < source.length := by
  induction spells with
  | close => exact Nat.lt_succ_self _
  | point _ _ ih =>
      rw [List.length_append]
      omega

/-- A phrase takes one character at least. -/
theorem Spells.length_lt {phrase : Phrase} {text rest : Str} (spells : Spells phrase text rest) :
    rest.length < text.length := by
  induction spells with
  | word listed rest =>
      have each : ∀ entry ∈ words, 0 < (Str.ofChars entry.1.toList).length := by
        simp [words, Str.ofChars]
      have pos := each _ listed
      rw [List.length_append]
      dsimp only at pos
      omega
  | int numeral rest =>
      have pos := numeral.pos
      simp only [List.length_append]
      omega
  | float numeral _ rest =>
      have pos := numeral.pos
      simp only [List.length_append]
      omega
  | str spelled => exact spelled.length_lt.trans (Nat.lt_succ_self _)
  | emptyList space | emptyObject space =>
      have shorter := space.length_le
      rw [List.length_cons] at shorter ⊢
      omega
  | list space _ ih | object space _ ih =>
      have shorter := space.length_le
      rw [List.length_cons]
      omega
  | lastItem _ space ih =>
      have shorter := space.length_le
      rw [List.length_cons] at shorter
      omega
  | item _ space gap _ first later =>
      have shorter := space.length_le
      have gapShorter := gap.length_le
      rw [List.length_cons] at shorter
      omega
  | lastField named before between _ space ih =>
      have key := named.length_lt
      have colon := before.length_le
      have start := between.length_le
      have shorter := space.length_le
      rw [List.length_cons] at *
      omega
  | field named before between _ space gap _ first later =>
      have key := named.length_lt
      have colon := before.length_le
      have start := between.length_le
      have shorter := space.length_le
      have gapShorter := gap.length_le
      rw [List.length_cons] at *
      omega

/-- A text that is one JSON value with nothing but white space around it. -/
def IsValue (value : JsonValue) (text : Str) : Prop :=
  ∃ start rest, Space text start ∧ Spells (.value value) start rest ∧ Space rest []

section Strings

theorem hexUnit_eq_some {text rest : Str} {unit : ℕ} (read : hexUnit text = some (unit, rest)) :
    ∃ a b c d, text = a :: b :: c :: d :: rest ∧ hexUnit [a, b, c, d] = some (unit, []) := by
  match text with
  | [] | [_] | [_, _] | [_, _, _] => cases read
  | a :: b :: c :: d :: others =>
      simp only [hexUnit, Option.bind_eq_bind, Option.bind_eq_some_iff, Option.some.injEq,
        Prod.mk.injEq] at read
      obtain ⟨first, readFirst, second, readSecond, third, readThird, fourth, readFourth, same,
        rfl⟩ := read
      refine ⟨a, b, c, d, rfl, ?_⟩
      simp [hexUnit, readFirst, readSecond, readThird, readFourth, same]

theorem expect_eq_some {word : String} {text rest : Str} (found : expect word text = some rest) :
    text = Str.ofChars word.toList ++ rest := by
  rw [expect] at found
  split_ifs at found with begins
  obtain ⟨others, rfl⟩ := List.isPrefixOf_iff_prefix.mp begins
  rw [List.drop_left, Option.some.injEq] at found
  rw [found]

theorem expectMark_eq_some {mark : Char} {text rest : Str}
    (found : expectMark mark text = some rest) : text = scalar mark :: rest := by
  rw [expectMark] at found
  split_ifs at found with begins
  cases text with
  | nil => cases begins
  | cons first others =>
      rw [List.head?_cons, Option.some.injEq] at begins
      rw [List.tail_cons, Option.some.injEq] at found
      rw [begins, found]

theorem readUnit_spells {text rest : Str} {point : CodePoint}
    (read : readUnit text = some (point, rest)) :
    ∃ spelled, text = spelled ++ rest ∧
      SpellsPoint point (scalar '\\' :: scalar 'u' :: spelled) := by
  simp only [readUnit, Option.bind_eq_bind, Option.bind_eq_some_iff] at read
  obtain ⟨⟨unit, after⟩, readHigh, read⟩ := read
  obtain ⟨a, b, c, d, rfl, high⟩ := hexUnit_eq_some readHigh
  have alone : (ofCode unit, after) = (point, rest) → ∃ spelled, a :: b :: c :: d :: after =
      spelled ++ rest ∧ SpellsPoint point (scalar '\\' :: scalar 'u' :: spelled) := by
    intro same
    cases same
    exact ⟨[a, b, c, d], rfl, .unit high⟩
  dsimp only at read
  split at read
  · exact alone (Option.some.inj read)
  · next more next =>
      split_ifs at next with isHigh
      rw [Option.bind_eq_some_iff] at read
      obtain ⟨⟨low, others⟩, readLow, read⟩ := read
      obtain ⟨a', b', c', d', rfl, low'⟩ := hexUnit_eq_some readLow
      dsimp only at read
      split_ifs at read with isLow
      · rw [Option.some.injEq, Prod.mk.injEq] at read
        obtain ⟨rfl, rfl⟩ := read
        have begins : after = scalar '\\' :: scalar 'u' :: a' :: b' :: c' :: d' :: others :=
          expect_eq_some next
        rw [begins]
        exact ⟨[a, b, c, d, scalar '\\', scalar 'u', a', b', c', d'], rfl,
          .pair high low' isHigh isLow⟩
      · exact alone (Option.some.inj read)

theorem readPoint_spells {first point : CodePoint} {text rest : Str}
    (notQuote : first ≠ scalar '"') (read : readPoint first text = some (point, rest)) :
    ∃ spelled, first :: text = spelled ++ rest ∧ SpellsPoint point spelled := by
  unfold readPoint at read
  split_ifs at read with slash control
  · subst slash
    cases text with
    | nil => cases read
    | cons mark text =>
        dsimp only at read
        split_ifs at read with unit
        · obtain ⟨spelled, rfl, spells⟩ := readUnit_spells read
          exact ⟨scalar '\\' :: scalar 'u' :: spelled, by rw [unit]; rfl, spells⟩
        · rw [Option.map_eq_some_iff] at read
          obtain ⟨other, named, same⟩ := read
          cases same
          exact ⟨[scalar '\\', mark], rfl, .mark named⟩
  · cases read
    exact ⟨[first], rfl, .plain notQuote slash (not_lt.mp control)⟩

/-- A string that is read is spelled by what it was read from. -/
theorem readString_spells {fuel : ℕ} {source text rest : Str}
    (read : readString fuel source = some (text, rest)) : SpellsText text source rest := by
  induction fuel generalizing source text with
  | zero => cases read
  | succ fuel ih =>
      cases source with
      | nil => cases read
      | cons first source =>
          rw [readString] at read
          split_ifs at read with quote
          · cases read
            exact quote ▸ .close rest
          · simp only [Option.bind_eq_bind, Option.bind_eq_some_iff, Option.some.injEq,
              Prod.mk.injEq] at read
            obtain ⟨⟨point, after⟩, readFirst, ⟨later, others⟩, readLater, same, rfl⟩ := read
            obtain ⟨spelled, begins, spells⟩ := readPoint_spells quote readFirst
            rw [begins, ← same]
            exact .point spells (ih readLater)

end Strings

section Numbers

theorem digits_append_eq (text : Str) : (digits text).1 ++ (digits text).2 = text := by
  rw [digits, List.span_eq_takeWhile_dropWhile]
  exact List.takeWhile_append_dropWhile

theorem isDigits_digits {text : Str} (some : (digits text).1 ≠ []) : IsDigits (digits text).1 := by
  refine ⟨some, fun point member => ?_⟩
  rw [digits, List.span_eq_takeWhile_dropWhile] at member
  exact List.mem_takeWhile_imp member

theorem eq_cons_of_head? {text : Str} {point : CodePoint} (head : text.head? = some point) :
    text = point :: text.tail := by
  cases text with
  | nil => cases head
  | cons first text => rw [Option.some.inj head, List.tail_cons]

theorem wholePart_eq_some {text whole rest : Str} (read : wholePart text = some (whole, rest)) :
    text = whole ++ rest ∧
      (whole = [scalar '0'] ∨ IsDigits whole ∧ whole.head? ≠ some (scalar '0')) := by
  rw [wholePart] at read
  split_ifs at read with zero none
  · cases read
    exact ⟨eq_cons_of_head? zero, .inl rfl⟩
  · rw [Option.some.injEq] at read
    have parts := digits_append_eq text
    have found := isDigits_digits fun empty => none (List.isEmpty_iff.mpr empty)
    rw [read] at parts found
    refine ⟨parts.symm, .inr ⟨found, fun head => zero ?_⟩⟩
    rw [← parts, List.head?_append, head, Option.some_or]

theorem fractionPart_eq (text : Str) : text = (fractionPart text).1 ++ (fractionPart text).2 ∧
    ((fractionPart text).1 = [] ∨
      ∃ digits, IsDigits digits ∧ (fractionPart text).1 = scalar '.' :: digits) := by
  rw [fractionPart]
  split_ifs with found
  · obtain ⟨point, some⟩ := found
    refine ⟨?_, .inr ⟨_, isDigits_digits fun empty => some (List.isEmpty_iff.mpr empty), rfl⟩⟩
    rw [List.cons_append, digits_append_eq]
    exact eq_cons_of_head? point
  · exact ⟨rfl, .inl rfl⟩

/-- A sign in front of the digits of an exponent, where there is one. -/
theorem sign_split (signed : Str) :
    let sign := signed.take (if signed.head? = some (scalar '+') ∨
      signed.head? = some (scalar '-') then 1 else 0)
    sign ++ signed.drop sign.length = signed ∧
      (sign = [] ∨ sign = [scalar '+'] ∨ sign = [scalar '-']) := by
  split_ifs with found
  · rcases found with head | head
    · rw [eq_cons_of_head? head]
      exact ⟨rfl, .inr (.inl rfl)⟩
    · rw [eq_cons_of_head? head]
      exact ⟨rfl, .inr (.inr rfl)⟩
  · exact ⟨rfl, .inl rfl⟩

theorem exponentPart_eq (text : Str) : text = (exponentPart text).1 ++ (exponentPart text).2 ∧
    ((exponentPart text).1 = [] ∨ ∃ mark sign digits, (mark = scalar 'e' ∨ mark = scalar 'E') ∧
      (sign = [] ∨ sign = [scalar '+'] ∨ sign = [scalar '-']) ∧ IsDigits digits ∧
        (exponentPart text).1 = mark :: (sign ++ digits)) := by
  obtain ⟨parts, isSign⟩ := sign_split text.tail
  dsimp only [exponentPart]
  generalize text.tail.take _ = sign at parts isSign ⊢
  split_ifs with found
  · obtain ⟨marked, some⟩ := found
    obtain ⟨mark, isMark, head⟩ : ∃ mark, (mark = scalar 'e' ∨ mark = scalar 'E') ∧
        text.head? = Option.some mark := by
      rcases marked with head | head
      · exact ⟨_, .inl rfl, head⟩
      · exact ⟨_, .inr rfl, head⟩
    have inside := isDigits_digits fun empty => some (List.isEmpty_iff.mpr empty)
    have taken : text.take 1 = [mark] := by
      rw [eq_cons_of_head? head]
      rfl
    rw [taken]
    refine ⟨?_, .inr ⟨mark, sign, _, isMark, isSign, inside, rfl⟩⟩
    rw [List.append_assoc, digits_append_eq, List.append_assoc, parts]
    exact eq_cons_of_head? head
  · exact ⟨rfl, .inl rfl⟩

theorem readUnsigned_spells {limit : ℕ} {negative : Bool} {text rest : Str} {value : JsonValue}
    (read : readUnsigned limit negative text = some (value, rest)) :
    Spells (.value value) ((if negative then [scalar '-'] else []) ++ text) rest := by
  simp only [readUnsigned, Option.bind_eq_bind, Option.bind_eq_some_iff] at read
  obtain ⟨⟨whole, after⟩, readWhole, read⟩ := read
  obtain ⟨rfl, isWhole⟩ := wholePart_eq_some readWhole
  obtain ⟨afterWhole, isFraction⟩ := fractionPart_eq after
  obtain ⟨afterFraction, isExponent⟩ := exponentPart_eq (fractionPart after).2
  have numeral : Numeral (if negative then [scalar '-'] else []) whole (fractionPart after).1
      (exponentPart (fractionPart after).2).1 := by
    refine ⟨?_, isWhole, isFraction, isExponent⟩
    cases negative
    · exact .inl rfl
    · exact .inr rfl
  dsimp only at read
  by_cases plain : (fractionPart after).1.isEmpty ∧ (exponentPart (fractionPart after).2).1.isEmpty
  · rw [if_pos plain] at read
    obtain ⟨noFraction, noExponent⟩ := plain
    rw [List.isEmpty_iff] at noFraction noExponent
    rw [noFraction, noExponent] at numeral
    rw [afterWhole, afterFraction, noFraction, noExponent, List.nil_append, List.nil_append,
      ← List.append_assoc]
    have spells := Spells.int numeral (exponentPart (fractionPart after).2).2
    by_cases short : whole.length ≤ limit
    · rw [if_pos short, Option.some.injEq, Prod.mk.injEq] at read
      obtain ⟨rfl, rfl⟩ := read
      cases negative
      · exact spells
      · exact spells
    · rw [if_neg short] at read
      cases read
  · rw [if_neg plain, Option.some.injEq, Prod.mk.injEq] at read
    obtain ⟨rfl, rfl⟩ := read
    have more : (fractionPart after).1 ++ (exponentPart (fractionPart after).2).1 ≠ [] := by
      rwa [Ne, List.append_eq_nil_iff, ← List.isEmpty_iff, ← List.isEmpty_iff]
    have spells := Spells.float numeral more (exponentPart (fractionPart after).2).2
    simp only [List.append_assoc] at spells ⊢
    rwa [← afterFraction, ← afterWhole] at spells

/-- A number that is read is spelled by what it was read from. -/
theorem readNumber_spells {limit : ℕ} {text rest : Str} {value : JsonValue}
    (read : readNumber limit text = some (value, rest)) : Spells (.value value) text rest := by
  rw [readNumber] at read
  split_ifs at read with sign
  · rw [eq_cons_of_head? sign]
    exact readUnsigned_spells read
  · exact readUnsigned_spells read

/-- A word that is read is one of the words. -/
theorem readWord_eq_some {text rest : Str} {value : JsonValue}
    (read : readWord text = some (value, rest)) :
    ∃ word, (word, value) ∈ words ∧ expect word text = some rest := by
  simp only [readWord, Option.orElse_eq_orElse, Option.orElse_eq_or, Option.or_eq_some_iff,
    Option.map_eq_some_iff, Prod.mk.injEq] at read
  rcases read with ⟨_, found, rfl, rfl⟩ | ⟨-, ⟨_, found, rfl, rfl⟩ | ⟨-, ⟨_, found, rfl, rfl⟩ | ⟨-,
    ⟨_, found, rfl, rfl⟩ | ⟨-, ⟨_, found, rfl, rfl⟩ | ⟨-, ⟨_, found, rfl, rfl⟩⟩⟩⟩⟩⟩
  · exact ⟨"null", .head _, found⟩
  · exact ⟨"true", .tail _ (.head _), found⟩
  · exact ⟨"false", .tail _ (.tail _ (.head _)), found⟩
  · exact ⟨"NaN", .tail _ (.tail _ (.tail _ (.head _))), found⟩
  · exact ⟨"Infinity", .tail _ (.tail _ (.tail _ (.tail _ (.head _)))), found⟩
  · exact ⟨"-Infinity", .tail _ (.tail _ (.tail _ (.tail _ (.tail _ (.head _))))), found⟩

end Numbers

section Marks

/-- The characters that open, close or part values. -/
def isMark (point : CodePoint) : Bool := Str.ofChars "\"[]\x7b\x7d,".toList |>.contains point

theorem isMark_of_isDigit {point : CodePoint} (digit : isDigit point = true) :
    isMark point = false := by
  rw [isMark, List.contains_eq_mem, decide_eq_false_iff_not]
  intro member
  have none : ∀ mark ∈ Str.ofChars "\"[]\x7b\x7d,".toList, isDigit mark = false := by decide
  rw [none point member] at digit
  cases digit

theorem isMark_of_isWhitespace {point : CodePoint} (blank : isWhitespace point = true) :
    isMark point = false := by
  rw [isMark, List.contains_eq_mem, decide_eq_false_iff_not]
  intro member
  have none : ∀ mark ∈ Str.ofChars "\"[]\x7b\x7d,".toList, isWhitespace mark = false := by decide
  rw [none point member] at blank
  cases blank

theorem isMark_of_mem_words {word : String} {value : JsonValue} (listed : (word, value) ∈ words) :
    ∀ point ∈ Str.ofChars word.toList, isMark point = false := by
  have each : ∀ name ∈ words.map Prod.fst,
      ∀ point ∈ Str.ofChars name.toList, isMark point = false := by decide
  exact each word (List.mem_map.mpr ⟨_, listed, rfl⟩)

/-- What holds of digits, signs, points and the marks of an exponent holds all through a number. -/
theorem Numeral.forall_mem {sign whole fraction exponent : Str}
    (numeral : Numeral sign whole fraction exponent) {holds : CodePoint → Prop}
    (digit : ∀ point, isDigit point = true → holds point)
    (other : ∀ point ∈ Str.ofChars "+-.eE".toList, holds point) :
    ∀ point ∈ sign ++ whole ++ fraction ++ exponent, holds point := by
  have digits {text : Str} (all : IsDigits text) : ∀ point ∈ text, holds point :=
    fun point member => digit point (all.2 point member)
  have named {mark : CodePoint} (listed : mark ∈ Str.ofChars "+-.eE".toList) :
      ∀ point ∈ [mark], holds point := List.forall_mem_singleton.mpr (other mark listed)
  rw [List.forall_mem_append, List.forall_mem_append, List.forall_mem_append]
  refine ⟨⟨⟨?_, ?_⟩, ?_⟩, ?_⟩
  · rcases numeral.sign with same | same
    · rw [same]
      exact List.forall_mem_nil _
    · rw [same]
      exact named (by decide)
  · rcases numeral.whole with same | ⟨all, -⟩
    · rw [same]
      exact List.forall_mem_singleton.mpr (digit _ (by decide))
    · exact digits all
  · rcases numeral.fraction with same | ⟨text, all, same⟩
    · rw [same]
      exact List.forall_mem_nil _
    · rw [same, List.forall_mem_cons]
      exact ⟨other _ (by decide), digits all⟩
  · rcases numeral.exponent with same | ⟨mark, sign, text, isMark, isSign, all, same⟩
    · rw [same]
      exact List.forall_mem_nil _
    · rw [same, List.forall_mem_cons, List.forall_mem_append]
      refine ⟨?_, ?_, digits all⟩
      · rcases isMark with rfl | rfl
        · exact other _ (by decide)
        · exact other _ (by decide)
      · rcases isSign with rfl | rfl | rfl
        · exact List.forall_mem_nil _
        · exact named (by decide)
        · exact named (by decide)

/-- No mark stands in a number. -/
theorem Numeral.isMark {sign whole fraction exponent : Str}
    (numeral : Numeral sign whole fraction exponent) :
    ∀ point ∈ sign ++ whole ++ fraction ++ exponent, isMark point = false :=
  numeral.forall_mem (fun _ => isMark_of_isDigit) (by decide)

end Marks

end Verbatus.Python.JsonGrammar
