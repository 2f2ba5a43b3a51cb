import Verbatus.Library.Checked
import Verbatus.PageReading.Decode

namespace Verbatus.PageReading

open Library Library.Checked Python Python.CodePoint Python.JsonGrammar

/-- One value itself is admitted: no constant that is no number, and no key of an object twice. -/
def Admitted : JsonValue → Prop
  | .float printed => printed ∉ ["nan", "inf", "-inf"].map Str.ofString
  | .object fields => (fields.map Prod.fst).Nodup
  | _ => True

section Reading

@[simp] theorem orNotJson_eq_ok {α : Type} {read : Option α} {found : α} :
    orNotJson read = .ok found ↔ read = some found := by
  cases read <;> simp [orNotJson]

theorem refuseDuplicates_eq_ok {pairs : List (Str × JsonValue)} {value : JsonValue} :
    refuseDuplicates pairs = .ok value ↔ (pairs.map Prod.fst).Nodup ∧ value = .object pairs := by
  have distinct : sortedSet ((pairs.map Prod.fst).filter fun key =>
      1 < (pairs.map Prod.fst).count key) = [] ↔ (pairs.map Prod.fst).Nodup := by
    rw [sortedSet_eq_nil, List.filter_eq_nil_iff, List.nodup_iff_count_le_one]
    constructor
    · intro few key
      by_cases member : key ∈ pairs.map Prod.fst
      · have := few key member
        rwa [decide_eq_true_eq, not_lt] at this
      · rw [List.count_eq_zero_of_not_mem member]
        exact Nat.zero_le 1
    · intro few key _
      rw [decide_eq_true_eq, not_lt]
      exact few key
  dsimp only [refuseDuplicates]
  split_ifs with none
  · simp [distinct.mp none, eq_comm]
  · simp [mt distinct.mpr none]

theorem mem_words_isJson {word : String} {value : JsonValue} (listed : (word, value) ∈ words)
    (other : word ∉ ["NaN", "Infinity", "-Infinity"]) : Admitted value ∧ value.parts = [value] := by
  simp only [words, List.mem_cons, Prod.mk.injEq, List.not_mem_nil, or_false] at listed
  rcases listed with ⟨rfl, rfl⟩ | ⟨rfl, rfl⟩ | ⟨rfl, rfl⟩ | ⟨rfl, rfl⟩ | ⟨rfl, rfl⟩ | ⟨rfl, rfl⟩
  · exact ⟨trivial, rfl⟩
  · exact ⟨trivial, rfl⟩
  · exact ⟨trivial, rfl⟩
  · exact absurd (.head _) other
  · exact absurd (.tail _ (.head _)) other
  · exact absurd (.tail _ (.tail _ (.head _))) other

/-- A text with a digit in it is none of the constants. -/
theorem admitted_float {printed : Str} {digit : CodePoint} (member : digit ∈ printed)
    (isDigit : Python.isDigit digit = true) : Admitted (.float printed) := by
  intro constant
  have none : ∀ printed ∈ ["nan", "inf", "-inf"].map Str.ofString,
      ∀ point ∈ printed, Python.isDigit point = false := by decide
  rw [none printed constant digit member] at isDigit
  cases isDigit

theorem exists_digit_wholePart {text whole rest : Str}
    (read : wholePart text = some (whole, rest)) : ∃ digit ∈ whole, isDigit digit = true := by
  obtain ⟨-, rfl | ⟨⟨nonempty, each⟩, -⟩⟩ := wholePart_eq_some read
  · exact ⟨scalar '0', .head _, by decide⟩
  · obtain ⟨digit, others, rfl⟩ := List.exists_cons_of_ne_nil nonempty
    exact ⟨digit, .head _, each digit (.head _)⟩

theorem readUnsigned_admitted {limit : ℕ} {negative : Bool} {text rest : Str} {value : JsonValue}
    (read : readUnsigned limit negative text = some (value, rest)) :
    Admitted value ∧ value.parts = [value] := by
  simp only [readUnsigned, Option.bind_eq_bind, Option.bind_eq_some_iff] at read
  obtain ⟨⟨whole, after⟩, readWhole, read⟩ := read
  obtain ⟨digit, member, isDigit⟩ := exists_digit_wholePart readWhole
  dsimp only at read
  split at read
  · split at read
    · rw [Option.some.injEq, Prod.mk.injEq] at read
      obtain ⟨rfl, -⟩ := read
      exact ⟨trivial, rfl⟩
    · cases read
  · rw [Option.some.injEq, Prod.mk.injEq] at read
    obtain ⟨rfl, -⟩ := read
    refine ⟨admitted_float ?_ isDigit, rfl⟩
    simp [member]

theorem readNumber_admitted {limit : ℕ} {text rest : Str} {value : JsonValue}
    (read : readNumber limit text = some (value, rest)) :
    Admitted value ∧ value.parts = [value] := by
  rw [readNumber] at read
  split_ifs at read
  · exact readUnsigned_admitted read
  · exact readUnsigned_admitted read

theorem decodeScalar_spells {limit : ℕ} {text rest : Str} {value : JsonValue}
    (read : decodeScalar limit text = .ok (value, rest)) :
    Spells (.value value) text rest ∧ ∀ part ∈ value.parts, Admitted part := by
  rw [decodeScalar] at read
  split_ifs at read with constant
  rw [orNotJson_eq_ok, Option.orElse_eq_orElse, Option.orElse_eq_or, Option.or_eq_some_iff] at read
  have alone {value : JsonValue} (kept : Admitted value ∧ value.parts = [value]) :
      ∀ part ∈ value.parts, Admitted part := by
    obtain ⟨admitted, single⟩ := kept
    rw [single, List.forall_mem_singleton]
    exact admitted
  rcases read with word | ⟨-, number⟩
  · obtain ⟨name, listed, found⟩ := readWord_eq_some word
    have other : name ∉ ["NaN", "Infinity", "-Infinity"] := by
      intro member
      exact constant (List.any_eq_true.mpr ⟨name, member, by rw [found]; rfl⟩)
    rw [expect_eq_some found]
    exact ⟨.word listed rest, alone (mem_words_isJson listed other)⟩
  · exact ⟨readNumber_spells number, alone (readNumber_admitted number)⟩

/-- What the reader finds, the front of the text spells, and every part of it is admitted. -/
theorem decode_spells (limit fuel : ℕ) :
    (∀ text value rest, decodeValue limit fuel text = .ok (value, rest) →
      Spells (.value value) text rest ∧ ∀ part ∈ value.parts, Admitted part) ∧
    (∀ text items rest, decodeItems limit fuel text = .ok (items, rest) →
      Spells (.items items) text rest ∧ ∀ item ∈ items, ∀ part ∈ item.parts, Admitted part) ∧
    ∀ text fields rest, decodeFields limit fuel text = .ok (fields, rest) →
      Spells (.fields fields) text rest ∧
        ∀ field ∈ fields, ∀ part ∈ field.2.parts, Admitted part := by
  induction fuel with
  | zero => exact ⟨nofun, nofun, nofun⟩
  | succ fuel ih =>
      obtain ⟨values, items, fields⟩ := ih
      refine ⟨?_, ?_, ?_⟩
      · intro text value rest read
        cases text with
        | nil => cases read
        | cons first text =>
            rw [decodeValue] at read
            split_ifs at read with quote bracket brace
            · simp only [bind_eq_ok, orNotJson_eq_ok, pure_eq_ok, Prod.mk.injEq] at read
              obtain ⟨⟨content, after⟩, string, rfl, rfl⟩ := read
              rw [quote]
              refine ⟨.str (readString_spells string), ?_⟩
              simp [JsonValue.parts, Admitted]
            · split at read
              · next after closed =>
                  rw [Except.ok.injEq, Prod.mk.injEq] at read
                  obtain ⟨rfl, rfl⟩ := read
                  rw [bracket]
                  refine ⟨.emptyList (expectMark_eq_some closed ▸ space_skipSpace text), ?_⟩
                  simp [JsonValue.parts, Admitted]
              · simp only [bind_eq_ok, pure_eq_ok, Prod.mk.injEq] at read
                obtain ⟨⟨found, after⟩, inside, rfl, rfl⟩ := read
                obtain ⟨spells, admitted⟩ := items _ _ _ inside
                rw [bracket]
                refine ⟨.list (space_skipSpace text) spells, ?_⟩
                rw [JsonValue.parts, JsonValue.itemParts_eq, List.forall_mem_cons]
                refine ⟨trivial, fun part member => ?_⟩
                obtain ⟨item, listed, here⟩ := List.mem_flatMap.mp member
                exact admitted item listed part here
            · split at read
              · next after closed =>
                  simp only [bind_eq_ok, refuseDuplicates_eq_ok, pure_eq_ok, Prod.mk.injEq] at read
                  obtain ⟨_, ⟨-, rfl⟩, rfl, rfl⟩ := read
                  rw [brace]
                  refine ⟨.emptyObject (expectMark_eq_some closed ▸ space_skipSpace text), ?_⟩
                  simp [JsonValue.parts, Admitted]
              · simp only [bind_eq_ok, refuseDuplicates_eq_ok, pure_eq_ok, Prod.mk.injEq] at read
                obtain ⟨⟨found, after⟩, inside, _, ⟨distinct, rfl⟩, rfl, rfl⟩ := read
                obtain ⟨spells, admitted⟩ := fields _ _ _ inside
                rw [brace]
                refine ⟨.object (space_skipSpace text) spells, ?_⟩
                rw [JsonValue.parts, JsonValue.fieldParts_eq, List.forall_mem_cons]
                refine ⟨distinct, fun part member => ?_⟩
                obtain ⟨field, listed, here⟩ := List.mem_flatMap.mp member
                exact admitted field listed part here
            · exact decodeScalar_spells read
      · intro text found rest read
        rw [decodeItems, bind_eq_ok] at read
        obtain ⟨⟨item, after⟩, readItem, read⟩ := read
        obtain ⟨spells, admitted⟩ := values _ _ _ readItem
        dsimp only at read
        split at read
        · next others closed =>
            rw [pure_eq_ok, Prod.mk.injEq] at read
            obtain ⟨rfl, rfl⟩ := read
            exact ⟨.lastItem spells (expectMark_eq_some closed ▸ space_skipSpace after),
              List.forall_mem_singleton.mpr admitted⟩
        · simp only [bind_eq_ok, orNotJson_eq_ok, pure_eq_ok, Prod.mk.injEq] at read
          obtain ⟨more, comma, ⟨later, others⟩, readLater, rfl, rfl⟩ := read
          obtain ⟨spellsLater, admittedLater⟩ := items _ _ _ readLater
          exact ⟨.item spells (expectMark_eq_some comma ▸ space_skipSpace after)
            (space_skipSpace more) spellsLater, List.forall_mem_cons.mpr ⟨admitted, admittedLater⟩⟩
      · intro text found rest read
        simp only [decodeFields, bind_eq_ok, orNotJson_eq_ok] at read
        obtain ⟨source, quote, ⟨key, afterKey⟩, readKey, value, colon, ⟨item, after⟩, readItem,
          read⟩ := read
        obtain ⟨spells, admitted⟩ := values _ _ _ readItem
        have named := readString_spells readKey
        have before := space_skipSpace afterKey
        dsimp only at colon read
        rw [expectMark_eq_some colon] at before
        rw [expectMark_eq_some quote]
        split at read
        · next others closed =>
            rw [pure_eq_ok, Prod.mk.injEq] at read
            obtain ⟨rfl, rfl⟩ := read
            exact ⟨.lastField named before (space_skipSpace value) spells
              (expectMark_eq_some closed ▸ space_skipSpace after),
              List.forall_mem_singleton.mpr admitted⟩
        · simp only [bind_eq_ok, orNotJson_eq_ok, pure_eq_ok, Prod.mk.injEq] at read
          obtain ⟨more, comma, ⟨later, others⟩, readLater, rfl, rfl⟩ := read
          obtain ⟨spellsLater, admittedLater⟩ := fields _ _ _ readLater
          exact ⟨.field named before (space_skipSpace value) spells
            (expectMark_eq_some comma ▸ space_skipSpace after) (space_skipSpace more) spellsLater,
            List.forall_mem_cons.mpr ⟨admitted, admittedLater⟩⟩

section Fuel

theorem skipSpace_length_le (text : Str) : (skipSpace text).length ≤ text.length :=
  (space_skipSpace text).length_le

theorem expectMark_length {mark : Char} {text rest : Str}
    (found : expectMark mark text = some rest) : rest.length < text.length := by
  rw [expectMark_eq_some found]
  exact Nat.lt_succ_self _

theorem bind_congr_ok {ε α β : Type} {first : Except ε α} {next other : α → Except ε β}
    (same : ∀ value, first = .ok value → next value = other value) :
    first >>= next = first >>= other := by
  cases first with
  | error error => rfl
  | ok value => exact same value rfl

/-- One turn more than twice the length of a text reads nothing else in it. -/
theorem decode_fuel (limit fuel : ℕ) :
    (∀ text : Str, 2 * text.length < fuel →
      decodeValue limit (fuel + 1) text = decodeValue limit fuel text) ∧
    (∀ text : Str, 2 * text.length + 1 < fuel →
      decodeItems limit (fuel + 1) text = decodeItems limit fuel text) ∧
    ∀ text : Str, 2 * text.length + 1 < fuel →
      decodeFields limit (fuel + 1) text = decodeFields limit fuel text := by
  induction fuel with
  | zero => exact ⟨nofun, nofun, nofun⟩
  | succ fuel ih =>
      obtain ⟨values, items, fields⟩ := ih
      refine ⟨?_, ?_, ?_⟩
      · intro text enough
        cases text with
        | nil => rfl
        | cons first text =>
            rw [List.length_cons] at enough
            have shorter := skipSpace_length_le text
            rw [decodeValue, decodeValue, items _ (by omega), fields _ (by omega)]
      · intro text enough
        rw [decodeItems, decodeItems, values text (by omega)]
        refine bind_congr_ok fun read found => ?_
        have later := ((decode_spells limit fuel).1 _ _ _ found).1.length_lt
        dsimp only
        split
        · rfl
        · refine bind_congr_ok fun rest comma => ?_
          have gap := skipSpace_length_le read.2
          have more := expectMark_length (orNotJson_eq_ok.mp comma)
          have shorter := skipSpace_length_le rest
          rw [items _ (by omega)]
      · intro text enough
        rw [decodeFields, decodeFields]
        refine bind_congr_ok fun source quote => ?_
        refine bind_congr_ok fun key readKey => ?_
        refine bind_congr_ok fun value colon => ?_
        have begins := expectMark_length (orNotJson_eq_ok.mp quote)
        have named := (readString_spells (orNotJson_eq_ok.mp readKey)).length_lt
        have afterKey := skipSpace_length_le key.2
        have before := expectMark_length (orNotJson_eq_ok.mp colon)
        have start := skipSpace_length_le value
        rw [values _ (by omega)]
        refine bind_congr_ok fun read found => ?_
        have later := ((decode_spells limit fuel).1 _ _ _ found).1.length_lt
        dsimp only
        split
        · rfl
        · refine bind_congr_ok fun rest comma => ?_
          have gap := skipSpace_length_le read.2
          have more := expectMark_length (orNotJson_eq_ok.mp comma)
          have shorter := skipSpace_length_le rest
          rw [fields _ (by omega)]

/-- Fuel for twice the length of a text reads all of it. -/
theorem decodeValue_fuel (limit : ℕ) (text : Str) {fuel : ℕ} (enough : 2 * text.length < fuel) :
    decodeValue limit fuel text = decodeValue limit (2 * text.length + 1) text := by
  induction fuel, enough using Nat.le_induction with
  | base => rfl
  | succ fuel enough ih => rw [(decode_fuel limit fuel).1 text enough, ih]

end Fuel

end Reading

section Strings

/-- A stretch of a string that leaves the scanner inside it, past no backslash. -/
def Inside : Bool → Str → Prop
  | false, [] => True
  | true, [] => False
  | true, _ :: text => Inside false text
  | false, point :: text =>
    if point = scalar '\\' then Inside true text else point ≠ scalar '"' ∧ Inside false text

theorem inside_cons {point : CodePoint} {text : Str} (quote : point ≠ scalar '"')
    (slash : point ≠ scalar '\\') : Inside false (point :: text) ↔ Inside false text := by
  rw [Inside, if_neg slash]
  exact and_iff_right quote

theorem inside_hexUnit {a b c d : CodePoint} {unit : ℕ} {text : Str}
    (read : hexUnit [a, b, c, d] = some (unit, [])) :
    Inside false (a :: b :: c :: d :: text) ↔ Inside false text := by
  have plain {point : CodePoint} {value : ℕ} (digit : hexValue point = some value) :
      point ≠ scalar '"' ∧ point ≠ scalar '\\' := by
    constructor
    · rintro rfl
      cases digit
    · rintro rfl
      cases digit
  simp only [hexUnit, Option.bind_eq_bind, Option.bind_eq_some_iff] at read
  obtain ⟨_, first, _, second, _, third, _, fourth, -⟩ := read
  rw [inside_cons (plain first).1 (plain first).2, inside_cons (plain second).1 (plain second).2,
    inside_cons (plain third).1 (plain third).2, inside_cons (plain fourth).1 (plain fourth).2]

theorem inside_append {point : CodePoint} {spelled : Str} (spells : SpellsPoint point spelled)
    (text : Str) : Inside false (spelled ++ text) ↔ Inside false text := by
  have unit : scalar 'u' ≠ scalar '\\' := by decide
  cases spells with
  | plain quote slash _ => exact inside_cons quote slash
  | mark _ => simp [Inside]
  | unit read => simpa [Inside] using inside_hexUnit read
  | pair readHigh readLow _ _ =>
      simp only [List.cons_append, List.nil_append]
      rw [Inside, if_pos rfl, Inside, inside_hexUnit readHigh, Inside, if_pos rfl, Inside,
        inside_hexUnit readLow]

/-- A string is a stretch inside it and the closing quote. -/
theorem exists_inside {content source rest : Str} (spells : SpellsText content source rest) :
    ∃ body, source = body ++ scalar '"' :: rest ∧ Inside false body := by
  induction spells with
  | close rest => exact ⟨[], rfl, trivial⟩
  | point first _ ih =>
      obtain ⟨body, rfl, inside⟩ := ih
      exact ⟨_ ++ body, (List.append_assoc _ _ _).symm, (inside_append first body).mpr inside⟩

end Strings

section Nesting

theorem Nesting.step_inside (depth deepest : ℤ) (escaped : Bool) (point : CodePoint) :
    Nesting.step ⟨depth, deepest, .inside escaped⟩ point =
      ⟨depth, deepest, (Lexical.inside escaped).step point⟩ := by
  rw [Nesting.step, if_neg (by simp), if_neg (by simp)]

theorem Nesting.step_quiet (depth deepest : ℤ) {point : CodePoint}
    (quiet : isMark point = false) :
    Nesting.step ⟨depth, deepest, .outside⟩ point = ⟨depth, deepest, .outside⟩ := by
  have other {mark : CodePoint} (isMark' : isMark mark = true) : point ≠ mark := by
    rintro rfl
    rw [quiet] at isMark'
    cases isMark'
  rw [Nesting.step, if_neg, if_neg]
  · rw [Lexical.step, if_neg (other (by decide))]
  · rintro ⟨-, close | close⟩
    · exact other (by decide) close
    · exact other (by decide) close
  · rintro ⟨-, opens | opens⟩
    · exact other (by decide) opens
    · exact other (by decide) opens

theorem foldl_quiet {text : Str} (quiet : ∀ point ∈ text, isMark point = false)
    (depth deepest : ℤ) (rest : Str) :
    (text ++ rest).foldl Nesting.step ⟨depth, deepest, .outside⟩ =
      rest.foldl Nesting.step ⟨depth, deepest, .outside⟩ := by
  induction text with
  | nil => rfl
  | cons point text ih =>
      obtain ⟨first, others⟩ := List.forall_mem_cons.mp quiet
      rw [List.cons_append, List.foldl_cons, Nesting.step_quiet depth deepest first]
      exact ih others

theorem foldl_space {text rest : Str} (space : Space text rest) (depth deepest : ℤ) :
    text.foldl Nesting.step ⟨depth, deepest, .outside⟩ =
      rest.foldl Nesting.step ⟨depth, deepest, .outside⟩ := by
  induction space with
  | nil => rfl
  | cons blank _ ih =>
      rw [List.foldl_cons, Nesting.step_quiet depth deepest (isMark_of_isWhitespace blank)]
      exact ih

theorem foldl_inside {escaped : Bool} {body : Str} (inside : Inside escaped body)
    (depth deepest : ℤ) : body.foldl Nesting.step ⟨depth, deepest, .inside escaped⟩ =
      ⟨depth, deepest, .inside false⟩ := by
  induction body generalizing escaped with
  | nil =>
      cases escaped with
      | false => rfl
      | true => exact inside.elim
  | cons point body ih =>
      rw [List.foldl_cons, Nesting.step_inside]
      cases escaped with
      | true => exact ih inside
      | false =>
          rw [Inside] at inside
          rw [Lexical.step]
          split_ifs at inside ⊢ with slash quote
          · exact ih inside
          · exact absurd quote inside.1
          · exact ih inside.2

theorem foldl_string {content source rest : Str} (spells : SpellsText content source rest)
    (depth deepest : ℤ) : source.foldl Nesting.step ⟨depth, deepest, .inside false⟩ =
      rest.foldl Nesting.step ⟨depth, deepest, .outside⟩ := by
  obtain ⟨body, rfl, inside⟩ := exists_inside spells
  rw [List.foldl_append, foldl_inside inside, List.foldl_cons, Nesting.step_inside]
  rfl

theorem step_opens {mark : CodePoint} (opens : mark = scalar '[' ∨ mark = scalar '\x7b')
    (depth deepest : ℤ) : Nesting.step ⟨depth, deepest, .outside⟩ mark =
      ⟨depth + 1, max deepest (depth + 1), .outside⟩ := by
  rw [Nesting.step, if_pos ⟨rfl, opens⟩]
  rcases opens with rfl | rfl <;> rfl

theorem step_closes {mark : CodePoint} (closes : mark = scalar ']' ∨ mark = scalar '\x7d')
    (depth deepest : ℤ) : Nesting.step ⟨depth, deepest, .outside⟩ mark =
      ⟨depth - 1, deepest, .outside⟩ := by
  rcases closes with rfl | rfl <;> rfl

/-- A comma or a colon, and the white space after it. -/
theorem foldl_comma {mark : CodePoint} (isMark : mark = scalar ',' ∨ mark = scalar ':')
    {text rest : Str} (space : Space text rest) (depth deepest : ℤ) :
    (mark :: text).foldl Nesting.step ⟨depth, deepest, .outside⟩ =
      rest.foldl Nesting.step ⟨depth, deepest, .outside⟩ := by
  rw [List.foldl_cons]
  rcases isMark with rfl | rfl
  · exact foldl_space space depth deepest
  · exact foldl_space space depth deepest

theorem foldl_key {key text colon value start : Str} (named : SpellsText key text colon)
    (before : Space colon (scalar ':' :: value)) (between : Space value start)
    (depth deepest : ℤ) :
    (scalar '"' :: text).foldl Nesting.step ⟨depth, deepest, .outside⟩ =
      start.foldl Nesting.step ⟨depth, deepest, .outside⟩ := by
  rw [List.foldl_cons]
  change text.foldl Nesting.step ⟨depth, deepest, .inside false⟩ = _
  rw [foldl_string named, foldl_space before, foldl_comma (.inr rfl) between]

/-- The brackets a phrase closes that it did not open. -/
def closes : Phrase → ℤ
  | .value _ => 0
  | .items _ | .fields _ => 1

/-- The count of brackets over a phrase rises by the depth of it. -/
theorem foldl_spells {phrase : Phrase} {text rest : Str} (spells : Spells phrase text rest)
    {depth deepest : ℤ} (reached : depth ≤ deepest) :
    text.foldl Nesting.step ⟨depth, deepest, .outside⟩ =
      rest.foldl Nesting.step
        ⟨depth - closes phrase, max deepest (depth + phrase.depth), .outside⟩ := by
  induction spells generalizing depth deepest with
  | @word word value listed rest =>
      have scalar : JsonGrammar.depth value = 0 := by
        have each : ∀ entry ∈ words, JsonGrammar.depth entry.2 = 0 := by
          simp [words, JsonGrammar.depth]
        exact each _ listed
      rw [foldl_quiet (isMark_of_mem_words listed), closes, Phrase.depth, scalar, sub_zero,
        Nat.cast_zero, add_zero, max_eq_left reached]
  | int numeral rest =>
      have quiet := numeral.isMark
      rw [List.append_nil, List.append_nil] at quiet
      rw [foldl_quiet quiet, closes, Phrase.depth, JsonGrammar.depth, sub_zero, Nat.cast_zero,
        add_zero, max_eq_left reached]
      all_goals nofun
  | float numeral _ rest =>
      rw [foldl_quiet numeral.isMark, closes, Phrase.depth, JsonGrammar.depth, sub_zero,
        Nat.cast_zero, add_zero, max_eq_left reached]
      all_goals nofun
  | str spelled =>
      rw [List.foldl_cons]
      change List.foldl Nesting.step ⟨depth, deepest, .inside false⟩ _ = _
      rw [foldl_string spelled, closes, Phrase.depth, JsonGrammar.depth, sub_zero, Nat.cast_zero,
        add_zero, max_eq_left reached]
      all_goals nofun
  | emptyList space =>
      rw [List.foldl_cons, step_opens (.inl rfl), foldl_space space, List.foldl_cons,
        step_closes (.inl rfl), closes, Phrase.depth, JsonGrammar.depth, JsonGrammar.depth.itemsDepth]
      simp
  | list space _ ih =>
      rw [List.foldl_cons, step_opens (.inl rfl), foldl_space space, ih (le_max_right _ _)]
      congr 2
      · simp only [closes]
        omega
      · simp only [Phrase.depth, JsonGrammar.depth]
        omega
  | emptyObject space =>
      rw [List.foldl_cons, step_opens (.inr rfl), foldl_space space, List.foldl_cons,
        step_closes (.inr rfl), closes, Phrase.depth, JsonGrammar.depth, JsonGrammar.depth.fieldsDepth]
      simp
  | object space _ ih =>
      rw [List.foldl_cons, step_opens (.inr rfl), foldl_space space, ih (le_max_right _ _)]
      congr 2
      · simp only [closes]
        omega
      · simp only [Phrase.depth, JsonGrammar.depth]
        omega
  | lastItem _ space ih =>
      rw [ih reached, foldl_space space, List.foldl_cons, step_closes (.inl rfl)]
      congr 2
      · simp [closes]
      · simp [Phrase.depth, JsonGrammar.depth.itemsDepth]
  | item _ space gap _ first later =>
      rw [first reached, foldl_space space, foldl_comma (.inl rfl) gap, later]
      · congr 2
        · simp [closes]
        · simp only [closes, Phrase.depth, JsonGrammar.depth.itemsDepth]
          omega
      · simp only [closes]
        omega
  | lastField named before between _ space ih =>
      rw [foldl_key named before between, ih reached, foldl_space space, List.foldl_cons,
        step_closes (.inr rfl)]
      congr 2
      · simp [closes]
      · simp [Phrase.depth, JsonGrammar.depth.fieldsDepth]
  | field named before between _ space gap _ first later =>
      rw [foldl_key named before between, first reached, foldl_space space,
        foldl_comma (.inl rfl) gap, later]
      · congr 2
        · simp [closes]
        · simp only [closes, Phrase.depth, JsonGrammar.depth.fieldsDepth]
          omega
      · simp only [closes]
        omega

/-- The brackets counted in a text are those of the value it spells. -/
theorem nestingDepth_spells {value : JsonValue} {text : Str}
    (spells : Spells (.value value) text []) : nestingDepth text = JsonGrammar.depth value := by
  rw [nestingDepth, foldl_spells spells le_rfl, List.foldl_nil, Phrase.depth]
  dsimp only
  omega

end Nesting

section Surrogates

variable {decoder : Decoder}

theorem loneSurrogate_inItems {label : String} {items : List JsonValue} {index : ℕ}
    (none : loneSurrogate.inItems decoder label index items = none) :
    ∀ item ∈ items, ∃ label, loneSurrogate decoder label item = Option.none := by
  induction items generalizing index with
  | nil => exact List.forall_mem_nil _
  | cons item items ih =>
      rw [loneSurrogate.inItems, Option.orElse_eq_orElse, Option.orElse_eq_or,
        Option.or_eq_none_iff] at none
      exact List.forall_mem_cons.mpr ⟨⟨_, none.1⟩, ih none.2⟩

theorem loneSurrogate_inFields {label : String} {fields : List (Str × JsonValue)}
    (none : loneSurrogate.inFields decoder label fields = none) :
    ∀ field ∈ fields, ∃ label, loneSurrogate decoder label field.2 = Option.none := by
  induction fields with
  | nil => exact List.forall_mem_nil _
  | cons field fields ih =>
      rw [loneSurrogate.inFields, Option.orElse_eq_orElse, Option.orElse_eq_or,
        Option.or_eq_none_iff] at none
      exact List.forall_mem_cons.mpr ⟨⟨_, none.1⟩, ih none.2⟩

/-- A value no lone surrogate is found in has a UTF-8 form for every text in it. -/
theorem textual_of_loneSurrogate (value : JsonValue) : ∀ label,
    loneSurrogate decoder label value = none → ∀ part ∈ value.parts, part.Textual := by
  induction value using JsonValue.induct with
  | null | bool | int | float =>
      intro label _
      simp [JsonValue.parts, JsonValue.Textual]
  | str text =>
      intro label none
      rw [loneSurrogate] at none
      split_ifs at none with encodable
      simpa [JsonValue.parts, JsonValue.Textual] using encodable
  | list items ih =>
      intro label none
      rw [loneSurrogate] at none
      rw [JsonValue.parts, JsonValue.itemParts_eq, List.forall_mem_cons]
      refine ⟨trivial, fun part member => ?_⟩
      obtain ⟨item, listed, here⟩ := List.mem_flatMap.mp member
      obtain ⟨inner, clean⟩ := loneSurrogate_inItems none item listed
      exact ih item listed inner clean part here
  | object fields ih =>
      intro label none
      rw [loneSurrogate] at none
      split_ifs at none with keys
      rw [JsonValue.parts, JsonValue.fieldParts_eq, List.forall_mem_cons]
      refine ⟨keys, fun part member => ?_⟩
      obtain ⟨field, listed, here⟩ := List.mem_flatMap.mp member
      obtain ⟨inner, clean⟩ := loneSurrogate_inFields none field listed
      exact ih field listed inner clean part here

end Surrogates

/-- A text stands between the white space it was stripped of. -/
theorem stripSpace_spec (body : Str) : ∃ before after, body = before ++ stripSpace body ++ after ∧
    (∀ point ∈ before, isWhitespace point = true) ∧ ∀ point ∈ after, isWhitespace point = true := by
  refine ⟨body.takeWhile isWhitespace,
    ((body.dropWhile isWhitespace).reverse.takeWhile isWhitespace).reverse, ?_, ?_, ?_⟩
  · rw [stripSpace, List.append_assoc, ← List.reverse_append, List.takeWhile_append_dropWhile,
      List.reverse_reverse, List.takeWhile_append_dropWhile]
  · exact fun point member => List.mem_takeWhile_imp member
  · exact fun point member => List.mem_takeWhile_imp (List.mem_reverse.mp member)

/-- What the decoder finds no problem in: one value with nothing around it but white space, every
part of it admitted, every text in it encodable, and nested no deeper than admitted. -/
structure Sound (value : JsonValue) (text : Str) : Prop where
  isValue : IsValue value text
  admitted : ∀ part ∈ value.parts, Admitted part
  textual : ∀ part ∈ value.parts, part.Textual
  depth : JsonGrammar.depth value ≤ maxNestingDepth

theorem decode_sound {decoder : Decoder} {body : Str} {value : JsonValue}
    (decoded : decode decoder body = .ok value) : Sound value body := by
  dsimp only [decode] at decoded
  split_ifs at decoded with deep
  rw [not_lt] at deep
  split at decoded
  · cases decoded
  · cases decoded
  · next found rest read =>
      split_ifs at decoded with more
      split at decoded
      · cases decoded
      · next none =>
          rw [Except.ok.injEq] at decoded
          subst decoded
          rw [not_not] at more
          subst more
          obtain ⟨spells, admitted⟩ := (decode_spells _ _).1 _ _ _ read
          obtain ⟨before, after, parts, blank, blank'⟩ := stripSpace_spec body
          rw [nestingDepth_spells spells] at deep
          refine ⟨⟨stripSpace body ++ after, after, ?_, ?_, ?_⟩, admitted,
            textual_of_loneSurrogate found _ none, deep⟩
          · have space := space_of_forall blank (stripSpace body ++ after)
            rwa [← List.append_assoc, ← parts] at space
          · exact spells.append after
          · have space := space_of_forall blank' []
            rwa [List.append_nil] at space

end Verbatus.PageReading
