import Mathlib.Data.List.Lex
import Mathlib.Tactic

namespace Verbatus.Python

/-- One code point of a Python string: a Unicode scalar value, or a lone surrogate. -/
inductive CodePoint where
  | scalar (character : Char)
  | surrogate (offset : Fin 2048)
  deriving DecidableEq, Repr

namespace CodePoint

/-- The number of a code point; the surrogates lie between `0xD800` and `0xDFFF`. -/
def code : CodePoint → ℕ
  | scalar character => character.toNat
  | surrogate offset => 0xD800 + offset

def scalar? : CodePoint → Option Char
  | scalar character => some character
  | surrogate _ => none

def isSurrogate : CodePoint → Bool
  | scalar _ => false
  | surrogate _ => true

/-- The code point of a number below `0x110000`. -/
def ofCode (code : ℕ) : CodePoint :=
  if within : 0xD800 ≤ code ∧ code < 0xE000 then surrogate ⟨code - 0xD800, by omega⟩
  else scalar (Char.ofNat code)

theorem code_scalar_outside (character : Char) :
    ¬ (0xD800 ≤ character.toNat ∧ character.toNat < 0xE000) := by
  have valid : character.toNat < 0xD800 ∨ 0xDFFF < character.toNat ∧ character.toNat < 0x110000 :=
    character.valid
  omega

theorem code_injective : Function.Injective code := by
  intro first second same
  cases first with
  | scalar character =>
      cases second with
      | scalar other => exact congrArg scalar (Char.toNat_inj.mp same)
      | surrogate offset =>
          have outside := code_scalar_outside character
          simp only [code] at same
          omega
  | surrogate offset =>
      cases second with
      | scalar other =>
          have outside := code_scalar_outside other
          simp only [code] at same
          omega
      | surrogate other =>
          simp only [code, Nat.add_left_cancel_iff] at same
          exact congrArg surrogate (Fin.ext same)

/-- Strings are ordered by the numbers of their code points. -/
instance : LinearOrder CodePoint := LinearOrder.lift' code code_injective

theorem ofCode_toNat (character : Char) : ofCode character.toNat = scalar character := by
  rw [ofCode, dif_neg (code_scalar_outside character), Char.ofNat_toNat]

end CodePoint

open CodePoint

/-- A Python string. -/
abbrev Str := List CodePoint

instance lawfulBEqStr : LawfulBEq Str := inferInstance

namespace Str

/-- The string a text without surrogates stands for. -/
def ofChars (characters : List Char) : Str := characters.map scalar

/-- A string has a UTF-8 form when no code point of it is a surrogate. -/
def Encodable (text : Str) : Prop := ∀ point ∈ text, point.isSurrogate = false

instance (text : Str) : Decidable text.Encodable := inferInstanceAs (Decidable (∀ _ ∈ _, _))

/-- `text.encode("utf-8")`, which raises on a surrogate. -/
def encode (text : Str) : Option ByteArray :=
  (text.mapM scalar?).map fun characters => (String.ofList characters).toUTF8

/-- `data.decode("utf-8")` -/
def decode (data : ByteArray) : Option Str :=
  (String.fromUTF8? data).map fun text => ofChars text.toList

@[simp] theorem encodable_nil : Encodable [] := by simp [Encodable]

@[simp] theorem encodable_cons {point : CodePoint} {text : Str} :
    Encodable (point :: text) ↔ point.isSurrogate = false ∧ Encodable text :=
  List.forall_mem_cons

@[simp] theorem encodable_append {first second : Str} :
    Encodable (first ++ second) ↔ Encodable first ∧ Encodable second :=
  List.forall_mem_append

theorem encodable_ofChars (characters : List Char) : Encodable (ofChars characters) := by
  simp [Encodable, ofChars, isSurrogate]

theorem Encodable.eq_ofChars {text : Str} (encodable : text.Encodable) :
    ∃ characters, text = ofChars characters := by
  induction text with
  | nil => exact ⟨[], rfl⟩
  | cons point text ih =>
      obtain ⟨first, rest⟩ := encodable_cons.mp encodable
      obtain ⟨characters, same⟩ := ih rest
      cases point with
      | scalar character => exact ⟨character :: characters, by rw [same]; rfl⟩
      | surrogate offset => simp [isSurrogate] at first

theorem mapM_scalar?_ofChars (characters : List Char) :
    (ofChars characters).mapM scalar? = some characters := by
  induction characters with
  | nil => rfl
  | cons character characters ih =>
      rw [ofChars, List.map_cons, List.mapM_cons, ← ofChars, ih]
      rfl

theorem encode_ofChars (characters : List Char) :
    encode (ofChars characters) = some (String.ofList characters).toUTF8 := by
  rw [encode, mapM_scalar?_ofChars, Option.map_some]

theorem eq_ofChars_of_mapM {text : Str} {characters : List Char}
    (form : text.mapM scalar? = some characters) : text = ofChars characters := by
  induction text generalizing characters with
  | nil =>
      rw [List.mapM_nil] at form
      cases form
      rfl
  | cons point text ih =>
      rw [List.mapM_cons, Option.bind_eq_bind, Option.bind_eq_some_iff] at form
      obtain ⟨character, scalar, form⟩ := form
      rw [Option.bind_eq_bind, Option.bind_eq_some_iff] at form
      obtain ⟨rest, form, same⟩ := form
      cases same
      cases point with
      | scalar other =>
          cases scalar
          rw [ih form]
          rfl
      | surrogate offset => cases scalar

theorem encode_eq_none {text : Str} : text.encode = none ↔ ¬ text.Encodable := by
  constructor
  · intro none encodable
    obtain ⟨characters, rfl⟩ := encodable.eq_ofChars
    rw [encode_ofChars] at none
    cases none
  · intro bad
    cases form : text.mapM scalar? with
    | none => rw [encode, form, Option.map_none]
    | some characters =>
        rw [eq_ofChars_of_mapM form] at bad
        exact absurd (encodable_ofChars characters) bad

/-- What a string encodes to decodes to it. -/
theorem decode_of_encode {text : Str} {data : ByteArray} (encoded : text.encode = some data) :
    decode data = some text := by
  have encodable : text.Encodable := by
    by_contra bad
    rw [encode_eq_none.mpr bad] at encoded
    cases encoded
  obtain ⟨characters, rfl⟩ := encodable.eq_ofChars
  rw [encode_ofChars, Option.some.injEq] at encoded
  subst encoded
  have valid : (String.ofList characters).toUTF8.IsValidUTF8 := (String.ofList characters).2
  rw [decode, String.fromUTF8?, dif_pos valid, Option.map_some]
  change some (ofChars (String.ofList characters).toList) = _
  rw [String.toList_ofList]

end Str

end Verbatus.Python
