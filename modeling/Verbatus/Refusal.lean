import Mathlib.Tactic

namespace Verbatus

/-- The exceptions the modelled code raises, each with its message. -/
inductive Refusal where
  | contractError (message : String)
  | schemaRefusal (message : String)
  | identityRefusal (message : String)
  | incompatibleReuse (message : String)
  | approvalRefusal (message : String)
  | fatalAccounting (message : String)
  | backgroundInferenceRefusal (message : String)
  | valueError (message : String)
  | indexError (message : String)
  | typeError (message : String)
  | arithmeticError (message : String)
  | leaseOwnership (message : String)
  | leaseFormat (message : String)
  | keyError (key : String)
  deriving DecidableEq, Repr

namespace Refusal

/-- The text the exception was raised with. -/
def message : Refusal → String
  | contractError message | schemaRefusal message | identityRefusal message
  | incompatibleReuse message | approvalRefusal message | fatalAccounting message
  | backgroundInferenceRefusal message | valueError message | indexError message
  | typeError message | arithmeticError message | leaseOwnership message
  | leaseFormat message => message
  | keyError key => key

/-- A value that renders itself as Python's `repr` does. -/
class Quoted (α : Type) where
  quote : α → String

export Quoted (quote)

/-- Two lowercase hexadecimal digits of a code below 256. -/
def hexByte (code : ℕ) : String :=
  String.ofList [Nat.digitChar (code / 16), Nat.digitChar (code % 16)]

/-- One character of a quoted string; a control character is written by its code. -/
def quoteChar (mark character : Char) : String :=
  if character = mark ∨ character = '\\' then String.ofList ['\\', character]
  else if character = '\n' then String.ofList ['\\', 'n']
  else if character = '\r' then String.ofList ['\\', 'r']
  else if character = '\t' then String.ofList ['\\', 't']
  else if character.toNat < 32 ∨ character.toNat = 127 then
    String.ofList ['\\', 'x'] ++ hexByte character.toNat
  else String.singleton character

/-- Double quotes mark a string that holds a single quote and no double one. -/
def quoteText (text : String) : String :=
  let mark := if '\'' ∈ text.toList ∧ '"' ∉ text.toList then '"' else '\''
  String.singleton mark ++ String.join (text.toList.map (quoteChar mark)) ++ String.singleton mark

instance : Quoted String := ⟨quoteText⟩
instance : Quoted ℕ := ⟨toString⟩
instance : Quoted ℤ := ⟨toString⟩

instance {α : Type} [Quoted α] : Quoted (List α) :=
  ⟨fun values => "[" ++ ", ".intercalate (values.map quote) ++ "]"⟩

instance {α : Type} [Quoted α] : Quoted (Option α) :=
  ⟨fun value => (value.map quote).getD "None"⟩

end Refusal

end Verbatus
