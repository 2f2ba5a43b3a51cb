import Mathlib.Tactic

namespace Verbatus.Python

/-- The characters of a number as `str` writes it: a sign before the digits of its magnitude. -/
def decimal : ℤ → List Char
  | .ofNat value => Nat.toDigits 10 value
  | .negSucc value => '-' :: Nat.toDigits 10 (value + 1)

theorem toList_repr_int (value : ℤ) : value.repr.toList = decimal value := by
  cases value with
  | ofNat value =>
      change (Nat.repr value).toList = _
      rw [Nat.toList_repr]
      rfl
  | negSucc value =>
      change ("-" ++ Nat.repr (value + 1)).toList = _
      rw [String.toList_append, Nat.toList_repr]
      rfl

theorem digits_injective : Function.Injective (Nat.toDigits 10) := by
  intro value other same
  have read := congrArg (Nat.ofDigitChars 10 · 0) same
  simpa [Nat.ofDigitChars_ten_toDigits] using read

theorem isDigit_of_mem_digits {value : ℕ} {character : Char}
    (member : character ∈ Nat.toDigits 10 value) : character.isDigit :=
  Nat.isDigit_of_mem_toDigits (by decide) (by decide) member

/-- Every character of a number is a digit or its sign. -/
theorem mem_decimal {value : ℤ} {character : Char} (member : character ∈ decimal value) :
    character.isDigit ∨ character = '-' := by
  cases value with
  | ofNat value => exact .inl (isDigit_of_mem_digits member)
  | negSucc value =>
      rcases List.mem_cons.mp member with rfl | member
      · exact .inr rfl
      · exact .inl (isDigit_of_mem_digits member)

theorem decimal_injective : Function.Injective decimal := by
  have signed (value other : ℕ) : decimal (.ofNat value) ≠ decimal (.negSucc other) := by
    intro same
    have sign : '-' ∈ Nat.toDigits 10 value := by
      change decimal (.ofNat value) = _ at same
      rw [decimal] at same
      exact same ▸ List.mem_cons_self
    exact absurd (isDigit_of_mem_digits sign) (by decide)
  intro value other same
  cases value with
  | ofNat value =>
      cases other with
      | ofNat other => exact congrArg Int.ofNat (digits_injective same)
      | negSucc other => exact absurd same (signed value other)
  | negSucc value =>
      cases other with
      | ofNat other => exact absurd same.symm (signed other value)
      | negSucc other =>
          have equal := digits_injective (List.cons.inj same).2
          exact congrArg Int.negSucc (Nat.succ.inj equal)

/-- Two texts that meet at their first separator agree on either side of it. -/
theorem append_separator_inj {first second rest other : List Char} {separator : Char}
    (inFirst : separator ∉ first) (inSecond : separator ∉ second)
    (same : first ++ separator :: rest = second ++ separator :: other) :
    first = second ∧ rest = other := by
  induction first generalizing second with
  | nil =>
      cases second with
      | nil => exact ⟨rfl, (List.cons.inj same).2⟩
      | cons character second =>
          have equal := (List.cons.inj same).1
          subst equal
          exact absurd (.head _) inSecond
  | cons character first ih =>
      cases second with
      | nil =>
          have equal := (List.cons.inj same).1
          subst equal
          exact absurd (.head _) inFirst
      | cons other second =>
          obtain ⟨equal, tails⟩ := List.cons.inj same
          obtain ⟨start, stop⟩ := ih (fun member => inFirst (.tail _ member))
            (fun member => inSecond (.tail _ member)) tails
          exact ⟨by rw [equal, start], stop⟩

end Verbatus.Python
