import Verbatus.Contracts.Dicts

namespace Verbatus.Pod

open Library Library.Checked Refusal Python CodePoint Canonical
open Identities (str str_injective)

section Values

/-- The last microsecond a datetime can hold, counted from the first. -/
def lastMicros : ℕ := 315537897600 * 1000000 - 1

/-- An aware UTC datetime: its microseconds since the first one there is. -/
abbrev Instant := {micros : ℕ // micros ≤ lastMicros}

/-- The microseconds from one datetime to another. -/
def Instant.since (later earlier : Instant) : ℤ := (later : ℕ) - (earlier : ℕ)

/-- A datetime and a timedelta; past either end of the calendar the sum raises. -/
def Instant.shift (time : Instant) (span : ℤ) : Except Refusal Instant :=
  if inRange : 0 ≤ ((time : ℕ) : ℤ) + span ∧ ((time : ℕ) : ℤ) + span ≤ lastMicros then
    .ok ⟨(((time : ℕ) : ℤ) + span).toNat, by omega⟩
  else .error (.arithmeticError "date value out of range")

/-- The microseconds of a number of seconds. -/
def seconds (count : ℤ) : ℤ := count * 1000000

/-- A Python `Decimal`. -/
inductive Decimal where
  | finite (negative : Bool) (coefficient : ℕ) (exponent : ℤ)
  | special (printed : String)
  deriving DecidableEq

/-- The number of a finite decimal. -/
def Decimal.value : Decimal → ℚ
  | finite negative coefficient exponent =>
    (if negative then -1 else 1) * coefficient * (10 : ℚ) ^ exponent
  | special _ => 0

/-- Whether a decimal is an amount of money: finite, and not below zero. -/
def Decimal.isMoney : Decimal → Bool
  | finite negative coefficient _ => !negative || coefficient = 0
  | special _ => false

/-- `as_decimal` -/
def asDecimal (value : Decimal) (label : String) : Except Refusal Decimal := do
  require (value.isMoney = true) (.valueError (label ++ " must be finite and non-negative"))
  .ok value

/-- A dict of JSON values. No code here looks at the order of a dict, so its keys stand in order. -/
structure Payload where
  fields : List (Str × JsonValue)
  keyed : Keyed (.object fields)
  ordered : (JsonValue.object fields).sorted = .object fields

end Values

end Verbatus.Pod
