import Mathlib.Algebra.Order.Floor.Ring
import Mathlib.Data.Int.Log
import Mathlib.Data.Nat.Sqrt
import Mathlib.Data.Rat.Floor
import Mathlib.Tactic

namespace Verbatus.Library

/-- The nearest integer, the even one of two that are as near. -/
def roundHalfEven (value : ℚ) : ℤ :=
  let below := ⌊value⌋
  let rest := value - below
  if rest < 1 / 2 ∨ rest = 1 / 2 ∧ below % 2 = 0 then below else below + 1

theorem roundHalfEven_cases (value : ℚ) :
    roundHalfEven value = ⌊value⌋ ∧ value - ⌊value⌋ ≤ 1 / 2 ∨
      roundHalfEven value = ⌊value⌋ + 1 ∧ 1 / 2 ≤ value - ⌊value⌋ := by
  simp only [roundHalfEven]
  split_ifs with near
  · exact .inl ⟨rfl, near.elim le_of_lt fun half => half.1.le⟩
  · push Not at near
    exact .inr ⟨rfl, near.1⟩

theorem abs_roundHalfEven_sub_le (value : ℚ) : |(roundHalfEven value : ℚ) - value| ≤ 1 / 2 := by
  have below := Int.floor_le value
  have above := Int.lt_floor_add_one value
  rcases roundHalfEven_cases value with ⟨same, near⟩ | ⟨same, near⟩
  · rw [same, abs_le]
    constructor <;> linarith
  · rw [same, abs_le]
    push_cast
    constructor <;> linarith

theorem roundHalfEven_nonneg {value : ℚ} (nonneg : 0 ≤ value) : 0 ≤ roundHalfEven value := by
  have floor := Int.floor_nonneg.mpr nonneg
  rcases roundHalfEven_cases value with ⟨same, _⟩ | ⟨same, _⟩ <;> omega

theorem roundHalfEven_intCast (value : ℤ) : roundHalfEven value = value := by
  simp [roundHalfEven]

/-- The exponent of the last place of the double nearest to a number. -/
def lastPlace (value : ℚ) : ℤ := max (Int.log 2 |value| - 52) (-1074)

/-- The number rounded to the precision of a double. -/
def nearestDouble (value : ℚ) : ℚ :=
  roundHalfEven (value / 2 ^ lastPlace value) * 2 ^ lastPlace value

/-- The double nearest to a number, where it is finite. -/
def double? (value : ℚ) : Option ℚ :=
  if |nearestDouble value| < 2 ^ (1024 : ℕ) then some (nearestDouble value) else none

/-- The double nearest to a square root: enough bits of the root, and whether any are left. -/
def sqrtDouble (value : ℚ) : ℚ :=
  let scaled := value * 4 ^ (1200 : ℕ)
  let root := Nat.sqrt ⌊scaled⌋₊
  let doubled := if (root : ℚ) ^ 2 = scaled then 2 * root else 2 * root + 1
  nearestDouble ((doubled : ℕ) / 2 ^ (1201 : ℕ))

theorem nearestDouble_nonneg {value : ℚ} (nonneg : 0 ≤ value) : 0 ≤ nearestDouble value := by
  have scale : (0 : ℚ) < 2 ^ lastPlace value := zpow_pos two_pos _
  have rounded := roundHalfEven_nonneg (div_nonneg nonneg scale.le)
  exact mul_nonneg (by exact_mod_cast rounded) scale.le

theorem sqrtDouble_nonneg (value : ℚ) : 0 ≤ sqrtDouble value :=
  nearestDouble_nonneg (div_nonneg (Nat.cast_nonneg _) (by positivity))

theorem double?_nonneg {value result : ℚ} (nonneg : 0 ≤ value) (found : double? value = some result) :
    0 ≤ result := by
  unfold double? at found
  split_ifs at found with finite
  rw [← Option.some.inj found]
  exact nearestDouble_nonneg nonneg

end Verbatus.Library
