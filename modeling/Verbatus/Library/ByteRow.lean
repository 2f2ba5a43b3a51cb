import Mathlib.Data.Nat.Bitwise
import Mathlib.Data.UInt
import Mathlib.Tactic
import Verbatus.Library.Spans

namespace Verbatus.Library.ByteRow

open Spans

/-- The number whose big-endian bytes are these. -/
def fromBytes (bytes : List UInt8) : ℕ :=
  bytes.foldl (fun value byte => 256 * value + byte.toNat) 0

/-- The low bytes of a number, big-endian. -/
def toBytes : ℕ → ℕ → List UInt8
  | 0, _ => []
  | width + 1, value => toBytes width (value / 256) ++ [UInt8.ofNat (value % 256)]

/-- The set bits of a number. -/
def bitCount (value : ℕ) : ℕ := (List.range (value.log2 + 1)).countP value.testBit

/-- Every byte is zero or one. -/
def Binary (bytes : List UInt8) : Prop := ∀ byte ∈ bytes, byte = 0 ∨ byte = 1

instance (bytes : List UInt8) : Decidable (Binary bytes) :=
  inferInstanceAs (Decidable (∀ byte ∈ bytes, byte = 0 ∨ byte = 1))

theorem Binary.head {byte : UInt8} {bytes : List UInt8} (binary : Binary (byte :: bytes)) :
    byte = 0 ∨ byte = 1 := binary byte (.head _)

theorem Binary.tail {byte : UInt8} {bytes : List UInt8} (binary : Binary (byte :: bytes)) :
    Binary bytes := fun other member => binary other (.tail _ member)

/-- One where the operation holds of the two bytes, read as bits. -/
def combine (operation : Bool → Bool → Bool) (first second : UInt8) : UInt8 :=
  if operation (first = 1) (second = 1) then 1 else 0

theorem binary_zipWith_combine (operation : Bool → Bool → Bool) (first second : List UInt8) :
    Binary (List.zipWith (combine operation) first second) := by
  intro byte member
  obtain ⟨index, inside, rfl⟩ := List.mem_iff_getElem.mp member
  rw [List.getElem_zipWith, combine]
  split_ifs <;> simp

theorem fromBytes_eq (bytes : List UInt8) (value : ℕ) :
    bytes.foldl (fun value byte => 256 * value + byte.toNat) value =
      2 ^ (8 * bytes.length) * value + fromBytes bytes := by
  induction bytes generalizing value with
  | nil => simp [fromBytes]
  | cons byte bytes ih =>
      rw [fromBytes, List.foldl_cons, List.foldl_cons, ih, ih (256 * 0 + byte.toNat),
        List.length_cons]
      ring

theorem fromBytes_cons (byte : UInt8) (bytes : List UInt8) :
    fromBytes (byte :: bytes) = 2 ^ (8 * bytes.length) * byte.toNat + fromBytes bytes := by
  rw [fromBytes, List.foldl_cons, fromBytes_eq]
  simp

theorem fromBytes_append_singleton (bytes : List UInt8) (byte : UInt8) :
    fromBytes (bytes ++ [byte]) = 256 * fromBytes bytes + byte.toNat := by
  simp [fromBytes, List.foldl_append]

theorem fromBytes_lt (bytes : List UInt8) : fromBytes bytes < 2 ^ (8 * bytes.length) := by
  induction bytes with
  | nil => simp [fromBytes]
  | cons byte bytes ih =>
      have small : byte.toNat ≤ 255 := by have := byte.toNat_lt; omega
      have split : 2 ^ (8 * (byte :: bytes).length) = 2 ^ (8 * bytes.length) * 256 := by
        rw [List.length_cons, Nat.mul_succ, pow_add]
        norm_num
      rw [fromBytes_cons, split]
      nlinarith

@[simp] theorem length_toBytes (width value : ℕ) : (toBytes width value).length = width := by
  induction width generalizing value with
  | zero => rfl
  | succ width ih => simp [toBytes, ih]

/-- Reading back as many bytes as were packed gives those bytes. -/
theorem toBytes_fromBytes (bytes : List UInt8) :
    toBytes bytes.length (fromBytes bytes) = bytes := by
  induction bytes using List.reverseRecOn with
  | nil => rfl
  | append_singleton bytes byte ih =>
      have small := byte.toNat_lt
      rw [List.length_append, List.length_singleton, toBytes, fromBytes_append_singleton]
      have quotient : (256 * fromBytes bytes + byte.toNat) / 256 = fromBytes bytes := by omega
      have remainder : (256 * fromBytes bytes + byte.toNat) % 256 = byte.toNat := by omega
      rw [quotient, remainder, ih, UInt8.ofNat_toNat]

theorem testBit_binary {byte : UInt8} (binary : byte = 0 ∨ byte = 1) (index : ℕ) :
    byte.toNat.testBit index = (decide (index = 0) && decide (byte = 1)) := by
  rcases binary with rfl | rfl
  · simp
  · cases index <;> simp [Nat.testBit_succ]

theorem combine_testBit {operation : Bool → Bool → Bool} (zero : operation false false = false)
    {first second : UInt8} (firstBinary : first = 0 ∨ first = 1)
    (secondBinary : second = 0 ∨ second = 1) (index : ℕ) :
    operation (first.toNat.testBit index) (second.toNat.testBit index) =
      (combine operation first second).toNat.testBit index := by
  rw [testBit_binary firstBinary, testBit_binary secondBinary, testBit_binary]
  · by_cases low : index = 0
    · rcases firstBinary with rfl | rfl <;> rcases secondBinary with rfl | rfl <;>
        simp [combine, low]
    · simp [low, zero]
  · unfold combine
    split_ifs <;> simp

/-- A bitwise operation on packed binary rows acts byte by byte. -/
theorem bitwise_fromBytes (packed : ℕ → ℕ → ℕ) (operation : Bool → Bool → Bool)
    (bits : ∀ first second index,
      (packed first second).testBit index = operation (first.testBit index) (second.testBit index))
    (zero : operation false false = false) {first second : List UInt8}
    (sameLength : first.length = second.length) (firstBinary : Binary first)
    (secondBinary : Binary second) :
    packed (fromBytes first) (fromBytes second) =
      fromBytes (List.zipWith (combine operation) first second) := by
  apply Nat.eq_of_testBit_eq
  intro index
  rw [bits]
  induction first generalizing second with
  | nil =>
      cases second with
      | nil => simpa [fromBytes] using zero
      | cons byte second => simp at sameLength
  | cons byte first ih =>
      cases second with
      | nil => simp at sameLength
      | cons other second =>
          have tails : first.length = second.length := by simpa using sameLength
          have shorter : (List.zipWith (combine operation) first second).length = first.length := by
            simp [tails]
          have bound := fromBytes_lt first
          have otherBound := fromBytes_lt second
          have resultBound := fromBytes_lt (List.zipWith (combine operation) first second)
          rw [shorter] at resultBound
          rw [← tails] at otherBound
          rw [List.zipWith_cons_cons, fromBytes_cons, fromBytes_cons, fromBytes_cons, shorter,
            ← tails, Nat.testBit_two_pow_mul_add _ bound, Nat.testBit_two_pow_mul_add _ otherBound,
            Nat.testBit_two_pow_mul_add _ resultBound]
          split_ifs with low
          · exact ih tails firstBinary.tail secondBinary.tail
          · exact combine_testBit zero firstBinary.head secondBinary.head _

/-- Any width that holds the number counts the same bits. -/
theorem bitCount_eq {value width : ℕ} (fits : value < 2 ^ width) :
    bitCount value = (List.range width).countP value.testBit := by
  have wider {narrow : ℕ} (extra : ℕ) (fits : value < 2 ^ narrow) :
      (List.range (narrow + extra)).countP value.testBit =
        (List.range narrow).countP value.testBit := by
    rw [List.range_add, List.countP_append, Nat.add_eq_left, List.countP_eq_zero]
    intro index member
    obtain ⟨offset, -, rfl⟩ := List.mem_map.mp member
    have small : value < 2 ^ (narrow + offset) :=
      fits.trans_le (Nat.pow_le_pow_right (by decide) (Nat.le_add_right _ _))
    simp [Nat.testBit_lt_two_pow small]
  rcases Nat.le_total width (value.log2 + 1) with short | long
  · obtain ⟨extra, same⟩ := Nat.exists_eq_add_of_le short
    rw [bitCount, same, wider extra fits]
  · obtain ⟨extra, same⟩ := Nat.exists_eq_add_of_le long
    rw [bitCount, same, wider extra Nat.lt_log2_self]

/-- The bits above a split and those below it add up. -/
theorem bitCount_split {low width : ℕ} (high : ℕ) (fits : low < 2 ^ width) :
    bitCount (2 ^ width * high + low) = bitCount high + bitCount low := by
  have highFits : high < 2 ^ (high.log2 + 1) := Nat.lt_log2_self
  have bothFit : 2 ^ width * high + low < 2 ^ (width + (high.log2 + 1)) := by
    rw [pow_add]
    nlinarith
  rw [bitCount_eq bothFit, List.range_add, List.countP_append, bitCount_eq fits, Nat.add_comm,
    List.countP_map, bitCount]
  congr 1
  · apply List.countP_congr
    intro index member
    rw [Function.comp_apply, Nat.testBit_two_pow_mul_add _ fits]
    simp
  · apply List.countP_congr
    intro index member
    rw [Nat.testBit_two_pow_mul_add _ fits, if_pos (List.mem_range.mp member)]

theorem bitCount_fromBytes {bytes : List UInt8} (binary : Binary bytes) :
    bitCount (fromBytes bytes) = bytes.count 1 := by
  induction bytes with
  | nil => rfl
  | cons byte bytes ih =>
      rw [fromBytes_cons, bitCount_split _ (fromBytes_lt bytes), ih binary.tail]
      rcases binary.head with rfl | rfl
      · rw [List.count_cons_of_ne (by decide)]
        exact Nat.zero_add _
      · rw [List.count_cons_self]
        exact Nat.add_comm _ _

/-- The byte at a place of the row is one; no place before or after the row is. -/
def OneAt (bytes : List UInt8) (place : ℤ) : Prop := 0 ≤ place ∧ bytes[place.toNat]? = some 1

instance (bytes : List UInt8) : DecidablePred (OneAt bytes) :=
  fun place => inferInstanceAs (Decidable (0 ≤ place ∧ bytes[place.toNat]? = some 1))

theorem oneAt_natCast {bytes : List UInt8} {index : ℕ} :
    OneAt bytes index ↔ bytes[index]? = some 1 := by
  simp [OneAt]

theorem OneAt.lt_length {bytes : List UInt8} {place : ℤ} (one : OneAt bytes place) :
    place < bytes.length := by
  have inside := (List.getElem?_eq_some_iff.mp one.2).1
  have := one.1
  omega

/-- The ones of a row, counted by place. -/
theorem count_one_eq (bytes : List UInt8) :
    bytes.count 1 = count 0 bytes.length (OneAt bytes) := by
  induction bytes using List.reverseRecOn with
  | nil => rfl
  | append_singleton bytes byte ih =>
      have low : (0 : ℤ) ≤ bytes.length := by omega
      rw [List.count_append, List.length_append, List.length_singleton, Nat.cast_add, Nat.cast_one,
        count_split _ _ _ low (by omega), ih]
      congr 1
      · apply count_congr
        intro place above below
        obtain ⟨index, rfl⟩ := Int.eq_ofNat_of_zero_le above
        rw [oneAt_natCast, oneAt_natCast, List.getElem?_append_left (by omega)]
      · rw [count_single]
        simp only [oneAt_natCast, List.getElem?_concat_length, Option.some.injEq]
        by_cases one : byte = 1
        · simp [one]
        · simp [one]

end Verbatus.Library.ByteRow
