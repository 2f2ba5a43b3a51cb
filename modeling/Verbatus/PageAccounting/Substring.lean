import Mathlib.Tactic
import Verbatus.Library.EditDistance

namespace Verbatus.PageAccounting

open Library

section Search

variable {α : Type} [DecidableEq α]

/-- The first `m` bits of a mask, each turned over. -/
def complement (m mask : ℕ) : ℕ := (2 ^ m - 1) ^^^ (mask &&& (2 ^ m - 1))

/-- Where the pattern holds each character, as the bits of a mask. -/
def equalMasks (pattern : List α) : α → ℕ :=
  pattern.zipIdx.foldl
    (fun equal entry => Function.update equal entry.1 (equal entry.1 ||| 1 <<< entry.2)) fun _ => 0

/-- The column of the search: where it rises and where it falls, and its last entry. -/
structure Column where
  plus : ℕ
  minus : ℕ
  score : ℤ

namespace Column

variable (m eq : ℕ) (column : Column)

/-- Where the pattern has the character, or a run of matches carries a fall of the row here. -/
def xh : ℕ := ((((eq &&& column.plus) + column.plus) &&& (2 ^ m - 1)) ^^^ column.plus) ||| eq

def horizontalPlus : ℕ := column.minus ||| complement m (column.xh m eq ||| column.plus)

def horizontalMinus : ℕ := column.plus &&& column.xh m eq

/-- The column after one more character of the text, by the bits where the pattern has it. -/
def step : Column :=
  let xv := eq ||| column.minus
  let high := 1 <<< (m - 1)
  let score :=
    if column.horizontalPlus m eq &&& high ≠ 0 then column.score + 1
    else if column.horizontalMinus m eq &&& high ≠ 0 then column.score - 1
    else column.score
  let shiftedPlus := (column.horizontalPlus m eq <<< 1) &&& (2 ^ m - 1)
  let shiftedMinus := (column.horizontalMinus m eq <<< 1) &&& (2 ^ m - 1)
  { plus := shiftedMinus ||| complement m (xv ||| shiftedPlus)
    minus := shiftedPlus &&& xv
    score := score }

end Column

/-- One turn of the loop: the next column, and the least score so far. -/
def searchStep (pattern : List α) (state : Column × ℤ) (character : α) : Column × ℤ :=
  let column := state.1.step pattern.length (equalMasks pattern character)
  (column, min state.2 column.score)

def firstColumn (m : ℕ) : Column := { plus := 2 ^ m - 1, minus := 0, score := m }

/-- The fewest edits turning the pattern into some substring of the text, bit by bit. -/
def bestSubstringDistance (pattern text : List α) : ℤ :=
  if pattern.length = 0 then 0
  else (text.foldl (searchStep pattern) (firstColumn pattern.length, pattern.length)).2

end Search

section Bits

theorem testBit_complement (m mask i : ℕ) :
    (complement m mask).testBit i = (decide (i < m) && !mask.testBit i) := by
  rw [complement, Nat.testBit_xor, Nat.testBit_and, Nat.testBit_two_pow_sub_one]
  cases decide (i < m) <;> cases mask.testBit i <;> rfl

theorem and_high_ne_zero_iff {mask i : ℕ} : mask &&& 1 <<< i ≠ 0 ↔ mask.testBit i = true := by
  rw [Nat.one_shiftLeft, ← not_iff_not, not_not, Bool.not_eq_true]
  constructor
  · intro empty
    have bit := congrArg (Nat.testBit · i) empty
    simpa [Nat.testBit_two_pow_self] using bit
  · intro clear
    apply Nat.eq_of_testBit_eq
    intro j
    rw [Nat.testBit_and, Nat.testBit_two_pow, Nat.zero_testBit]
    by_cases here : i = j
    · rw [← here, clear, Bool.false_and]
    · rw [decide_eq_false here, Bool.and_false]

/-- A shifted mask speaks of the bit below. -/
theorem testBit_shifted {m mask : ℕ} {p : ℕ → Prop} [DecidablePred p]
    (bits : ∀ i, mask.testBit i = decide (i < m ∧ p (i + 1))) (never : ¬p 0) (i : ℕ) :
    ((mask <<< 1) &&& (2 ^ m - 1)).testBit i = decide (i < m ∧ p i) := by
  rw [Nat.testBit_and, Nat.testBit_shiftLeft, Nat.testBit_two_pow_sub_one]
  cases i with
  | zero => simp [never]
  | succ i =>
      rw [Nat.add_sub_cancel, bits, Bool.eq_iff_iff]
      simp only [Bool.and_eq_true, decide_eq_true_eq]
      constructor
      · rintro ⟨⟨_, _, here⟩, inside⟩
        exact ⟨inside, here⟩
      · rintro ⟨inside, here⟩
        exact ⟨⟨Nat.le_add_left 1 i, by omega, here⟩, inside⟩

/-- The carry into each bit of a sum. -/
def carry (x y : ℕ) : ℕ → Bool
  | 0 => false
  | i + 1 => Bool.atLeastTwo (x.testBit i) (y.testBit i) (carry x y i)

theorem carry_ofNat {w : ℕ} (x y : ℕ) {i : ℕ} (inside : i ≤ w) :
    BitVec.carry i (BitVec.ofNat w x) (BitVec.ofNat w y) false = carry x y i := by
  induction i with
  | zero => exact BitVec.carry_zero
  | succ i ih =>
      have low : i < w := inside
      rw [BitVec.carry_succ, ih low.le, carry, BitVec.getLsbD_ofNat, BitVec.getLsbD_ofNat]
      simp [low]

theorem testBit_add (x y i : ℕ) :
    (x + y).testBit i = (x.testBit i ^^ (y.testBit i ^^ carry x y i)) := by
  have summed := BitVec.getLsbD_add (Nat.lt_succ_self i) (BitVec.ofNat (i + 1) x)
    (BitVec.ofNat (i + 1) y)
  rw [← BitVec.ofNat_add, carry_ofNat x y (Nat.le_succ i)] at summed
  simpa only [BitVec.getLsbD_ofNat, Nat.lt_succ_self, decide_true, Bool.true_and] using summed

end Bits

section Masks

variable {α : Type} [DecidableEq α]

theorem testBit_foldl_masks (entries : List (α × ℕ)) (equal : α → ℕ) (character : α) (i : ℕ) :
    (entries.foldl
      (fun equal entry => Function.update equal entry.1 (equal entry.1 ||| 1 <<< entry.2))
      equal character).testBit i =
      ((equal character).testBit i || decide ((character, i) ∈ entries)) := by
  induction entries generalizing equal with
  | nil => simp
  | cons entry entries ih =>
      obtain ⟨other, index⟩ := entry
      rw [List.foldl_cons, ih]
      by_cases same : character = other
      · subst same
        rw [Function.update_self, Nat.testBit_or, Nat.one_shiftLeft, Nat.testBit_two_pow]
        by_cases here : index = i
        · simp [here]
        · simp [here, Ne.symm here]
      · rw [Function.update_of_ne same]
        simp [same]

/-- A character's mask has exactly the bits where the pattern holds it. -/
theorem testBit_equalMasks (pattern : List α) (character : α) (i : ℕ) :
    (equalMasks pattern character).testBit i = decide (pattern[i]? = some character) := by
  rw [equalMasks, testBit_foldl_masks, Nat.zero_testBit, Bool.false_or, decide_eq_decide]
  exact List.mem_zipIdx_iff_getElem?

end Masks

theorem take_succ_reverse {α : Type} {pattern : List α} {i : ℕ} (inside : i < pattern.length) :
    (pattern.take (i + 1)).reverse = pattern[i] :: (pattern.take i).reverse := by
  rw [List.take_succ_eq_append_getElem inside, List.reverse_append, List.reverse_singleton,
    List.singleton_append]

section Columns

variable {α : Type} [DecidableEq α]

/-- An entry of the column: how near some stretch ending here comes to the pattern's first part. -/
def entry (pattern read : List α) (i : ℕ) : ℕ := near (pattern.take i).reverse read

theorem entry_zero (pattern read : List α) : entry pattern read 0 = 0 := by
  rw [entry, List.take_zero, List.reverse_nil, near_nil_left]

variable {pattern : List α} {read : List α} {i : ℕ}

theorem entry_nil (inside : i ≤ pattern.length) : entry pattern [] i = i := by
  rw [entry, near_nil_right, List.length_reverse, List.length_take]
  omega

/-- Two neighbours of a column differ by one at most. -/
theorem entry_succ_near (read : List α) (inside : i < pattern.length) :
    entry pattern read (i + 1) ≤ entry pattern read i + 1 ∧
      entry pattern read i ≤ entry pattern read (i + 1) + 1 := by
  rw [entry, entry, take_succ_reverse inside]
  exact ⟨near_cons_left_le _ _ _, near_le_cons_left _ _ _⟩

/-- An entry and the next column's differ by one at most. -/
theorem entry_cons_near (pattern read : List α) (i : ℕ) (character : α) :
    entry pattern (character :: read) i ≤ entry pattern read i + 1 ∧
      entry pattern read i ≤ entry pattern (character :: read) i + 1 :=
  ⟨near_cons_right_le _ _ _, near_le_cons_right _ _ _⟩

theorem entry_cons_succ (read : List α) (inside : i < pattern.length) (character : α) :
    entry pattern (character :: read) (i + 1) =
      min (entry pattern (character :: read) i + 1) (min (entry pattern read (i + 1) + 1)
        (entry pattern read i + if pattern[i] = character then 0 else 1)) := by
  rw [entry, entry, entry, entry, take_succ_reverse inside]
  exact near_cons_cons _ _ _ _

/-- The masks hold the column's rises and falls, and the score its last entry. -/
structure Column.Holds (column : Column) (pattern read : List α) : Prop where
  plus : ∀ i, column.plus.testBit i =
    decide (i < pattern.length ∧ entry pattern read (i + 1) = entry pattern read i + 1)
  minus : ∀ i, column.minus.testBit i =
    decide (i < pattern.length ∧ entry pattern read (i + 1) + 1 = entry pattern read i)
  score : column.score = entry pattern read pattern.length

theorem firstColumn_holds (pattern : List α) : (firstColumn pattern.length).Holds pattern [] := by
  constructor
  · intro i
    rw [firstColumn, Nat.testBit_two_pow_sub_one, decide_eq_decide]
    constructor
    · intro inside
      rw [entry_nil (i := i + 1) inside, entry_nil inside.le]
      exact ⟨inside, rfl⟩
    · exact And.left
  · intro i
    rw [firstColumn, Nat.zero_testBit]
    symm
    rw [decide_eq_false_iff_not]
    rintro ⟨inside, falls⟩
    rw [entry_nil (i := i + 1) inside, entry_nil inside.le] at falls
    omega
  · rw [firstColumn, entry_nil le_rfl]

section Step

variable {column : Column} (holds : column.Holds pattern read) (character : α)

include holds

/-- The carry into a bit says that the entry before it falls from one column to the next. -/
theorem carry_eq (inside : i ≤ pattern.length) :
    carry (equalMasks pattern character &&& column.plus) column.plus i =
      decide (entry pattern (character :: read) i + 1 = entry pattern read i) := by
  induction i with
  | zero =>
      rw [carry, entry_zero, entry_zero]
      rfl
  | succ i ih =>
      have low : i < pattern.length := inside
      obtain ⟨rises, falls⟩ := entry_succ_near read low
      obtain ⟨grows, shrinks⟩ := entry_cons_near pattern read i character
      have least := entry_cons_succ read low character
      rw [carry, ih low.le, Nat.testBit_and, testBit_equalMasks, holds.plus,
        List.getElem?_eq_getElem low, Bool.eq_iff_iff]
      simp only [Option.some.injEq, Bool.atLeastTwo, low, true_and, Bool.or_eq_true,
        Bool.and_eq_true, decide_eq_true_eq]
      split_ifs at least with same
      · simp only [same, true_and]
        omega
      · simp only [same, false_and, false_or]
        omega

theorem testBit_xh (inside : i < pattern.length) :
    (column.xh pattern.length (equalMasks pattern character)).testBit i =
      decide (pattern[i] = character ∨
        entry pattern (character :: read) i + 1 = entry pattern read i) := by
  have carried := carry_eq holds character inside.le
  have equal := testBit_equalMasks pattern character i
  rw [List.getElem?_eq_getElem inside] at equal
  rw [Column.xh, Nat.testBit_or, Nat.testBit_xor, Nat.testBit_and, testBit_add, carried,
    Nat.testBit_and, Nat.testBit_two_pow_sub_one, equal, Bool.eq_iff_iff]
  simp only [inside, decide_true, Bool.and_true, Option.some.injEq, Bool.or_eq_true,
    decide_eq_true_eq]
  cases column.plus.testBit i <;> by_cases same : pattern[i] = character <;> simp [same]

/-- The row rises at the entry below the bit. -/
theorem testBit_horizontalPlus (i : ℕ) :
    (column.horizontalPlus pattern.length (equalMasks pattern character)).testBit i =
      decide (i < pattern.length ∧ entry pattern (character :: read) (i + 1) =
        entry pattern read (i + 1) + 1) := by
  rw [Column.horizontalPlus, Nat.testBit_or, testBit_complement, Nat.testBit_or, holds.plus,
    holds.minus]
  by_cases inside : i < pattern.length
  · obtain ⟨rises, falls⟩ := entry_succ_near read inside
    obtain ⟨grows, shrinks⟩ := entry_cons_near pattern read i character
    have least := entry_cons_succ read inside character
    rw [testBit_xh holds character inside, Bool.eq_iff_iff]
    simp only [inside, true_and, decide_true, Bool.true_and, Bool.or_eq_true, decide_eq_true_eq,
      Bool.not_eq_true', Bool.or_eq_false_iff, decide_eq_false_iff_not, not_or]
    split_ifs at least with same
    · simp only [same, not_true_eq_false, false_and, or_false]
      omega
    · simp only [same, not_false_eq_true, true_and]
      omega
  · simp [inside]

/-- The row falls at the entry below the bit. -/
theorem testBit_horizontalMinus (i : ℕ) :
    (column.horizontalMinus pattern.length (equalMasks pattern character)).testBit i =
      decide (i < pattern.length ∧ entry pattern (character :: read) (i + 1) + 1 =
        entry pattern read (i + 1)) := by
  rw [Column.horizontalMinus, Nat.testBit_and, holds.plus]
  by_cases inside : i < pattern.length
  · obtain ⟨rises, falls⟩ := entry_succ_near read inside
    obtain ⟨grows, shrinks⟩ := entry_cons_near pattern read i character
    have least := entry_cons_succ read inside character
    rw [testBit_xh holds character inside, Bool.eq_iff_iff]
    simp only [inside, true_and, Bool.and_eq_true, decide_eq_true_eq]
    split_ifs at least with same
    · simp only [same, true_or, and_true]
      omega
    · simp only [same, false_or]
      omega
  · simp [inside]

/-- The new masks and the new score hold the next column. -/
theorem step_holds (nonempty : 0 < pattern.length) :
    (column.step pattern.length (equalMasks pattern character)).Holds pattern
      (character :: read) := by
  have risen := testBit_shifted (testBit_horizontalPlus holds character)
    (p := fun i => entry pattern (character :: read) i = entry pattern read i + 1)
    (by rw [entry_zero, entry_zero]; omega)
  have fallen := testBit_shifted (testBit_horizontalMinus holds character)
    (p := fun i => entry pattern (character :: read) i + 1 = entry pattern read i)
    (by rw [entry_zero, entry_zero]; omega)
  constructor
  · intro i
    rw [Column.step, Nat.testBit_or, testBit_complement, Nat.testBit_or, Nat.testBit_or, risen,
      fallen, testBit_equalMasks, holds.minus]
    by_cases inside : i < pattern.length
    · obtain ⟨rises, falls⟩ := entry_succ_near read inside
      obtain ⟨grows, shrinks⟩ := entry_cons_near pattern read i character
      have least := entry_cons_succ read inside character
      rw [List.getElem?_eq_getElem inside, Bool.eq_iff_iff]
      simp only [inside, Option.some.injEq, true_and, decide_true, Bool.true_and, Bool.or_eq_true,
        decide_eq_true_eq, Bool.not_eq_true', Bool.or_eq_false_iff, decide_eq_false_iff_not]
      split_ifs at least with same
      · simp only [same, not_true_eq_false, false_and, or_false]
        omega
      · simp only [same, not_false_eq_true, true_and]
        omega
    · simp [inside]
  · intro i
    rw [Column.step, Nat.testBit_and, Nat.testBit_or, risen, testBit_equalMasks, holds.minus]
    by_cases inside : i < pattern.length
    · obtain ⟨rises, falls⟩ := entry_succ_near read inside
      obtain ⟨grows, shrinks⟩ := entry_cons_near pattern read i character
      have least := entry_cons_succ read inside character
      rw [List.getElem?_eq_getElem inside, Bool.eq_iff_iff]
      simp only [inside, Option.some.injEq, true_and, Bool.and_eq_true, Bool.or_eq_true,
        decide_eq_true_eq]
      split_ifs at least with same
      · simp only [same, true_or, and_true]
        omega
      · simp only [same, false_or]
        omega
    · simp [inside]
  · have top : pattern.length - 1 + 1 = pattern.length := Nat.sub_add_cancel nonempty
    have last : pattern.length - 1 < pattern.length := Nat.sub_lt nonempty one_pos
    obtain ⟨grows, shrinks⟩ := entry_cons_near pattern read pattern.length character
    rw [Column.step, holds.score]
    simp only [and_high_ne_zero_iff, testBit_horizontalPlus holds character,
      testBit_horizontalMinus holds character, top, last, true_and, decide_eq_true_eq]
    split_ifs with rises falls
    · rw [rises, Nat.cast_add, Nat.cast_one]
    · rw [← falls, Nat.cast_add, Nat.cast_one, add_sub_cancel_right]
    · have level : entry pattern (character :: read) pattern.length =
          entry pattern read pattern.length := by omega
      rw [level]

end Step

/-- The distances from the pattern to the lists of a kind. -/
def distances (pattern : List α) (kind : List α → Prop) : Set ℤ :=
  {distance | ∃ s, kind s ∧ (levenshtein pattern s : ℤ) = distance}

/-- The last entry of a column is the least distance to a stretch that ends here. -/
theorem entry_isLeast (pattern read : List α) :
    IsLeast (distances pattern (· <:+ read.reverse)) (entry pattern read pattern.length) := by
  have nearest := isLeast_near_reverse pattern read.reverse
  rw [List.reverse_reverse] at nearest
  rw [entry, List.take_length]
  constructor
  · obtain ⟨s, ends, reached⟩ := nearest.1
    exact ⟨s, ends, congrArg Nat.cast reached⟩
  · rintro distance ⟨s, ends, rfl⟩
    exact Nat.cast_le.mpr (nearest.2 ⟨s, ends, rfl⟩)

/-- What a turn of the loop keeps: the column, and the least distance to a stretch so far. -/
def Searched (pattern read : List α) (state : Column × ℤ) : Prop :=
  state.1.Holds pattern read ∧ IsLeast (distances pattern (· <:+: read.reverse)) state.2

theorem searchStep_searched (nonempty : 0 < pattern.length) {state : Column × ℤ}
    (searched : Searched pattern read state) (character : α) :
    Searched pattern (character :: read) (searchStep pattern state character) := by
  obtain ⟨holds, least⟩ := searched
  have next := step_holds holds character nonempty
  refine ⟨next, ?_⟩
  have here := entry_isLeast pattern (character :: read)
  rw [← next.score] at here
  have either : distances pattern (· <:+: (character :: read).reverse) =
      distances pattern (· <:+: read.reverse) ∪
        distances pattern (· <:+ (character :: read).reverse) := by
    ext distance
    simp only [distances, List.reverse_cons, List.infix_concat_iff, Set.mem_union,
      Set.mem_ofPred_eq, or_and_right, exists_or]
    exact or_comm
  rw [either]
  exact least.union here

theorem search_searched (nonempty : 0 < pattern.length) (text : List α) {state : Column × ℤ}
    (searched : Searched pattern read state) :
    Searched pattern (text.reverse ++ read) (text.foldl (searchStep pattern) state) := by
  induction text generalizing read state with
  | nil => exact searched
  | cons character text ih =>
      rw [List.foldl_cons, List.reverse_cons, List.append_assoc]
      exact ih (searchStep_searched nonempty searched character)

theorem bestSubstringDistance_isLeast (pattern text : List α) :
    IsLeast (distances pattern (· <:+: text)) (bestSubstringDistance pattern text) := by
  rw [bestSubstringDistance]
  split_ifs with empty
  · obtain rfl := List.length_eq_zero_iff.mp empty
    refine ⟨⟨[], List.nil_infix, by simp⟩, ?_⟩
    rintro distance ⟨s, _, rfl⟩
    exact Int.natCast_nonneg _
  · have start : Searched pattern [] (firstColumn pattern.length, (pattern.length : ℤ)) := by
      refine ⟨firstColumn_holds pattern, ⟨[], List.nil_infix, by simp⟩, ?_⟩
      rintro distance ⟨s, within, rfl⟩
      obtain rfl := List.infix_nil.mp within
      simp
    have done := (search_searched (Nat.pos_of_ne_zero empty) text start).2
    rwa [List.append_nil, List.reverse_reverse] at done

/-- The search finds the least Levenshtein distance from the pattern to any substring of the text,
    zero exactly when the pattern occurs and never more than its length. -/
theorem bestSubstringDistance_optimum (pattern text : List α) :
    IsLeast {distance : ℤ | ∃ s, s <:+: text ∧ (levenshtein pattern s : ℤ) = distance}
        (bestSubstringDistance pattern text) ∧
      (bestSubstringDistance pattern text = 0 ↔ pattern <:+: text) ∧
      bestSubstringDistance pattern text ≤ pattern.length := by
  obtain ⟨⟨s, within, reached⟩, least⟩ := bestSubstringDistance_isLeast pattern text
  refine ⟨⟨⟨s, within, reached⟩, least⟩, ⟨fun zero => ?_, fun occurs => ?_⟩, ?_⟩
  · rw [zero, Nat.cast_eq_zero, levenshtein_eq_zero_iff] at reached
    rwa [reached]
  · have none := least ⟨pattern, occurs, congrArg Nat.cast (levenshtein_eq_zero_iff.mpr rfl)⟩
    rw [Nat.cast_zero] at none
    exact le_antisymm none (reached ▸ Int.natCast_nonneg _)
  · have empty := least ⟨[], List.nil_infix, rfl⟩
    rwa [levenshtein_nil_right] at empty

example : bestSubstringDistance "abc".toList "xaxbcx".toList = 1 := by decide +kernel

end Columns

end Verbatus.PageAccounting
