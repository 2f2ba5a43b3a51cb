import Mathlib.Order.Bounds.Basic
import Mathlib.Data.List.Infix
import Mathlib.Tactic

namespace Verbatus.Library

section Scripts

variable {α : Type}

/-- A way of turning one list into another and how many edits it makes. -/
inductive Edits : List α → List α → ℕ → Prop
  | nil : Edits [] [] 0
  | keep (x : α) {xs ys : List α} {n : ℕ} : Edits xs ys n → Edits (x :: xs) (x :: ys) n
  | replace (x y : α) {xs ys : List α} {n : ℕ} :
      Edits xs ys n → Edits (x :: xs) (y :: ys) (n + 1)
  | delete (x : α) {xs ys : List α} {n : ℕ} : Edits xs ys n → Edits (x :: xs) ys (n + 1)
  | insert (y : α) {xs ys : List α} {n : ℕ} : Edits xs ys n → Edits xs (y :: ys) (n + 1)

theorem Edits.append {xs ys xs' ys' : List α} {n n' : ℕ} (first : Edits xs ys n)
    (second : Edits xs' ys' n') : Edits (xs ++ xs') (ys ++ ys') (n + n') := by
  induction first with
  | nil => simpa using second
  | keep x _ ih => exact ih.keep x
  | replace x y _ ih =>
      rw [Nat.add_right_comm]
      exact ih.replace x y
  | delete x _ ih =>
      rw [Nat.add_right_comm]
      exact ih.delete x
  | insert y _ ih =>
      rw [Nat.add_right_comm]
      exact ih.insert y

/-- An edit script read from its end. -/
theorem Edits.reverse {xs ys : List α} {n : ℕ} (script : Edits xs ys n) :
    Edits xs.reverse ys.reverse n := by
  induction script with
  | nil => exact .nil
  | keep x _ ih =>
      rw [List.reverse_cons, List.reverse_cons]
      exact ih.append (Edits.nil.keep x)
  | replace x y _ ih =>
      rw [List.reverse_cons, List.reverse_cons]
      exact ih.append (Edits.nil.replace x y)
  | delete x _ ih =>
      have longer := ih.append (Edits.nil.delete x)
      rwa [List.append_nil, ← List.reverse_cons] at longer
  | insert y _ ih =>
      have longer := ih.append (Edits.nil.insert y)
      rwa [List.append_nil, ← List.reverse_cons] at longer

theorem Edits.eq_of_zero {xs ys : List α} {n : ℕ} (script : Edits xs ys n) (none : n = 0) :
    xs = ys := by
  induction script with
  | nil => rfl
  | keep x _ ih => rw [ih none]
  | replace => cases none
  | delete => cases none
  | insert => cases none

end Scripts

section Distance

variable {α : Type} [DecidableEq α]

/-- The Levenshtein distance of two lists. -/
def levenshtein : List α → List α → ℕ
  | [], ys => ys.length
  | x :: xs, [] => xs.length + 1
  | x :: xs, y :: ys =>
    min (levenshtein xs (y :: ys) + 1)
      (min (levenshtein (x :: xs) ys + 1) (levenshtein xs ys + if x = y then 0 else 1))
termination_by xs ys => xs.length + ys.length

@[simp] theorem levenshtein_nil_left (ys : List α) : levenshtein [] ys = ys.length := by
  rw [levenshtein]

@[simp] theorem levenshtein_nil_right (xs : List α) : levenshtein xs [] = xs.length := by
  cases xs with
  | nil => rw [levenshtein_nil_left]
  | cons x xs => rw [levenshtein, List.length_cons]

theorem levenshtein_cons_cons (x y : α) (xs ys : List α) :
    levenshtein (x :: xs) (y :: ys) = min (levenshtein xs (y :: ys) + 1)
      (min (levenshtein (x :: xs) ys + 1) (levenshtein xs ys + if x = y then 0 else 1)) := by
  rw [levenshtein]

theorem levenshtein_cons_left_le (x : α) (xs ys : List α) :
    levenshtein (x :: xs) ys ≤ levenshtein xs ys + 1 := by
  cases ys with
  | nil => simp
  | cons y ys =>
      rw [levenshtein_cons_cons]
      exact min_le_left _ _

theorem levenshtein_cons_right_le (y : α) (xs ys : List α) :
    levenshtein xs (y :: ys) ≤ levenshtein xs ys + 1 := by
  cases xs with
  | nil => simp
  | cons x xs =>
      rw [levenshtein_cons_cons]
      exact (min_le_right _ _).trans (min_le_left _ _)

theorem levenshtein_cons_cons_le (x y : α) (xs ys : List α) :
    levenshtein (x :: xs) (y :: ys) ≤ levenshtein xs ys + if x = y then 0 else 1 := by
  rw [levenshtein_cons_cons]
  exact (min_le_right _ _).trans (min_le_right _ _)

/-- The recursion reaches its value through an edit script. -/
theorem edits_levenshtein (xs ys : List α) : Edits xs ys (levenshtein xs ys) := by
  induction xs, ys using levenshtein.induct with
  | case1 ys =>
      rw [levenshtein_nil_left]
      induction ys with
      | nil => exact .nil
      | cons y ys ih => exact ih.insert y
  | case2 x xs =>
      rw [levenshtein_nil_right]
      induction x :: xs with
      | nil => exact .nil
      | cons x xs ih => exact ih.delete x
  | case3 x xs y ys deleted inserted kept =>
      have reached := levenshtein_cons_cons x y xs ys
      rcases min_choice (levenshtein xs (y :: ys) + 1)
        (min (levenshtein (x :: xs) ys + 1) (levenshtein xs ys + if x = y then 0 else 1))
        with same | same
      · rw [reached, same]
        exact deleted.delete x
      rcases min_choice (levenshtein (x :: xs) ys + 1) (levenshtein xs ys + if x = y then 0 else 1)
        with least | least
      · rw [reached, same, least]
        exact inserted.insert y
      · rw [reached, same, least]
        split_ifs with equal
        · rw [equal]
          exact kept.keep y
        · exact kept.replace x y

theorem levenshtein_le_of_edits {xs ys : List α} {n : ℕ} (script : Edits xs ys n) :
    levenshtein xs ys ≤ n := by
  induction script with
  | nil => simp
  | @keep x xs ys _ _ ih =>
      have step := levenshtein_cons_cons_le x x xs ys
      rw [if_pos rfl] at step
      exact step.trans ih
  | @replace x y xs ys _ _ ih =>
      have step := levenshtein_cons_cons_le x y xs ys
      have one : (if x = y then 0 else 1) ≤ 1 := by split <;> omega
      omega
  | delete x _ ih => exact (levenshtein_cons_left_le x _ _).trans (by omega)
  | insert y _ ih => exact (levenshtein_cons_right_le y _ _).trans (by omega)

/-- The distance is the fewest edits of any script. -/
theorem levenshtein_isLeast (xs ys : List α) : IsLeast {n | Edits xs ys n} (levenshtein xs ys) :=
  ⟨edits_levenshtein xs ys, fun _ script => levenshtein_le_of_edits script⟩

theorem levenshtein_reverse (xs ys : List α) :
    levenshtein xs.reverse ys.reverse = levenshtein xs ys := by
  apply le_antisymm
  · exact levenshtein_le_of_edits (edits_levenshtein xs ys).reverse
  · have back := (edits_levenshtein xs.reverse ys.reverse).reverse
    rw [List.reverse_reverse, List.reverse_reverse] at back
    exact levenshtein_le_of_edits back

theorem levenshtein_eq_zero_iff {xs ys : List α} : levenshtein xs ys = 0 ↔ xs = ys := by
  constructor
  · exact (edits_levenshtein xs ys).eq_of_zero
  · rintro rfl
    have script : Edits xs xs 0 := by
      induction xs with
      | nil => exact .nil
      | cons x xs ih => exact ih.keep x
    exact Nat.le_zero.mp (levenshtein_le_of_edits script)

/-- One more element on the right spares at most one edit. -/
theorem levenshtein_le_cons_right (xs : List α) (y : α) (ys : List α) :
    levenshtein xs ys ≤ levenshtein xs (y :: ys) + 1 := by
  induction xs with
  | nil => simp; omega
  | cons x xs ih =>
      have fewer := levenshtein_cons_left_le x xs ys
      have least := levenshtein_cons_cons x y xs ys
      omega

/-- One more element on the left spares at most one edit. -/
theorem levenshtein_le_cons_left (x : α) (xs ys : List α) :
    levenshtein xs ys ≤ levenshtein (x :: xs) ys + 1 := by
  induction ys with
  | nil => simp; omega
  | cons y ys ih =>
      have fewer := levenshtein_cons_right_le y xs ys
      have least := levenshtein_cons_cons x y xs ys
      omega

end Distance

section Near

variable {α : Type} [DecidableEq α]

/-- The fewest edits turning a list into a beginning of another, by dynamic programming. -/
def near : List α → List α → ℕ
  | [], _ => 0
  | x :: xs, [] => xs.length + 1
  | x :: xs, y :: ys =>
    min (near xs (y :: ys) + 1) (min (near (x :: xs) ys + 1) (near xs ys + if x = y then 0 else 1))
termination_by xs ys => xs.length + ys.length

@[simp] theorem near_nil_left (ys : List α) : near [] ys = 0 := by
  rw [near]

@[simp] theorem near_nil_right (xs : List α) : near xs [] = xs.length := by
  cases xs with
  | nil => rw [near_nil_left, List.length_nil]
  | cons x xs => rw [near, List.length_cons]

theorem near_cons_cons (x y : α) (xs ys : List α) :
    near (x :: xs) (y :: ys) = min (near xs (y :: ys) + 1)
      (min (near (x :: xs) ys + 1) (near xs ys + if x = y then 0 else 1)) := by
  rw [near]

theorem near_le_levenshtein (xs : List α) {s ys : List α} (begins : s <+: ys) :
    near xs ys ≤ levenshtein xs s := by
  induction xs, s using levenshtein.induct generalizing ys with
  | case1 => simp
  | case2 x xs =>
      rw [levenshtein_nil_right]
      induction x :: xs with
      | nil => simp
      | cons x xs ih =>
          cases ys with
          | nil => simp
          | cons y ys =>
              rw [near_cons_cons, List.length_cons]
              exact (min_le_left _ _).trans (Nat.add_le_add_right ih 1)
  | case3 x xs y s deleted inserted kept =>
      obtain ⟨rest, rfl⟩ := begins
      rw [List.cons_append, near_cons_cons, levenshtein_cons_cons]
      have first := deleted (List.prefix_append (y :: s) rest)
      have second := inserted (List.prefix_append s rest)
      have third := kept (List.prefix_append s rest)
      rw [List.cons_append] at first
      omega

/-- Some beginning is as near as the recursion says. -/
theorem exists_levenshtein_le_near (xs ys : List α) :
    ∃ s, s <+: ys ∧ levenshtein xs s ≤ near xs ys := by
  induction xs, ys using near.induct with
  | case1 ys => exact ⟨[], List.nil_prefix, by simp⟩
  | case2 x xs => exact ⟨[], List.prefix_rfl, by simp⟩
  | case3 x xs y ys deleted inserted kept =>
      have reached := near_cons_cons x y xs ys
      obtain ⟨first, firstBegins, firstLe⟩ := deleted
      obtain ⟨second, secondBegins, secondLe⟩ := inserted
      obtain ⟨third, thirdBegins, thirdLe⟩ := kept
      have dropped := levenshtein_cons_left_le x xs first
      have added := levenshtein_cons_right_le y (x :: xs) second
      have swapped := levenshtein_cons_cons_le x y xs third
      rcases min_choice (near xs (y :: ys) + 1)
        (min (near (x :: xs) ys + 1) (near xs ys + if x = y then 0 else 1)) with same | same
      · exact ⟨first, firstBegins, by omega⟩
      rcases min_choice (near (x :: xs) ys + 1) (near xs ys + if x = y then 0 else 1)
        with least | least
      · exact ⟨y :: second, (List.prefix_cons_inj y).mpr secondBegins, by omega⟩
      · exact ⟨y :: third, (List.prefix_cons_inj y).mpr thirdBegins, by omega⟩

theorem near_cons_left_le (x : α) (xs ys : List α) : near (x :: xs) ys ≤ near xs ys + 1 := by
  cases ys with
  | nil => simp
  | cons y ys =>
      rw [near_cons_cons]
      exact min_le_left _ _

theorem near_cons_right_le (xs : List α) (y : α) (ys : List α) :
    near xs (y :: ys) ≤ near xs ys + 1 := by
  cases xs with
  | nil => simp
  | cons x xs =>
      rw [near_cons_cons]
      exact (min_le_right _ _).trans (min_le_left _ _)

theorem near_le_cons_left (x : α) (xs ys : List α) : near xs ys ≤ near (x :: xs) ys + 1 := by
  obtain ⟨s, begins, reached⟩ := exists_levenshtein_le_near (x :: xs) ys
  have least := near_le_levenshtein xs begins
  have spared := levenshtein_le_cons_left x xs s
  omega

theorem near_le_cons_right (xs : List α) (y : α) (ys : List α) :
    near xs ys ≤ near xs (y :: ys) + 1 := by
  obtain ⟨s, begins, reached⟩ := exists_levenshtein_le_near xs (y :: ys)
  cases s with
  | nil =>
      have least := near_le_levenshtein xs (@List.nil_prefix _ ys)
      omega
  | cons first s =>
      obtain ⟨rfl, later⟩ := List.cons_prefix_cons.mp begins
      have least := near_le_levenshtein xs later
      have spared := levenshtein_le_cons_right xs first s
      omega

/-- The nearest stretch of a list ends after one of its beginnings. -/
theorem isLeast_near_reverse (xs ys : List α) :
    IsLeast {n | ∃ s, s <:+ ys ∧ levenshtein xs s = n} (near xs.reverse ys.reverse) := by
  constructor
  · obtain ⟨s, begins, reached⟩ := exists_levenshtein_le_near xs.reverse ys.reverse
    have least := near_le_levenshtein xs.reverse begins
    refine ⟨s.reverse, ?_, ?_⟩
    · rwa [← List.reverse_prefix, List.reverse_reverse]
    · rw [← levenshtein_reverse, List.reverse_reverse]
      omega
  · rintro n ⟨s, ends, rfl⟩
    rw [← levenshtein_reverse]
    exact near_le_levenshtein _ (List.reverse_prefix.mpr ends)

end Near

end Verbatus.Library
