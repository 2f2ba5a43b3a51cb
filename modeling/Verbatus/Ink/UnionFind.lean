import Verbatus.Ink.Components
import Verbatus.Library.Forest

namespace Verbatus.Ink

open Library

/-- The parent of an index; an index outside the list is its own. -/
def parentOf (parent : List ℕ) (index : ℕ) : ℕ := parent.getD index index

theorem parentOf_set {parent : List ℕ} {place : ℕ} (inside : place < parent.length) (value : ℕ) :
    parentOf (parent.set place value) = Function.update (parentOf parent) place value := by
  funext index
  rw [parentOf, List.getD_eq_getElem?_getD]
  rcases eq_or_ne index place with rfl | apart
  · rw [Function.update_self, List.getElem?_set_self inside, Option.getD_some]
  · rw [Function.update_of_ne apart, List.getElem?_set_ne apart.symm, parentOf,
      List.getD_eq_getElem?_getD]

/-- Every index is rooted at its representative. -/
structure Represents (parent : List ℕ) (size : ℕ) (representative : ℕ → ℕ) : Prop where
  length : parent.length = size
  closed : ∀ index < size, parentOf parent index < size
  rooted : ∀ index < size, ∃ steps, Rooted (parentOf parent) index (representative index) steps

theorem range_represents (size : ℕ) : Represents (List.range size) size id := by
  have own (index : ℕ) : parentOf (List.range size) index = index := by
    rw [parentOf, List.getD_eq_getElem?_getD]
    rcases lt_or_ge index size with inside | outside
    · rw [List.getElem?_range inside, Option.getD_some]
    · rw [List.getElem?_eq_none (by rwa [List.length_range]), Option.getD_none]
  refine ⟨List.length_range, fun index inside => ?_, fun index _ => ⟨0, .root (own index)⟩⟩
  rwa [own]

section Find

variable {parent : List ℕ} {size : ℕ} {representative : ℕ → ℕ}
  (represents : Represents parent size representative)

include represents

theorem Represents.representative_lt {index : ℕ} (inside : index < size) :
    representative index < size := by
  obtain ⟨steps, rooted⟩ := represents.rooted index inside
  generalize representative index = root at rooted
  induction rooted with
  | root => exact inside
  | step _ _ ih => exact ih (represents.closed _ inside)

/-- Halving a path keeps every representative. -/
theorem Represents.halve {index : ℕ} (inside : index < size)
    (nonroot : parentOf parent index ≠ index) :
    Represents (parent.set index (parentOf parent (parentOf parent index))) size representative := by
  have short := represents.length
  refine ⟨by rw [List.length_set, short], ?_, ?_⟩
  · intro other within
    rw [parentOf_set (short ▸ inside)]
    rcases eq_or_ne other index with rfl | apart
    · rw [Function.update_self]
      exact represents.closed _ (represents.closed _ within)
    · rw [Function.update_of_ne apart]
      exact represents.closed _ within
  · intro other within
    obtain ⟨steps, rooted⟩ := represents.rooted other within
    obtain ⟨fewer, -, found⟩ := rooted.halve nonroot
    rw [parentOf_set (short ▸ inside)]
    exact ⟨fewer, found⟩

theorem findRoot_represents {fuel index steps : ℕ} (inside : index < size)
    (rooted : Rooted (parentOf parent) index (representative index) steps)
    (enough : steps ≤ fuel) :
    (findRoot fuel parent index).1 = representative index ∧
      Represents (findRoot fuel parent index).2 size representative := by
  induction fuel generalizing parent index steps with
  | zero =>
      obtain rfl := Nat.le_zero.mp enough
      refine ⟨?_, represents⟩
      generalize representative index = root at rooted
      cases rooted
      rfl
  | succ fuel ih =>
      rw [findRoot]
      change (if parentOf parent index = index then (index, parent) else
        findRoot fuel (parent.set index (parentOf parent (parentOf parent index)))
          (parentOf parent (parentOf parent index))).1 = _ ∧
        Represents (if parentOf parent index = index then (index, parent) else
          findRoot fuel (parent.set index (parentOf parent (parentOf parent index)))
            (parentOf parent (parentOf parent index))).2 size representative
      split_ifs with top
      · exact ⟨((Rooted.root top).unique rooted).1, represents⟩
      · have halved := represents.halve inside top
        have within := represents.closed _ (represents.closed _ inside)
        obtain ⟨others, rest⟩ := represents.rooted _ within
        obtain ⟨fewer, few, short⟩ := rest.halve top
        rw [← parentOf_set (represents.length ▸ inside)] at short
        have same : representative (parentOf parent (parentOf parent index)) =
            representative index ∧ others ≤ steps - 1 := by
          generalize representative index = root at rooted
          cases rooted with
          | root same => exact absurd same top
          | @step _ _ steps _ above =>
              cases above with
              | root same =>
                  rw [same] at rest ⊢
                  obtain ⟨sameRoot, sameSteps⟩ := rest.unique (.root same)
                  exact ⟨sameRoot, by omega⟩
              | @step _ _ steps _ above =>
                  obtain ⟨sameRoot, sameSteps⟩ := rest.unique above
                  exact ⟨sameRoot, by omega⟩
        rw [← same.1]
        exact ih halved within short (by omega)

/-- A search returns the representative and keeps all of them. -/
theorem find_represents (index : ℕ) (inside : index < size) :
    (find parent index).1 = representative index ∧
      Represents (find parent index).2 size representative := by
  obtain ⟨steps, rooted⟩ := represents.rooted index inside
  have few := rooted.steps_lt represents.closed inside
  rw [find, represents.length]
  exact findRoot_represents represents inside rooted few.le

/-- A union merges the two classes. -/
theorem union_represents {left right : ℕ} (inLeft : left < size) (inRight : right < size) :
    Represents (union parent left right) size (merge representative (left, right)) := by
  obtain ⟨leftRoot, between⟩ := find_represents represents _ inLeft
  obtain ⟨rightRoot, found⟩ := find_represents between _ inRight
  rw [union]
  generalize find parent left = first at *
  obtain ⟨top, middle⟩ := first
  dsimp only at leftRoot between rightRoot found ⊢
  generalize find middle right = second at *
  obtain ⟨under, last⟩ := second
  dsimp only at rightRoot found ⊢
  subst leftRoot
  subst rightRoot
  obtain ⟨topSteps, isTop⟩ := found.rooted left inLeft
  obtain ⟨underSteps, isUnder⟩ := found.rooted right inRight
  split_ifs with apart
  · have under := represents.representative_lt inRight
    refine ⟨by rw [List.length_set, found.length], ?_, ?_⟩
    · intro index inside
      rw [parentOf_set (found.length ▸ under)]
      rcases eq_or_ne index (representative right) with rfl | away
      · rw [Function.update_self]
        exact represents.representative_lt inLeft
      · rw [Function.update_of_ne away]
        exact found.closed _ inside
    · intro index inside
      obtain ⟨steps, rooted⟩ := found.rooted index inside
      rw [parentOf_set (found.length ▸ under), merge]
      exact rooted.link isUnder.fixed isTop.fixed apart.symm
  · rw [not_ne_iff] at apart
    refine ⟨found.length, found.closed, fun index inside => ?_⟩
    obtain ⟨steps, rooted⟩ := found.rooted index inside
    refine ⟨steps, ?_⟩
    rw [merge]
    split_ifs with same
    · rw [apart, ← same]
      exact rooted
    · exact rooted

end Find

/-- Unions made pair by pair. -/
theorem foldl_union_represents {size : ℕ} {pairs : List (ℕ × ℕ)}
    (inside : ∀ pair ∈ pairs, pair.1 < size ∧ pair.2 < size) {parent : List ℕ}
    {representative : ℕ → ℕ} (represents : Represents parent size representative) :
    Represents (pairs.foldl (fun parent pair => union parent pair.1 pair.2) parent) size
      (pairs.foldl merge representative) := by
  induction pairs generalizing parent representative with
  | nil => exact represents
  | cons pair pairs ih =>
      obtain ⟨inLeft, inRight⟩ := inside pair (.head _)
      exact ih (fun other listed => inside other (.tail _ listed))
        (union_represents represents inLeft inRight)

end Verbatus.Ink
