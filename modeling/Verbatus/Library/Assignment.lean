import Mathlib.Algebra.BigOperators.Group.Finset.Basic
import Mathlib.Algebra.Order.BigOperators.Group.Finset
import Mathlib.Tactic

namespace Verbatus.Library

variable {α β γ : Type}

/-- Pairs that use no row twice and no column twice. -/
def IsMatching (pairs : Finset (α × β)) : Prop :=
  Set.InjOn Prod.fst (pairs : Set (α × β)) ∧ Set.InjOn Prod.snd (pairs : Set (α × β))

/-- Pairs renamed on each side apart are a matching still. -/
theorem IsMatching.image [DecidableEq α] [DecidableEq β] {α' β' : Type} [DecidableEq α']
    [DecidableEq β'] {pairs : Finset (α × β)} (matching : IsMatching pairs) {row : α → α'}
    {col : β → β'} (rowsApart : Set.InjOn row (pairs.image Prod.fst))
    (colsApart : Set.InjOn col (pairs.image Prod.snd)) :
    IsMatching (pairs.image fun pair => (row pair.1, col pair.2)) := by
  constructor
  · rintro _ first _ second same
    obtain ⟨one, listed, rfl⟩ := Finset.mem_image.mp first
    obtain ⟨two, also, rfl⟩ := Finset.mem_image.mp second
    have rows := rowsApart (Finset.mem_coe.mpr (Finset.mem_image_of_mem _ listed))
      (Finset.mem_coe.mpr (Finset.mem_image_of_mem _ also)) same
    rw [matching.1 listed also rows]
  · rintro _ first _ second same
    obtain ⟨one, listed, rfl⟩ := Finset.mem_image.mp first
    obtain ⟨two, also, rfl⟩ := Finset.mem_image.mp second
    have cols := colsApart (Finset.mem_coe.mpr (Finset.mem_image_of_mem _ listed))
      (Finset.mem_coe.mpr (Finset.mem_image_of_mem _ also)) same
    rw [matching.2 listed also cols]

variable [AddCommMonoid γ] [PartialOrder γ] [IsOrderedAddMonoid γ] [DecidableEq α] [DecidableEq β]

/-- Potentials that cover every pair's weight bound the weight of every matching. -/
theorem IsMatching.sum_le {pairs : Finset (α × β)} (matching : IsMatching pairs)
    {rows : Finset α} {cols : Finset β} (within : ∀ pair ∈ pairs, pair.1 ∈ rows ∧ pair.2 ∈ cols)
    {weight : α × β → γ} {row : α → γ} {col : β → γ} (rowNonneg : ∀ index ∈ rows, 0 ≤ row index)
    (colNonneg : ∀ index ∈ cols, 0 ≤ col index)
    (covered : ∀ pair ∈ pairs, weight pair ≤ row pair.1 + col pair.2) :
    ∑ pair ∈ pairs, weight pair ≤ ∑ index ∈ rows, row index + ∑ index ∈ cols, col index := by
  have rowSum : ∑ pair ∈ pairs, row pair.1 ≤ ∑ index ∈ rows, row index := by
    rw [← Finset.sum_image (f := row) fun one listed two also same => matching.1 listed also same]
    refine Finset.sum_le_sum_of_subset_of_nonneg ?_ fun index listed _ => rowNonneg index listed
    exact Finset.image_subset_iff.mpr fun pair listed => (within pair listed).1
  have colSum : ∑ pair ∈ pairs, col pair.2 ≤ ∑ index ∈ cols, col index := by
    rw [← Finset.sum_image (f := col) fun one listed two also same => matching.2 listed also same]
    refine Finset.sum_le_sum_of_subset_of_nonneg ?_ fun index listed _ => colNonneg index listed
    exact Finset.image_subset_iff.mpr fun pair listed => (within pair listed).2
  calc ∑ pair ∈ pairs, weight pair
      ≤ ∑ pair ∈ pairs, (row pair.1 + col pair.2) := Finset.sum_le_sum covered
    _ = ∑ pair ∈ pairs, row pair.1 + ∑ pair ∈ pairs, col pair.2 := Finset.sum_add_distrib
    _ ≤ ∑ index ∈ rows, row index + ∑ index ∈ cols, col index := add_le_add rowSum colSum

end Verbatus.Library
