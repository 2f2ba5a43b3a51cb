import Mathlib

namespace Verbatus.Library.Ownership

variable {ι κ μ α : Type}

/-- What one member of a family claims and no other member claims. -/
def own (claims : ι → Set α) (member : ι) : Set α :=
  {item | item ∈ claims member ∧ ∀ other, item ∈ claims other → other = member}

theorem own_subset (claims : ι → Set α) (member : ι) : own claims member ⊆ claims member :=
  fun _ held => held.1

theorem own_unique {claims : ι → Set α} {first second : ι} {item : α}
    (owned : item ∈ own claims first) (claimed : item ∈ claims second) : second = first :=
  owned.2 second claimed

/-- The members that claim something nobody else does. -/
abbrev Owner (claims : ι → Set α) := {member : ι // (own claims member).Nonempty}

/-- A later family keeps each owner's items together, in a member that takes no other owner's. -/
structure Follows (earlier : ι → Set α) (later : κ → Set α) (image : Owner earlier → κ) : Prop where
  kept : ∀ owner : Owner earlier, own earlier owner ⊆ own later (image owner)
  apart : ∀ owner other : Owner earlier, owner ≠ other →
    Disjoint (later (image owner)) (own earlier other)

theorem Follows.refl (claims : ι → Set α) :
    Follows claims claims fun owner : Owner claims => (owner : ι) where
  kept _ _ held := held
  apart owner other different := by
    rw [Set.disjoint_left]
    intro item claimed owned
    exact different (Subtype.ext (own_unique owned claimed))

section Composition

variable {earlier : ι → Set α} {middle : κ → Set α} {later : μ → Set α}
  {image : Owner earlier → κ} {next : Owner middle → μ}

/-- No two owners share an image, since each image keeps what its own owner claims. -/
theorem Follows.injective (follows : Follows earlier middle image) : Function.Injective image := by
  intro owner other same
  by_contra different
  obtain ⟨item, owned⟩ := other.2
  have claimed := own_subset _ _ (follows.kept other owned)
  rw [← same] at claimed
  exact Set.disjoint_left.mp (follows.apart owner other different) claimed owned

/-- An image owns what its owner owned, so it is an owner of its own family. -/
def Follows.lift (follows : Follows earlier middle image) (owner : Owner earlier) : Owner middle :=
  ⟨image owner, owner.2.mono (follows.kept owner)⟩

theorem Follows.trans (first : Follows earlier middle image) (second : Follows middle later next) :
    Follows earlier later fun owner => next (first.lift owner) where
  kept owner := (first.kept owner).trans (second.kept (first.lift owner))
  apart owner other different := by
    have images : first.lift owner ≠ first.lift other := fun same =>
      different (first.injective (congrArg Subtype.val same))
    exact (second.apart _ _ images).mono_right (first.kept other)

end Composition

end Verbatus.Library.Ownership
