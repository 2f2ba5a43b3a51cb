import Mathlib.Logic.Relation
import Mathlib.Order.WellFounded
import Mathlib.Order.OrderIsoNat
import Mathlib.Tactic

namespace Verbatus.Library

variable {σ κ : Type} {step : σ → σ → Prop} {start : σ}

/-- The states a run of the steps leads to. -/
abbrev Reached (step : σ → σ → Prop) (start state : σ) : Prop :=
  Relation.ReflTransGen step start state

/-- What the start has and every step from a reached state keeps, every reached state has. -/
@[elab_as_elim]
theorem Reached.invariant {motive : σ → Prop} {state : σ} (reached : Reached step start state)
    (initial : motive start)
    (kept : ∀ {state next}, Reached step start state → motive state → step state next →
      motive next) : motive state := by
  induction reached with
  | refl => exact initial
  | tail earlier last ih => exact kept earlier ih last

section Falling

variable {relation : κ → κ → Prop} (wellFounded : WellFounded relation) (rank : σ → κ)

include wellFounded

/-- Steps that lower a well-founded rank at every reached state cannot go on forever. -/
theorem no_endless_run
    (lowers : ∀ {state next}, Reached step start state → step state next →
      relation (rank next) (rank state)) :
    ¬ ∃ run : ℕ → σ, run 0 = start ∧ ∀ index, step (run index) (run (index + 1)) := by
  rintro ⟨run, first, each⟩
  have reached : ∀ index, Reached step start (run index) := by
    intro index
    induction index with
    | zero => exact first ▸ .refl
    | succ index ih => exact ih.tail (each index)
  have falling : ∀ index, relation (rank (run (index + 1))) (rank (run index)) :=
    fun index => lowers (reached index) (each index)
  exact (wellFounded_iff_isEmpty_descending_chain.mp wellFounded).false
    ⟨fun index => rank (run index), falling⟩

/-- A run that falls in rank and is never stuck before its end reaches an end. -/
theorem exists_ended {ended : σ → Prop}
    (lowers : ∀ {state next}, Reached step start state → step state next →
      relation (rank next) (rank state))
    (moves : ∀ {state}, Reached step start state → ended state ∨ ∃ next, step state next)
    {state : σ} (reached : Reached step start state) :
    ∃ last, Reached step state last ∧ ended last := by
  suffices each : ∀ (level : κ) (state : σ), rank state = level → Reached step start state →
      ∃ last, Reached step state last ∧ ended last from each _ state rfl reached
  intro level
  induction level using wellFounded.induction with
  | h level ih =>
      intro state same reached
      rcases moves reached with done | ⟨next, move⟩
      · exact ⟨state, .refl, done⟩
      · obtain ⟨last, rest, done⟩ :=
          ih (rank next) (same ▸ lowers reached move) next rfl (reached.tail move)
        exact ⟨last, .head move rest, done⟩

end Falling

end Verbatus.Library
