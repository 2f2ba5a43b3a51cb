import Mathlib.Data.List.TakeWhile
import Mathlib.Logic.Relation
import Mathlib.Tactic

namespace Verbatus.Library

/-- Characters with their full canonical decompositions and their combining classes; a character of
    class zero starts a combining sequence. -/
structure Combining (α : Type) where
  decompose : α → List α
  rank : α → ℕ

namespace Combining

variable {α β : Type} (combining : Combining α)

/-- One character decomposed, or two neighbouring marks of different classes exchanged. -/
inductive Step : List α → List α → Prop where
  | decompose (character : α) (rest : List α) :
    Step (character :: rest) (combining.decompose character ++ rest)
  | exchange (first second : α) (rest : List α) :
    combining.decompose first = [first] → combining.decompose second = [second] →
      combining.rank first ≠ 0 → combining.rank second ≠ 0 →
        combining.rank first ≠ combining.rank second →
          Step (first :: second :: rest) (second :: first :: rest)
  | cons (character : α) {text other : List α} :
    Step text other → Step (character :: text) (character :: other)

/-- Canonical equivalence. -/
def Equivalent : List α → List α → Prop := Relation.EqvGen combining.Step

variable {combining} {text other : List α}

theorem Equivalent.refl (text : List α) : combining.Equivalent text text :=
  Relation.EqvGen.refl text

theorem Equivalent.symm (same : combining.Equivalent text other) : combining.Equivalent other text :=
  Relation.EqvGen.symm _ _ same

theorem Equivalent.trans {third : List α} (first : combining.Equivalent text other)
    (second : combining.Equivalent other third) : combining.Equivalent text third :=
  Relation.EqvGen.trans _ _ _ first second

theorem Step.equivalent (step : combining.Step text other) : combining.Equivalent text other :=
  .rel _ _ step

/-- What no step changes is the same in equivalent texts. -/
theorem Equivalent.invariant {measure : List α → β}
    (kept : ∀ text other, combining.Step text other → measure text = measure other)
    (same : combining.Equivalent text other) : measure text = measure other := by
  induction same with
  | rel _ _ step => exact kept _ _ step
  | refl => rfl
  | symm _ _ _ ih => exact ih.symm
  | trans _ _ _ _ _ first second => exact first.trans second

/-- What takes steps to equivalent texts takes equivalent texts to equivalent texts. -/
theorem Equivalent.map {image : List α → List α}
    (kept : ∀ text other, combining.Step text other →
      combining.Equivalent (image text) (image other))
    (same : combining.Equivalent text other) : combining.Equivalent (image text) (image other) := by
  induction same with
  | rel _ _ step => exact kept _ _ step
  | refl => exact .refl _
  | symm _ _ _ ih => exact ih.symm
  | trans _ _ _ _ _ first second => exact first.trans second

theorem Equivalent.cons (character : α) (same : combining.Equivalent text other) :
    combining.Equivalent (character :: text) (character :: other) :=
  same.map fun _ _ step => (Step.cons character step).equivalent

theorem Equivalent.append (before : List α) (same : combining.Equivalent text other) :
    combining.Equivalent (before ++ text) (before ++ other) := by
  induction before with
  | nil => exact same
  | cons character before ih => exact ih.cons character

/-- A kind of character that a character is of exactly when a piece of it is, is met in a text
    exactly when it is met in an equivalent one. -/
theorem Equivalent.exists_iff {kind : α → Prop}
    (pieces : ∀ character, kind character ↔ ∃ piece ∈ combining.decompose character, kind piece)
    (same : combining.Equivalent text other) :
    (∃ character ∈ text, kind character) ↔ ∃ character ∈ other, kind character := by
  refine iff_of_eq (@Equivalent.invariant _ _ _ text other (fun text => ∃ character ∈ text, kind character) ?_ same)
  intro text other step
  refine propext ?_
  induction step with
  | decompose character rest => simp [or_and_right, exists_or, pieces character]
  | exchange first second rest => simp [or_left_comm]
  | cons character _ ih => simp [ih]

variable (combining)

/-- Whether a text is a mark of a combining sequence that has begun. -/
def isMark (character : α) : Bool := combining.rank character ≠ 0

/-- The first mark of a class among the marks a text begins with. -/
def firstOfRank (rank : ℕ) (text : List α) : Option α :=
  ((text.flatMap combining.decompose).takeWhile combining.isMark).find? fun mark =>
    combining.rank mark = rank

variable {combining} {rank : ℕ}

theorem firstOfRank_cons (character : α) (text : List α) :
    combining.firstOfRank rank (character :: text) =
      if (combining.decompose character).all combining.isMark then
        ((combining.decompose character).find? fun mark => combining.rank mark = rank).or
          (combining.firstOfRank rank text)
      else ((combining.decompose character).takeWhile combining.isMark).find? fun mark =>
        combining.rank mark = rank := by
  rw [firstOfRank, List.flatMap_cons]
  split_ifs with marks
  · have all := List.all_eq_true.mp marks
    rw [List.takeWhile_append_of_pos fun mark listed => all mark listed, List.find?_append]
    rfl
  · rw [List.takeWhile_append, if_neg]
    intro whole
    refine marks (List.all_eq_true.mpr ?_)
    rw [← List.takeWhile_eq_self_iff]
    exact (List.takeWhile_prefix _).eq_of_length whole

/-- A character that starts a combining sequence ends the marks before it. -/
theorem firstOfRank_starter {character piece : α} {later : List α}
    (decomposed : combining.decompose character = piece :: later)
    (starter : combining.rank piece = 0) (text : List α) :
    combining.firstOfRank rank (character :: text) = none := by
  have unmarked : combining.isMark piece = false := by simp [isMark, starter]
  rw [firstOfRank, List.flatMap_cons, decomposed, List.cons_append,
    List.takeWhile_cons_of_neg (by simp [unmarked])]
  rfl

/-- The first mark of a class is the same in equivalent texts, where decompositions are full. -/
theorem firstOfRank_step
    (full : ∀ character, ∀ part ∈ combining.decompose character, combining.decompose part = [part])
    (step : combining.Step text other) :
    combining.firstOfRank rank text = combining.firstOfRank rank other := by
  induction step with
  | decompose character rest =>
      have again : (combining.decompose character).flatMap combining.decompose =
          combining.decompose character := by
        rw [List.flatMap_congr (full character)]
        exact List.flatMap_singleton' _
      rw [firstOfRank, firstOfRank, List.flatMap_cons, List.flatMap_append, again]
  | exchange first second rest plainFirst plainSecond firstMark secondMark differ =>
      have one : combining.isMark first = true := decide_eq_true firstMark
      have two : combining.isMark second = true := decide_eq_true secondMark
      rw [firstOfRank_cons, firstOfRank_cons, firstOfRank_cons, firstOfRank_cons, plainFirst,
        plainSecond]
      simp only [List.all_cons, one, two, List.all_nil, Bool.and_self, if_true, List.find?_cons,
        List.find?_nil]
      by_cases here : combining.rank first = rank
      · have there : ¬ combining.rank second = rank := fun same => differ (here.trans same.symm)
        simp [here, there]
      · simp [here]
  | cons character _ ih => rw [firstOfRank_cons, firstOfRank_cons, ih]

end Combining

end Verbatus.Library
