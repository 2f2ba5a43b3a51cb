import Verbatus.Ink.ComponentBounds
import Verbatus.Ink.UnionFind

namespace Verbatus.Ink

open Library

section Monotone

variable {α : Type} {p : α → Bool} {elements : List α}

/-- Where a property once lost stays lost, the elements in front that have it are all that do. -/
theorem takeWhile_eq_filter (once : elements.Pairwise fun first second => p second → p first) :
    elements.takeWhile p = elements.filter p := by
  induction elements with
  | nil => rfl
  | cons first elements ih =>
      obtain ⟨before, once⟩ := List.pairwise_cons.mp once
      rw [List.takeWhile_cons, List.filter_cons]
      split_ifs with here
      · rw [ih once]
      · symm
        rw [List.filter_eq_nil_iff]
        exact fun other listed holds => here (before other listed holds)

theorem dropWhile_eq_filter (once : elements.Pairwise fun first second => p second → p first) :
    elements.dropWhile p = elements.filter fun element => !p element := by
  induction elements with
  | nil => rfl
  | cons first elements ih =>
      obtain ⟨before, once⟩ := List.pairwise_cons.mp once
      rw [List.dropWhile_cons, List.filter_cons]
      by_cases here : p first
      · rw [if_pos here, if_neg (by simp [here]), ih once]
      · rw [if_neg here, if_pos (by simp [here])]
        congr 1
        symm
        rw [List.filter_eq_self]
        intro other listed
        have lost : ¬p other := fun holds => here (before other listed holds)
        simp [lost]

end Monotone

/-- The run an index stands for. -/
abbrev runAt (table : List Run) (index : ℕ) : Run := table.getD index default

/-- Unions made pair by pair, as the sweep makes them. -/
def unions (pairs : List (ℕ × ℕ)) (parent : List ℕ) : List ℕ :=
  pairs.foldl (fun parent pair => union parent pair.1 pair.2) parent

section Pairs

variable (table : List Run) (gapTolerancePx : ℤ)

/-- The neighbours of a scanline that join. -/
def scanlinePairs (current : List ℕ) : List (ℕ × ℕ) :=
  (current.zip current.tail).filter fun pair =>
    (runAt table pair.2).x0 - (runAt table pair.1).x1 ≤ gapTolerancePx

/-- Whether two runs of different scanlines come near enough across. -/
def Meets (radius : ℤ) (left right : Run) : Prop :=
  left.x0 < right.x1 + radius ∧ right.x0 < left.x1 + radius

instance (radius : ℤ) (left right : Run) : Decidable (Meets radius left right) :=
  inferInstanceAs (Decidable (_ ∧ _))

/-- The runs of one scanline with the runs of an earlier one they join. -/
def earlierPairs (radius : ℤ) (current previous : List ℕ) : List (ℕ × ℕ) :=
  current.flatMap fun left => (previous.filter fun right =>
    Meets radius (runAt table left) (runAt table right)).map fun right => (left, right)

/-- Everything one scanline joins. -/
def rowPairs (rows : List (ℤ × List ℕ)) (row : ℤ × List ℕ) : List (ℕ × ℕ) :=
  scanlinePairs table gapTolerancePx row.2 ++
    (List.range (gapTolerancePx + 1).toNat).flatMap fun offset =>
      earlierPairs table (gapTolerancePx + 1) row.2 (((rows.find? fun other =>
        other.1 = row.1 - (gapTolerancePx + 1) + offset).map Prod.snd).getD [])

end Pairs

section Sweep

variable {table : List Run} {gapTolerancePx : ℤ}

/-- The runs of a scanline ascend: each starts where the one before it has ended. -/
def Ascending (table : List Run) (indices : List ℕ) : Prop :=
  (∀ index ∈ indices, (runAt table index).x0 < (runAt table index).x1) ∧
    indices.Pairwise fun left right => (runAt table left).x1 ≤ (runAt table right).x0

theorem Ascending.starts {indices : List ℕ} (ascending : Ascending table indices) :
    indices.Pairwise fun left right => (runAt table left).x0 ≤ (runAt table right).x0 := by
  refine ascending.2.imp_of_mem fun {left right} inLeft _ apart => ?_
  exact (ascending.1 left inLeft).le.trans apart

theorem Ascending.ends {indices : List ℕ} (ascending : Ascending table indices) :
    indices.Pairwise fun left right => (runAt table left).x1 ≤ (runAt table right).x1 := by
  refine ascending.2.imp_of_mem fun {left right} _ inRight apart => ?_
  exact apart.trans (ascending.1 right inRight).le

theorem joinScanline_eq (parent current : List ℕ) :
    joinScanline table gapTolerancePx parent current =
      unions (scanlinePairs table gapTolerancePx current) parent := by
  rw [unions, scanlinePairs, List.foldl_filter]
  simp only [decide_eq_true_eq]
  rfl

/-- The pointer skips only runs too far left for this run and for every later one. -/
theorem foldl_joinEarlier (radius : ℤ) {current previous ahead : List ℕ} (parent : List ℕ)
    (sorted : current.Pairwise fun left right =>
      (runAt table left).x0 ≤ (runAt table right).x0)
    (ascending : Ascending table previous)
    (passed : ∀ left ∈ current,
      (ahead.dropWhile fun right => (runAt table right).x1 + radius ≤ (runAt table left).x0) =
        previous.filter fun right => (runAt table left).x0 < (runAt table right).x1 + radius) :
    (current.foldl (joinEarlier table radius) (parent, ahead)).1 =
      unions (earlierPairs table radius current previous) parent := by
  induction current generalizing parent ahead with
  | nil => rfl
  | cons left current ih =>
      obtain ⟨before, sorted⟩ := List.pairwise_cons.mp sorted
      have here := passed left (.head _)
      have reached : ((ahead.dropWhile fun right =>
          (runAt table right).x1 + radius ≤ (runAt table left).x0).takeWhile fun right =>
            ¬ (runAt table right).x0 ≥ (runAt table left).x1 + radius) =
          previous.filter fun right => Meets radius (runAt table left) (runAt table right) := by
        rw [here, takeWhile_eq_filter, List.filter_filter]
        · apply List.filter_congr
          intro right _
          rw [Bool.eq_iff_iff, Bool.and_eq_true, decide_eq_true_eq, decide_eq_true_eq,
            decide_eq_true_eq, not_le, Meets]
          exact and_comm
        · refine (ascending.starts.filter _).imp fun {first second} order => ?_
          rw [decide_eq_true_eq, decide_eq_true_eq]
          omega
      rw [List.foldl_cons, joinEarlier, earlierPairs, List.flatMap_cons, unions, List.foldl_append]
      rw [reached, List.foldl_map]
      refine ih _ sorted fun next listed => ?_
      have later := before next listed
      rw [here, dropWhile_eq_filter, List.filter_filter]
      · apply List.filter_congr
        intro right _
        rw [Bool.eq_iff_iff, Bool.and_eq_true, Bool.not_eq_true', decide_eq_false_iff_not,
          decide_eq_true_eq, decide_eq_true_eq]
        omega
      · refine (ascending.ends.filter _).imp fun {first second} order => ?_
        rw [decide_eq_true_eq, decide_eq_true_eq]
        omega

/-- One scanline's sweep makes exactly the unions of its pairs. -/
theorem sweepRow_eq {rows : List (ℤ × List ℕ)}
    (ascending : ∀ row ∈ rows, Ascending table row.2) (parent : List ℕ) {row : ℤ × List ℕ}
    (listed : row ∈ rows) : sweepRow table gapTolerancePx rows parent row =
      unions (rowPairs table gapTolerancePx rows row) parent := by
  rw [sweepRow, joinScanline_eq, rowPairs, unions, unions, List.foldl_append, List.foldl_flatMap]
  congr 1
  funext between offset
  have previous : Ascending table (((rows.find? fun other =>
      other.1 = row.1 - (gapTolerancePx + 1) + offset).map Prod.snd).getD []) := by
    cases found : rows.find? fun other => other.1 = row.1 - (gapTolerancePx + 1) + offset with
    | none => exact ⟨nofun, .nil⟩
    | some other => exact ascending other (List.mem_of_find?_eq_some found)
  refine foldl_joinEarlier _ between (ascending row listed).starts previous fun left _ => ?_
  rw [dropWhile_eq_filter]
  · apply List.filter_congr
    intro right _
    rw [Bool.eq_iff_iff, Bool.not_eq_true', decide_eq_false_iff_not, decide_eq_true_eq, not_le]
  · refine previous.ends.imp fun {first second} order => ?_
    rw [decide_eq_true_eq, decide_eq_true_eq]
    omega

/-- The whole sweep makes exactly the unions of all the pairs. -/
theorem foldl_sweepRow (gapTolerancePx : ℤ) {rows : List (ℤ × List ℕ)}
    (ascending : ∀ row ∈ rows, Ascending table row.2) (parent : List ℕ) :
    rows.foldl (sweepRow table gapTolerancePx rows) parent =
      unions (rows.flatMap (rowPairs table gapTolerancePx rows)) parent := by
  rw [unions, List.foldl_flatMap]
  exact List.foldl_ext _ _ _ fun parent row listed => sweepRow_eq ascending parent listed

end Sweep

end Verbatus.Ink
