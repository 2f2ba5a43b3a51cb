import Verbatus.Ink.Components
import Verbatus.Library.Grouping
import Verbatus.Library.Sorting

namespace Verbatus.Ink.PixelSet

open Library Library.Spans Library.ByteRow

/-- An ink pixel, its column and its row. -/
abbrev Pixel := ℤ × ℤ

/-- One more pixel of a sorted row: the runs that have ended, and the one that has not. -/
def runStep (state : List (ℤ × ℤ) × ℤ × ℤ) (x : ℤ) : List (ℤ × ℤ) × ℤ × ℤ :=
  let (runs, start, previous) := state
  if x > previous + 1 then (runs ++ [(start, previous + 1)], x, x) else (runs, start, x)

/-- The maximal half-open runs of a row's pixels, in whatever order and however often given. -/
def runsOfColumn (column : List ℤ) : List (ℤ × ℤ) :=
  match sortBy id column with
  | [] => []
  | first :: rest =>
    let (runs, start, previous) := rest.foldl runStep ([], first, first)
    runs ++ [(start, previous + 1)]

/-- The pixel set as maximal horizontal runs, one ascending list for each scanline. -/
def inkRunsByRow (pixels : List Pixel) : List (ℤ × List (ℤ × ℤ)) :=
  (groupBy (pixels.map fun pixel => (pixel.2, pixel.1))).map fun row =>
    (row.1, runsOfColumn row.2)

/-- The runs of a row hold exactly its pixels, with a blank pixel between any two. -/
structure RunsOf (column : List ℤ) (runs : List (ℤ × ℤ)) : Prop where
  nonempty : ∀ run ∈ runs, run.1 < run.2
  apart : runs.Pairwise fun first second => first.2 < second.1
  holds : ∀ x, x ∈ column ↔ ∃ run ∈ runs, run.1 ≤ x ∧ x < run.2

/-- The runs of each scanline are the maximal runs of the pixels on it. -/
structure MaximalRuns (runsByRow : List (ℤ × List (ℤ × ℤ))) (pixels : List Pixel) : Prop where
  distinct : (runsByRow.map Prod.fst).Nodup
  rows : ∀ row ∈ runsByRow, (∀ run ∈ row.2, run.1 < run.2) ∧
    row.2.Pairwise fun first second => first.2 < second.1
  holds : ∀ x y, (x, y) ∈ pixels ↔
    ∃ row ∈ runsByRow, row.1 = y ∧ ∃ run ∈ row.2, run.1 ≤ x ∧ x < run.2

section Runs

/-- What a turn keeps: the open run ends at the last pixel, and with the ended ones it holds every
pixel so far. -/
structure Running (seen : List ℤ) (state : List (ℤ × ℤ) × ℤ × ℤ) : Prop where
  open_ : state.2.1 ≤ state.2.2
  nonempty : ∀ run ∈ state.1, run.1 < run.2
  before : ∀ run ∈ state.1, run.2 < state.2.1
  apart : state.1.Pairwise fun first second => first.2 < second.1
  holds : ∀ x, x ∈ seen ↔
    (∃ run ∈ state.1, run.1 ≤ x ∧ x < run.2) ∨ state.2.1 ≤ x ∧ x ≤ state.2.2

theorem runStep_running {seen : List ℤ} {state : List (ℤ × ℤ) × ℤ × ℤ} {x : ℤ}
    (running : Running seen state) (sorted : state.2.2 ≤ x) :
    Running (seen ++ [x]) (runStep state x) := by
  obtain ⟨runs, start, previous⟩ := state
  obtain ⟨begun, nonempty, before, apart, holds⟩ := running
  dsimp only at begun nonempty before apart holds sorted
  rw [runStep]
  split_ifs with blank
  · refine ⟨le_rfl, ?_, ?_, ?_, ?_⟩
    · intro run listed
      rcases List.mem_append.mp listed with old | new
      · exact nonempty run old
      · rw [List.mem_singleton.mp new]
        dsimp only
        omega
    · intro run listed
      rcases List.mem_append.mp listed with old | new
      · have early := before run old
        dsimp only
        omega
      · rw [List.mem_singleton.mp new]
        dsimp only
        omega
    · refine List.pairwise_append.mpr ⟨apart, List.pairwise_singleton _ _, ?_⟩
      intro run old other new
      rw [List.mem_singleton.mp new]
      exact before run old
    · intro z
      rw [List.mem_append, List.mem_singleton, holds]
      simp only [List.mem_append, List.mem_singleton, or_and_right, exists_or, exists_eq_left]
      have ends : z < previous + 1 ↔ z ≤ previous := Int.lt_add_one_iff
      have single : x ≤ z ∧ z ≤ x ↔ z = x := by omega
      rw [ends, single]
  · refine ⟨begun.trans sorted, nonempty, before, apart, ?_⟩
    intro z
    rw [List.mem_append, List.mem_singleton, holds, or_assoc]
    refine or_congr_right ?_
    dsimp only
    omega

theorem foldl_running {rest seen : List ℤ} {state : List (ℤ × ℤ) × ℤ × ℤ}
    (running : Running seen state) (sorted : rest.Pairwise (· ≤ ·))
    (after : ∀ x ∈ rest, state.2.2 ≤ x) : Running (seen ++ rest) (rest.foldl runStep state) := by
  induction rest generalizing seen state with
  | nil => rwa [List.append_nil]
  | cons x rest ih =>
      obtain ⟨least, sorted⟩ := List.pairwise_cons.mp sorted
      rw [List.foldl_cons, List.append_cons]
      refine ih (runStep_running running (after x (.head _))) sorted ?_
      intro other listed
      have reached : (runStep state x).2.2 = x := by
        rw [runStep]
        split_ifs <;> rfl
      rw [reached]
      exact least other listed

theorem runsOfColumn_runsOf (column : List ℤ) : RunsOf column (runsOfColumn column) := by
  have sorted := sortBy_pairwise id column
  have same : ∀ x, x ∈ sortBy id column ↔ x ∈ column := fun x => mem_sortBy id
  rw [runsOfColumn]
  cases listed : sortBy id column with
  | nil =>
      refine ⟨nofun, .nil, fun x => ?_⟩
      rw [← same, listed]
      simp
  | cons first rest =>
      rw [listed] at sorted
      obtain ⟨least, sorted⟩ := List.pairwise_cons.mp sorted
      have start : Running [first] ([], first, first) := by
        refine ⟨le_rfl, nofun, nofun, .nil, fun x => ?_⟩
        simp only [List.mem_singleton, List.not_mem_nil, false_and, exists_false, false_or]
        omega
      have running := foldl_running start sorted least
      dsimp only
      generalize rest.foldl runStep ([], first, first) = state at running
      obtain ⟨runs, start, previous⟩ := state
      obtain ⟨begun, nonempty, before, apart, holds⟩ := running
      dsimp only at begun nonempty before apart holds ⊢
      refine ⟨?_, ?_, ?_⟩
      · intro run inside
        rcases List.mem_append.mp inside with old | last
        · exact nonempty run old
        · rw [List.mem_singleton.mp last]
          dsimp only
          omega
      · refine List.pairwise_append.mpr ⟨apart, List.pairwise_singleton _ _, ?_⟩
        intro run old other last
        rw [List.mem_singleton.mp last]
        exact before run old
      · intro x
        rw [← same, listed, ← List.singleton_append, holds]
        simp only [List.mem_append, List.mem_singleton, or_and_right, exists_or, exists_eq_left]
        have ends : x < previous + 1 ↔ x ≤ previous := Int.lt_add_one_iff
        rw [ends]

/-- The runs of a pixel set are maximal and hold exactly its pixels. -/
theorem inkRunsByRow_maximal (pixels : List Pixel) : MaximalRuns (inkRunsByRow pixels) pixels := by
  have grouped := groupBy_grouped (pixels.map fun pixel : Pixel => (pixel.2, pixel.1))
  refine ⟨?_, ?_, ?_⟩
  · rw [inkRunsByRow, List.map_map]
    exact grouped.distinct
  · intro row listed
    obtain ⟨group, _, rfl⟩ := List.mem_map.mp listed
    have runs := runsOfColumn_runsOf group.2
    exact ⟨runs.nonempty, runs.apart⟩
  · intro x y
    constructor
    · intro inside
      obtain ⟨members, listed, member⟩ := grouped.exists_of_mem
        (List.mem_map_of_mem (f := fun pixel : Pixel => (pixel.2, pixel.1)) inside)
      refine ⟨_, List.mem_map_of_mem listed, rfl, ?_⟩
      exact ((runsOfColumn_runsOf members).holds x).mp member
    · rintro ⟨row, listed, rfl, held⟩
      obtain ⟨group, inside, rfl⟩ := List.mem_map.mp listed
      have member := ((runsOfColumn_runsOf group.2).holds x).mpr held
      obtain ⟨pixel, given, same⟩ := List.mem_map.mp ((grouped.mem_iff inside).mp member)
      obtain ⟨sameRow, sameColumn⟩ := Prod.mk.inj same
      dsimp only
      rw [← sameRow, ← sameColumn]
      exact given

end Runs

section Scanlines

variable {bits : List UInt8}

/-- A run found in a scanline stops at a blank pixel or at its end. -/
theorem runsFrom_stops {fuel : ℕ} {start : Option ℕ} {run : ℕ × ℕ}
    (listed : run ∈ runsFrom bits fuel start) : bits[run.2]? ≠ some 1 := by
  induction fuel generalizing start with
  | zero => cases listed
  | succ fuel ih =>
      cases start with
      | none => cases listed
      | some first =>
          rw [runsFrom, List.mem_cons] at listed
          rcases listed with rfl | later
          · cases found : findByte bits 0 first with
            | none =>
                rw [Option.getD_none, List.getElem?_eq_none le_rfl]
                simp
            | some stop =>
                rw [Option.getD_some, (findByte_eq_some found).2.1]
                decide
          · exact ih later

/-- The columns of a scanline's ink. -/
def inkColumns (bits : List UInt8) : List ℤ :=
  ((List.range bits.length).filter fun x => bits[x]? = some 1).map Nat.cast

theorem mem_inkColumns {x : ℤ} : x ∈ inkColumns bits ↔ OneAt bits x := by
  rw [inkColumns, List.mem_map]
  constructor
  · rintro ⟨place, kept, rfl⟩
    exact ⟨Int.natCast_nonneg _, of_decide_eq_true (List.mem_filter.mp kept).2⟩
  · rintro ⟨nonneg, one⟩
    obtain ⟨inside, _⟩ := List.getElem?_eq_some_iff.mp one
    refine ⟨x.toNat, List.mem_filter.mpr ⟨List.mem_range.mpr inside, decide_eq_true one⟩, ?_⟩
    exact Int.toNat_of_nonneg nonneg

/-- The runs of a translated scanline are the maximal runs of its ink. -/
theorem runsInRow_runsOf (binary : Binary bits) :
    RunsOf (inkColumns bits) (runSpans (runsInRow bits)) := by
  have spec := runsInRow_spec binary
  have ordered := spec.ordered
  refine ⟨ordered.nonempty, ?_, fun x => ?_⟩
  · refine ordered.apart.imp_of_mem ?_
    intro first second inFirst inSecond apart
    refine lt_of_le_of_ne apart fun meets => ?_
    obtain ⟨run, listed, rfl⟩ := List.mem_map.mp inFirst
    have blank := runsFrom_stops listed
    have begins : Covers (runSpans (runsInRow bits)) second.1 :=
      ⟨second, inSecond, le_rfl, ordered.nonempty second inSecond⟩
    have one := ((spec.covers second.1).mp begins).2.2
    rw [← meets] at one
    exact blank one
  · rw [mem_inkColumns]
    refine Iff.trans ?_ (spec.covers x).symm
    exact ⟨fun one => ⟨one.1, one⟩, And.right⟩

/-- The scanlines of a page give the maximal runs of its ink. -/
theorem scanlines_maximal {scanlines : List (ℤ × List UInt8)}
    (distinct : (scanlines.map Prod.fst).Nodup) (binary : ∀ line ∈ scanlines, Binary line.2) :
    MaximalRuns (scanlines.map fun line => (line.1, runSpans (runsInRow line.2)))
      (scanlines.flatMap fun line => (inkColumns line.2).map fun x => (x, line.1)) := by
  refine ⟨?_, ?_, ?_⟩
  · rw [List.map_map]
    exact distinct
  · intro row listed
    obtain ⟨line, inside, rfl⟩ := List.mem_map.mp listed
    have runs := runsInRow_runsOf (binary line inside)
    exact ⟨runs.nonempty, runs.apart⟩
  · intro x y
    constructor
    · intro given
      obtain ⟨line, inside, held⟩ := List.mem_flatMap.mp given
      obtain ⟨column, inked, same⟩ := List.mem_map.mp held
      obtain ⟨rfl, rfl⟩ := Prod.mk.inj same
      refine ⟨_, List.mem_map_of_mem inside, rfl, ?_⟩
      exact ((runsInRow_runsOf (binary line inside)).holds _).mp inked
    · rintro ⟨row, listed, rfl, held⟩
      obtain ⟨line, inside, rfl⟩ := List.mem_map.mp listed
      have inked := ((runsInRow_runsOf (binary line inside)).holds x).mpr held
      exact List.mem_flatMap.mpr ⟨line, inside, List.mem_map_of_mem inked⟩

end Scanlines

end Verbatus.Ink.PixelSet
