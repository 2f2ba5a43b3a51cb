import Verbatus.Ink.PixelRuns
import Verbatus.Ink.Sweep

namespace Verbatus.Ink.PixelSet

open Library

section Pixels

/-- The greater of the distances across and down. -/
def chebyshev (first second : Pixel) : ℤ := max |first.1 - second.1| |first.2 - second.2|

/-- Two pixels of a set at most the tolerated gap apart. -/
def Near (gapTolerancePx : ℤ) (pixels : List Pixel) (first second : Pixel) : Prop :=
  first ∈ pixels ∧ second ∈ pixels ∧ chebyshev first second ≤ gapTolerancePx + 1

/-- Connected pixels: the transitive closure of near ones. -/
def Connected (gapTolerancePx : ℤ) (pixels : List Pixel) : Pixel → Pixel → Prop :=
  Relation.TransGen (Near gapTolerancePx pixels)

variable {gapTolerancePx : ℤ} {pixels : List Pixel} {first second third : Pixel}

theorem Near.symm (near : Near gapTolerancePx pixels first second) :
    Near gapTolerancePx pixels second first := by
  obtain ⟨inFirst, inSecond, close⟩ := near
  refine ⟨inSecond, inFirst, ?_⟩
  rwa [chebyshev, abs_sub_comm, abs_sub_comm second.2]

theorem Connected.symm (connected : Connected gapTolerancePx pixels first second) :
    Connected gapTolerancePx pixels second first := by
  induction connected with
  | single near => exact .single near.symm
  | tail _ near ih => exact .head near.symm ih

theorem Connected.mem (connected : Connected gapTolerancePx pixels first second) :
    second ∈ pixels := by
  cases connected with
  | single near => exact near.2.1
  | tail _ near => exact near.2.1

/-- Pixels of one row, one step apart, are near at any tolerance. -/
theorem near_of_close (across : |first.1 - second.1| ≤ gapTolerancePx + 1)
    (down : |first.2 - second.2| ≤ gapTolerancePx + 1) (inFirst : first ∈ pixels)
    (inSecond : second ∈ pixels) : Near gapTolerancePx pixels first second :=
  ⟨inFirst, inSecond, max_le across down⟩

/-- The pixels a run holds. -/
def Holds (run : Run) (pixel : Pixel) : Prop :=
  run.y = pixel.2 ∧ run.x0 ≤ pixel.1 ∧ pixel.1 < run.x1

theorem connected_right (nonneg : 0 ≤ gapTolerancePx) {run : Run}
    (inside : ∀ pixel, Holds run pixel → pixel ∈ pixels) {x : ℤ} (steps : ℕ)
    (low : run.x0 ≤ x) (high : x + steps < run.x1) :
    Connected gapTolerancePx pixels (x, run.y) (x + steps, run.y) := by
  induction steps with
  | zero =>
      have here := inside (x, run.y) ⟨rfl, low, by dsimp only; omega⟩
      rw [Nat.cast_zero, add_zero]
      refine .single (near_of_close ?_ ?_ here here)
      · rw [sub_self, abs_zero]
        omega
      · rw [sub_self, abs_zero]
        omega
  | succ steps ih =>
      have here := inside (x + steps, run.y) ⟨rfl, by dsimp only; omega, by dsimp only; omega⟩
      have there := inside (x + (steps + 1 : ℕ), run.y)
        ⟨rfl, by dsimp only; omega, by dsimp only; omega⟩
      refine .tail (ih (by omega)) (near_of_close ?_ ?_ here there)
      · dsimp only
        rw [abs_le]
        omega
      · dsimp only
        rw [sub_self, abs_zero]
        omega

/-- The pixels of a run are connected. -/
theorem connected_of_holds (nonneg : 0 ≤ gapTolerancePx) {run : Run}
    (inside : ∀ pixel, Holds run pixel → pixel ∈ pixels) (inFirst : Holds run first)
    (inSecond : Holds run second) : Connected gapTolerancePx pixels first second := by
  obtain ⟨x, y⟩ := first
  obtain ⟨x', y'⟩ := second
  obtain ⟨rfl, fromFirst, toFirst⟩ := inFirst
  obtain ⟨rfl, fromSecond, toSecond⟩ := inSecond
  dsimp only at fromFirst toFirst fromSecond toSecond ⊢
  rcases le_total x x' with before | before
  · obtain ⟨steps, rfl⟩ := Int.le.dest before
    exact connected_right nonneg inside steps fromFirst toSecond
  · obtain ⟨steps, rfl⟩ := Int.le.dest before
    exact (connected_right nonneg inside steps fromSecond toFirst).symm

end Pixels

section Indexed

/-- How the scanlines index the run table: every run on its own row, each row ascending. -/
structure Indexed (table : List Run) (rows : List (ℤ × List ℕ)) : Prop where
  distinct : (rows.map Prod.fst).Nodup
  ascending : ∀ row ∈ rows, Ascending table row.2
  onRow : ∀ row ∈ rows, ∀ index ∈ row.2, index < table.length ∧ (runAt table index).y = row.1
  listed : ∀ index < table.length, ∃ row ∈ rows, index ∈ row.2

variable {table : List Run} {rows : List (ℤ × List ℕ)} {gapTolerancePx : ℤ}

theorem pairwise_of_mem_zip_tail {α : Type} {relation : α → α → Prop} {elements : List α}
    (sorted : elements.Pairwise relation) {pair : α × α}
    (listed : pair ∈ elements.zip elements.tail) :
    relation pair.1 pair.2 ∧ pair.1 ∈ elements ∧ pair.2 ∈ elements := by
  induction elements with
  | nil => cases listed
  | cons first elements ih =>
      cases elements with
      | nil => cases listed
      | cons second elements =>
          obtain ⟨before, sorted⟩ := List.pairwise_cons.mp sorted
          rw [List.tail_cons, List.zip_cons_cons, List.mem_cons] at listed
          rcases listed with rfl | later
          · exact ⟨before second (.head _), .head _, .tail _ (.head _)⟩
          · obtain ⟨held, inFirst, inSecond⟩ := ih sorted later
            exact ⟨held, .tail _ inFirst, .tail _ inSecond⟩

/-- What a pair of the sweep says of its two runs. -/
inductive Joins (table : List Run) (rows : List (ℤ × List ℕ)) (gapTolerancePx : ℤ) :
    ℕ → ℕ → Prop
  | scanline {row : ℤ × List ℕ} {left right : ℕ} : row ∈ rows →
      (left, right) ∈ scanlinePairs table gapTolerancePx row.2 →
      Joins table rows gapTolerancePx left right
  | earlier {row previous : ℤ × List ℕ} {left right : ℕ} : row ∈ rows → previous ∈ rows →
      row.1 - (gapTolerancePx + 1) ≤ previous.1 → previous.1 < row.1 → left ∈ row.2 →
      right ∈ previous.2 → Meets (gapTolerancePx + 1) (runAt table left) (runAt table right) →
      Joins table rows gapTolerancePx left right

theorem find?_row (distinct : (rows.map Prod.fst).Nodup) {row : ℤ × List ℕ} (listed : row ∈ rows) :
    rows.find? (fun other => other.1 = row.1) = some row := by
  obtain ⟨found, here⟩ := Option.isSome_iff_exists.mp
    (List.find?_isSome.mpr ⟨row, listed, decide_eq_true rfl⟩ :
      (rows.find? fun other => other.1 = row.1).isSome)
  have same : found.1 = row.1 := by simpa using List.find?_some here
  have member := List.mem_of_find?_eq_some here
  rw [here, List.inj_on_of_nodup_map distinct member listed same]

theorem mem_range_cast {count : ℕ} {offset : ℤ} :
    (offset ∈ do let step ← List.range count; pure (step : ℤ)) ↔ 0 ≤ offset ∧ offset < count := by
  simp only [List.bind_eq_flatMap, List.mem_flatMap, List.mem_range, List.pure_def,
    List.mem_singleton]
  constructor
  · rintro ⟨step, inside, rfl⟩
    omega
  · rintro ⟨low, high⟩
    exact ⟨offset.toNat, by omega, by omega⟩

/-- The pairs of the sweep are exactly the runs it joins. -/
theorem mem_pairs_iff (indexed : Indexed table rows) {left right : ℕ} :
    (left, right) ∈ rows.flatMap (rowPairs table gapTolerancePx rows) ↔
      Joins table rows gapTolerancePx left right := by
  rw [List.mem_flatMap]
  constructor
  · rintro ⟨row, listed, paired⟩
    rcases List.mem_append.mp paired with here | before
    · exact .scanline listed here
    · obtain ⟨offset, inRadius, paired⟩ := List.mem_flatMap.mp before
      obtain ⟨first, inRow, paired⟩ := List.mem_flatMap.mp paired
      obtain ⟨second, kept, same⟩ := List.mem_map.mp paired
      obtain ⟨inPrevious, meets⟩ := List.mem_filter.mp kept
      cases same
      rw [mem_range_cast] at inRadius
      cases found : rows.find? fun other => other.1 = row.1 - (gapTolerancePx + 1) + offset with
      | none =>
          rw [found] at inPrevious
          cases inPrevious
      | some previous =>
          rw [found] at inPrevious
          have place : previous.1 = row.1 - (gapTolerancePx + 1) + offset := by
            simpa using List.find?_some found
          exact .earlier listed (List.mem_of_find?_eq_some found) (by omega) (by omega) inRow
            inPrevious (of_decide_eq_true meets)
  · intro joins
    cases joins with
    | @scanline row _ _ listed paired => exact ⟨row, listed, List.mem_append_left _ paired⟩
    | @earlier row previous _ _ listed inRows near before inRow inPrevious meets =>
        refine ⟨row, listed, List.mem_append_right _ ?_⟩
        refine List.mem_flatMap.mpr ⟨(previous.1 - (row.1 - (gapTolerancePx + 1))).toNat, ?_, ?_⟩
        · rw [mem_range_cast]
          omega
        · have place : row.1 - (gapTolerancePx + 1) +
              ((previous.1 - (row.1 - (gapTolerancePx + 1))).toNat : ℤ) = previous.1 := by omega
          rw [place, find?_row indexed.distinct inRows]
          refine List.mem_flatMap.mpr ⟨left, inRow, List.mem_map.mpr ⟨right, ?_, rfl⟩⟩
          exact List.mem_filter.mpr ⟨inPrevious, decide_eq_true meets⟩

end Indexed

section Classes

variable {table : List Run} {rows : List (ℤ × List ℕ)} {gapTolerancePx : ℤ}
  {pixels : List Pixel}

/-- Two runs that meet hold pixels near across. -/
theorem exists_of_meets {radius : ℤ} {left right : Run} (meets : Meets radius left right)
    (nonneg : 0 ≤ radius) (inLeft : left.x0 < left.x1) (inRight : right.x0 < right.x1) :
    ∃ x x', left.x0 ≤ x ∧ x < left.x1 ∧ right.x0 ≤ x' ∧ x' < right.x1 ∧ |x - x'| ≤ radius := by
  obtain ⟨toRight, toLeft⟩ := meets
  rcases le_or_gt right.x1 left.x0 with after | overlaps
  · refine ⟨left.x0, right.x1 - 1, le_rfl, inLeft, by omega, by omega, ?_⟩
    rw [abs_le]
    omega
  rcases le_or_gt left.x1 right.x0 with before | overlaps'
  · refine ⟨left.x1 - 1, right.x0, by omega, by omega, le_rfl, inRight, ?_⟩
    rw [abs_le]
    omega
  · refine ⟨max left.x0 right.x0, max left.x0 right.x0, by omega, by omega, by omega, by omega, ?_⟩
    rw [sub_self, abs_zero]
    exact nonneg

/-- Two runs the sweep joins hold near pixels. -/
theorem Joins.near {left right : ℕ} (joins : Joins table rows gapTolerancePx left right)
    (indexed : Indexed table rows) (nonneg : 0 ≤ gapTolerancePx) :
    (left < table.length ∧ right < table.length) ∧ ∃ first second,
      Holds (runAt table left) first ∧ Holds (runAt table right) second ∧
        |first.1 - second.1| ≤ gapTolerancePx + 1 ∧ |first.2 - second.2| ≤ gapTolerancePx + 1 := by
  cases joins with
  | @scanline row left right listed paired =>
      obtain ⟨neighbour, close⟩ := List.mem_filter.mp paired
      have close := of_decide_eq_true close
      obtain ⟨wide, apart⟩ := indexed.ascending row listed
      obtain ⟨before, inLeft, inRight⟩ := pairwise_of_mem_zip_tail apart neighbour
      dsimp only at close before inLeft inRight
      obtain ⟨leftInside, leftRow⟩ := indexed.onRow row listed left inLeft
      obtain ⟨rightInside, rightRow⟩ := indexed.onRow row listed right inRight
      have leftWide := wide left inLeft
      have rightWide := wide right inRight
      refine ⟨⟨leftInside, rightInside⟩, ((runAt table left).x1 - 1, row.1),
        ((runAt table right).x0, row.1), ⟨leftRow, ?_, ?_⟩, ⟨rightRow, le_rfl, rightWide⟩, ?_, ?_⟩
      · dsimp only
        omega
      · dsimp only
        omega
      · dsimp only
        rw [abs_le]
        omega
      · rw [sub_self, abs_zero]
        omega
  | @earlier row previous left right listed inRows near before inRow inPrevious meets =>
      obtain ⟨leftInside, leftRow⟩ := indexed.onRow row listed left inRow
      obtain ⟨rightInside, rightRow⟩ := indexed.onRow previous inRows right inPrevious
      have leftWide := (indexed.ascending row listed).1 left inRow
      have rightWide := (indexed.ascending previous inRows).1 right inPrevious
      obtain ⟨x, x', fromLeft, toLeft, fromRight, toRight, close⟩ :=
        exists_of_meets meets (by omega) leftWide rightWide
      refine ⟨⟨leftInside, rightInside⟩, (x, row.1), (x', previous.1), ⟨leftRow, fromLeft, toLeft⟩,
        ⟨rightRow, fromRight, toRight⟩, close, ?_⟩
      dsimp only
      rw [abs_le]
      omega

/-- Connected runs of the table. -/
def RunsConnected (table : List Run) (rows : List (ℤ × List ℕ)) (gapTolerancePx : ℤ) :
    ℕ → ℕ → Prop := Relation.EqvGen (Joins table rows gapTolerancePx)

/-- Every pixel of one run is connected with every pixel of a run it is joined with. -/
theorem connected_of_runsConnected {left right : ℕ}
    (connected : RunsConnected table rows gapTolerancePx left right)
    (indexed : Indexed table rows) (nonneg : 0 ≤ gapTolerancePx)
    (holds : ∀ index < table.length, ∀ pixel, Holds (runAt table index) pixel → pixel ∈ pixels) :
    (left < table.length ↔ right < table.length) ∧ (left < table.length → ∀ first second,
      Holds (runAt table left) first → Holds (runAt table right) second →
        Connected gapTolerancePx pixels first second) := by
  induction connected with
  | rel left right joins =>
      obtain ⟨⟨inLeft, inRight⟩, middle, other, inMiddle, inOther, across, down⟩ :=
        joins.near indexed nonneg
      refine ⟨iff_of_true inLeft inRight, fun _ first second inFirst inSecond => ?_⟩
      have start := connected_of_holds nonneg (holds left inLeft) inFirst inMiddle
      have finish := connected_of_holds nonneg (holds right inRight) inOther inSecond
      have near := near_of_close across down (holds left inLeft _ inMiddle)
        (holds right inRight _ inOther)
      exact (start.tail near).trans finish
  | refl index =>
      exact ⟨.rfl, fun inside _ _ => connected_of_holds nonneg (holds index inside)⟩
  | symm left right _ ih =>
      refine ⟨ih.1.symm, fun inside first second inFirst inSecond => ?_⟩
      exact (ih.2 (ih.1.mpr inside) second first inSecond inFirst).symm
  | trans left middle right _ _ ih ih' =>
      refine ⟨ih.1.trans ih'.1, fun inside first second inFirst inSecond => ?_⟩
      have between := ih.1.mp inside
      obtain ⟨row, listed, inRow⟩ := indexed.listed middle between
      have wide := (indexed.ascending row listed).1 middle inRow
      have here : Holds (runAt table middle) ((runAt table middle).x0, (runAt table middle).y) :=
        ⟨rfl, le_rfl, wide⟩
      exact (ih.2 inside _ _ inFirst here).trans (ih'.2 between _ _ here inSecond)

theorem scanlinePairs_suffix {before current : List ℕ} {pair : ℕ × ℕ}
    (listed : pair ∈ scanlinePairs table gapTolerancePx current) :
    pair ∈ scanlinePairs table gapTolerancePx (before ++ current) := by
  induction before with
  | nil => exact listed
  | cons first before ih =>
      obtain ⟨neighbour, close⟩ := List.mem_filter.mp ih
      refine List.mem_filter.mpr ⟨?_, close⟩
      rw [List.cons_append, List.tail_cons]
      cases rest : before ++ current with
      | nil =>
          rw [rest] at neighbour
          cases neighbour
      | cons second rest' =>
          rw [rest] at neighbour
          exact .tail _ neighbour

/-- Runs of one scanline are joined through the runs between them. -/
theorem scanline_connected {row : ℤ × List ℕ} (listed : row ∈ rows) {before current : List ℕ}
    {left right : ℕ} (split : row.2 = before ++ left :: current)
    (ascending : Ascending table (left :: current)) (inside : right ∈ current)
    (close : (runAt table right).x0 - (runAt table left).x1 ≤ gapTolerancePx) :
    RunsConnected table rows gapTolerancePx left right := by
  induction current generalizing before left with
  | nil => cases inside
  | cons next current ih =>
      obtain ⟨wide, apart⟩ := ascending
      obtain ⟨beside, apart⟩ := List.pairwise_cons.mp apart
      have later : Ascending table (next :: current) :=
        ⟨fun index member => wide index (.tail _ member), apart⟩
      have nextBefore := beside next (.head _)
      have nextWide := wide next (.tail _ (.head _))
      have starts : (runAt table next).x0 ≤ (runAt table right).x0 := by
        rcases List.mem_cons.mp inside with rfl | further
        · exact le_rfl
        · have := (List.pairwise_cons.mp apart).1 right further
          omega
      have joined : Joins table rows gapTolerancePx left next := by
        refine .scanline listed ?_
        rw [split]
        refine scanlinePairs_suffix (List.mem_filter.mpr ⟨.head _, ?_⟩)
        rw [decide_eq_true_eq]
        dsimp only
        omega
      rcases List.mem_cons.mp inside with rfl | further
      · exact .rel _ _ joined
      · refine .trans _ _ _ (.rel _ _ joined) (@ih (before ++ [left]) _ ?_ later further ?_)
        · rw [split, List.append_assoc]
          rfl
        · omega

/-- Runs that hold near pixels are connected. -/
theorem runsConnected_of_near (indexed : Indexed table rows)
    {left right : ℕ} (inLeft : left < table.length) (inRight : right < table.length)
    {first second : Pixel} (holdsFirst : Holds (runAt table left) first)
    (holdsSecond : Holds (runAt table right) second)
    (near : chebyshev first second ≤ gapTolerancePx + 1) :
    RunsConnected table rows gapTolerancePx left right := by
  obtain ⟨leftRow, leftListed, inLeftRow⟩ := indexed.listed left inLeft
  obtain ⟨rightRow, rightListed, inRightRow⟩ := indexed.listed right inRight
  obtain ⟨sameFirst, fromFirst, toFirst⟩ := holdsFirst
  obtain ⟨sameSecond, fromSecond, toSecond⟩ := holdsSecond
  have atLeft := (indexed.onRow _ leftListed left inLeftRow).2
  have atRight := (indexed.onRow _ rightListed right inRightRow).2
  obtain ⟨across, down⟩ := max_le_iff.mp near
  rw [abs_le] at across down
  have meets : Meets (gapTolerancePx + 1) (runAt table left) (runAt table right) := by
    constructor
    · omega
    · omega
  rcases lt_trichotomy rightRow.1 leftRow.1 with above | level | below
  · exact .rel _ _ (.earlier leftListed rightListed (by omega) above inLeftRow inRightRow meets)
  · have same := List.inj_on_of_nodup_map indexed.distinct rightListed leftListed level
    subst same
    obtain ⟨before, current, split⟩ := List.append_of_mem inLeftRow
    have ascending := indexed.ascending _ leftListed
    rw [split] at inRightRow
    have rest {before current : List ℕ} {index : ℕ} (split : rightRow.2 = before ++ index :: current) :
        Ascending table (index :: current) := by
      rw [split] at ascending
      exact ⟨fun other member => ascending.1 other (List.mem_append_right _ member),
        (List.pairwise_append.mp ascending.2).2.1⟩
    rcases List.mem_append.mp inRightRow with early | late
    · obtain ⟨start, between, splitEarly⟩ := List.append_of_mem early
      have around : rightRow.2 = start ++ right :: (between ++ left :: current) := by
        rw [split, splitEarly, List.append_assoc]
        rfl
      refine .symm _ _ (scanline_connected rightListed around (rest around) ?_ (by omega))
      exact List.mem_append_right _ (.head _)
    · rcases List.mem_cons.mp late with rfl | later
      · exact .refl _
      · exact scanline_connected rightListed split (rest split) later (by omega)
  · refine .symm _ _ (.rel _ _ (.earlier rightListed leftListed (by omega) below inRightRow inLeftRow
      ⟨meets.2, meets.1⟩))

/-- Two runs are connected exactly when their pixels are. -/
theorem runsConnected_iff (indexed : Indexed table rows) (nonneg : 0 ≤ gapTolerancePx)
    (holds : ∀ pixel, pixel ∈ pixels ↔ ∃ index < table.length, Holds (runAt table index) pixel)
    {left right : ℕ} (inLeft : left < table.length) (inRight : right < table.length)
    {first second : Pixel} (holdsFirst : Holds (runAt table left) first)
    (holdsSecond : Holds (runAt table right) second) :
    RunsConnected table rows gapTolerancePx left right ↔
      Connected gapTolerancePx pixels first second := by
  constructor
  · intro connected
    refine (connected_of_runsConnected connected indexed nonneg
      fun index inside pixel held => ?_).2 inLeft _ _ holdsFirst holdsSecond
    exact (holds pixel).mpr ⟨index, inside, held⟩
  · intro connected
    induction connected generalizing right with
    | single near =>
        exact runsConnected_of_near indexed inLeft inRight holdsFirst holdsSecond near.2.2
    | tail before near ih =>
        obtain ⟨middle, inMiddle, holdsMiddle⟩ := (holds _).mp near.1
        exact .trans _ _ _ (ih inMiddle holdsMiddle)
          (runsConnected_of_near indexed inMiddle inRight holdsMiddle holdsSecond near.2.2)

end Classes

end Verbatus.Ink.PixelSet
