import Mathlib.Data.Set.Card
import Mathlib.Data.Int.Interval
import Verbatus.Ink.Connected

namespace Verbatus.Ink.PixelSet

open Library Library.Checked

section Table

/-- The runs of one scanline, each with its row. -/
def runsOfRow (row : ℤ × List (ℤ × ℤ)) : List Run := row.2.map fun run => ⟨row.1, run.1, run.2⟩

/-- What the indices of one scanline are: they list its runs in order. -/
structure IndexesRow (table : List Run) (row : ℤ × List (ℤ × ℤ)) (indices : ℤ × List ℕ) :
    Prop where
  same : indices.1 = row.1
  runs : indices.2.map (runAt table) = runsOfRow row
  inside : ∀ index ∈ indices.2, index < table.length

theorem map_runAt_range' (before runs after : List Run) :
    (List.range' before.length runs.length).map (runAt (before ++ runs ++ after)) = runs := by
  apply List.ext_getElem?
  intro offset
  rw [List.getElem?_map]
  rcases lt_or_ge offset runs.length with inside | outside
  · rw [List.getElem?_range' inside, Option.map_some, runAt, List.getD_eq_getElem?_getD, one_mul, List.append_assoc,
      List.getElem?_append_right (Nat.le_add_right _ _), Nat.add_sub_cancel_left,
      List.getElem?_append_left inside, List.getElem?_eq_getElem inside, Option.getD_some]
  · rw [List.getElem?_eq_none (by rwa [List.length_range']), List.getElem?_eq_none outside,
      Option.map_none]

theorem indicesByRow_indexes (before : List Run) (rows : List (ℤ × List (ℤ × ℤ))) :
    List.Forall₂ (IndexesRow (before ++ rows.flatMap runsOfRow)) rows
        (indicesByRow before.length rows) ∧
      (indicesByRow before.length rows).flatMap Prod.snd =
        List.range' before.length (rows.flatMap runsOfRow).length := by
  induction rows generalizing before with
  | nil => exact ⟨.nil, rfl⟩
  | cons row rows ih =>
      obtain ⟨y, runs⟩ := row
      have length : (runsOfRow (y, runs)).length = runs.length := List.length_map _
      have later := ih (before ++ runsOfRow (y, runs))
      rw [List.length_append, length, List.append_assoc, ← List.flatMap_cons] at later
      rw [indicesByRow]
      refine ⟨.cons ⟨rfl, ?_, ?_⟩ later.1, ?_⟩
      · have listed := map_runAt_range' before (runsOfRow (y, runs)) (rows.flatMap runsOfRow)
        rwa [length, List.append_assoc, ← List.flatMap_cons] at listed
      · intro index listed
        have within := (List.mem_range'_1.mp listed).2
        rw [List.length_append, List.flatMap_cons, List.length_append, length]
        omega
      · rw [List.flatMap_cons, later.2, List.flatMap_cons, List.length_append, length]
        exact List.range'_append_1

variable {runsByRow : List (ℤ × List (ℤ × ℤ))} {pixels : List Pixel}

theorem runTable_eq (runsByRow : List (ℤ × List (ℤ × ℤ))) : runTable runsByRow =
    (runsByRow.insertionSort fun first second => first.1 ≤ second.1).flatMap runsOfRow := rfl

/-- The scanlines of maximal runs index the run table. -/
theorem indexed_of_maximal (maximal : MaximalRuns runsByRow pixels) :
    Indexed (runTable runsByRow)
      (indicesByRow 0 (runsByRow.insertionSort fun first second => first.1 ≤ second.1)) := by
  rw [runTable_eq]
  have permuted := List.perm_insertionSort
    (fun first second : ℤ × List (ℤ × ℤ) => first.1 ≤ second.1) runsByRow
  generalize runsByRow.insertionSort (fun first second => first.1 ≤ second.1) = rows at permuted
  obtain ⟨each, every⟩ := indicesByRow_indexes [] rows
  rw [List.nil_append, List.length_nil] at each
  rw [List.length_nil] at every
  have keys : (indicesByRow 0 rows).map Prod.fst = rows.map Prod.fst := by
    have same := each.imp fun _ _ indexes => indexes.same
    rw [← List.forall₂_eq_eq_eq, List.forall₂_map_left_iff, List.forall₂_map_right_iff]
    exact same.flip
  have rowOf : ∀ indices ∈ indicesByRow 0 rows, ∃ row ∈ rows,
      IndexesRow (rows.flatMap runsOfRow) row indices := by
    intro indices listed
    exact exists_of_mem_forall₂ each listed
  refine ⟨?_, ?_, ?_, ?_⟩
  · rw [keys]
    exact (permuted.map Prod.fst).nodup_iff.mpr maximal.distinct
  · intro indices listed
    obtain ⟨row, inRows, indexes⟩ := rowOf indices listed
    obtain ⟨nonempty, apart⟩ := maximal.rows row (permuted.mem_iff.mp inRows)
    constructor
    · intro index inside
      have run := List.mem_map_of_mem (f := runAt (rows.flatMap runsOfRow)) inside
      rw [indexes.runs] at run
      obtain ⟨span, given, same⟩ := List.mem_map.mp run
      rw [← same]
      exact nonempty span given
    · have sorted : (runsOfRow row).Pairwise fun first second => first.x1 ≤ second.x0 := by
        rw [runsOfRow, List.pairwise_map]
        exact apart.imp le_of_lt
      rw [← indexes.runs, List.pairwise_map] at sorted
      exact sorted
  · intro indices listed index inside
    obtain ⟨row, inRows, indexes⟩ := rowOf indices listed
    have run := List.mem_map_of_mem (f := runAt (rows.flatMap runsOfRow)) inside
    rw [indexes.runs] at run
    obtain ⟨span, given, same⟩ := List.mem_map.mp run
    refine ⟨indexes.inside index inside, ?_⟩
    rw [← same, indexes.same]
  · intro index inside
    have listed : index ∈ (indicesByRow 0 rows).flatMap Prod.snd := by
      rw [every, List.mem_range'_1]
      omega
    exact List.mem_flatMap.mp listed

/-- The table holds exactly the pixels. -/
theorem mem_pixels_iff (maximal : MaximalRuns runsByRow pixels) (pixel : Pixel) :
    pixel ∈ pixels ↔ ∃ index < (runTable runsByRow).length,
      Holds (runAt (runTable runsByRow) index) pixel := by
  obtain ⟨x, y⟩ := pixel
  rw [maximal.holds]
  constructor
  · rintro ⟨row, listed, rfl, run, inRow, held⟩
    have member : (⟨row.1, run.1, run.2⟩ : Run) ∈ runTable runsByRow := by
      rw [runTable_eq, List.mem_flatMap]
      exact ⟨row, (List.perm_insertionSort _ _).mem_iff.mpr listed, List.mem_map_of_mem inRow⟩
    obtain ⟨index, inside, same⟩ := List.mem_iff_getElem.mp member
    refine ⟨index, inside, ?_⟩
    rw [runAt, List.getD_eq_getElem _ _ inside, same]
    exact ⟨rfl, held⟩
  · rintro ⟨index, inside, sameRow, held⟩
    rw [runAt, List.getD_eq_getElem _ _ inside] at sameRow held
    obtain ⟨row, listed, same, span⟩ := mem_runTable (List.getElem_mem inside)
    exact ⟨row, listed, same.symm.trans sameRow, _, span, held⟩

end Table

section Groups

theorem addToGroup_eq (root index : ℕ) (groups : List (ℕ × List ℕ)) :
    addToGroup root index groups = addTo root index groups := by
  induction groups with
  | nil => rfl
  | cons group groups ih => rw [addToGroup, addTo, ih]

/-- The groups list every index under its representative. -/
theorem groupsOf_grouped {parent : List ℕ} {size : ℕ} {representative : ℕ → ℕ}
    (represents : Represents parent size representative) :
    Grouped ((List.range size).map fun index => (representative index, index))
      (groupsOf parent size) := by
  suffices reached : ∀ count ≤ size,
      Grouped ((List.range count).map fun index => (representative index, index))
        ((List.range count).foldl (fun state index =>
          (addToGroup (find state.2 index).1 index state.1, (find state.2 index).2)) ([], parent)).1 ∧
      Represents ((List.range count).foldl (fun state index =>
          (addToGroup (find state.2 index).1 index state.1, (find state.2 index).2)) (([] : List (ℕ × List ℕ)), parent)).2 size
        representative from (reached size le_rfl).1
  intro count
  induction count with
  | zero => exact fun _ => ⟨.nil, represents⟩
  | succ count ih =>
      intro within
      obtain ⟨grouped, between⟩ := ih (by omega)
      rw [List.range_succ, List.foldl_append, List.map_append]
      generalize (List.range count).foldl _ ([], parent) = state at grouped between ⊢
      obtain ⟨groups, parent⟩ := state
      obtain ⟨root, found⟩ := find_represents between count within
      rw [List.foldl_cons, List.foldl_nil, List.map_singleton]
      dsimp only at root ⊢
      rw [root, addToGroup_eq]
      exact ⟨grouped.add _ _, found⟩

end Groups

section Extent

/-- The pixels some runs hold. -/
def pixelsOf (runs : List Run) : Set Pixel := {pixel | ∃ run ∈ runs, Holds run pixel}

/-- A box that is tight around a set of pixels. -/
structure Tight (bounds : Bounds) (pixels : Set Pixel) : Prop where
  inside : ∀ pixel ∈ pixels, bounds.x ≤ pixel.1 ∧ pixel.1 < bounds.x + bounds.w ∧
    bounds.y ≤ pixel.2 ∧ pixel.2 < bounds.y + bounds.h
  left : ∃ pixel ∈ pixels, pixel.1 = bounds.x
  right : ∃ pixel ∈ pixels, pixel.1 = bounds.x + bounds.w - 1
  top : ∃ pixel ∈ pixels, pixel.2 = bounds.y
  bottom : ∃ pixel ∈ pixels, pixel.2 = bounds.y + bounds.h - 1

theorem holds_start {run : Run} (wide : run.x0 < run.x1) : Holds run (run.x0, run.y) :=
  ⟨rfl, le_rfl, wide⟩

theorem tight_of_bounding {bounds : Bounds} {runs : List Run} (bounding : Bounding bounds runs)
    (wide : ∀ run ∈ runs, run.x0 < run.x1) : Tight bounds (pixelsOf runs) := by
  refine ⟨?_, ?_, ?_, ?_, ?_⟩
  · rintro pixel ⟨run, listed, row, low, high⟩
    have held := bounding.holds run listed
    omega
  · obtain ⟨run, listed, same⟩ := bounding.left
    exact ⟨_, ⟨run, listed, holds_start (wide run listed)⟩, same.symm⟩
  · obtain ⟨run, listed, same⟩ := bounding.right
    have width := wide run listed
    refine ⟨(run.x1 - 1, run.y), ⟨run, listed, rfl, ?_, ?_⟩, ?_⟩
    all_goals
      dsimp only
      omega
  · obtain ⟨run, listed, same⟩ := bounding.top
    exact ⟨_, ⟨run, listed, holds_start (wide run listed)⟩, same.symm⟩
  · obtain ⟨run, listed, same⟩ := bounding.bottom
    refine ⟨_, ⟨run, listed, holds_start (wide run listed)⟩, ?_⟩
    dsimp only
    omega

/-- The pixels of one run, as many as it is long. -/
theorem ncard_holds {run : Run} (wide : run.x0 < run.x1) :
    ({pixel | Holds run pixel} : Set Pixel).Finite ∧
      ((({pixel | Holds run pixel} : Set Pixel).ncard : ℕ) : ℤ) = run.x1 - run.x0 := by
  have image : ({pixel | Holds run pixel} : Set Pixel) =
      ((Finset.Ico run.x0 run.x1).image fun x => (x, run.y) : Finset Pixel) := by
    ext ⟨x, y⟩
    simp only [Holds, Set.mem_ofPred_eq, Finset.coe_image, Finset.coe_Ico, Set.mem_image,
      Set.mem_Ico, Prod.mk.injEq]
    constructor
    · rintro ⟨rfl, low, high⟩
      exact ⟨x, ⟨low, high⟩, rfl, rfl⟩
    · rintro ⟨z, ⟨low, high⟩, rfl, rfl⟩
      exact ⟨rfl, low, high⟩
  rw [image]
  refine ⟨Finset.finite_toSet _, ?_⟩
  rw [Set.ncard_coe_finset, Finset.card_image_of_injective, Int.card_Ico]
  · omega
  · intro first second same
    exact (Prod.mk.inj same).1

theorem pixelsOf_cons (run : Run) (runs : List Run) :
    pixelsOf (run :: runs) = {pixel | Holds run pixel} ∪ pixelsOf runs := by
  ext pixel
  simp [pixelsOf]

/-- Runs that share no pixel hold as many as their lengths add up to. -/
theorem ncard_pixelsOf {runs : List Run} (wide : ∀ run ∈ runs, run.x0 < run.x1)
    (apart : runs.Pairwise fun first second => ∀ pixel, Holds first pixel → ¬Holds second pixel) :
    (pixelsOf runs).Finite ∧
      (((pixelsOf runs).ncard : ℕ) : ℤ) = (runs.map fun run => run.x1 - run.x0).sum := by
  induction runs with
  | nil =>
      have empty : pixelsOf [] = ∅ := by
        ext pixel
        simp [pixelsOf]
      rw [empty]
      exact ⟨Set.finite_empty, by simp⟩
  | cons run runs ih =>
      obtain ⟨beside, apart⟩ := List.pairwise_cons.mp apart
      obtain ⟨finite, count⟩ := ncard_holds (wide run (.head _))
      obtain ⟨finite', count'⟩ := ih (fun other listed => wide other (.tail _ listed)) apart
      rw [pixelsOf_cons]
      refine ⟨finite.union finite', ?_⟩
      have disjoint : Disjoint ({pixel | Holds run pixel} : Set Pixel) (pixelsOf runs) := by
        rw [Set.disjoint_left]
        rintro pixel here ⟨other, listed, there⟩
        exact beside other listed pixel here there
      rw [Set.ncard_union_eq disjoint finite finite', Nat.cast_add, count, count', List.map_cons,
        List.sum_cons]

theorem foldl_min_spec {κ : Type} [LinearOrder κ] (first : κ) (rest : List κ) :
    rest.foldl min first ∈ first :: rest ∧ ∀ value ∈ first :: rest, rest.foldl min first ≤ value := by
  induction rest generalizing first with
  | nil => simp
  | cons second rest ih =>
      obtain ⟨member, least⟩ := ih (min first second)
      rw [List.foldl_cons]
      obtain ⟨bound, later⟩ := List.forall_mem_cons.mp least
      refine ⟨?_, ?_⟩
      · rcases List.mem_cons.mp member with same | listed
        · rw [same]
          rcases min_choice first second with chosen | chosen
          · rw [chosen]
            exact .head _
          · rw [chosen]
            exact .tail _ (.head _)
        · exact .tail _ (.tail _ listed)
      · refine List.forall_mem_cons.mpr ⟨bound.trans (min_le_left _ _), ?_⟩
        exact List.forall_mem_cons.mpr ⟨bound.trans (min_le_right _ _), later⟩

/-- A component is ordered by its top, its left and its smallest pixel. -/
theorem labelOrder_eq (component : Component) {runs : List Run} (nonempty : runs ≠ [])
    (wide : ∀ run ∈ runs, run.x0 < run.x1) : ∃ least : ℤ ×ₗ ℤ,
      IsLeast (toLex '' pixelsOf runs) least ∧ labelOrder (component, runs) =
        toLex (component.bounds.y, toLex (component.bounds.x, least)) := by
  obtain ⟨first, rest, rfl⟩ := List.exists_cons_of_ne_nil nonempty
  set starts := (first :: rest).map fun run => (toLex (run.x0, run.y) : ℤ ×ₗ ℤ) with startsIs
  obtain ⟨member, least⟩ := foldl_min_spec (toLex (first.x0, first.y) : ℤ ×ₗ ℤ)
    (rest.map fun run => toLex (run.x0, run.y))
  refine ⟨starts.tail.foldl min (starts.headD (toLex (0, 0))), ⟨?_, ?_⟩, rfl⟩
  · obtain ⟨run, listed, same⟩ := List.mem_map.mp
      (show _ ∈ (first :: rest).map fun run => (toLex (run.x0, run.y) : ℤ ×ₗ ℤ) from member)
    exact ⟨(run.x0, run.y), ⟨run, listed, holds_start (wide run listed)⟩, same⟩
  · rintro _ ⟨⟨x, y⟩, ⟨run, listed, row, low, high⟩, rfl⟩
    have begins := least (toLex (run.x0, run.y)) (List.mem_map_of_mem
      (f := fun run : Run => (toLex (run.x0, run.y) : ℤ ×ₗ ℤ)) listed)
    refine begins.trans (Prod.Lex.toLex_le_toLex.mpr ?_)
    dsimp only at row low ⊢
    rcases low.lt_or_eq with less | same
    · exact .inl less
    · exact .inr ⟨same, row.le⟩

end Extent

end Verbatus.Ink.PixelSet
