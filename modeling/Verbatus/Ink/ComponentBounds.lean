import Mathlib.Tactic
import Verbatus.Ink.RetainedRuns

namespace Verbatus.Ink

open Library.Checked Library.Spans Library.ByteRow

section Extremes

theorem leastOf_spec (first : ℤ) (rest : List ℤ) :
    leastOf first rest ∈ first :: rest ∧ ∀ value ∈ first :: rest, leastOf first rest ≤ value := by
  induction rest generalizing first with
  | nil => simp [leastOf]
  | cons value rest ih =>
      obtain ⟨member, least⟩ := ih (min first value)
      change leastOf (min first value) rest ∈ _ ∧ ∀ other ∈ _, leastOf (min first value) rest ≤ other
      have bound := least _ (.head _)
      constructor
      · rcases List.mem_cons.mp member with same | member
        · rcases min_choice first value with chosen | chosen <;> rw [same, chosen] <;> simp
        · simp [member]
      · intro other listed
        rcases List.mem_cons.mp listed with rfl | listed
        · exact bound.trans (min_le_left _ _)
        · rcases List.mem_cons.mp listed with rfl | listed
          · exact bound.trans (min_le_right _ _)
          · exact least other (.tail _ listed)

theorem greatestOf_spec (first : ℤ) (rest : List ℤ) :
    greatestOf first rest ∈ first :: rest ∧
      ∀ value ∈ first :: rest, value ≤ greatestOf first rest := by
  induction rest generalizing first with
  | nil => simp [greatestOf]
  | cons value rest ih =>
      obtain ⟨member, greatest⟩ := ih (max first value)
      change greatestOf (max first value) rest ∈ _ ∧
        ∀ other ∈ _, other ≤ greatestOf (max first value) rest
      have bound := greatest _ (.head _)
      constructor
      · rcases List.mem_cons.mp member with same | member
        · rcases max_choice first value with chosen | chosen <;> rw [same, chosen] <;> simp
        · simp [member]
      · intro other listed
        rcases List.mem_cons.mp listed with rfl | listed
        · exact (le_max_left _ _).trans bound
        · rcases List.mem_cons.mp listed with rfl | listed
          · exact (le_max_right _ _).trans bound
          · exact greatest other (.tail _ listed)

end Extremes

section Groups

/-- Each group lists indices already seen, each once, in ascending order. -/
def AscendingBelow (bound : ℕ) (groups : List (ℕ × List ℕ)) : Prop :=
  ∀ group ∈ groups, (∀ index ∈ group.2, index < bound) ∧ group.2.Pairwise (· < ·)

theorem addToGroup_ascending {root index : ℕ} {groups : List (ℕ × List ℕ)}
    (ascending : AscendingBelow index groups) :
    AscendingBelow (index + 1) (addToGroup root index groups) := by
  induction groups with
  | nil =>
      intro group member
      rw [addToGroup, List.mem_singleton] at member
      subst member
      simp
  | cons group groups ih =>
      obtain ⟨key, members⟩ := group
      obtain ⟨below, sorted⟩ := ascending _ (.head _)
      have others : AscendingBelow (index + 1) groups := fun other member =>
        ⟨fun index inside => (ascending other (.tail _ member)).1 index inside |>.trans (by omega),
          (ascending other (.tail _ member)).2⟩
      rw [addToGroup]
      split_ifs with same
      · intro other member
        rcases List.mem_cons.mp member with rfl | member
        · refine ⟨?_, List.pairwise_append.mpr ⟨sorted, List.pairwise_singleton _ _, ?_⟩⟩
          · intro place inside
            rcases List.mem_append.mp inside with inside | inside
            · exact (below place inside).trans (by omega)
            · rw [List.mem_singleton.mp inside]
              omega
          · intro earlier inside later last
            rw [List.mem_singleton.mp last]
            exact below earlier inside
        · exact others other member
      · intro other member
        rcases List.mem_cons.mp member with rfl | member
        · exact ⟨fun place inside => (below place inside).trans (by omega), sorted⟩
        · exact ih (fun other member => ascending other (.tail _ member)) other member

theorem groupsOf_ascending (parent : List ℕ) (count : ℕ) :
    AscendingBelow count (groupsOf parent count) := by
  unfold groupsOf
  induction count with
  | zero => simp [AscendingBelow]
  | succ count ih =>
      rw [List.range_succ, List.foldl_append]
      exact addToGroup_ascending ih

end Groups

/-- A component's runs, all inside its box, whose sides are sides of its runs. -/
structure Bounding (bounds : Bounds) (runs : List Run) : Prop where
  holds : ∀ run ∈ runs, bounds.x ≤ run.x0 ∧ run.x1 ≤ bounds.x + bounds.w ∧
    bounds.y ≤ run.y ∧ run.y < bounds.y + bounds.h
  left : ∃ run ∈ runs, bounds.x = run.x0
  right : ∃ run ∈ runs, bounds.x + bounds.w = run.x1
  top : ∃ run ∈ runs, bounds.y = run.y
  bottom : ∃ run ∈ runs, bounds.y + bounds.h = run.y + 1

/-- Runs listed by ascending scanline are bounded by the box their ends and extremes give. -/
theorem componentOf_bounding {first : Run} {rest : List Run}
    (ascending : (first :: rest).Pairwise fun earlier later => earlier.y ≤ later.y) :
    Bounding (componentOf first rest).bounds (first :: rest) := by
  obtain ⟨leastMember, least⟩ := leastOf_spec first.x0 (rest.map Run.x0)
  obtain ⟨greatestMember, greatest⟩ := greatestOf_spec first.x1 (rest.map Run.x1)
  rw [← List.map_cons, List.mem_map] at leastMember greatestMember
  rw [← List.map_cons] at least greatest
  have lastEq : rest.getLast?.getD first = (first :: rest).getLast (by simp) := by
    cases rest with
    | nil => rfl
    | cons second rest => simp [List.getLast?_eq_some_getLast]
  have last : ∀ run ∈ first :: rest, run.y ≤ (rest.getLast?.getD first).y := by
    intro run member
    rw [lastEq]
    exact ascending.rel_getLast_of_rel_getLast_getLast member le_rfl
  have top : ∀ run ∈ first :: rest, first.y ≤ run.y := by
    intro run member
    rcases List.mem_cons.mp member with rfl | member
    · exact le_rfl
    · exact (List.pairwise_cons.mp ascending).1 run member
  constructor
  · intro run member
    have left := least run.x0 (List.mem_map_of_mem member)
    have right := greatest run.x1 (List.mem_map_of_mem member)
    have above := top run member
    have below := last run member
    dsimp only [componentOf]
    omega
  · obtain ⟨run, member, same⟩ := leastMember
    exact ⟨run, member, same.symm⟩
  · obtain ⟨run, member, same⟩ := greatestMember
    refine ⟨run, member, ?_⟩
    dsimp only [componentOf]
    omega
  · exact ⟨first, .head _, rfl⟩
  · refine ⟨rest.getLast?.getD first, ?_, ?_⟩
    · rw [lastEq]
      exact List.getLast_mem _
    · dsimp only [componentOf]
      omega

/-- The runs of one scanline table, in the order labelling indexes them. -/
def runTable (runsByRow : List (ℤ × List (ℤ × ℤ))) : List Run :=
  (runsByRow.insertionSort fun first second => first.1 ≤ second.1).flatMap
    fun (y, runs) => runs.map fun (x0, x1) => Run.mk y x0 x1

theorem runTable_ascending (runsByRow : List (ℤ × List (ℤ × ℤ))) :
    (runTable runsByRow).Pairwise fun earlier later => earlier.y ≤ later.y := by
  have total : Std.Total fun first second : ℤ × List (ℤ × ℤ) => first.1 ≤ second.1 :=
    ⟨fun first second => le_total first.1 second.1⟩
  have trans : IsTrans (ℤ × List (ℤ × ℤ)) fun first second => first.1 ≤ second.1 :=
    ⟨fun _ _ _ => le_trans⟩
  have sorted := List.pairwise_insertionSort
    (fun first second : ℤ × List (ℤ × ℤ) => first.1 ≤ second.1) runsByRow
  have sameRow (row : ℤ × List (ℤ × ℤ)) {run : Run}
      (member : run ∈ row.2.map fun (x0, x1) => Run.mk row.1 x0 x1) : run.y = row.1 := by
    obtain ⟨span, -, rfl⟩ := List.mem_map.mp member
    rfl
  refine List.pairwise_flatMap.mpr ⟨fun row _ => ?_, sorted.imp fun {row next} before => ?_⟩
  · exact List.pairwise_of_forall_mem_list fun first inside second within =>
      ((sameRow row inside).trans (sameRow row within).symm).le
  · intro first inside second within
    rw [sameRow row inside, sameRow next within]
    exact before

theorem mem_runTable {runsByRow : List (ℤ × List (ℤ × ℤ))} {run : Run}
    (member : run ∈ runTable runsByRow) :
    ∃ row ∈ runsByRow, run.y = row.1 ∧ (run.x0, run.x1) ∈ row.2 := by
  obtain ⟨row, inside, listed⟩ := List.mem_flatMap.mp member
  obtain ⟨span, within, rfl⟩ := List.mem_map.mp listed
  exact ⟨row, (List.perm_insertionSort _ _).mem_iff.mp inside, rfl, within⟩

/-- A component made of one group's runs has them all inside its box. -/
theorem bounding_of_made {runs table : List Run} {entry : Component × List Run}
    (listed : ∀ run ∈ runs, run ∈ table)
    (sorted : runs.Pairwise fun earlier later => earlier.y ≤ later.y)
    (made : (match runs with
      | [] => none
      | first :: rest => some (componentOf first rest, first :: rest)) = some entry) :
    (∀ run ∈ entry.2, run ∈ table) ∧ Bounding entry.1.bounds entry.2 := by
  cases runs with
  | nil => cases made
  | cons first rest =>
      cases made
      exact ⟨listed, componentOf_bounding sorted⟩

/-- Every labelled component has runs of the table, all inside its box. -/
theorem labelComponentRuns_bounding {runsByRow : List (ℤ × List (ℤ × ℤ))} {gapTolerancePx : ℤ}
    {labelled : List (Component × List Run)}
    (accepted : labelComponentRuns runsByRow gapTolerancePx = .ok labelled) :
    ∀ entry ∈ labelled, (∀ run ∈ entry.2, run ∈ runTable runsByRow) ∧
      Bounding entry.1.bounds entry.2 := by
  obtain ⟨-, same⟩ := require_bind_eq_ok.mp accepted
  rw [pure_eq_ok] at same
  intro entry member
  rw [← same, (List.perm_insertionSort _ _).mem_iff] at member
  obtain ⟨⟨root, members⟩, grouped, made⟩ := List.mem_filterMap.mp member
  obtain ⟨inTable, ascending⟩ := groupsOf_ascending _ _ _ grouped
  have below : ∀ index ∈ members, index < (runTable runsByRow).length := inTable
  have listed : ∀ run ∈ members.map fun index => (runTable runsByRow).getD index default,
      run ∈ runTable runsByRow := by
    intro run inside
    obtain ⟨index, within, rfl⟩ := List.mem_map.mp inside
    rw [List.getD_eq_getElem _ _ (below index within)]
    exact List.getElem_mem _
  have sorted : (members.map fun index => (runTable runsByRow).getD index default).Pairwise
      fun earlier later => earlier.y ≤ later.y := by
    rw [List.pairwise_map]
    apply ascending.imp_of_mem
    intro first second inside within before
    rw [List.getD_eq_getElem _ _ (below first inside), List.getD_eq_getElem _ _ (below second within)]
    exact List.pairwise_iff_getElem.mp (runTable_ascending runsByRow) _ _ _ _ before
  exact bounding_of_made listed sorted made

section Page

variable {page : Page}

/-- The page's own runs start and end on the page. -/
theorem inkRunsByRow_onPage {threshold : ℤ} {run : Run}
    (member : run ∈ runTable (inkRunsByRow page threshold)) :
    (0 ≤ run.x0 ∧ run.x0 < run.x1 ∧ run.x1 ≤ page.width) ∧ 0 ≤ run.y ∧ run.y < page.height := by
  obtain ⟨row, listed, same, span⟩ := mem_runTable member
  obtain ⟨⟨bytes, y⟩, indexed, rfl⟩ := List.mem_map.mp (List.mem_filter.mp listed).1
  obtain ⟨wide, inside⟩ := row_of_mem_zipIdx indexed
  obtain ⟨⟨x0, x1⟩, within, ends⟩ := List.mem_map.mp span
  have binary : Binary (bytes.map fun value => if (value.toNat : ℤ) ≤ threshold then 1 else 0) := by
    intro byte member
    obtain ⟨value, -, rfl⟩ := List.mem_map.mp member
    split_ifs <;> simp
  have spec := runsInRow_spec binary
  have nonempty := spec.nonempty _ within
  have short := (spec.within _ within).2
  rw [List.length_map, wide] at short
  obtain ⟨left, right⟩ := Prod.mk.inj ends
  dsimp only at nonempty short left right same
  omega

/-- A box with at least one pixel, every pixel of it on the page. -/
structure Bounds.OnPage (bounds : Bounds) (width height : ℤ) : Prop where
  left : 0 ≤ bounds.x
  top : 0 ≤ bounds.y
  wide : 0 < bounds.w
  tall : 0 < bounds.h
  right : bounds.x + bounds.w ≤ width
  bottom : bounds.y + bounds.h ≤ height

theorem Bounding.onPage {bounds : Bounds} {runs : List Run} (bounding : Bounding bounds runs)
    (onPage : ∀ run ∈ runs, (0 ≤ run.x0 ∧ run.x0 < run.x1 ∧ run.x1 ≤ page.width) ∧
      0 ≤ run.y ∧ run.y < page.height) : bounds.OnPage page.width page.height := by
  obtain ⟨leftRun, leftMember, left⟩ := bounding.left
  obtain ⟨rightRun, rightMember, right⟩ := bounding.right
  obtain ⟨topRun, topMember, top⟩ := bounding.top
  obtain ⟨bottomRun, bottomMember, bottom⟩ := bounding.bottom
  have leftOn := onPage leftRun leftMember
  have rightOn := onPage rightRun rightMember
  have topOn := onPage topRun topMember
  have bottomOn := onPage bottomRun bottomMember
  have leftHeld := bounding.holds leftRun leftMember
  have topHeld := bounding.holds topRun topMember
  constructor <;> omega

/-- The spanning boxes are on the page, and hold every pixel the spanning mask marks. -/
structure SpanningBounded (basis : PageInkBasis page) : Prop where
  onPage : ∀ bounds ∈ basis.spanningComponents, bounds.OnPage page.width page.height
  held : ∀ y < page.height, ∀ x, OneAt (maskRow basis.spanningMask.bytes y page.width) x →
    InCoverage basis.spanningComponents x y

theorem pageSpanningComponents_bounded {background : PageBackground}
    {coveragePolicy : CoverageAuditPolicy} {components : List Component} {mask : PageMask page}
    (found : pageSpanningComponents page background coveragePolicy = .ok (components, mask)) :
    (∀ component ∈ components, component.bounds.OnPage page.width page.height) ∧
      ∀ y < page.height, ∀ x, OneAt (maskRow mask.bytes y page.width) x →
        InCoverage (components.map Component.bounds) x y := by
  obtain ⟨threshold, -, found⟩ := bind_eq_ok.mp found
  obtain ⟨labelled, accepted, found⟩ := bind_eq_ok.mp found
  rw [pure_eq_ok, Prod.mk.injEq] at found
  obtain ⟨rfl, rfl⟩ := found
  have bounding := labelComponentRuns_bounding accepted
  constructor
  · intro component member
    obtain ⟨entry, kept, rfl⟩ := List.mem_map.mp member
    obtain ⟨listed, box⟩ := bounding entry (List.mem_filter.mp kept).1
    exact box.onPage fun run inside => inkRunsByRow_onPage (listed run inside)
  · intro y insideY x one
    have short := one.lt_length
    rw [length_maskRow _ insideY] at short
    obtain ⟨index, rfl⟩ := Int.eq_ofNat_of_zero_le one.1
    have insideX : index < page.width := by omega
    rw [oneAt_natCast, maskRow_getElem? _ _ _ _ insideX, ofSlices_getElem?] at one
    obtain ⟨-, slice, member, painted⟩ := one
    obtain ⟨entry, kept, inRuns⟩ := List.mem_flatMap.mp member
    obtain ⟨run, inside, rfl⟩ := List.mem_map.mp inRuns
    obtain ⟨listed, box⟩ := bounding entry (List.mem_filter.mp kept).1
    obtain ⟨⟨left, _, right⟩, top, _⟩ := inkRunsByRow_onPage (listed run inside)
    have held := box.holds run inside
    obtain ⟨row, rowEq⟩ := Int.eq_ofNat_of_zero_le top
    obtain ⟨first, firstEq⟩ := Int.eq_ofNat_of_zero_le left
    obtain ⟨last, lastEq⟩ := Int.eq_ofNat_of_zero_le (show 0 ≤ run.x1 by omega)
    have slices : runSlice page.width run = (row * page.width + first, row * page.width + last) := by
      rw [runSlice, rowEq, firstEq, lastEq]
      norm_cast
    rw [slices] at painted
    obtain ⟨rfl, columns⟩ := (slice_holds insideX (by omega)).mp painted
    refine ⟨entry.1.bounds, List.mem_map_of_mem (List.mem_map_of_mem kept), ?_⟩
    unfold Bounds.Holds
    omega

/-- An inferred basis bounds its own page-spanning ink. -/
theorem pageInkBasis_spanningBounded {backgroundPolicy : BackgroundPolicy}
    {coveragePolicy : CoverageAuditPolicy} {basis : PageInkBasis page}
    (inferred : pageInkBasis page backgroundPolicy coveragePolicy = .ok basis) :
    SpanningBounded basis := by
  obtain ⟨background, -, inferred⟩ := bind_eq_ok.mp inferred
  obtain ⟨⟨components, mask⟩, found, inferred⟩ := bind_eq_ok.mp inferred
  obtain ⟨table, -, inferred⟩ := bind_eq_ok.mp inferred
  rw [pure_eq_ok] at inferred
  subst inferred
  obtain ⟨onPage, held⟩ := pageSpanningComponents_bounded found
  refine ⟨fun bounds member => ?_, held⟩
  obtain ⟨component, listed, rfl⟩ := List.mem_map.mp member
  exact onPage component listed

end Page

end Verbatus.Ink
