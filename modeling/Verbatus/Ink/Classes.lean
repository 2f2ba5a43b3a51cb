import Verbatus.Ink.Labelling

namespace Verbatus.Ink.PixelSet

open Library Library.Checked

section Entries

variable {table : List Run}

/-- A group's component with its own runs. -/
def entryOf (table : List Run) (group : ℕ × List ℕ) : Option (Component × List Run) :=
  match group.2.map (runAt table) with
  | [] => none
  | first :: rest => some (componentOf first rest, first :: rest)

theorem entryOf_of_ne_nil (table : List Run) {group : ℕ × List ℕ} (nonempty : group.2 ≠ []) :
    ∃ first rest, group.2.map (runAt table) = first :: rest ∧
      entryOf table group = some (componentOf first rest, first :: rest) := by
  obtain ⟨index, members, same⟩ := List.exists_cons_of_ne_nil nonempty
  refine ⟨runAt table index, members.map (runAt table), by rw [same, List.map_cons], ?_⟩
  rw [entryOf, same, List.map_cons]

theorem entryOf_eq_some {group : ℕ × List ℕ} {entry : Component × List Run}
    (made : entryOf table group = some entry) : entry.2 = group.2.map (runAt table) ∧
      ∃ first rest, entry = (componentOf first rest, first :: rest) := by
  rw [entryOf] at made
  cases listed : group.2.map (runAt table) with
  | nil =>
      rw [listed] at made
      cases made
  | cons first rest =>
      rw [listed] at made
      cases made
      exact ⟨rfl, first, rest, rfl⟩

theorem flatMap_entries {groups : List (ℕ × List ℕ)} (nonempty : ∀ group ∈ groups, group.2 ≠ []) :
    (groups.filterMap (entryOf table)).flatMap Prod.snd =
      (groups.flatMap Prod.snd).map (runAt table) := by
  induction groups with
  | nil => rfl
  | cons group groups ih =>
      obtain ⟨first, rest, same, made⟩ := entryOf_of_ne_nil table
        (nonempty group (.head _))
      rw [List.filterMap_cons_some made, List.flatMap_cons, List.flatMap_cons, List.map_append, same,
        ih fun other listed => nonempty other (.tail _ listed)]

end Entries

section Labelled

variable {runsByRow : List (ℤ × List (ℤ × ℤ))} {pixels : List Pixel} {gapTolerancePx : ℤ}

/-- No pixel is in two runs. -/
theorem holds_unique {table : List Run} {rows : List (ℤ × List ℕ)} (indexed : Indexed table rows)
    {left right : ℕ} (inLeft : left < table.length) (inRight : right < table.length) {pixel : Pixel}
    (holdsLeft : Holds (runAt table left) pixel) (holdsRight : Holds (runAt table right) pixel) :
    left = right := by
  obtain ⟨leftRow, leftListed, inLeftRow⟩ := indexed.listed left inLeft
  obtain ⟨rightRow, rightListed, inRightRow⟩ := indexed.listed right inRight
  have atLeft := (indexed.onRow _ leftListed left inLeftRow).2
  have atRight := (indexed.onRow _ rightListed right inRightRow).2
  obtain ⟨sameLeft, fromLeft, toLeft⟩ := holdsLeft
  obtain ⟨sameRight, fromRight, toRight⟩ := holdsRight
  have same := List.inj_on_of_nodup_map indexed.distinct rightListed leftListed (by omega)
  subst same
  by_contra differ
  have symm : Std.Symm fun first second => (runAt table first).x1 ≤ (runAt table second).x0 ∨
      (runAt table second).x1 ≤ (runAt table first).x0 := ⟨fun _ _ => Or.symm⟩
  have apart : rightRow.2.Pairwise fun first second =>
      (runAt table first).x1 ≤ (runAt table second).x0 ∨
        (runAt table second).x1 ≤ (runAt table first).x0 :=
    (indexed.ascending _ leftListed).2.imp Or.inl
  rcases apart.forall inLeftRow inRightRow differ with before | after
  · omega
  · omega

/-- The labelling lists the classes of connected runs, each under its representative. -/
theorem labelComponentRuns_eq (maximal : MaximalRuns runsByRow pixels)
    (nonneg : 0 ≤ gapTolerancePx) : ∃ (representative : ℕ → ℕ) (groups : List (ℕ × List ℕ)),
      Grouped ((List.range (runTable runsByRow).length).map fun index =>
        (representative index, index)) groups ∧
      (∀ left right, representative left = representative right ↔
        RunsConnected (runTable runsByRow)
          (indicesByRow 0 (runsByRow.insertionSort fun first second => first.1 ≤ second.1))
          gapTolerancePx left right) ∧
      labelComponentRuns runsByRow gapTolerancePx =
        .ok ((groups.filterMap (entryOf (runTable runsByRow))).insertionSort fun first second =>
          labelOrder first ≤ labelOrder second) := by
  have indexed := indexed_of_maximal maximal
  set table := runTable runsByRow with tableIs
  set rows := indicesByRow 0 (runsByRow.insertionSort fun first second => first.1 ≤ second.1)
    with rowsIs
  set pairs := rows.flatMap (rowPairs table gapTolerancePx rows) with pairsIs
  have inside : ∀ pair ∈ pairs, pair.1 < table.length ∧ pair.2 < table.length := by
    rintro ⟨left, right⟩ listed
    exact (((mem_pairs_iff indexed).mp listed).near indexed nonneg).1
  have represents := foldl_union_represents inside (range_represents table.length)
  refine ⟨pairs.foldl merge id, _, groupsOf_grouped represents, ?_, ?_⟩
  · intro left right
    rw [foldl_merge_eq_iff Function.injective_id]
    have same : (fun a b => (a, b) ∈ pairs) = Joins table rows gapTolerancePx := by
      funext a b
      exact propext (mem_pairs_iff indexed)
    rw [same, RunsConnected]
  · rw [labelComponentRuns, require_bind_of nonneg]
    have swept := foldl_sweepRow gapTolerancePx indexed.ascending
      (List.range table.length)
    change pure ((((groupsOf (rows.foldl (sweepRow table gapTolerancePx rows)
      (List.range table.length)) table.length).filterMap (entryOf table)).insertionSort
        fun first second => labelOrder first ≤ labelOrder second)) = _
    rw [swept]
    rfl

/-- The runs of an entry are those of one group. -/
theorem exists_group {groups : List (ℕ × List ℕ)} {table : List Run}
    {entry : Component × List Run}
    (listed : entry ∈ (groups.filterMap (entryOf table)).insertionSort fun first second =>
      labelOrder first ≤ labelOrder second) :
    ∃ group ∈ groups, entryOf table group = some entry := by
  rw [(List.perm_insertionSort _ _).mem_iff] at listed
  exact List.mem_filterMap.mp listed

end Labelled

section Exact

variable {runsByRow : List (ℤ × List (ℤ × ℤ))} {pixels : List Pixel} {gapTolerancePx : ℤ}

/-- What a labelling of a pixel set's components is. -/
structure Labels (pixels : List Pixel) (gapTolerancePx : ℤ) (table : List Run)
    (labelled : List (Component × List Run)) : Prop where
  partition : (labelled.flatMap Prod.snd).Perm table
  classes : ∀ entry ∈ labelled, ∃ pixel ∈ pixels,
    pixelsOf entry.2 = {other | Connected gapTolerancePx pixels pixel other}
  every : ∀ pixel ∈ pixels, ∃ entry ∈ labelled,
    pixelsOf entry.2 = {other | Connected gapTolerancePx pixels pixel other}
  tight : ∀ entry ∈ labelled, Tight entry.1.bounds (pixelsOf entry.2)
  count : ∀ entry ∈ labelled, entry.1.pixelCount = (pixelsOf entry.2).ncard
  order : labelled.Pairwise fun first second => ∃ least other : ℤ ×ₗ ℤ,
    IsLeast (toLex '' pixelsOf first.2) least ∧ IsLeast (toLex '' pixelsOf second.2) other ∧
      toLex (first.1.bounds.y, toLex (first.1.bounds.x, least)) <
        toLex (second.1.bounds.y, toLex (second.1.bounds.x, other))

theorem runTable_apart (maximal : MaximalRuns runsByRow pixels) :
    (∀ run ∈ runTable runsByRow, run.x0 < run.x1) ∧
      (runTable runsByRow).Pairwise fun first second =>
        ∀ pixel, Holds first pixel → ¬Holds second pixel := by
  have indexed := indexed_of_maximal maximal
  constructor
  · intro run listed
    obtain ⟨row, inside, -, span⟩ := mem_runTable listed
    exact (maximal.rows row inside).1 _ span
  · rw [List.pairwise_iff_getElem]
    intro first second inFirst inSecond before pixel atFirst atSecond
    rw [← List.getD_eq_getElem _ default inFirst] at atFirst
    rw [← List.getD_eq_getElem _ default inSecond] at atSecond
    have same := holds_unique indexed inFirst inSecond atFirst atSecond
    omega

/-- A group's runs hold the pixels connected with any one of them. -/
theorem pixelsOf_group (maximal : MaximalRuns runsByRow pixels) (nonneg : 0 ≤ gapTolerancePx)
    {representative : ℕ → ℕ} {groups : List (ℕ × List ℕ)}
    (grouped : Grouped ((List.range (runTable runsByRow).length).map fun index =>
      (representative index, index)) groups)
    (connects : ∀ left right, representative left = representative right ↔
      RunsConnected (runTable runsByRow)
        (indicesByRow 0 (runsByRow.insertionSort fun first second => first.1 ≤ second.1))
        gapTolerancePx left right)
    {group : ℕ × List ℕ} (listed : group ∈ groups) {index : ℕ} (member : index ∈ group.2)
    {pixel : Pixel} (held : Holds (runAt (runTable runsByRow) index) pixel) :
    pixelsOf (group.2.map (runAt (runTable runsByRow))) =
      {other | Connected gapTolerancePx pixels pixel other} := by
  have indexed := indexed_of_maximal maximal
  have holds := mem_pixels_iff maximal
  have inGroup (other : ℕ) : other ∈ group.2 ↔
      other < (runTable runsByRow).length ∧ representative other = group.1 := by
    rw [grouped.mem_iff listed, List.mem_map]
    constructor
    · rintro ⟨place, inside, same⟩
      obtain ⟨sameGroup, rfl⟩ := Prod.mk.inj same
      exact ⟨List.mem_range.mp inside, sameGroup⟩
    · rintro ⟨inside, same⟩
      exact ⟨other, List.mem_range.mpr inside, by rw [same]⟩
  obtain ⟨inside, represented⟩ := (inGroup index).mp member
  ext other
  constructor
  · rintro ⟨run, inRuns, heldOther⟩
    obtain ⟨place, inPlace, rfl⟩ := List.mem_map.mp inRuns
    obtain ⟨within, same⟩ := (inGroup place).mp inPlace
    have connected := (connects index place).mp (represented.trans same.symm)
    exact (runsConnected_iff indexed nonneg holds inside within held heldOther).mp connected
  · intro connected
    obtain ⟨place, within, heldOther⟩ := (holds other).mp (Connected.mem connected)
    have related := (runsConnected_iff indexed nonneg holds inside within held heldOther).mpr
      connected
    have same := (connects index place).mpr related
    refine ⟨_, List.mem_map_of_mem ((inGroup place).mpr ⟨within, ?_⟩), heldOther⟩
    rw [← same, represented]

theorem labelComponentRuns_labels (maximal : MaximalRuns runsByRow pixels)
    (nonneg : 0 ≤ gapTolerancePx) : ∃ labelled,
      labelComponentRuns runsByRow gapTolerancePx = .ok labelled ∧
        Labels pixels gapTolerancePx (runTable runsByRow) labelled := by
  obtain ⟨representative, groups, grouped, connects, accepted⟩ :=
    labelComponentRuns_eq maximal nonneg
  have bounding := labelComponentRuns_bounding accepted
  have nonempty : ∀ group ∈ groups, group.2 ≠ [] := fun group listed => grouped.ne_nil listed
  have whole : (List.range (runTable runsByRow).length).map (runAt (runTable runsByRow)) =
      runTable runsByRow := by
    have all := map_runAt_range' [] (runTable runsByRow) []
    rwa [List.nil_append, List.append_nil, List.length_nil, ← List.range_eq_range'] at all
  obtain ⟨wide, apart⟩ := runTable_apart maximal
  refine ⟨_, accepted, ?_⟩
  set labelled := (groups.filterMap (entryOf (runTable runsByRow))).insertionSort
    fun first second => labelOrder first ≤ labelOrder second with labelledIs
  have partition : (labelled.flatMap Prod.snd).Perm (runTable runsByRow) := by
    have sorted := (List.perm_insertionSort (fun first second : Component × List Run =>
      labelOrder first ≤ labelOrder second) (groups.filterMap (entryOf (runTable runsByRow))))
    refine (sorted.flatMap_right Prod.snd).trans ?_
    rw [flatMap_entries nonempty]
    have every := grouped.perm (by
      rw [List.map_map]
      exact (List.map_id _).symm ▸ List.nodup_range)
    rw [List.map_map] at every
    have mapped := every.map (runAt (runTable runsByRow))
    rwa [List.map_map, Function.comp_def, Function.comp_def, whole] at mapped
  have symm {first second : Run} (differ : ∀ pixel, Holds first pixel → ¬Holds second pixel)
      (pixel : Pixel) (there : Holds second pixel) : ¬Holds first pixel :=
    fun here => differ pixel here there
  obtain ⟨within, across⟩ := List.pairwise_flatMap.mp
    ((partition.pairwise_iff fun differ => symm differ).mpr apart)
  have wideIn : ∀ entry ∈ labelled, ∀ run ∈ entry.2, run.x0 < run.x1 :=
    fun entry listed run inside => wide run ((bounding entry listed).1 run inside)
  refine ⟨partition, ?_, ?_, ?_, ?_, ?_⟩
  · intro entry listed
    obtain ⟨group, inGroups, made⟩ := exists_group listed
    obtain ⟨runs, -⟩ := entryOf_eq_some made
    obtain ⟨index, member⟩ := List.exists_mem_of_ne_nil _ (nonempty group inGroups)
    have run : runAt (runTable runsByRow) index ∈ entry.2 := runs ▸ List.mem_map_of_mem member
    have held := holds_start (wideIn entry listed _ run)
    have classed := pixelsOf_group maximal nonneg grouped connects inGroups member held
    refine ⟨_, ?_, runs ▸ classed⟩
    have own : _ ∈ pixelsOf entry.2 := ⟨_, run, held⟩
    rw [runs, classed] at own
    exact Connected.mem own
  · intro pixel given
    obtain ⟨index, inside, held⟩ := (mem_pixels_iff maximal pixel).mp given
    obtain ⟨members, inGroups, member⟩ := grouped.exists_of_mem
      (List.mem_map.mpr ⟨index, List.mem_range.mpr inside, rfl⟩)
    obtain ⟨first, rest, same, made⟩ := entryOf_of_ne_nil (runTable runsByRow)
      (nonempty _ inGroups)
    refine ⟨(componentOf first rest, first :: rest), ?_, ?_⟩
    · rw [labelledIs, (List.perm_insertionSort _ _).mem_iff]
      exact List.mem_filterMap.mpr ⟨_, inGroups, made⟩
    · rw [← pixelsOf_group maximal nonneg grouped connects inGroups member held, same]
  · exact fun entry listed => tight_of_bounding (bounding entry listed).2 (wideIn entry listed)
  · intro entry listed
    obtain ⟨group, inGroups, made⟩ := exists_group listed
    obtain ⟨-, first, rest, rfl⟩ := entryOf_eq_some made
    exact (ncard_pixelsOf (wideIn _ listed) (within _ listed)).2.symm
  · have total : Std.Total fun first second : Component × List Run =>
        labelOrder first ≤ labelOrder second := ⟨fun _ _ => le_total _ _⟩
    have trans : IsTrans (Component × List Run) fun first second =>
        labelOrder first ≤ labelOrder second := ⟨fun _ _ _ => le_trans⟩
    have sorted := List.pairwise_insertionSort (fun first second : Component × List Run =>
      labelOrder first ≤ labelOrder second) (groups.filterMap (entryOf (runTable runsByRow)))
    refine (sorted.and across).imp_of_mem ?_
    intro first second inFirst inSecond both
    have someRuns {entry : Component × List Run} (listed : entry ∈ labelled) : entry.2 ≠ [] := by
      obtain ⟨group, inGroups, made⟩ := exists_group listed
      obtain ⟨-, head, rest, rfl⟩ := entryOf_eq_some made
      exact List.cons_ne_nil head rest
    obtain ⟨least, isLeast, keyed⟩ := labelOrder_eq first.1 (someRuns inFirst)
      (wideIn first inFirst)
    obtain ⟨other, isOther, keyed'⟩ := labelOrder_eq second.1 (someRuns inSecond)
      (wideIn second inSecond)
    refine ⟨least, other, isLeast, isOther, ?_⟩
    rw [← keyed, ← keyed']
    refine lt_of_le_of_ne both.1 fun same => ?_
    rw [keyed, keyed'] at same
    have shared : least = other := by
      simpa using congrArg (fun key => (ofLex (ofLex key).2).2) same
    obtain ⟨pixel, ⟨run, inRuns, held⟩, reached⟩ := isLeast.1
    obtain ⟨pixel', ⟨run', inRuns', held'⟩, reached'⟩ := isOther.1
    have equal : pixel = pixel' := toLex.injective (reached.trans (shared.trans reached'.symm))
    exact both.2 run inRuns run' inRuns' pixel held (equal ▸ held')

/-- The maximal row runs of any pixels, whichever way they are listed, are labelled with exactly
    the classes of the transitive closure of nearness: every run is in one component, each component
    has a tight box and its pixels counted, and they come in strictly increasing order. -/
theorem labelComponentRuns_exact (pixels : List Pixel) (gapTolerancePx : ℤ)
    (nonneg : 0 ≤ gapTolerancePx) : MaximalRuns (inkRunsByRow pixels) pixels ∧
    ∀ runsByRow, MaximalRuns runsByRow pixels → ∃ labelled,
      labelComponentRuns runsByRow gapTolerancePx = .ok labelled ∧
      (labelled.flatMap Prod.snd).Perm (runTable runsByRow) ∧ (runTable runsByRow).Nodup ∧
      (∀ entry ∈ labelled, ∃ pixel ∈ pixels,
        pixelsOf entry.2 = {other | Connected gapTolerancePx pixels pixel other}) ∧
      (∀ pixel ∈ pixels, ∃ entry ∈ labelled,
        pixelsOf entry.2 = {other | Connected gapTolerancePx pixels pixel other}) ∧
      (∀ entry ∈ labelled, Tight entry.1.bounds (pixelsOf entry.2) ∧
        entry.1.pixelCount = (pixelsOf entry.2).ncard) ∧
      labelled.Pairwise fun first second => ∃ least other : ℤ ×ₗ ℤ,
        IsLeast (toLex '' pixelsOf first.2) least ∧ IsLeast (toLex '' pixelsOf second.2) other ∧
          toLex (first.1.bounds.y, toLex (first.1.bounds.x, least)) <
            toLex (second.1.bounds.y, toLex (second.1.bounds.x, other)) := by
  refine ⟨inkRunsByRow_maximal pixels, fun runsByRow maximal => ?_⟩
  obtain ⟨labelled, accepted, labels⟩ := labelComponentRuns_labels maximal nonneg
  obtain ⟨wide, apart⟩ := runTable_apart maximal
  refine ⟨labelled, accepted, labels.partition, ?_, labels.classes, labels.every,
    fun entry listed => ⟨labels.tight entry listed, labels.count entry listed⟩, labels.order⟩
  refine apart.imp_of_mem ?_
  rintro first _ inTable _ differ rfl
  have held := holds_start (wide first inTable)
  exact differ _ held held

/-- Three pixels, two of them diagonal neighbours. -/
theorem labelComponentRuns_exact_diagonal : ∃ labelled,
    labelComponentRuns (inkRunsByRow [(0, 0), (4, 0), (1, 1)]) 0 = .ok labelled ∧
      (labelled.flatMap Prod.snd).Perm (runTable (inkRunsByRow [(0, 0), (4, 0), (1, 1)])) ∧
      ∀ pixel ∈ [((0, 0) : Pixel), (4, 0), (1, 1)], ∃ entry ∈ labelled,
        pixelsOf entry.2 = {other | Connected 0 [(0, 0), (4, 0), (1, 1)] pixel other} := by
  obtain ⟨maximal, exact_⟩ := labelComponentRuns_exact [(0, 0), (4, 0), (1, 1)] 0 le_rfl
  obtain ⟨labelled, accepted, partition, -, -, every, -⟩ := exact_ _ maximal
  exact ⟨labelled, accepted, partition, every⟩

/-- The component geometry alone. -/
def labelComponents (pixels : List Pixel) (gapTolerancePx : ℤ) : Except Refusal (List Component) :=
  (labelComponentRuns (inkRunsByRow pixels) gapTolerancePx).map (List.map Prod.fst)

example : (labelComponents [(0, 0), (4, 0), (1, 1)] 0).toOption.map (List.map Component.bounds) =
    some [⟨0, 0, 2, 2⟩, ⟨4, 0, 1, 1⟩] := by decide +kernel

end Exact

end Verbatus.Ink.PixelSet
