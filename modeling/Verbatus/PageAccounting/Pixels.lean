import Mathlib.Algebra.Order.BigOperators.Group.Finset
import Verbatus.Library.Strips
import Verbatus.PageAccounting.Answer

namespace Verbatus.PageAccounting

open Library Ink

section Points

/-- The points that some of the spans hold. -/
noncomputable def spanPoints (spans : List (ℤ × ℤ)) : Finset ℤ :=
  spans.toFinset.biUnion fun span => Finset.Ico span.1 span.2

theorem mem_spanPoints {spans : List (ℤ × ℤ)} {point : ℤ} :
    point ∈ spanPoints spans ↔ ∃ span ∈ spans, span.1 ≤ point ∧ point < span.2 := by
  simp only [spanPoints, Finset.mem_biUnion, List.mem_toFinset, Finset.mem_Ico]

theorem spanPoints_cons (span : ℤ × ℤ) (spans : List (ℤ × ℤ)) :
    spanPoints (span :: spans) = Finset.Ico span.1 span.2 ∪ spanPoints spans := by
  rw [spanPoints, List.toFinset_cons, Finset.biUnion_insert, ← spanPoints]

/-- Merging the spans that follow an open one counts the points of all of them. -/
theorem mergedLength_some {spans : List (ℤ × ℤ)} {top bottom : ℤ} (opened : top ≤ bottom)
    (ordered : spans.Pairwise fun first second => first.1 ≤ second.1)
    (after : ∀ span ∈ spans, top ≤ span.1 ∧ span.1 ≤ span.2) :
    mergedLength spans (some (top, bottom)) =
      (Finset.Ico top bottom ∪ spanPoints spans).card := by
  induction spans generalizing top bottom with
  | nil =>
      rw [mergedLength, spanPoints, List.toFinset_nil, Finset.biUnion_empty, Finset.union_empty,
        Int.card_Ico, Int.toNat_of_nonneg (by omega)]
  | cons span spans ih =>
      obtain ⟨y0, y1⟩ := span
      rw [List.pairwise_cons] at ordered
      rw [List.forall_mem_cons] at after
      obtain ⟨⟨low, solid⟩, later⟩ := after
      have onward : ∀ other ∈ spans, y0 ≤ other.1 ∧ other.1 ≤ other.2 :=
        fun other member => ⟨ordered.1 other member, (later other member).2⟩
      rw [spanPoints_cons, mergedLength]
      split
      · next gap =>
        have apart : Disjoint (Finset.Ico top bottom) (Finset.Ico y0 y1 ∪ spanPoints spans) := by
          rw [Finset.disjoint_left]
          intro point inside shared
          rw [Finset.mem_Ico] at inside
          rw [Finset.mem_union, Finset.mem_Ico, mem_spanPoints] at shared
          rcases shared with here | ⟨other, member, from_, -⟩
          · omega
          · have far := (onward other member).1
            omega
        rw [ih solid ordered.2 onward, Finset.card_union_of_disjoint apart, Int.card_Ico,
          Nat.cast_add, Int.toNat_of_nonneg (by omega)]
      · next touching =>
        have joined : Finset.Ico top bottom ∪ Finset.Ico y0 y1 = Finset.Ico top (max bottom y1) := by
          ext point
          rw [Finset.mem_union, Finset.mem_Ico, Finset.mem_Ico, Finset.mem_Ico, lt_max_iff]
          dsimp only at low solid
          omega
        rw [ih (by omega) ordered.2 later, ← Finset.union_assoc, joined]

/-- The merged length of spans in order is the number of points they hold. -/
theorem mergedLength_card {spans : List (ℤ × ℤ)}
    (ordered : spans.Pairwise fun first second => first.1 ≤ second.1)
    (solid : ∀ span ∈ spans, span.1 ≤ span.2) :
    mergedLength spans none = (spanPoints spans).card := by
  cases spans with
  | nil => rfl
  | cons span spans =>
      rw [List.pairwise_cons] at ordered
      rw [List.forall_mem_cons] at solid
      obtain ⟨y0, y1⟩ := span
      rw [mergedLength, mergedLength_some solid.1 ordered.2 fun other member =>
        ⟨ordered.1 other member, solid.2 other member⟩, spanPoints_cons]

end Points

section Pixels

/-- The pixels of a box. -/
noncomputable def pixels (box : Corners) : Finset (ℤ × ℤ) := Finset.Ico box.x0 box.x1 ×ˢ Finset.Ico box.y0 box.y1

/-- The pixels that some of the boxes hold. -/
noncomputable def covered (boxes : List Corners) : Finset (ℤ × ℤ) := boxes.toFinset.biUnion pixels

/-- The pixels a region covers. -/
noncomputable def regionPixels (boxes : List Bounds) : Finset (ℤ × ℤ) := covered (boxes.map corners)

theorem mem_pixels {box : Corners} {pixel : ℤ × ℤ} : pixel ∈ pixels box ↔
    (box.x0 ≤ pixel.1 ∧ pixel.1 < box.x1) ∧ box.y0 ≤ pixel.2 ∧ pixel.2 < box.y1 := by
  rw [pixels, Finset.mem_product, Finset.mem_Ico, Finset.mem_Ico]

theorem mem_covered {boxes : List Corners} {pixel : ℤ × ℤ} :
    pixel ∈ covered boxes ↔ ∃ box ∈ boxes, pixel ∈ pixels box := by
  simp only [covered, Finset.mem_biUnion, List.mem_toFinset]

theorem mem_overlap {first second : Corners} {pixel : ℤ × ℤ} :
    pixel ∈ pixels (overlap first second) ↔ pixel ∈ pixels first ∧ pixel ∈ pixels second := by
  simp only [mem_pixels, overlap]
  omega

theorem Corners.meets_of_mem {box : Corners} {pixel : ℤ × ℤ} (inside : pixel ∈ pixels box) :
    box.meets = true := by
  rw [mem_pixels] at inside
  rw [meets, Bool.and_eq_true, decide_eq_true_eq, decide_eq_true_eq]
  omega

/-- The boxes without a pixel may be left out. -/
theorem covered_meets (boxes : List Corners) : covered (boxes.filter Corners.meets) = covered boxes := by
  ext pixel
  rw [mem_covered, mem_covered]
  constructor
  · rintro ⟨box, member, inside⟩
    exact ⟨box, List.mem_of_mem_filter member, inside⟩
  · rintro ⟨box, member, inside⟩
    exact ⟨box, List.mem_filter.mpr ⟨member, Corners.meets_of_mem inside⟩, inside⟩

/-- The covered pixels of one column. -/
noncomputable def column (boxes : List Corners) (x : ℤ) : Finset ℤ :=
  spanPoints ((boxes.filter fun box => box.x0 ≤ x ∧ x < box.x1).map fun box => (box.y0, box.y1))

theorem mem_column {boxes : List Corners} {x y : ℤ} :
    y ∈ column boxes x ↔ (x, y) ∈ covered boxes := by
  simp only [column, mem_spanPoints, List.mem_map, List.mem_filter, decide_eq_true_eq, mem_covered,
    mem_pixels]
  constructor
  · rintro ⟨_, ⟨box, ⟨member, wide⟩, rfl⟩, tall⟩
    exact ⟨box, member, wide, tall⟩
  · rintro ⟨box, member, wide, tall⟩
    exact ⟨_, ⟨box, ⟨member, wide⟩, rfl⟩, tall⟩

/-- The covered pixels are counted column by column. -/
theorem card_covered {boxes : List Corners} {low high : ℤ}
    (within : ∀ box ∈ boxes, low ≤ box.x0 ∧ box.x1 ≤ high) :
    ((covered boxes).card : ℤ) = ∑ x ∈ Finset.Ico low high, ((column boxes x).card : ℤ) := by
  have maps : Set.MapsTo Prod.fst (covered boxes : Set (ℤ × ℤ)) (Finset.Ico low high : Set ℤ) := by
    intro pixel inside
    obtain ⟨box, member, here⟩ := mem_covered.mp inside
    rw [mem_pixels] at here
    have bounds := within box member
    rw [Finset.mem_coe, Finset.mem_Ico]
    omega
  rw [Finset.card_eq_sum_card_fiberwise maps, Nat.cast_sum]
  apply Finset.sum_congr rfl
  intro x _
  have fiber : (covered boxes).filter (fun pixel => pixel.1 = x) =
      (column boxes x).map ⟨fun y => (x, y), fun _ _ same => (Prod.mk.inj same).2⟩ := by
    ext ⟨left, y⟩
    rw [Finset.mem_filter, Finset.mem_map]
    constructor
    · rintro ⟨inside, rfl⟩
      exact ⟨y, mem_column.mpr inside, rfl⟩
    · rintro ⟨other, inside, same⟩
      obtain ⟨rfl, rfl⟩ := Prod.mk.inj same
      exact ⟨mem_column.mp inside, rfl⟩
  rw [fiber, Finset.card_map]

end Pixels

section Area

variable {clipped : List Corners}

/-- Within a strip every column has the points of the boxes that reach across it. -/
theorem column_strip {cuts : List ℤ} (cut : ∀ box ∈ clipped, box.x0 ∈ cuts ∧ box.x1 ∈ cuts)
    (rising : cuts.Pairwise (· < ·)) {strip : ℤ × ℤ} (member : strip ∈ neighbours cuts) {x : ℤ}
    (inside : x ∈ Finset.Ico strip.1 strip.2) :
    column clipped x = spanPoints (stripSpans clipped strip.1 strip.2) := by
  have between := (neighbours_apart rising member).2
  rw [Finset.mem_Ico] at inside
  ext y
  simp only [column, mem_spanPoints, stripSpans, mem_sortBy, List.mem_map, List.mem_filter,
    decide_eq_true_eq]
  constructor
  · rintro ⟨_, ⟨box, ⟨listed, wide⟩, rfl⟩, tall⟩
    have left := between box.x0 (cut box listed).1
    have right := between box.x1 (cut box listed).2
    exact ⟨_, ⟨box, ⟨listed, by omega⟩, rfl⟩, tall⟩
  · rintro ⟨_, ⟨box, ⟨listed, wide⟩, rfl⟩, tall⟩
    exact ⟨_, ⟨box, ⟨listed, by omega⟩, rfl⟩, tall⟩

theorem stripSpans_ordered (x0 x1 : ℤ) :
    (stripSpans clipped x0 x1).Pairwise fun first second => first.1 ≤ second.1 := by
  refine (sortBy_pairwise _ _).imp fun {first second} below => ?_
  rw [Prod.Lex.toLex_le_toLex] at below
  rcases below with strict | ⟨same, -⟩
  · exact strict.le
  · exact same.le

theorem stripSpans_solid (meets : ∀ box ∈ clipped, box.meets = true) (x0 x1 : ℤ) :
    ∀ span ∈ stripSpans clipped x0 x1, span.1 ≤ span.2 := by
  intro span member
  rw [stripSpans, mem_sortBy, List.mem_map] at member
  obtain ⟨box, listed, rfl⟩ := member
  have solid := meets box (List.mem_of_mem_filter listed)
  rw [Corners.meets, Bool.and_eq_true, decide_eq_true_eq, decide_eq_true_eq] at solid
  exact solid.2.le

/-- The strips between the boxes' sides make up the pixels the boxes cover. -/
theorem sum_strips_card (meets : ∀ box ∈ clipped, box.meets = true) :
    ((neighbours (sortedSet (clipped.map Corners.x0 ++ clipped.map Corners.x1))).map fun strip =>
        mergedLength (stripSpans clipped strip.1 strip.2) none * (strip.2 - strip.1)).sum =
      (covered clipped).card := by
  have cut : ∀ box ∈ clipped, box.x0 ∈ sortedSet (clipped.map Corners.x0 ++ clipped.map Corners.x1) ∧
      box.x1 ∈ sortedSet (clipped.map Corners.x0 ++ clipped.map Corners.x1) := by
    intro box member
    rw [mem_sortedSet, mem_sortedSet, List.mem_append, List.mem_append]
    exact ⟨.inl (List.mem_map_of_mem member), .inr (List.mem_map_of_mem member)⟩
  have rising := sortedSet_rising (clipped.map Corners.x0 ++ clipped.map Corners.x1)
  generalize sortedSet (clipped.map Corners.x0 ++ clipped.map Corners.x1) = cuts at cut rising
  have strips : ((neighbours cuts).map fun strip =>
        mergedLength (stripSpans clipped strip.1 strip.2) none * (strip.2 - strip.1)) =
      (neighbours cuts).map fun strip =>
        ∑ x ∈ Finset.Ico strip.1 strip.2, ((column clipped x).card : ℤ) := by
    apply List.map_congr_left
    intro strip member
    have width := (neighbours_apart rising member).1
    rw [Finset.sum_congr rfl fun x inside => by rw [column_strip cut rising member inside],
      Finset.sum_const, Int.card_Ico, nsmul_eq_mul, Int.toNat_of_nonneg (by omega),
      mergedLength_card (stripSpans_ordered _ _) (stripSpans_solid meets _ _), mul_comm]
  rw [strips]
  cases cuts with
  | nil =>
      cases clipped with
      | nil => rfl
      | cons box clipped => cases (cut box (.head _)).1
  | cons first cuts =>
      rw [sum_strips _ rising]
      symm
      apply card_covered
      intro box member
      obtain ⟨left, right⟩ := cut box member
      constructor
      · rcases List.mem_cons.mp left with same | later
        · exact same.ge
        · exact ((List.pairwise_cons.mp rising).1 _ later).le
      · exact le_getLast rising _ _ right

/-- The area of a box inside a region is the number of its pixels that the region covers. -/
theorem areaInside_card (box : Bounds) (regions : List Bounds) : areaInside box regions =
    ((pixels (corners box)).filter fun pixel => pixel ∈ regionPixels regions).card := by
  have meets : ∀ other ∈ (regions.map fun region => overlap (corners box) (corners region)).filter
      Corners.meets, other.meets = true := fun other member => (List.mem_filter.mp member).2
  have counted := sum_strips_card meets
  rw [areaInside]
  refine counted.trans ?_
  rw [covered_meets]
  congr 2
  ext pixel
  rw [mem_covered, Finset.mem_filter, regionPixels, mem_covered]
  constructor
  · rintro ⟨_, member, inside⟩
    obtain ⟨region, listed, rfl⟩ := List.mem_map.mp member
    rw [mem_overlap] at inside
    exact ⟨inside.1, corners region, List.mem_map_of_mem listed, inside.2⟩
  · rintro ⟨here, _, member, inside⟩
    obtain ⟨region, listed, rfl⟩ := List.mem_map.mp member
    exact ⟨_, List.mem_map_of_mem listed, mem_overlap.mpr ⟨here, inside⟩⟩

theorem mem_regionPixels {boxes : List Bounds} {pixel : ℤ × ℤ} :
    pixel ∈ regionPixels boxes ↔ ∃ box ∈ boxes, pixel ∈ pixels (corners box) := by
  rw [regionPixels, mem_covered]
  simp only [List.mem_map, exists_exists_and_eq_and]

theorem corners_fromCorners (x0 y0 x1 y1 : ℤ) : corners (fromCorners x0 y0 x1 y1) = ⟨x0, y0, x1, y1⟩ := by
  rw [corners, fromCorners, add_sub_cancel, add_sub_cancel]

/-- The box around a region holds every pixel of it; there is none only around nothing. -/
theorem unionBox_holds (boxes : List Bounds) : match unionBox boxes with
    | none => boxes = []
    | some bounding => ∀ box ∈ boxes, ∀ pixel ∈ pixels (corners box), pixel ∈ pixels (corners bounding) := by
  cases left : ((boxes.map corners).map Corners.x0).min? with
  | none =>
      rw [List.min?_eq_none_iff, List.map_eq_nil_iff, List.map_eq_nil_iff] at left
      rw [left]
      rfl
  | some x0 =>
      have nonempty : boxes ≠ [] := by
        rintro rfl
        cases left
      have solid (side : Corners → ℤ) : (boxes.map corners).map side ≠ [] := by
        simpa only [ne_eq, List.map_eq_nil_iff] using nonempty
      obtain ⟨y0, top⟩ := Option.ne_none_iff_exists'.mp (mt List.min?_eq_none_iff.mp (solid Corners.y0))
      obtain ⟨x1, right⟩ := Option.ne_none_iff_exists'.mp (mt List.max?_eq_none_iff.mp (solid Corners.x1))
      obtain ⟨y1, bottom⟩ := Option.ne_none_iff_exists'.mp (mt List.max?_eq_none_iff.mp (solid Corners.y1))
      have found : unionBox boxes = some (fromCorners x0 y0 x1 y1) := by
        rw [unionBox, left, top, right, bottom]
        rfl
      rw [found]
      intro box member pixel inside
      have listed (side : Corners → ℤ) : side (corners box) ∈ (boxes.map corners).map side :=
        List.mem_map_of_mem (List.mem_map_of_mem member)
      have bounds := And.intro ((List.min?_eq_some_iff.mp left).2 _ (listed Corners.x0))
        ((List.min?_eq_some_iff.mp top).2 _ (listed Corners.y0))
      have others := And.intro ((List.max?_eq_some_iff.mp right).2 _ (listed Corners.x1))
        ((List.max?_eq_some_iff.mp bottom).2 _ (listed Corners.y1))
      rw [mem_pixels] at inside
      rw [corners_fromCorners, mem_pixels]
      dsimp only
      omega

/-- The area of a region is the number of pixels it covers. -/
theorem regionArea_card (boxes : List Bounds) : regionArea boxes = (regionPixels boxes).card := by
  have holds := unionBox_holds boxes
  rw [regionArea]
  cases bounding : unionBox boxes with
  | none =>
      rw [bounding] at holds
      subst holds
      rfl
  | some box =>
      rw [bounding] at holds
      change areaInside box boxes = _
      rw [areaInside_card]
      congr 2
      ext pixel
      rw [Finset.mem_filter, and_iff_right_iff_imp, mem_regionPixels]
      rintro ⟨other, member, inside⟩
      exact holds other member pixel inside

/-- The area two regions share is the number of pixels both cover. -/
theorem sharedArea_card (region other : List Bounds) :
    sharedArea region other = (regionPixels region ∩ regionPixels other).card := by
  rw [sharedArea, regionArea_card]
  congr 2
  ext pixel
  rw [Finset.mem_inter, mem_regionPixels, mem_regionPixels, mem_regionPixels]
  simp only [List.mem_map, List.mem_flatMap, List.mem_filter]
  constructor
  · rintro ⟨_, ⟨_, ⟨first, inRegion, ⟨second, inOther, rfl⟩, -⟩, rfl⟩, inside⟩
    rw [corners_fromCorners, mem_overlap] at inside
    exact ⟨⟨first, inRegion, inside.1⟩, second, inOther, inside.2⟩
  · rintro ⟨⟨first, inRegion, here⟩, second, inOther, there⟩
    have both := mem_overlap.mpr ⟨here, there⟩
    refine ⟨_, ⟨_, ⟨first, inRegion, ⟨second, inOther, rfl⟩, Corners.meets_of_mem both⟩, rfl⟩, ?_⟩
    rw [corners_fromCorners]
    exact both

/-- A box inside a region is inside every region that covers as much. -/
theorem isInside_mono {box : Bounds} {regions others : List Bounds} {policy : PageAccountingPolicy}
    (within : regionPixels regions ⊆ regionPixels others)
    (inside : isInside box regions policy = true) : isInside box others policy = true := by
  rw [isInside, decide_eq_true_eq, areaInside_card] at inside ⊢
  have fewer : (((pixels (corners box)).filter fun pixel => pixel ∈ regionPixels regions).card : ℤ) ≤
      ((pixels (corners box)).filter fun pixel => pixel ∈ regionPixels others).card :=
    Int.ofNat_le.mpr (Finset.card_le_card (Finset.monotone_filter_right _ fun _ _ => @within _))
  have scaled := mul_le_mul_of_nonneg_right fewer (Int.natCast_nonneg basisPoints)
  exact le_trans inside scaled

theorem isInside_congr (box : Bounds) {regions others : List Bounds} (policy : PageAccountingPolicy)
    (same : regionPixels regions = regionPixels others) :
    isInside box regions policy = isInside box others policy := by
  rw [Bool.eq_iff_iff]
  exact ⟨isInside_mono same.subset, isInside_mono same.symm.subset⟩

end Area

end Verbatus.PageAccounting
