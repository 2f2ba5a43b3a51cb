import Mathlib.Tactic
import Verbatus.Ink.ResidualInk

namespace Verbatus.Ink

open Library.Checked Library.Spans Library.ByteRow

/-- The box holds the pixel. -/
def Bounds.Holds (bounds : Bounds) (x y : ℤ) : Prop :=
  (bounds.x ≤ x ∧ x < bounds.x + bounds.w) ∧ bounds.y ≤ y ∧ y < bounds.y + bounds.h

instance (bounds : Bounds) (x y : ℤ) : Decidable (bounds.Holds x y) :=
  inferInstanceAs (Decidable (_ ∧ _))

/-- Some covered box holds the pixel. -/
def InCoverage (covered : List Bounds) (x y : ℤ) : Prop := ∃ bounds ∈ covered, bounds.Holds x y

instance (covered : List Bounds) (x y : ℤ) : Decidable (InCoverage covered x y) :=
  inferInstanceAs (Decidable (∃ bounds ∈ covered, bounds.Holds x y))

section Masks

theorem paint_getElem? {mask : List UInt8} {start stop index : ℕ} :
    (paint mask start stop)[index]? = some 1 ↔
      (index < mask.length ∧ start ≤ index ∧ index < stop) ∨ mask[index]? = some 1 := by
  rw [paint, List.getElem?_mapIdx]
  by_cases inside : index < mask.length
  · rw [List.getElem?_eq_getElem inside]
    by_cases painted : start ≤ index ∧ index < stop
    · simp [painted, inside]
    · simp [painted]
  · simp [inside]

theorem paintAll_getElem? {mask : List UInt8} {slices : List (ℕ × ℕ)} {index : ℕ} :
    (paintAll mask slices)[index]? = some 1 ↔
      (index < mask.length ∧ ∃ slice ∈ slices, slice.1 ≤ index ∧ index < slice.2) ∨
        mask[index]? = some 1 := by
  induction slices generalizing mask with
  | nil => simp [paintAll]
  | cons slice slices ih =>
      change (paintAll (paint mask slice.1 slice.2) slices)[index]? = some 1 ↔ _
      rw [ih, paint_getElem?, length_paint, List.exists_mem_cons_iff, and_or_left, ← or_assoc]
      exact or_congr_left or_comm

variable {page : Page} {slices : List (ℕ × ℕ)} {x y : ℕ}

/-- Each place of a page mask row is one pixel of the page. -/
theorem maskRow_getElem? (mask : List UInt8) (y width x : ℕ) (inside : x < width) :
    (maskRow mask y width)[x]? = mask[y * width + x]? := by
  rw [maskRow, List.getElem?_take_of_lt inside, List.getElem?_drop]

theorem length_maskRow (mask : PageMask page) (inside : y < page.height) :
    (maskRow mask.bytes y page.width).length = page.width := by
  have room : y * page.width + page.width ≤ page.width * page.height := by nlinarith
  rw [maskRow, List.length_take, List.length_drop, mask.size]
  omega

theorem binary_maskRow (mask : PageMask page) (y : ℕ) :
    Binary (maskRow mask.bytes y page.width) := fun byte member =>
  mask.binary byte (List.mem_of_mem_drop (List.mem_of_mem_take member))

theorem ofSlices_getElem? {index : ℕ} :
    (PageMask.ofSlices page slices).bytes[index]? = some 1 ↔
      index < page.width * page.height ∧
        ∃ slice ∈ slices, slice.1 ≤ index ∧ index < slice.2 := by
  rw [PageMask.ofSlices, paintAll_getElem?, List.length_replicate, List.getElem?_replicate]
  split_ifs <;> simp [*]

/-- A slice of one page row holds a pixel exactly when it is on that row and in its columns. -/
theorem slice_holds {row first last width : ℕ} (inside : x < width) (short : last ≤ width) :
    row * width + first ≤ y * width + x ∧ y * width + x < row * width + last ↔
      row = y ∧ first ≤ x ∧ x < last := by
  constructor
  · rintro ⟨above, below⟩
    have same : row = y := by
      rcases Nat.lt_trichotomy row y with lower | same | higher
      · have := Nat.mul_le_mul_right width (Nat.succ_le_of_lt lower)
        rw [Nat.succ_mul] at this
        omega
      · exact same
      · have := Nat.mul_le_mul_right width (Nat.succ_le_of_lt higher)
        rw [Nat.succ_mul] at this
        omega
    subst same
    omega
  · rintro ⟨rfl, above, below⟩
    omega

theorem clamp_le (value : ℤ) (limit : ℕ) : clamp value limit ≤ limit := by
  unfold clamp
  omega

/-- A clipped box paints exactly its pixels on the page. -/
theorem boxSlices_holds (bounds : Bounds) (insideX : x < page.width) (insideY : y < page.height) :
    (∃ slice ∈ boxSlices page bounds,
      slice.1 ≤ y * page.width + x ∧ y * page.width + x < slice.2) ↔ bounds.Holds x y := by
  have lastInside : max (clamp bounds.x page.width) (clamp (bounds.x + bounds.w) page.width) ≤
      page.width := max_le (clamp_le _ _) (clamp_le _ _)
  simp only [boxSlices, List.mem_map, List.mem_range'_1, Bounds.Holds]
  constructor
  · rintro ⟨slice, ⟨row, rows, rfl⟩, columns⟩
    obtain ⟨rfl, above, below⟩ := (slice_holds insideX lastInside).mp columns
    unfold clamp at *
    omega
  · rintro ⟨columns, rows⟩
    refine ⟨_, ⟨y, ?_, rfl⟩, (slice_holds insideX lastInside).mpr ⟨rfl, ?_⟩⟩
    · unfold clamp
      omega
    · unfold clamp
      omega

theorem coveredMask_row (covered : List Bounds) (insideY : y < page.height) (place : ℤ) :
    OneAt (maskRow (coveredMask page covered).bytes y page.width) place ↔
      (0 ≤ place ∧ place < page.width) ∧ InCoverage covered place y := by
  by_cases inside : 0 ≤ place ∧ place < page.width
  · obtain ⟨x, rfl⟩ := Int.eq_ofNat_of_zero_le inside.1
    have insideX : x < page.width := by omega
    have onPage : y * page.width + x < page.width * page.height := by nlinarith
    rw [oneAt_natCast, maskRow_getElem? _ _ _ _ insideX, coveredMask, ofSlices_getElem?]
    simp only [inside, onPage, true_and, and_self, List.mem_flatMap, InCoverage]
    constructor
    · rintro ⟨slice, ⟨bounds, member, painted⟩, columns⟩
      exact ⟨bounds, member, (boxSlices_holds bounds insideX insideY).mp ⟨slice, painted, columns⟩⟩
    · rintro ⟨bounds, member, held⟩
      obtain ⟨slice, painted, columns⟩ := (boxSlices_holds bounds insideX insideY).mpr held
      exact ⟨slice, ⟨bounds, member, painted⟩, columns⟩
  · simp only [inside, false_and, iff_false]
    intro one
    have short := one.lt_length
    rw [length_maskRow _ insideY] at short
    exact inside ⟨one.1, short⟩

end Masks

section RowCoverage

variable (covered : List Bounds) (y width : ℤ)

theorem rowIntervals_covers (place : ℤ) :
    Covers (rowIntervals covered y width) place ↔
      (0 ≤ place ∧ place < width) ∧ InCoverage covered place y := by
  simp only [rowIntervals, Covers, List.mem_map, List.mem_filter, decide_eq_true_eq, InCoverage,
    Bounds.Holds]
  constructor
  · rintro ⟨span, ⟨bounds, ⟨member, rows⟩, rfl⟩, columns⟩
    dsimp only at columns
    exact ⟨by omega, bounds, member, by omega, rows⟩
  · rintro ⟨inside, bounds, member, columns, rows⟩
    refine ⟨_, ⟨bounds, ⟨member, rows⟩, rfl⟩, ?_⟩
    dsimp only
    omega

/-- Sorting the clipped intervals puts their starts in order, so merging keeps their points. -/
theorem rowCoverage_spec :
    Ordered (rowCoverage covered y width) ∧ ∀ place,
      Covers (rowCoverage covered y width) place ↔
        (0 ≤ place ∧ place < width) ∧ InCoverage covered place y := by
  have total : Std.Total fun first second : Span => toLex first ≤ toLex second :=
    ⟨fun first second => le_total (toLex first) (toLex second)⟩
  have trans : IsTrans Span fun first second => toLex first ≤ toLex second :=
    ⟨fun _ _ _ => le_trans⟩
  have sorted := List.pairwise_insertionSort
    (fun first second : Span => toLex first ≤ toLex second) (rowIntervals covered y width)
  have starts : ((rowIntervals covered y width).insertionSort fun first second =>
      toLex first ≤ toLex second).Pairwise fun first second => first.1 ≤ second.1 := by
    apply sorted.imp
    intro first second before
    rcases Prod.Lex.le_iff.mp before with earlier | same
    · exact earlier.le
    · exact same.1.le
  obtain ⟨ordered, covers⟩ := mergeSorted_spec starts
  refine ⟨ordered, fun place => ?_⟩
  rw [rowCoverage, covers, covers_perm (List.perm_insertionSort _ _), rowIntervals_covers]

end RowCoverage

section RowMeasures

variable {page : Page} (basis : PageInkBasis page)

/-- The row's pixel is ink this audit counts: dark enough, and not page-spanning. -/
def Audited (row : List UInt8) (y : ℕ) (place : ℤ) : Prop :=
  OneAt (row.map basis.inkTable.entry) place ∧
    ¬ OneAt (maskRow basis.spanningMask.bytes y page.width) place

theorem binary_inkRow (table : InkTable) (row : List UInt8) : Binary (row.map table.entry) := by
  intro byte member
  obtain ⟨value, -, rfl⟩ := List.mem_map.mp member
  exact table.binary value

/-- The audited row as bytes. -/
def auditedRow (row : List UInt8) (y : ℕ) : List UInt8 :=
  List.zipWith (combine fun ink spanning => ink && !spanning) (row.map basis.inkTable.entry)
    (maskRow basis.spanningMask.bytes y page.width)

theorem oneAt_zipWith {operation : Bool → Bool → Bool} (zero : operation false false = false)
    {first second : List UInt8} (sameLength : first.length = second.length) (place : ℤ) :
    OneAt (List.zipWith (combine operation) first second) place ↔
      operation (decide (OneAt first place)) (decide (OneAt second place)) = true := by
  by_cases inside : 0 ≤ place ∧ place < first.length
  · obtain ⟨index, rfl⟩ := Int.eq_ofNat_of_zero_le inside.1
    have firstInside : index < first.length := by omega
    have secondInside : index < second.length := by omega
    simp only [oneAt_natCast, List.getElem?_zipWith, List.getElem?_eq_getElem firstInside,
      List.getElem?_eq_getElem secondInside, Option.some.injEq, combine]
    split_ifs with holds
    · simpa using holds
    · simpa using holds
  · have outside {bytes : List UInt8} (same : bytes.length = first.length) : ¬ OneAt bytes place :=
      fun one => inside ⟨one.1, by rw [← same]; exact one.lt_length⟩
    rw [decide_eq_false (outside rfl), decide_eq_false (outside sameLength.symm), zero]
    simp only [Bool.false_eq_true, iff_false]
    exact outside (by simp [sameLength])

section OnRow

variable {row : List UInt8} {y : ℕ} (wide : row.length = page.width) (inside : y < page.height)

include wide inside

theorem inkRow_length : (row.map basis.inkTable.entry).length =
    (maskRow basis.spanningMask.bytes y page.width).length := by
  rw [List.length_map, wide, length_maskRow _ inside]

theorem length_auditedRow : (auditedRow basis row y).length = page.width := by
  rw [auditedRow, List.length_zipWith, ← inkRow_length basis wide inside, List.length_map, wide,
    min_self]

theorem auditedBits_eq : auditedBits basis y row = fromBytes (auditedRow basis row y) :=
  bitwise_fromBytes Nat.ldiff _ (fun _ _ _ => Nat.testBit_ldiff _ _ _) rfl
    (inkRow_length basis wide inside) (binary_inkRow _ _) (binary_maskRow _ _)

theorem oneAt_auditedRow (place : ℤ) :
    OneAt (auditedRow basis row y) place ↔ Audited basis row y place := by
  rw [auditedRow, oneAt_zipWith rfl (inkRow_length basis wide inside), Audited]
  simp

/-- The audited ink of a row is the number of its audited pixels. -/
theorem totalInk_eq (covered : List UInt8) :
    (rowCounts basis covered row y).totalInk = count 0 page.width (Audited basis row y) := by
  change bitCount (auditedBits basis y row) = _
  rw [auditedBits_eq basis wide inside, auditedRow, bitCount_fromBytes (binary_zipWith_combine _ _ _),
    count_one_eq, ← auditedRow, length_auditedRow basis wide inside]
  exact count_congr fun place _ _ => oneAt_auditedRow basis wide inside place

/-- The ink outside coverage is the number of audited pixels no covered box holds. -/
theorem outsideInk_eq (covered : List Bounds) :
    (rowCounts basis (coveredMask page covered).bytes row y).outsideInk =
      count 0 page.width fun place => Audited basis row y place ∧ ¬ InCoverage covered place y := by
  have sameLength : (auditedRow basis row y).length =
      (maskRow (coveredMask page covered).bytes y page.width).length := by
    rw [length_auditedRow basis wide inside, length_maskRow _ inside]
  change bitCount (Nat.ldiff (auditedBits basis y row)
    (fromBytes (maskRow (coveredMask page covered).bytes y page.width))) = _
  rw [auditedBits_eq basis wide inside,
    bitwise_fromBytes Nat.ldiff (fun ink held => ink && !held)
      (fun _ _ _ => Nat.testBit_ldiff _ _ _) rfl sameLength
      (binary_zipWith_combine _ _ _) (binary_maskRow _ _),
    bitCount_fromBytes (binary_zipWith_combine _ _ _), count_one_eq, List.length_zipWith,
    ← sameLength, min_self, length_auditedRow basis wide inside]
  apply count_congr
  intro place above below
  rw [oneAt_zipWith rfl sameLength]
  simp [oneAt_auditedRow basis wide inside, coveredMask_row covered inside, above, below]

/-- The ink of a row is the ink on the page-spanning component and the ink off it. -/
theorem pageInk_eq (covered : List UInt8) :
    (rowCounts basis covered row y).pageInk =
      (rowCounts basis covered row y).spanningInk + (rowCounts basis covered row y).totalInk := by
  change (row.map basis.inkTable.entry).count 1 = bitCount (fromBytes (row.map basis.inkTable.entry) &&&
    fromBytes (maskRow basis.spanningMask.bytes y page.width)) + bitCount (auditedBits basis y row)
  have total := totalInk_eq basis wide inside covered
  change bitCount (auditedBits basis y row) = _ at total
  have sameLength := inkRow_length basis wide inside
  rw [total, bitwise_fromBytes (· &&& ·) and (fun _ _ _ => Nat.testBit_and _ _ _) rfl sameLength
      (binary_inkRow _ _) (binary_maskRow _ _),
    bitCount_fromBytes (binary_zipWith_combine _ _ _), count_one_eq, count_one_eq,
    List.length_zipWith, ← sameLength, min_self, List.length_map, wide,
    count_partition (OneAt (maskRow basis.spanningMask.bytes y page.width))]
  congr 1
  apply count_congr
  intro place _ _
  rw [oneAt_zipWith rfl sameLength]
  simp

/-- The page-spanning ink of a row lies where the spanning mask is set. -/
theorem spanningInk_le {holds : ℤ → Prop} (covered : List UInt8)
    (held : ∀ x, OneAt (maskRow basis.spanningMask.bytes y page.width) x → holds x) :
    (rowCounts basis covered row y).spanningInk ≤ count 0 page.width holds := by
  change bitCount (fromBytes (row.map basis.inkTable.entry) &&&
    fromBytes (maskRow basis.spanningMask.bytes y page.width)) ≤ _
  have sameLength := inkRow_length basis wide inside
  rw [bitwise_fromBytes (· &&& ·) and (fun _ _ _ => Nat.testBit_and _ _ _) rfl sameLength
      (binary_inkRow _ _) (binary_maskRow _ _),
    bitCount_fromBytes (binary_zipWith_combine _ _ _), count_one_eq,
    List.length_zipWith, ← sameLength, min_self, List.length_map, wide]
  apply count_mono
  intro place _ _ both
  rw [oneAt_zipWith rfl sameLength, Bool.and_eq_true, decide_eq_true_eq, decide_eq_true_eq] at both
  exact held place both.2

end OnRow

/-- The audited pixels of the page that satisfy a predicate of their column and row. -/
noncomputable def auditedInk (holds : ℤ → ℤ → Prop) : ℕ :=
  (page.rows.zipIdx.map fun entry => count 0 page.width fun x =>
    Audited basis entry.1 entry.2 x ∧ holds x entry.2).sum

variable {basis} in
theorem auditedInk_mono {holds other : ℤ → ℤ → Prop} (implies : ∀ x y, holds x y → other x y) :
    auditedInk basis holds ≤ auditedInk basis other := by
  apply List.sum_le_sum
  intro entry _
  exact count_mono fun x _ _ held => ⟨held.1, implies x entry.2 held.2⟩

variable {basis} in
theorem auditedInk_congr {holds other : ℤ → ℤ → Prop}
    (same : ∀ x y : ℤ, 0 ≤ x → x < page.width → 0 ≤ y → y < page.height → (holds x y ↔ other x y)) :
    auditedInk basis holds = auditedInk basis other := by
  unfold auditedInk
  congr 1
  apply List.map_congr_left
  rintro ⟨row, y⟩ member
  have inside := (List.mem_zipIdx' member).1
  rw [page.rowCount] at inside
  apply count_congr
  intro x above below
  rw [same x y above below (by omega) (by omega)]

/-- A row of the page with its index. -/
theorem row_of_mem_zipIdx {row : List UInt8} {y : ℕ} (member : (row, y) ∈ page.rows.zipIdx) :
    row.length = page.width ∧ y < page.height := by
  obtain ⟨inside, same⟩ := List.mem_zipIdx' member
  refine ⟨page.rowWidth row ?_, page.rowCount ▸ inside⟩
  rw [same]
  exact List.getElem_mem inside

variable (float : FloatArithmetic) (covered : List Bounds) (coveragePolicy : CoverageAuditPolicy)

theorem residualCounts_total :
    (residualCounts float covered basis coveragePolicy).totalInkPixels =
      auditedInk basis fun _ _ => True := by
  change ((((page.rows.zipIdx.map fun entry =>
    rowCounts basis (coveredMask page covered).bytes entry.1 entry.2).map RowCounts.totalInk).sum : ℕ) : ℤ) = _
  rw [List.map_map, auditedInk]
  congr 2
  apply List.map_congr_left
  rintro ⟨row, y⟩ member
  obtain ⟨wide, inside⟩ := row_of_mem_zipIdx member
  exact (totalInk_eq basis wide inside _).trans (count_congr fun x _ _ => (and_iff_left trivial).symm)

theorem residualCounts_outside :
    (residualCounts float covered basis coveragePolicy).outsideInkPixels =
      auditedInk basis fun x y => ¬ InCoverage covered x y := by
  change ((((page.rows.zipIdx.map fun entry =>
    rowCounts basis (coveredMask page covered).bytes entry.1 entry.2).map RowCounts.outsideInk).sum : ℕ) : ℤ) = _
  rw [List.map_map, auditedInk]
  congr 2
  apply List.map_congr_left
  rintro ⟨row, y⟩ member
  obtain ⟨wide, inside⟩ := row_of_mem_zipIdx member
  exact (outsideInk_eq basis wide inside covered).trans (count_congr fun x _ _ => .rfl)

theorem residualCounts_flagged :
    (residualCounts float covered basis coveragePolicy).flagged =
      (policyFlag float (residualCounts float covered basis coveragePolicy).totalInkPixels
        (residualCounts float covered basis coveragePolicy).outsideInkPixels coveragePolicy).2 := rfl

end RowMeasures

end Verbatus.Ink
