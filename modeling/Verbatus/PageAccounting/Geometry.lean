import Verbatus.Ink.Background
import Verbatus.Library.Sorting
import Verbatus.PageAccounting.Policy

namespace Verbatus.PageAccounting

open Library Ink

/-- A box's half-open corners. -/
structure Corners where
  x0 : ℤ
  y0 : ℤ
  x1 : ℤ
  y1 : ℤ
  deriving DecidableEq

def corners (box : Bounds) : Corners := ⟨box.x, box.y, box.x + box.w, box.y + box.h⟩

def fromCorners (x0 y0 x1 y1 : ℤ) : Bounds := ⟨x0, y0, x1 - x0, y1 - y0⟩

def area (box : Bounds) : ℤ := box.w * box.h

/-- The corners of what two boxes share; empty when they do not meet. -/
def overlap (first second : Corners) : Corners :=
  ⟨max first.x0 second.x0, max first.y0 second.y0, min first.x1 second.x1, min first.y1 second.y1⟩

def Corners.meets (corners : Corners) : Bool := corners.x0 < corners.x1 && corners.y0 < corners.y1

/-- The length the spans cover, each merged into the current one or starting the next. -/
def mergedLength : List (ℤ × ℤ) → Option (ℤ × ℤ) → ℤ
  | [], none => 0
  | [], some (top, bottom) => bottom - top
  | (y0, y1) :: spans, none => mergedLength spans (some (y0, y1))
  | (y0, y1) :: spans, some (top, bottom) =>
    if y0 > bottom then bottom - top + mergedLength spans (some (y0, y1))
    else mergedLength spans (some (top, max bottom y1))

/-- The boxes that reach across a strip, as sorted spans of it. -/
def stripSpans (clipped : List Corners) (x0 x1 : ℤ) : List (ℤ × ℤ) :=
  sortBy toLex ((clipped.filter fun box => box.x0 ≤ x0 ∧ x1 ≤ box.x1).map fun box => (box.y0, box.y1))

/-- The area of a box that the union of the regions covers, strip by strip. -/
def areaInside (box : Bounds) (regions : List Bounds) : ℤ :=
  let clipped := (regions.map fun region => overlap (corners box) (corners region)).filter
    Corners.meets
  let xs := sortedSet (clipped.map Corners.x0 ++ clipped.map Corners.x1)
  ((xs.zip xs.tail).map fun strip =>
    mergedLength (stripSpans clipped strip.1 strip.2) none * (strip.2 - strip.1)).sum

/-- Whether the sealed share of a box's area lies inside the union of the regions. -/
def isInside (box : Bounds) (regions : List Bounds) (policy : PageAccountingPolicy) : Bool :=
  areaInside box regions * basisPoints ≥ policy.insideMinAreaBp * area box

/-- The least box around all of the boxes. -/
def unionBox (boxes : List Bounds) : Option Bounds := do
  let x0 ← ((boxes.map corners).map Corners.x0).min?
  let y0 ← ((boxes.map corners).map Corners.y0).min?
  let x1 ← ((boxes.map corners).map Corners.x1).max?
  let y1 ← ((boxes.map corners).map Corners.y1).max?
  return fromCorners x0 y0 x1 y1

/-- The area of the union of the boxes, each pixel once. -/
def regionArea (boxes : List Bounds) : ℤ :=
  match unionBox boxes with
  | none => 0
  | some bounding => areaInside bounding boxes

/-- The area both regions claim: the union of their boxes' pairwise overlaps. -/
def sharedArea (region other : List Bounds) : ℤ :=
  let overlaps := region.flatMap fun first =>
    (other.map fun second => overlap (corners first) (corners second)).filter Corners.meets
  regionArea (overlaps.map fun box => fromCorners box.x0 box.y0 box.x1 box.y1)

section Permuted

variable {regions others : List Bounds}

theorem areaInside_perm (box : Bounds) (same : regions.Perm others) :
    areaInside box regions = areaInside box others := by
  unfold areaInside
  have clipped := (same.map fun region => overlap (corners box) (corners region)).filter
    Corners.meets
  have both := (clipped.map Corners.x0).append (clipped.map Corners.x1)
  have xs := sortedSet_congr fun place => both.mem_iff (a := place)
  have spans (x0 x1 : ℤ) :=
    sortBy_congr ((clipped.filter fun box => decide (box.x0 ≤ x0 ∧ x1 ≤ box.x1)).map
      fun box => (box.y0, box.y1)) toLex.injective
  dsimp only
  rw [xs]
  congr 2
  funext strip
  rw [stripSpans, spans, stripSpans]

theorem isInside_perm (box : Bounds) (policy : PageAccountingPolicy) (same : regions.Perm others) :
    isInside box regions policy = isInside box others policy := by
  rw [isInside, isInside, areaInside_perm box same]

theorem min?_perm {first second : List ℤ} (same : first.Perm second) : first.min? = second.min? := by
  ext least
  rw [List.min?_eq_some_iff, List.min?_eq_some_iff]
  simp only [same.mem_iff]

theorem max?_perm {first second : List ℤ} (same : first.Perm second) : first.max? = second.max? := by
  ext greatest
  rw [List.max?_eq_some_iff, List.max?_eq_some_iff]
  simp only [same.mem_iff]

theorem unionBox_perm (same : regions.Perm others) : unionBox regions = unionBox others := by
  have corner (side : Corners → ℤ) := (same.map corners).map side
  rw [unionBox, unionBox, min?_perm (corner _), min?_perm (corner _), max?_perm (corner _),
    max?_perm (corner _)]

theorem regionArea_perm (same : regions.Perm others) : regionArea regions = regionArea others := by
  rw [regionArea, regionArea, unionBox_perm same]
  cases unionBox others with
  | none => rfl
  | some bounding => exact areaInside_perm bounding same

theorem sharedArea_perm {regions' others' : List Bounds} (first : regions.Perm regions')
    (second : others.Perm others') : sharedArea regions others = sharedArea regions' others' := by
  apply regionArea_perm
  apply List.Perm.map
  refine (first.flatMap_right _).trans (List.Perm.flatMap_left _ fun box _ => ?_)
  exact (second.map _).filter _

end Permuted

end Verbatus.PageAccounting
