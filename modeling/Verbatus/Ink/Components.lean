import Mathlib.Data.List.Sort
import Mathlib.Tactic
import Verbatus.Ink.Background
import Verbatus.Library.ByteRow
import Verbatus.Library.Spans

namespace Verbatus.Ink

open Library.Checked Library.Spans Library.ByteRow

/-- The first place at or after the start that holds the byte. -/
def findByte (bits : List UInt8) (byte : UInt8) (start : ℕ) : Option ℕ :=
  ((bits.drop start).findIdx? (· = byte)).map (start + ·)

/-- Each run consumes a pixel, so as many steps as pixels reach the end of the row. -/
def runsFrom (bits : List UInt8) : ℕ → Option ℕ → List (ℕ × ℕ)
  | 0, _ => []
  | _ + 1, none => []
  | fuel + 1, some start =>
    let stop := (findByte bits 0 start).getD bits.length
    (start, stop) :: runsFrom bits fuel (findByte bits 1 stop)

/-- One 0/1 scanline as maximal half-open ink runs. -/
def runsInRow (bits : List UInt8) : List (ℕ × ℕ) := runsFrom bits bits.length (findByte bits 1 0)

section RunsInRow

variable {bits : List UInt8}

theorem findByte_eq_some {byte : UInt8} {start place : ℕ} (found : findByte bits byte start = some place) :
    start ≤ place ∧ bits[place]? = some byte ∧
      ∀ index, start ≤ index → index < place → bits[index]? ≠ some byte := by
  obtain ⟨offset, first, rfl⟩ := Option.map_eq_some_iff.mp found
  obtain ⟨inside, holds, before⟩ := List.findIdx?_eq_some_iff_getElem.mp first
  refine ⟨Nat.le_add_right _ _, ?_, ?_⟩
  · rw [← List.getElem?_drop, List.getElem?_eq_getElem inside]
    simpa using holds
  · intro index above below same
    have earlier := before (index - start) (by omega)
    rw [show index = start + (index - start) by omega, ← List.getElem?_drop,
      List.getElem?_eq_some_iff] at same
    obtain ⟨_, same⟩ := same
    exact earlier (by simpa using same)

theorem findByte_eq_none {byte : UInt8} {start : ℕ} (absent : findByte bits byte start = none) :
    ∀ index, start ≤ index → bits[index]? ≠ some byte := by
  intro index above same
  rw [findByte, Option.map_eq_none_iff, List.findIdx?_eq_none_iff] at absent
  rw [show index = start + (index - start) by omega, ← List.getElem?_drop] at same
  have := absent byte (List.mem_of_getElem? same)
  simp at this

/-- The spans of a row's runs, as intervals of integers. -/
def runSpans (runs : List (ℕ × ℕ)) : List Span := runs.map fun run => ((run.1 : ℤ), (run.2 : ℤ))

/-- A run found from a place holds exactly the ones from there to its end. -/
structure RunsFrom (bits : List UInt8) (start : ℕ) (runs : List (ℕ × ℕ)) : Prop where
  nonempty : ∀ run ∈ runs, run.1 < run.2
  within : ∀ run ∈ runs, start ≤ run.1 ∧ run.2 ≤ bits.length
  apart : runs.Pairwise fun first second => first.2 ≤ second.1
  covers : ∀ place : ℤ, Covers (runSpans runs) place ↔ start ≤ place ∧ OneAt bits place

theorem runsFrom_spec (binary : Binary bits) {fuel start : ℕ} (enough : bits.length ≤ start + fuel) :
    RunsFrom bits start (runsFrom bits fuel (findByte bits 1 start)) := by
  induction fuel generalizing start with
  | zero =>
      refine ⟨by simp [runsFrom], by simp [runsFrom], by simp [runsFrom], fun place => ?_⟩
      simp only [runsFrom, runSpans, List.map_nil, covers_nil, false_iff, not_and]
      intro above one
      have := one.lt_length
      omega
  | succ fuel ih =>
      cases found : findByte bits 1 start with
      | none =>
          have absent := findByte_eq_none found
          refine ⟨by simp [runsFrom], by simp [runsFrom], by simp [runsFrom], fun place => ?_⟩
          simp only [runsFrom, runSpans, List.map_nil, covers_nil, false_iff, not_and]
          intro above one
          exact absent place.toNat (by omega) one.2
      | some first =>
          obtain ⟨after, one, before⟩ := findByte_eq_some found
          have inside : first < bits.length := (List.getElem?_eq_some_iff.mp one).1
          -- the run ends at the next zero, or with the row
          obtain ⟨stop, stopEq, past, short, ones⟩ : ∃ stop, (findByte bits 0 first).getD bits.length = stop ∧
              first < stop ∧ stop ≤ bits.length ∧
                ∀ index, first ≤ index → index < stop → bits[index]? = some 1 := by
            have oneUnless {index : ℕ} (short : index < bits.length) (nonzero : bits[index]? ≠ some 0) :
                bits[index]? = some 1 := by
              rw [List.getElem?_eq_getElem short] at nonzero ⊢
              rcases binary _ (List.getElem_mem short) with zero | one
              · exact absurd (congrArg some zero) nonzero
              · exact congrArg some one
            cases next : findByte bits 0 first with
            | none =>
                have absent := findByte_eq_none next
                exact ⟨_, rfl, inside, le_rfl, fun index above below => oneUnless below (absent index above)⟩
            | some stop =>
                obtain ⟨later, zero, nonzero⟩ := findByte_eq_some next
                have short : stop < bits.length := (List.getElem?_eq_some_iff.mp zero).1
                refine ⟨_, rfl, ?_, short.le, fun index above below =>
                  oneUnless (below.trans short) (nonzero index above below)⟩
                rcases Nat.lt_or_eq_of_le later with earlier | same
                · exact earlier
                · rw [← same, one] at zero
                  simp at zero
          obtain ⟨nonempty, within, apart, covers⟩ := @ih stop (by omega)
          rw [runsFrom, stopEq]
          refine ⟨?_, ?_, ?_, fun place => ?_⟩
          · intro run member
            rcases List.mem_cons.mp member with rfl | member
            · exact past
            · exact nonempty run member
          · intro run member
            rcases List.mem_cons.mp member with rfl | member
            · exact ⟨after, short⟩
            · have := within run member
              omega
          · exact List.pairwise_cons.mpr ⟨fun run member => (within run member).1, apart⟩
          · rw [runSpans, List.map_cons, covers_cons, ← runSpans, covers]
            dsimp only
            constructor
            · rintro (⟨above, below⟩ | ⟨above, held⟩)
              · have := ones place.toNat (by omega) (by omega)
                exact ⟨by omega, by omega, this⟩
              · exact ⟨by omega, held⟩
            · rintro ⟨above, held⟩
              by_cases reached : (stop : ℤ) ≤ place
              · exact .inr ⟨reached, held⟩
              · refine .inl ⟨?_, by omega⟩
                by_contra early
                exact before place.toNat (by omega) (by omega) held.2

theorem runsInRow_spec (binary : Binary bits) : RunsFrom bits 0 (runsInRow bits) :=
  runsFrom_spec binary (by omega)

theorem RunsFrom.ordered {start : ℕ} {runs : List (ℕ × ℕ)} (spec : RunsFrom bits start runs) :
    Ordered (runSpans runs) := by
  constructor
  · intro span member
    obtain ⟨run, inside, rfl⟩ := List.mem_map.mp member
    have := spec.nonempty run inside
    dsimp only
    omega
  · rw [runSpans, List.pairwise_map]
    apply spec.apart.imp
    intro first second apart
    dsimp only
    omega

end RunsInRow
structure Component where
  bounds : Bounds
  pixelCount : ℤ
  deriving DecidableEq

/-- One horizontal run, half-open at `x1`. -/
structure Run where
  y : ℤ
  x0 : ℤ
  x1 : ℤ
  deriving DecidableEq, Inhabited

/-- Following a parent halves its path, so the steps are at most the runs. -/
def findRoot : ℕ → List ℕ → ℕ → ℕ × List ℕ
  | 0, parent, index => (index, parent)
  | fuel + 1, parent, index =>
    let above := parent.getD index index
    if above = index then (index, parent) else
    let grandparent := parent.getD above above
    findRoot fuel (parent.set index grandparent) grandparent

def find (parent : List ℕ) (index : ℕ) : ℕ × List ℕ := findRoot parent.length parent index

def union (parent : List ℕ) (left right : ℕ) : List ℕ :=
  let (leftRoot, parent) := find parent left
  let (rightRoot, parent) := find parent right
  if leftRoot ≠ rightRoot then parent.set rightRoot leftRoot else parent

/-- The flat run table's indices of each scanline, in ascending order of the scanlines. -/
def indicesByRow : ℕ → List (ℤ × List (ℤ × ℤ)) → List (ℤ × List ℕ)
  | _, [] => []
  | next, (y, runs) :: rows =>
    (y, List.range' next runs.length) :: indicesByRow (next + runs.length) rows

section Sweep

variable (table : List Run) (gapTolerancePx : ℤ)

/-- Neighbouring runs of one scanline join across at most the tolerated gap. -/
def joinScanline (parent : List ℕ) (current : List ℕ) : List ℕ :=
  (current.zip current.tail).foldl (fun parent (left, right) =>
    if (table.getD right default).x0 - (table.getD left default).x1 ≤ gapTolerancePx then
      union parent left right
    else parent) parent

/-- The runs of an earlier scanline that one run reaches, after those it has passed. -/
def joinEarlier (radius : ℤ) (state : List ℕ × List ℕ) (left : ℕ) : List ℕ × List ℕ :=
  let (parent, previous) := state
  let run := table.getD left default
  let ahead := previous.dropWhile fun right => (table.getD right default).x1 + radius ≤ run.x0
  let reached := ahead.takeWhile fun right => ¬ (table.getD right default).x0 ≥ run.x1 + radius
  (reached.foldl (fun parent right => union parent left right) parent, ahead)

def sweepRow (rows : List (ℤ × List ℕ)) (parent : List ℕ) (row : ℤ × List ℕ) : List ℕ :=
  let (y, current) := row
  let radius := gapTolerancePx + 1
  let parent := joinScanline table gapTolerancePx parent current
  (List.range radius.toNat).foldl (fun parent offset =>
    let previous := ((rows.find? fun other => other.1 = y - radius + offset).map Prod.snd).getD []
    (current.foldl (joinEarlier table radius) (parent, previous)).1) parent

end Sweep

/-- One index joins its root's group, which keeps the place of its first member. -/
def addToGroup (root index : ℕ) : List (ℕ × List ℕ) → List (ℕ × List ℕ)
  | [] => [(root, [index])]
  | (key, members) :: groups =>
    if key = root then (key, members ++ [index]) :: groups
    else (key, members) :: addToGroup root index groups

def groupsOf (parent : List ℕ) (count : ℕ) : List (ℕ × List ℕ) :=
  ((List.range count).foldl (fun (groups, parent) index =>
    let (root, parent) := find parent index
    (addToGroup root index groups, parent)) ([], parent)).1

/-- The least and greatest of a group's values; a group has a first member. -/
def leastOf (first : ℤ) (rest : List ℤ) : ℤ := rest.foldl min first

def greatestOf (first : ℤ) (rest : List ℤ) : ℤ := rest.foldl max first

/-- A group's component, its bottom read from the last run since indices ascend with `y`. -/
def componentOf (first : Run) (rest : List Run) : Component :=
  let x0 := leastOf first.x0 (rest.map Run.x0)
  let x1 := greatestOf first.x1 (rest.map Run.x1)
  let y0 := first.y
  let y1 := (rest.getLast?.getD first).y + 1
  { bounds := ⟨x0, y0, x1 - x0, y1 - y0⟩
    pixelCount := ((first :: rest).map fun run => run.x1 - run.x0).sum }

/-- The order of two labelled components: by top, left, then the smallest first pixel. -/
def labelOrder (entry : Component × List Run) : ℤ ×ₗ ℤ ×ₗ ℤ ×ₗ ℤ :=
  let starts := entry.2.map fun run => (toLex (run.x0, run.y) : ℤ ×ₗ ℤ)
  let least := starts.tail.foldl min (starts.headD (toLex (0, 0)))
  toLex (entry.1.bounds.y, toLex (entry.1.bounds.x, toLex ((ofLex least).1, (ofLex least).2)))

/-- Connected components of the runs, each with its own runs. -/
def labelComponentRuns (runsByRow : List (ℤ × List (ℤ × ℤ))) (gapTolerancePx : ℤ) :
    Except Refusal (List (Component × List Run)) := do
  require (0 ≤ gapTolerancePx) (.contractError s!"gap tolerance {gapTolerancePx} is negative")
  let sorted := runsByRow.insertionSort fun first second => first.1 ≤ second.1
  let table := sorted.flatMap fun (y, runs) => runs.map fun (x0, x1) => Run.mk y x0 x1
  let rows := indicesByRow 0 sorted
  let parent := rows.foldl (sweepRow table gapTolerancePx rows) (List.range table.length)
  let entries := (groupsOf parent table.length).filterMap fun (_, members) =>
    match members.map fun index => table.getD index default with
    | [] => none
    | first :: rest => some (componentOf first rest, first :: rest)
  return entries.insertionSort fun first second => labelOrder first ≤ labelOrder second

end Verbatus.Ink
