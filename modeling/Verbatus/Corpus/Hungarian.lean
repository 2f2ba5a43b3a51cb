import Mathlib.Data.Rat.Lemmas
import Verbatus.Library.Mapping

namespace Verbatus.Corpus

open Library

/-- The eligible edges of a page's rows and columns, each with a weight in `(0, 1]`. -/
structure Weights where
  rowCount : ℕ
  colCount : ℕ
  weight : ℕ → ℕ → Option ℚ
  within : ∀ {row col edge}, weight row col = some edge → row < rowCount ∧ col < colCount
  positive : ∀ {row col edge}, weight row col = some edge → 0 < edge
  atMostOne : ∀ {row col edge}, weight row col = some edge → edge ≤ 1

/-- The arrays that are kept from one row to the next. -/
structure Labels where
  u : ℕ → ℚ
  v : ℕ → ℚ
  matchedRow : ℕ → ℕ
  way : ℕ → ℕ

/-- The arrays of one row's search, at the head of its loop. -/
structure Search extends Labels where
  minv : ℕ → ℚ
  used : ℕ → Bool
  j0 : ℕ

/-- What the pass over the columns keeps; no column is `j1` while none lies below the sentinel. -/
structure Sweep where
  minv : ℕ → ℚ
  way : ℕ → ℕ
  delta : ℚ
  j1 : Option ℕ

namespace Weights

variable (weights : Weights)

def size : ℕ := max weights.rowCount weights.colCount

def inf : ℚ := weights.size + 1

def cost (row col : ℕ) : ℚ :=
  if row < weights.rowCount ∧ col < weights.colCount then -(weights.weight row col).getD 0 else 0

/-- `cur`, for a column and the row that the search stands on -/
def reduced (search : Search) (j : ℕ) : ℚ :=
  let i0 := search.matchedRow search.j0
  weights.cost (i0 - 1) (j - 1) - search.u i0 - search.v j

def sweepColumn (search : Search) (sweep : Sweep) (j : ℕ) : Sweep :=
  if search.used j then sweep
  else
    let cur := weights.reduced search j
    let sweep :=
      if cur < sweep.minv j then
        { sweep with
          minv := Function.update sweep.minv j cur
          way := Function.update sweep.way j search.j0 }
      else sweep
    if sweep.minv j < sweep.delta then { sweep with delta := sweep.minv j, j1 := some j } else sweep

/-- `used[j0] = True` -/
def mark (search : Search) : Search :=
  { search with used := Function.update search.used search.j0 true }

def sweep (search : Search) : Sweep :=
  (List.range' 1 weights.size).foldl (weights.sweepColumn search)
    ⟨search.minv, search.way, weights.inf, none⟩

def shiftColumn (delta : ℚ) (search : Search) (j : ℕ) : Search :=
  if search.used j then
    let i := search.matchedRow j
    { search with
      u := Function.update search.u i (search.u i + delta)
      v := Function.update search.v j (search.v j - delta) }
  else { search with minv := Function.update search.minv j (search.minv j - delta) }

/-- One pass of the search: the labels shifted, and the column it goes on to. -/
def advance (search : Search) : Search × Option ℕ :=
  let marked := mark search
  let swept := weights.sweep marked
  let shifted := (List.range (weights.size + 1)).foldl (shiftColumn swept.delta)
    { marked with minv := swept.minv, way := swept.way }
  (shifted, swept.j1)

/-- The search for a free column; nothing where it met the sentinel or has no passes left. -/
def search : ℕ → Search → Option Search
  | 0, _ => none
  | passes + 1, state =>
      match weights.advance state with
      | (_, none) => none
      | (next, some j1) =>
          if next.matchedRow j1 = 0 then some { next with j0 := j1 }
          else search passes { next with j0 := j1 }

/-- The rows handed back along the way to the column before the first. -/
def augment (way : ℕ → ℕ) : ℕ → (ℕ → ℕ) → ℕ → Option (ℕ → ℕ)
  | _, matchedRow, 0 => some matchedRow
  | 0, _, _ + 1 => none
  | steps + 1, matchedRow, j0 + 1 =>
      let j1 := way (j0 + 1)
      augment way steps (Function.update matchedRow (j0 + 1) (matchedRow j1)) j1

def beginRow (labels : Labels) (i : ℕ) : Search where
  u := labels.u
  v := labels.v
  matchedRow := Function.update labels.matchedRow 0 i
  way := labels.way
  minv _ := weights.inf
  used _ := false
  j0 := 0

def matchRow (labels : Labels) (i : ℕ) : Option Labels := do
  let found ← weights.search (weights.size + 1) (weights.beginRow labels i)
  let matchedRow ← augment found.way (weights.size + 1) found.matchedRow found.j0
  return { found.toLabels with matchedRow := matchedRow }

def unlabelled : Labels := ⟨fun _ => 0, fun _ => 0, fun _ => 0, fun _ => 0⟩

/-- The labels once the rows up to a count are matched. -/
def matchRows (count : ℕ) : Option Labels :=
  (List.range' 1 count).foldlM weights.matchRow unlabelled

/-- The match a column reports, where its row holds an edge to it. -/
def realMatch (labels : Labels) (j : ℕ) : Option (ℕ × ℕ) :=
  let i := labels.matchedRow j
  if i = 0 then none
  else (weights.weight (i - 1) (j - 1)).map fun _ => (i - 1, j - 1)

def maxWeightAssignment : Option (List (ℕ × ℕ)) :=
  if weights.size = 0 then some []
  else do
    let labels ← weights.matchRows weights.size
    return dictOf ((List.range' 1 weights.size).filterMap (weights.realMatch labels))

theorem cost_nonpos (row col : ℕ) : weights.cost row col ≤ 0 := by
  unfold cost
  split_ifs with inside
  · cases found : weights.weight row col with
    | none => simp
    | some edge => simpa using (weights.positive found).le
  · exact le_rfl

theorem neg_one_le_cost (row col : ℕ) : -1 ≤ weights.cost row col := by
  unfold cost
  split_ifs with inside
  · cases found : weights.weight row col with
    | none => simp
    | some edge => simpa using weights.atMostOne found
  · simp

theorem cost_of_edge {row col : ℕ} {edge : ℚ} (found : weights.weight row col = some edge) :
    weights.cost row col = -edge := by
  rw [cost, if_pos (weights.within found), found, Option.getD_some]

theorem cost_of_none {row col : ℕ} (missing : weights.weight row col = none) :
    weights.cost row col = 0 := by
  unfold cost
  split_ifs <;> simp [missing]

end Weights

end Verbatus.Corpus
