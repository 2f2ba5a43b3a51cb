import Verbatus.Library.Patience
import Verbatus.Library.Sorting
import Verbatus.Library.Worklist
import Verbatus.PageAccounting.Policy

namespace Verbatus.PageAccounting

open Library Library.Checked

/-- The part of the policy the alignment of two texts reads. -/
structure AlignmentPolicy where
  maxUnreadCharacters : ℕ
  minBlockCharacters : ℕ
  anchorCharacters : ℕ
  anchorNeighbours : ℕ
  anchorOffsetTolerance : ℕ
  bandSlack : ℕ
  directAlignmentMaxPairs : ℕ
  maxAlignmentPairs : ℕ
  maxCharacters : ℕ
  positive : ∀ value ∈ [maxUnreadCharacters, minBlockCharacters, anchorCharacters,
    anchorNeighbours, anchorOffsetTolerance, bandSlack, directAlignmentMaxPairs,
    maxAlignmentPairs, maxCharacters], 0 < value

def PageAccountingPolicy.alignment (policy : PageAccountingPolicy) : AlignmentPolicy where
  maxUnreadCharacters := policy.maxUnreadCharacters
  minBlockCharacters := policy.minBlockCharacters
  anchorCharacters := policy.anchorCharacters
  anchorNeighbours := policy.anchorNeighbours
  anchorOffsetTolerance := policy.anchorOffsetTolerance
  bandSlack := policy.bandSlack
  directAlignmentMaxPairs := policy.directAlignmentMaxPairs
  maxAlignmentPairs := policy.maxAlignmentPairs
  maxCharacters := policy.maxCharacters
  positive value listed := by
    refine policy.positive value ?_
    simp only [List.mem_cons, List.not_mem_nil, or_false] at listed ⊢
    tauto

/-- Why a text was not measured. -/
inductive NotMeasured where
  | sizeBound
  | workBound
  deriving DecidableEq, Repr

/-- A part of the first text and a part of the second. -/
structure Ranges where
  alo : ℕ
  ahi : ℕ
  blo : ℕ
  bhi : ℕ
  deriving DecidableEq, Repr

/-- A run that stands in both texts. -/
structure Block where
  i : ℕ
  j : ℕ
  size : ℕ
  deriving DecidableEq, Repr

/-- Work charged to the page's budget; it is not measured where the budget runs out. -/
abbrev Charged (β : Type) := Call ℤ NotMeasured β

section Blocks

variable {α : Type} [DecidableEq α] (find : List α → List α → Ranges → Block)

/-- One character of a diagonal: the run that ends there, and the longest one so far. -/
def scanStep (a b : List α) (diagonal : ℤ) (state : ℕ × Block) (x : ℕ) : ℕ × Block :=
  let y := (x - diagonal).toNat
  if a[x]? = b[y]? then
    let run := state.1 + 1
    (run, if state.2.size < run then ⟨x + 1 - run, y + 1 - run, run⟩ else state.2)
  else (0, state.2)

/-- The longest run of one diagonal, where it is longer than the best before. -/
def scanDiagonal (a b : List α) (box : Ranges) (best : Block) (diagonal : ℤ) : Charged Block := do
  let start : ℤ := max (box.alo : ℤ) (box.blo + diagonal)
  let stop : ℤ := min (box.ahi : ℤ) (box.bhi + diagonal)
  spend .workBound (max 0 (stop - start))
  return ((List.range' start.toNat (stop - start).toNat).foldl (scanStep a b diagonal) (0, best)).2

/-- The longest common run of a box whose diagonal is in the band. -/
def longestInBand (a b : List α) (box : Ranges) (band : ℤ × ℤ) : Charged Block := do
  spend .workBound ((box.ahi - box.alo : ℤ) * (box.bhi - box.blo))
  let found := find a b box
  let offset : ℤ := found.i - found.j
  if found.size = 0 ∨ band.1 ≤ offset ∧ offset ≤ band.2 then
    return found
  let first : ℤ := max band.1 (box.alo - box.bhi + 1)
  let last : ℤ := min band.2 (box.ahi - 1 - box.blo)
  let diagonals := (List.range (last + 1 - first).toNat).map fun step => first + step
  diagonals.foldlM (scanDiagonal a b box) ⟨box.alo, box.blo, 0⟩

variable (policy : AlignmentPolicy)

/-- One range of the direct search: its longest run, and what lies either side of it. -/
def directTurn (a b : List α) (alo blo : ℕ) (box : Ranges) :
    Charged (List Block × List Ranges) := do
  if box.ahi ≤ box.alo ∨ box.bhi ≤ box.blo then
    return ([], [])
  let first : ℤ := box.alo - box.blo
  let last : ℤ := box.ahi - box.bhi
  let slack : ℤ := policy.bandSlack
  let run ← longestInBand find a b box (min first last - slack, max first last + slack)
  if run.size < policy.minBlockCharacters then
    return ([], [])
  return ([⟨alo + run.i, blo + run.j, run.size⟩],
    [⟨box.alo, run.i, box.blo, run.j⟩, ⟨run.i + run.size, box.ahi, run.j + run.size, box.bhi⟩])

def slice (text : List α) (lo hi : ℕ) : List α := (text.take hi).drop lo

/-- Longest common run first, then either side of it. -/
def directBlocks (a b : List α) (box : Ranges) : Charged (List Block) :=
  work .workBound
    (directTurn find policy (slice a box.alo box.ahi) (slice b box.blo box.bhi) box.alo box.blo)
    ⟨0, box.ahi - box.alo, 0, box.bhi - box.blo⟩

/-- The k-grams that occur exactly once in a range, and where. -/
def unique (text : List α) (lo hi k : ℕ) : List (List α × ℕ) :=
  let starts := List.range' lo (hi + 1 - k - lo)
  let gram (i : ℕ) := (text.drop i).take k
  (starts.filter fun i => (starts.map gram).count (gram i) = 1).map fun i => (gram i, i)

/-- Where the two ranges hold the same unique k-gram, in order of the first text. -/
def anchorPairs (a b : List α) (box : Ranges) (k : ℕ) : List (ℕ × ℕ) :=
  let inB := unique b box.blo box.bhi k
  sortBy toLex ((unique a box.alo box.ahi k).filterMap fun entry =>
    (inB.lookup entry.1).map fun j => (entry.2, j))

/-- The next anchor, grown into the last block on one diagonal, or dropped where they overlap;
    the last block comes first. -/
def anchorStep (k : ℕ) (blocks : List Block) (pair : ℕ × ℕ) : List Block :=
  match blocks with
  | [] => [⟨pair.1, pair.2, k⟩]
  | last :: rest =>
    if (pair.1 - pair.2 : ℤ) = last.i - last.j ∧ pair.1 ≤ last.i + last.size then
      ⟨last.i, last.j, max last.size (pair.1 + k - last.i)⟩ :: rest
    else if pair.1 < last.i + last.size ∨ pair.2 < last.j + last.size then last :: rest
    else ⟨pair.1, pair.2, k⟩ :: last :: rest

/-- The blocks of the longest chain of anchors that is ordered on both texts. -/
def anchorBlocks (a b : List α) (box : Ranges) (k : ℕ) : List Block :=
  let pairs := anchorPairs a b box k
  let chain := (risingChain (pairs.map Prod.snd)).filterMap fun index => pairs[index]?
  (chain.foldl (anchorStep k) []).reverse

/-- The anchors whose offset agrees with the median of their neighbours'. -/
def consistentAnchors (blocks : List Block) : List Block :=
  let diagonals : List ℤ := blocks.map fun block => block.i - block.j
  let reach := policy.anchorNeighbours
  (blocks.zipIdx.filter fun entry =>
    let window := sortBy id (slice diagonals (entry.2 - reach) (entry.2 + reach + 1))
    let diagonal : ℤ := entry.1.i - entry.1.j
    |diagonal - window[window.length / 2]?.getD 0| ≤ policy.anchorOffsetTolerance).map Prod.fst

/-- The ranges before, between and after the anchors. -/
def gaps (ahi bhi : ℕ) : ℕ → ℕ → List Block → List Ranges
  | cursorA, cursorB, [] => [⟨cursorA, ahi, cursorB, bhi⟩]
  | cursorA, cursorB, block :: rest =>
    ⟨cursorA, block.i, cursorB, block.j⟩ ::
      gaps ahi bhi (block.i + block.size) (block.j + block.size) rest

/-- One range of the alignment: a small one is matched directly, a large one split at its
    anchors. -/
def matchingTurn (a b : List α) (box : Ranges) : Charged (List Block × List Ranges) := do
  if box.ahi ≤ box.alo ∨ box.bhi ≤ box.blo then
    return ([], [])
  let pairs := (box.ahi - box.alo) * (box.bhi - box.blo)
  if pairs ≤ policy.directAlignmentMaxPairs then
    return (← directBlocks find policy a b box, [])
  spend .workBound ((box.ahi - box.alo + box.bhi - box.blo : ℤ) * policy.anchorCharacters)
  let anchors := consistentAnchors policy (anchorBlocks a b box policy.anchorCharacters)
  if anchors = [] then
    Call.lift (require (pairs ≤ policy.maxAlignmentPairs) .sizeBound)
    return (← directBlocks find policy a b box, [])
  return (anchors, gaps box.ahi box.bhi box.alo box.blo anchors)

def Block.key (block : Block) : ℕ ×ₗ ℕ ×ₗ ℕ := toLex (block.i, toLex (block.j, block.size))

/-- Matching blocks of one text against another, in order. -/
def matchingBlocks (a b : List α) : Charged (List Block) := do
  Call.lift (require (a.length ≤ policy.maxCharacters ∧ b.length ≤ policy.maxCharacters)
    .sizeBound)
  let blocks ← work .workBound (matchingTurn find policy a b) ⟨0, a.length, 0, b.length⟩
  return sortBy Block.key blocks

end Blocks

end Verbatus.PageAccounting
