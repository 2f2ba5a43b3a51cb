import Verbatus.PageAccounting.AlignmentSound

namespace Verbatus.PageAccounting

open Library Library.Checked

/-- How much of one witness text a reading accounts for, and what lies opposite each offset. -/
structure TextCoverage where
  witnessCharacters : ℕ
  matchedCharacters : ℕ
  unreadRun : ℕ
  unreadCharacters : ℕ
  position : List ℕ
  deriving DecidableEq, Repr

/-- The counts so far, and how far the two texts are read. -/
structure Covering where
  longest : ℕ
  total : ℕ
  matched : ℕ
  position : List ℕ
  cursorA : ℕ
  cursorB : ℕ

def Covering.start (witness : ℕ) : Covering :=
  { longest := 0, total := 0, matched := 0, position := List.replicate (witness + 1) 0,
    cursorA := 0, cursorB := 0 }

/-- Consecutive entries set. -/
def fill (position : List ℕ) (base count : ℕ) (value : ℕ → ℕ) : List ℕ :=
  (List.range count).foldl (fun position offset => position.set (base + offset) (value offset))
    position

section Coverage

variable {α : Type} [DecidableEq α] (find : List α → List α → Ranges → Block)
  (policy : AlignmentPolicy) (unreadable : α)

/-- The gap before a block, what the reading opposite it accounts for, and the block itself. -/
def coverStep (reading : List α) (state : Covering) (block : Block) : Covering :=
  let threshold := policy.maxUnreadCharacters
  let gapW := block.i - state.cursorA
  let gapR := block.j - state.cursorB
  let opposite := slice reading state.cursorB block.j
  let marks := opposite.count unreadable
  let credit := if marks ≠ 0 then marks * threshold else min opposite.length threshold
  let unread := gapW - credit
  { longest := max state.longest unread
    total := state.total + unread
    matched := state.matched + block.size
    position := fill
      (fill state.position state.cursorA gapW fun offset => state.cursorB + offset * gapR / gapW)
      block.i block.size fun offset => block.j + offset
    cursorA := block.i + block.size
    cursorB := block.j + block.size }

/-- A witness text aligned with a reading, and what of it is unread. -/
def textCoverage (witness reading : List α) : Charged TextCoverage := do
  let blocks ← matchingBlocks find policy witness reading
  let ending : Block := ⟨witness.length, reading.length, 0⟩
  let covered := (blocks ++ [ending]).foldl (coverStep policy unreadable reading)
    (.start witness.length)
  return {
    witnessCharacters := witness.length
    matchedCharacters := covered.matched
    unreadRun := covered.longest
    unreadCharacters := covered.total
    position := covered.position.set witness.length reading.length }

end Coverage

section Fill

theorem length_fill (position : List ℕ) (base count : ℕ) (value : ℕ → ℕ) :
    (fill position base count value).length = position.length := by
  induction count with
  | zero => rfl
  | succ count ih =>
      rw [fill, List.range_succ, List.foldl_append]
      change ((fill position base count value).set _ _).length = _
      rw [List.length_set, ih]

theorem getElem?_fill {position : List ℕ} {base count : ℕ} (inside : base + count ≤ position.length)
    (value : ℕ → ℕ) (place : ℕ) : (fill position base count value)[place]? =
      if base ≤ place ∧ place < base + count then some (value (place - base))
      else position[place]? := by
  induction count with
  | zero =>
      rw [if_neg (by omega)]
      rfl
  | succ count ih =>
      rw [fill, List.range_succ, List.foldl_append]
      change ((fill position base count value).set (base + count) (value count))[place]? = _
      rw [List.getElem?_set, ih (by omega), length_fill]
      split_ifs
      all_goals first | rfl | omega | skip
      · rename_i here _ _
        rw [← here, Nat.add_sub_cancel_left]

end Fill

section Counted

/-- What a turn of the counting keeps, for texts of the given lengths. -/
structure Covered (witness reading : ℕ) (state : Covering) : Prop where
  length : state.position.length = witness + 1
  inA : state.cursorA ≤ witness
  inB : state.cursorB ≤ reading
  counted : state.matched + state.total ≤ state.cursorA
  longest : state.longest ≤ state.total
  rising : ∀ {first second low high : ℕ}, first ≤ second → second < state.cursorA →
    state.position[first]? = some low → state.position[second]? = some high → low ≤ high
  below : ∀ {place value : ℕ}, place < state.cursorA → state.position[place]? = some value →
    value ≤ state.cursorB

variable {α : Type} [DecidableEq α] {policy : AlignmentPolicy} {unreadable : α}
  {reading : List α} {witness : ℕ} {state : Covering} {block : Block}

theorem start_covered (witness reading : ℕ) : Covered witness reading (.start witness) :=
  ⟨List.length_replicate, Nat.zero_le _, Nat.zero_le _, le_rfl, le_rfl, nofun, nofun⟩

/-- What an entry before the end of a block is: as it was, opposite the gap, or in the block. -/
theorem coverStep_position (covered : Covered witness reading.length state)
    (fromA : state.cursorA ≤ block.i) (toA : block.i + block.size ≤ witness) {place value : ℕ}
    (here : (coverStep policy unreadable reading state block).position[place]? = some value) :
    place < state.cursorA ∧ state.position[place]? = some value ∨
      state.cursorA ≤ place ∧ place < block.i ∧ value = state.cursorB +
        (place - state.cursorA) * (block.j - state.cursorB) / (block.i - state.cursorA) ∨
      block.i ≤ place ∧ place < block.i + block.size ∧ value = block.j + (place - block.i) ∨
      block.i + block.size ≤ place := by
  rw [coverStep] at here
  dsimp only at here
  have long := covered.length
  rw [getElem?_fill (by rw [length_fill]; omega), getElem?_fill (by omega)] at here
  split_ifs at here with inBlock inGap
  · exact .inr (.inr (.inl ⟨inBlock.1, inBlock.2, (Option.some.inj here).symm⟩))
  · exact .inr (.inl ⟨inGap.1, by omega, (Option.some.inj here).symm⟩)
  · rcases lt_or_ge place state.cursorA with before | after
    · exact .inl ⟨before, here⟩
    · exact .inr (.inr (.inr (by omega)))

theorem coverStep_covered (covered : Covered witness reading.length state)
    (fromA : state.cursorA ≤ block.i) (fromB : state.cursorB ≤ block.j)
    (toA : block.i + block.size ≤ witness) (toB : block.j + block.size ≤ reading.length) :
    Covered witness reading.length (coverStep policy unreadable reading state block) := by
  have placed := @coverStep_position α _ policy unreadable reading witness state block covered fromA
    toA
  have share (offset : ℕ) (inGap : offset < block.i - state.cursorA) :
      offset * (block.j - state.cursorB) / (block.i - state.cursorA) ≤ block.j - state.cursorB := by
    apply Nat.div_le_of_le_mul
    exact Nat.mul_le_mul_right _ inGap.le
  have shares (offset other : ℕ) (before : offset ≤ other) :
      offset * (block.j - state.cursorB) / (block.i - state.cursorA) ≤
        other * (block.j - state.cursorB) / (block.i - state.cursorA) :=
    Nat.div_le_div_right (Nat.mul_le_mul_right _ before)
  have counted := covered.counted
  have longest := covered.longest
  refine ⟨?_, toA, toB, ?_, ?_, ?_, ?_⟩
  · rw [coverStep]
    dsimp only
    rw [length_fill, length_fill, covered.length]
  · dsimp only [coverStep]
    omega
  · dsimp only [coverStep]
    omega
  · intro first second low high order within atFirst atSecond
    change second < block.i + block.size at within
    rcases placed atFirst with ⟨old, was⟩ | ⟨from1, to1, rfl⟩ | ⟨from1, to1, rfl⟩ | beyond
    · have least := covered.below old was
      rcases placed atSecond with ⟨old', was'⟩ | ⟨from2, to2, rfl⟩ | ⟨from2, to2, rfl⟩ | beyond
      · exact covered.rising order old' was was'
      · exact least.trans (Nat.le_add_right _ _)
      all_goals omega
    · have most := share (first - state.cursorA) (by omega)
      rcases placed atSecond with ⟨old', was'⟩ | ⟨from2, to2, rfl⟩ | ⟨from2, to2, rfl⟩ | beyond
      · omega
      · have more := shares (first - state.cursorA) (second - state.cursorA) (by omega)
        omega
      all_goals omega
    · rcases placed atSecond with ⟨old', was'⟩ | ⟨from2, to2, rfl⟩ | ⟨from2, to2, rfl⟩ | beyond
      all_goals omega
    · omega
  · intro place value within here
    change place < block.i + block.size at within
    change value ≤ block.j + block.size
    rcases placed here with ⟨old, was⟩ | ⟨from1, to1, rfl⟩ | ⟨from1, to1, rfl⟩ | beyond
    · have least := covered.below old was
      omega
    · have most := share (place - state.cursorA) (by omega)
      omega
    all_goals omega

theorem foldl_covered {blocks : List Block} (covered : Covered witness reading.length state)
    (order : blocks.Pairwise fun first second => first.ranges.Before second.ranges)
    (after : ∀ block ∈ blocks, state.cursorA ≤ block.i ∧ state.cursorB ≤ block.j)
    (inside : ∀ block ∈ blocks, block.i + block.size ≤ witness ∧
      block.j + block.size ≤ reading.length) :
    Covered witness reading.length (blocks.foldl (coverStep policy unreadable reading) state) := by
  induction blocks generalizing state with
  | nil => exact covered
  | cons block blocks ih =>
      obtain ⟨before, sorted⟩ := List.pairwise_cons.mp order
      obtain ⟨fromA, fromB⟩ := after block (.head _)
      obtain ⟨toA, toB⟩ := inside block (.head _)
      exact ih (coverStep_covered covered fromA fromB toA toB) sorted before
        fun other listed => inside other (.tail _ listed)

end Counted

section Sound

variable {α : Type} [DecidableEq α] {find : List α → List α → Ranges → Block}
  {policy : AlignmentPolicy} {unreadable : α}

/-- The counts of a coverage are consistent, and its positions rise through the reading. -/
structure TextCoverage.Consistent (coverage : TextCoverage) (witness reading : List α) : Prop where
  counted : coverage.matchedCharacters + coverage.unreadCharacters ≤ witness.length
  run : coverage.unreadRun ≤ coverage.unreadCharacters
  length : coverage.position.length = witness.length + 1
  nondecreasing : coverage.position.Pairwise (· ≤ ·)
  within : ∀ offset ∈ coverage.position, offset ≤ reading.length
  ends : coverage.position.getLast? = some reading.length

theorem textCoverage_consistent (finds : FindsCommonRuns find) {witness reading : List α}
    {coverage : TextCoverage} {before after : ℤ}
    (returned : (textCoverage find policy unreadable witness reading).on before =
      (.ok coverage, after)) : coverage.Consistent witness reading := by
  rw [textCoverage, Call.bind_on_ok] at returned
  obtain ⟨blocks, between, aligned, returned⟩ := returned
  obtain ⟨order, sound⟩ := matchingBlocks_ordered finds aligned
  set ending : Block := ⟨witness.length, reading.length, 0⟩ with endingIs
  have covered : Covered witness.length reading.length ((blocks ++ [ending]).foldl
      (coverStep policy unreadable reading) (.start witness.length)) := by
    refine foldl_covered (start_covered _ _) ?_ (fun _ _ => ⟨Nat.zero_le _, Nat.zero_le _⟩) ?_
    · refine List.pairwise_append.mpr ⟨order, List.pairwise_singleton _ _, ?_⟩
      intro block listed last same
      rw [List.mem_singleton.mp same]
      exact ⟨(sound block listed).1.ahi, (sound block listed).1.bhi⟩
    · intro block listed
      rcases List.mem_append.mp listed with found | last
      · exact ⟨(sound block found).1.ahi, (sound block found).1.bhi⟩
      · rw [List.mem_singleton.mp last]
        exact ⟨le_rfl, le_rfl⟩
  have ended : ((blocks ++ [ending]).foldl (coverStep policy unreadable reading)
      (.start witness.length)).cursorA = witness.length := by
    rw [List.foldl_append]
    rfl
  cases returned
  generalize (blocks ++ [ending]).foldl (coverStep policy unreadable reading)
    (.start witness.length) = last at covered ended
  obtain ⟨length, inA, inB, counted, longest, rising, below⟩ := covered
  rw [ended] at counted rising below
  -- an entry of the final listing is the end of the reading or an entry the blocks set
  have entry {place value : ℕ}
      (here : (last.position.set witness.length reading.length)[place]? = some value) :
      place = witness.length ∧ value = reading.length ∨
        place < witness.length ∧ last.position[place]? = some value := by
    obtain ⟨bound, _⟩ := List.getElem?_eq_some_iff.mp here
    rw [List.length_set, length] at bound
    rw [List.getElem?_set] at here
    split_ifs at here with same
    · exact .inl ⟨same.symm, (Option.some.inj here).symm⟩
    · exact .inr ⟨by omega, here⟩
  have small {place value : ℕ}
      (here : (last.position.set witness.length reading.length)[place]? = some value) :
      value ≤ reading.length := by
    rcases entry here with ⟨_, rfl⟩ | ⟨inside, set⟩
    · exact le_rfl
    · exact (below inside set).trans inB
  refine ⟨counted, longest, by rw [List.length_set, length], ?_, ?_, ?_⟩
  · rw [List.pairwise_iff_getElem]
    intro first second inFirst inSecond order
    have atFirst := List.getElem?_eq_getElem inFirst
    have atSecond := List.getElem?_eq_getElem inSecond
    rcases entry atSecond with ⟨_, same⟩ | ⟨inside, set⟩
    · rw [same]
      exact small atFirst
    · rcases entry atFirst with ⟨same, _⟩ | ⟨_, set'⟩
      · omega
      · exact rising order.le inside set' set
  · intro offset listed
    obtain ⟨place, here⟩ := List.getElem?_of_mem listed
    exact small here
  · rw [List.getLast?_eq_getElem?, List.length_set, length, Nat.add_sub_cancel,
      List.getElem?_set_self (by omega)]

/-- For any search that finds common runs, every alignment that returns is a list of common runs
    in strictly rising order on both texts, and every coverage that returns counts no character
    twice and maps the witness text in order into the reading. -/
theorem alignment_consistent (finds : FindsCommonRuns find) (policy : AlignmentPolicy)
    (unreadable : α) (a b : List α) (budget : ℤ) :
    (∀ blocks left, (matchingBlocks find policy a b).on budget = (.ok blocks, left) →
      (∀ block ∈ blocks, 0 < block.size ∧ block.i + block.size ≤ a.length ∧
        block.j + block.size ≤ b.length ∧
        slice a block.i (block.i + block.size) = slice b block.j (block.j + block.size)) ∧
      blocks.Pairwise fun first second =>
        first.i + first.size ≤ second.i ∧ first.j + first.size ≤ second.j) ∧
    ∀ coverage left, (textCoverage find policy unreadable a b).on budget = (.ok coverage, left) →
      coverage.matchedCharacters + coverage.unreadCharacters ≤ a.length ∧
      coverage.unreadRun ≤ coverage.unreadCharacters ∧
      coverage.position.length = a.length + 1 ∧
      coverage.position.Pairwise (· ≤ ·) ∧
      (∀ offset ∈ coverage.position, offset ≤ b.length) ∧
      coverage.position.getLast? = some b.length := by
  constructor
  · intro blocks left returned
    obtain ⟨order, sound⟩ := matchingBlocks_ordered finds returned
    refine ⟨fun block listed => ?_, order⟩
    obtain ⟨inside, long, common⟩ := sound block listed
    exact ⟨long, inside.ahi, inside.bhi, slice_of_common common⟩
  · intro coverage left returned
    obtain ⟨counted, run, length, nondecreasing, within, ends⟩ :=
      textCoverage_consistent finds returned
    exact ⟨counted, run, length, nondecreasing, within, ends⟩

end Sound

section Longest

variable {α : Type} [DecidableEq α]

/-- How far two texts begin alike. -/
def commonLength : List α → List α → ℕ
  | x :: xs, y :: ys => if x = y then commonLength xs ys + 1 else 0
  | _, _ => 0

/-- The longest common run of a box, the first of them in either text. -/
def findLongestMatch (a b : List α) (box : Ranges) : Block :=
  let starts := (List.range' box.alo (box.ahi - box.alo)).flatMap fun i =>
    (List.range' box.blo (box.bhi - box.blo)).map fun j => (i, j)
  starts.foldl (fun best start =>
    let size := commonLength (slice a start.1 box.ahi) (slice b start.2 box.bhi)
    if best.size < size then ⟨start.1, start.2, size⟩ else best) ⟨box.alo, box.blo, 0⟩

theorem getElem?_of_lt_commonLength {first second : List α} {offset : ℕ}
    (inside : offset < commonLength first second) :
    ∃ character, first[offset]? = some character ∧ second[offset]? = some character := by
  induction first, second using commonLength.induct generalizing offset with
  | case1 xs y ys ih =>
      cases offset with
      | zero => exact ⟨y, rfl, rfl⟩
      | succ offset =>
          rw [commonLength, if_pos rfl] at inside
          exact ih (Nat.lt_of_succ_lt_succ inside)
  | case2 x xs y ys differ =>
      rw [commonLength, if_neg differ] at inside
      exact absurd inside (Nat.not_lt_zero _)
  | case3 first second short =>
      rw [commonLength] at inside
      · exact absurd inside (Nat.not_lt_zero _)
      · exact short

/-- Where two slices begin alike, the texts have a common run. -/
theorem runOf_commonLength {a b : List α} {box : Ranges} {i j : ℕ} (fromA : box.alo ≤ i)
    (fromB : box.blo ≤ j) (long : 0 < commonLength (slice a i box.ahi) (slice b j box.bhi)) :
    RunOf a b box ⟨i, j, commonLength (slice a i box.ahi) (slice b j box.bhi)⟩ := by
  set size := commonLength (slice a i box.ahi) (slice b j box.bhi) with sizeIs
  have alike {offset : ℕ} (inside : offset < size) : i + offset < box.ahi ∧ j + offset < box.bhi ∧
      ∃ character, a[i + offset]? = some character ∧ b[j + offset]? = some character := by
    obtain ⟨character, inA, inB⟩ := getElem?_of_lt_commonLength inside
    rw [getElem?_slice] at inA inB
    split_ifs at inA inB with toA toB
    exact ⟨toA, toB, character, inA, inB⟩
  obtain ⟨toA, toB, -⟩ := alike (Nat.sub_lt long one_pos)
  refine ⟨⟨fromA, ?_, fromB, ?_⟩, fun offset inside => (alike inside).2.2⟩
  all_goals
    dsimp only [Block.ranges]
    omega

theorem findLongestMatch_finds : FindsCommonRuns (findLongestMatch : List α → _) := by
  intro a b box fromA inA fromB inB
  have found : RunOf a b box (findLongestMatch a b box) := by
    rw [findLongestMatch]
    refine List.foldlRecOn (motive := RunOf a b box) _ _
      ⟨⟨le_rfl, fromA, le_rfl, fromB⟩, .empty _ _⟩ ?_
    intro best run start listed
    dsimp only
    split_ifs with longer
    · obtain ⟨i, inRange, paired⟩ := List.mem_flatMap.mp listed
      obtain ⟨j, inOther, rfl⟩ := List.mem_map.mp paired
      have fromI := (List.mem_range'_1.mp inRange).1
      have fromJ := (List.mem_range'_1.mp inOther).1
      exact runOf_commonLength fromI fromJ (Nat.zero_lt_of_lt longer)
    · exact run
  exact ⟨found.1, slice_of_common found.2⟩

/-- A policy with small bounds. -/
def smallPolicy : AlignmentPolicy where
  maxUnreadCharacters := 2
  minBlockCharacters := 2
  anchorCharacters := 2
  anchorNeighbours := 1
  anchorOffsetTolerance := 3
  bandSlack := 2
  directAlignmentMaxPairs := 4
  maxAlignmentPairs := 9
  maxCharacters := 50
  positive := by decide

/-- A coverage by the longest-match search: two blocks, with one character misread between. -/
theorem alignment_consistent_longest : ∃ coverage left,
    (textCoverage findLongestMatch smallPolicy '?' "johannes".toList "johxnnes".toList).on 1000 =
      (.ok coverage, left) ∧
    coverage.matchedCharacters + coverage.unreadCharacters ≤ 8 ∧
    coverage.unreadRun ≤ coverage.unreadCharacters ∧
    coverage.position.length = 9 ∧
    coverage.position.Pairwise (· ≤ ·) ∧
    (∀ offset ∈ coverage.position, offset ≤ 8) ∧
    coverage.position.getLast? = some 8 := by
  have returned : (textCoverage findLongestMatch smallPolicy '?' "johannes".toList
      "johxnnes".toList).on 1000 = (.ok ⟨8, 7, 0, 0, [0, 1, 2, 3, 4, 5, 6, 7, 8]⟩, 962) := by
    decide +kernel
  exact ⟨_, _, returned, (alignment_consistent findLongestMatch_finds smallPolicy '?' _ _ 1000).2
    _ _ returned⟩

end Longest

end Verbatus.PageAccounting
