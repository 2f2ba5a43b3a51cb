import Verbatus.PageAccounting.Alignment

namespace Verbatus.PageAccounting

open Library Library.Checked

section Parts

namespace Ranges

/-- One part lies in front of the other on both texts. -/
def Before (first second : Ranges) : Prop := first.ahi ≤ second.alo ∧ first.bhi ≤ second.blo

def Apart (first second : Ranges) : Prop := first.Before second ∨ second.Before first

structure Inside (inner outer : Ranges) : Prop where
  alo : outer.alo ≤ inner.alo
  ahi : inner.ahi ≤ outer.ahi
  blo : outer.blo ≤ inner.blo
  bhi : inner.bhi ≤ outer.bhi

variable {first second third inner outer : Ranges}

theorem Inside.refl (part : Ranges) : part.Inside part := ⟨le_rfl, le_rfl, le_rfl, le_rfl⟩

theorem Inside.trans (into : inner.Inside second) (within : second.Inside outer) :
    inner.Inside outer :=
  ⟨within.alo.trans into.alo, into.ahi.trans within.ahi, within.blo.trans into.blo,
    into.bhi.trans within.bhi⟩

theorem Before.inside (before : first.Before second) (into : inner.Inside first)
    (within : third.Inside second) : inner.Before third :=
  ⟨(into.ahi.trans before.1).trans within.alo, (into.bhi.trans before.2).trans within.blo⟩

theorem Apart.symm (apart : first.Apart second) : second.Apart first := Or.symm apart

theorem Apart.inside (apart : first.Apart second) (into : inner.Inside first)
    (within : third.Inside second) : inner.Apart third :=
  apart.imp (fun before => before.inside into within) fun before => before.inside within into

/-- A part of the rest of two texts, in the whole of them. -/
def shift (alo blo : ℕ) (part : Ranges) : Ranges :=
  ⟨alo + part.alo, alo + part.ahi, blo + part.blo, blo + part.bhi⟩

end Ranges

def Block.ranges (block : Block) : Ranges :=
  ⟨block.i, block.i + block.size, block.j, block.j + block.size⟩

/-- A range cut into blocks and parts still to be searched, all apart from each other. -/
structure Parted (whole : Ranges) (good : Block → Prop) (found : List Block)
    (rest : List Ranges) : Prop where
  inside : ∀ part ∈ found.map Block.ranges ++ rest, part.Inside whole
  apart : (found.map Block.ranges ++ rest).Pairwise Ranges.Apart
  good : ∀ block ∈ found, good block

variable {whole part : Ranges} {good : Block → Prop} {found more : List Block}
  {rest pushed : List Ranges}

theorem Parted.start (whole : Ranges) : Parted whole good [] [whole] := by
  refine ⟨?_, List.pairwise_singleton _ _, nofun⟩
  intro part listed
  rw [List.mem_singleton.mp listed]
  exact .refl whole

/-- A range with nothing in it leaves nothing. -/
theorem Parted.none (whole : Ranges) : Parted whole good [] [] := ⟨nofun, .nil, nofun⟩

theorem Parted.perm {others : List Ranges} (parted : Parted whole good found rest)
    (same : rest.Perm others) : Parted whole good found others := by
  have all := same.append_left (found.map Block.ranges)
  exact ⟨fun part listed => parted.inside part (all.mem_iff.mpr listed),
    (all.pairwise_iff fun apart => apart.symm).mp parted.apart, parted.good⟩

/-- A part cut further leaves the whole cut. -/
theorem Parted.cut (parted : Parted whole good found (part :: rest))
    (cut : Parted part good more pushed) : Parted whole good (found ++ more) (pushed ++ rest) := by
  have here := parted.inside part (List.mem_append_right _ (.head _))
  obtain ⟨before, after, across⟩ := List.pairwise_append.mp parted.apart
  obtain ⟨beside, later⟩ := List.pairwise_cons.mp after
  have order : (found ++ more).map Block.ranges ++ (pushed ++ rest) =
      found.map Block.ranges ++ ((more.map Block.ranges ++ pushed) ++ rest) := by
    simp only [List.map_append, List.append_assoc]
  refine ⟨?_, ?_, ?_⟩
  · rw [order]
    intro other listed
    rcases List.mem_append.mp listed with old | new
    · exact parted.inside other (List.mem_append_left _ old)
    rcases List.mem_append.mp new with piece | old
    · exact (cut.inside other piece).trans here
    · exact parted.inside other (List.mem_append_right _ (.tail _ old))
  · rw [order, List.pairwise_append]
    refine ⟨before, List.pairwise_append.mpr ⟨cut.apart, later, ?_⟩, ?_⟩
    · intro piece inPieces other listed
      exact (beside other listed).inside (cut.inside piece inPieces) (.refl other)
    · intro other listed piece inPieces
      rcases List.mem_append.mp inPieces with new | old
      · exact (across other listed part (.head _)).inside (.refl other) (cut.inside piece new)
      · exact across other listed piece (.tail _ old)
  · intro block listed
    exact (List.mem_append.mp listed).elim (parted.good block) (cut.good block)

end Parts

section Runs

variable {α : Type}

/-- The characters of a block stand in both texts. -/
def Common (a b : List α) (block : Block) : Prop :=
  ∀ offset < block.size, ∃ character,
    a[block.i + offset]? = some character ∧ b[block.j + offset]? = some character

theorem getElem?_slice (text : List α) (lo hi offset : ℕ) :
    (slice text lo hi)[offset]? = if lo + offset < hi then text[lo + offset]? else none := by
  rw [slice, List.getElem?_drop, List.getElem?_take]

theorem length_slice {text : List α} {lo hi : ℕ} (inside : hi ≤ text.length) :
    (slice text lo hi).length = hi - lo := by
  rw [slice, List.length_drop, List.length_take]
  omega

theorem common_of_slice {a b : List α} {block : Block} (inA : block.i + block.size ≤ a.length)
    (same : slice a block.i (block.i + block.size) = slice b block.j (block.j + block.size)) :
    Common a b block := by
  intro offset inside
  have here := congrArg (·[offset]?) same
  simp only [getElem?_slice] at here
  rw [if_pos (by omega), if_pos (by omega), List.getElem?_eq_getElem (by omega)] at here
  exact ⟨_, List.getElem?_eq_getElem (by omega), here.symm⟩

theorem slice_of_common {a b : List α} {block : Block} (common : Common a b block) :
    slice a block.i (block.i + block.size) = slice b block.j (block.j + block.size) := by
  apply List.ext_getElem?
  intro offset
  rw [getElem?_slice, getElem?_slice]
  by_cases inside : offset < block.size
  · obtain ⟨character, inA, inB⟩ := common offset inside
    rw [if_pos (by omega), if_pos (by omega), inA, inB]
  · rw [if_neg (by omega), if_neg (by omega)]

theorem Common.empty {a b : List α} (i j : ℕ) : Common a b ⟨i, j, 0⟩ := nofun

/-- Two runs of one diagonal that meet are one run. -/
theorem Common.join {a b : List α} {block : Block} {i j k : ℕ} (first : Common a b block)
    (second : Common a b ⟨i, j, k⟩) (from_ : block.i ≤ i)
    (diagonal : (i - j : ℤ) = block.i - block.j) (meets : i ≤ block.i + block.size) :
    Common a b ⟨block.i, block.j, max block.size (i + k - block.i)⟩ := by
  intro offset inside
  dsimp only at inside ⊢
  by_cases before : offset < block.size
  · exact first offset before
  · have there := second (block.i + offset - i) (by dsimp only; omega)
    dsimp only at there
    rwa [show i + (block.i + offset - i) = block.i + offset by omega,
      show j + (block.i + offset - i) = block.j + offset by omega] at there

/-- A run of two slices is a run of the texts. -/
theorem Common.of_slices {a b : List α} {alo ahi blo bhi : ℕ} {run : Block}
    (common : Common (slice a alo ahi) (slice b blo bhi) run) :
    Common a b ⟨alo + run.i, blo + run.j, run.size⟩ := by
  intro offset inside
  obtain ⟨character, inA, inB⟩ := common offset inside
  rw [getElem?_slice] at inA inB
  split_ifs at inA inB
  refine ⟨character, ?_, ?_⟩
  · rw [Nat.add_assoc]
    exact inA
  · rw [Nat.add_assoc]
    exact inB

/-- What a block of an alignment is: a common run that is not empty. -/
def Good (a b : List α) (block : Block) : Prop := 0 < block.size ∧ Common a b block

/-- A longest-match search returns a common run of its box. -/
def FindsCommonRuns (find : List α → List α → Ranges → Block) : Prop :=
  ∀ a b box, box.alo ≤ box.ahi → box.ahi ≤ a.length → box.blo ≤ box.bhi → box.bhi ≤ b.length →
    let run := find a b box
    run.ranges.Inside box ∧
      slice a run.i (run.i + run.size) = slice b run.j (run.j + run.size)

end Runs

section Scan

variable {α : Type} [DecidableEq α] {a b : List α} {box : Ranges} {diagonal : ℤ} {low : ℕ}

/-- Where a scan stands: the run that ends here, and the best one so far. -/
structure Scanned (a b : List α) (box : Ranges) (diagonal : ℤ) (low x : ℕ)
    (state : ℕ × Block) : Prop where
  long : low + state.1 ≤ x
  run : Common a b ⟨x - state.1, (x - diagonal).toNat - state.1, state.1⟩
  best : state.2.ranges.Inside box ∧ Common a b state.2

theorem scanStep_scanned {x : ℕ} {state : ℕ × Block} (inA : box.ahi ≤ a.length)
    (fromA : box.alo ≤ low) (fromB : (box.blo : ℤ) ≤ low - diagonal) (toA : x < box.ahi)
    (toB : (x : ℤ) < box.bhi + diagonal) (scanned : Scanned a b box diagonal low x state) :
    Scanned a b box diagonal low (x + 1) (scanStep a b diagonal state x) := by
  obtain ⟨long, run, best⟩ := scanned
  obtain ⟨length, block⟩ := state
  dsimp only at long run best
  have next : ((x + 1 : ℕ) - diagonal : ℤ).toNat = (x - diagonal : ℤ).toNat + 1 := by omega
  rw [scanStep]
  by_cases same : a[x]? = b[(x - diagonal : ℤ).toNat]?
  · have grown : Common a b ⟨x + 1 - (length + 1), (x - diagonal : ℤ).toNat + 1 - (length + 1),
        length + 1⟩ := by
      intro offset inside
      dsimp only at inside ⊢
      rcases Nat.lt_succ_iff_lt_or_eq.mp inside with earlier | rfl
      · have old := run offset earlier
        dsimp only at old
        rwa [Nat.add_sub_add_right, Nat.add_sub_add_right]
      · rw [show x + 1 - (offset + 1) + offset = x by omega,
          show (x - diagonal : ℤ).toNat + 1 - (offset + 1) + offset = (x - diagonal : ℤ).toNat by
            omega]
        have here : a[x]? = some a[x] := List.getElem?_eq_getElem (by omega)
        exact ⟨_, here, same ▸ here⟩
    dsimp only
    rw [if_pos same]
    refine ⟨by dsimp only; omega, next ▸ grown, ?_⟩
    dsimp only
    split_ifs with longer
    · refine ⟨⟨?_, ?_, ?_, ?_⟩, grown⟩
      all_goals
        dsimp only [Block.ranges]
        omega
    · exact best
  · dsimp only
    rw [if_neg same]
    exact ⟨by dsimp only; omega, nofun, best⟩

theorem foldl_scanned (stop : ℕ) (inA : box.ahi ≤ a.length) (fromA : box.alo ≤ low)
    (fromB : (box.blo : ℤ) ≤ low - diagonal) (toA : stop ≤ box.ahi)
    (toB : (stop : ℤ) ≤ box.bhi + diagonal) {count x : ℕ} (ends : x + count = stop)
    {state : ℕ × Block} (scanned : Scanned a b box diagonal low x state) :
    Scanned a b box diagonal low stop ((List.range' x count).foldl (scanStep a b diagonal) state) := by
  induction count generalizing x state with
  | zero => exact ends ▸ scanned
  | succ count ih =>
      rw [List.range'_succ, List.foldl_cons]
      refine ih (by omega) (scanStep_scanned inA fromA fromB ?_ ?_ scanned)
      · omega
      · omega

/-- A common run inside a box. -/
def RunOf (a b : List α) (box : Ranges) (block : Block) : Prop :=
  block.ranges.Inside box ∧ Common a b block

theorem scanDiagonal_runOf (inA : box.ahi ≤ a.length) {best block : Block} {before after : ℤ}
    (start : RunOf a b box best)
    (returned : (scanDiagonal a b box best diagonal).on before = (.ok block, after)) :
    RunOf a b box block := by
  rw [scanDiagonal, Call.bind_on_ok] at returned
  obtain ⟨_, charged, _, returned⟩ := returned
  cases returned
  set first : ℤ := max (box.alo : ℤ) (box.blo + diagonal) with firstIs
  set last : ℤ := min (box.ahi : ℤ) (box.bhi + diagonal) with lastIs
  rcases le_or_gt last first with empty | longer
  · rw [show (last - first).toNat = 0 by omega]
    exact start
  · have scanned : Scanned a b box diagonal first.toNat first.toNat (0, best) :=
      ⟨le_rfl, nofun, start⟩
    exact (foldl_scanned last.toNat inA (by omega) (by omega) (by omega) (by omega)
      (by omega) scanned).best

theorem longestInBand_runOf {find : List α → List α → Ranges → Block}
    (finds : FindsCommonRuns find) {band : ℤ × ℤ} {block : Block} {before after : ℤ}
    (fromA : box.alo < box.ahi) (inA : box.ahi ≤ a.length) (fromB : box.blo < box.bhi)
    (inB : box.bhi ≤ b.length)
    (returned : (longestInBand find a b box band).on before = (.ok block, after)) :
    RunOf a b box block := by
  rw [longestInBand, Call.bind_on_ok] at returned
  obtain ⟨_, charged, _, returned⟩ := returned
  obtain ⟨inside, same⟩ := finds a b box fromA.le inA fromB.le inB
  dsimp only at returned
  split_ifs at returned
  · cases returned
    exact ⟨inside, common_of_slice (inside.ahi.trans inA) same⟩
  · refine foldlM_keeps (RunOf a b box) ?_ ⟨⟨?_, ?_, ?_, ?_⟩, .empty _ _⟩ returned
    · intro best diagonal _ next before after kept made
      exact scanDiagonal_runOf inA kept made
    all_goals
      dsimp only [Block.ranges]
      omega

end Scan

section Direct

variable {α : Type} [DecidableEq α] {find : List α → List α → Ranges → Block}
  {policy : AlignmentPolicy} {a b : List α} {box : Ranges}

theorem AlignmentPolicy.minBlockCharacters_pos (policy : AlignmentPolicy) :
    0 < policy.minBlockCharacters := policy.positive _ (by simp)

theorem AlignmentPolicy.anchorCharacters_pos (policy : AlignmentPolicy) :
    0 < policy.anchorCharacters := policy.positive _ (by simp)

/-- A turn of the direct search cuts its range at one run. -/
theorem directTurn_parted (finds : FindsCommonRuns find) {alo ahi blo bhi : ℕ}
    (inA : box.ahi ≤ (slice a alo ahi).length) (inB : box.bhi ≤ (slice b blo bhi).length)
    {more : List Block} {pushed : List Ranges} {before after : ℤ}
    (returned : (directTurn find policy (slice a alo ahi) (slice b blo bhi) alo blo box).on before =
      (.ok (more, pushed), after)) :
    Parted (box.shift alo blo) (Good a b) more (pushed.map (Ranges.shift alo blo)) := by
  rw [directTurn] at returned
  split_ifs at returned with empty
  · cases returned
    exact .none _
  rw [not_or, not_le, not_le] at empty
  rw [Call.bind_on_ok] at returned
  obtain ⟨run, between, found, returned⟩ := returned
  obtain ⟨inside, common⟩ := longestInBand_runOf finds empty.1 inA empty.2 inB found
  split_ifs at returned with short
  · cases returned
    exact .none _
  · cases returned
    obtain ⟨fromA, toA, fromB, toB⟩ := inside
    dsimp only [Block.ranges] at fromA toA fromB toB
    have long := policy.minBlockCharacters_pos
    refine ⟨?_, ?_, ?_⟩
    · intro part listed
      simp only [List.map_cons, List.map_nil, List.singleton_append, List.mem_cons,
        List.not_mem_nil, or_false, Block.ranges, Ranges.shift] at listed
      rcases listed with rfl | rfl | rfl
      all_goals
        constructor
        all_goals
          dsimp only [Ranges.shift]
          omega
    · simp only [List.map_cons, List.map_nil, List.singleton_append, List.pairwise_cons,
        List.mem_cons, List.not_mem_nil, or_false, forall_eq_or_imp, forall_eq, false_imp_iff,
        implies_true, List.Pairwise.nil, and_true, Ranges.Apart, Ranges.Before, Ranges.shift,
        Block.ranges]
      omega
    · intro block listed
      rw [List.mem_singleton.mp listed]
      exact ⟨by dsimp only; omega, common.of_slices⟩

/-- The direct search cuts its range into blocks. -/
theorem directBlocks_parted (finds : FindsCommonRuns find) (inA : box.ahi ≤ a.length)
    (inB : box.bhi ≤ b.length) (fromA : box.alo ≤ box.ahi) (fromB : box.blo ≤ box.bhi)
    {blocks : List Block} {before after : ℤ}
    (returned : (directBlocks find policy a b box).on before = (.ok blocks, after)) :
    Parted box (Good a b) blocks [] := by
  have whole : Ranges.shift box.alo box.blo ⟨0, box.ahi - box.alo, 0, box.bhi - box.blo⟩ = box := by
    simp [Ranges.shift, Nat.add_sub_cancel' fromA, Nat.add_sub_cancel' fromB]
  have kept := work_keeps (fun found rest =>
    Parted box (Good a b) found (rest.map (Ranges.shift box.alo box.blo))) ?_ ?_ returned
  · exact kept
  · intro item rest found more pushed before after parted turned
    rw [List.map_cons] at parted
    have here := (parted.inside _ (List.mem_append_right _ (.head _)))
    obtain ⟨-, toA, -, toB⟩ := here
    dsimp only [Ranges.shift] at toA toB
    have cut := directTurn_parted finds (by rw [length_slice inA]; omega)
      (by rw [length_slice inB]; omega) turned
    rw [List.map_append, List.map_reverse]
    exact (parted.cut cut).perm ((List.reverse_perm _).symm.append_right _)
  · rw [List.map_singleton, whole]
    exact .start box

end Direct

section Chain

variable {α : Type} {a b : List α} {box : Ranges} {k : ℕ}

/-- The blocks so far, the last one first: in order on both texts, each a common run. -/
structure Anchored (a b : List α) (box : Ranges) (blocks : List Block) : Prop where
  order : blocks.Pairwise fun later earlier => earlier.ranges.Before later.ranges
  runs : ∀ block ∈ blocks, RunOf a b box block ∧ 0 < block.size

theorem anchorStep_anchored {blocks : List Block} {pair : ℕ × ℕ} (positive : 0 < k)
    (anchored : Anchored a b box blocks) (run : RunOf a b box ⟨pair.1, pair.2, k⟩)
    (after : ∀ block ∈ blocks, block.i < pair.1) :
    Anchored a b box (anchorStep k blocks pair) ∧
      ∀ block ∈ anchorStep k blocks pair, block.i ≤ pair.1 := by
  cases blocks with
  | nil =>
      refine ⟨⟨List.pairwise_singleton _ _, ?_⟩, ?_⟩
      · intro block listed
        rw [List.mem_singleton.mp listed]
        exact ⟨run, positive⟩
      · intro block listed
        rw [List.mem_singleton.mp listed]
  | cons last rest =>
      obtain ⟨order, runs⟩ := anchored
      obtain ⟨earlier, sorted⟩ := List.pairwise_cons.mp order
      obtain ⟨⟨insideLast, commonLast⟩, sizeLast⟩ := runs last (.head _)
      have behind := after last (.head _)
      rw [anchorStep]
      split_ifs with meets overlaps
      · obtain ⟨diagonal, touches⟩ := meets
        have joined := commonLast.join run.2 behind.le diagonal touches
        obtain ⟨⟨fromA, toA, fromB, toB⟩, _⟩ := run
        obtain ⟨fromA', toA', fromB', toB'⟩ := insideLast
        dsimp only [Block.ranges] at fromA toA fromB toB fromA' toA' fromB' toB'
        refine ⟨⟨List.pairwise_cons.mpr ⟨fun block listed => earlier block listed, sorted⟩, ?_⟩, ?_⟩
        · refine List.forall_mem_cons.mpr ⟨⟨⟨⟨?_, ?_, ?_, ?_⟩, joined⟩, ?_⟩, ?_⟩
          · exact fromA'
          · dsimp only [Block.ranges]
            omega
          · exact fromB'
          · dsimp only [Block.ranges]
            omega
          · dsimp only
            omega
          · exact fun block listed => runs block (.tail _ listed)
        · refine List.forall_mem_cons.mpr ⟨behind.le, fun block listed => ?_⟩
          exact (after block (.tail _ listed)).le
      · exact ⟨⟨order, runs⟩, fun block listed => (after block listed).le⟩
      · rw [not_or, not_lt, not_lt] at overlaps
        refine ⟨⟨List.pairwise_cons.mpr ⟨?_, order⟩, ?_⟩, ?_⟩
        · refine List.forall_mem_cons.mpr ⟨overlaps, fun block listed => ?_⟩
          have before := earlier block listed
          dsimp only [Ranges.Before, Block.ranges] at before ⊢
          omega
        · exact List.forall_mem_cons.mpr ⟨⟨run, positive⟩, runs⟩
        · exact List.forall_mem_cons.mpr ⟨le_rfl, fun block listed => (after block listed).le⟩

theorem foldl_anchored {chain : List (ℕ × ℕ)} {blocks : List Block} (positive : 0 < k)
    (rising : chain.Pairwise fun first second => first.1 < second.1)
    (runs : ∀ pair ∈ chain, RunOf a b box ⟨pair.1, pair.2, k⟩)
    (anchored : Anchored a b box blocks)
    (after : ∀ block ∈ blocks, ∀ pair ∈ chain, block.i < pair.1) :
    Anchored a b box (chain.foldl (anchorStep k) blocks) := by
  induction chain generalizing blocks with
  | nil => exact anchored
  | cons pair chain ih =>
      obtain ⟨first, later⟩ := List.pairwise_cons.mp rising
      obtain ⟨next, reached⟩ := anchorStep_anchored positive anchored (runs pair (.head _))
        fun block listed => after block listed pair (.head _)
      refine ih later (fun other listed => runs other (.tail _ listed)) next ?_
      intro block listed other further
      exact (reached block listed).trans_lt (first other further)

end Chain

section Anchors

variable {α : Type} [DecidableEq α] {a b : List α} {box : Ranges} {k : ℕ}

theorem mem_unique {text : List α} {lo hi : ℕ} {entry : List α × ℕ}
    (listed : entry ∈ unique text lo hi k) :
    lo ≤ entry.2 ∧ entry.2 + k ≤ hi ∧ entry.1 = (text.drop entry.2).take k := by
  obtain ⟨i, kept, rfl⟩ := List.mem_map.mp listed
  have within := List.mem_range'_1.mp (List.mem_of_mem_filter kept)
  exact ⟨within.1, by dsimp only; omega, rfl⟩

theorem unique_rising (text : List α) (lo hi : ℕ) :
    (unique text lo hi k).Pairwise fun first second => first.2 < second.2 := by
  rw [unique, List.pairwise_map]
  exact (List.pairwise_lt_range' (s := lo) (n := hi + 1 - k - lo) 1).filter _

/-- The pairs come in order of the first text: sorting moves none. -/
theorem anchorPairs_rising (a b : List α) (box : Ranges) (k : ℕ) :
    (anchorPairs a b box k).Pairwise fun first second => first.1 < second.1 := by
  have rising : ((unique a box.alo box.ahi k).filterMap fun entry =>
      ((unique b box.blo box.bhi k).lookup entry.1).map fun j => (entry.2, j)).Pairwise
        fun first second => first.1 < second.1 := by
    rw [List.pairwise_filterMap]
    refine (unique_rising a box.alo box.ahi).imp ?_
    intro entry other before first found second later
    obtain ⟨_, _, rfl⟩ := Option.map_eq_some_iff.mp found
    obtain ⟨_, _, rfl⟩ := Option.map_eq_some_iff.mp later
    exact before
  rw [anchorPairs, sortBy_of_pairwise toLex]
  · exact rising
  · exact rising.imp fun before => Prod.Lex.toLex_le_toLex.mpr (.inl before)

/-- An anchor is a common run of its box. -/
theorem anchorPairs_runOf (inA : box.ahi ≤ a.length) {pair : ℕ × ℕ}
    (listed : pair ∈ anchorPairs a b box k) : RunOf a b box ⟨pair.1, pair.2, k⟩ := by
  rw [anchorPairs, mem_sortBy, List.mem_filterMap] at listed
  obtain ⟨entry, inFirst, found⟩ := listed
  obtain ⟨j, looked, rfl⟩ := Option.map_eq_some_iff.mp found
  obtain ⟨before, after, same, -⟩ := List.lookup_eq_some_iff.mp looked
  have inSecond : (entry.1, j) ∈ unique b box.blo box.bhi k := by
    rw [same]
    exact List.mem_append_right _ (.head _)
  obtain ⟨fromA, toA, gramA⟩ := mem_unique inFirst
  obtain ⟨fromB, toB, gramB⟩ := mem_unique inSecond
  refine ⟨⟨fromA, toA, fromB, toB⟩, common_of_slice (toA.trans inA) ?_⟩
  dsimp only
  rw [slice, slice, List.drop_take, List.drop_take, Nat.add_sub_cancel_left,
    Nat.add_sub_cancel_left, ← gramA, ← gramB]

/-- The anchors of the chain rise on both texts. -/
theorem chain_rising (pairs : List (ℕ × ℕ))
    (rising : pairs.Pairwise fun first second => first.1 < second.1) :
    ((risingChain (pairs.map Prod.snd)).filterMap fun index => pairs[index]?).Pairwise
      fun first second => first.1 < second.1 ∧ first.2 < second.2 := by
  rw [List.pairwise_filterMap]
  refine (risingChain_rises (pairs.map Prod.snd)).imp ?_
  rintro first second ⟨before, low, high, atFirst, atSecond, less⟩ pair found other later
  rw [List.getElem?_map, found] at atFirst
  rw [List.getElem?_map, later] at atSecond
  cases atFirst
  cases atSecond
  obtain ⟨inFirst, isFirst⟩ := List.getElem?_eq_some_iff.mp found
  obtain ⟨inSecond, isSecond⟩ := List.getElem?_eq_some_iff.mp later
  have apart := List.pairwise_iff_getElem.mp rising first second inFirst inSecond before
  rw [isFirst, isSecond] at apart
  exact ⟨apart, less⟩

/-- The anchor blocks of a range come in order, each a common run that is not empty. -/
theorem anchorBlocks_ordered (inA : box.ahi ≤ a.length) (positive : 0 < k) :
    (anchorBlocks a b box k).Pairwise (fun first second => first.ranges.Before second.ranges) ∧
      ∀ block ∈ anchorBlocks a b box k, RunOf a b box block ∧ 0 < block.size := by
  have rising := chain_rising _ (anchorPairs_rising a b box k)
  have anchored : Anchored a b box ((((risingChain ((anchorPairs a b box k).map Prod.snd)).filterMap
      fun index => (anchorPairs a b box k)[index]?)).foldl (anchorStep k) []) := by
    refine foldl_anchored positive (rising.imp And.left) ?_ ⟨.nil, nofun⟩ nofun
    intro pair listed
    obtain ⟨index, _, found⟩ := List.mem_filterMap.mp listed
    exact anchorPairs_runOf inA (List.mem_of_getElem? found)
  rw [anchorBlocks]
  refine ⟨List.pairwise_reverse.mpr anchored.order, fun block listed => ?_⟩
  exact anchored.runs block (List.mem_reverse.mp listed)

/-- Dropping an anchor leaves the others in order. -/
theorem consistentAnchors_sublist (policy : AlignmentPolicy) (blocks : List Block) :
    (consistentAnchors policy blocks).Sublist blocks := by
  refine (List.filter_sublist.map Prod.fst).trans ?_
  rw [List.zipIdx_map_fst]

/-- Blocks in order inside a range, with the gaps around them, cut it. -/
theorem gaps_parted {good : Block → Prop} (cursorA cursorB : ℕ) {ahi bhi : ℕ} {blocks : List Block}
    (order : blocks.Pairwise fun first second => first.ranges.Before second.ranges)
    (inside : ∀ block ∈ blocks, block.ranges.Inside ⟨cursorA, ahi, cursorB, bhi⟩)
    (sound : ∀ block ∈ blocks, good block) :
    Parted ⟨cursorA, ahi, cursorB, bhi⟩ good blocks (gaps ahi bhi cursorA cursorB blocks) := by
  induction blocks generalizing cursorA cursorB with
  | nil => exact .start _
  | cons block rest ih =>
      obtain ⟨before, sorted⟩ := List.pairwise_cons.mp order
      obtain ⟨fromA, toA, fromB, toB⟩ := inside block (.head _)
      dsimp only [Block.ranges] at fromA toA fromB toB
      have later := ih (block.i + block.size) (block.j + block.size) sorted
        (fun other listed => ⟨(before other listed).1, (inside other (.tail _ listed)).ahi,
          (before other listed).2, (inside other (.tail _ listed)).bhi⟩)
        fun other listed => sound other (.tail _ listed)
      have order : (block :: rest).map Block.ranges ++ gaps ahi bhi cursorA cursorB (block :: rest) =
          block.ranges :: (rest.map Block.ranges ++ ⟨cursorA, block.i, cursorB, block.j⟩ ::
            gaps ahi bhi (block.i + block.size) (block.j + block.size) rest) := rfl
      have moved : (rest.map Block.ranges ++ ⟨cursorA, block.i, cursorB, block.j⟩ ::
          gaps ahi bhi (block.i + block.size) (block.j + block.size) rest).Perm
            (⟨cursorA, block.i, cursorB, block.j⟩ :: (rest.map Block.ranges ++
              gaps ahi bhi (block.i + block.size) (block.j + block.size) rest)) :=
        List.perm_middle
      have all := moved.cons block.ranges
      refine ⟨?_, ?_, ?_⟩
      · rw [order]
        intro part listed
        rcases List.mem_cons.mp (all.mem_iff.mp listed) with rfl | listed
        · exact ⟨fromA, toA, fromB, toB⟩
        rcases List.mem_cons.mp listed with rfl | listed
        · constructor
          all_goals
            dsimp only
            omega
        · obtain ⟨fromA', toA', fromB', toB'⟩ := later.inside part listed
          dsimp only at fromA' toA' fromB' toB'
          constructor
          all_goals
            dsimp only
            omega
      · rw [order, all.pairwise_iff fun apart => apart.symm]
        refine List.pairwise_cons.mpr ⟨?_, List.pairwise_cons.mpr ⟨?_, later.apart⟩⟩
        · intro part listed
          rcases List.mem_cons.mp listed with rfl | listed
          · exact .inr ⟨le_rfl, le_rfl⟩
          · have within := later.inside part listed
            exact .inl ⟨within.alo, within.blo⟩
        · intro part listed
          have within := later.inside part listed
          exact .inl ⟨(Nat.le_add_right _ _).trans within.alo,
            (Nat.le_add_right _ _).trans within.blo⟩
      · exact sound

end Anchors

section Matching

variable {α : Type} [DecidableEq α] {find : List α → List α → Ranges → Block}
  {policy : AlignmentPolicy} {a b : List α} {box : Ranges}

/-- A turn of the alignment cuts its range into blocks and gaps. -/
theorem matchingTurn_parted (finds : FindsCommonRuns find) (inA : box.ahi ≤ a.length)
    (inB : box.bhi ≤ b.length) {more : List Block} {pushed : List Ranges} {before after : ℤ}
    (returned : (matchingTurn find policy a b box).on before = (.ok (more, pushed), after)) :
    Parted box (Good a b) more pushed := by
  rw [matchingTurn] at returned
  split_ifs at returned with empty
  · cases returned
    exact .none _
  rw [not_or, not_le, not_le] at empty
  dsimp only at returned
  split_ifs at returned with small bare
  · rw [Call.bind_on_ok] at returned
    obtain ⟨blocks, between, found, returned⟩ := returned
    cases returned
    exact directBlocks_parted finds inA inB empty.1.le empty.2.le found
  · rw [Call.bind_on_ok] at returned
    obtain ⟨_, charged, _, returned⟩ := returned
    rw [Call.bind_on_ok] at returned
    obtain ⟨_, passed, _, returned⟩ := returned
    rw [Call.bind_on_ok] at returned
    obtain ⟨blocks, between, found, returned⟩ := returned
    cases returned
    exact directBlocks_parted finds inA inB empty.1.le empty.2.le found
  · rw [Call.bind_on_ok] at returned
    obtain ⟨_, charged, _, returned⟩ := returned
    have kept := consistentAnchors_sublist policy (anchorBlocks a b box policy.anchorCharacters)
    generalize consistentAnchors policy (anchorBlocks a b box policy.anchorCharacters) = chosen
      at kept returned
    cases returned
    obtain ⟨order, runs⟩ := anchorBlocks_ordered (b := b) inA policy.anchorCharacters_pos
    refine gaps_parted _ _ (order.sublist kept) ?_ ?_
    · exact fun block listed => (runs block (kept.subset listed)).1.1
    · exact fun block listed => ⟨(runs block (kept.subset listed)).2,
        (runs block (kept.subset listed)).1.2⟩

/-- Blocks apart from each other stand in order once sorted. -/
theorem sortBy_before {blocks : List Block} (positive : ∀ block ∈ blocks, 0 < block.size)
    (apart : (blocks.map Block.ranges).Pairwise Ranges.Apart) :
    (sortBy Block.key blocks).Pairwise fun first second => first.ranges.Before second.ranges := by
  rw [List.pairwise_map] at apart
  have beside : (sortBy Block.key blocks).Pairwise fun first second =>
      first.ranges.Apart second.ranges :=
    ((sortBy_perm Block.key blocks).pairwise_iff fun apart => apart.symm).mpr apart
  refine ((sortBy_pairwise Block.key blocks).and beside).imp_of_mem ?_
  rintro first second inFirst inSecond ⟨sorted, before | behind⟩
  · exact before
  · have first_le : first.i ≤ second.i := by
      rcases Prod.Lex.toLex_le_toLex.mp sorted with less | ⟨same, _⟩
      · exact less.le
      · exact same.le
    have long := positive second ((mem_sortBy _).mp inSecond)
    dsimp only [Ranges.Before, Block.ranges] at behind ⊢
    omega

/-- The blocks of an alignment: in order on both texts, each a common run that is not empty. -/
theorem matchingBlocks_ordered (finds : FindsCommonRuns find) {blocks : List Block}
    {before after : ℤ}
    (returned : (matchingBlocks find policy a b).on before = (.ok blocks, after)) :
    blocks.Pairwise (fun first second => first.ranges.Before second.ranges) ∧
      ∀ block ∈ blocks, block.ranges.Inside ⟨0, a.length, 0, b.length⟩ ∧ Good a b block := by
  rw [matchingBlocks, Call.bind_on_ok] at returned
  obtain ⟨_, passed, _, returned⟩ := returned
  rw [Call.bind_on_ok] at returned
  obtain ⟨found, between, worked, returned⟩ := returned
  cases returned
  have parted := work_keeps (Parted ⟨0, a.length, 0, b.length⟩ (Good a b)) ?_
    (.start _) worked
  · obtain ⟨inside, apart, good⟩ := parted
    rw [List.append_nil] at inside apart
    refine ⟨sortBy_before (fun block listed => (good block listed).1) apart, ?_⟩
    intro block listed
    have member := (mem_sortBy _).mp listed
    exact ⟨inside _ (List.mem_map_of_mem member), good block member⟩
  · intro item rest found more pushed before after parted turned
    have here := parted.inside item (List.mem_append_right _ (.head _))
    have cut := matchingTurn_parted finds here.ahi here.bhi turned
    exact (parted.cut cut).perm ((List.reverse_perm _).symm.append_right _)

end Matching

end Verbatus.PageAccounting
