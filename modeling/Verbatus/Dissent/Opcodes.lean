import Verbatus.PageAccounting.Coverage

namespace Verbatus.Dissent

open Library PageAccounting

/-- The matcher ran out of its step budget before it finished. -/
structure AlignmentStepLimit where
  deriving DecidableEq, Repr

/-- What a stretch of both texts is: alike, or what the first becomes in the second. -/
inductive Tag where
  | equal
  | replace
  | delete
  | insert
  deriving DecidableEq, Repr

structure Opcode where
  tag : Tag
  i1 : ℕ
  i2 : ℕ
  j1 : ℕ
  j2 : ℕ
  deriving DecidableEq, Repr

section Matcher

variable {α : Type} [DecidableEq α]

/-- Where a character stands in the second text, in order. -/
def positions (b : List α) (character : α) : List ℕ :=
  (b.zipIdx.filter fun entry => entry.1 = character).map Prod.snd

/-- One step a character of the range, and one for each position of it below the range's end. -/
def matchCharge (a b : List α) (box : Ranges) : ℤ :=
  ((slice a box.alo box.ahi).map fun character =>
    (1 + bisectLeft (positions b character) box.bhi : ℤ)).sum

/-- The longest match, once its work is charged. -/
def countedLongestMatch (a b : List α) (box : Ranges) : Call ℤ AlignmentStepLimit Block := do
  spend ⟨⟩ (matchCharge a b box)
  return findLongestMatch a b box

/-- One range of the queue: its longest match, and what lies either side of it. -/
def matcherTurn (a b : List α) (box : Ranges) :
    Call ℤ AlignmentStepLimit (List Block × List Ranges) := do
  let run ← countedLongestMatch a b box
  if run.size = 0 then
    return ([], [])
  let left : List Ranges :=
    if box.alo < run.i ∧ box.blo < run.j then [⟨box.alo, run.i, box.blo, run.j⟩] else []
  let right : List Ranges :=
    if run.i + run.size < box.ahi ∧ run.j + run.size < box.bhi then
      [⟨run.i + run.size, box.ahi, run.j + run.size, box.bhi⟩] else []
  return ([run], left ++ right)

/-- Blocks that meet on both texts are one; the last block is still open. -/
def collapseFrom : Block → List Block → List Block
  | last, [] => if last.size = 0 then [] else [last]
  | last, block :: rest =>
    if last.i + last.size = block.i ∧ last.j + last.size = block.j then
      collapseFrom ⟨last.i, last.j, last.size + block.size⟩ rest
    else (if last.size = 0 then [] else [last]) ++ collapseFrom block rest

/-- `get_matching_blocks`, with the empty block at the end of both texts. -/
def getMatchingBlocks (a b : List α) : Call ℤ AlignmentStepLimit (List Block) := do
  let found ← drain (matcherTurn a b) (2 * a.length + 1) [⟨0, a.length, 0, b.length⟩] []
  return collapseFrom ⟨0, 0, 0⟩ (sortBy Block.key found) ++ [⟨a.length, b.length, 0⟩]

/-- What lies between two blocks. -/
def gapOpcodes (i ai j bj : ℕ) : List Opcode :=
  if i < ai ∧ j < bj then [⟨.replace, i, ai, j, bj⟩]
  else if i < ai then [⟨.delete, i, ai, j, bj⟩]
  else if j < bj then [⟨.insert, i, ai, j, bj⟩]
  else []

def opcodesFrom : ℕ → ℕ → List Block → List Opcode
  | _, _, [] => []
  | i, j, block :: rest =>
    gapOpcodes i block.i j block.j ++
      (if block.size = 0 then []
        else [⟨.equal, block.i, block.i + block.size, block.j, block.j + block.size⟩]) ++
      opcodesFrom (block.i + block.size) (block.j + block.size) rest

/-- `get_opcodes` -/
def getOpcodes (a b : List α) : Call ℤ AlignmentStepLimit (List Opcode) := do
  return opcodesFrom 0 0 (← getMatchingBlocks a b)

end Matcher

section Blocks

variable {α : Type} [DecidableEq α] {a b : List α} {box : Ranges}

/-- What a range may still bring on the queue. -/
def weight (box : Ranges) : ℕ := 2 * (box.ahi - box.alo) + 1

theorem parted_sublist {whole : Ranges} {good : Block → Prop} {found : List Block}
    {rest others : List Ranges} (parted : Parted whole good found rest)
    (kept : others.Sublist rest) : Parted whole good found others := by
  have all := kept.append_left (found.map Block.ranges)
  exact ⟨fun part listed => parted.inside part (all.subset listed), parted.apart.sublist all,
    parted.good⟩

omit [DecidableEq α] in
/-- A range is cut by a run inside it, with what lies in front of the run and behind it. -/
theorem parted_of_run {run : Block} (inside : run.ranges.Inside box) (long : 0 < run.size)
    (common : Common a b run) : Parted box (Good a b) [run]
      [⟨box.alo, run.i, box.blo, run.j⟩, ⟨run.i + run.size, box.ahi, run.j + run.size, box.bhi⟩] := by
  obtain ⟨leftA, rightA, leftB, rightB⟩ := inside
  dsimp only [Block.ranges] at leftA rightA leftB rightB
  refine ⟨?_, ?_, ?_⟩
  · intro part listed
    simp only [List.map_cons, List.map_nil, List.singleton_append, List.mem_cons,
      List.not_mem_nil, or_false, Block.ranges] at listed
    rcases listed with rfl | rfl | rfl
    all_goals
      constructor
      all_goals
        dsimp only
        omega
  · simp only [List.map_cons, List.map_nil, List.singleton_append, List.pairwise_cons,
      List.mem_cons, List.not_mem_nil, or_false, forall_eq_or_imp, forall_eq, false_imp_iff,
      implies_true, List.Pairwise.nil, and_true, Ranges.Apart, Ranges.Before, Block.ranges]
    omega
  · intro block listed
    rw [List.mem_singleton.mp listed]
    exact ⟨long, common⟩

/-- A turn cuts its range at one match, and queues less than it took. -/
theorem matcherTurn_parted (fromA : box.alo ≤ box.ahi) (inA : box.ahi ≤ a.length)
    (fromB : box.blo ≤ box.bhi) (inB : box.bhi ≤ b.length) {more : List Block}
    {pushed : List Ranges} {before after : ℤ}
    (returned : (matcherTurn a b box).on before = (.ok (more, pushed), after)) :
    Parted box (Good a b) more pushed ∧ (∀ part ∈ pushed, part.alo ≤ part.ahi ∧ part.blo ≤ part.bhi) ∧
      (pushed.map weight).sum < weight box := by
  rw [matcherTurn, Call.bind_on_ok] at returned
  obtain ⟨run, between, found, returned⟩ := returned
  rw [countedLongestMatch, Call.bind_on_ok] at found
  obtain ⟨_, charged, _, found⟩ := found
  obtain ⟨inside, same⟩ := findLongestMatch_finds a b box fromA inA fromB inB
  cases found
  generalize findLongestMatch a b box = run at *
  have common := common_of_slice (inside.ahi.trans inA) same
  by_cases none : run.size = 0
  · rw [if_pos none] at returned
    cases returned
    refine ⟨.none box, nofun, ?_⟩
    rw [weight]
    exact Nat.succ_pos _
  · rw [if_neg none] at returned
    have parted := parted_of_run inside (Nat.pos_of_ne_zero none) common
    obtain ⟨leftA, rightA, leftB, rightB⟩ := inside
    dsimp only [Block.ranges] at leftA rightA leftB rightB
    set left : Ranges := ⟨box.alo, run.i, box.blo, run.j⟩ with leftIs
    set right : Ranges := ⟨run.i + run.size, box.ahi, run.j + run.size, box.bhi⟩ with rightIs
    have kept : pushed.Sublist [left, right] ∧ more = [run] := by
      have one (part : Ranges) (holds : Prop) [Decidable holds] :
          (if holds then [part] else []).Sublist [part] := by
        split_ifs
        · exact .refl _
        · exact List.nil_sublist _
      cases returned
      exact ⟨(one left _).append (one right _), rfl⟩
    obtain ⟨kept, rfl⟩ := kept
    refine ⟨parted_sublist parted kept, fun part listed => ?_, ?_⟩
    · have either := kept.subset listed
      simp only [List.mem_cons, List.not_mem_nil, or_false] at either
      rcases either with rfl | rfl
      · exact ⟨leftA, leftB⟩
      · exact ⟨rightA, rightB⟩
    · have lighter := (kept.map weight).sum_le_sum fun _ _ => Nat.zero_le _
      refine lighter.trans_lt ?_
      simp only [List.map_cons, List.map_nil, List.sum_cons, List.sum_nil, weight, leftIs, rightIs]
      omega

/-- The queue is emptied with the texts cut into matches. -/
theorem drain_parted {found : List Block} {before after : ℤ}
    (returned : (drain (matcherTurn a b) (2 * a.length + 1) [⟨0, a.length, 0, b.length⟩] []).on
      before = (.ok found, after)) :
    Parted ⟨0, a.length, 0, b.length⟩ (Good a b) found [] := by
  have kept := drain_keeps (fun found rest =>
      Parted ⟨0, a.length, 0, b.length⟩ (Good a b) found rest ∧
        ∀ part ∈ rest, part.alo ≤ part.ahi ∧ part.blo ≤ part.bhi)
    weight ?_ (fun _ => Nat.succ_pos _) (by simp [weight]) ⟨.start _, by simp⟩ returned
  · exact kept.1
  · rintro item rest found more pushed before after ⟨parted, ordered⟩ turned
    have here := parted.inside item (List.mem_append_right _ (.head _))
    obtain ⟨fromA, fromB⟩ := ordered item (.head _)
    obtain ⟨cut, below, lighter⟩ := matcherTurn_parted fromA here.ahi fromB here.bhi turned
    refine ⟨⟨(parted.cut cut).perm ((List.reverse_perm _).symm.append_right _), ?_⟩, lighter⟩
    rw [List.forall_mem_append]
    exact ⟨fun part listed => below part (List.mem_reverse.mp listed),
      fun part listed => ordered part (.tail _ listed)⟩

omit [DecidableEq α] in
theorem common_append {last block : Block} (first : Common a b last) (second : Common a b block)
    (meetsA : last.i + last.size = block.i) (meetsB : last.j + last.size = block.j) :
    Common a b ⟨last.i, last.j, last.size + block.size⟩ := by
  intro offset inside
  dsimp only at inside ⊢
  by_cases before : offset < last.size
  · exact first offset before
  · have there := second (offset - last.size) (by omega)
    rwa [← meetsA, ← meetsB, Nat.add_assoc, Nat.add_assoc, Nat.add_sub_cancel' (not_lt.mp before)]
      at there

/-- What the collapsed blocks are: in order, common runs that are not empty. -/
structure Collapsed (a b : List α) (last : Block) (blocks : List Block) : Prop where
  order : blocks.Pairwise fun first second => first.ranges.Before second.ranges
  good : ∀ block ∈ blocks, Good a b block
  inside : ∀ block ∈ blocks, block.ranges.Inside ⟨last.i, a.length, last.j, b.length⟩

omit [DecidableEq α] in
theorem closed_collapsed {last : Block} (common : Common a b last)
    (inA : last.i + last.size ≤ a.length) (inB : last.j + last.size ≤ b.length) :
    Collapsed a b last (if last.size = 0 then [] else [last]) := by
  split_ifs with none
  · exact ⟨.nil, nofun, nofun⟩
  · exact ⟨List.pairwise_singleton _ _,
      List.forall_mem_singleton.mpr ⟨Nat.pos_of_ne_zero none, common⟩,
      List.forall_mem_singleton.mpr ⟨le_rfl, inA, le_rfl, inB⟩⟩

omit [DecidableEq α] in
/-- Blocks in order collapse to blocks in order that meet nowhere. -/
theorem collapseFrom_collapsed {last : Block} {blocks : List Block} (common : Common a b last)
    (inA : last.i + last.size ≤ a.length) (inB : last.j + last.size ≤ b.length)
    (order : (last :: blocks).Pairwise fun first second => first.ranges.Before second.ranges)
    (good : ∀ block ∈ blocks, Good a b block)
    (inside : ∀ block ∈ blocks, block.ranges.Inside ⟨0, a.length, 0, b.length⟩) :
    Collapsed a b last (collapseFrom last blocks) := by
  induction blocks generalizing last with
  | nil => exact closed_collapsed common inA inB
  | cons block rest ih =>
      obtain ⟨ahead, later⟩ := List.pairwise_cons.mp order
      obtain ⟨next, rows⟩ := List.pairwise_cons.mp later
      obtain ⟨goodBlock, goodRest⟩ := List.forall_mem_cons.mp good
      obtain ⟨insideBlock, insideRest⟩ := List.forall_mem_cons.mp inside
      obtain ⟨beforeA, beforeB⟩ := ahead block (.head _)
      obtain ⟨-, endA, -, endB⟩ := insideBlock
      dsimp only [Block.ranges] at beforeA beforeB endA endB
      rw [collapseFrom]
      by_cases meets : last.i + last.size = block.i ∧ last.j + last.size = block.j
      · rw [if_pos meets]
        have grown := common_append common goodBlock.2 meets.1 meets.2
        have ordered : ((⟨last.i, last.j, last.size + block.size⟩ : Block) :: rest).Pairwise
            fun first second => first.ranges.Before second.ranges := by
          refine List.pairwise_cons.mpr ⟨fun other listed => ?_, rows⟩
          obtain ⟨otherA, otherB⟩ := next other listed
          dsimp only [Ranges.Before, Block.ranges] at otherA otherB ⊢
          omega
        obtain ⟨orderRest, goodCollapsed, within⟩ := ih grown (by dsimp only; omega)
          (by dsimp only; omega) ordered goodRest insideRest
        exact ⟨orderRest, goodCollapsed, within⟩
      · rw [if_neg meets]
        obtain ⟨orderRest, goodCollapsed, within⟩ :=
          ih goodBlock.2 endA endB later goodRest insideRest
        obtain ⟨orderLast, goodLast, insideLast⟩ := closed_collapsed common inA inB
        refine ⟨List.pairwise_append.mpr ⟨orderLast, orderRest, ?_⟩, ?_, ?_⟩
        · intro first member second listed
          split_ifs at member with none
          · cases member
          · rw [List.mem_singleton.mp member]
            obtain ⟨fromA, -, fromB, -⟩ := within second listed
            exact ⟨beforeA.trans fromA, beforeB.trans fromB⟩
        · exact List.forall_mem_append.mpr ⟨goodLast, goodCollapsed⟩
        · refine List.forall_mem_append.mpr ⟨insideLast, fun other listed => ?_⟩
          obtain ⟨fromA, toA, fromB, toB⟩ := within other listed
          dsimp only at fromA toA fromB toB
          exact ⟨by dsimp only; omega, toA, by dsimp only; omega, toB⟩

/-- The matching blocks, up to the empty one that ends them. -/
theorem getMatchingBlocks_collapsed {blocks : List Block} {before after : ℤ}
    (returned : (getMatchingBlocks a b).on before = (.ok blocks, after)) :
    ∃ collapsed, Collapsed a b ⟨0, 0, 0⟩ collapsed ∧
      blocks = collapsed ++ [⟨a.length, b.length, 0⟩] := by
  rw [getMatchingBlocks, Call.bind_on_ok] at returned
  obtain ⟨found, between, drained, returned⟩ := returned
  cases returned
  refine ⟨_, ?_, rfl⟩
  obtain ⟨inside, apart, good⟩ := drain_parted drained
  rw [List.append_nil] at inside apart
  have insideSorted : ∀ block ∈ sortBy Block.key found,
      block.ranges.Inside ⟨0, a.length, 0, b.length⟩ := fun block listed =>
    inside _ (List.mem_map_of_mem ((mem_sortBy _).mp listed))
  refine collapseFrom_collapsed (.empty 0 0) (Nat.zero_le _) (Nat.zero_le _) ?_
    (fun block listed => good block ((mem_sortBy _).mp listed)) insideSorted
  refine List.pairwise_cons.mpr ⟨fun block _ => ⟨Nat.zero_le _, Nat.zero_le _⟩, ?_⟩
  exact sortBy_before (fun block listed => (good block listed).1) apart

end Blocks

section Tiles

variable {α : Type} {a b : List α}

/-- Operations that follow each other from a place in both texts to their ends: the equal ones
stand alike in both, and no other is empty. -/
def Tiles (a b : List α) : ℕ → ℕ → List Opcode → Prop
  | i, j, [] => i = a.length ∧ j = b.length
  | i, j, opcode :: rest => opcode.i1 = i ∧ opcode.j1 = j ∧ i ≤ opcode.i2 ∧ j ≤ opcode.j2 ∧
      (opcode.tag = .equal → slice a i opcode.i2 = slice b j opcode.j2) ∧
      Tiles a b opcode.i2 opcode.j2 rest

theorem tiles_gap {i ai j bj : ℕ} {rest : List Opcode} (fromA : i ≤ ai) (fromB : j ≤ bj)
    (tiles : Tiles a b ai bj rest) : Tiles a b i j (gapOpcodes i ai j bj ++ rest) := by
  rw [gapOpcodes]
  split_ifs with both deleted inserted
  · exact ⟨rfl, rfl, fromA, fromB, nofun, tiles⟩
  · exact ⟨rfl, rfl, fromA, fromB, nofun, tiles⟩
  · exact ⟨rfl, rfl, fromA, fromB, nofun, tiles⟩
  · obtain rfl : i = ai := by omega
    obtain rfl : j = bj := by omega
    exact tiles

/-- Blocks in order and the empty one at the end tile both texts. -/
theorem opcodesFrom_tiles {last : Block} {blocks : List Block} {i j : ℕ}
    (collapsed : Collapsed a b last blocks) (inA : i ≤ a.length) (inB : j ≤ b.length)
    (ahead : ∀ block ∈ blocks, i ≤ block.i ∧ j ≤ block.j) :
    Tiles a b i j (opcodesFrom i j (blocks ++ [⟨a.length, b.length, 0⟩])) := by
  obtain ⟨order, good, inside⟩ := collapsed
  induction blocks generalizing i j with
  | nil =>
      have ended : Tiles a b a.length b.length [] := ⟨rfl, rfl⟩
      rw [List.nil_append, opcodesFrom, opcodesFrom, if_pos rfl, List.append_nil]
      exact tiles_gap inA inB ended
  | cons block rest ih =>
      obtain ⟨next, later⟩ := List.pairwise_cons.mp order
      obtain ⟨⟨long, common⟩, goodRest⟩ := List.forall_mem_cons.mp good
      obtain ⟨⟨-, endA, -, endB⟩, insideRest⟩ := List.forall_mem_cons.mp inside
      obtain ⟨⟨fromA, fromB⟩, -⟩ := List.forall_mem_cons.mp ahead
      dsimp only [Block.ranges] at endA endB
      rw [List.cons_append, opcodesFrom, if_neg (by omega), List.append_assoc,
        List.singleton_append]
      refine tiles_gap fromA fromB ⟨rfl, rfl, by dsimp only; omega, by dsimp only; omega,
        fun _ => slice_of_common common, ?_⟩
      exact ih endA endB (fun other listed => next other listed) later goodRest insideRest

theorem getOpcodes_tiles [DecidableEq α] {opcodes : List Opcode} {before after : ℤ}
    (returned : (getOpcodes a b).on before = (.ok opcodes, after)) :
    Tiles a b 0 0 opcodes := by
  rw [getOpcodes, Call.bind_on_ok] at returned
  obtain ⟨blocks, between, found, returned⟩ := returned
  cases returned
  obtain ⟨collapsed, sound, rfl⟩ := getMatchingBlocks_collapsed found
  exact opcodesFrom_tiles sound (Nat.zero_le _) (Nat.zero_le _)
    fun _ _ => ⟨Nat.zero_le _, Nat.zero_le _⟩

end Tiles

section Alike

variable {α : Type} [DecidableEq α] {a : List α}

omit [DecidableEq α] in
theorem slice_whole (text : List α) : slice text 0 text.length = text := by
  rw [slice, List.take_length, List.drop_zero]

theorem commonLength_self (text : List α) : commonLength text text = text.length := by
  induction text with
  | nil => rfl
  | cons point text ih => rw [commonLength, if_pos rfl, ih, List.length_cons]

theorem commonLength_le (first second : List α) : commonLength first second ≤ first.length := by
  induction first, second using commonLength.induct with
  | case1 rest point other ih =>
      rw [commonLength, if_pos rfl, List.length_cons]
      omega
  | case2 first rest second other differ =>
      rw [commonLength, if_neg differ]
      exact Nat.zero_le _
  | case3 first second short =>
      rw [commonLength]
      · exact Nat.zero_le _
      · exact short

/-- The longest match of a text with itself is the text. -/
theorem findLongestMatch_self (a : List α) :
    findLongestMatch a a ⟨0, a.length, 0, a.length⟩ = ⟨0, 0, a.length⟩ := by
  have short : ∀ start : ℕ × ℕ,
      commonLength (slice a start.1 a.length) (slice a start.2 a.length) ≤ a.length := by
    intro start
    refine (commonLength_le _ _).trans ?_
    rw [length_slice le_rfl]
    exact Nat.sub_le _ _
  have stays (starts : List (ℕ × ℕ)) : starts.foldl (fun best start =>
      let size := commonLength (slice a start.1 a.length) (slice a start.2 a.length)
      if best.size < size then ⟨start.1, start.2, size⟩ else best) (⟨0, 0, a.length⟩ : Block) =
        ⟨0, 0, a.length⟩ := by
    induction starts with
    | nil => rfl
    | cons start starts ih =>
        rw [List.foldl_cons]
        dsimp only
        rw [if_neg (short start).not_gt]
        exact ih
  rw [findLongestMatch]
  cases length : a.length with
  | zero => rfl
  | succ count =>
      rw [length] at stays
      dsimp only
      rw [Nat.sub_zero, List.range'_succ, List.flatMap_cons, List.map_cons, List.cons_append,
        List.foldl_cons]
      have first : commonLength (slice a 0 (count + 1)) (slice a 0 (count + 1)) = count + 1 := by
        rw [← length, slice_whole, commonLength_self]
      dsimp only
      rw [first, if_pos (Nat.succ_pos count)]
      exact stays _

/-- The one block of a text with itself. -/
theorem getMatchingBlocks_self {blocks : List Block} {before after : ℤ}
    (returned : (getMatchingBlocks a a).on before = (.ok blocks, after)) :
    blocks = (if a.length = 0 then [] else [⟨0, 0, a.length⟩]) ++ [⟨a.length, a.length, 0⟩] := by
  rw [getMatchingBlocks, Call.bind_on_ok] at returned
  obtain ⟨found, between, drained, returned⟩ := returned
  cases returned
  rw [drain, Call.bind_on_ok] at drained
  obtain ⟨⟨more, pushed⟩, later, turned, drained⟩ := drained
  rw [matcherTurn, Call.bind_on_ok] at turned
  obtain ⟨run, _, counted, turned⟩ := turned
  rw [countedLongestMatch, Call.bind_on_ok] at counted
  obtain ⟨_, charged, _, counted⟩ := counted
  cases counted
  rw [findLongestMatch_self] at turned
  by_cases none : a.length = 0
  · rw [if_pos none] at turned ⊢
    cases turned
    dsimp only at drained
    rw [List.reverse_nil, List.append_nil, drain] at drained
    cases drained
    rfl
  · rw [if_neg none, if_neg (fun left => (lt_irrefl 0) left.1),
      if_neg (fun right => by simp at right)] at turned
    rw [if_neg none]
    cases turned
    dsimp only at drained
    rw [List.append_nil, List.append_nil, List.reverse_nil, drain] at drained
    cases drained
    have long : ¬ (0 + a.length = 0) := by omega
    simp only [List.nil_append, sortBy, List.insertionSort, List.foldr, List.orderedInsert,
      collapseFrom, Nat.add_zero, Nat.zero_add, and_self, if_true, if_neg none]

/-- A text has nothing to depart from in itself. -/
theorem getOpcodes_self {opcodes : List Opcode} {before after : ℤ}
    (returned : (getOpcodes a a).on before = (.ok opcodes, after)) :
    ∀ opcode ∈ opcodes, opcode.tag = .equal := by
  rw [getOpcodes, Call.bind_on_ok] at returned
  obtain ⟨blocks, between, found, returned⟩ := returned
  cases returned
  rw [getMatchingBlocks_self found]
  split_ifs with none
  · simp [opcodesFrom, gapOpcodes, none]
  · simp [opcodesFrom, gapOpcodes, none]

end Alike

end Verbatus.Dissent
