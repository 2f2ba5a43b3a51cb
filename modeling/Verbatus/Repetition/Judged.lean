import Mathlib.Data.List.TakeWhile
import Verbatus.Repetition.Loop

namespace Verbatus.Repetition

open Library Library.Checked Refusal Python

section Blocks

/-- A block that is not a shorter one repeated. -/
def Primitive (block : List Str) : Prop :=
  ∀ part count, part.length < block.length → block ≠ (List.replicate count part).flatten

theorem length_flatten_replicate {α : Type} (count : ℕ) (part : List α) :
    (List.replicate count part).flatten.length = count * part.length := by
  rw [List.length_flatten, List.map_replicate, List.sum_replicate, smul_eq_mul]

theorem primitive_iff {block : List Str} : primitive block = true ↔ Primitive block := by
  rw [primitive, decide_eq_true_eq, Bool.not_eq_true, List.any_eq_false]
  constructor
  · intro none part count shorter same
    have size := congrArg List.length same
    rw [length_flatten_replicate] at size
    have some_part : 0 < part.length := by
      rcases Nat.eq_zero_or_pos part.length with empty | pos
      · rw [empty, Nat.mul_zero] at size
        omega
      · exact pos
    have divides : block.length / part.length = count := by
      rw [size, Nat.mul_div_cancel _ some_part]
    have taken : block.take part.length = part := by
      cases count with
      | zero => simp [same] at shorter
      | succ count => rw [same, List.replicate_succ, List.flatten_cons, List.take_left]
    refine none part.length ?_ ?_
    · rw [List.mem_range'_1]
      omega
    · rw [decide_eq_true_eq, divides, taken]
      exact ⟨by rw [size]; exact Nat.mul_mod_left _ _, same⟩
  · intro whole period member repeated
    obtain ⟨-, same⟩ := of_decide_eq_true repeated
    rw [List.mem_range'_1] at member
    refine whole _ _ ?_ same
    rw [List.length_take]
    omega

/-- A repeated block holds its own element at each index. -/
theorem getElem?_flatten_replicate {α : Type} (part : List α) (count index : ℕ)
    (inside : index < part.length * count) :
    (List.replicate count part).flatten[index]? = part[index % part.length]? := by
  induction count generalizing index with
  | zero => simp at inside
  | succ count ih =>
      rw [List.replicate_succ, List.flatten_cons]
      rcases Nat.lt_or_ge index part.length with early | late
      · rw [List.getElem?_append_left early, Nat.mod_eq_of_lt early]
      · rw [List.getElem?_append_right late, Nat.mod_eq_sub_mod late]
        apply ih
        rw [Nat.mul_succ] at inside
        omega

theorem length_lastLines {count : ℕ} {lines : List Str} (within : count ≤ lines.length) :
    (lastLines count lines).length = count := by
  rw [lastLines, List.length_drop]
  omega

theorem endsRepeated_iff {size repeats : ℕ} {lines : List Str} (some_repeat : 0 < repeats)
    (within : size * repeats ≤ lines.length) : endsRepeated size repeats lines = true ↔
      lastLines (size * repeats) lines = (List.replicate repeats (lastLines size lines)).flatten := by
  have smaller : size ≤ lines.length :=
    (Nat.le_mul_of_pos_right size some_repeat).trans within
  have block := length_lastLines smaller
  rw [endsRepeated, List.all_eq_true]
  constructor
  · intro each
    apply List.ext_getElem?
    intro index
    rcases Nat.lt_or_ge index (size * repeats) with early | late
    · rw [getElem?_flatten_replicate _ _ _ (by rwa [block]), block]
      exact of_decide_eq_true (each index (List.mem_range.mpr early))
    · rw [List.getElem?_eq_none, List.getElem?_eq_none]
      · rw [length_flatten_replicate, block, Nat.mul_comm]
        exact late
      · rw [length_lastLines within]
        exact late
  · intro same index member
    rw [List.mem_range] at member
    rw [decide_eq_true_eq, same, getElem?_flatten_replicate _ _ _ (by rwa [block]), block]

/-- The lines end in a block of this size, not a shorter one repeated, run often enough. -/
structure BlockLoop (guard : Guard) (size : ℕ) (lines : List Str) : Prop where
  least : minBlockLines ≤ size
  most : size ≤ guard.loopBlockMaxLines
  repeated : ∃ before block, block.length = size ∧ Primitive block ∧
    lines = before ++ (List.replicate guard.loopBlockRepeats block).flatten

theorem blockLoop_iff {guard : Guard} {size : ℕ} {lines : List Str} :
    BlockLoop guard size lines ↔ (minBlockLines ≤ size ∧ size ≤ guard.loopBlockMaxLines) ∧
      size * guard.loopBlockRepeats ≤ lines.length ∧ primitive (lastLines size lines) = true ∧
      endsRepeated size guard.loopBlockRepeats lines = true := by
  have some_repeat : 0 < guard.loopBlockRepeats := by
    have blocks := guard.blocks
    omega
  constructor
  · rintro ⟨least, most, before, block, rfl, whole, rfl⟩
    have span := length_flatten_replicate guard.loopBlockRepeats block
    have within : block.length * guard.loopBlockRepeats ≤
        (before ++ (List.replicate guard.loopBlockRepeats block).flatten).length := by
      rw [List.length_append, span, Nat.mul_comm]
      exact Nat.le_add_left _ _
    have spanned : lastLines (block.length * guard.loopBlockRepeats)
        (before ++ (List.replicate guard.loopBlockRepeats block).flatten) =
        (List.replicate guard.loopBlockRepeats block).flatten := by
      rw [lastLines, List.length_append, span, Nat.mul_comm, Nat.add_sub_cancel, List.drop_left]
    have last : lastLines block.length
        (before ++ (List.replicate guard.loopBlockRepeats block).flatten) = block := by
      obtain ⟨more, same⟩ : ∃ more, guard.loopBlockRepeats = more + 1 :=
        ⟨guard.loopBlockRepeats - 1, by omega⟩
      have tail : before ++ (List.replicate (more + 1) block).flatten =
          before ++ (List.replicate more block).flatten ++ block := by
        rw [List.replicate_succ', List.flatten_append, List.flatten_singleton, List.append_assoc]
      rw [same, tail, lastLines, List.length_append, Nat.add_sub_cancel, List.drop_left]
    refine ⟨⟨least, most⟩, within, ?_, ?_⟩
    · rwa [last, primitive_iff]
    · rw [endsRepeated_iff some_repeat within, spanned, last]
  · rintro ⟨⟨least, most⟩, within, whole, ends⟩
    rw [endsRepeated_iff some_repeat within] at ends
    have smaller : size ≤ lines.length :=
      (Nat.le_mul_of_pos_right size some_repeat).trans within
    refine ⟨least, most, lines.take (lines.length - size * guard.loopBlockRepeats),
      lastLines size lines, length_lastLines smaller, primitive_iff.mp whole, ?_⟩
    rw [← ends, lastLines, List.take_append_drop]

end Blocks

section Lines

/-- How many lines at the tail are the same line. -/
def tailRun (lines : List Str) : ℕ :=
  match lines.getLast? with
  | none => 0
  | some last => (lines.reverse.takeWhile fun line => line = last).length

/-- The lines end in one line, run often enough. -/
def LineLoop (guard : Guard) (lines : List Str) : Prop :=
  ∃ before line, lines = before ++ List.replicate guard.loopLineRepeats line

theorem tailRun_concat (lines : List Str) (line : Str) :
    tailRun (lines ++ [line]) = if lines.getLast? = some line then tailRun lines + 1 else 1 := by
  unfold tailRun
  rw [List.getLast?_concat, List.reverse_concat]
  dsimp only
  rw [List.takeWhile_cons_of_pos (by simp), List.length_cons]
  split_ifs with same
  · rw [same]
  · cases shape : lines.reverse with
    | nil => rfl
    | cons last rest =>
        rw [List.getLast?_eq_head?_reverse, shape, List.head?_cons, Option.some.injEq] at same
        rw [List.takeWhile_cons_of_neg (by simpa using same)]
        rfl

theorem lineLoop_iff {guard : Guard} {lines : List Str} :
    LineLoop guard lines ↔ guard.loopLineRepeats ≤ tailRun lines := by
  have often : 0 < guard.loopLineRepeats := by
    have lines := guard.lines
    omega
  constructor
  · rintro ⟨before, line, rfl⟩
    have last : (before ++ List.replicate guard.loopLineRepeats line).getLast? = some line := by
      rw [List.getLast?_append_of_ne_nil]
      · rw [List.getLast?_replicate, if_neg often.ne']
      · rw [Ne, List.replicate_eq_nil_iff]
        exact often.ne'
    rw [tailRun, last]
    dsimp only
    rw [List.reverse_append, List.reverse_replicate, List.takeWhile_append_of_pos]
    · rw [List.length_append, List.length_replicate]
      exact Nat.le_add_right _ _
    · intro other member
      rw [List.eq_of_mem_replicate member]
      exact decide_eq_true rfl
  · intro long
    cases last : lines.getLast? with
    | none =>
        rw [tailRun, last] at long
        exact absurd long (not_le.mpr often)
    | some line =>
        rw [tailRun, last] at long
        dsimp only at long
        have taken : lines.reverse.take guard.loopLineRepeats =
            List.replicate guard.loopLineRepeats line := by
          rw [List.eq_replicate_iff]
          have whole := (List.takeWhile_prefix (l := lines.reverse) fun other => decide (other = line))
          refine ⟨?_, fun other member => ?_⟩
          · rw [List.length_take, min_eq_left (long.trans whole.length_le)]
          · have inside : lines.reverse.take guard.loopLineRepeats <+:
                lines.reverse.takeWhile fun other => decide (other = line) :=
              List.prefix_of_prefix_length_le (List.take_prefix _ _) whole
                ((List.length_take_le _ _).trans long)
            have alike := List.mem_takeWhile_imp (inside.subset member)
            rwa [decide_eq_true_eq] at alike
        refine ⟨(lines.reverse.drop guard.loopLineRepeats).reverse, line, ?_⟩
        have parts := congrArg List.reverse (List.take_append_drop guard.loopLineRepeats lines.reverse)
        rw [List.reverse_append, taken, List.reverse_replicate, List.reverse_reverse] at parts
        exact parts.symm

end Lines

section Found

/-- In ascending order the first element that passes is the least. -/
theorem find?_ascending {elements : List ℕ} (ascending : elements.Pairwise (· < ·))
    {passes : ℕ → Bool} {least : ℕ} : elements.find? passes = some least ↔
      least ∈ elements ∧ passes least = true ∧
        ∀ other ∈ elements, other < least → passes other = false := by
  rw [List.find?_eq_some_iff_append]
  constructor
  · rintro ⟨passed, before, after, rfl, failed⟩
    refine ⟨List.mem_append_right _ (.head _), passed, fun other member smaller => ?_⟩
    have apart := (List.pairwise_append.mp ascending).2.1
    rcases List.mem_append.mp member with early | late
    · have silent := failed other early
      rwa [Bool.not_eq_true'] at silent
    · rcases List.mem_cons.mp late with rfl | later
      · exact absurd smaller (lt_irrefl _)
      · exact absurd ((List.pairwise_cons.mp apart).1 other later) smaller.asymm
  · rintro ⟨member, passed, failed⟩
    obtain ⟨before, after, rfl⟩ := List.append_of_mem member
    refine ⟨passed, before, after, rfl, fun other early => ?_⟩
    have smaller := (List.pairwise_append.mp ascending).2.2 other early least (.head _)
    rw [failed other (List.mem_append_left _ early) smaller]
    rfl

/-- What holds of less when it holds of more is kept up to where it fails. -/
theorem mem_takeWhile_ascending {elements : List ℕ} (ascending : elements.Pairwise (· < ·))
    {keep : ℕ → Bool} (downward : ∀ small large, small < large → keep large = true →
      keep small = true) {element : ℕ} :
    element ∈ elements.takeWhile keep ↔ element ∈ elements ∧ keep element = true := by
  refine ⟨fun member => ⟨(List.takeWhile_prefix _).subset member,
    List.mem_takeWhile_imp member⟩, ?_⟩
  rintro ⟨member, kept⟩
  induction elements with
  | nil => exact absurd member List.not_mem_nil
  | cons first rest ih =>
      obtain ⟨smaller, ascending⟩ := List.pairwise_cons.mp ascending
      rcases List.mem_cons.mp member with rfl | later
      · rw [List.takeWhile_cons_of_pos kept]
        exact .head _
      · rw [List.takeWhile_cons_of_pos (downward first element (smaller element later) kept)]
        exact .tail _ (ih ascending later)

/-- The loop rules that the last of some lines completes. -/
def Loops (guard : Guard) (lines : List Str) : Prop :=
  LineLoop guard lines ∨ ∃ size, BlockLoop guard size lines

/-- What a finding says of the lines it was found at: their line loop, or their shortest block. -/
structure Shows (guard : Guard) (lines : List Str) (finding : Finding) : Prop where
  line : finding.line = lines.length
  unit : (LineLoop guard lines ∧ finding.kind = .line ∧ finding.blockLines = 1 ∧
      finding.repeats = guard.loopLineRepeats) ∨
    (¬ LineLoop guard lines ∧ finding.kind = .block ∧
      BlockLoop guard finding.blockLines lines ∧
      (∀ smaller < finding.blockLines, ¬ BlockLoop guard smaller lines) ∧
      finding.repeats = guard.loopBlockRepeats)

theorem Shows.loops {guard : Guard} {lines : List Str} {finding : Finding}
    (shown : Shows guard lines finding) : Loops guard lines := by
  rcases shown.unit with ⟨looped, -⟩ | ⟨-, -, looped, -⟩
  · exact .inl looped
  · exact .inr ⟨_, looped⟩

theorem blockSizes (guard : Guard) {size : ℕ} {lines : List Str} :
    size ∈ ((List.range' minBlockLines (guard.loopBlockMaxLines + 1 - minBlockLines)).takeWhile
        fun size => size * guard.loopBlockRepeats ≤ lines.length) ↔
      (minBlockLines ≤ size ∧ size ≤ guard.loopBlockMaxLines) ∧
        size * guard.loopBlockRepeats ≤ lines.length := by
  have sizes := guard.sizes
  rw [mem_takeWhile_ascending List.pairwise_lt_range', List.mem_range'_1, decide_eq_true_eq]
  · refine and_congr_left fun _ => ?_
    omega
  · intro small large smaller within
    rw [decide_eq_true_eq] at within ⊢
    exact (Nat.mul_le_mul_right _ smaller.le).trans within

theorem ascending_blockSizes (guard : Guard) (lines : List Str) :
    ((List.range' minBlockLines (guard.loopBlockMaxLines + 1 - minBlockLines)).takeWhile
      fun size => size * guard.loopBlockRepeats ≤ lines.length).Pairwise (· < ·) :=
  List.Pairwise.sublist (List.takeWhile_sublist _) List.pairwise_lt_range'

theorem loopFound_eq_none {guard : Guard} {lines : List Str} :
    loopFound guard lines (tailRun lines) = none ↔ ¬ Loops guard lines := by
  unfold loopFound
  rw [Loops, lineLoop_iff, not_or]
  split_ifs with looped
  · simp [looped]
  · rw [Option.map_eq_none_iff, List.find?_eq_none]
    simp only [looped, not_false_eq_true, true_and, not_exists, blockLoop_iff, blockSizes,
      decide_eq_true_eq]
    refine forall_congr' fun size => ?_
    tauto

/-- What is found where no shorter run looped is the loop the lines show. -/
theorem loopFound_eq_some {guard : Guard} {lines : List Str} {finding : Finding}
    (first : tailRun lines ≤ guard.loopLineRepeats)
    (found : loopFound guard lines (tailRun lines) = some finding) : Shows guard lines finding := by
  unfold loopFound at found
  split_ifs at found with looped
  · cases found
    exact ⟨rfl, .inl ⟨lineLoop_iff.mpr looped, rfl, rfl, first.antisymm looped⟩⟩
  · obtain ⟨size, passes, rfl⟩ := Option.map_eq_some_iff.mp found
    rw [find?_ascending (ascending_blockSizes guard lines)] at passes
    obtain ⟨member, passed, least⟩ := passes
    rw [blockSizes] at member
    rw [decide_eq_true_eq] at passed
    refine ⟨rfl, .inr ⟨mt lineLoop_iff.mp looped, rfl, ?_, fun smaller below block => ?_, rfl⟩⟩
    · exact blockLoop_iff.mpr ⟨member.1, member.2, passed⟩
    · obtain ⟨sized, spanned, passes⟩ := blockLoop_iff.mp block
      have failed := least smaller (blockSizes guard |>.mpr ⟨sized, spanned⟩) below
      rw [decide_eq_false_iff_not] at failed
      exact failed passes

end Found

section Judged

/-- A scanner that has judged some lines and found no loop at any of them. -/
structure Judged (guard : Guard) (lines : List Str) (scanner : LoopScanner) : Prop where
  kept : scanner.lines = lines
  run : scanner.run = tailRun lines
  silent : scanner.finding = none
  sound : ∀ count ≤ lines.length, ¬ Loops guard (lines.take count)

/-- A scanner that found the first loop of some lines. -/
structure Stopped (guard : Guard) (lines : List Str) (finding : Finding) : Prop where
  within : finding.line ≤ lines.length
  shown : Shows guard (lines.take finding.line) finding
  first : ∀ count < finding.line, ¬ Loops guard (lines.take count)

variable {guard : Guard} {lines : List Str} {scanner : LoopScanner}

theorem judged_start : Judged guard [] .start where
  kept := rfl
  run := rfl
  silent := rfl
  sound := by
    intro count _ looped
    rw [List.take_nil] at looped
    rcases looped with ⟨before, line, empty⟩ | ⟨size, ⟨least, -, before, block, sized, -, empty⟩⟩
    · have lines := guard.lines
      have size := congrArg List.length empty
      rw [List.length_append, List.length_replicate, List.length_nil] at size
      omega
    · have blocks := guard.blocks
      have size' := congrArg List.length empty
      rw [List.length_append, length_flatten_replicate, sized, List.length_nil] at size'
      have pos : 0 < guard.loopBlockRepeats * size := Nat.mul_pos (by omega) (by
        rw [minBlockLines] at least
        omega)
      omega

/-- One more line: it completes no loop, or the first one. -/
theorem Judged.add (judged : Judged guard lines scanner) (line : Str) :
    ((scanner.add guard line).finding = none ∧
        Judged guard (lines ++ [line]) (scanner.add guard line)) ∨
      ∃ finding, (scanner.add guard line).finding = some finding ∧
        finding.line = (lines ++ [line]).length ∧ Stopped guard (lines ++ [line]) finding := by
  have run : (scanner.add guard line).run = tailRun (lines ++ [line]) := by
    rw [tailRun_concat, ← judged.run, ← judged.kept]
    rfl
  have found : (scanner.add guard line).finding =
      loopFound guard (lines ++ [line]) (tailRun (lines ++ [line])) := by
    rw [← run, ← judged.kept]
    rfl
  have earlier : ∀ count < (lines ++ [line]).length, ¬ Loops guard ((lines ++ [line]).take count) := by
    intro count below
    rw [List.length_append, List.length_singleton, Nat.lt_succ_iff] at below
    rw [List.take_append_of_le_length below]
    exact judged.sound count below
  cases result : loopFound guard (lines ++ [line]) (tailRun (lines ++ [line])) with
  | none =>
      refine .inl ⟨found.trans result, ⟨congrArg (· ++ [line]) judged.kept, run,
        found.trans result, fun count within => ?_⟩⟩
      rcases within.lt_or_eq with below | rfl
      · exact earlier count below
      · rw [List.take_length]
        exact loopFound_eq_none.mp result
  | some finding =>
      refine .inr ⟨finding, found.trans result, ?_⟩
      have first : tailRun (lines ++ [line]) ≤ guard.loopLineRepeats := by
        have before : ¬ guard.loopLineRepeats ≤ tailRun lines := by
          have unlooped := judged.sound lines.length le_rfl
          rw [List.take_length] at unlooped
          exact fun often => unlooped (.inl (lineLoop_iff.mpr often))
        have lines := guard.lines
        rw [tailRun_concat]
        split_ifs <;> omega
      have shown := loopFound_eq_some first result
      have whole : (lines ++ [line]).take finding.line = lines ++ [line] := by
        rw [shown.line, List.take_length]
      exact ⟨shown.line, ⟨shown.line.le, by rwa [whole], by rwa [shown.line]⟩⟩

end Judged

end Verbatus.Repetition
