import Mathlib.Data.List.Lex
import Verbatus.DoubtMarks.Reading
import Verbatus.Library.Sorting

namespace Verbatus.DoubtMarks

open Library Library.Checked Refusal Python CodePoint

section Weaving

/-- What is written into a text at an offset: a gap's mark is of kind 0 and a span's of kind 1, and
a tie is broken by a third number. -/
structure Insert where
  start : ℕ
  kind : ℕ
  tie : ℕ
  shown : Str
  deriving DecidableEq

/-- Inserts are ordered as the tuples of their fields. -/
def Insert.key (insert : Insert) : ℕ ×ₗ ℕ ×ₗ ℕ ×ₗ Str :=
  toLex (insert.start, toLex (insert.kind, toLex (insert.tie, insert.shown)))

theorem Insert.key_injective : Function.Injective Insert.key := by
  intro first second same
  cases first
  cases second
  simp only [Insert.key, toLex_inj, Prod.mk.injEq] at same
  simp [same]

theorem Insert.key_le_iff {first second : Insert} : first.key ≤ second.key ↔
    first.start < second.start ∨ first.start = second.start ∧
      (first.kind < second.kind ∨ first.kind = second.kind ∧
        (first.tie < second.tie ∨ first.tie = second.tie ∧ first.shown ≤ second.shown)) := by
  simp only [Insert.key, Prod.Lex.toLex_le_toLex]

/-- The text from a cursor on with the inserts written into it, each of which takes the place of
the text up to its stop; inserts that overlap are refused. -/
def weave (stop : Insert → ℕ) (overlap : Refusal) (text : Str) :
    ℕ → List Insert → Except Refusal Str
  | cursor, [] => .ok (text.drop cursor)
  | cursor, insert :: inserts => do
    require (cursor ≤ insert.start) overlap
    let rest ← weave stop overlap text (stop insert) inserts
    .ok (text.slice cursor insert.start ++ insert.shown ++ rest)

end Weaving

section Tokens

variable (tie : ℕ → ℕ → ℕ) (gapShown : Str) (written : Str → List Str → Str)

/-- The inserts of some tokens in their order: `tie` numbers a gap by its index and its offset. -/
def insertsFrom (offset index : ℕ) : List Token → List Insert
  | [] => []
  | .plain _ :: tokens => insertsFrom (offset + 1) index tokens
  | .gap :: tokens => ⟨offset, 0, tie index offset, gapShown⟩ :: insertsFrom offset (index + 1) tokens
  | .doubt marked :: tokens =>
      ⟨offset, 1, offset + marked.reading.length, written marked.reading marked.alternatives⟩ ::
        insertsFrom (offset + marked.reading.length) index tokens

/-- A token with its doubt written out. -/
def Token.shown : Token → Str
  | plain point => [point]
  | gap => gapShown
  | doubt marked => written marked.reading marked.alternatives

def gapInsert (gap : ℕ × ℕ) : Insert := ⟨gap.1, 0, tie gap.2 gap.1, gapShown⟩

def spanInsert (text : Str) (span : Span) : Insert :=
  ⟨span.start, 1, span.stop, written (text.slice span.start span.stop) span.alternatives⟩

variable {tie gapShown written}

/-- A later insert is not before the text is, nor is a gap's among those of earlier gaps. -/
theorem mem_insertsFrom {insert : Insert} {offset index : ℕ} {tokens : List Token}
    (listed : insert ∈ insertsFrom tie gapShown written offset index tokens) :
    offset ≤ insert.start ∧ (insert.kind = 0 ∧ insert.shown = gapShown ∧
      (∃ later, index ≤ later ∧ insert.tie = tie later insert.start) ∨ insert.kind = 1) := by
  induction tokens generalizing offset index with
  | nil => exact absurd listed List.not_mem_nil
  | cons token tokens ih =>
      cases token with
      | plain point =>
          obtain ⟨after, kind⟩ := @ih (offset + 1) index listed
          exact ⟨by omega, kind⟩
      | gap =>
          rcases List.mem_cons.mp listed with rfl | listed
          · exact ⟨le_rfl, .inl ⟨rfl, rfl, index, le_rfl, rfl⟩⟩
          · obtain ⟨after, ⟨kind, same, later, order, tied⟩ | kind⟩ := ih listed
            · exact ⟨after, .inl ⟨kind, same, later, by omega, tied⟩⟩
            · exact ⟨after, .inr kind⟩
      | doubt marked =>
          rcases List.mem_cons.mp listed with rfl | listed
          · exact ⟨le_rfl, .inr rfl⟩
          · obtain ⟨after, kind⟩ := ih listed
            exact ⟨by omega, kind⟩

/-- The inserts of some tokens are in order. -/
theorem insertsFrom_pairwise (monotone : ∀ offset, Monotone fun index => tie index offset)
    (offset index : ℕ) (tokens : List Token) :
    (insertsFrom tie gapShown written offset index tokens).Pairwise
      fun first second => first.key ≤ second.key := by
  induction tokens generalizing offset index with
  | nil => exact .nil
  | cons token tokens ih =>
      cases token with
      | plain point => exact ih _ _
      | gap =>
          refine .cons ?_ (ih _ _)
          intro insert listed
          rw [Insert.key_le_iff]
          obtain ⟨after, ⟨kind, same, later, order, tied⟩ | kind⟩ := mem_insertsFrom listed
          · rcases after.lt_or_eq with before | together
            · exact .inl before
            · have least := monotone offset (by omega : index ≤ later)
              rw [← together] at tied
              refine .inr ⟨together, .inr ⟨kind.symm, ?_⟩⟩
              rw [tied]
              exact least.lt_or_eq.imp id fun equal => ⟨equal, same.ge⟩
          · rcases after.lt_or_eq with before | together
            · exact .inl before
            · exact .inr ⟨together, .inl (by rw [kind]; exact Nat.zero_lt_one)⟩
      | doubt marked =>
          refine .cons ?_ (ih _ _)
          intro insert listed
          have pos := List.length_pos_of_ne_nil marked.named.1
          have after := (mem_insertsFrom listed).1
          exact Insert.key_le_iff.mpr (.inl (by change offset < _; omega))

/-- The inserts of some tokens are those of their gaps and those of their doubtful readings. -/
theorem insertsFrom_perm (before : Str) (index : ℕ) (tokens : List Token) :
    (insertsFrom tie gapShown written before.length index tokens).Perm
      (((gapOffsetsFrom before.length tokens).zipIdx index).map (gapInsert tie gapShown) ++
        (spansFrom before.length tokens).map (spanInsert written (before ++ textOf tokens))) := by
  induction tokens generalizing before index with
  | nil => exact .nil
  | cons token tokens ih =>
      cases token with
      | plain point =>
          have later := ih (before ++ [point]) index
          rw [List.length_append, List.append_assoc] at later
          exact later
      | gap => exact (ih before (index + 1)).cons _
      | doubt marked =>
          have later := ih (before ++ marked.reading) index
          rw [List.length_append, List.append_assoc] at later
          have here : spanInsert written (before ++ (marked.reading ++ textOf tokens))
              ⟨before.length, before.length + marked.reading.length, marked.alternatives, .low⟩ =
              ⟨before.length, 1, before.length + marked.reading.length,
                written marked.reading marked.alternatives⟩ := by
            rw [spanInsert, Str.slice_append]
          rw [textOf_cons, insertsFrom, spansFrom, List.map_cons]
          change (Insert.mk _ _ _ _ :: _).Perm (_ ++ spanInsert written
            (before ++ (marked.reading ++ textOf tokens)) _ :: _)
          rw [here]
          exact (later.cons _).trans List.perm_middle.symm

/-- Tokens are written out by weaving the inserts of them into their text. -/
theorem weave_insertsFrom {stop : Insert → ℕ} {overlap : Refusal}
    (gapStop : ∀ offset index, stop ⟨offset, 0, tie index offset, gapShown⟩ = offset)
    (spanStop : ∀ start after shown, stop ⟨start, 1, after, shown⟩ = after)
    (before middle : Str) (index : ℕ) (tokens : List Token) :
    weave stop overlap (before ++ middle ++ textOf tokens) before.length
      (insertsFrom tie gapShown written (before.length + middle.length) index tokens) =
      .ok (middle ++ tokens.flatMap (Token.shown gapShown written)) := by
  induction tokens generalizing before middle index with
  | nil =>
      rw [insertsFrom, weave, textOf_nil, List.append_nil, List.drop_left, List.flatMap_nil,
        List.append_nil]
  | cons token tokens ih =>
      rw [textOf_cons, List.flatMap_cons]
      cases token with
      | plain point =>
          have later := ih before (middle ++ [point]) index
          rw [List.length_append, ← Nat.add_assoc] at later
          simp only [List.append_assoc] at later ⊢
          exact later
      | gap =>
          have later := ih (before ++ middle) [] (index + 1)
          rw [List.append_nil, List.length_append, List.length_nil, Nat.add_zero] at later
          rw [insertsFrom, weave, require_bind_of (Nat.le_add_right _ _), gapStop]
          change weave _ _ (before ++ middle ++ textOf tokens) _ _ >>= _ = _
          rw [later, ok_bind]
          change Except.ok (Str.slice (before ++ middle ++ textOf tokens) _ _ ++ _ ++ _) = _
          rw [List.append_assoc before, Str.slice_append, List.append_assoc]
          rfl
      | doubt marked =>
          have later := ih (before ++ middle ++ marked.reading) [] index
          simp only [List.append_nil, List.length_append, List.length_nil, Nat.add_zero] at later
          rw [insertsFrom, weave, require_bind_of (Nat.le_add_right _ _), spanStop]
          change weave _ _ (before ++ middle ++ (marked.reading ++ textOf tokens)) _ _ >>= _ = _
          rw [← List.append_assoc _ marked.reading, later, ok_bind]
          simp only [List.append_assoc]
          rw [Str.slice_append]
          rfl

/-- Tokens are written out by weaving the inserts of their gaps and spans, in order, into their
text. -/
theorem weave_tokens {stop : Insert → ℕ} {overlap : Refusal}
    (monotone : ∀ offset, Monotone fun index => tie index offset)
    (gapStop : ∀ offset index, stop ⟨offset, 0, tie index offset, gapShown⟩ = offset)
    (spanStop : ∀ start after shown, stop ⟨start, 1, after, shown⟩ = after)
    (tokens : List Token) :
    weave stop overlap (textOf tokens) 0 (sortBy Insert.key
      ((gapOffsetsFrom 0 tokens).zipIdx.map (gapInsert tie gapShown) ++
        (spansFrom 0 tokens).map (spanInsert written (textOf tokens)))) =
      .ok (tokens.flatMap (Token.shown gapShown written)) := by
  have same := @insertsFrom_perm tie gapShown written [] 0 tokens
  have sorted := (sortBy_congr same.symm Insert.key_injective).trans
    (sortBy_of_pairwise _ (insertsFrom_pairwise monotone _ _ _))
  refine (congrArg (weave stop overlap (textOf tokens) 0) sorted).trans ?_
  exact weave_insertsFrom gapStop spanStop [] [] 0 tokens

end Tokens

end Verbatus.DoubtMarks
