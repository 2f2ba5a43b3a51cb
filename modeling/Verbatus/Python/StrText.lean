import Mathlib.Data.List.TakeWhile
import Verbatus.Python.CodePoint
import Verbatus.Python.Text

namespace Verbatus.Python

/-- `character.isspace()`; no surrogate is white space. -/
def CodePoint.isSpace : CodePoint → Bool
  | scalar character => Python.isSpace character
  | surrogate _ => false

namespace Str

/-- The string of a text, which holds no surrogate. -/
def ofString (text : String) : Str := ofChars text.toList

/-- `text.strip()` -/
def strip (text : Str) : Str :=
  ((text.dropWhile CodePoint.isSpace).reverse.dropWhile CodePoint.isSpace).reverse

/-- `text[start:stop]` -/
def slice (text : Str) (start stop : ℕ) : Str := (text.take stop).drop start

/-- A stretch that follows a known beginning. -/
theorem slice_append (before middle after : Str) :
    slice (before ++ (middle ++ after)) before.length (before.length + middle.length) = middle := by
  rw [slice, ← List.append_assoc, ← List.length_append, List.take_left, List.drop_left]

theorem length_slice {text : Str} {start stop : ℕ} (within : stop ≤ text.length) :
    (slice text start stop).length = stop - start := by
  rw [slice, List.length_drop, List.length_take_of_le within]

theorem slice_append_drop (text : Str) {start stop : ℕ} (ordered : start ≤ stop) :
    slice text start stop ++ text.drop stop = text.drop start := by
  have later : text.drop stop = (text.drop start).drop (stop - start) := by
    rw [List.drop_drop, Nat.add_sub_cancel' ordered]
  rw [slice, List.drop_take, later]
  exact List.take_append_drop _ _

theorem strip_eq_nil {text : Str} : text.strip = [] ↔ ∀ point ∈ text, point.isSpace = true := by
  rw [strip, List.reverse_eq_nil_iff, List.dropWhile_eq_nil_iff]
  simp only [List.mem_reverse]
  constructor
  · intro trimmed
    rw [← List.dropWhile_eq_nil_iff]
    by_contra some
    have first := List.head_dropWhile_not CodePoint.isSpace some
    exact absurd (trimmed _ (List.head_mem some)) (by simp [first])
  · intro blank point member
    exact blank point (List.dropWhile_subset _ member)

/-- `text.find(needle, cursor)` -/
def find (text needle : Str) (cursor : ℕ) : Option ℕ :=
  (List.range (text.length + 1)).find? fun start => cursor ≤ start ∧ needle <+: text.drop start

theorem find_of_le {text needle : Str} {cursor start : ℕ} (nonempty : needle ≠ [])
    (order : cursor ≤ start) (here : needle <+: text.drop start) :
    ∃ found, text.find needle cursor = some found ∧ found ≤ start := by
  have pos := List.length_pos_of_ne_nil nonempty
  have within := here.length_le
  rw [List.length_drop] at within
  cases found : text.find needle cursor with
  | none =>
      rw [find, List.find?_eq_none] at found
      exact absurd (decide_eq_true ⟨order, here⟩) (found start (List.mem_range.mpr (by omega)))
  | some first =>
      refine ⟨first, rfl, ?_⟩
      by_contra later
      rw [find, List.find?_range_eq_some] at found
      have missed := found.2.2 start (by omega)
      rw [Bool.not_eq_true', decide_eq_false_iff_not] at missed
      exact missed ⟨order, here⟩

theorem find_eq_some {text needle : Str} {cursor start : ℕ}
    (found : text.find needle cursor = some start) :
    cursor ≤ start ∧ needle <+: text.drop start := by
  have here := List.find?_some found
  rwa [decide_eq_true_eq] at here

/-- A text found once from a cursor on, and not again after it, stands there only. -/
theorem find_unique {text needle : Str} {cursor start other : ℕ} (nonempty : needle ≠ [])
    (found : text.find needle cursor = some start) (last : text.find needle (start + 1) = none)
    (order : cursor ≤ other) (here : needle <+: text.drop other) : other = start := by
  obtain ⟨first, same, before⟩ := find_of_le nonempty order here
  rw [found, Option.some.injEq] at same
  rcases (same ▸ before).eq_or_lt with equal | after
  · exact equal.symm
  · obtain ⟨again, another, -⟩ := find_of_le nonempty after here
    rw [last] at another
    cases another

end Str

end Verbatus.Python
