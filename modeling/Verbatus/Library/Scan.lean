import Mathlib.Data.List.Basic
import Mathlib.Tactic

namespace Verbatus.Library

variable {α : Type}

/-- Where a pattern matches at the head of a text. A match is not empty, it stays inside the text,
and what follows it has no say in it. -/
structure Pattern (α : Type) where
  matchAt : List α → Option ℕ
  pos : ∀ {text : List α} {length : ℕ}, matchAt text = some length → 0 < length
  inside : ∀ {text : List α} {length : ℕ}, matchAt text = some length → length ≤ text.length
  ahead : ∀ {text : List α} (rest : List α) {length : ℕ}, length ≤ text.length →
    (matchAt (text ++ rest) = some length ↔ matchAt text = some length)

/-- A piece of a scanned text: an element outside every match, or a match. -/
inductive Piece (α : Type) where
  | plain (element : α)
  | found (text : List α)
  deriving DecidableEq

def Piece.text : Piece α → List α
  | plain element => [element]
  | found text => text

namespace Pattern

variable (pattern : Pattern α)

/-- The pieces of a text, whose matches are the leftmost ones and do not overlap. -/
def scanFrom : ℕ → List α → List (Piece α)
  | _, [] => []
  | skip + 1, _ :: rest => scanFrom skip rest
  | 0, first :: rest => match pattern.matchAt (first :: rest) with
    | some length => .found ((first :: rest).take length) :: scanFrom (length - 1) rest
    | none => .plain first :: scanFrom 0 rest

def scan (text : List α) : List (Piece α) := pattern.scanFrom 0 text

/-- The stretches of a text between its matches, after one already begun. -/
def stretches (begun : List α) : List (Piece α) → List (List α)
  | [] => [begun]
  | .plain element :: rest => stretches (begun ++ [element]) rest
  | .found _ :: rest => begun :: stretches [] rest

def split (text : List α) : List (List α) := stretches [] (pattern.scan text)

variable {pattern}

theorem scanFrom_eq (skip : ℕ) (text : List α) :
    pattern.scanFrom skip text = pattern.scan (text.drop skip) := by
  induction skip generalizing text with
  | zero => rfl
  | succ skip ih =>
      cases text with
      | nil => rfl
      | cons first rest => exact ih rest

@[simp] theorem scan_nil : pattern.scan [] = [] := rfl

theorem scan_plain {first : α} {rest : List α} (none : pattern.matchAt (first :: rest) = none) :
    pattern.scan (first :: rest) = .plain first :: pattern.scan rest := by
  rw [scan, scanFrom, none]
  rfl

theorem scan_found {text : List α} {length : ℕ} (found : pattern.matchAt text = some length) :
    pattern.scan text = .found (text.take length) :: pattern.scan (text.drop length) := by
  have pos := pattern.pos found
  cases text with
  | nil => exact absurd (pattern.inside found) (by simpa using pos.ne')
  | cons first rest =>
      rw [scan, scanFrom, found]
      dsimp only
      rw [scanFrom_eq]
      obtain ⟨before, rfl⟩ := Nat.exists_eq_add_of_lt pos
      simp

/-- A scan goes over a text an element or a match at a time. -/
theorem induction {motive : List α → Prop} (nil : motive [])
    (plain : ∀ first rest, pattern.matchAt (first :: rest) = none → motive rest →
      motive (first :: rest))
    (found : ∀ text length, pattern.matchAt text = some length → motive (text.drop length) →
      motive text) (text : List α) : motive text := by
  induction size : text.length using Nat.strong_induction_on generalizing text with
  | _ size ih =>
      cases text with
      | nil => exact nil
      | cons first rest =>
          cases matched : pattern.matchAt (first :: rest) with
          | none =>
              exact plain first rest matched (ih rest.length (by rw [← size]; simp) rest rfl)
          | some length =>
              have pos := pattern.pos matched
              refine found _ length matched (ih _ ?_ _ rfl)
              rw [List.length_drop, size, ← size, List.length_cons]
              omega

/-- The pieces of a text put together again are the text. -/
@[simp] theorem scan_text (text : List α) : (pattern.scan text).flatMap Piece.text = text := by
  induction text using pattern.induction with
  | nil => rfl
  | plain first rest none ih =>
      rw [scan_plain none, List.flatMap_cons, ih]
      rfl
  | found text length found ih =>
      rw [scan_found found, List.flatMap_cons, ih]
      exact List.take_append_drop length text

/-- A text cut between two of its pieces has the pieces of its two parts. -/
theorem scan_cut {first second : List α} {before after : List (Piece α)}
    (whole : pattern.scan (first ++ second) = before ++ after)
    (cut : before.flatMap Piece.text = first) :
    pattern.scan first = before ∧ pattern.scan second = after := by
  induction before generalizing first with
  | nil =>
      subst cut
      exact ⟨rfl, whole⟩
  | cons piece before ih =>
      rw [List.flatMap_cons] at cut
      generalize tail_eq : before.flatMap Piece.text = tail at cut
      rw [List.cons_append] at whole
      cases matched : pattern.matchAt (first ++ second) with
      | some length =>
          rw [scan_found matched, List.cons.injEq] at whole
          obtain ⟨head, whole⟩ := whole
          have text : piece.text = (first ++ second).take length := by
            rw [← head]
            rfl
          have size : piece.text.length = length := by
            rw [text, List.length_take, min_eq_left (pattern.inside matched)]
          have within : length ≤ first.length := by
            rw [← cut, List.length_append, size]
            exact Nat.le_add_right _ _
          have alone := (pattern.ahead second within).mp matched
          have dropped : first.drop length = tail := by
            rw [← cut, ← size, List.drop_left]
          rw [List.drop_append_of_le_length within, dropped] at whole
          rw [scan_found alone, dropped, ← head, List.take_append_of_le_length within]
          obtain ⟨left, right⟩ := ih whole tail_eq
          exact ⟨by rw [left], right⟩
      | none =>
          cases piece with
          | found text =>
              cases joined : first ++ second with
              | nil => simp [joined] at whole
              | cons element rest =>
                  rw [joined] at whole matched
                  simp [scan_plain matched] at whole
          | plain element =>
              subst cut
              have alone : pattern.matchAt (element :: tail) = none := by
                cases early : pattern.matchAt (element :: tail) with
                | none => rfl
                | some length =>
                    rw [show Piece.text (.plain element) ++ tail = element :: tail from rfl,
                      (pattern.ahead second (pattern.inside early)).mpr early] at matched
                    cases matched
              change pattern.matchAt (element :: (tail ++ second)) = none at matched
              change pattern.scan (element :: (tail ++ second)) = _ at whole
              rw [scan_plain matched, List.cons.injEq] at whole
              obtain ⟨left, right⟩ := ih whole.2 tail_eq
              refine ⟨?_, right⟩
              change pattern.scan (element :: tail) = _
              rw [scan_plain alone, left]

/-- A match that a scan finds is one by itself. -/
theorem matchAt_of_mem_scan {text found : List α} (listed : .found found ∈ pattern.scan text) :
    pattern.matchAt found = some found.length := by
  induction text using pattern.induction with
  | nil => simp at listed
  | plain first rest none ih =>
      rw [scan_plain none, List.mem_cons] at listed
      exact ih (listed.resolve_left (by simp))
  | found text length matched ih =>
      rw [scan_found matched, List.mem_cons] at listed
      rcases listed with same | later
      · have size : (text.take length).length = length :=
          List.length_take_of_le (pattern.inside matched)
        rw [Piece.found.injEq] at same
        rw [same, size]
        refine (pattern.ahead (text.drop length) size.ge).mp ?_
        rwa [List.take_append_drop]
      · exact ih later

/-- A text has no match, or a first one. -/
theorem scan_cases (text : List α) : pattern.scan text = text.map .plain ∨
    ∃ before found after, text = before ++ found ++ after ∧ found ≠ [] ∧
      pattern.scan text = before.map .plain ++ .found found :: pattern.scan after := by
  induction text using pattern.induction with
  | nil => exact .inl rfl
  | plain first rest none ih =>
      rw [scan_plain none]
      rcases ih with same | ⟨before, found, after, rfl, some, same⟩
      · exact .inl (by rw [same, List.map_cons])
      · exact .inr ⟨first :: before, found, after, rfl, some, by rw [same]; rfl⟩
  | found text length matched ih =>
      refine .inr ⟨[], text.take length, text.drop length, ?_, ?_, scan_found matched⟩
      · rw [List.nil_append, List.take_append_drop]
      · have size : (text.take length).length = length :=
          List.length_take_of_le (pattern.inside matched)
        exact List.ne_nil_of_length_pos (by rw [size]; exact pattern.pos matched)

/-- A match that reaches past a text begins where nothing in the text matches. -/
def Closes (pattern : Pattern α) : Prop :=
  ∀ text rest length, pattern.matchAt (text ++ rest) = some length → text.length < length →
    pattern.scan text = text.map .plain

theorem matchAt_append {text : List α} {length : ℕ} (found : pattern.matchAt text = some length)
    (rest : List α) : pattern.matchAt (text ++ rest) = some length :=
  (pattern.ahead rest (pattern.inside found)).mpr found

/-- A scan that begins with a match has it at the head of the text. -/
theorem matchAt_of_scan {found after : List α} {pieces : List (Piece α)}
    (whole : pattern.scan (found ++ after) = .found found :: pieces) :
    pattern.matchAt found = some found.length := by
  cases matched : pattern.matchAt (found ++ after) with
  | none =>
      cases joined : found ++ after with
      | nil => simp [joined] at whole
      | cons first rest =>
          rw [joined] at whole matched
          simp [scan_plain matched] at whole
  | some length =>
      rw [scan_found matched, List.cons.injEq, Piece.found.injEq] at whole
      have size := congrArg List.length whole.1
      rw [List.length_take, min_eq_left (pattern.inside matched)] at size
      rw [← size]
      exact (pattern.ahead after size.le).mp matched

/-- What follows a text changes none of the matches it has. -/
theorem Closes.scan_append (closes : Closes pattern) {before found after : List α}
    (whole : pattern.scan (before ++ found ++ after) =
      before.map .plain ++ .found found :: pattern.scan after) (rest : List α) :
    pattern.scan (before ++ found ++ (after ++ rest)) =
      before.map .plain ++ .found found :: pattern.scan (after ++ rest) := by
  induction before with
  | nil =>
      have matched := matchAt_append (matchAt_of_scan whole) (after ++ rest)
      rw [scan_found matched, List.take_left, List.drop_left]
      rfl
  | cons first before ih =>
      simp only [List.cons_append, List.map_cons] at whole ⊢
      cases matched : pattern.matchAt (first :: (before ++ found ++ after)) with
      | some length =>
          rw [scan_found matched] at whole
          cases whole
      | none =>
          rw [scan_plain matched, List.cons.injEq] at whole
          have later : pattern.matchAt (first :: (before ++ found ++ (after ++ rest))) = none := by
            cases early : pattern.matchAt (first :: (before ++ found ++ (after ++ rest))) with
            | none => rfl
            | some length =>
                have joined : first :: (before ++ found ++ (after ++ rest)) =
                    first :: (before ++ found ++ after) ++ rest := by simp
                rw [joined] at early
                by_cases within : length ≤ (first :: (before ++ found ++ after)).length
                · rw [(pattern.ahead rest within).mp early] at matched
                  cases matched
                · have silent := closes _ _ _ early (not_le.mp within)
                  rw [scan_plain matched, whole.2] at silent
                  have listed : Piece.found found ∈ (before.map .plain ++
                      .found found :: pattern.scan after : List (Piece α)) :=
                    List.mem_append_right _ (.head _)
                  rw [(List.cons.inj silent).2] at listed
                  simp at listed
          rw [scan_plain later, ih whole.2]

theorem stretches_plain (begun text : List α) (rest : List (Piece α)) :
    stretches begun (text.map .plain ++ rest) = stretches (begun ++ text) rest := by
  induction text generalizing begun with
  | nil => rw [List.append_nil]; rfl
  | cons first text ih =>
      rw [List.map_cons, List.cons_append, stretches, ih, List.append_assoc]
      rfl

theorem split_cases (text : List α) : pattern.split text = [text] ∨
    ∃ before found after, text = before ++ found ++ after ∧ found ≠ [] ∧
      pattern.scan text = before.map .plain ++ .found found :: pattern.scan after ∧
      pattern.split text = before :: pattern.split after := by
  rcases pattern.scan_cases text with same | ⟨before, found, after, whole, some, same⟩
  · refine .inl ?_
    have plain := stretches_plain [] text []
    rw [List.append_nil] at plain
    rw [split, same, plain]
    rfl
  · refine .inr ⟨before, found, after, whole, some, same, ?_⟩
    rw [split, same, stretches_plain]
    rfl

theorem split_ne_nil (text : List α) : pattern.split text ≠ [] := by
  rcases pattern.split_cases text with same | ⟨before, found, after, -, -, -, same⟩
  · rw [same]
    exact List.cons_ne_nil _ _
  · rw [same]
    exact List.cons_ne_nil _ _

/-- Splitting a text piece by piece: only its last stretch waits for what follows. -/
theorem Closes.split_append (closes : Closes pattern) (text rest : List α) :
    pattern.split (text ++ rest) = (pattern.split text).dropLast ++
      pattern.split ((pattern.split text).getLast (split_ne_nil text) ++ rest) := by
  induction size : text.length using Nat.strong_induction_on generalizing text with
  | _ total ih =>
      rcases pattern.split_cases text with same | ⟨before, found, after, rfl, some, whole, same⟩
      · simp only [same, List.dropLast_singleton, List.nil_append, List.getLast_singleton]
      · have shorter : after.length < total := by
          have pos := List.length_pos_of_ne_nil some
          rw [← size]
          simp only [List.length_append]
          omega
        have later := closes.scan_append whole rest
        have split : pattern.split (before ++ found ++ after ++ rest) =
            before :: pattern.split (after ++ rest) := by
          rw [List.append_assoc _ after rest, Pattern.split, later, stretches_plain]
          rfl
        simp only [split, same, List.dropLast_cons_of_ne_nil (split_ne_nil after),
          List.getLast_cons (split_ne_nil after), List.cons_append]
        rw [← ih after.length shorter after rfl]

/-- A text none of whose tails begins with a match has none. -/
theorem scan_of_silent {text : List α}
    (silent : ∀ tail, tail <:+ text → pattern.matchAt tail = none) :
    pattern.scan text = text.map .plain := by
  induction text with
  | nil => rfl
  | cons first rest ih =>
      rw [scan_plain (silent _ (List.suffix_refl _)), List.map_cons]
      rw [ih fun tail inside => silent tail (inside.trans (List.suffix_cons first rest))]

section Literals

variable [DecidableEq α] {words : List (List α)}

/-- How long the word is that a text begins with. -/
def literalAt (words : List (List α)) (text : List α) : Option ℕ :=
  (words.find? fun word => word <+: text).map List.length

theorem literalAt_eq_some {text : List α} {length : ℕ}
    (matched : literalAt words text = some length) :
    ∃ word ∈ words, word <+: text ∧ word.length = length := by
  obtain ⟨word, found, size⟩ := Option.map_eq_some_iff.mp matched
  have begins := List.find?_some found
  rw [decide_eq_true_eq] at begins
  exact ⟨word, List.mem_of_find?_eq_some found, begins, size⟩

theorem literalAt_of_prefix
    (apart : ∀ word ∈ words, ∀ other ∈ words, word <+: other → word = other) {text word : List α}
    (member : word ∈ words) (begins : word <+: text) :
    literalAt words text = some word.length := by
  cases matched : literalAt words text with
  | none =>
      rw [literalAt, Option.map_eq_none_iff, List.find?_eq_none] at matched
      exact absurd (decide_eq_true begins) (matched word member)
  | some length =>
      obtain ⟨other, listed, also, rfl⟩ := literalAt_eq_some matched
      rcases List.prefix_or_prefix_of_prefix begins also with one | one
      · rw [apart word member other listed one]
      · rw [apart other listed word member one]

/-- The pattern of some words, none of them empty or the beginning of another. -/
def literals (words : List (List α)) (nonempty : [] ∉ words)
    (apart : ∀ word ∈ words, ∀ other ∈ words, word <+: other → word = other) : Pattern α where
  matchAt := literalAt words
  pos := by
    intro text length matched
    obtain ⟨word, member, -, rfl⟩ := literalAt_eq_some matched
    refine List.length_pos_of_ne_nil ?_
    rintro rfl
    exact nonempty member
  inside := by
    intro text length matched
    obtain ⟨word, -, begins, rfl⟩ := literalAt_eq_some matched
    exact begins.length_le
  ahead := by
    intro text rest length within
    constructor
    · intro matched
      obtain ⟨word, member, begins, rfl⟩ := literalAt_eq_some matched
      exact literalAt_of_prefix apart member
        (List.prefix_of_prefix_length_le begins (List.prefix_append _ _) within)
    · intro matched
      obtain ⟨word, member, begins, rfl⟩ := literalAt_eq_some matched
      exact literalAt_of_prefix apart member (begins.trans (List.prefix_append _ _))

/-- Words that are not inside one another close at their ends. -/
theorem literals_closes (nonempty : [] ∉ words)
    (apart : ∀ word ∈ words, ∀ other ∈ words, word <+: other → word = other)
    (inner : ∀ word ∈ words, ∀ other ∈ words, ¬ word <:+: other.dropLast) :
    (literals words nonempty apart).Closes := by
  intro text rest length matched beyond
  obtain ⟨word, member, begins, rfl⟩ := literalAt_eq_some matched
  have within : text <+: word.dropLast := by
    obtain ⟨left, whole⟩ : text <+: word :=
      List.prefix_of_prefix_length_le (List.prefix_append _ _) begins beyond.le
    have some_left : left ≠ [] := by
      rintro rfl
      rw [← whole, List.append_nil] at beyond
      exact lt_irrefl _ beyond
    rw [← whole, List.dropLast_append_of_ne_nil some_left]
    exact List.prefix_append _ _
  apply scan_of_silent
  intro tail inside
  cases early : (literals words nonempty apart).matchAt tail with
  | none => rfl
  | some length =>
      obtain ⟨other, listed, opens, -⟩ := literalAt_eq_some early
      exact absurd ((opens.isInfix.trans inside.isInfix).trans within.isInfix)
        (inner other listed word member)

end Literals

end Pattern

end Verbatus.Library
