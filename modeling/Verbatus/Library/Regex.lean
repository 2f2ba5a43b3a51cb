import Mathlib.Data.List.Infix
import Mathlib.Tactic
import Verbatus.Library.Scan

namespace Verbatus.Library

/-- A pattern of a backtracking matcher: the first way to match is the one that is taken. -/
inductive Regex (α : Type) where
  | empty
  | one (accepts : α → Bool)
  | seq (first second : Regex α)
  | either (first second : Regex α)
  | optional (inner : Regex α)
  | many (accepts : α → Bool)
  | fewest (accepts : α → Bool)
  | notAhead (inner : Regex α)

namespace Regex

section Matching

variable {α : Type}

/-- What follows a run that is taken as long as it goes, the longest run first. -/
@[grind =] def afterMany (accepts : α → Bool) : List α → List (List α)
  | [] => [[]]
  | first :: rest =>
    if accepts first then afterMany accepts rest ++ [first :: rest] else [first :: rest]

/-- What follows a run that is taken as short as it goes, the shortest run first. -/
@[grind =] def afterFewest (accepts : α → Bool) : List α → List (List α)
  | [] => [[]]
  | first :: rest =>
    (first :: rest) :: if accepts first then afterFewest accepts rest else []

/-- What is left of a text after each way to match at its head, the first choice first. -/
@[grind =] def rests : Regex α → List α → List (List α)
  | empty, text => [text]
  | one _, [] => []
  | one accepts, first :: rest => if accepts first then [rest] else []
  | seq first second, text => (first.rests text).flatMap second.rests
  | either first second, text => first.rests text ++ second.rests text
  | optional inner, text => inner.rests text ++ [text]
  | many accepts, text => afterMany accepts text
  | fewest accepts, text => afterFewest accepts text
  | notAhead inner, text => if inner.rests text = [] then [text] else []

/-- What is left of a text after its match at the head. -/
@[grind =] def after (pattern : Regex α) (text : List α) : Option (List α) := (pattern.rests text).head?

/-- At least one. -/
def oneOrMore (accepts : α → Bool) : Regex α := seq (one accepts) (many accepts)

end Matching

section Scanning

variable {α : Type} (pattern : Regex α)

/-- The pieces of a text, whose matches are the leftmost ones and do not overlap; the count is of
the elements that still belong to the last match. -/
@[grind =] def scanFrom : ℕ → List α → List (Piece α)
  | _, [] => []
  | skip + 1, _ :: rest => scanFrom skip rest
  | 0, first :: rest =>
    match pattern.after (first :: rest) with
    | some left =>
      if left.length ≤ rest.length then
        .found ((first :: rest).take (rest.length + 1 - left.length)) ::
          scanFrom (rest.length - left.length) rest
      else .plain first :: scanFrom 0 rest
    | none => .plain first :: scanFrom 0 rest

def scan (text : List α) : List (Piece α) := pattern.scanFrom 0 text

/-- Each match with the text in front of it, and the text after the last one. -/
@[grind =] def between : List α → List (Piece α) → List (List α × List α) × List α
  | begun, [] => ([], begun)
  | begun, .plain element :: pieces => between (begun ++ [element]) pieces
  | begun, .found text :: pieces =>
    let later := between [] pieces
    ((begun, text) :: later.1, later.2)

/-- `pattern.finditer(text)`, with the text around its matches. -/
def split (text : List α) : List (List α × List α) × List α := between [] (pattern.scan text)

/-- `pattern.subn(replace, text)` -/
def subn (replace : List α → List α) (text : List α) : List α × ℕ :=
  let pieces := pattern.scan text
  (pieces.flatMap fun
    | .plain element => [element]
    | .found token => replace token,
  pieces.countP fun
    | .plain _ => false
    | .found _ => true)

end Scanning

section Words

variable {α : Type} [DecidableEq α]

def char (element : α) : Regex α := one (· = element)

@[grind =] def word : List α → Regex α
  | [] => empty
  | first :: rest => seq (char first) (word rest)

end Words

section Taken

variable {α : Type} {pattern : Regex α} {text rest : List α}

/-- Whether some class of the pattern accepts an element. -/
@[grind =] def mentions : Regex α → α → Bool
  | empty, _ => false
  | one accepts, element => accepts element
  | seq first second, element => first.mentions element || second.mentions element
  | either first second, element => first.mentions element || second.mentions element
  | optional inner, element => inner.mentions element
  | many accepts, element => accepts element
  | fewest accepts, element => accepts element
  | notAhead _, _ => false

/-- A pattern that looks at nothing it does not take. -/
@[grind =] def plain : Regex α → Bool
  | seq first second => first.plain && second.plain
  | either first second => first.plain && second.plain
  | optional inner => inner.plain
  | notAhead _ => false
  | _ => true

/-- What a match took of a text, whatever follows it. -/
structure Takes (pattern : Regex α) (taken : List α) : Prop where
  mentioned : ∀ element ∈ taken, pattern.mentions element = true
  anywhere : ∀ rest, rest ∈ pattern.rests (taken ++ rest)

theorem afterMany_whole (accepts : α → Bool) (text : List α) : text ∈ afterMany accepts text := by
  cases text with
  | nil => exact .head _
  | cons first text =>
      rw [afterMany]
      split_ifs
      · exact List.mem_append_right _ (.head _)
      · exact .head _

theorem afterFewest_whole (accepts : α → Bool) (text : List α) :
    text ∈ afterFewest accepts text := by
  cases text <;> exact .head _

theorem afterMany_taken {accepts : α → Bool} {taken : List α} (run : ∀ element ∈ taken, accepts element)
    (rest : List α) : rest ∈ afterMany accepts (taken ++ rest) := by
  induction taken with
  | nil => exact afterMany_whole accepts rest
  | cons first taken ih =>
      obtain ⟨accepted, run⟩ := List.forall_mem_cons.mp run
      rw [List.cons_append, afterMany, if_pos accepted]
      exact List.mem_append_left _ (ih run)

theorem afterFewest_taken {accepts : α → Bool} {taken : List α}
    (run : ∀ element ∈ taken, accepts element) (rest : List α) :
    rest ∈ afterFewest accepts (taken ++ rest) := by
  induction taken with
  | nil => exact afterFewest_whole accepts rest
  | cons first taken ih =>
      obtain ⟨accepted, run⟩ := List.forall_mem_cons.mp run
      rw [List.cons_append, afterFewest, if_pos accepted]
      exact .tail _ (ih run)

theorem exists_run_of_afterMany {accepts : α → Bool} (left : rest ∈ afterMany accepts text) :
    ∃ run, text = run ++ rest ∧ ∀ element ∈ run, accepts element := by
  induction text with
  | nil => exact ⟨[], (List.mem_singleton.mp left).symm, nofun⟩
  | cons first text ih =>
      rw [afterMany] at left
      split_ifs at left with accepted
      · rcases List.mem_append.mp left with later | here
        · obtain ⟨run, rfl, all⟩ := ih later
          exact ⟨first :: run, rfl, List.forall_mem_cons.mpr ⟨accepted, all⟩⟩
        · exact ⟨[], (List.mem_singleton.mp here).symm, nofun⟩
      · exact ⟨[], (List.mem_singleton.mp left).symm, nofun⟩

theorem exists_run_of_afterFewest {accepts : α → Bool} (left : rest ∈ afterFewest accepts text) :
    ∃ run, text = run ++ rest ∧ ∀ element ∈ run, accepts element := by
  induction text with
  | nil => exact ⟨[], (List.mem_singleton.mp left).symm, nofun⟩
  | cons first text ih =>
      rcases List.mem_cons.mp left with rfl | later
      · exact ⟨[], rfl, nofun⟩
      · split_ifs at later with accepted
        · obtain ⟨run, rfl, all⟩ := ih later
          exact ⟨first :: run, rfl, List.forall_mem_cons.mpr ⟨accepted, all⟩⟩
        · cases later

/-- A pattern without lookahead matches what it took wherever that stands. -/
theorem exists_takes (looksAtNothing : pattern.plain = true) (left : rest ∈ pattern.rests text) :
    ∃ taken, text = taken ++ rest ∧ pattern.Takes taken := by
  induction pattern generalizing text rest with
  | empty =>
      rw [rests, List.mem_singleton] at left
      exact ⟨[], left.symm, nofun, fun rest => .head _⟩
  | one accepts =>
      cases text with
      | nil => cases left
      | cons first text =>
          rw [rests] at left
          split_ifs at left with accepted
          · obtain rfl := List.mem_singleton.mp left
            refine ⟨[first], rfl, List.forall_mem_singleton.mpr accepted, fun rest => ?_⟩
            rw [List.singleton_append, rests, if_pos accepted]
            exact .head _
          · cases left
  | seq first second ihFirst ihSecond =>
      rw [plain, Bool.and_eq_true] at looksAtNothing
      obtain ⟨middle, before, ended⟩ := List.mem_flatMap.mp left
      obtain ⟨taken, rfl, mentioned, anywhere⟩ := ihFirst looksAtNothing.1 before
      obtain ⟨more, rfl, mentionedMore, anywhereMore⟩ := ihSecond looksAtNothing.2 ended
      refine ⟨taken ++ more, (List.append_assoc _ _ _).symm, ?_, fun rest => ?_⟩
      · intro element member
        rw [mentions, Bool.or_eq_true]
        exact (List.mem_append.mp member).imp (mentioned element) (mentionedMore element)
      · rw [List.append_assoc]
        exact List.mem_flatMap.mpr ⟨_, anywhere _, anywhereMore rest⟩
  | either first second ihFirst ihSecond =>
      rw [plain, Bool.and_eq_true] at looksAtNothing
      rcases List.mem_append.mp left with left | left
      · obtain ⟨taken, made, mentioned, anywhere⟩ := ihFirst looksAtNothing.1 left
        refine ⟨taken, made, fun element member => ?_, fun rest => ?_⟩
        · rw [mentions, mentioned element member, Bool.true_or]
        · exact List.mem_append_left _ (anywhere rest)
      · obtain ⟨taken, made, mentioned, anywhere⟩ := ihSecond looksAtNothing.2 left
        refine ⟨taken, made, fun element member => ?_, fun rest => ?_⟩
        · rw [mentions, mentioned element member, Bool.or_true]
        · exact List.mem_append_right _ (anywhere rest)
  | optional inner ih =>
      rcases List.mem_append.mp left with left | left
      · obtain ⟨taken, made, mentioned, anywhere⟩ := ih looksAtNothing left
        exact ⟨taken, made, mentioned, fun rest => List.mem_append_left _ (anywhere rest)⟩
      · exact ⟨[], (List.mem_singleton.mp left).symm, nofun,
          fun rest => List.mem_append_right _ (.head _)⟩
  | many accepts =>
      obtain ⟨run, made, all⟩ := exists_run_of_afterMany left
      exact ⟨run, made, all, afterMany_taken all⟩
  | fewest accepts =>
      obtain ⟨run, made, all⟩ := exists_run_of_afterFewest left
      exact ⟨run, made, all, afterFewest_taken all⟩
  | notAhead inner => cases looksAtNothing

end Taken

section Heads

variable {α : Type} [DecidableEq α] {first second pattern : Regex α} {text rest : List α}

omit [DecidableEq α] in
theorem after_either : (either first second).after text = (first.after text).or (second.after text) :=
  List.head?_append

omit [DecidableEq α] in
theorem after_eq_none : pattern.after text = none ↔ pattern.rests text = [] := List.head?_eq_none_iff

omit [DecidableEq α] in
theorem mem_of_after (left : pattern.after text = some rest) : rest ∈ pattern.rests text :=
  List.mem_of_mem_head? left

theorem rests_char (element point : α) (text : List α) :
    (char element).rests (point :: text) = if point = element then [text] else [] := by
  rw [char, rests]
  simp only [decide_eq_true_eq]

/-- A word in front of a pattern is read off the text. -/
theorem rests_word_append (listed : List α) (text : List α) :
    (seq (word listed) pattern).rests (listed ++ text) = pattern.rests text := by
  induction listed with
  | nil => simp [rests, word]
  | cons point listed ih =>
      rw [rests] at ih ⊢
      rw [word, rests, List.cons_append, rests_char, if_pos rfl, List.flatMap_singleton, ih]

theorem exists_of_mem_rests_word {listed : List α}
    (left : rest ∈ (seq (word listed) pattern).rests text) :
    ∃ more, text = listed ++ more ∧ rest ∈ pattern.rests more := by
  induction listed generalizing text with
  | nil =>
      rw [rests, word, rests, List.flatMap_singleton] at left
      exact ⟨text, rfl, left⟩
  | cons point listed ih =>
      cases text with
      | nil => simp [rests, word, char] at left
      | cons first text =>
          rw [rests, word, rests, rests_char] at left
          split_ifs at left with same
          · rw [List.flatMap_singleton] at left
            obtain ⟨more, rfl, ended⟩ := ih left
            exact ⟨more, by rw [same, List.cons_append], ended⟩
          · cases left

theorem rests_word (listed text : List α) : (word listed).rests (listed ++ text) = [text] := by
  induction listed with
  | nil => rfl
  | cons point listed ih =>
      rw [word, rests, List.cons_append, rests_char, if_pos rfl, List.flatMap_singleton, ih]

theorem eq_of_mem_rests_word {listed : List α} (left : rest ∈ (word listed).rests text) :
    text = listed ++ rest := by
  have read : rest ∈ (seq (word listed) .empty).rests text :=
    List.mem_flatMap.mpr ⟨rest, left, .head _⟩
  obtain ⟨more, made, left⟩ := exists_of_mem_rests_word read
  rw [made, List.mem_singleton.mp left]

end Heads

section Closing

variable {α : Type} [DecidableEq α] {text rest : List α}

/-- A run of elements that are no closing one, up to the closing one. -/
theorem rests_many_close {accepts : α → Bool} {closing : α} (apart : accepts closing = false)
    {run : List α} (all : ∀ element ∈ run, accepts element) (rest : List α) :
    (seq (many accepts) (word [closing])).rests (run ++ closing :: rest) = [rest] := by
  have closed := rests_word [closing] rest
  rw [rests]
  induction run with
  | nil =>
      rw [List.nil_append, rests, afterMany, if_neg (by simp [apart]), List.flatMap_singleton]
      exact closed
  | cons first run ih =>
      obtain ⟨accepted, all⟩ := List.forall_mem_cons.mp all
      have other : first ≠ closing := by
        rintro rfl
        rw [apart] at accepted
        cases accepted
      have here : (word [closing]).rests (first :: (run ++ closing :: rest)) = [] := by
        rw [word, rests, rests_char, if_neg other, List.flatMap_nil]
      have later := ih all
      rw [rests] at later
      rw [List.cons_append, rests, afterMany, if_pos accepted, List.flatMap_append, later,
        List.flatMap_singleton, here, List.append_nil]

theorem exists_run_of_close {accepts : α → Bool} {closing : α}
    (left : rest ∈ (seq (many accepts) (word [closing])).rests text) :
    ∃ run, text = run ++ closing :: rest ∧ ∀ element ∈ run, accepts element := by
  obtain ⟨middle, before, ended⟩ := List.mem_flatMap.mp left
  obtain ⟨run, rfl, all⟩ := exists_run_of_afterMany before
  rw [eq_of_mem_rests_word ended]
  exact ⟨run, rfl, all⟩

/-- The shortest text up to and with a word. -/
def through (listed : List α) : Regex α := seq (fewest fun _ => true) (word listed)

theorem rests_through (listed : List α) (first : α) (text : List α) :
    (through listed).rests (first :: text) =
      (word listed).rests (first :: text) ++ (through listed).rests text := by
  have all : (fewest fun _ : α => true).rests (first :: text) =
    (first :: text) :: (fewest fun _ => true).rests text := rfl
  rw [through, rests, all, List.flatMap_cons, ← rests]

/-- What a shortest text takes ends with the word. -/
theorem exists_of_mem_through {listed : List α} (left : rest ∈ (through listed).rests text) :
    ∃ run, text = run ++ (listed ++ rest) := by
  obtain ⟨middle, before, ended⟩ := List.mem_flatMap.mp left
  obtain ⟨run, rfl, -⟩ := exists_run_of_afterFewest before
  exact ⟨run, by rw [eq_of_mem_rests_word ended]⟩

theorem infix_of_mem_through {listed : List α} (left : rest ∈ (through listed).rests text) :
    listed <:+: text := by
  obtain ⟨run, rfl⟩ := exists_of_mem_through left
  exact ⟨run, rest, List.append_assoc _ _ _⟩

theorem through_of_infix {listed : List α} (occurs : listed <:+: text) :
    (through listed).rests text ≠ [] := by
  obtain ⟨before, later, rfl⟩ := occurs
  have reached : listed ++ later ∈ (fewest fun _ => true).rests (before ++ listed ++ later) := by
    rw [List.append_assoc]
    exact afterFewest_taken (fun _ _ => rfl) _
  have read : later ∈ (word listed).rests (listed ++ later) := by
    rw [rests_word]
    exact .head _
  exact List.ne_nil_of_mem (List.mem_flatMap.mpr ⟨_, reached, read⟩)

/-- What a shortest text takes does not depend on what follows it. -/
theorem after_through {listed taken : List α} (some : listed ≠ [])
    (left : (through listed).after (taken ++ rest) = .some rest) (other : List α) :
    (through listed).after (taken ++ other) = .some other := by
  have long (taken : List α) (reached : (through listed).after (taken ++ rest) = .some rest) :
      listed.length ≤ taken.length := by
    obtain ⟨run, made⟩ := exists_of_mem_through (mem_of_after reached)
    have sizes := congrArg List.length made
    simp only [List.length_append] at sizes
    omega
  induction taken with
  | nil => exact absurd (List.length_eq_zero_iff.mp (Nat.le_zero.mp (long [] left))) some
  | cons first taken ih =>
      rw [List.cons_append] at left ⊢
      rw [after, rests_through, List.head?_append] at left ⊢
      by_cases here : ∃ more, first :: (taken ++ rest) = listed ++ more
      · obtain ⟨more, made⟩ := here
        rw [made, rests_word, List.head?_cons, Option.some_or, Option.some.injEq] at left
        rw [left, ← List.cons_append] at made
        rw [← List.cons_append, List.append_cancel_right made, rests_word]
        rfl
      · have skipped : (word listed).rests (first :: (taken ++ rest)) = [] :=
          List.eq_nil_iff_forall_not_mem.mpr fun more read =>
            here ⟨more, eq_of_mem_rests_word read⟩
        rw [skipped, List.head?_nil, Option.none_or] at left
        have within := long taken left
        have skippedToo : (word listed).rests (first :: (taken ++ other)) = [] := by
          refine List.eq_nil_iff_forall_not_mem.mpr fun more read => here ?_
          have made := eq_of_mem_rests_word read
          rw [← List.cons_append] at made
          have begins : listed <+: first :: taken :=
            List.prefix_of_prefix_length_le ⟨more, made.symm⟩ (List.prefix_append _ _)
              (within.trans (Nat.le_succ _))
          obtain ⟨tail, ends⟩ := begins
          exact ⟨tail ++ rest, by rw [← List.append_assoc, ends, List.cons_append]⟩
        rw [skippedToo, List.head?_nil, Option.none_or]
        exact ih left

end Closing

section Scans

variable {α : Type} {pattern : Regex α} {first : α} {rest begun : List α}

theorem scanFrom_eq (skip : ℕ) (text : List α) :
    pattern.scanFrom skip text = pattern.scan (text.drop skip) := by
  induction skip generalizing text with
  | zero => rfl
  | succ skip ih =>
      cases text with
      | nil => rfl
      | cons first rest => exact ih rest

theorem scan_plain (unmatched : pattern.after (first :: rest) = none) :
    pattern.scan (first :: rest) = .plain first :: pattern.scan rest := by
  rw [scan, scanFrom, unmatched]
  rfl

theorem scan_found {token : List α} (some : token ≠ [])
    (matched : pattern.after (token ++ rest) = .some rest) :
    pattern.scan (token ++ rest) = .found token :: pattern.scan rest := by
  obtain ⟨head, tail, rfl⟩ := List.exists_cons_of_ne_nil some
  rw [List.cons_append] at matched ⊢
  rw [scan, scanFrom, matched]
  have shorter : rest.length ≤ (tail ++ rest).length := by
    rw [List.length_append]
    omega
  have taken : (tail ++ rest).length + 1 - rest.length = (head :: tail).length := by
    rw [List.length_append, List.length_cons]
    omega
  have skipped : (tail ++ rest).length - rest.length = tail.length := by
    rw [List.length_append, Nat.add_sub_cancel]
  dsimp only
  rw [if_pos shorter, taken, skipped, scanFrom_eq, List.drop_left, ← List.cons_append,
    List.take_left]

/-- No match begins inside a stretch of a text. -/
def Quiet (pattern : Regex α) : List α → List α → Prop
  | [], _ => True
  | first :: stretch, rest =>
    pattern.after (first :: (stretch ++ rest)) = none ∧ Quiet pattern stretch rest

/-- The text that matches and what is around them make up. -/
def joined : List (List α × List α) → List α → List α
  | [], last => last
  | part :: parts, last => part.1 ++ (part.2 ++ joined parts last)

/-- Matches and the text around them, as a scan finds them. -/
def Parsed (pattern : Regex α) : List (List α × List α) → List α → Prop
  | [], last => pattern.Quiet last []
  | part :: parts, last => pattern.Quiet part.1 (part.2 ++ joined parts last) ∧ part.2 ≠ [] ∧
      pattern.after (part.2 ++ joined parts last) = some (joined parts last) ∧
      Parsed pattern parts last

theorem between_plain (begun stretch : List α) (pieces : List (Piece α)) :
    between begun (stretch.map .plain ++ pieces) = between (begun ++ stretch) pieces := by
  induction stretch generalizing begun with
  | nil => rw [List.map_nil, List.nil_append, List.append_nil]
  | cons first stretch ih =>
      rw [List.map_cons, List.cons_append, between, ih, List.append_assoc, List.singleton_append]

theorem scan_quiet {stretch : List α} (quiet : pattern.Quiet stretch rest) :
    pattern.scan (stretch ++ rest) = stretch.map .plain ++ pattern.scan rest := by
  induction stretch with
  | nil => rfl
  | cons first stretch ih =>
      rw [List.cons_append, scan_plain quiet.1, ih quiet.2, List.map_cons, List.cons_append]

/-- There is one way to part a text into matches and the text around them. -/
theorem split_joined {parts : List (List α × List α)} {last : List α}
    (parsed : pattern.Parsed parts last) : pattern.split (joined parts last) = (parts, last) := by
  rw [split]
  induction parts with
  | nil =>
      have quiet : pattern.scan (last ++ []) = last.map .plain ++ pattern.scan [] :=
        scan_quiet parsed
      rw [List.append_nil] at quiet
      rw [joined, quiet, between_plain]
      rfl
  | cons part parts ih =>
      obtain ⟨quiet, some, matched, later⟩ := parsed
      rw [joined, scan_quiet quiet, between_plain, scan_found some matched, between, ih later]
      rfl

/-- A pattern whose matches are beginnings of the text, and not empty. -/
def Consumes (pattern : Regex α) : Prop :=
  ∀ text rest, pattern.after text = some rest → ∃ token, token ≠ [] ∧ text = token ++ rest

theorem exists_parsed (consumes : pattern.Consumes) (text : List α) :
    ∃ parts last, text = joined parts last ∧ pattern.Parsed parts last := by
  induction length : text.length using Nat.strong_induction_on generalizing text with
  | _ size ih =>
      cases text with
      | nil => exact ⟨[], [], rfl, trivial⟩
      | cons first rest =>
          cases matched : pattern.after (first :: rest) with
          | none =>
              obtain ⟨parts, last, made, parsed⟩ := ih rest.length (by simp [← length]) rest rfl
              cases parts with
              | nil =>
                  refine ⟨[], first :: last, by rw [made, joined, joined], ?_, parsed⟩
                  rw [List.append_nil]
                  rwa [made, joined] at matched
              | cons part parts =>
                  obtain ⟨quiet, later⟩ := parsed
                  refine ⟨(first :: part.1, part.2) :: parts, last, by rw [made]; rfl,
                    ⟨?_, quiet⟩, later⟩
                  rwa [made, joined] at matched
          | some left =>
              obtain ⟨token, some, made⟩ := consumes _ _ matched
              have shorter : left.length < size := by
                rw [← length, made, List.length_append]
                have pos := List.length_pos_of_ne_nil some
                omega
              obtain ⟨parts, last, rfl, parsed⟩ := ih left.length shorter left rfl
              refine ⟨([], token) :: parts, last, made, trivial, some, ?_, parsed⟩
              dsimp only
              rwa [← made]

/-- The parts of a text are matches and what is around them. -/
theorem split_parsed (consumes : pattern.Consumes) (text : List α) :
    text = joined (pattern.split text).1 (pattern.split text).2 ∧
      pattern.Parsed (pattern.split text).1 (pattern.split text).2 := by
  obtain ⟨parts, last, rfl, parsed⟩ := exists_parsed consumes text
  rw [split_joined parsed]
  exact ⟨rfl, parsed⟩

end Scans

end Regex

end Verbatus.Library
