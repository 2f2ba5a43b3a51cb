import Verbatus.PageReading.Decoded

namespace Verbatus.PageReading

open Python Python.CodePoint Python.JsonGrammar

def grammarKeys : List Str := (entriesTopFields ++ actFields ++ setAsideFields).map Str.ofString

def isKeyCharacter (point : CodePoint) : Bool :=
  point ∈ Str.ofString "abcdefghijklmnopqrstuvwxyz_"

/-- Where the scanner for bare keys stands, and whether a key may come next. -/
structure Scan where
  lexical : Lexical
  expectingKey : Bool
  deriving DecidableEq

/-- A character is copied. -/
def Scan.step (scan : Scan) (point : CodePoint) : Scan :=
  match scan.lexical with
  | .inside _ => ⟨scan.lexical.step point, scan.expectingKey⟩
  | .outside =>
    ⟨scan.lexical.step point,
      if isWhitespace point then scan.expectingKey
      else point = scalar '\x7b' ∨ point = scalar ','⟩

/-- The bare grammar key a text starts with, where one is expected and a colon follows it. -/
def bareKey? (scan : Scan) (text : Str) : Option Str :=
  let word := text.takeWhile isKeyCharacter
  let after := skipSpace (text.drop word.length)
  if scan.lexical = .outside ∧ scan.expectingKey ∧ word ∈ grammarKeys ∧
      after.head? = some (scalar ':') then some word
  else none

theorem bareKey?_eq_some {scan : Scan} {text word : Str} (found : bareKey? scan text = some word) :
    scan = ⟨.outside, true⟩ ∧ word = text.takeWhile isKeyCharacter ∧ word ∈ grammarKeys ∧
      (skipSpace (text.drop word.length)).head? = some (scalar ':') := by
  dsimp only [bareKey?] at found
  split_ifs at found with fires
  obtain ⟨outside, expecting, isKey, colon⟩ := fires
  rw [Option.some.injEq] at found
  obtain ⟨lexical, expectingKey⟩ := scan
  dsimp only at outside expecting
  rw [outside, expecting]
  exact ⟨rfl, found.symm, found ▸ isKey, found ▸ colon⟩

theorem pos_of_mem_grammarKeys {word : Str} (isKey : word ∈ grammarKeys) : 0 < word.length := by
  have each : ∀ key ∈ grammarKeys, 0 < key.length := by decide
  exact each word isKey

/-- A text with each bare grammar key quoted, and the keys quoted in order. -/
def quoteFrom (scan : Scan) : Str → Str × List Str
  | [] => ([], [])
  | point :: rest =>
    match _fires : bareKey? scan (point :: rest) with
    | some word =>
      let quoted := quoteFrom ⟨scan.lexical, false⟩ ((point :: rest).drop word.length)
      (scalar '"' :: word ++ scalar '"' :: quoted.1, word :: quoted.2)
    | none =>
      let quoted := quoteFrom (scan.step point) rest
      (point :: quoted.1, quoted.2)
termination_by text => text.length
decreasing_by
  · have pos := pos_of_mem_grammarKeys (bareKey?_eq_some _fires).2.2.1
    rw [List.length_drop, List.length_cons]
    omega
  · exact Nat.lt_succ_self _

def quoteBareKeys (text : Str) : Str × List Str := quoteFrom ⟨.outside, false⟩ text

theorem quoteFrom_nil (scan : Scan) : quoteFrom scan [] = ([], []) := by rw [quoteFrom]

theorem quoteFrom_key {scan : Scan} {text word : Str} (fires : bareKey? scan text = some word) :
    quoteFrom scan text =
      (scalar '"' :: word ++ scalar '"' :: (quoteFrom ⟨.outside, false⟩ (text.drop word.length)).1,
        word :: (quoteFrom ⟨.outside, false⟩ (text.drop word.length)).2) := by
  obtain ⟨rfl, same, isKey, -⟩ := bareKey?_eq_some fires
  cases text with
  | nil =>
      rw [same] at isKey
      exact absurd (pos_of_mem_grammarKeys isKey) (lt_irrefl 0)
  | cons point rest =>
      rw [quoteFrom]
      split
      · next other found =>
          rw [fires, Option.some.injEq] at found
          rw [found]
      · next none =>
          rw [fires] at none
          cases none

theorem quoteFrom_copy {scan : Scan} {point : CodePoint} {rest : Str}
    (none : bareKey? scan (point :: rest) = none) :
    quoteFrom scan (point :: rest) =
      (point :: (quoteFrom (scan.step point) rest).1, (quoteFrom (scan.step point) rest).2) := by
  rw [quoteFrom]
  split
  · next fires =>
      rw [none] at fires
      cases fires
  · rfl

section Pieces

/-- A stretch of a text as the scanner leaves it: a character as it is, or a key it quotes. -/
inductive Piece where
  | kept (point : CodePoint)
  | key (word : Str)

namespace Piece

def source : Piece → Str
  | kept point => [point]
  | key word => word

def written : Piece → Str
  | kept point => [point]
  | key word => scalar '"' :: word ++ [scalar '"']

def key? : Piece → Option Str
  | kept _ => none
  | key word => some word

end Piece

/-- A key that is bare between what comes before it and after it: it stands outside every string,
behind an opening brace or a comma and in front of a colon, with white space alone between. -/
structure Bare (before word after : Str) : Prop where
  isKey : word ∈ grammarKeys
  outside : before.foldl Lexical.step .outside = .outside
  opened : ∃ head mark blank, before = head ++ mark :: blank ∧
    (mark = scalar '\x7b' ∨ mark = scalar ',') ∧ ∀ point ∈ blank, isWhitespace point = true
  named : ∃ blank rest, after = blank ++ scalar ':' :: rest ∧
    ∀ point ∈ blank, isWhitespace point = true

theorem step_lexical (scan : Scan) (point : CodePoint) :
    (scan.step point).lexical = scan.lexical.step point := by
  obtain ⟨lexical, expecting⟩ := scan
  cases lexical <;> rfl

theorem foldl_lexical (text : Str) (scan : Scan) :
    (text.foldl Scan.step scan).lexical = text.foldl Lexical.step scan.lexical := by
  induction text generalizing scan with
  | nil => rfl
  | cons point text ih => rw [List.foldl_cons, List.foldl_cons, ih, step_lexical]

/-- A key is expected outside every string, behind a brace or a comma. -/
theorem opened_of_expecting (text : Str)
    (expecting : (text.foldl Scan.step ⟨.outside, false⟩).expectingKey = true) :
    (text.foldl Scan.step ⟨.outside, false⟩).lexical = .outside ∧
    ∃ head mark blank, text = head ++ mark :: blank ∧
      (mark = scalar '\x7b' ∨ mark = scalar ',') ∧ ∀ point ∈ blank, isWhitespace point = true := by
  induction text using List.reverseRecOn with
  | nil => cases expecting
  | append_singleton text point ih =>
      rw [List.foldl_append, List.foldl_cons, List.foldl_nil] at expecting ⊢
      generalize text.foldl Scan.step ⟨.outside, false⟩ = scan at ih expecting ⊢
      obtain ⟨lexical, before⟩ := scan
      cases lexical with
      | inside escaped => cases (ih expecting).1
      | outside =>
          dsimp only [Scan.step] at expecting ⊢
          by_cases blank : isWhitespace point = true
          · rw [if_pos blank] at expecting
            obtain ⟨-, head, mark, gap, rfl, opens, spaces⟩ := ih expecting
            refine ⟨?_, head, mark, gap ++ [point], ?_, opens, ?_⟩
            · rw [Lexical.step, if_neg]
              rintro rfl
              cases blank
            · rw [List.append_assoc, List.cons_append]
            · rw [List.forall_mem_append, List.forall_mem_singleton]
              exact ⟨spaces, blank⟩
          · rw [if_neg blank, decide_eq_true_eq] at expecting
            refine ⟨?_, text, point, [], rfl, expecting, List.forall_mem_nil _⟩
            rw [Lexical.step, if_neg]
            rintro rfl
            revert expecting
            decide

theorem foldl_word {word : Str} (isKey : word ∈ grammarKeys) :
    word.foldl Scan.step ⟨.outside, true⟩ = ⟨.outside, false⟩ := by
  have each : ∀ key ∈ grammarKeys, key.foldl Scan.step ⟨.outside, true⟩ = ⟨.outside, false⟩ := by
    decide
  exact each word isKey

/-- A word and the text behind it. -/
theorem append_drop_word {text word : Str} (same : word = text.takeWhile isKeyCharacter) :
    word ++ text.drop word.length = text := by
  obtain ⟨rest, begins⟩ := same ▸ List.takeWhile_prefix isKeyCharacter (l := text)
  rw [← begins, List.drop_left]

/-- The pieces the scanner cuts a text into. -/
theorem quoteFrom_pieces (scan : Scan) (text : Str) : ∃ pieces : List Piece,
    pieces.flatMap Piece.source = text ∧ pieces.flatMap Piece.written = (quoteFrom scan text).1 ∧
      pieces.filterMap Piece.key? = (quoteFrom scan text).2 ∧
        ∀ before word after, pieces = before ++ .key word :: after →
          (before.flatMap Piece.source).foldl Scan.step scan = ⟨.outside, true⟩ ∧
            word ∈ grammarKeys ∧
              (skipSpace (after.flatMap Piece.source)).head? = some (scalar ':') := by
  induction scan, text using quoteFrom.induct with
  | case1 scan =>
      refine ⟨[], rfl, ?_, ?_, ?_⟩
      · rw [quoteFrom_nil]
        rfl
      · rw [quoteFrom_nil]
        rfl
      · intro before word after cut
        exact absurd cut (by simp)
  | case2 scan point rest word fires ih =>
      obtain ⟨rfl, isWord, isKey, colon⟩ := bareKey?_eq_some fires
      obtain ⟨pieces, source, written, keys, bare⟩ := ih
      rw [quoteFrom_key fires]
      refine ⟨.key word :: pieces, ?_, ?_, ?_, ?_⟩
      · rw [List.flatMap_cons, source]
        exact append_drop_word isWord
      · rw [List.flatMap_cons, written]
        simp [Piece.written]
      · rw [List.filterMap_cons, keys]
        rfl
      · intro before other after cut
        rcases List.append_eq_cons_iff.mp cut.symm with ⟨rfl, same⟩ | ⟨before, rfl, same⟩
        · cases same
          exact ⟨rfl, isKey, source ▸ colon⟩
        · rw [List.flatMap_cons, List.foldl_append, Piece.source, foldl_word isKey]
          exact bare before other after same
  | case3 scan point rest none ih =>
      obtain ⟨pieces, source, written, keys, bare⟩ := ih
      rw [quoteFrom_copy none]
      refine ⟨.kept point :: pieces, ?_, ?_, ?_, ?_⟩
      · rw [List.flatMap_cons, source]
        rfl
      · rw [List.flatMap_cons, written]
        rfl
      · rw [List.filterMap_cons, keys]
        rfl
      · intro before word after cut
        rcases List.append_eq_cons_iff.mp cut.symm with ⟨rfl, same⟩ | ⟨before, rfl, same⟩
        · cases same
        · rw [List.flatMap_cons, List.foldl_append]
          exact bare before word after same

/-- The keys the scanner quotes are bare, and everything else it copies. -/
theorem quoteBareKeys_pieces (text : Str) : ∃ pieces : List Piece,
    pieces.flatMap Piece.source = text ∧ pieces.flatMap Piece.written = (quoteBareKeys text).1 ∧
      pieces.filterMap Piece.key? = (quoteBareKeys text).2 ∧
        ∀ before word after, pieces = before ++ .key word :: after →
          Bare (before.flatMap Piece.source) word (after.flatMap Piece.source) := by
  obtain ⟨pieces, source, written, keys, bare⟩ := quoteFrom_pieces ⟨.outside, false⟩ text
  refine ⟨pieces, source, written, keys, ?_⟩
  intro before word after cut
  obtain ⟨reached, isKey, colon⟩ := bare before word after cut
  obtain ⟨-, opened⟩ := opened_of_expecting _ (congrArg Scan.expectingKey reached)
  refine ⟨isKey, ?_, opened, ?_⟩
  · exact (foldl_lexical _ ⟨.outside, false⟩).symm.trans (congrArg Scan.lexical reached)
  · refine ⟨(after.flatMap Piece.source).takeWhile isWhitespace,
      (skipSpace (after.flatMap Piece.source)).tail, ?_, ?_⟩
    · rw [← eq_cons_of_head? colon, skipSpace, List.takeWhile_append_dropWhile]
    · exact fun point member => List.mem_takeWhile_imp member

end Pieces

section Unquoted

/-- A text the scanner copies whole. -/
def Unquoted (scan : Scan) (text : Str) : Prop := quoteFrom scan text = (text, [])

theorem unquoted_nil (scan : Scan) : Unquoted scan [] := quoteFrom_nil scan

theorem unquoted_cons {scan : Scan} {point : CodePoint} {text : Str}
    (none : bareKey? scan (point :: text) = none) (later : Unquoted (scan.step point) text) :
    Unquoted scan (point :: text) := by
  rw [Unquoted, quoteFrom_copy none, later]

theorem bareKey?_of_ne {scan : Scan} (other : scan ≠ ⟨.outside, true⟩) (text : Str) :
    bareKey? scan text = none := by
  cases found : bareKey? scan text with
  | none => rfl
  | some word => exact absurd (bareKey?_eq_some found).1 other

/-- No key starts with a character that no key has. -/
theorem bareKey?_of_head {scan : Scan} {point : CodePoint} (other : isKeyCharacter point = false)
    (text : Str) : bareKey? scan (point :: text) = none := by
  cases found : bareKey? scan (point :: text) with
  | none => rfl
  | some word =>
      obtain ⟨-, same, isKey, -⟩ := bareKey?_eq_some found
      rw [List.takeWhile_cons_of_neg (by rw [other]; decide)] at same
      rw [same] at isKey
      exact absurd (pos_of_mem_grammarKeys isKey) (lt_irrefl 0)

theorem unquoted_inside {escaped expecting : Bool} {body rest : Str} (inside : Inside escaped body)
    (later : Unquoted ⟨.inside false, expecting⟩ rest) :
    Unquoted ⟨.inside escaped, expecting⟩ (body ++ rest) := by
  induction body generalizing escaped with
  | nil =>
      cases escaped with
      | false => exact later
      | true => exact inside.elim
  | cons point body ih =>
      refine unquoted_cons (bareKey?_of_ne (by simp) _) ?_
      cases escaped with
      | true => exact ih inside
      | false =>
          rw [Inside] at inside
          dsimp only [Scan.step]
          rw [Lexical.step]
          split_ifs at inside ⊢ with slash quote
          · exact ih inside
          · exact absurd quote inside.1
          · exact ih inside.2

theorem inside_of_forall {body : Str}
    (plain : ∀ point ∈ body, point ≠ scalar '"' ∧ point ≠ scalar '\\') : Inside false body := by
  induction body with
  | nil => trivial
  | cons point body ih =>
      obtain ⟨first, others⟩ := List.forall_mem_cons.mp plain
      exact (inside_cons first.1 first.2).mpr (ih others)

/-- A string is copied from its opening quote to its closing one. -/
theorem unquoted_string {body rest : Str} (inside : Inside false body)
    (later : Unquoted ⟨.outside, false⟩ rest) (expecting : Bool) :
    Unquoted ⟨.outside, expecting⟩ (scalar '"' :: (body ++ scalar '"' :: rest)) := by
  refine unquoted_cons (bareKey?_of_head (by decide) _) ?_
  refine unquoted_inside inside (unquoted_cons (bareKey?_of_ne (by simp) _) ?_)
  exact later

end Unquoted

section Idempotent

theorem takeWhile_quoteFrom {holds : CodePoint → Bool} (stays : ∀ point, holds point = true →
      Scan.step ⟨.outside, false⟩ point = ⟨.outside, false⟩) (text : Str) :
    (quoteFrom ⟨.outside, false⟩ text).1.takeWhile holds = text.takeWhile holds ∧
      (quoteFrom ⟨.outside, false⟩ text).1.dropWhile holds =
        (quoteFrom ⟨.outside, false⟩ (text.dropWhile holds)).1 := by
  induction text with
  | nil => simp [quoteFrom_nil]
  | cons point text ih =>
      rw [quoteFrom_copy (bareKey?_of_ne (by simp) _)]
      by_cases kept : holds point = true
      · rw [stays point kept, List.takeWhile_cons_of_pos kept, List.takeWhile_cons_of_pos kept,
          List.dropWhile_cons_of_pos kept, List.dropWhile_cons_of_pos kept, ih.1, ih.2]
        exact ⟨rfl, rfl⟩
      · rw [List.takeWhile_cons_of_neg kept, List.takeWhile_cons_of_neg kept,
          List.dropWhile_cons_of_neg kept, List.dropWhile_cons_of_neg kept,
          quoteFrom_copy (bareKey?_of_ne (by simp) _)]
        exact ⟨rfl, rfl⟩

theorem head?_quoteFrom (text : Str) :
    (quoteFrom ⟨.outside, false⟩ text).1.head? = text.head? := by
  cases text with
  | nil => rw [quoteFrom_nil]
  | cons point text => rw [quoteFrom_copy (bareKey?_of_ne (by simp) _)]; rfl

theorem step_key {point : CodePoint} (isKey : isKeyCharacter point = true) (expecting : Bool) :
    Scan.step ⟨.outside, expecting⟩ point = ⟨.outside, false⟩ := by
  have each : ∀ key ∈ Str.ofString "abcdefghijklmnopqrstuvwxyz_", ∀ expecting,
      Scan.step ⟨.outside, expecting⟩ key = ⟨.outside, false⟩ := by decide
  rw [isKeyCharacter, decide_eq_true_eq] at isKey
  exact each point isKey expecting

theorem step_space {point : CodePoint} (blank : isWhitespace point = true) (expecting : Bool) :
    Scan.step ⟨.outside, expecting⟩ point = ⟨.outside, expecting⟩ := by
  have quote : point ≠ scalar '"' := by
    rintro rfl
    cases blank
  dsimp only [Scan.step]
  rw [if_pos blank, Lexical.step, if_neg quote]

theorem drop_takeWhile (holds : CodePoint → Bool) (text : Str) :
    text.drop (text.takeWhile holds).length = text.dropWhile holds := by
  have parts : text.takeWhile holds ++ text.dropWhile holds = text :=
    List.takeWhile_append_dropWhile
  calc text.drop (text.takeWhile holds).length
      = (text.takeWhile holds ++ text.dropWhile holds).drop (text.takeWhile holds).length := by
        rw [parts]
    _ = text.dropWhile holds := List.drop_left

theorem bareKey?_congr {scan : Scan} {first second : Str}
    (word : first.takeWhile isKeyCharacter = second.takeWhile isKeyCharacter)
    (after : (skipSpace (first.dropWhile isKeyCharacter)).head? =
      (skipSpace (second.dropWhile isKeyCharacter)).head?) :
    bareKey? scan first = bareKey? scan second := by
  rw [← drop_takeWhile, ← drop_takeWhile, word] at after
  simp only [bareKey?, word, after]

/-- Behind a character it copies, the scanner's text has a bare key only where its source has. -/
theorem bareKey?_written {scan : Scan} {point : CodePoint} {rest : Str}
    (none : bareKey? scan (point :: rest) = none) :
    bareKey? scan (point :: (quoteFrom (scan.step point) rest).1) = Option.none := by
  by_cases expecting : scan = ⟨.outside, true⟩
  · subst expecting
    by_cases isKey : isKeyCharacter point = true
    · rw [step_key isKey true]
      obtain ⟨word, after⟩ := takeWhile_quoteFrom (fun point isKey => step_key isKey false) rest
      obtain ⟨-, spaces⟩ := takeWhile_quoteFrom (fun point blank => step_space blank false)
        (rest.dropWhile isKeyCharacter)
      rw [← none]
      apply bareKey?_congr
      · rw [List.takeWhile_cons_of_pos isKey, List.takeWhile_cons_of_pos isKey, word]
      · rw [List.dropWhile_cons_of_pos isKey, List.dropWhile_cons_of_pos isKey, after, skipSpace,
          spaces, head?_quoteFrom]
        rfl
    · exact bareKey?_of_head (Bool.not_eq_true _ ▸ isKey) _
  · exact bareKey?_of_ne expecting _

/-- What the scanner has quoted it quotes no more. -/
theorem quoteFrom_unquoted (scan : Scan) (text : Str) : Unquoted scan (quoteFrom scan text).1 := by
  induction scan, text using quoteFrom.induct with
  | case1 scan => exact quoteFrom_nil scan ▸ unquoted_nil scan
  | case2 scan point rest word fires ih =>
      obtain ⟨rfl, -, isKey, -⟩ := bareKey?_eq_some fires
      have plain : ∀ key ∈ grammarKeys, ∀ point ∈ key,
          point ≠ scalar '"' ∧ point ≠ scalar '\\' := by decide
      rw [quoteFrom_key fires]
      exact unquoted_string (inside_of_forall (plain word isKey)) ih true
  | case3 scan point rest none ih =>
      rw [quoteFrom_copy none]
      exact unquoted_cons (bareKey?_written none) ih

end Idempotent

section Values

/-- A mark that starts no key is copied. -/
theorem unquoted_mark {expecting after : Bool} {mark : CodePoint} {text : Str}
    (other : isKeyCharacter mark = false)
    (stepped : Scan.step ⟨.outside, expecting⟩ mark = ⟨.outside, after⟩)
    (later : Unquoted ⟨.outside, after⟩ text) : Unquoted ⟨.outside, expecting⟩ (mark :: text) :=
  unquoted_cons (bareKey?_of_head other text) (stepped ▸ later)

theorem isKeyCharacter_of_isWhitespace {point : CodePoint} (blank : isWhitespace point = true) :
    isKeyCharacter point = false := by
  rw [← Bool.not_eq_true]
  intro isKey
  have stepped := step_key isKey true
  rw [step_space blank true] at stepped
  cases stepped

theorem unquoted_space {expecting : Bool} {text rest : Str} (space : Space text rest)
    (later : Unquoted ⟨.outside, expecting⟩ rest) : Unquoted ⟨.outside, expecting⟩ text := by
  induction space with
  | nil => exact later
  | cons blank _ ih =>
      exact unquoted_mark (isKeyCharacter_of_isWhitespace blank) (step_space blank expecting)
        (ih later)

/-- Neither white space nor a mark of the grammar. -/
def Solid (point : CodePoint) : Prop := isWhitespace point = false ∧ isMark point = false

instance (point : CodePoint) : Decidable (Solid point) := inferInstanceAs (Decidable (_ ∧ _))

theorem step_solid {point : CodePoint} (solid : Solid point) (expecting : Bool) :
    Scan.step ⟨.outside, expecting⟩ point = ⟨.outside, false⟩ := by
  obtain ⟨space, unmarked⟩ := solid
  have other {mark : CodePoint} (isMark' : isMark mark = true) : point ≠ mark := by
    rintro rfl
    rw [unmarked] at isMark'
    cases isMark'
  have opens : ¬ (point = scalar '\x7b' ∨ point = scalar ',') :=
    not_or.mpr ⟨other (by decide), other (by decide)⟩
  dsimp only [Scan.step]
  rw [space, if_neg Bool.false_ne_true, decide_eq_false opens, Lexical.step,
    if_neg (other (by decide))]

theorem unquoted_solid {word rest : Str} (solid : ∀ point ∈ word, Solid point)
    (later : Unquoted ⟨.outside, false⟩ rest) : Unquoted ⟨.outside, false⟩ (word ++ rest) := by
  induction word with
  | nil => exact later
  | cons point word ih =>
      obtain ⟨first, others⟩ := List.forall_mem_cons.mp solid
      refine unquoted_cons (bareKey?_of_ne (by simp) _) ?_
      rw [step_solid first]
      exact ih others

/-- A word that is no key is copied. -/
theorem unquoted_word {expecting : Bool} {word rest : Str} (nonempty : word ≠ [])
    (solid : ∀ point ∈ word, Solid point)
    (none : bareKey? ⟨.outside, expecting⟩ (word ++ rest) = none)
    (later : Unquoted ⟨.outside, false⟩ rest) : Unquoted ⟨.outside, expecting⟩ (word ++ rest) := by
  obtain ⟨first, others, rfl⟩ := List.exists_cons_of_ne_nil nonempty
  obtain ⟨isSolid, more⟩ := List.forall_mem_cons.mp solid
  refine unquoted_cons none ?_
  rw [step_solid isSolid]
  exact unquoted_solid more later

/-- No key starts with a word that no key starts with. -/
theorem bareKey?_of_word {scan : Scan} {word : Str}
    (isWord : ∀ point ∈ word, isKeyCharacter point = true)
    (other : ∀ key ∈ grammarKeys, ¬ word <+: key) (rest : Str) :
    bareKey? scan (word ++ rest) = none := by
  cases found : bareKey? scan (word ++ rest) with
  | none => rfl
  | some key =>
      obtain ⟨-, same, isKey, -⟩ := bareKey?_eq_some found
      rw [List.takeWhile_append_of_pos isWord] at same
      exact absurd ⟨_, same.symm⟩ (other key isKey)

theorem bareKey?_of_mem_words {scan : Scan} {word : String} {value : JsonValue}
    (listed : (word, value) ∈ words) (rest : Str) :
    bareKey? scan (Str.ofChars word.toList ++ rest) = none := by
  simp only [words, List.mem_cons, Prod.mk.injEq, List.not_mem_nil, or_false] at listed
  rcases listed with ⟨rfl, -⟩ | ⟨rfl, -⟩ | ⟨rfl, -⟩ | ⟨rfl, -⟩ | ⟨rfl, -⟩ | ⟨rfl, -⟩
  · exact bareKey?_of_word (by decide) (by decide) rest
  · exact bareKey?_of_word (by decide) (by decide) rest
  · exact bareKey?_of_word (by decide) (by decide) rest
  · exact bareKey?_of_head (by decide) _
  · exact bareKey?_of_head (by decide) _
  · exact bareKey?_of_head (by decide) _

theorem solid_of_mem_words {word : String} {value : JsonValue} (listed : (word, value) ∈ words) :
    Str.ofChars word.toList ≠ [] ∧ ∀ point ∈ Str.ofChars word.toList, Solid point := by
  have each : ∀ name ∈ words.map Prod.fst, Str.ofChars name.toList ≠ [] ∧
      ∀ point ∈ Str.ofChars name.toList, Solid point := by decide
  exact each word (List.mem_map.mpr ⟨_, listed, rfl⟩)

theorem isKeyCharacter_of_isDigit {point : CodePoint} (digit : isDigit point = true) :
    isKeyCharacter point = false := by
  rw [isKeyCharacter, decide_eq_false_iff_not]
  intro member
  have none : ∀ key ∈ Str.ofString "abcdefghijklmnopqrstuvwxyz_", isDigit key = false := by decide
  rw [none point member] at digit
  cases digit

theorem solid_of_isDigit {point : CodePoint} (digit : isDigit point = true) : Solid point := by
  refine ⟨?_, isMark_of_isDigit digit⟩
  rw [← Bool.not_eq_true]
  intro blank
  simp only [isWhitespace, Bool.or_eq_true, decide_eq_true_eq] at blank
  rcases blank with ((rfl | rfl) | rfl) | rfl
  · cases digit
  · cases digit
  · cases digit
  · cases digit

/-- A number is copied. -/
theorem unquoted_numeral {sign whole fraction exponent rest : Str}
    (numeral : Numeral sign whole fraction exponent) (later : Unquoted ⟨.outside, false⟩ rest)
    (expecting : Bool) :
    Unquoted ⟨.outside, expecting⟩ (sign ++ whole ++ fraction ++ exponent ++ rest) := by
  have solid := numeral.forall_mem (fun _ => solid_of_isDigit) (by decide)
  obtain ⟨first, others, begins, other⟩ : ∃ first others, sign ++ whole = first :: others ∧
      isKeyCharacter first = false := by
    rcases numeral.sign with rfl | rfl
    · rcases numeral.whole with rfl | ⟨⟨nonempty, digits⟩, -⟩
      · exact ⟨_, _, rfl, by decide⟩
      · obtain ⟨first, others, rfl⟩ := List.exists_cons_of_ne_nil nonempty
        exact ⟨first, others, rfl, isKeyCharacter_of_isDigit (digits first (.head _))⟩
    · exact ⟨_, _, rfl, by decide⟩
  rw [begins] at solid ⊢
  exact unquoted_word (by simp) solid (bareKey?_of_head other _) later

theorem unquoted_key {expecting : Bool} {key text colon value start : Str}
    (named : SpellsText key text colon) (before : Space colon (scalar ':' :: value))
    (between : Space value start) (later : Unquoted ⟨.outside, false⟩ start) :
    Unquoted ⟨.outside, expecting⟩ (scalar '"' :: text) := by
  obtain ⟨body, rfl, inside⟩ := exists_inside named
  refine unquoted_string inside (unquoted_space before ?_) expecting
  exact unquoted_mark (by decide) rfl (unquoted_space between later)

/-- What a phrase is spelled by the scanner copies, also where it expects a key. -/
theorem unquoted_spells {phrase : Phrase} {text rest : Str} (spells : Spells phrase text rest)
    (later : Unquoted ⟨.outside, false⟩ rest) (expecting : Bool) :
    Unquoted ⟨.outside, expecting⟩ text := by
  induction spells generalizing expecting with
  | word listed rest =>
      obtain ⟨nonempty, solid⟩ := solid_of_mem_words listed
      exact unquoted_word nonempty solid (bareKey?_of_mem_words listed rest) later
  | int numeral rest =>
      have copied := unquoted_numeral numeral later expecting
      rwa [List.append_nil, List.append_nil] at copied
  | float numeral _ rest => exact unquoted_numeral numeral later expecting
  | str spelled =>
      obtain ⟨body, rfl, inside⟩ := exists_inside spelled
      exact unquoted_string inside later expecting
  | emptyList space =>
      exact unquoted_mark (by decide) rfl
        (unquoted_space space (unquoted_mark (by decide) rfl later))
  | list space _ ih =>
      exact unquoted_mark (by decide) rfl (unquoted_space space (ih later false))
  | emptyObject space =>
      exact unquoted_mark (by decide) rfl
        (unquoted_space space (unquoted_mark (by decide) rfl later))
  | object space _ ih =>
      exact unquoted_mark (by decide) rfl (unquoted_space space (ih later true))
  | lastItem _ space ih =>
      exact ih (unquoted_space space (unquoted_mark (by decide) rfl later)) expecting
  | item _ space gap _ first others =>
      refine first (unquoted_space space ?_) expecting
      exact unquoted_mark (by decide) rfl (unquoted_space gap (others later true))
  | lastField named before between _ space ih =>
      refine unquoted_key named before between (ih (unquoted_space space ?_) false)
      exact unquoted_mark (by decide) rfl later
  | field named before between _ space gap _ first others =>
      refine unquoted_key named before between (first (unquoted_space space ?_) false)
      exact unquoted_mark (by decide) rfl (unquoted_space gap (others later true))

/-- A text that is one JSON value is left as it is. -/
theorem quoteBareKeys_of_isValue {value : JsonValue} {text : Str} (isValue : IsValue value text) :
    quoteBareKeys text = (text, []) := by
  obtain ⟨start, rest, before, spells, after⟩ := isValue
  have later := unquoted_space after (unquoted_nil ⟨.outside, false⟩)
  exact unquoted_space before (unquoted_spells spells later false)

end Values

end Verbatus.PageReading
