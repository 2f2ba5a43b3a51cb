import Verbatus.Library.Regex
import Verbatus.Python.CodePoint

namespace Verbatus.Churro

open Library Python

section Patterns

/-- A class of a pattern that lists characters; it accepts no surrogate. -/
def oneOf (listed : Char → Bool) (point : CodePoint) : Bool := point.scalar?.any listed

def within (low high : Char) (character : Char) : Bool := low ≤ character ∧ character ≤ high

def literal (text : String) : Regex CodePoint := .word (Str.ofChars text.toList)

def digit : CodePoint → Bool := oneOf (within '0' '9')

def hexDigit : CodePoint → Bool :=
  oneOf fun character => within '0' '9' character || within 'a' 'f' character ||
    within 'A' 'F' character

/-- `[A-Za-z_:]` -/
def nameStart : CodePoint → Bool :=
  oneOf fun character => within 'A' 'Z' character || within 'a' 'z' character ||
    character = '_' || character = ':'

/-- `[A-Za-z0-9_.:-]` -/
def nameCharacter : CodePoint → Bool :=
  oneOf fun character => within 'A' 'Z' character || within 'a' 'z' character ||
    within '0' '9' character || character = '_' || character = '.' || character = ':' ||
    character = '-'

/-- `(?:#[0-9]+|#[xX][0-9a-fA-F]+|[A-Za-z_:][A-Za-z0-9_.:-]*);` -/
def xmlReferenceBody : Regex CodePoint :=
  .seq (.either (.seq (literal "#") (.oneOrMore digit))
      (.either
        (.seq (literal "#") (.seq (.one (oneOf fun character => character = 'x' || character = 'X'))
          (.oneOrMore hexDigit)))
        (.seq (.one nameStart) (.many nameCharacter))))
    (literal ";")

/-- `<|&(?!…)` -/
def strayMarkup : Regex CodePoint :=
  .either (literal "<") (.seq (literal "&") (.notAhead xmlReferenceBody))

/-- `<!\[CDATA\[.*?\]\]>` -/
def cdataSection : Regex CodePoint :=
  .seq (literal "<![CDATA[") (.seq (.fewest fun _ => true) (literal "]]>"))

/-- `<!--.*?-->` -/
def comment : Regex CodePoint :=
  .seq (literal "<!--") (.seq (.fewest fun _ => true) (literal "-->"))

def isPoint (character : Char) (point : CodePoint) : Bool := point = .scalar character

/-- `[^>]` -/
def noClose (point : CodePoint) : Bool := !isPoint '>' point

/-- `[^<>]` -/
def noAngle (point : CodePoint) : Bool := !isPoint '<' point && !isPoint '>' point

/-- `<[!?][^>]*>` -/
def declaration : Regex CodePoint :=
  .seq (literal "<") (.seq (.one fun point => isPoint '!' point || isPoint '?' point)
    (.seq (.many noClose) (literal ">")))

/-- `</?[A-Za-z_:][^<>]*>` -/
def tag : Regex CodePoint :=
  .seq (literal "<") (.seq (.optional (literal "/")) (.seq (.one nameStart)
    (.seq (.many noAngle) (literal ">"))))

def markupToken : Regex CodePoint :=
  .either cdataSection (.either comment (.either declaration tag))

end Patterns

/-- The reference a stray character is written as. -/
def replace (found : Str) : Str :=
  if found = Str.ofChars ['<'] then Str.ofChars "&lt;".toList else Str.ofChars "&amp;".toList

/-- The `<` and `&` that cannot be markup are escaped, and counted. -/
def escapeStrayMarkup (body : Str) : Str × ℕ :=
  let (tokens, last) := markupToken.split body
  let parts := tokens.map fun part => (strayMarkup.subn replace part.1, part.2)
  let ended := strayMarkup.subn replace last
  ((parts.flatMap fun part => part.1.1 ++ part.2) ++ ended.1,
    (parts.map fun part => part.1.2).sum + ended.2)

example : escapeStrayMarkup (Str.ofChars "a<b & &c. &amp; <i>x<</i>".toList) =
    (Str.ofChars "a&lt;b &amp; &amp;c. &amp; <i>x&lt;</i>".toList, 4) := by
  decide +kernel

section Written

/-- A character of the answer as the escaped answer writes it. -/
inductive Written where
  | kept (point : CodePoint)
  | escaped (point : CodePoint)
  deriving DecidableEq

namespace Written

def source : Written → CodePoint
  | kept point => point
  | escaped point => point

def text : Written → Str
  | kept point => [point]
  | escaped point => replace [point]

def isEscaped : Written → Bool
  | kept _ => false
  | escaped _ => true

/-- Only the two characters that XML reads as markup are written as references. -/
def Stray : Written → Prop
  | kept _ => True
  | escaped point => point = .scalar '<' ∨ point = .scalar '&'

end Written

/-- A stray character of a text between tokens, by what follows it there. -/
def IsStray (point : CodePoint) (rest : Str) : Prop :=
  point = .scalar '<' ∨ point = .scalar '&' ∧ xmlReferenceBody.rests rest = []

instance (point : CodePoint) (rest : Str) : Decidable (IsStray point rest) :=
  inferInstanceAs (Decidable (_ ∨ _ ∧ _))

def written : Str → List Written
  | [] => []
  | point :: rest =>
    (if IsStray point rest then .escaped point else .kept point) :: written rest

theorem written_source (segment : Str) : (written segment).map Written.source = segment := by
  induction segment with
  | nil => rfl
  | cons point rest ih =>
      rw [written, List.map_cons, ih]
      split_ifs <;> rfl

theorem written_stray {segment : Str} {mark : Written} (listed : mark ∈ written segment) :
    mark.Stray := by
  induction segment with
  | nil => cases listed
  | cons point rest ih =>
      rcases List.mem_cons.mp listed with rfl | later
      · split_ifs with stray
        · exact stray.imp_right And.left
        · trivial
      · exact ih later

theorem rests_literal (character : Char) (point : CodePoint) (rest : Str) :
    (literal (String.singleton character)).rests (point :: rest) =
      if point = .scalar character then [rest] else [] := by
  have letters : (String.singleton character).toList = [character] := by simp
  rw [literal, letters, Str.ofChars, List.map_singleton, Regex.word, Regex.word, Regex.rests,
    Regex.rests_char]
  split_ifs
  · rfl
  · rfl

theorem after_strayMarkup (point : CodePoint) (rest : Str) :
    strayMarkup.after (point :: rest) = if IsStray point rest then some rest else none := by
  have less := rests_literal '<' point rest
  have ampersand := rests_literal '&' point rest
  change (literal "<").rests _ = _ at less
  change (literal "&").rests _ = _ at ampersand
  rw [Regex.after, strayMarkup, Regex.rests, Regex.rests, less, ampersand]
  by_cases isLess : point = .scalar '<'
  · have stray : IsStray point rest := .inl isLess
    rw [if_pos isLess, if_pos stray]
    rfl
  · rw [if_neg isLess, List.nil_append]
    by_cases isAmpersand : point = .scalar '&'
    · rw [if_pos isAmpersand, List.flatMap_singleton, Regex.rests]
      by_cases opens : xmlReferenceBody.rests rest = []
      · have stray : IsStray point rest := .inr ⟨isAmpersand, opens⟩
        rw [if_pos opens, if_pos stray]
        rfl
      · have plain : ¬ IsStray point rest := fun stray =>
          stray.elim isLess fun other => opens other.2
        rw [if_neg opens, if_neg plain]
        rfl
    · have plain : ¬ IsStray point rest := fun stray =>
        stray.elim isLess fun other => isAmpersand other.1
      rw [if_neg isAmpersand, if_neg plain]
      rfl

/-- A text between tokens is written a character at a time. -/
theorem subn_replace (segment : Str) : strayMarkup.subn replace segment =
    ((written segment).flatMap Written.text, (written segment).countP Written.isEscaped) := by
  induction segment with
  | nil => rfl
  | cons point rest ih =>
      rw [Regex.subn, Prod.mk.injEq] at ih
      rw [Regex.subn, written]
      have read := after_strayMarkup point rest
      by_cases stray : IsStray point rest
      · rw [if_pos stray] at read ⊢
        have scanned := Regex.scan_found (List.cons_ne_nil point []) read
        rw [List.singleton_append] at scanned
        rw [scanned, List.flatMap_cons, List.flatMap_cons, List.countP_cons, List.countP_cons, ih.1, ih.2]
        rfl
      · rw [if_neg stray] at read ⊢
        rw [Regex.scan_plain read, List.flatMap_cons, List.flatMap_cons, List.countP_cons, List.countP_cons, ih.1, ih.2]
        rfl

end Written

section Tokens

open Regex

/-- A text that an opening word begins and the first closing word after it ends. -/
theorem after_enclosed {opening closing token rest : Str} (some : closing ≠ [])
    (matched : (seq (word opening) (through closing)).after (token ++ rest) = .some rest)
    (other : Str) :
    (seq (word opening) (through closing)).after (token ++ other) = .some other := by
  obtain ⟨more, made, left⟩ := exists_of_mem_rests_word (mem_of_after matched)
  obtain ⟨run, rfl⟩ := exists_of_mem_through left
  have whole : token = opening ++ (run ++ closing) := by
    have same : token ++ rest = opening ++ (run ++ closing) ++ rest := by
      rw [made, List.append_assoc, List.append_assoc]
    exact List.append_cancel_right same
  rw [whole, List.append_assoc, after, rests_word_append] at matched ⊢
  exact after_through some matched other

/-- The closing `>` of a token, and no text it must not hold in front of it. -/
def close (accepts : CodePoint → Bool) : Regex CodePoint := seq (many accepts) (literal ">")

theorem close_ends {accepts : CodePoint → Bool} {text rest : Str}
    (apart : accepts (.scalar '>') = false) (left : rest ∈ (close accepts).rests text) :
    ∃ run, text = run ++ rest ∧ ∀ other, (close accepts).rests (run ++ other) = [other] := by
  obtain ⟨run, made, all⟩ := exists_run_of_close left
  refine ⟨run ++ [.scalar '>'], ?_, fun other => ?_⟩
  · rw [List.append_assoc]
    exact made
  · rw [List.append_assoc]
    exact rests_many_close apart all other

theorem rests_one (accepts : CodePoint → Bool) (pattern : Regex CodePoint) (point : CodePoint)
    (text : Str) : (seq (one accepts) pattern).rests (point :: text) =
      if accepts point then pattern.rests text else [] := by
  rw [rests, rests]
  split_ifs
  · exact List.flatMap_singleton _ _
  · rfl

theorem exists_of_mem_one {accepts : CodePoint → Bool} {pattern : Regex CodePoint} {text rest : Str}
    (left : rest ∈ (seq (one accepts) pattern).rests text) :
    ∃ point more, text = point :: more ∧ accepts point = true ∧ rest ∈ pattern.rests more := by
  cases text with
  | nil => cases left
  | cons point more =>
      rw [rests_one] at left
      split_ifs at left with accepted
      · exact ⟨point, more, rfl, accepted, left⟩
      · cases left

/-- What a pattern takes at the head of a text, whatever follows it, is all it can take there. -/
def Closed (pattern : Regex CodePoint) : Prop :=
  ∀ text rest, rest ∈ pattern.rests text →
    ∃ token, text = token ++ rest ∧ ∀ other, pattern.rests (token ++ other) = [other]

theorem Closed.after {pattern : Regex CodePoint} (closed : Closed pattern) {token rest : Str}
    (matched : pattern.after (token ++ rest) = some rest) (other : Str) :
    pattern.after (token ++ other) = some other := by
  obtain ⟨taken, made, all⟩ := closed _ _ (mem_of_after matched)
  rw [List.append_cancel_right made, Regex.after, all]
  rfl

theorem Closed.close {accepts : CodePoint → Bool} (apart : accepts (.scalar '>') = false) :
    Closed (close accepts) := fun _ _ left => close_ends apart left

theorem Closed.one {pattern : Regex CodePoint} (closed : Closed pattern)
    (accepts : CodePoint → Bool) : Closed (seq (one accepts) pattern) := by
  intro text rest left
  obtain ⟨point, more, rfl, accepted, inner⟩ := exists_of_mem_one left
  obtain ⟨token, rfl, all⟩ := closed _ _ inner
  refine ⟨point :: token, rfl, fun other => ?_⟩
  rw [List.cons_append, rests_one, if_pos accepted, all]

theorem Closed.word {pattern : Regex CodePoint} (closed : Closed pattern) (listed : Str) :
    Closed (seq (word listed) pattern) := by
  intro text rest left
  obtain ⟨more, rfl, inner⟩ := exists_of_mem_rests_word left
  obtain ⟨token, rfl, all⟩ := closed _ _ inner
  refine ⟨listed ++ token, (List.append_assoc _ _ _).symm, fun other => ?_⟩
  rw [List.append_assoc, rests_word_append, all]

theorem closed_declaration : Closed declaration :=
  ((Closed.close (by decide)).one _).word _

/-- The slash of an end tag is no beginning of a name, so it is there or it is not. -/
theorem closed_tag : Closed tag := by
  refine Closed.word ?_ _
  have named : Closed (seq (one nameStart) (close noAngle)) :=
    (Closed.close (by decide)).one _
  intro text rest left
  obtain ⟨middle, slash, inner⟩ := List.mem_flatMap.mp left
  rcases List.mem_append.mp slash with slash | whole
  · have made : text = .scalar '/' :: middle := eq_of_mem_rests_word slash
    obtain ⟨token, rfl, all⟩ := named _ _ inner
    refine ⟨.scalar '/' :: token, made, fun other => ?_⟩
    have read : (literal "/").rests (.scalar '/' :: (token ++ other)) = [token ++ other] := by
      have read := rests_literal '/' (.scalar '/') (token ++ other)
      rwa [if_pos rfl] at read
    have noName : (seq (one nameStart) (close noAngle)).rests
        (.scalar '/' :: (token ++ other)) = [] := by
      rw [rests_one, if_neg (by decide)]
    rw [List.cons_append, rests, rests, read, List.singleton_append, List.flatMap_cons,
      List.flatMap_singleton]
    exact (congrArg₂ _ (all other) noName).trans (List.append_nil _)
  · obtain rfl := List.mem_singleton.mp whole
    obtain ⟨token, made, all⟩ := named _ _ inner
    obtain ⟨point, more, named, accepted, -⟩ := exists_of_mem_one inner
    refine ⟨token, made, fun other => ?_⟩
    have begins : ∃ tail, token = point :: tail := by
      cases token with
      | nil =>
          have taken := all []
          rw [List.append_nil] at taken
          cases taken
      | cons first tail =>
          rw [made, List.cons_append, List.cons.injEq] at named
          exact ⟨tail, by rw [named.1]⟩
    obtain ⟨tail, rfl⟩ := begins
    have noSlash : (literal "/").rests (point :: tail ++ other) = [] := by
      have read := rests_literal '/' point (tail ++ other)
      rwa [if_neg] at read
      rintro rfl
      cases accepted
    rw [rests, rests, noSlash, List.nil_append, List.flatMap_singleton]
    exact all other

/-- Every token begins with `<`. -/
theorem markupToken_begins {text rest : Str} (left : rest ∈ markupToken.rests text) :
    ∃ token, text = .scalar '<' :: token ++ rest := by
  have taken : markupToken.plain = true := rfl
  obtain ⟨token, rfl, -, anywhere⟩ := exists_takes taken left
  have first : ∃ more, token ++ rest = .scalar '<' :: more := by
    rcases List.mem_append.mp left with cdata | left
    · obtain ⟨more, made, -⟩ := exists_of_mem_rests_word cdata
      exact ⟨_, made⟩
    · rcases List.mem_append.mp left with commented | left
      · obtain ⟨more, made, -⟩ := exists_of_mem_rests_word commented
        exact ⟨_, made⟩
      · rcases List.mem_append.mp left with declared | tagged
        · obtain ⟨more, made, -⟩ := exists_of_mem_rests_word declared
          exact ⟨_, made⟩
        · obtain ⟨more, made, -⟩ := exists_of_mem_rests_word tagged
          exact ⟨_, made⟩
  obtain ⟨more, made⟩ := first
  cases token with
  | nil =>
      have nothing : ([] : Str) ∈ markupToken.rests [] := anywhere []
      exact absurd nothing (by decide)
  | cons point token =>
      rw [List.cons_append, List.cons.injEq] at made
      exact ⟨token, by rw [made.1]⟩

end Tokens

section Transfer

open Regex

variable {marks : List Written}

theorem replace_begins (point : CodePoint) : ∃ name, replace [point] = .scalar '&' :: name := by
  rw [replace]
  split_ifs
  · exact ⟨_, rfl⟩
  · exact ⟨_, rfl⟩

theorem mem_replace {point other : CodePoint} (listed : other ∈ replace [point]) :
    other ∈ Str.ofChars "&lt;amp".toList := by
  rw [replace] at listed
  split_ifs at listed
  · revert other
    decide
  · revert other
    decide

/-- A beginning without `&` is kept from the answer. -/
theorem exists_kept {word more : Str} (made : marks.flatMap Written.text = word ++ more)
    (plain : .scalar '&' ∉ word) :
    ∃ others, marks = word.map .kept ++ others ∧ others.flatMap Written.text = more := by
  induction word generalizing marks with
  | nil => exact ⟨marks, rfl, made⟩
  | cons point word ih =>
      obtain ⟨noAmpersand, plainWord⟩ := List.ne_and_not_mem_of_not_mem_cons plain
      cases marks with
      | nil => cases made
      | cons mark marks =>
          rw [List.flatMap_cons, List.cons_append] at made
          cases mark with
          | kept other =>
              obtain ⟨same, later⟩ := List.cons.inj made
              obtain ⟨others, rfl, ended⟩ := ih later plainWord
              exact ⟨others, by rw [same, List.map_cons, List.cons_append], ended⟩
          | escaped other =>
              obtain ⟨name, begins⟩ := replace_begins other
              rw [Written.text, begins] at made
              exact absurd (List.cons.inj made).1 noAmpersand

theorem source_kept (word : Str) (others : List Written) :
    (word.map Written.kept ++ others).map Written.source = word ++ others.map Written.source := by
  rw [List.map_append, List.map_map, show Written.source ∘ Written.kept = id from rfl, List.map_id]

theorem text_kept (word : Str) (others : List Written) :
    (word.map Written.kept ++ others).flatMap Written.text = word ++ others.flatMap Written.text := by
  rw [List.flatMap_append, List.flatMap_map]
  exact congrArg (· ++ _) (List.flatMap_singleton' word)

theorem infix_of_append {α : Type} {word skipped rest : List α} (some : word ≠ [])
    (apart : ∀ element ∈ word, element ∉ skipped) (occurs : word <:+: skipped ++ rest) :
    word <:+: rest := by
  induction skipped with
  | nil => exact occurs
  | cons first skipped ih =>
      have fewer : ∀ element ∈ word, element ∉ skipped := fun element listed also =>
        apart element listed (.tail _ also)
      rw [List.cons_append, List.infix_cons_iff] at occurs
      rcases occurs with begins | later
      · obtain ⟨head, tail, rfl⟩ := List.exists_cons_of_ne_nil some
        obtain ⟨more, made⟩ := begins
        have same : head = first := (List.cons.inj made).1
        exact absurd (same ▸ List.Mem.head skipped) (apart head (.head _))
      · exact ih fewer later

/-- A word that shares no character with a reference stood in the answer where it stands now. -/
theorem infix_source {word : Str} (some : word ≠ [])
    (apart : ∀ point ∈ word, point ∉ Str.ofChars "&lt;amp".toList)
    (occurs : word <:+: marks.flatMap Written.text) : word <:+: marks.map Written.source := by
  have noAmpersand : .scalar '&' ∉ word := fun listed => apart _ listed (by decide)
  induction marks with
  | nil => exact occurs
  | cons mark marks ih =>
      rw [List.flatMap_cons] at occurs
      rw [List.map_cons, List.infix_cons_iff]
      cases mark with
      | kept point =>
          rw [Written.text, List.singleton_append, List.infix_cons_iff] at occurs
          rcases occurs with ⟨more, begins⟩ | later
          · have made : ((Written.kept point) :: marks).flatMap Written.text = word ++ more := begins.symm
            obtain ⟨others, whole, -⟩ := exists_kept made noAmpersand
            have sources := congrArg (List.map Written.source) whole
            rw [source_kept] at sources
            exact .inl ⟨others.map Written.source, sources.symm⟩
          · exact .inr (ih later)
      | escaped point =>
          exact .inr (ih (infix_of_append some (fun other listed also =>
            apart other listed (mem_replace also)) occurs))

theorem enclosed_source {opening closing : Str} (some : closing ≠ [])
    (plain : .scalar '&' ∉ opening)
    (apart : ∀ point ∈ closing, point ∉ Str.ofChars "&lt;amp".toList)
    (unmatched : (seq (word opening) (through closing)).rests (marks.map Written.source) = []) :
    (seq (word opening) (through closing)).rests (marks.flatMap Written.text) = [] := by
  refine List.eq_nil_iff_forall_not_mem.mpr fun rest left => ?_
  obtain ⟨more, made, inner⟩ := exists_of_mem_rests_word left
  obtain ⟨others, rfl, rfl⟩ := exists_kept made plain
  have occurs := infix_source some apart (infix_of_mem_through inner)
  rw [source_kept, rests_word_append] at unmatched
  exact through_of_infix occurs unmatched

theorem declaration_source (unmatched : declaration.rests (marks.map Written.source) = []) :
    declaration.rests (marks.flatMap Written.text) = [] := by
  refine List.eq_nil_iff_forall_not_mem.mpr fun rest left => ?_
  obtain ⟨more, made, inner⟩ := exists_of_mem_rests_word left
  obtain ⟨point, text, rfl, accepted, closed⟩ := exists_of_mem_one inner
  obtain ⟨run, rfl, -⟩ := exists_run_of_close closed
  have plain : .scalar '&' ∉ Str.ofChars "<".toList ++ [point] := by
    intro listed
    rcases List.mem_append.mp listed with first | second
    · revert first
      decide
    · rw [← List.mem_singleton.mp second] at accepted
      cases accepted
  rw [List.append_cons] at made
  obtain ⟨others, rfl, ended⟩ := exists_kept made plain
  have occurs : [CodePoint.scalar '>'] <:+: others.map Written.source := by
    refine infix_source (List.cons_ne_nil _ _) (by decide) ?_
    rw [ended]
    exact ⟨run, rest, by rw [List.append_assoc]; rfl⟩
  obtain ⟨taken, left, whole, fresh⟩ :=
    List.eq_append_cons_of_mem (occurs.subset (List.mem_singleton_self _))
  have unclosed : ∀ element ∈ taken, noClose element = true := by
    intro element listed
    have other : element ≠ .scalar '>' := fun same => fresh (same ▸ listed)
    simp only [noClose, isPoint, other, decide_false, Bool.not_false]
  have reads := rests_many_close (show noClose (.scalar '>') = false by decide) unclosed left
  rw [source_kept, ← List.append_cons, declaration, literal, rests_word_append, rests_one,
    if_pos accepted, whole] at unmatched
  exact absurd (reads.symm.trans unmatched) (List.cons_ne_nil _ _)

/-- A token of the answer is one of the escaped answer. -/
theorem after_token {token : Str}
    (matched : markupToken.after (token ++ marks.map Written.source) =
      some (marks.map Written.source)) :
    markupToken.after (token ++ marks.flatMap Written.text) =
      some (marks.flatMap Written.text) := by
  have none_cdata : cdataSection.after (token ++ marks.map Written.source) = none →
      cdataSection.after (token ++ marks.flatMap Written.text) = none := by
    rw [after_eq_none, after_eq_none, ← source_kept, ← text_kept]
    exact enclosed_source (by decide) (by decide) (by decide)
  have none_comment : comment.after (token ++ marks.map Written.source) = none →
      comment.after (token ++ marks.flatMap Written.text) = none := by
    rw [after_eq_none, after_eq_none, ← source_kept, ← text_kept]
    exact enclosed_source (by decide) (by decide) (by decide)
  have none_declaration : declaration.after (token ++ marks.map Written.source) = none →
      declaration.after (token ++ marks.flatMap Written.text) = none := by
    rw [after_eq_none, after_eq_none, ← source_kept, ← text_kept]
    exact declaration_source
  rw [markupToken, after_either, after_either, after_either] at matched ⊢
  rcases Option.or_eq_some_iff.mp matched with cdata | ⟨noCdata, matched⟩
  · have kept := after_enclosed (by decide) cdata (marks.flatMap Written.text)
    exact Option.or_eq_some_iff.mpr (.inl kept)
  · rw [none_cdata noCdata, Option.none_or]
    rcases Option.or_eq_some_iff.mp matched with commented | ⟨noComment, matched⟩
    · have kept := after_enclosed (by decide) commented (marks.flatMap Written.text)
      exact Option.or_eq_some_iff.mpr (.inl kept)
    · rw [none_comment noComment, Option.none_or]
      rcases Option.or_eq_some_iff.mp matched with declared | ⟨noDeclaration, tagged⟩
      · exact Option.or_eq_some_iff.mpr (.inl (closed_declaration.after declared _))
      · rw [none_declaration noDeclaration, Option.none_or]
        exact closed_tag.after tagged _

end Transfer

section Segments

/-- Text outside tokens that XML reads as it stands: no `<`, and no `&` that opens no reference. -/
def Clean : Str → Prop
  | [] => True
  | point :: rest => ¬ IsStray point rest ∧ Clean rest

theorem written_of_clean {segment : Str} (clean : Clean segment) :
    written segment = segment.map .kept := by
  induction segment with
  | nil => rfl
  | cons point rest ih =>
      rw [written, if_neg clean.1, ih clean.2, List.map_cons]

theorem written_append {taken : Str} (plain : ∀ point ∈ taken, point ≠ .scalar '<' ∧
    point ≠ .scalar '&') (rest : Str) : written (taken ++ rest) = taken.map .kept ++ written rest := by
  induction taken with
  | nil => rfl
  | cons point taken ih =>
      obtain ⟨⟨noLess, noAmpersand⟩, plain⟩ := List.forall_mem_cons.mp plain
      have kept : ¬ IsStray point (taken ++ rest) := fun stray =>
        stray.elim noLess fun other => noAmpersand other.1
      rw [List.cons_append, written, if_neg kept, ih plain, List.map_cons, List.cons_append]

/-- A reference that stands in a text still stands in the text as it is written. -/
theorem reference_kept {rest : Str} (opens : xmlReferenceBody.rests rest ≠ []) :
    xmlReferenceBody.rests ((written rest).flatMap Written.text) ≠ [] := by
  obtain ⟨left, read⟩ := List.exists_mem_of_ne_nil _ opens
  have looksAtNothing : xmlReferenceBody.plain = true := rfl
  obtain ⟨taken, rfl, mentioned, anywhere⟩ := Regex.exists_takes looksAtNothing read
  have noLess : xmlReferenceBody.mentions (.scalar '<') = false := by decide
  have noAmpersand : xmlReferenceBody.mentions (.scalar '&') = false := by decide
  have plain : ∀ point ∈ taken, point ≠ .scalar '<' ∧ point ≠ .scalar '&' := by
    intro point listed
    have named := mentioned point listed
    constructor
    · rintro rfl
      rw [noLess] at named
      cases named
    · rintro rfl
      rw [noAmpersand] at named
      cases named
  rw [written_append plain, text_kept]
  exact List.ne_nil_of_mem (anywhere _)

theorem clean_append {taken rest : Str} (plain : ∀ point ∈ taken, point ≠ .scalar '<' ∧
    point ≠ .scalar '&') (clean : Clean rest) : Clean (taken ++ rest) := by
  induction taken with
  | nil => exact clean
  | cons point taken ih =>
      obtain ⟨⟨noLess, noAmpersand⟩, plain⟩ := List.forall_mem_cons.mp plain
      exact ⟨fun stray => stray.elim noLess fun other => noAmpersand other.1, ih plain⟩

/-- What a stray character is written as opens a reference. -/
theorem clean_replace (point : CodePoint) {rest : Str} (clean : Clean rest) :
    Clean (replace [point] ++ rest) := by
  rw [replace]
  split_ifs
  · have opens : xmlReferenceBody.rests (Str.ofChars "lt;".toList ++ rest) ≠ [] := by
      have read : xmlReferenceBody.rests (Str.ofChars "lt;".toList ++ rest) = [rest] := rfl
      rw [read]
      exact List.cons_ne_nil _ _
    exact ⟨fun stray => stray.elim (by decide) fun other => opens other.2,
      clean_append (by decide) clean⟩
  · have opens : xmlReferenceBody.rests (Str.ofChars "amp;".toList ++ rest) ≠ [] := by
      have read : xmlReferenceBody.rests (Str.ofChars "amp;".toList ++ rest) = [rest] := rfl
      rw [read]
      exact List.cons_ne_nil _ _
    exact ⟨fun stray => stray.elim (by decide) fun other => opens other.2,
      clean_append (by decide) clean⟩

theorem clean_written (segment : Str) : Clean ((written segment).flatMap Written.text) := by
  induction segment with
  | nil => trivial
  | cons point rest ih =>
      rw [written, List.flatMap_cons]
      split_ifs with stray
      · exact clean_replace point ih
      · refine ⟨fun also => ?_, ih⟩
        rcases also with less | ⟨ampersand, closes⟩
        · exact stray (.inl less)
        · refine reference_kept (fun unread => ?_) closes
          exact stray (.inr ⟨ampersand, unread⟩)

end Segments

section Answer

variable {parts : List (Str × Str)} {last : Str}

theorem markupToken_consumes : markupToken.Consumes := by
  intro text rest left
  obtain ⟨token, made⟩ := markupToken_begins (Regex.mem_of_after left)
  exact ⟨_, List.cons_ne_nil _ _, made⟩

/-- The whole answer as it is written: the text between its tokens, and the tokens as they are. -/
def writtenParts : List (Str × Str) → Str → List Written
  | [], last => written last
  | part :: parts, last => written part.1 ++ (part.2.map .kept ++ writtenParts parts last)

/-- A text between tokens as the escaped answer has it. -/
def escapedSegment (segment : Str) : Str := (written segment).flatMap Written.text

def escapedParts (parts : List (Str × Str)) : List (Str × Str) :=
  parts.map fun part => (escapedSegment part.1, part.2)

theorem writtenParts_source (parts : List (Str × Str)) (last : Str) :
    (writtenParts parts last).map Written.source = Regex.joined parts last := by
  induction parts with
  | nil => exact written_source last
  | cons part parts ih =>
      rw [writtenParts, List.map_append, written_source, source_kept, ih, Regex.joined]

theorem writtenParts_text (parts : List (Str × Str)) (last : Str) :
    (writtenParts parts last).flatMap Written.text =
      Regex.joined (escapedParts parts) (escapedSegment last) := by
  induction parts with
  | nil => rfl
  | cons part parts ih =>
      rw [writtenParts, List.flatMap_append, text_kept, ih]
      rfl

theorem quiet_escaped (segment rest : Str) : markupToken.Quiet (escapedSegment segment) rest := by
  have clean := clean_written segment
  rw [← escapedSegment] at clean
  generalize escapedSegment segment = text at clean ⊢
  induction text with
  | nil => trivial
  | cons point text ih =>
      refine ⟨?_, ih clean.2⟩
      rw [Regex.after_eq_none, List.eq_nil_iff_forall_not_mem]
      intro left read
      obtain ⟨token, made⟩ := markupToken_begins read
      exact clean.1 (.inl (List.cons.inj made).1)

theorem parsed_escaped (parsed : markupToken.Parsed parts last) :
    markupToken.Parsed (escapedParts parts) (escapedSegment last) := by
  induction parts with
  | nil => exact quiet_escaped last []
  | cons part parts ih =>
      obtain ⟨-, some, matched, later⟩ := parsed
      refine ⟨quiet_escaped part.1 _, some, ?_, ih later⟩
      rw [← writtenParts_source] at matched
      have kept := after_token matched
      rwa [writtenParts_text] at kept

/-- The escaped answer, by the characters of the answer. -/
theorem escapeStrayMarkup_written (body : Str) : escapeStrayMarkup body =
    ((writtenParts (markupToken.split body).1 (markupToken.split body).2).flatMap Written.text,
      (writtenParts (markupToken.split body).1 (markupToken.split body).2).countP
        Written.isEscaped) := by
  rw [escapeStrayMarkup]
  generalize markupToken.split body = found
  obtain ⟨parts, last⟩ := found
  dsimp only
  rw [subn_replace]
  induction parts with
  | nil => simp [writtenParts]
  | cons part parts ih =>
      rw [Prod.mk.injEq] at ih
      have noneEscaped (token : Str) : (token.map Written.kept).countP Written.isEscaped = 0 := by
        rw [List.countP_map, List.countP_eq_zero]
        exact fun _ _ escaped => nomatch escaped
      rw [writtenParts, List.flatMap_append, text_kept, ← ih.1, List.countP_append,
        List.countP_append, noneEscaped, ← ih.2, List.map_cons, List.map_cons, List.flatMap_cons,
        List.sum_cons, subn_replace]
      simp only [List.append_assoc, Nat.zero_add, Nat.add_assoc]

/-- The markup tokens of a text, in order. -/
def tokens (text : Str) : List Str := (markupToken.split text).1.map Prod.snd

/-- The stretches of a text outside its markup tokens. -/
def outside (text : Str) : List Str :=
  (markupToken.split text).1.map Prod.fst ++ [(markupToken.split text).2]

theorem split_escaped (body : Str) : markupToken.split (escapeStrayMarkup body).1 =
    (escapedParts (markupToken.split body).1, escapedSegment (markupToken.split body).2) := by
  obtain ⟨-, parsed⟩ := Regex.split_parsed markupToken_consumes body
  rw [escapeStrayMarkup_written, writtenParts_text]
  exact Regex.split_joined (parsed_escaped parsed)

theorem clean_outside {body segment : Str} (listed : segment ∈ outside (escapeStrayMarkup body).1) :
    Clean segment := by
  rw [outside, split_escaped, List.mem_append, escapedParts, List.map_map] at listed
  rcases listed with inner | last
  · obtain ⟨part, -, rfl⟩ := List.mem_map.mp inner
    exact clean_written part.1
  · rw [List.mem_singleton.mp last]
    exact clean_written _

theorem Clean.notStray {before rest : Str} {point : CodePoint}
    (clean : Clean (before ++ point :: rest)) : ¬ IsStray point rest := by
  induction before with
  | nil => exact clean.1
  | cons first before ih => exact ih clean.2

theorem writtenParts_stray {parts : List (Str × Str)} {last : Str} {mark : Written}
    (listed : mark ∈ writtenParts parts last) : mark.Stray := by
  induction parts with
  | nil => exact written_stray listed
  | cons part parts ih =>
      rcases List.mem_append.mp listed with inner | listed
      · exact written_stray inner
      · rcases List.mem_append.mp listed with token | later
        · obtain ⟨point, -, rfl⟩ := List.mem_map.mp token
          trivial
        · exact ih later

/-- Every reference is longer than the character it stands for. -/
theorem length_text (marks : List Written) :
    marks.length + marks.countP Written.isEscaped ≤ (marks.flatMap Written.text).length := by
  have longer (point : CodePoint) : 2 ≤ (replace [point]).length := by
    rw [replace]
    split_ifs <;> decide
  induction marks with
  | nil => exact le_rfl
  | cons mark marks ih =>
      rw [List.flatMap_cons, List.length_append, List.countP_cons, List.length_cons]
      cases mark with
      | kept point =>
          simp only [Written.isEscaped, Written.text, List.length_singleton, Bool.false_eq_true,
            if_false]
          omega
      | escaped point =>
          have more := longer point
          simp only [Written.isEscaped, Written.text, if_true]
          omega

theorem text_of_unescaped {marks : List Written} (none : marks.countP Written.isEscaped = 0) :
    marks.flatMap Written.text = marks.map Written.source := by
  induction marks with
  | nil => rfl
  | cons mark marks ih =>
      rw [List.countP_cons] at none
      cases mark with
      | kept point =>
          rw [List.flatMap_cons, ih (by omega)]
          rfl
      | escaped point => simp [Written.isEscaped] at none

theorem escaped_unchanged_iff (marks : List Written) :
    marks.countP Written.isEscaped = 0 ↔
      marks.flatMap Written.text = marks.map Written.source := by
  refine ⟨text_of_unescaped, fun same => ?_⟩
  have longer := length_text marks
  rw [same, List.length_map] at longer
  omega

theorem written_escapedSegment (segment : Str) :
    written (escapedSegment segment) = (escapedSegment segment).map .kept :=
  written_of_clean (clean_written segment)

/-- The escaped answer is written as it stands. -/
theorem writtenParts_escaped (parts : List (Str × Str)) (last : Str) :
    writtenParts (escapedParts parts) (escapedSegment last) =
      (Regex.joined (escapedParts parts) (escapedSegment last)).map .kept := by
  induction parts with
  | nil => exact written_escapedSegment last
  | cons part parts ih =>
      rw [escapedParts, List.map_cons, ← escapedParts, writtenParts, Regex.joined,
        written_escapedSegment, ih, List.map_append, List.map_append]

theorem escapeStrayMarkup_again (body : Str) :
    escapeStrayMarkup (escapeStrayMarkup body).1 = ((escapeStrayMarkup body).1, 0) := by
  have none (text : Str) : (text.map Written.kept).countP Written.isEscaped = 0 := by
    rw [List.countP_map, List.countP_eq_zero]
    exact fun _ _ escaped => nomatch escaped
  rw [escapeStrayMarkup_written (escapeStrayMarkup body).1, split_escaped]
  dsimp only
  rw [writtenParts_escaped, none]
  rw [escapeStrayMarkup_written, writtenParts_text]
  have kept := text_kept
    (Regex.joined (escapedParts (markupToken.split body).1)
      (escapedSegment (markupToken.split body).2)) []
  simp only [List.append_nil, List.flatMap_nil] at kept
  rw [kept]

/-- Escaping is lossless, leaves every token as it is and makes none, leaves nothing outside the
tokens that XML would misread, and changes nothing of what it wrote. -/
theorem escapeStrayMarkup_exact (body : Str) :
    (∃ marks : List Written, marks.map Written.source = body ∧
      marks.flatMap Written.text = (escapeStrayMarkup body).1 ∧
      marks.countP Written.isEscaped = (escapeStrayMarkup body).2 ∧ ∀ mark ∈ marks, mark.Stray) ∧
    tokens (escapeStrayMarkup body).1 = tokens body ∧
    (∀ segment ∈ outside (escapeStrayMarkup body).1, ∀ before point after,
      segment = before ++ point :: after →
        point ≠ .scalar '<' ∧ (point = .scalar '&' → xmlReferenceBody.rests after ≠ [])) ∧
    ((escapeStrayMarkup body).2 = 0 ↔ (escapeStrayMarkup body).1 = body) ∧
    escapeStrayMarkup (escapeStrayMarkup body).1 = ((escapeStrayMarkup body).1, 0) := by
  obtain ⟨whole, -⟩ := Regex.split_parsed markupToken_consumes body
  have sources := writtenParts_source (markupToken.split body).1 (markupToken.split body).2
  rw [← whole] at sources
  have result := escapeStrayMarkup_written body
  refine ⟨⟨_, sources, ?_, ?_, fun mark => writtenParts_stray⟩, ?_, ?_, ?_,
    escapeStrayMarkup_again body⟩
  · rw [result]
  · rw [result]
  · rw [tokens, split_escaped, tokens, escapedParts, List.map_map]
    rfl
  · rintro segment listed before point after rfl
    have plain := (clean_outside listed).notStray
    exact ⟨fun less => plain (.inl less), fun ampersand closes => plain (.inr ⟨ampersand, closes⟩)⟩
  · have unchanged := escaped_unchanged_iff
      (writtenParts (markupToken.split body).1 (markupToken.split body).2)
    rw [sources] at unchanged
    rw [result]
    exact unchanged

end Answer

end Verbatus.Churro
