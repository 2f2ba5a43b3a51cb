import Mathlib.Data.List.TakeWhile
import Verbatus.Contracts.References
import Verbatus.Library.Scan
import Verbatus.Python.StrText

namespace Verbatus.DoubtMarks

open Library Library.Checked Python CodePoint
open Identities (str)

section Grammar

def opening : Str := str "[["

def closing : Str := str "]]"

/-- What parts the readings a mark offers. -/
def bar : CodePoint := scalar '|'

def isBracket (point : CodePoint) : Bool := point = scalar '[' || point = scalar ']'

/-- A text that holds no bracket. -/
def Bare (text : Str) : Prop := ∀ point ∈ text, isBracket point = false

instance (text : Str) : Decidable (Bare text) := inferInstanceAs (Decidable (∀ _ ∈ _, _))

/-- What stands between the opening brackets and the next bracket. -/
def bodyOf (text : Str) : Str := (text.drop 2).takeWhile fun point => !isBracket point

/-- How long the mark is that a text begins with. -/
def markAt (text : Str) : Option ℕ :=
  if opening <+: text ∧ closing <+: text.drop ((bodyOf text).length + 2) then
    some ((bodyOf text).length + 4)
  else none

theorem bare_bodyOf (text : Str) : Bare (bodyOf text) := by
  intro point member
  have outside := List.mem_takeWhile_imp member
  simpa using outside

/-- The body of a mark ends at its closing brackets. -/
theorem bodyOf_mark {body : Str} (bare : Bare body) (rest : Str) :
    bodyOf (opening ++ body ++ closing ++ rest) = body := by
  have dropped : (opening ++ body ++ closing ++ rest).drop 2 = body ++ (closing ++ rest) := by
    rw [List.append_assoc, List.append_assoc]
    rfl
  have outside : ∀ point ∈ body, (!isBracket point) = true := by
    intro point member
    rw [bare point member]
    rfl
  rw [bodyOf, dropped, List.takeWhile_append_of_pos outside]
  exact List.append_nil body

theorem markAt_eq_some {text : Str} {length : ℕ} : markAt text = some length ↔
    ∃ body, Bare body ∧ opening ++ body ++ closing <+: text ∧ length = body.length + 4 := by
  constructor
  · intro matched
    rw [markAt, ite_eq_iff'] at matched
    by_cases marked : opening <+: text ∧ closing <+: text.drop ((bodyOf text).length + 2)
    · have size := matched.1 marked
      rw [Option.some.injEq] at size
      obtain ⟨⟨inner, rfl⟩, rest, ends⟩ := marked
      refine ⟨_, bare_bodyOf _, ⟨rest, ?_⟩, size.symm⟩
      have body : bodyOf (opening ++ inner) = inner.takeWhile fun point => !isBracket point := rfl
      have after : (opening ++ inner).drop ((bodyOf (opening ++ inner)).length + 2) =
          inner.drop (bodyOf (opening ++ inner)).length := rfl
      rw [after, body] at ends
      rw [body, List.append_assoc, ends, List.append_assoc]
      congr 1
      have cut := List.prefix_iff_eq_take.mp
        (List.takeWhile_prefix (l := inner) fun point => !isBracket point)
      conv_lhs => arg 1; rw [cut]
      exact List.take_append_drop _ inner
    · cases matched.2 marked
  · rintro ⟨body, bare, ⟨rest, rfl⟩, rfl⟩
    have same := bodyOf_mark bare rest
    have after : (opening ++ body ++ closing ++ rest).drop (body.length + 2) = closing ++ rest := by
      have size : (opening ++ body).length = body.length + 2 := by
        rw [List.length_append, Nat.add_comm]
        rfl
      rw [← size, List.append_assoc, List.drop_left]
    rw [markAt, same, after, if_pos]
    refine ⟨?_, List.prefix_append _ _⟩
    rw [List.append_assoc, List.append_assoc]
    exact List.prefix_append _ _

theorem length_mark (body : Str) : (opening ++ body ++ closing).length = body.length + 4 := by
  simp only [List.length_append]
  have sizes : opening.length = 2 ∧ closing.length = 2 := ⟨rfl, rfl⟩
  omega

/-- The doubt marks of a text, `[[` and `]]` with no bracket between them. -/
def mark : Pattern CodePoint where
  matchAt := markAt
  pos := by
    intro text length matched
    obtain ⟨body, -, -, rfl⟩ := markAt_eq_some.mp matched
    omega
  inside := by
    intro text length matched
    obtain ⟨body, -, begins, rfl⟩ := markAt_eq_some.mp matched
    rw [← length_mark]
    exact begins.length_le
  ahead := by
    intro text rest length within
    rw [markAt_eq_some, markAt_eq_some]
    constructor
    · rintro ⟨body, bare, begins, rfl⟩
      rw [← length_mark] at within
      exact ⟨body, bare, List.prefix_of_prefix_length_le begins (List.prefix_append _ _) within,
        rfl⟩
    · rintro ⟨body, bare, begins, rfl⟩
      exact ⟨body, bare, begins.trans (List.prefix_append _ _), rfl⟩

/-- A mark by itself is its brackets and a body. -/
theorem mark_matchAt {found : Str} (matched : mark.matchAt found = some found.length) :
    Bare (bodyOf found) ∧ found = opening ++ bodyOf found ++ closing := by
  obtain ⟨body, bare, begins, size⟩ := markAt_eq_some.mp matched
  have whole := begins.eq_of_length (by rw [length_mark, size])
  have same := bodyOf_mark bare []
  rw [List.append_nil, whole] at same
  rw [same]
  exact ⟨bare, whole.symm⟩

theorem matchAt_mark {body : Str} (bare : Bare body) (rest : Str) :
    mark.matchAt (opening ++ body ++ closing ++ rest) =
      some (opening ++ body ++ closing).length := by
  rw [length_mark]
  exact markAt_eq_some.mpr ⟨body, bare, List.prefix_append _ _, rfl⟩

end Grammar

section Tokens

/-- A reading the reader was unsure of, with the other readings it offered. -/
structure Doubt where
  reading : Str
  alternatives : List Str
  named : reading ≠ [] ∧ reading ≠ str "?"
  offered : [] ∉ alternatives
  bare : ∀ text ∈ reading :: alternatives, Bare text ∧ bar ∉ text
  deriving DecidableEq

def Doubt.body (doubt : Doubt) : Str := [bar].intercalate (doubt.reading :: doubt.alternatives)

def illegibleMark : Str := str "[[?]]"

/-- What a marked reading is made of: characters, and the reader's doubts. -/
inductive Token where
  | plain (point : CodePoint)
  | gap
  | doubt (doubt : Doubt)
  deriving DecidableEq

namespace Token

/-- The token as the reader wrote it. -/
def raw : Token → Str
  | plain point => [point]
  | gap => illegibleMark
  | doubt marked => opening ++ marked.body ++ closing

/-- The token as it stands in the established text. -/
def text : Token → Str
  | plain point => [point]
  | gap => []
  | doubt marked => marked.reading

def piece : Token → Piece CodePoint
  | plain point => .plain point
  | gap => .found illegibleMark
  | doubt marked => .found (opening ++ marked.body ++ closing)

end Token

def rawOf (tokens : List Token) : Str := tokens.flatMap Token.raw

def textOf (tokens : List Token) : Str := tokens.flatMap Token.text

@[simp] theorem rawOf_nil : rawOf [] = [] := rfl

@[simp] theorem rawOf_cons (token : Token) (tokens : List Token) :
    rawOf (token :: tokens) = token.raw ++ rawOf tokens := rfl

@[simp] theorem rawOf_append (first second : List Token) :
    rawOf (first ++ second) = rawOf first ++ rawOf second := List.flatMap_append

@[simp] theorem textOf_nil : textOf [] = [] := rfl

@[simp] theorem textOf_cons (token : Token) (tokens : List Token) :
    textOf (token :: tokens) = token.text ++ textOf tokens := rfl

@[simp] theorem textOf_append (first second : List Token) :
    textOf (first ++ second) = textOf first ++ textOf second := List.flatMap_append

/-- The readings a mark offers. -/
def readings (found : Str) : List Str := (bodyOf found).splitOn bar

theorem mem_of_mem_splitOn {found part : Str} (listed : part ∈ found.splitOn bar) :
    bar ∉ part ∧ ∀ point ∈ part, point ∈ found := by
  induction found generalizing part with
  | nil =>
      rw [List.splitOn_eq_singleton List.not_mem_nil, List.mem_singleton] at listed
      simp [listed]
  | cons first rest ih =>
      obtain ⟨head, tail, split⟩ := List.exists_cons_of_ne_nil (List.splitOn_ne_nil bar rest)
      rw [List.splitOn_cons_eq_if_modifyHead, split] at listed
      rw [split] at ih
      by_cases parts : first = bar
      · simp only [parts, beq_self_eq_true, if_true, List.mem_cons] at listed
        rcases listed with rfl | listed
        · simp
        · obtain ⟨apart, within⟩ := ih (List.mem_cons.mpr listed)
          exact ⟨apart, fun point member => .tail _ (within point member)⟩
      · simp only [beq_iff_eq, parts, if_false, List.modifyHead_cons, List.mem_cons] at listed
        rcases listed with rfl | listed
        · obtain ⟨apart, within⟩ := ih (.head _)
          refine ⟨?_, ?_⟩
          · rw [List.mem_cons, not_or]
            exact ⟨fun same => parts same.symm, apart⟩
          · intro point member
            rcases List.mem_cons.mp member with rfl | member
            · exact .head _
            · exact .tail _ (within point member)
        · obtain ⟨apart, within⟩ := ih (.tail _ listed)
          exact ⟨apart, fun point member => .tail _ (within point member)⟩

theorem readings_bare (found : Str) : ∀ text ∈ readings found, Bare text ∧ bar ∉ text := by
  intro text listed
  obtain ⟨apart, within⟩ := mem_of_mem_splitOn listed
  exact ⟨fun point member => bare_bodyOf found point (within point member), apart⟩

theorem readings_eq (found : Str) :
    (readings found).headD [] :: (readings found).tail = readings found := by
  obtain ⟨head, tail, split⟩ := List.exists_cons_of_ne_nil
    (show readings found ≠ [] from List.splitOn_ne_nil bar _)
  rw [split]
  rfl

/-- What a mark stands for; a mark that names no reading is returned as the error. -/
def readMark (found : Str) : Except Str Token :=
  if bodyOf found = str "?" then .ok .gap
  else
    let reading := (readings found).headD []
    let alternatives := (readings found).tail
    if named : (reading ≠ [] ∧ reading ≠ str "?") ∧ [] ∉ alternatives then
      .ok (.doubt ⟨reading, alternatives, named.1, named.2, by
        rw [readings_eq]
        exact readings_bare found⟩)
    else .error found

def readPiece : Piece CodePoint → Except Str Token
  | .plain point => .ok (.plain point)
  | .found found => readMark found

/-- What a marked reading is made of, when each of its marks is a doubt. -/
def tokensOf (raw : Str) : Except Str (List Token) := (mark.scan raw).mapM readPiece

theorem Doubt.readings_bars (marked : Doubt) :
    marked.body.splitOn bar = marked.reading :: marked.alternatives :=
  List.splitOn_intercalate bar (fun text listed => (marked.bare text listed).2)
    (List.cons_ne_nil _ _)

theorem mem_intercalate {point other : CodePoint} {parts : List Str}
    (member : point ∈ [other].intercalate parts) : point = other ∨ ∃ part ∈ parts, point ∈ part := by
  induction parts with
  | nil => simp at member
  | cons first rest ih =>
      cases rest with
      | nil =>
          rw [List.intercalate_singleton] at member
          exact .inr ⟨first, .head _, member⟩
      | cons second rest =>
          rw [List.intercalate_cons_cons, List.mem_append, List.mem_append] at member
          rcases member with (here | between) | later
          · exact .inr ⟨first, .head _, here⟩
          · exact .inl (List.mem_singleton.mp between)
          · rcases ih later with same | ⟨part, listed, inside⟩
            · exact .inl same
            · exact .inr ⟨part, .tail _ listed, inside⟩

theorem Doubt.bare_body (marked : Doubt) : Bare marked.body := by
  intro point member
  rcases mem_intercalate member with rfl | ⟨part, listed, inside⟩
  · rfl
  · exact (marked.bare part listed).1 point inside

/-- A doubt is never written as a gap is. -/
theorem Doubt.body_ne (marked : Doubt) : marked.body ≠ str "?" := by
  intro same
  have split := marked.readings_bars
  rw [same, List.splitOn_eq_singleton (by decide), List.cons.injEq] at split
  exact marked.named.2 split.1.symm

theorem Token.raw_eq (token : Token) : token.piece.text = token.raw := by
  cases token <;> rfl

theorem bodyOf_illegibleMark : bodyOf illegibleMark = str "?" := by decide

theorem Doubt.bodyOf_raw (marked : Doubt) :
    bodyOf (opening ++ marked.body ++ closing) = marked.body := by
  have same := bodyOf_mark marked.bare_body []
  rwa [List.append_nil] at same

/-- A token read from its own mark is the token. -/
theorem Token.readPiece_piece (token : Token) : readPiece token.piece = .ok token := by
  cases token with
  | plain point => rfl
  | gap =>
      change readMark illegibleMark = _
      rw [readMark, if_pos bodyOf_illegibleMark]
  | doubt marked =>
      have split : readings (opening ++ marked.body ++ closing) =
          marked.reading :: marked.alternatives := by
        rw [readings, marked.bodyOf_raw, marked.readings_bars]
      change readMark _ = _
      rw [readMark, marked.bodyOf_raw, if_neg marked.body_ne]
      simp only [split, List.headD_cons, List.tail_cons]
      exact dif_pos ⟨marked.named, marked.offered⟩

/-- A mark that reads as a token is how that token is written. -/
theorem readMark_eq_ok {found : Str} {token : Token}
    (matched : mark.matchAt found = some found.length) (read : readMark found = .ok token) :
    token.piece = .found found := by
  obtain ⟨-, whole⟩ := mark_matchAt matched
  by_cases unread : bodyOf found = str "?"
  · rw [readMark, if_pos unread, Except.ok.injEq] at read
    rw [← read, whole, unread]
    rfl
  · rw [readMark, if_neg unread] at read
    simp only at read
    split_ifs at read with named
    rw [Except.ok.injEq] at read
    have body : [bar].intercalate (readings found) = bodyOf found :=
      List.intercalate_splitOn bar
    rw [← read, Token.piece, Doubt.body]
    simp only [readings_eq, body]
    rw [← whole]

theorem readPiece_eq_ok {raw : Str} {piece : Piece CodePoint} {token : Token}
    (listed : piece ∈ mark.scan raw) (read : readPiece piece = .ok token) :
    token.piece = piece := by
  cases piece with
  | plain point =>
      rw [readPiece, Except.ok.injEq] at read
      rw [← read]
      rfl
  | found found => exact readMark_eq_ok (Pattern.matchAt_of_mem_scan listed) read

theorem map_piece_text (tokens : List Token) :
    (tokens.map Token.piece).flatMap Piece.text = rawOf tokens := by
  rw [List.flatMap_map, rawOf]
  exact List.flatMap_congr fun token _ => token.raw_eq

/-- A marked reading is its tokens as they were written, and a scan of it finds their marks. -/
theorem tokensOf_scan {raw : Str} {tokens : List Token} (read : tokensOf raw = .ok tokens) :
    mark.scan raw = tokens.map Token.piece := by
  have kept : ∀ piece ∈ mark.scan raw, ∀ token ∈ tokens, readPiece piece = .ok token →
      piece = token.piece :=
    fun piece listed token _ made => (readPiece_eq_ok listed made).symm
  have each := forall₂_imp_of_mem (mapM_eq_ok.mp read) kept
  rw [← List.forall₂_map_right_iff, List.forall₂_eq_eq_eq] at each
  exact each

theorem tokensOf_raw {raw : Str} {tokens : List Token} (read : tokensOf raw = .ok tokens) :
    rawOf tokens = raw := by
  rw [← map_piece_text, ← tokensOf_scan read]
  exact Pattern.scan_text raw

/-- No mark begins at the first of three opening brackets. -/
theorem matchAt_three (rest : Str) : mark.matchAt (scalar '[' :: (opening ++ rest)) = none := by
  have body : bodyOf (scalar '[' :: (opening ++ rest)) = [] := rfl
  have apart : ¬ closing <+: (scalar '[' :: (opening ++ rest)).drop 2 := by
    intro begins
    have first := (List.cons_prefix_cons.mp begins).1
    exact absurd first (by decide)
  change markAt (scalar '[' :: (opening ++ rest)) = none
  rw [markAt, body, if_neg]
  exact fun both => apart both.2

theorem opening_of_matchAt {text : Str} {length : ℕ} (matched : mark.matchAt text = some length) :
    opening <+: text := by
  obtain ⟨body, -, begins, -⟩ := markAt_eq_some.mp matched
  rw [List.append_assoc] at begins
  exact (List.prefix_append _ _).trans begins

/-- A character of the text is no mark's beginning, when no `[[` stands in the text. -/
theorem matchAt_plain {point : CodePoint} {tokens : List Token}
    (unopened : ¬ opening <:+: point :: textOf tokens) :
    mark.matchAt (point :: rawOf tokens) = none := by
  cases matched : mark.matchAt (point :: rawOf tokens) with
  | none => rfl
  | some length =>
      have begins := opening_of_matchAt matched
      change [scalar '[', scalar '['] <+: _ at begins
      obtain ⟨first, later⟩ := List.cons_prefix_cons.mp begins
      subst first
      cases tokens with
      | nil => exact absurd later (by simp)
      | cons token tokens =>
          cases token with
          | plain second =>
              have same := (List.cons_prefix_cons.mp later).1
              subst same
              exact absurd ⟨[], textOf tokens, rfl⟩ unopened
          | gap =>
              have none := matchAt_three (str "?]]" ++ rawOf tokens)
              rw [← matched]
              exact none
          | doubt marked =>
              have none := matchAt_three (marked.body ++ closing ++ rawOf tokens)
              rw [← matched, ← none]
              simp only [rawOf_cons, Token.raw, List.append_assoc]

/-- Tokens with no `[[` in their text are found by a scan where they were written. -/
theorem scan_rawOf {tokens : List Token} (unopened : ¬ opening <:+: textOf tokens) :
    mark.scan (rawOf tokens) = tokens.map Token.piece := by
  induction tokens with
  | nil => rfl
  | cons token tokens ih =>
      rw [textOf_cons] at unopened
      have tail := ih fun inside => unopened (inside.trans (List.suffix_append _ _).isInfix)
      have found : ∀ body, Bare body → token.raw = opening ++ body ++ closing →
          mark.scan (rawOf (token :: tokens)) = .found token.raw :: tokens.map Token.piece := by
        intro body bare written
        rw [rawOf_cons, written]
        rw [Pattern.scan_found (matchAt_mark bare (rawOf tokens)), List.take_left, List.drop_left,
          tail]
      cases token with
      | plain point =>
          change mark.scan (point :: rawOf tokens) = _
          rw [Pattern.scan_plain (matchAt_plain unopened), tail]
          rfl
      | gap => exact found (str "?") (by decide) rfl
      | doubt marked => exact found marked.body marked.bare_body rfl

/-- Tokens with no `[[` in their text are read back from how they are written. -/
theorem tokensOf_rawOf {tokens : List Token} (unopened : ¬ opening <:+: textOf tokens) :
    tokensOf (rawOf tokens) = .ok tokens := by
  rw [tokensOf, scan_rawOf unopened, mapM_eq_ok, List.forall₂_map_left_iff, List.forall₂_same]
  exact fun token _ => token.readPiece_piece

end Tokens

end Verbatus.DoubtMarks
