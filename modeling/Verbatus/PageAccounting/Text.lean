import Mathlib.Tactic
import Verbatus.Python.Text

namespace Verbatus.PageAccounting

open Python

/-- A text as the alignment reads it, character by character. -/
abbrev Text := List Char

/-- What the normalization reads of the Unicode tables and the named character references. -/
structure UnicodeTables where
  normalizeNFKD : Text → Text
  casefold : Text → Text
  isAlnum : Char → Bool
  unescape : Text → Text

/-- A pattern tried at the head of a text: what replaces the match, and the text after it. -/
abbrev Pattern := Text → Option (Text × Text)

/-- Every match replaced from left to right; no match is empty, so the length is fuel enough. -/
def substituteFrom (pattern : Pattern) : ℕ → Text → Text
  | 0, text => text
  | _ + 1, [] => []
  | fuel + 1, character :: text =>
    match pattern (character :: text) with
    | some (replacement, rest) => replacement ++ substituteFrom pattern fuel rest
    | none => character :: substituteFrom pattern fuel text

def substitute (pattern : Pattern) (text : Text) : Text := substituteFrom pattern text.length text

/-- What stands for ink the reader flagged unreadable: a private-use character. -/
def unreadableMark : Char := Char.ofNat 0xE000

def uncertaintyTokens : List String := ["[UNCERTAIN]", "[CROSSED_OUT]"]

/-- A literal text, replaced by a space. -/
def literal (token : Text) : Pattern := fun text =>
  if token.isPrefixOf text then some ([' '], text.drop token.length) else none

/-- A doubt mark keeps its first reading; `[[?]]` becomes the marker. -/
def doubtMark (marker : Char) : Pattern
  | '[' :: '[' :: text =>
    let reading := text.takeWhile fun character => character ≠ '[' ∧ character ≠ ']'
    match text.drop reading.length with
    | ']' :: ']' :: rest =>
      some (if reading = ['?'] then [marker] else
        [' '] ++ reading.takeWhile (· ≠ '|') ++ [' '], rest)
    | _ => none
  | _ => none

/-- The end of a tag, `>` or `/>`. -/
def tagEnd : Text → Option Text
  | '>' :: rest => some rest
  | '/' :: '>' :: rest => some rest
  | _ => none

/-- The rest of a tag after its name: what follows a white space runs to the closing `>`. -/
def tagRest : Text → Option Text
  | [] => none
  | character :: text =>
    if isSpace character then
      match text.dropWhile fun other => other ≠ '<' ∧ other ≠ '>' with
      | '>' :: rest => some rest
      | _ => none
    else tagEnd (character :: text)

def isTagName (character : Char) : Bool :=
  character.isAlphanum || character ∈ [':', '_', '.', '-']

def tagName : Text → Option Text
  | first :: text => if first.isAlpha then tagRest (text.dropWhile isTagName) else none
  | [] => none

/-- A well-formed tag opens with a name and closes on the same `<...>`; it becomes a space. -/
def tag : Pattern
  | '<' :: '/' :: text => (tagName text).map ([' '], ·)
  | '<' :: text => (tagName text).map ([' '], ·)
  | _ => none

/-- At least the given number of accepted characters and at most the other, then `;`. -/
def reference (accept : Char → Bool) (least most : ℕ) (text : Text) : Option (Text × Text) :=
  let taken := text.takeWhile accept
  match text.drop taken.length with
  | ';' :: rest => if least ≤ taken.length ∧ taken.length ≤ most then some (taken, rest) else none
  | _ => none

def isHexDigit (character : Char) : Bool :=
  character.isDigit || ('a' ≤ character && character ≤ 'f') || ('A' ≤ character && character ≤ 'F')

/-- The body of a character reference: decimal, hexadecimal, or a name. -/
def entityBody : Text → Option (Text × Text)
  | '#' :: mark :: text =>
    if mark ∈ ['x', 'X'] then
      (reference isHexDigit 1 6 text).map fun found => ('#' :: mark :: found.1, found.2)
    else (reference Char.isDigit 1 7 (mark :: text)).map fun found => ('#' :: found.1, found.2)
  | first :: text =>
    if first.isAlpha then
      (reference Char.isAlphanum 1 31 text).map fun found => (first :: found.1, found.2)
    else none
  | [] => none

section Normalized

variable (unicode : UnicodeTables)

/-- A well-formed character reference becomes the character it names. -/
def entity : Pattern
  | '&' :: text => (entityBody text).map fun found =>
    (unicode.unescape ('&' :: found.1 ++ [';']), found.2)
  | _ => none

/-- A text without its markup: one step of the normalization after the other. -/
def withoutMarkup (raw : Text) (unreadable : Bool) : Text :=
  let marker := if unreadable then unreadableMark else ' '
  let text := raw.map fun character => if character = unreadableMark then ' ' else character
  let text := substitute (doubtMark marker) text
  let text := uncertaintyTokens.foldl (fun text token => substitute (literal token.toList) text) text
  let text := substitute tag text
  substitute (entity unicode) text

/-- Letters and digits only, casefolded and without accents, for coverage. -/
def normalizedText (raw : String) (unreadable : Bool) : Text :=
  (unicode.casefold (unicode.normalizeNFKD (withoutMarkup unicode raw.toList unreadable))).filter
    fun character => unicode.isAlnum character || character = unreadableMark

end Normalized

end Verbatus.PageAccounting
