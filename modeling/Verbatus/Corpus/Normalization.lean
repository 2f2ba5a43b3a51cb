import Mathlib.Data.List.DropRight
import Verbatus.Library.Checked
import Verbatus.Library.Combining
import Verbatus.Python.StrText
import Verbatus.Refusal

namespace Verbatus.Corpus

open Library Library.Checked Python
open CodePoint (ofCode)

abbrev space : CodePoint := ofCode 0x20

abbrev longS : CodePoint := ofCode 0x17F

abbrev longSDot : CodePoint := ofCode 0x1E9B

abbrev dotAbove : CodePoint := ofCode 0x307

def whiteSpaceRanges : List (ℕ × ℕ) :=
  [(0x0009, 0x000D), (0x0020, 0x0020), (0x0085, 0x0085), (0x00A0, 0x00A0), (0x1680, 0x1680),
    (0x2000, 0x200A), (0x2028, 0x2029), (0x202F, 0x202F), (0x205F, 0x205F), (0x3000, 0x3000)]

def isWhite (character : CodePoint) : Bool :=
  whiteSpaceRanges.any fun range => range.1 ≤ character.code ∧ character.code ≤ range.2

def presentationMap : List (CodePoint × Str) :=
  [(ofCode 0x2018, Str.ofString "'"), (ofCode 0x2019, Str.ofString "'"),
    (ofCode 0x02BC, Str.ofString "'"), (ofCode 0x2010, Str.ofString "-"),
    (ofCode 0x2011, Str.ofString "-"), (ofCode 0xFB00, Str.ofString "ff"),
    (ofCode 0xFB01, Str.ofString "fi"), (ofCode 0xFB02, Str.ofString "fl"),
    (ofCode 0xFB03, Str.ofString "ffi"), (ofCode 0xFB04, Str.ofString "ffl"),
    (ofCode 0xFB06, Str.ofString "st")]

def maxTextLength : ℕ := 20000

def maxCombiningRun : ℕ := 30

structure NormalizationProfile where
  profileId : String
  mapLongS : Bool
  named : profileId ≠ ""

namespace NormalizationProfile

/-- The single-character mapping of a profile. -/
def characterMap (profile : NormalizationProfile) : List (CodePoint × Str) :=
  presentationMap ++
    (ofCode 0xFB05, if profile.mapLongS then Str.ofString "st" else longS :: Str.ofString "t") ::
      if profile.mapLongS then [(longS, Str.ofString "s")] else []

end NormalizationProfile

def graphemicV1 : NormalizationProfile := ⟨"graphemic-v1", true, by decide⟩

def allographicV1 : NormalizationProfile := ⟨"allographic-v1", false, by decide⟩

def profiles : List NormalizationProfile := [graphemicV1, allographicV1]

/-- The characters a profile maps and those it writes for them, with the space: each starts a
    combining sequence and decomposes no further. -/
def plainCharacters : List CodePoint :=
  graphemicV1.characterMap.flatMap (fun entry => entry.1 :: entry.2) ++ [space]

/-- The characters that no other character decomposes to, a long s with its dot apart. -/
def wholeCharacters : List CodePoint := graphemicV1.characterMap.map Prod.fst ++ [space]

/-- The Unicode tables the scoring form is taken over, with what Unicode says of them. -/
structure Unicode extends Combining CodePoint where
  nfc : Str → Str
  /-- Whether the character's grapheme cluster break is Extend or ZWJ. -/
  isCombining : CodePoint → Bool
  graphemeClusters : Str → List Str
  decompose_nonempty : ∀ character, decompose character ≠ []
  decompose_full : ∀ character, ∀ piece ∈ decompose character, decompose piece = [piece]
  plain : ∀ character ∈ plainCharacters, decompose character = [character] ∧ rank character = 0
  whole : ∀ character ∈ wholeCharacters, ∀ composed, character ∈ decompose composed →
    composed = character ∨ character = longS ∧ composed = longSDot
  decompose_longSDot : decompose longSDot = [longS, dotAbove]
  rank_dotAbove : rank dotAbove = 230
  white : ∀ character, isWhite character = true →
    ∃ piece, decompose character = [piece] ∧ isWhite piece = true ∧ rank piece = 0
  unwhite : ∀ character, isWhite character = false →
    ∀ piece ∈ decompose character, isWhite piece = false
  nfc_equivalent : ∀ text, toCombining.Equivalent (nfc text) text
  nfc_eq : ∀ text other, toCombining.Equivalent text other → nfc text = nfc other
  /-- A composed text leaves no long s beside a dot above that is not blocked from it: no mark
      of the dot's own class stands between them. -/
  nfc_longS : ∀ text before after, nfc text = before ++ longS :: after →
    toCombining.firstOfRank 230 after ≠ some dotAbove

variable (unicode : Unicode)

/-- The run of combining marks that a text carries on from a count never passes the bound. -/
def runWithin (run : ℕ) : Str → Bool
  | [] => true
  | character :: rest =>
      let run := if unicode.isCombining character then run + 1 else 0
      run ≤ maxCombiningRun && runWithin run rest

def checkTextBounds (text : Str) (what : String) : Except Refusal Unit := do
  require (text.length ≤ maxTextLength) (.valueError
    s!"{what} is {text.length} code points, over the profile's bound of {maxTextLength}")
  require (runWithin unicode 0 text) (.valueError
    (s!"{what} carries a run of more than {maxCombiningRun} combining marks, " ++
      "over the profile's bound"))

/-- Each run of white space written as one space, where the text before may end with one. -/
def subWhite (within : Bool) : Str → Str
  | [] => []
  | character :: rest =>
      if isWhite character then
        if within then subWhite true rest else space :: subWhite true rest
      else character :: subWhite false rest

/-- `text.strip(" ")` -/
def stripSpaces (text : Str) : Str := (text.dropWhile (· = space)).rdropWhile (· = space)

def collapse (text : Str) : Str := stripSpaces (subWhite false text)

def mapped (profile : NormalizationProfile) (character : CodePoint) : Str :=
  (profile.characterMap.lookup character).getD [character]

def translate (profile : NormalizationProfile) (text : Str) : Str := text.flatMap (mapped profile)

def normalizeText (text : Str) (profile : NormalizationProfile) : Except Refusal Str := do
  checkTextBounds unicode text "text"
  let normalized := unicode.nfc (translate profile (collapse (unicode.nfc text)))
  checkTextBounds unicode normalized "normalized text"
  return normalized

def withinTextBounds (text : Str) (profile : NormalizationProfile) : Bool :=
  match normalizeText unicode text profile with
  | .ok _ => true
  | .error _ => false

def characterUnits (text : Str) (profile : NormalizationProfile) :
    Except Refusal (List Str) := do
  return unicode.graphemeClusters (← normalizeText unicode text profile)

def wordUnits (text : Str) (profile : NormalizationProfile) : Except Refusal (List Str) := do
  return ((← normalizeText unicode text profile).splitOn space).filter (· ≠ [])

variable {unicode}

/-- What a text normalizes to, and that both bounds hold. -/
theorem normalizeText_eq_ok {text result : Str} {profile : NormalizationProfile} :
    normalizeText unicode text profile = .ok result ↔
      checkTextBounds unicode text "text" = .ok () ∧
        checkTextBounds unicode result "normalized text" = .ok () ∧
          unicode.nfc (translate profile (collapse (unicode.nfc text))) = result := by
  unfold normalizeText
  constructor
  · intro returned
    obtain ⟨⟨⟩, given, continued⟩ := bind_eq_ok.mp returned
    obtain ⟨⟨⟩, bounded, rest⟩ := bind_eq_ok.mp continued
    have same := pure_eq_ok.mp rest
    rw [same] at bounded
    exact ⟨given, bounded, same⟩
  · rintro ⟨given, bounded, rfl⟩
    exact bind_eq_ok.mpr ⟨(), given, bind_eq_ok.mpr ⟨(), bounded, rfl⟩⟩

/-- Neither bound depends on what the text is called. -/
theorem checkTextBounds_eq_ok {text : Str} {what : String} :
    checkTextBounds unicode text what = .ok () ↔
      text.length ≤ maxTextLength ∧ runWithin unicode 0 text = true := by
  unfold checkTextBounds
  rw [require_bind_eq_ok, require_eq_ok]

theorem withinTextBounds_iff {text : Str} {profile : NormalizationProfile} :
    withinTextBounds unicode text profile = true ↔
      ∃ result, normalizeText unicode text profile = .ok result := by
  unfold withinTextBounds
  cases normalizeText unicode text profile with
  | ok result => simp
  | error error => simp

end Verbatus.Corpus
