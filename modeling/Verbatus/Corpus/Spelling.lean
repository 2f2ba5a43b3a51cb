import Verbatus.Corpus.Settled

namespace Verbatus.Corpus

open Library Library.Combining Python
open CodePoint (ofCode)

/-- A stretch of a text in two spellings: a character kept, a mapped character written as its
    letters, or the long s with a dot above written as an s with one. -/
inductive Spelling where
  | kept (character : CodePoint)
  | written (character : CodePoint) (letters : Str)
      (listed : (character, letters) ∈ graphemicV1.characterMap)
  | dotted

namespace Spelling

def source : Spelling → Str
  | kept character => [character]
  | written character _ _ => [character]
  | dotted => [longSDot]

def target : Spelling → Str
  | kept character => [character]
  | written _ letters _ => letters
  | dotted => ofCode 0x73 :: [dotAbove]

/-- The text as it is first spelled. -/
def sourceText (spellings : List Spelling) : Str := spellings.flatMap source

/-- The text with its rewritten stretches rewritten. -/
def targetText (spellings : List Spelling) : Str := spellings.flatMap target

/-- No long s that is rewritten stands before a dot above that composition joins to it. -/
def Unjoined (unicode : Unicode) : List Spelling → Prop
  | [] => True
  | kept _ :: rest => Unjoined unicode rest
  | written character _ _ :: rest =>
      ¬ (character = longS ∧ joins unicode (sourceText rest) = true) ∧ Unjoined unicode rest
  | dotted :: _ => False

end Spelling

open Spelling

variable {unicode : Unicode}

theorem written_key {character : CodePoint} {letters : Str}
    (listed : (character, letters) ∈ graphemicV1.characterMap) : character ∈ mapKeys :=
  List.mem_map_of_mem listed

theorem joins_target (unicode : Unicode) (spellings : List Spelling) :
    joins unicode (sourceText spellings) = joins unicode (targetText spellings) := by
  induction spellings with
  | nil => rfl
  | cons spelling rest ih =>
      cases spelling with
      | kept character => exact joins_cons character ih
      | written character letters listed =>
          exact (joins_key (written_key listed) _).trans (joins_letters listed _).symm
      | dotted =>
          have long := (mapKeys_plain unicode longS_mem).2
          have plain := unicode.plain (ofCode 0x73) (by decide)
          exact (joins_starter unicode.decompose_longSDot long _).trans
            (joins_starter plain.1 plain.2 _).symm

/-- Unjoined spellings have one ink. -/
theorem ink_target (unicode : Unicode) (spellings : List Spelling)
    (unjoined : Unjoined unicode spellings) :
    ink unicode graphemicV1 (sourceText spellings) =
      ink unicode graphemicV1 (targetText spellings) := by
  induction spellings with
  | nil => rfl
  | cons spelling rest ih =>
      cases spelling with
      | kept character =>
          change ink unicode graphemicV1 (character :: sourceText rest) =
            ink unicode graphemicV1 (character :: targetText rest)
          rw [ink, ink, joins_target, ih unjoined]
      | written character letters listed =>
          obtain ⟨same, plain⟩ := characterMap_letters _ listed
          change ink unicode graphemicV1 (character :: sourceText rest) =
            ink unicode graphemicV1 (letters ++ targetText rest)
          rw [ink, if_neg unjoined.1, same, ih unjoined.2,
            ink_unmapped unicode graphemicV1 fun letter member => (plain letter member).2.1]
      | dotted => exact absurd unjoined id

/-- Rewriting loses each joined long s it rewrites. -/
theorem countLongS_target (unicode : Unicode) (spellings : List Spelling) :
    countLongS unicode true (targetText spellings) ≤
        countLongS unicode true (sourceText spellings) ∧
      (countLongS unicode true (sourceText spellings) =
        countLongS unicode true (targetText spellings) ↔ Unjoined unicode spellings) := by
  induction spellings with
  | nil => exact ⟨le_rfl, by simp [Unjoined, sourceText, targetText]⟩
  | cons spelling rest ih =>
      obtain ⟨fewer, same⟩ := ih
      cases spelling with
      | kept character =>
          change countLongS unicode true (character :: targetText rest) ≤
              countLongS unicode true (character :: sourceText rest) ∧
            (countLongS unicode true (character :: sourceText rest) =
              countLongS unicode true (character :: targetText rest) ↔ Unjoined unicode rest)
          rw [countLongS, countLongS, joins_target]
          exact ⟨by omega, by rw [← same]; omega⟩
      | written character letters listed =>
          have undotted := ne_longSDot_of_full (mapKeys_plain unicode (written_key listed)).1
          change countLongS unicode true (letters ++ targetText rest) ≤
              countLongS unicode true (character :: sourceText rest) ∧
            (countLongS unicode true (character :: sourceText rest) =
              countLongS unicode true (letters ++ targetText rest) ↔ _ ∧ Unjoined unicode rest)
          rw [countLongS_letters listed, countLongS, ← same]
          by_cases hidden : character = longS ∧ joins unicode (sourceText rest) = true
          · rw [if_pos (.inr hidden)]
            exact ⟨by omega, ⟨fun equal => by omega, fun both => absurd hidden both.1⟩⟩
          · rw [if_neg (by tauto), Nat.zero_add]
            exact ⟨fewer, ⟨fun equal => ⟨hidden, equal⟩, And.right⟩⟩
      | dotted =>
          have letters : countLongS unicode true (ofCode 0x73 :: dotAbove :: targetText rest) =
              countLongS unicode true (targetText rest) :=
            @countLongS_append unicode [ofCode 0x73, dotAbove] true (by decide) _
          change countLongS unicode true (ofCode 0x73 :: dotAbove :: targetText rest) ≤
              countLongS unicode true (longSDot :: sourceText rest) ∧
            (countLongS unicode true (longSDot :: sourceText rest) =
              countLongS unicode true (ofCode 0x73 :: dotAbove :: targetText rest) ↔ False)
          rw [letters, countLongS, if_pos (.inl ⟨rfl, rfl⟩)]
          exact ⟨by omega, fun equal => by omega, False.elim⟩

/-- The joined long s of a scoring form are those of the text. -/
theorem countLongS_scoringForm (text : Str) :
    countLongS unicode true
        (unicode.nfc (translate graphemicV1 (collapse (unicode.nfc text)))) =
      countLongS unicode true text := by
  rw [scoringForm_eq, countLongS_equivalent (unicode.nfc_equivalent _), countLongS_spaced,
    countLongS_ink]

/-- The two spellings have one scoring form, and with it the same units to be scored by. -/
def ScoredAlike (unicode : Unicode) (spellings : List Spelling) : Prop :=
  normalizeText unicode (sourceText spellings) graphemicV1 =
      normalizeText unicode (targetText spellings) graphemicV1 ∧
    characterUnits unicode (sourceText spellings) graphemicV1 =
      characterUnits unicode (targetText spellings) graphemicV1 ∧
    wordUnits unicode (sourceText spellings) graphemicV1 =
      wordUnits unicode (targetText spellings) graphemicV1

/-- Scoring forms are settled under both profiles, and two spellings of a text within bounds are
    scored alike exactly when no rewritten long s is joined to a dot above. -/
theorem scoringForm_ink (unicode : Unicode) :
    (∀ profile ∈ profiles, Settled unicode profile) ∧
      ∀ spellings, withinTextBounds unicode (sourceText spellings) graphemicV1 = true →
        withinTextBounds unicode (targetText spellings) graphemicV1 = true →
          (ScoredAlike unicode spellings ↔ Unjoined unicode spellings) := by
  refine ⟨fun profile _ => settled profile unicode, fun spellings within alsoWithin => ?_⟩
  obtain ⟨result, returned⟩ := withinTextBounds_iff.mp within
  obtain ⟨form, alsoReturned⟩ := withinTextBounds_iff.mp alsoWithin
  have one := (normalizeText_eq_ok.mp returned).2.2
  have two := (normalizeText_eq_ok.mp alsoReturned).2.2
  constructor
  · rintro ⟨same, _⟩
    rw [returned, alsoReturned, Except.ok.injEq, ← one, ← two] at same
    have counted := congrArg (countLongS unicode true) same
    rw [countLongS_scoringForm, countLongS_scoringForm] at counted
    exact (countLongS_target unicode spellings).2.mp counted
  · intro unjoined
    have same : normalizeText unicode (sourceText spellings) graphemicV1 =
        normalizeText unicode (targetText spellings) graphemicV1 := by
      rw [returned, alsoReturned, ← one, ← two, scoringForm_eq, scoringForm_eq,
        ink_target unicode spellings unjoined]
    unfold ScoredAlike characterUnits wordUnits
    rw [same]
    exact ⟨rfl, rfl, rfl⟩

abbrev smallS : CodePoint := ofCode 0x73

abbrev smallSDot : CodePoint := ofCode 0x1E61

/-- The two letters that compose with the dot above. -/
def dottedTables : Combining CodePoint where
  decompose character :=
    if character = longSDot then [longS, dotAbove]
    else if character = smallSDot then [smallS, dotAbove]
    else [character]
  rank character := if character = dotAbove then 230 else 0

def composeDots : Str → Str
  | first :: second :: rest =>
      if first = longS ∧ second = dotAbove then longSDot :: composeDots rest
      else if first = smallS ∧ second = dotAbove then smallSDot :: composeDots rest
      else first :: composeDots (second :: rest)
  | text => text

theorem dottedTables_cases (character : CodePoint) :
    character = longSDot ∧ dottedTables.decompose character = [longS, dotAbove] ∨
      character = smallSDot ∧ dottedTables.decompose character = [smallS, dotAbove] ∨
        dottedTables.decompose character = [character] := by
  simp only [dottedTables]
  split_ifs with long small
  · exact .inl ⟨long, rfl⟩
  · exact .inr (.inl ⟨small, rfl⟩)
  · exact .inr (.inr rfl)

theorem dottedTables_full (character : CodePoint) :
    ∀ piece ∈ dottedTables.decompose character, dottedTables.decompose piece = [piece] := by
  rcases dottedTables_cases character with ⟨_, whole⟩ | ⟨_, whole⟩ | whole
  · rw [whole]
    decide
  · rw [whole]
    decide
  · rw [whole]
    simpa using whole

theorem dottedTables_flatMap {text other : Str} (step : dottedTables.Step text other) :
    text.flatMap dottedTables.decompose = other.flatMap dottedTables.decompose := by
  induction step with
  | decompose character rest =>
      have again : (dottedTables.decompose character).flatMap dottedTables.decompose =
          dottedTables.decompose character := by
        rw [List.flatMap_congr (dottedTables_full character)]
        exact List.flatMap_singleton' _
      rw [List.flatMap_cons, List.flatMap_append, again]
  | exchange first second rest plainFirst plainSecond firstMark secondMark differ =>
      have one : first = dotAbove := by simpa [dottedTables] using firstMark
      have two : second = dotAbove := by simpa [dottedTables] using secondMark
      exact absurd (by rw [one, two]) differ
  | cons character _ ih => rw [List.flatMap_cons, List.flatMap_cons, ih]

theorem composeDots_equivalent (text : Str) : dottedTables.Equivalent (composeDots text) text := by
  induction text using composeDots.induct with
  | case1 first second rest joined ih =>
      obtain ⟨rfl, rfl⟩ := joined
      rw [composeDots, if_pos ⟨rfl, rfl⟩]
      exact (ih.cons longSDot).trans (Step.decompose longSDot rest).equivalent
  | case2 first second rest unjoined joined ih =>
      obtain ⟨rfl, rfl⟩ := joined
      rw [composeDots, if_neg unjoined, if_pos ⟨rfl, rfl⟩]
      exact (ih.cons smallSDot).trans (Step.decompose smallSDot rest).equivalent
  | case3 first second rest notLong notSmall ih =>
      rw [composeDots, if_neg notLong, if_neg notSmall]
      exact ih.cons first
  | case4 text short =>
      cases text with
      | nil => exact .refl _
      | cons first rest =>
          cases rest with
          | nil => exact .refl _
          | cons second rest => exact absurd rfl (short first second rest)

theorem flatMap_equivalent (text : Str) :
    dottedTables.Equivalent (text.flatMap dottedTables.decompose) text := by
  induction text with
  | nil => exact .refl _
  | cons character rest ih =>
      rw [List.flatMap_cons]
      exact (ih.append _).trans (Step.decompose character rest).equivalent.symm

theorem composeDots_head {first : CodePoint} (other : first ≠ dotAbove) (rest : Str) :
    (composeDots (first :: rest)).head? ≠ some dotAbove := by
  cases rest with
  | nil => simpa [composeDots] using other
  | cons second rest =>
      rw [composeDots]
      split_ifs
      · simp only [List.head?_cons, ne_eq, Option.some.injEq]
        decide
      · simp only [List.head?_cons, ne_eq, Option.some.injEq]
        decide
      · simpa using other

theorem composeDots_longS (text before after : Str)
    (split : composeDots text = before ++ longS :: after) : after.head? ≠ some dotAbove := by
  induction text using composeDots.induct generalizing before with
  | case1 first second rest joined ih =>
      rw [composeDots, if_pos joined, List.cons_eq_append_iff] at split
      rcases split with ⟨_, same⟩ | ⟨later, rfl, continued⟩
      · exact absurd (List.cons.inj same).1 (by decide)
      · exact ih later continued
  | case2 first second rest unjoined joined ih =>
      rw [composeDots, if_neg unjoined, if_pos joined, List.cons_eq_append_iff] at split
      rcases split with ⟨_, same⟩ | ⟨later, rfl, continued⟩
      · exact absurd (List.cons.inj same).1 (by decide)
      · exact ih later continued
  | case3 first second rest notLong notSmall ih =>
      rw [composeDots, if_neg notLong, if_neg notSmall, List.cons_eq_append_iff] at split
      rcases split with ⟨_, same⟩ | ⟨later, rfl, continued⟩
      · obtain ⟨long, rfl⟩ := List.cons.inj same
        exact composeDots_head (fun dot => notLong ⟨long.symm, dot⟩) rest
      · exact ih later continued
  | case4 text short =>
      cases text with
      | nil => simp [composeDots] at split
      | cons first rest =>
          cases rest with
          | nil =>
              rw [composeDots, List.cons_eq_append_iff] at split
              · rcases split with ⟨_, same⟩ | ⟨later, _, continued⟩
                · rw [(List.cons.inj same).2]
                  simp
                · simp at continued
              · simp
          | cons second rest => exact absurd rfl (short first second rest)

/-- Tables of the two letters and their dot, composed as Unicode composes them. -/
def dottedUnicode : Unicode where
  toCombining := dottedTables
  nfc text := composeDots (text.flatMap dottedTables.decompose)
  isCombining character := character = dotAbove
  graphemeClusters text := text.map fun character => [character]
  decompose_nonempty character := by
    rcases dottedTables_cases character with ⟨_, whole⟩ | ⟨_, whole⟩ | whole <;> simp [whole]
  decompose_full := dottedTables_full
  plain := by decide
  whole character listed composed member := by
    rcases dottedTables_cases composed with ⟨rfl, whole⟩ | ⟨rfl, whole⟩ | whole
    · rw [whole] at member
      revert character
      decide
    · rw [whole] at member
      revert character
      decide
    · rw [whole, List.mem_singleton] at member
      exact .inl member.symm
  decompose_longSDot := rfl
  rank_dotAbove := rfl
  white character white := by
    have mark : character ≠ dotAbove := by
      rintro rfl
      exact absurd white (by decide)
    rcases dottedTables_cases character with ⟨rfl, _⟩ | ⟨rfl, _⟩ | whole
    · exact absurd white (by decide)
    · exact absurd white (by decide)
    · exact ⟨character, whole, white, if_neg mark⟩
  unwhite character unwhite := by
    rcases dottedTables_cases character with ⟨_, whole⟩ | ⟨_, whole⟩ | whole
    · rw [whole]
      decide
    · rw [whole]
      decide
    · rw [whole]
      simpa using unwhite
  nfc_equivalent text := (composeDots_equivalent _).trans (flatMap_equivalent text)
  nfc_eq text other same := by
    rw [same.invariant fun _ _ step => dottedTables_flatMap step]
  nfc_longS text before after split := by
    have head := composeDots_longS _ before after split
    cases after with
    | nil => simp [firstOfRank]
    | cons character rest =>
        have other : character ≠ dotAbove := by simpa using head
        have starts : dottedTables.firstOfRank 230 (character :: rest) = none := by
          rcases dottedTables_cases character with ⟨_, whole⟩ | ⟨_, whole⟩ | whole
          · exact firstOfRank_starter whole (by decide) rest
          · exact firstOfRank_starter whole (by decide) rest
          · exact firstOfRank_starter whole (if_neg other) rest
        rw [starts]
        simp

/-- A long s with a dot above and an s with one are two spellings that are scored as an edit. -/
theorem not_scoredAlike_dotted :
    ¬ ∀ spellings, withinTextBounds dottedUnicode (sourceText spellings) graphemicV1 = true →
      withinTextBounds dottedUnicode (targetText spellings) graphemicV1 = true →
        ScoredAlike dottedUnicode spellings := by
  intro alike
  have same := (alike [.dotted] (by decide) (by decide)).1
  revert same
  decide

end Verbatus.Corpus
