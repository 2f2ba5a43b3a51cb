import Verbatus.Corpus.ScoringForm

namespace Verbatus.Corpus

open Library Library.Combining Python
open CodePoint (ofCode)

variable {unicode : Unicode} {text other : Str}

/-- How many long s a text has that composition joins to what follows, or that it does not. -/
def countLongS (unicode : Unicode) (joined : Bool) : Str → ℕ
  | [] => 0
  | character :: rest =>
      (if character = longSDot ∧ joined = true ∨ character = longS ∧ joins unicode rest = joined
        then 1 else 0) + countLongS unicode joined rest

theorem countLongS_append {word : Str} (joined : Bool)
    (unmapped : ∀ character ∈ word, character ∉ mapKeys ∧ character ≠ longSDot) (rest : Str) :
    countLongS unicode joined (word ++ rest) = countLongS unicode joined rest := by
  induction word with
  | nil => rfl
  | cons character word ih =>
      obtain ⟨head, undotted⟩ := unmapped character List.mem_cons_self
      have other : character ≠ longS := fun same => head (same ▸ longS_mem)
      rw [List.cons_append, countLongS, if_neg (by simp [other, undotted]), Nat.zero_add]
      exact ih fun later listed => unmapped later (List.mem_cons_of_mem _ listed)

theorem ne_longSDot_of_full {character : CodePoint}
    (decomposed : unicode.decompose character = [character]) : character ≠ longSDot := by
  rintro rfl
  rw [unicode.decompose_longSDot] at decomposed
  cases decomposed

/-- Equivalent texts have the same long s joined, and the same not joined. -/
theorem countLongS_step (step : unicode.Step text other) (joined : Bool) :
    countLongS unicode joined text = countLongS unicode joined other := by
  induction step with
  | decompose character rest =>
      rcases mapKeys_cases unicode character with key | rfl | unmapped
      · rw [(mapKeys_plain unicode key).1]
        rfl
      · rw [unicode.decompose_longSDot]
        have dot := @countLongS_append unicode [dotAbove] joined (by decide) rest
        rw [List.singleton_append] at dot
        change _ = countLongS unicode joined (longS :: dotAbove :: rest)
        rw [countLongS, countLongS, dot, joins_dotAbove]
        have differ : longSDot ≠ longS := by decide
        cases joined <;> simp [differ, differ.symm]
      · have undotted : character ≠ longSDot := by
          rintro rfl
          refine unmapped longS ?_ longS_mem
          rw [unicode.decompose_longSDot]
          exact List.mem_cons_self
        have unkeyed : character ∉ mapKeys := by
          intro isKey
          refine unmapped character ?_ isKey
          rw [(mapKeys_plain unicode isKey).1]
          exact List.mem_cons_self
        have alone := @countLongS_append unicode [character] joined
          (by simp [undotted, unkeyed]) rest
        rw [List.singleton_append] at alone
        rw [alone, countLongS_append joined fun piece listed => ⟨unmapped piece listed,
          ne_longSDot_of_full (unicode.decompose_full character piece listed)⟩]
  | exchange first second rest plainFirst plainSecond firstMark secondMark differ =>
      have one := ne_longSDot_of_full plainFirst
      have two := ne_longSDot_of_full plainSecond
      have before := @countLongS_append unicode [first, second] joined
        (by simp [one, two, unmapped_of_mark firstMark, unmapped_of_mark secondMark]) rest
      have after := @countLongS_append unicode [second, first] joined
        (by simp [one, two, unmapped_of_mark firstMark, unmapped_of_mark secondMark]) rest
      exact before.trans after.symm
  | cons character step ih =>
      rw [countLongS, countLongS, joins_step step, ih]

theorem countLongS_equivalent (same : unicode.Equivalent text other) (joined : Bool) :
    countLongS unicode joined text = countLongS unicode joined other :=
  same.invariant fun _ _ step => countLongS_step step joined

theorem joins_starter {character piece : CodePoint} {later : Str}
    (decomposed : unicode.decompose character = piece :: later) (starter : unicode.rank piece = 0)
    (rest : Str) : joins unicode (character :: rest) = false := by
  rw [joins, firstOfRank_starter decomposed starter]
  rfl

theorem joins_cons (character : CodePoint) (same : joins unicode text = joins unicode other) :
    joins unicode (character :: text) = joins unicode (character :: other) := by
  rw [joins, joins, firstOfRank_cons, firstOfRank_cons]
  split_ifs
  · cases (unicode.decompose character).find? fun mark => unicode.rank mark = 230 with
    | none => exact same
    | some mark => rfl
  · rfl

theorem joins_white {character : CodePoint} (white : isWhite character = true) (rest : Str) :
    joins unicode (character :: rest) = false := by
  obtain ⟨piece, decomposed, _, starter⟩ := unicode.white character white
  exact joins_starter decomposed starter rest

/-- White space joins nothing, so what follows a character keeps its marks. -/
theorem joins_spaced (text : Str) :
    joins unicode (spaced true false text) = joins unicode text ∧
      joins unicode (spaced true true text) = false := by
  have empty : joins unicode [] = false := rfl
  induction text with
  | nil => exact ⟨rfl, empty⟩
  | cons character rest ih =>
      cases white : isWhite character with
      | true =>
          rw [spaced_white white, spaced_white white, joins_white white]
          exact ⟨ih.2, ih.2⟩
      | false =>
          rw [spaced_unwhite white, spaced_unwhite white]
          exact ⟨joins_cons character ih.1, joins_white isWhite_space _⟩

theorem countLongS_spaced (text : Str) (joined begun pending : Bool) :
    countLongS unicode joined (spaced begun pending text) = countLongS unicode joined text := by
  have skipped : ∀ character rest, isWhite character = true →
      countLongS unicode joined (character :: rest) = countLongS unicode joined rest := by
    intro character rest white
    have undotted : character ≠ longSDot := by
      rintro rfl
      exact absurd white (by decide)
    exact @countLongS_append unicode [character] joined
      (by simp [undotted, unmapped_of_white white]) rest
  induction text generalizing begun pending with
  | nil => rfl
  | cons character rest ih =>
      cases white : isWhite character with
      | true => rw [spaced_white white, ih, skipped character rest white]
      | false =>
          have word : countLongS unicode joined (character :: spaced true false rest) =
              countLongS unicode joined (character :: rest) := by
            rw [countLongS, countLongS, (joins_spaced rest).1, ih]
          rw [spaced_unwhite white, ← word]
          cases begun <;> cases pending <;> simp [skipped _ _ isWhite_space]

/-- Each entry's letters start combining sequences, are not mapped, and are what is written. -/
theorem characterMap_letters : ∀ entry ∈ graphemicV1.characterMap,
    mapped graphemicV1 entry.1 = entry.2 ∧
      ∀ letter ∈ entry.2, letter ∈ plainCharacters ∧ letter ∉ mapKeys ∧ letter ≠ longSDot := by
  decide

theorem mapped_letters {character : CodePoint} (key : character ∈ mapKeys) :
    (character, mapped graphemicV1 character) ∈ graphemicV1.characterMap := by
  obtain ⟨entry, listed, rfl⟩ := List.mem_map.mp key
  rw [(characterMap_letters entry listed).1]
  exact listed

/-- What is written for a mapped character starts a combining sequence of its own. -/
theorem joins_letters {character : CodePoint} {letters : Str}
    (listed : (character, letters) ∈ graphemicV1.characterMap) (rest : Str) :
    joins unicode (letters ++ rest) = false := by
  cases letters with
  | nil => exact absurd rfl (characterMap_written graphemicV1 _ listed).1
  | cons letter later =>
      have plain := unicode.plain letter
        ((characterMap_letters _ listed).2 letter List.mem_cons_self).1
      exact joins_starter plain.1 plain.2 _

theorem countLongS_letters {character : CodePoint} {letters : Str}
    (listed : (character, letters) ∈ graphemicV1.characterMap) (joined : Bool) (rest : Str) :
    countLongS unicode joined (letters ++ rest) = countLongS unicode joined rest :=
  countLongS_append joined
    (fun letter member => ((characterMap_letters _ listed).2 letter member).2) rest

theorem joins_key {character : CodePoint} (key : character ∈ mapKeys) (rest : Str) :
    joins unicode (character :: rest) = false :=
  joins_starter (mapKeys_plain unicode key).1 (mapKeys_plain unicode key).2 rest

theorem joins_ink (text : Str) :
    joins unicode (ink unicode graphemicV1 text) = joins unicode text := by
  induction text with
  | nil => rfl
  | cons character rest ih =>
      by_cases key : character ∈ mapKeys
      · rw [ink, joins_key key]
        split_ifs
        · exact joins_key longS_mem _
        · exact joins_letters (mapped_letters key) _
      · have other : character ≠ longS := fun same => key (same ▸ longS_mem)
        rw [ink, if_neg fun both => other both.1, mapped_of_unmapped _ key]
        exact joins_cons character ih

/-- Mapping keeps every long s that composition joins. -/
theorem countLongS_ink (text : Str) :
    countLongS unicode true (ink unicode graphemicV1 text) = countLongS unicode true text := by
  induction text with
  | nil => rfl
  | cons character rest ih =>
      by_cases key : character ∈ mapKeys
      · have undotted := ne_longSDot_of_full (mapKeys_plain unicode key).1
        rw [ink, countLongS]
        by_cases hidden : character = longS ∧ joins unicode rest = true
        · rw [if_pos hidden, if_pos (.inr hidden), List.singleton_append, countLongS,
            if_pos (.inr ⟨rfl, (joins_ink rest).trans hidden.2⟩), ih]
        · rw [if_neg hidden, countLongS_letters (mapped_letters key), if_neg (by tauto), ih,
            Nat.zero_add]
      · have other : character ≠ longS := fun same => key (same ▸ longS_mem)
        rw [ink, if_neg fun both => other both.1, mapped_of_unmapped _ key, List.singleton_append,
          countLongS, countLongS, joins_ink, ih]

end Verbatus.Corpus
