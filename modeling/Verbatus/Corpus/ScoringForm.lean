import Verbatus.Corpus.Normalization

namespace Verbatus.Corpus

open Library Library.Combining Python
open CodePoint (ofCode)

/-- The text with its words one space apart, given whether a word has begun and whether white space
    has been read since. -/
def spaced (begun pending : Bool) : Str → Str
  | [] => []
  | character :: rest =>
      if isWhite character then spaced begun true rest
      else (if begun && pending then [space, character] else [character]) ++ spaced true false rest

/-- The space written for white space that has been read. -/
def blank (pending : Bool) : Str := if pending then [space] else []

theorem isWhite_space : isWhite space = true := by decide

theorem ne_space_of_unwhite {character : CodePoint} (unwhite : isWhite character = false) :
    character ≠ space := by
  rintro rfl
  rw [isWhite_space] at unwhite
  cases unwhite

/-- What is stripped from the end of a text whose words have begun. -/
theorem rdropWhile_subWhite (text done : Str) (last : CodePoint) (pending : Bool)
    (word : last ≠ space) :
    ((done ++ [last]) ++ blank pending ++ subWhite pending text).rdropWhile (· = space) =
      (done ++ [last]) ++ spaced true pending text := by
  have bare : (done ++ [last]).rdropWhile (· = space) = done ++ [last] := by
    rw [List.rdropWhile_concat_neg]
    simpa using word
  induction text generalizing done last pending with
  | nil =>
      cases pending with
      | false => simpa [blank, subWhite, spaced] using bare
      | true =>
          rw [blank, if_pos rfl, subWhite, List.append_nil, List.rdropWhile_concat_pos, bare]
          · simp [spaced]
          · simp
  | cons character rest ih =>
      cases white : isWhite character with
      | true =>
          have next := ih done last true word bare
          cases pending with
          | false => simpa [blank, subWhite, spaced, white] using next
          | true => simpa [blank, subWhite, spaced, white] using next
      | false =>
          have begins := ne_space_of_unwhite white
          have next := ih (done ++ [last] ++ blank pending) character false begins
            (by rw [List.rdropWhile_concat_neg]; simpa using begins)
          cases pending with
          | false => simpa [blank, subWhite, spaced, white] using next
          | true => simpa [blank, subWhite, spaced, white] using next

/-- Before a word has begun, white space leaves nothing. -/
theorem stripSpaces_subWhite (text : Str) (pending : Bool) :
    stripSpaces (subWhite pending text) = spaced false pending text := by
  induction text generalizing pending with
  | nil => rfl
  | cons character rest ih =>
      cases white : isWhite character with
      | true =>
          have next := ih true
          cases pending with
          | false => simpa [stripSpaces, subWhite, spaced, white] using next
          | true => simpa [stripSpaces, subWhite, spaced, white] using next
      | false =>
          have begins := ne_space_of_unwhite white
          have kept := rdropWhile_subWhite rest [] character false begins
          simpa [stripSpaces, subWhite, spaced, white, begins, blank] using kept

theorem collapse_eq (text : Str) : collapse text = spaced false false text :=
  stripSpaces_subWhite text false

theorem spaced_white {character : CodePoint} (white : isWhite character = true)
    (begun pending : Bool) (rest : Str) :
    spaced begun pending (character :: rest) = spaced begun true rest := by
  rw [spaced, if_pos white]

theorem spaced_unwhite {character : CodePoint} (unwhite : isWhite character = false)
    (begun pending : Bool) (rest : Str) :
    spaced begun pending (character :: rest) =
      (if begun && pending then [space] else []) ++ character :: spaced true false rest := by
  rw [spaced, unwhite]
  cases begun <;> cases pending <;> rfl

/-- Characters that are not white follow one another. -/
theorem spaced_word {word : Str} (nonempty : word ≠ [])
    (unwhite : ∀ character ∈ word, isWhite character = false) (begun pending : Bool) (rest : Str) :
    spaced begun pending (word ++ rest) =
      (if begun && pending then [space] else []) ++ word ++ spaced true false rest := by
  have further : ∀ word : Str, (∀ character ∈ word, isWhite character = false) →
      spaced true false (word ++ rest) = word ++ spaced true false rest := by
    intro word unwhite
    induction word with
    | nil => rfl
    | cons character word ih =>
        have head := unwhite character List.mem_cons_self
        have tail := ih fun other listed => unwhite other (List.mem_cons_of_mem _ listed)
        simp [spaced, head, tail]
  cases word with
  | nil => exact absurd rfl nonempty
  | cons character word =>
      have head := unwhite character List.mem_cons_self
      have tail := further word fun other listed => unwhite other (List.mem_cons_of_mem _ listed)
      rw [List.cons_append, spaced_unwhite head, tail, List.append_assoc, List.cons_append]

variable {unicode : Unicode} {text other : Str}

theorem white_decompose (unicode : Unicode) {character : CodePoint} (white : isWhite character = true) :
    ∃ piece, unicode.decompose character = [piece] ∧ isWhite piece = true := by
  obtain ⟨piece, decomposed, alsoWhite, _⟩ := unicode.white character white
  exact ⟨piece, decomposed, alsoWhite⟩

theorem unwhite_of_mark {character : CodePoint} (decomposed : unicode.decompose character =
    [character]) (mark : unicode.rank character ≠ 0) : isWhite character = false := by
  cases white : isWhite character with
  | false => rfl
  | true =>
      obtain ⟨piece, whole, _, starter⟩ := unicode.white character white
      rw [decomposed, List.singleton_inj] at whole
      exact absurd (whole ▸ starter) mark

/-- Equivalent texts stay equivalent when their words are brought one space apart. -/
theorem spaced_step (step : unicode.Step text other) (begun pending : Bool) :
    unicode.Equivalent (spaced begun pending text) (spaced begun pending other) := by
  induction step generalizing begun pending with
  | decompose character rest =>
      cases white : isWhite character with
      | true =>
          obtain ⟨piece, decomposed, alsoWhite⟩ := white_decompose unicode white
          rw [decomposed, List.singleton_append, spaced_white white, spaced_white alsoWhite]
          exact .refl _
      | false =>
          rw [spaced_word (unicode.decompose_nonempty character) (unicode.unwhite character white),
            spaced_unwhite white, List.append_assoc]
          exact (Step.decompose character _).equivalent.append _
  | exchange first second rest plainFirst plainSecond firstMark secondMark differ =>
      have firstWord := unwhite_of_mark plainFirst firstMark
      have secondWord := unwhite_of_mark plainSecond secondMark
      rw [spaced_unwhite firstWord, spaced_unwhite secondWord, spaced_unwhite secondWord,
        spaced_unwhite firstWord]
      exact (Step.exchange first second _ plainFirst plainSecond firstMark secondMark
        differ).equivalent.append _
  | @cons character text other step ih =>
      cases white : isWhite character with
      | true =>
          rw [spaced_white white, spaced_white white]
          exact ih begun true
      | false =>
          rw [spaced_unwhite white, spaced_unwhite white]
          exact ((ih true false).cons character).append _

theorem spaced_equivalent (same : unicode.Equivalent text other) (begun pending : Bool) :
    unicode.Equivalent (spaced begun pending text) (spaced begun pending other) :=
  same.map fun _ _ step => spaced_step step begun pending

/-- The characters the profiles map. -/
def mapKeys : List CodePoint := graphemicV1.characterMap.map Prod.fst

theorem characterMap_keys (profile : NormalizationProfile) :
    ∀ entry ∈ profile.characterMap, entry.1 ∈ mapKeys := by
  unfold NormalizationProfile.characterMap
  cases profile.mapLongS <;> decide

theorem characterMap_written (profile : NormalizationProfile) :
    ∀ entry ∈ profile.characterMap,
      entry.2 ≠ [] ∧ ∀ letter ∈ entry.2, isWhite letter = false := by
  unfold NormalizationProfile.characterMap
  cases profile.mapLongS <;> decide

/-- What is written for a character: itself, or the letters of its entry. -/
theorem mapped_cases (profile : NormalizationProfile) (character : CodePoint) :
    mapped profile character = [character] ∨
      (character, mapped profile character) ∈ profile.characterMap := by
  unfold mapped
  cases found : profile.characterMap.lookup character with
  | none => exact .inl rfl
  | some letters =>
      obtain ⟨before, after, split, _⟩ := List.lookup_eq_some_iff.mp found
      refine .inr ?_
      rw [split]
      simp

theorem mapped_of_unmapped (profile : NormalizationProfile) {character : CodePoint}
    (unmapped : character ∉ mapKeys) : mapped profile character = [character] := by
  rcases mapped_cases profile character with same | listed
  · exact same
  · exact absurd (characterMap_keys profile _ listed) unmapped

theorem mapped_word (profile : NormalizationProfile) {character : CodePoint}
    (unwhite : isWhite character = false) :
    mapped profile character ≠ [] ∧
      ∀ letter ∈ mapped profile character, isWhite letter = false := by
  rcases mapped_cases profile character with same | listed
  · rw [same]
    simpa using unwhite
  · exact characterMap_written profile _ listed

theorem unmapped_of_white {character : CodePoint} (white : isWhite character = true) :
    character ∉ mapKeys := by
  have words : ∀ key ∈ mapKeys, isWhite key = false := by decide
  intro listed
  rw [words character listed] at white
  cases white

/-- Mapping characters and bringing the words one space apart may be done in either order. -/
theorem translate_spaced (profile : NormalizationProfile) (text : Str) (begun pending : Bool) :
    translate profile (spaced begun pending text) =
      spaced begun pending (translate profile text) := by
  induction text generalizing begun pending with
  | nil => rfl
  | cons character rest ih =>
      rw [translate, translate, List.flatMap_cons]
      cases white : isWhite character with
      | true =>
          rw [mapped_of_unmapped profile (unmapped_of_white white), List.singleton_append,
            spaced_white white, spaced_white white]
          exact ih begun true
      | false =>
          obtain ⟨nonempty, words⟩ := mapped_word profile white
          have gap : (if begun && pending then [space] else []).flatMap (mapped profile) =
              if begun && pending then [space] else [] := by
            have kept := mapped_of_unmapped profile (unmapped_of_white isWhite_space)
            cases begun <;> cases pending <;> simp [kept]
          rw [spaced_unwhite white, spaced_word nonempty words, List.flatMap_append, gap,
            List.flatMap_cons, List.append_assoc]
          change _ ++ (_ ++ translate profile _) = _
          rw [ih true false]
          rfl

variable (unicode)

/-- Whether composition joins what follows a long s to it: the first mark of the dot's class is the
    dot above. -/
def joins (rest : Str) : Bool := unicode.firstOfRank 230 rest = some dotAbove

/-- The characters mapped, but for a long s that composition hides from the map. -/
def ink (profile : NormalizationProfile) : Str → Str
  | [] => []
  | character :: rest =>
      (if character = longS ∧ joins unicode rest then [longS] else mapped profile character) ++
        ink profile rest

variable {unicode}

theorem joins_step (step : unicode.Step text other) : joins unicode text = joins unicode other := by
  rw [joins, joins, firstOfRank_step unicode.decompose_full step]

theorem mapKeys_plain (unicode : Unicode) {character : CodePoint} (listed : character ∈ mapKeys) :
    unicode.decompose character = [character] ∧ unicode.rank character = 0 := by
  have plain : ∀ key ∈ mapKeys, key ∈ plainCharacters := by decide
  exact unicode.plain character (plain character listed)

/-- A character is mapped, is the long s with its dot, or has no mapped character in it. -/
theorem mapKeys_cases (unicode : Unicode) (character : CodePoint) :
    character ∈ mapKeys ∨ character = longSDot ∨
      ∀ piece ∈ unicode.decompose character, piece ∉ mapKeys := by
  by_cases key : character ∈ mapKeys
  · exact .inl key
  by_cases dotted : character = longSDot
  · exact .inr (.inl dotted)
  refine .inr (.inr fun piece listed isKey => ?_)
  rcases unicode.whole piece (List.mem_append_left _ isKey) character listed with same | ⟨_, same⟩
  · exact key (same ▸ isKey)
  · exact dotted same

theorem longS_mem : longS ∈ mapKeys := by decide

theorem ink_unmapped (unicode : Unicode) (profile : NormalizationProfile) {word : Str}
    (unmapped : ∀ character ∈ word, character ∉ mapKeys) (rest : Str) :
    ink unicode profile (word ++ rest) = word ++ ink unicode profile rest := by
  induction word with
  | nil => rfl
  | cons character word ih =>
      have head := unmapped character List.mem_cons_self
      have other : character ≠ longS := fun same => head (same ▸ longS_mem)
      rw [List.cons_append, ink, if_neg fun both => other both.1, mapped_of_unmapped profile head,
        ih fun later listed => unmapped later (List.mem_cons_of_mem _ listed)]
      rfl

theorem decompose_dotAbove : unicode.decompose dotAbove = [dotAbove] := by
  apply unicode.decompose_full longSDot
  rw [unicode.decompose_longSDot]
  simp

/-- A dot above is the first mark of its class where it stands first. -/
theorem joins_dotAbove (rest : Str) : joins unicode (dotAbove :: rest) = true := by
  have mark : unicode.isMark dotAbove = true := by
    rw [isMark, unicode.rank_dotAbove]
    rfl
  rw [joins, firstOfRank_cons, decompose_dotAbove, if_pos (by simpa using mark)]
  simp [unicode.rank_dotAbove]

theorem unmapped_of_mark {character : CodePoint} (mark : unicode.rank character ≠ 0) :
    character ∉ mapKeys := fun listed => mark (mapKeys_plain unicode listed).2

theorem ink_step (profile : NormalizationProfile) (step : unicode.Step text other) :
    unicode.Equivalent (ink unicode profile text) (ink unicode profile other) := by
  induction step with
  | decompose character rest =>
      rcases mapKeys_cases unicode character with key | rfl | unmapped
      · rw [(mapKeys_plain unicode key).1]
        exact .refl _
      · have hidden : ink unicode profile (longS :: dotAbove :: rest) =
            [longS, dotAbove] ++ ink unicode profile rest := by
          rw [ink, if_pos ⟨rfl, joins_dotAbove rest⟩, ← List.singleton_append (l := rest),
            ink_unmapped unicode profile (by decide) rest]
          rfl
        have kept := @ink_unmapped unicode profile [longSDot] (by decide) rest
        rw [unicode.decompose_longSDot]
        change unicode.Equivalent (ink unicode profile ([longSDot] ++ rest))
          (ink unicode profile (longS :: dotAbove :: rest))
        rw [kept, hidden, ← unicode.decompose_longSDot]
        exact (Step.decompose longSDot _).equivalent
      · have alone : ∀ piece ∈ [character], piece ∉ mapKeys := by
          intro piece listed isKey
          obtain rfl := List.mem_singleton.mp listed
          refine unmapped piece ?_ isKey
          rw [(mapKeys_plain unicode isKey).1]
          exact List.mem_cons_self
        have kept := ink_unmapped unicode profile alone rest
        rw [List.singleton_append] at kept
        rw [kept, ink_unmapped unicode profile unmapped]
        exact (Step.decompose character _).equivalent
  | exchange first second rest plainFirst plainSecond firstMark secondMark differ =>
      have unmapped : ∀ character ∈ [first, second], character ∉ mapKeys := by
        simp [unmapped_of_mark firstMark, unmapped_of_mark secondMark]
      have exchanged : ∀ character ∈ [second, first], character ∉ mapKeys := by
        simp [unmapped_of_mark firstMark, unmapped_of_mark secondMark]
      have before := ink_unmapped unicode profile unmapped rest
      have after := ink_unmapped unicode profile exchanged rest
      simp only [List.cons_append, List.nil_append] at before after
      rw [before, after]
      exact (Step.exchange first second _ plainFirst plainSecond firstMark secondMark
        differ).equivalent
  | @cons character text other step ih =>
      rw [ink, ink, joins_step step]
      exact ih.append _

theorem ink_equivalent (profile : NormalizationProfile) (same : unicode.Equivalent text other) :
    unicode.Equivalent (ink unicode profile text) (ink unicode profile other) :=
  same.map fun _ _ step => ink_step profile step

/-- In a composed text the map sees every long s there is. -/
theorem ink_nfc (profile : NormalizationProfile) (text : Str) :
    ink unicode profile (unicode.nfc text) = translate profile (unicode.nfc text) := by
  have suffix : ∀ before after, unicode.nfc text = before ++ after →
      ink unicode profile after = translate profile after := by
    intro before after split
    induction after generalizing before with
    | nil => rfl
    | cons character rest ih =>
        have unjoined : ¬ (character = longS ∧ joins unicode rest) := by
          rintro ⟨rfl, joined⟩
          exact unicode.nfc_longS text before rest split (of_decide_eq_true joined)
        rw [ink, if_neg unjoined, translate, List.flatMap_cons]
        exact congrArg (_ ++ ·) (ih (before ++ [character]) (by rw [split]; simp))
  exact suffix [] _ rfl

/-- The scoring form of a text is that of its ink, its words brought one space apart. -/
theorem scoringForm_eq (profile : NormalizationProfile) (text : Str) :
    unicode.nfc (translate profile (collapse (unicode.nfc text))) =
      unicode.nfc (spaced false false (ink unicode profile text)) := by
  rw [collapse_eq, translate_spaced, ← ink_nfc]
  apply unicode.nfc_eq
  exact spaced_equivalent (ink_equivalent profile (unicode.nfc_equivalent text)) false false

/-- Where a text stands with its spaces: before any word, in a word, or after one space. -/
inductive Gap where
  | start
  | word
  | gap
  deriving DecidableEq

/-- No space leads or trails, and no two stand together. -/
def spacedFrom : Gap → Str → Bool
  | state, [] => state ≠ .gap
  | state, character :: rest =>
      if character = space then state = .word && spacedFrom .gap rest else spacedFrom .word rest

theorem spacedFrom_word {word : Str} (nonempty : word ≠ [])
    (plain : ∀ character ∈ word, character ≠ space) (state : Gap) (rest : Str) :
    spacedFrom state (word ++ rest) = spacedFrom .word rest := by
  induction word generalizing state with
  | nil => exact absurd rfl nonempty
  | cons character word ih =>
      rw [List.cons_append, spacedFrom, if_neg (plain character List.mem_cons_self)]
      cases word with
      | nil => rfl
      | cons second word =>
          exact ih (List.cons_ne_nil _ _)
            (fun later listed => plain later (List.mem_cons_of_mem _ listed)) .word

theorem decompose_space : unicode.decompose space = [space] :=
  (unicode.plain space (by decide)).1

/-- Only a space has a space in it. -/
theorem space_pieces (unicode : Unicode) (character : CodePoint) :
    character = space ↔ ∃ piece ∈ unicode.decompose character, piece = space := by
  constructor
  · rintro rfl
    exact ⟨space, by simp [decompose_space], rfl⟩
  · rintro ⟨piece, listed, rfl⟩
    rcases unicode.whole space (by decide) character listed with same | ⟨never, _⟩
    · exact same
    · exact absurd never (by decide)

theorem spacedFrom_step (step : unicode.Step text other) (state : Gap) :
    spacedFrom state text = spacedFrom state other := by
  induction step generalizing state with
  | decompose character rest =>
      by_cases here : character = space
      · rw [here, decompose_space]
        rfl
      · rw [spacedFrom, if_neg here, spacedFrom_word (unicode.decompose_nonempty character)]
        intro piece listed isSpace
        exact here ((space_pieces unicode character).mpr ⟨piece, listed, isSpace⟩)
  | exchange first second rest plainFirst plainSecond firstMark secondMark differ =>
      have starter := (unicode.plain space (by decide)).2
      have one : first ≠ space := fun same => firstMark (same ▸ starter)
      have two : second ≠ space := fun same => secondMark (same ▸ starter)
      rw [spacedFrom, if_neg one, spacedFrom, if_neg two, spacedFrom, if_neg two, spacedFrom,
        if_neg one]
  | cons character _ ih =>
      rw [spacedFrom, spacedFrom]
      split_ifs
      · rw [ih]
      · exact ih .word

theorem spacedFrom_spaced (text : Str) (begun pending : Bool) :
    spacedFrom (if begun then .word else .start) (spaced begun pending text) = true := by
  induction text generalizing begun pending with
  | nil => cases begun <;> rfl
  | cons character rest ih =>
      cases white : isWhite character with
      | true =>
          rw [spaced_white white]
          exact ih begun true
      | false =>
          have begins := ne_space_of_unwhite white
          have next := ih true false
          rw [if_pos rfl] at next
          rw [spaced_unwhite white]
          cases begun <;> cases pending <;> simp [spacedFrom, begins, next]

/-- White space other than the space itself. -/
def OddWhite (character : CodePoint) : Prop := isWhite character = true ∧ character ≠ space

theorem oddWhite_pieces (unicode : Unicode) (character : CodePoint) :
    OddWhite character ↔ ∃ piece ∈ unicode.decompose character, OddWhite piece := by
  constructor
  · rintro ⟨white, odd⟩
    obtain ⟨piece, decomposed, alsoWhite⟩ := white_decompose unicode white
    refine ⟨piece, by simp [decomposed], alsoWhite, fun isSpace => odd ?_⟩
    exact (space_pieces unicode character).mpr ⟨piece, by simp [decomposed], isSpace⟩
  · rintro ⟨piece, listed, white, odd⟩
    have whole : isWhite character = true := by
      by_contra unwhite
      rw [Bool.not_eq_true] at unwhite
      rw [unicode.unwhite character unwhite piece listed] at white
      cases white
    refine ⟨whole, ?_⟩
    rintro rfl
    rw [decompose_space] at listed
    exact odd (List.mem_singleton.mp listed)

theorem spaced_no_oddWhite (text : Str) (begun pending : Bool) :
    ∀ character ∈ spaced begun pending text, ¬ OddWhite character := by
  induction text generalizing begun pending with
  | nil => simp [spaced]
  | cons character rest ih =>
      cases white : isWhite character with
      | true =>
          rw [spaced_white white]
          exact ih begun true
      | false =>
          rw [spaced_unwhite white]
          intro listed member
          rcases List.mem_append.mp member with gap | word
          · have same : listed = space := by
              cases begun <;> cases pending <;> simp_all
            exact fun oddWhite => oddWhite.2 same
          rcases List.mem_cons.mp word with rfl | later
          · exact fun oddWhite => absurd oddWhite.1 (by simp [white])
          · exact ih true false listed later

/-- A text whose words stand one space apart is left as it is. -/
theorem spaced_self (text : Str) (plain : ∀ character ∈ text, ¬ OddWhite character) :
    (spacedFrom .start text = true → spaced false false text = text) ∧
      (spacedFrom .word text = true → spaced true false text = text) ∧
        (spacedFrom .gap text = true → spaced true true text = space :: text) := by
  induction text with
  | nil => simp [spaced, spacedFrom]
  | cons character rest ih =>
      obtain ⟨_, word, gap⟩ := ih fun later listed => plain later (List.mem_cons_of_mem _ listed)
      by_cases here : character = space
      · subst here
        simp only [spacedFrom, spaced_white isWhite_space, if_true, Bool.and_eq_true,
          decide_eq_true_eq, reduceCtorEq, false_and, false_implies, true_and]
        exact ⟨gap, trivial⟩
      · have unwhite : isWhite character = false := by
          by_contra white
          exact plain character List.mem_cons_self ⟨by simpa using white, here⟩
        simp only [spacedFrom, if_neg here, spaced_unwhite unwhite]
        refine ⟨fun kept => ?_, fun kept => ?_, fun kept => ?_⟩
        · simp [word kept]
        · simp [word kept]
        · simp [word kept]

end Verbatus.Corpus
