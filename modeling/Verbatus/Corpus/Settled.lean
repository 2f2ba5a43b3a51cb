import Verbatus.Corpus.LongS

namespace Verbatus.Corpus

open Library Library.Combining Python
open CodePoint (ofCode)

variable {unicode : Unicode} {text other : Str}

/-- What holds of the scoring forms of a profile, whatever the spelling. -/
structure Settled (unicode : Unicode) (profile : NormalizationProfile) : Prop where
  idempotent : ∀ text result, normalizeText unicode text profile = .ok result →
    normalizeText unicode result profile = .ok result
  canonical : ∀ text other, unicode.Equivalent text other →
    withinTextBounds unicode text profile = true → withinTextBounds unicode other profile = true →
      normalizeText unicode text profile = normalizeText unicode other profile
  untrimmed : ∀ text result, normalizeText unicode text profile = .ok result →
    result.head? ≠ some space ∧ result.getLast? ≠ some space ∧ ¬ [space, space] <:+: result
  unmapped : ∀ text result, normalizeText unicode text profile = .ok result →
    ∀ character ∈ result, character ∉ profile.characterMap.map Prod.fst

theorem spacedFrom_untrimmed (text : Str) (state : Gap) (spacedOnce : spacedFrom state text = true) :
    (state ≠ .word → text.head? ≠ some space) ∧ (state = .gap → text ≠ []) ∧
      text.getLast? ≠ some space ∧ ¬ [space, space] <:+: text := by
  induction text generalizing state with
  | nil =>
      rw [spacedFrom, decide_eq_true_eq] at spacedOnce
      simp [spacedOnce]
  | cons character rest ih =>
      by_cases here : character = space
      · rw [spacedFrom, if_pos here, Bool.and_eq_true, decide_eq_true_eq] at spacedOnce
        obtain ⟨word, continued⟩ := spacedOnce
        obtain ⟨next, nonempty, last, single⟩ := ih .gap continued
        refine ⟨fun notWord => absurd word notWord, fun _ => List.cons_ne_nil _ _, ?_, ?_⟩
        · rwa [List.getLast?_cons_of_ne_nil (nonempty rfl)]
        · rw [List.infix_cons_iff]
          rintro (leads | later)
          · obtain ⟨later, rfl⟩ := (List.cons_prefix_cons.mp leads).2
            exact next (by simp) rfl
          · exact single later
      · rw [spacedFrom, if_neg here] at spacedOnce
        obtain ⟨_, _, last, single⟩ := ih .word spacedOnce
        refine ⟨fun _ => by simpa using here, fun _ => List.cons_ne_nil _ _, ?_, ?_⟩
        · cases rest with
          | nil => simpa using here
          | cons second later => rwa [List.getLast?_cons_cons]
        · rw [List.infix_cons_iff]
          rintro (leads | later)
          · exact here (List.cons_prefix_cons.mp leads).1.symm
          · exact single later

section Settling

variable (profile : NormalizationProfile)

theorem mapped_of_no_entry {character : CodePoint}
    (unlisted : character ∉ profile.characterMap.map Prod.fst) :
    mapped profile character = [character] := by
  rcases mapped_cases profile character with same | listed
  · exact same
  · exact absurd (List.mem_map_of_mem listed) unlisted

theorem translate_self (unlisted : ∀ character ∈ text,
    character ∉ profile.characterMap.map Prod.fst) : translate profile text = text := by
  rw [translate, List.flatMap_congr fun character listed =>
    mapped_of_no_entry profile (unlisted character listed)]
  exact List.flatMap_singleton' text

theorem characterMap_once : ∀ entry ∈ profile.characterMap,
    ∀ letter ∈ entry.2, letter ∉ profile.characterMap.map Prod.fst := by
  unfold NormalizationProfile.characterMap
  cases profile.mapLongS <;> decide

theorem translate_unlisted (text : Str) : ∀ character ∈ translate profile text,
    character ∉ profile.characterMap.map Prod.fst := by
  intro letter written
  obtain ⟨character, _, member⟩ := List.mem_flatMap.mp written
  by_cases listed : character ∈ profile.characterMap.map Prod.fst
  · rcases mapped_cases profile character with same | entry
    · obtain ⟨entry, present, rfl⟩ := List.mem_map.mp listed
      unfold mapped at same member
      cases found : profile.characterMap.lookup entry.1 with
      | none =>
          have absent := List.lookup_eq_none_iff.mp found entry present
          simp at absent
      | some letters =>
          obtain ⟨before, after, split, _⟩ := List.lookup_eq_some_iff.mp found
          rw [found] at member
          exact characterMap_once profile (entry.1, letters) (by rw [split]; simp) letter member
    · exact characterMap_once profile _ entry letter member
  · rw [mapped_of_no_entry profile listed] at member
    rwa [List.mem_singleton.mp member]

theorem countLongS_le_append (before after : Str) (joined : Bool) :
    countLongS unicode joined after ≤ countLongS unicode joined (before ++ after) := by
  induction before with
  | nil => exact le_rfl
  | cons character before ih => exact ih.trans (Nat.le_add_left _ _)

/-- A long s of a composed text is joined to nothing. -/
theorem countLongS_pos (listed : longS ∈ unicode.nfc text) :
    0 < countLongS unicode false (unicode.nfc text) := by
  obtain ⟨before, after, split⟩ := List.append_of_mem listed
  have unjoined : joins unicode after = false :=
    decide_eq_false (unicode.nfc_longS text before after split)
  have counted : 0 < countLongS unicode false (longS :: after) := by
    rw [countLongS, if_pos (.inr ⟨rfl, unjoined⟩)]
    omega
  rw [split]
  exact counted.trans_le (countLongS_le_append before _ false)

theorem countLongS_absent (absent : longS ∉ text) : countLongS unicode false text = 0 := by
  induction text with
  | nil => rfl
  | cons character rest ih =>
      have other : character ≠ longS := fun same => absent (same ▸ List.mem_cons_self)
      rw [countLongS, if_neg (by simp [other]), ih fun later => absent (List.mem_cons_of_mem _ later)]

theorem listed_pieces (unicode : Unicode) (character : CodePoint) :
    (character ∈ profile.characterMap.map Prod.fst ∧ character ≠ longS) ↔
      ∃ piece ∈ unicode.decompose character,
        piece ∈ profile.characterMap.map Prod.fst ∧ piece ≠ longS := by
  have key : ∀ piece ∈ profile.characterMap.map Prod.fst, piece ∈ mapKeys := by
    intro piece listed
    obtain ⟨entry, present, rfl⟩ := List.mem_map.mp listed
    exact characterMap_keys profile entry present
  constructor
  · rintro ⟨listed, other⟩
    refine ⟨character, ?_, listed, other⟩
    rw [(mapKeys_plain unicode (key character listed)).1]
    exact List.mem_cons_self
  · rintro ⟨piece, member, listed, other⟩
    rcases unicode.whole piece (List.mem_append_left _ (key piece listed)) character member with
      rfl | ⟨never, _⟩
    · exact ⟨listed, other⟩
    · exact absurd never other

/-- Composition makes no mapped character. -/
theorem nfc_unlisted (unlisted : ∀ character ∈ text,
      character ∉ profile.characterMap.map Prod.fst) :
    ∀ character ∈ unicode.nfc text, character ∉ profile.characterMap.map Prod.fst := by
  intro character member listed
  have same := unicode.nfc_equivalent text
  by_cases long : character = longS
  · subst long
    have absent : longS ∉ text := fun present => unlisted longS present listed
    have counted := countLongS_pos member
    rw [countLongS_equivalent same, countLongS_absent absent] at counted
    exact absurd counted (lt_irrefl 0)
  · obtain ⟨piece, present, also, _⟩ := (same.exists_iff (listed_pieces profile unicode)).mp
      ⟨character, member, listed, long⟩
    exact unlisted piece present also

theorem nfc_spaced (unicode : Unicode) (text : Str) (state : Gap) (spacedOnce : spacedFrom state text = true)
    (plain : ∀ character ∈ text, ¬ OddWhite character) :
    spacedFrom state (unicode.nfc text) = true ∧
      ∀ character ∈ unicode.nfc text, ¬ OddWhite character := by
  have same := unicode.nfc_equivalent text
  constructor
  · rw [← spacedOnce]
    exact same.invariant fun _ _ step => spacedFrom_step step state
  · intro character member odd
    obtain ⟨piece, present, also⟩ := (same.exists_iff (oddWhite_pieces unicode)).mp
      ⟨character, member, odd⟩
    exact plain piece present also

/-- A scoring form has its words one space apart and nothing left to map. -/
theorem scoringForm_settled (unicode : Unicode) (text : Str) :
    let form := unicode.nfc (translate profile (collapse (unicode.nfc text)))
    spacedFrom .start form = true ∧ (∀ character ∈ form, ¬ OddWhite character) ∧
      ∀ character ∈ form, character ∉ profile.characterMap.map Prod.fst := by
  intro form
  have once := nfc_spaced unicode _ .start
    (spacedFrom_spaced (ink unicode profile text) false false) (spaced_no_oddWhite _ false false)
  rw [← scoringForm_eq] at once
  exact ⟨once.1, once.2, nfc_unlisted profile (translate_unlisted profile _)⟩

theorem normalizeText_idempotent {result : Str}
    (returned : normalizeText unicode text profile = .ok result) :
    normalizeText unicode result profile = .ok result := by
  obtain ⟨_, bounded, rfl⟩ := normalizeText_eq_ok.mp returned
  obtain ⟨once, plain, unlisted⟩ := scoringForm_settled profile unicode text
  have again := unicode.nfc_eq _ _
    (unicode.nfc_equivalent (translate profile (collapse (unicode.nfc text))))
  refine normalizeText_eq_ok.mpr ⟨?_, bounded, ?_⟩
  · rw [checkTextBounds_eq_ok] at bounded ⊢
    exact bounded
  · rw [again, collapse_eq, (spaced_self _ plain).1 once, translate_self profile unlisted, again]

theorem settled (unicode : Unicode) : Settled unicode profile where
  idempotent _ _ returned := normalizeText_idempotent profile returned
  canonical text other same within alsoWithin := by
    obtain ⟨result, returned⟩ := withinTextBounds_iff.mp within
    obtain ⟨form, alsoReturned⟩ := withinTextBounds_iff.mp alsoWithin
    have one := (normalizeText_eq_ok.mp returned).2.2
    have two := (normalizeText_eq_ok.mp alsoReturned).2.2
    rw [returned, alsoReturned, ← one, ← two, unicode.nfc_eq text other same]
  untrimmed text result returned := by
    obtain ⟨_, _, rfl⟩ := normalizeText_eq_ok.mp returned
    obtain ⟨once, _, _⟩ := scoringForm_settled profile unicode text
    obtain ⟨head, _, last, single⟩ := spacedFrom_untrimmed _ .start once
    exact ⟨head (by simp), last, single⟩
  unmapped text result returned := by
    obtain ⟨_, _, rfl⟩ := normalizeText_eq_ok.mp returned
    exact (scoringForm_settled profile unicode text).2.2

end Settling

end Verbatus.Corpus
