import Verbatus.Capacity.Admitted

namespace Verbatus.Capacity

open Library Library.Checked Python
open CodePoint (ofCode)

/-- A page prompt whose piece is moved from the builder's own to the reported side costs no less,
    unless composition makes one digit-bearing run of the piece longer and another shorter. -/
def MovesUp (composition : Composition) : Prop :=
  ∀ (digest : String) (before after : List (Str × Bool)) (text whole : Str)
    (own reported : ℤ × PromptTokensBasis),
    perlectorPagePromptBound composition whole digest (before ++ (text, false) :: after) = .ok own →
      perlectorPagePromptBound composition whole digest (before ++ (text, true) :: after) =
        .ok reported → own.1 ≤ reported.1 ∨ MixedRuns composition text

theorem movesUp (composition : Composition) : MovesUp composition := by
  intro digest before after text whole own reported charged moved
  obtain ⟨_, _, ownTokens, ownCounted, rfl⟩ := perlectorPagePromptBound_eq_ok.mp charged
  obtain ⟨_, _, tokens, counted, rfl⟩ := perlectorPagePromptBound_eq_ok.mp moved
  by_cases mixed : MixedRuns composition text
  · exact .inr mixed
  · exact .inl (add_le_add le_rfl (promptTokens_moved mixed ownCounted counted))

/-- Requests that are admitted fit and are charged whole; a piece moved to the reported side costs
    no less but where composition mixes its runs; more of a request is never admitted where less is
    refused; and a request refused for its size carries a record that is over by its headroom. -/
theorem requestCapacity_fits (composition : Composition) (row : ServingRow) :
    (∀ images text parts digest measure cap admitted,
      pageRequestCapacity composition row images text parts digest measure cap = .ok admitted →
        Fits admitted.capacity admitted.answerReserve.tokens admitted.maxTokens cap ∧
          (parts.map Prod.fst).flatten = text ∧ ((pieces parts).map Prod.fst).flatten = text ∧
          (∃ bytes, byteCharge composition (pieces parts) = .ok bytes ∧
            admitted.capacity.promptTokens = perlectorPagePromptOverheadTokens + bytes +
              rateBoundTokens (rateCharge (pieces parts))) ∧
          ∀ part ∈ parts, ∃ bound,
            perlectorPagePromptBound composition part.1 digest [part] = .ok bound ∧
              bound.1 ≤ admitted.capacity.promptTokens) ∧
    (∀ text acts joins policy cap admitted,
      reconstructionRequestCapacity composition row text acts joins policy cap = .ok admitted →
        Fits admitted.capacity admitted.answerReserve.tokens admitted.maxTokens cap ∧
          ∃ bytes, reportedBytes composition text = .ok bytes ∧
            admitted.capacity.promptTokens = textTurnOverheadTokens + bytes) ∧
    MovesUp composition ∧
    (∀ images text parts digest measure cap,
      (∃ message error, pageRequestCapacity composition row images text parts digest measure cap =
          .error (.refusal message error)) →
        (∀ image admitted, pageRequestCapacity composition row (images ++ [image]) text parts digest
            measure cap ≠ .ok admitted) ∧
        (∀ part admitted, pageRequestCapacity composition row images (text ++ part.1)
            (parts ++ [part]) digest measure cap ≠ .ok admitted) ∧
        ∀ longer admitted, 1 ≤ measure.longestWitnessCharacters →
          measure.longestWitnessCharacters ≤ longer →
            pageRequestCapacity composition row images text parts digest
              { measure with longestWitnessCharacters := longer } cap ≠ .ok admitted) ∧
    (∀ images text parts digest measure cap bound reserve record,
      images.length ≤ perlectorPageMaxImages →
        perlectorPagePromptBound composition text digest parts = .ok bound →
          pageAnswerBound measure cap = .ok reserve →
            requestFits row images bound.1 reserve.1 bound.2 none none = .ok record →
              ¬ record.fits = true →
                (∃ message, pageRequestCapacity composition row images text parts digest measure cap =
                  .error (.refusal message (some record))) ∧ OverBy record) ∧
    ∀ text acts joins policy cap bound reserve record,
      allTextPromptBound composition text = .ok bound →
        reconstructionAnswerBound acts joins policy cap = .ok reserve →
          requestFits row [] bound.1 reserve.1 bound.2 none none = .ok record →
            ¬ record.fits = true →
              (∃ message, reconstructionRequestCapacity composition row text acts joins policy cap =
                .error (.refusal message (some record))) ∧ OverBy record := by
  refine ⟨fun _ _ _ _ _ _ _ returned => pageRequestCapacity_fits returned,
    fun _ _ _ _ _ _ returned => reconstructionRequestCapacity_fits returned, movesUp composition,
    fun images text parts digest measure cap refused => ?_,
    fun _ _ _ _ _ _ _ _ _ few charged reserved recorded fits =>
      pageRequestCapacity_refused few charged reserved recorded fits,
    fun _ _ _ _ _ _ _ _ charged reserved recorded fits =>
      reconstructionRequestCapacity_refused charged reserved recorded fits⟩
  obtain ⟨message, error, refusal⟩ := refused
  have never : ∀ kept, pageRequestCapacity composition row images text parts digest measure cap ≠
      .ok kept := by
    intro kept same
    rw [refusal] at same
    cases same
  refine ⟨fun image admitted returned => ?_, fun part admitted returned => ?_,
    fun longer admitted witnessed longest returned => ?_⟩
  · obtain ⟨kept, same⟩ := pageRequestCapacity_fewerImages returned
    exact never kept same
  · have flat : text ++ ([part].map Prod.fst).flatten = text ++ part.1 := by simp
    rw [← flat] at returned
    obtain ⟨kept, same⟩ := pageRequestCapacity_fewerParts returned
    exact never kept same
  · obtain ⟨kept, same⟩ := pageRequestCapacity_shorter witnessed longest returned
    exact never kept same

/-- A letter that is never composed, as it is composed. -/
def decomposeSample (character : CodePoint) : Str :=
  if character = ofCode 0x958 then [ofCode 0x915, ofCode 0x93C] else [character]

/-- Composition where only an e and its acute accent join. -/
def composeSample : Str → Str
  | [] => []
  | [character] => decomposeSample character
  | first :: second :: rest =>
      if first = ofCode 0x65 ∧ second = ofCode 0x301 then ofCode 0xE9 :: composeSample rest
      else decomposeSample first ++ composeSample (second :: rest)

theorem decomposeSample_pos (character : CodePoint) : 1 ≤ (decomposeSample character).length := by
  unfold decomposeSample
  split_ifs
  · exact Nat.le_succ 1
  · exact le_rfl

theorem composeSample_half (text : Str) : text.length ≤ 2 * (composeSample text).length := by
  induction text using composeSample.induct with
  | case1 => exact Nat.zero_le _
  | case2 character =>
      have some := decomposeSample_pos character
      rw [composeSample, List.length_singleton]
      omega
  | case3 first second rest joined ih =>
      rw [composeSample, if_pos joined]
      simp only [List.length_cons]
      omega
  | case4 first second rest apart ih =>
      have some := decomposeSample_pos first
      rw [composeSample, if_neg apart, List.length_append]
      simp only [List.length_cons] at ih ⊢
      omega

theorem composeSample_joined {first second : CodePoint} (rest : Str)
    (joined : first = ofCode 0x65 ∧ second = ofCode 0x301) :
    composeSample (first :: second :: rest) = ofCode 0xE9 :: composeSample rest := by
  rw [composeSample, if_pos joined]

theorem composeSample_cons {first second : CodePoint} (rest : Str)
    (apart : ¬ (first = ofCode 0x65 ∧ second = ofCode 0x301)) :
    composeSample (first :: second :: rest) =
      decomposeSample first ++ composeSample (second :: rest) := by
  rw [composeSample, if_neg apart]

theorem composeSample_white (before : Str) {white : CodePoint} (after : Str)
    (spaced : white.isSpace = true) :
    composeSample (before ++ white :: after) =
      composeSample before ++ composeSample [white] ++ composeSample after := by
  have notLetter : white ≠ ofCode 0x65 := by
    rintro rfl
    revert spaced
    decide
  have notAccent : white ≠ ofCode 0x301 := by
    rintro rfl
    revert spaced
    decide
  have headed : composeSample (white :: after) = composeSample [white] ++ composeSample after := by
    cases after with
    | nil => simp [composeSample]
    | cons second rest =>
        rw [composeSample_cons rest fun joined => notLetter joined.1]
        rfl
  induction before using composeSample.induct with
  | case1 => exact headed
  | case2 character =>
      change composeSample (character :: white :: after) = _
      rw [composeSample_cons after fun joined => notAccent joined.2, headed, List.append_assoc]
      rfl
  | case3 first second rest joined ih =>
      change composeSample (first :: second :: (rest ++ white :: after)) = _
      rw [composeSample_joined _ joined, composeSample_joined rest joined, ih]
      rfl
  | case4 first second rest apart ih =>
      change composeSample (first :: second :: (rest ++ white :: after)) = _
      rw [composeSample_cons _ apart, composeSample_cons rest apart, List.append_assoc,
        List.append_assoc, ← List.append_assoc (composeSample (second :: rest)), ← ih]
      rfl

def sampleComposition : Composition where
  nfc := composeSample
  nfc_white before _ after spaced := composeSample_white before after spaced
  nfc_half text bytes encoded := by
    have composed := length_le_bytesOf encoded
    have half := composeSample_half text
    omega

/-- A piece of two digit-bearing runs, one shorter composed and one longer. -/
def mixedPiece : Str := [0x31, 0x65, 0x301, 0x20, 0x31, 0x958].map ofCode

/-- The charge falls when a piece of mixed runs is moved to the reported side. -/
theorem not_movesUp_mixed :
    ¬ ∀ (composition : Composition) (digest : String) (before after : List (Str × Bool))
      (text whole : Str) (own reported : ℤ × PromptTokensBasis),
        perlectorPagePromptBound composition whole digest (before ++ (text, false) :: after) =
          .ok own →
          perlectorPagePromptBound composition whole digest (before ++ (text, true) :: after) =
            .ok reported → own.1 ≤ reported.1 := by
  intro rises
  have own : promptTokens sampleComposition [(mixedPiece, false)] = .ok 12 := by rfl
  have reported : promptTokens sampleComposition [(mixedPiece, true)] = .ok 11 := by rfl
  have flat : ∀ kept : Bool, ([(mixedPiece, kept)].map Prod.fst).flatten = mixedPiece :=
    fun _ => rfl
  have fallen := rises sampleComposition perlectorPagePromptTemplateDigest [] [] mixedPiece
    mixedPiece _ _ (perlectorPagePromptBound_eq_ok.mpr ⟨rfl, flat false, _, own, rfl⟩)
    (perlectorPagePromptBound_eq_ok.mpr ⟨rfl, flat true, _, reported, rfl⟩)
  revert fallen
  decide

end Verbatus.Capacity
