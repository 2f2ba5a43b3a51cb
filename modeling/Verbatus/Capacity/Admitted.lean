import Verbatus.Capacity.Moved

namespace Verbatus.Capacity

open Library Library.Checked Python

variable {row : ServingRow} {images : List (ℤ × ℤ)} {prompt budget : ℤ} {basis : PromptTokensBasis}
  {record : CapacityRecord}

/-- A request is recorded from what the row states, image by image. -/
theorem requestFits_eq_ok :
    requestFits row images prompt budget basis none none = .ok record ↔
      ∃ geometry maxModelLen records, rowImageGeometry row = .ok geometry ∧
        rowContextLength row = .ok maxModelLen ∧ 0 ≤ prompt ∧ 0 ≤ budget ∧
          basis ∈ PromptTokensBasis.admitting ∧
            (images.mapM fun image => imageRecord image.1 image.2 geometry) = .ok records ∧
              record = capacityRecord row geometry maxModelLen records prompt budget basis
                none none := by
  constructor
  · intro returned
    obtain ⟨geometry, stated, continued⟩ := bind_eq_ok.mp returned
    obtain ⟨maxModelLen, known, continued⟩ := bind_eq_ok.mp continued
    obtain ⟨_, promptCounted, continued⟩ := bind_eq_ok.mp continued
    obtain ⟨promptNonneg, rfl⟩ := nonnegative_eq_ok.mp promptCounted
    obtain ⟨_, budgetCounted, continued⟩ := bind_eq_ok.mp continued
    obtain ⟨budgetNonneg, rfl⟩ := nonnegative_eq_ok.mp budgetCounted
    obtain ⟨admits, continued⟩ := require_bind_eq_ok.mp continued
    obtain ⟨records, listed, continued⟩ := bind_eq_ok.mp continued
    exact ⟨geometry, maxModelLen, records, stated, known, promptNonneg, budgetNonneg, admits,
      listed, (pure_eq_ok.mp continued).symm⟩
  · rintro ⟨geometry, maxModelLen, records, stated, known, promptNonneg, budgetNonneg, admits,
      listed, rfl⟩
    have promptCounted : nonnegative prompt "prompt_tokens" = .ok prompt :=
      nonnegative_eq_ok.mpr ⟨promptNonneg, rfl⟩
    have budgetCounted : nonnegative budget "answer_budget" = .ok budget :=
      nonnegative_eq_ok.mpr ⟨budgetNonneg, rfl⟩
    unfold requestFits
    rw [stated, ok_bind, known, ok_bind, promptCounted, ok_bind, budgetCounted, ok_bind,
      require_bind_of admits]
    exact bind_eq_ok.mpr ⟨records, listed, rfl⟩

theorem images_nonneg {geometry : RowImageGeometry} {records : List ImageRecord}
    (made : (images.mapM fun image => imageRecord image.1 image.2 geometry) = .ok records) :
    0 ≤ (records.map ImageRecord.imagePromptTokens).sum := by
  have each := mapM_eq_ok.mp made
  clear made
  induction each with
  | nil => exact le_rfl
  | cons here _ ih =>
      rw [List.map_cons, List.sum_cons]
      exact add_nonneg (imageRecord_nonneg here) ih

/-- What a record of a request counts. -/
structure Counted (prompt budget : ℤ) (record : CapacityRecord) : Prop where
  imagesNonneg : 0 ≤ record.imagePromptTokens
  promptTokens : record.promptTokens = prompt
  need : record.need = record.imagePromptTokens + prompt + budget
  headroom : record.headroom = record.maxModelLen - record.need
  fits : record.fits = true ↔ record.need ≤ record.maxModelLen

theorem requestFits_counted
    (returned : requestFits row images prompt budget basis none none = .ok record) :
    Counted prompt budget record := by
  obtain ⟨geometry, maxModelLen, records, _, _, _, _, _, listed, rfl⟩ :=
    requestFits_eq_ok.mp returned
  refine ⟨images_nonneg listed, rfl, rfl, rfl, ?_⟩
  change decide _ = true ↔ _
  rw [decide_eq_true_eq, sub_nonneg]
  rfl

/-- A request that fits still fits with fewer images, and with less to say and to answer. -/
theorem requestFits_fewer {more fewer : List (ℤ × ℤ)} {less lower : ℤ}
    (returned : requestFits row (fewer ++ more) prompt budget basis none none = .ok record)
    (fits : record.fits = true) (lessNonneg : 0 ≤ less) (lessPrompt : less ≤ prompt)
    (lowerNonneg : 0 ≤ lower) (lowerBudget : lower ≤ budget) :
    ∃ kept, requestFits row fewer less lower basis none none = .ok kept ∧ kept.fits = true := by
  have counted := requestFits_counted returned
  obtain ⟨geometry, maxModelLen, records, stated, known, _, _, admits, listed, rfl⟩ :=
    requestFits_eq_ok.mp returned
  rw [List.mapM_append] at listed
  obtain ⟨first, firstMade, listed⟩ := bind_eq_ok.mp listed
  obtain ⟨second, secondMade, listed⟩ := bind_eq_ok.mp listed
  obtain rfl := pure_eq_ok.mp listed
  have remade : requestFits row fewer less lower basis none none =
      .ok (capacityRecord row geometry maxModelLen first less lower basis none none) :=
    requestFits_eq_ok.mpr ⟨geometry, maxModelLen, first, stated, known, lessNonneg, lowerNonneg,
      admits, firstMade, rfl⟩
  refine ⟨_, remade, (requestFits_counted remade).fits.mpr ?_⟩
  have whole := counted.fits.mp fits
  have extra := images_nonneg secondMade
  simp only [capacityRecord, List.map_append, List.sum_append] at whole ⊢
  omega

variable {composition : Composition}

/-- What the prompt of a page is charged, and that its parts join to it. -/
theorem perlectorPagePromptBound_eq_ok {text : Str} {digest : String} {parts : List (Str × Bool)}
    {bound : ℤ × PromptTokensBasis} :
    perlectorPagePromptBound composition text digest parts = .ok bound ↔
      digest = perlectorPagePromptTemplateDigest ∧ (parts.map Prod.fst).flatten = text ∧
        ∃ tokens, promptTokens composition parts = .ok tokens ∧
          bound = (perlectorPagePromptOverheadTokens + tokens, .reportedBytesFixedCarried) := by
  rw [perlectorPagePromptBound, require_bind_eq_ok, require_bind_eq_ok, bind_eq_ok]
  refine and_congr_right fun _ => and_congr_right fun _ => ?_
  constructor
  · rintro ⟨charged, counted, made⟩
    refine ⟨charged.1 + rateBoundTokens charged.2, bind_eq_ok.mpr ⟨charged, counted, rfl⟩, ?_⟩
    rw [← pure_eq_ok.mp made, add_assoc]
  · rintro ⟨tokens, counted, rfl⟩
    obtain ⟨charged, charges, total⟩ := bind_eq_ok.mp counted
    obtain rfl := pure_eq_ok.mp total
    exact ⟨charged, charges, by rw [add_assoc]; rfl⟩

/-- What a page's answer is estimated at. -/
def pageEstimate (measure : AnswerMeasure) : ℤ :=
  rateBoundTokens (measure.longestWitnessCharacters +
    measure.actEntries * pageAnswerEntrySkeleton.length +
    measure.suryaLines * pageAnswerLineCite.length + pageAnswerWrapper.length)

theorem pageAnswerBound_eq_ok {measure : AnswerMeasure} {cap : ℤ} {reserve : ℤ × Bool} :
    pageAnswerBound measure cap = .ok reserve ↔
      0 ≤ measure.longestWitnessCharacters ∧ 0 ≤ measure.actEntries ∧ 0 ≤ measure.suryaLines ∧
        0 < cap ∧ reserve =
          if measure.longestWitnessCharacters = 0 then (cap, false)
          else (min (pageEstimate measure) cap, decide (cap < pageEstimate measure)) := by
  constructor
  · intro returned
    obtain ⟨_, longestCounted, continued⟩ := bind_eq_ok.mp returned
    obtain ⟨longestNonneg, rfl⟩ := nonnegative_eq_ok.mp longestCounted
    obtain ⟨_, entriesCounted, continued⟩ := bind_eq_ok.mp continued
    obtain ⟨entriesNonneg, rfl⟩ := nonnegative_eq_ok.mp entriesCounted
    obtain ⟨_, linesCounted, continued⟩ := bind_eq_ok.mp continued
    obtain ⟨linesNonneg, rfl⟩ := nonnegative_eq_ok.mp linesCounted
    obtain ⟨_, capCounted, continued⟩ := bind_eq_ok.mp continued
    obtain ⟨capPos, rfl⟩ := positive_eq_ok.mp capCounted
    refine ⟨longestNonneg, entriesNonneg, linesNonneg, capPos, ?_⟩
    split_ifs at continued ⊢
    · exact (pure_eq_ok.mp continued).symm
    · exact (pure_eq_ok.mp continued).symm
  · rintro ⟨longest, entries, lines, cap, rfl⟩
    unfold pageAnswerBound
    rw [nonnegative_eq_ok.mpr ⟨longest, rfl⟩, ok_bind, nonnegative_eq_ok.mpr ⟨entries, rfl⟩,
      ok_bind, nonnegative_eq_ok.mpr ⟨lines, rfl⟩, ok_bind, positive_eq_ok.mpr ⟨cap, rfl⟩, ok_bind]
    split_ifs
    · rfl
    · rfl

theorem length_pos_of_spelt {text : String} {first : Char} {rest : List Char}
    (spelt : text = String.ofList (first :: rest)) : 0 < text.length := by
  rw [spelt, String.length_ofList]
  exact Nat.succ_pos _

theorem length_append_pos {first rest : String} (some : 0 < first.length) :
    0 < (first ++ rest).length :=
  (Nat.add_pos_left some _).trans_eq (String.length_append ..).symm

theorem pageAnswerWrapper_pos : 0 < pageAnswerWrapper.length :=
  length_append_pos (length_pos_of_spelt rfl)

theorem pageEstimate_pos {measure : AnswerMeasure} (longest : 0 ≤ measure.longestWitnessCharacters)
    (entries : 0 ≤ measure.actEntries) (lines : 0 ≤ measure.suryaLines) :
    1 ≤ pageEstimate measure := by
  refine rateBoundTokens_pos ?_
  have wrapper := pageAnswerWrapper_pos
  have entryCost := mul_nonneg entries (Int.natCast_nonneg pageAnswerEntrySkeleton.length)
  have lineCost := mul_nonneg lines (Int.natCast_nonneg pageAnswerLineCite.length)
  omega

/-- The reserve of a page's answer is within the cap and not nothing. -/
theorem pageAnswerBound_within {measure : AnswerMeasure} {cap : ℤ} {reserve : ℤ × Bool}
    (returned : pageAnswerBound measure cap = .ok reserve) : 1 ≤ reserve.1 ∧ reserve.1 ≤ cap := by
  obtain ⟨longest, entries, lines, capPos, rfl⟩ := pageAnswerBound_eq_ok.mp returned
  split_ifs
  · exact ⟨capPos, le_rfl⟩
  · exact ⟨le_min (pageEstimate_pos longest entries lines) capPos, min_le_right _ _⟩

/-- A longer witness reserves no less. -/
theorem pageAnswerBound_longer {measure : AnswerMeasure} {longer cap : ℤ} {reserve : ℤ × Bool}
    (witnessed : 1 ≤ measure.longestWitnessCharacters)
    (longest : measure.longestWitnessCharacters ≤ longer)
    (returned : pageAnswerBound { measure with longestWitnessCharacters := longer } cap =
      .ok reserve) :
    ∃ less, pageAnswerBound measure cap = .ok less ∧ less.1 ≤ reserve.1 := by
  obtain ⟨_, entries, lines, capPos, rfl⟩ := pageAnswerBound_eq_ok.mp returned
  have nonneg : 0 ≤ measure.longestWitnessCharacters := by omega
  refine ⟨_, pageAnswerBound_eq_ok.mpr ⟨nonneg, entries, lines, capPos, rfl⟩, ?_⟩
  rw [if_neg (by omega), if_neg (show ¬ longer = 0 by omega)]
  exact min_le_min (rateBoundTokens_mono (by dsimp only; gcongr)) le_rfl

theorem pageAnswerMaxTokens_eq_ok {room cap tokens : ℤ} :
    pageAnswerMaxTokens room cap = .ok tokens ↔ 0 < cap ∧ tokens = min cap room := by
  rw [pageAnswerMaxTokens, bind_eq_ok]
  constructor
  · rintro ⟨_, capped, made⟩
    obtain ⟨capPos, rfl⟩ := positive_eq_ok.mp capped
    exact ⟨capPos, (pure_eq_ok.mp made).symm⟩
  · rintro ⟨capPos, rfl⟩
    exact ⟨cap, positive_eq_ok.mpr ⟨capPos, rfl⟩, rfl⟩

/-- A page request is admitted when its record fits. -/
theorem pageRequestCapacity_eq_ok {text : Str} {parts : List (Str × Bool)} {digest : String}
    {measure : AnswerMeasure} {cap : ℤ} {admitted : Admitted AnswerReserve} :
    pageRequestCapacity composition row images text parts digest measure cap = .ok admitted ↔
      images.length ≤ perlectorPageMaxImages ∧ ∃ bound reserve record,
        perlectorPagePromptBound composition text digest parts = .ok bound ∧
          pageAnswerBound measure cap = .ok reserve ∧
            requestFits row images bound.1 reserve.1 bound.2 none none = .ok record ∧
              record.fits = true ∧
                admitted = ⟨record, ⟨measure, reserve.1, reserve.2, cap⟩,
                  min cap (record.maxModelLen - record.imagePromptTokens - record.promptTokens)⟩ := by
  rw [pageRequestCapacity, require_bind_eq_ok]
  refine and_congr_right fun _ => ?_
  constructor
  · intro returned
    obtain ⟨bound, charged, continued⟩ := bind_eq_ok.mp returned
    obtain ⟨_, capped, continued⟩ := bind_eq_ok.mp continued
    obtain ⟨_, rfl⟩ := positive_eq_ok.mp capped
    obtain ⟨reserve, reserved, continued⟩ := bind_eq_ok.mp continued
    obtain ⟨record, recorded, continued⟩ := bind_eq_ok.mp continued
    obtain ⟨fits, continued⟩ := require_bind_eq_ok.mp continued
    obtain ⟨tokens, bounded, made⟩ := bind_eq_ok.mp continued
    obtain ⟨_, rfl⟩ := pageAnswerMaxTokens_eq_ok.mp bounded
    exact ⟨bound, reserve, record, charged, reserved, recorded, fits, (pure_eq_ok.mp made).symm⟩
  · rintro ⟨bound, reserve, record, charged, reserved, recorded, fits, rfl⟩
    have capPos := (pageAnswerBound_eq_ok.mp reserved).2.2.2.1
    refine bind_eq_ok.mpr ⟨bound, charged, bind_eq_ok.mpr ⟨cap, positive_eq_ok.mpr ⟨capPos, rfl⟩,
      bind_eq_ok.mpr ⟨reserve, reserved, bind_eq_ok.mpr ⟨record, recorded, ?_⟩⟩⟩⟩
    rw [require_bind_of fits]
    exact bind_eq_ok.mpr ⟨_, pageAnswerMaxTokens_eq_ok.mpr ⟨capPos, rfl⟩, rfl⟩

/-- What an admitted request leaves room for: its answer's reserve, and all it may answer. -/
structure Fits (record : CapacityRecord) (reserve maxTokens cap : ℤ) : Prop where
  reserved : record.imagePromptTokens + record.promptTokens + reserve ≤ record.maxModelLen
  positive : 1 ≤ reserve
  within : reserve ≤ maxTokens
  capped : maxTokens ≤ cap
  answered : record.imagePromptTokens + record.promptTokens + maxTokens ≤ record.maxModelLen

/-- What a request refused for its size carries. -/
structure OverBy (record : CapacityRecord) : Prop where
  more : record.maxModelLen < record.need
  by_headroom : record.need - record.maxModelLen = -record.headroom

theorem Counted.overBy (counted : Counted prompt budget record) (fits : ¬ record.fits = true) :
    OverBy record := by
  have more := mt counted.fits.mpr fits
  exact ⟨not_le.mp more, by rw [counted.headroom]; ring⟩

/-- A page request that is admitted fits, and its parts are charged each by its pieces. -/
theorem pageRequestCapacity_fits {text : Str} {parts : List (Str × Bool)} {digest : String}
    {measure : AnswerMeasure} {cap : ℤ} {admitted : Admitted AnswerReserve}
    (returned : pageRequestCapacity composition row images text parts digest measure cap =
      .ok admitted) :
    Fits admitted.capacity admitted.answerReserve.tokens admitted.maxTokens cap ∧
      (parts.map Prod.fst).flatten = text ∧ ((pieces parts).map Prod.fst).flatten = text ∧
      (∃ bytes, byteCharge composition (pieces parts) = .ok bytes ∧
        admitted.capacity.promptTokens = perlectorPagePromptOverheadTokens + bytes +
          rateBoundTokens (rateCharge (pieces parts))) ∧
      ∀ part ∈ parts, ∃ bound, perlectorPagePromptBound composition part.1 digest [part] = .ok bound ∧
        bound.1 ≤ admitted.capacity.promptTokens := by
  obtain ⟨_, bound, reserve, record, charged, reserved, recorded, fits, rfl⟩ :=
    pageRequestCapacity_eq_ok.mp returned
  obtain ⟨sealed, joined, tokens, counts, rfl⟩ := perlectorPagePromptBound_eq_ok.mp charged
  obtain ⟨bytes, byteCount, rfl⟩ := promptTokens_eq_ok.mp counts
  obtain ⟨some, capped⟩ := pageAnswerBound_within reserved
  have counted := requestFits_counted recorded
  have room := counted.fits.mp fits
  rw [counted.need] at room
  have prompt := counted.promptTokens
  have left := min_le_right cap
    (record.maxModelLen - record.imagePromptTokens - record.promptTokens)
  refine ⟨⟨by dsimp only at *; omega, some, le_min capped (by dsimp only at *; omega),
    min_le_left _ _, by dsimp only at *; omega⟩, joined, ?_, ⟨bytes, byteCount, ?_⟩, ?_⟩
  · rw [pieces_flatten, joined]
  · rw [prompt, add_assoc]
  · intro part listed
    obtain ⟨before, after, rfl⟩ := List.append_of_mem listed
    obtain ⟨charge, alone, less⟩ := promptTokens_stretch [part] counts
    refine ⟨_, perlectorPagePromptBound_eq_ok.mpr ⟨sealed, by simp, charge, alone, rfl⟩, ?_⟩
    rw [prompt]
    exact add_le_add le_rfl less

theorem pageRequestCapacity_fewerImages {more : List (ℤ × ℤ)} {text : Str}
    {parts : List (Str × Bool)} {digest : String} {measure : AnswerMeasure} {cap : ℤ}
    {admitted : Admitted AnswerReserve}
    (returned : pageRequestCapacity composition row (images ++ more) text parts digest measure cap =
      .ok admitted) :
    ∃ kept, pageRequestCapacity composition row images text parts digest measure cap = .ok kept := by
  obtain ⟨few, bound, reserve, record, charged, reserved, recorded, fits, rfl⟩ :=
    pageRequestCapacity_eq_ok.mp returned
  have nonneg := requestFits_eq_ok.mp recorded
  obtain ⟨_, _, _, _, _, promptNonneg, budgetNonneg, _⟩ := nonneg
  obtain ⟨kept, again, keeps⟩ :=
    requestFits_fewer recorded fits promptNonneg le_rfl budgetNonneg le_rfl
  rw [List.length_append] at few
  exact ⟨_, pageRequestCapacity_eq_ok.mpr ⟨by omega, bound, reserve, kept, charged, reserved, again,
    keeps, rfl⟩⟩

theorem perlectorPagePromptOverheadTokens_nonneg : 0 ≤ perlectorPagePromptOverheadTokens := by decide

theorem promptTokens_nonneg {parts : List (Str × Bool)} {tokens : ℤ}
    (charged : promptTokens composition parts = .ok tokens) : 0 ≤ tokens := by
  obtain ⟨bytes, _, rfl⟩ := promptTokens_eq_ok.mp charged
  have rate := rateBoundTokens_mono (Int.natCast_nonneg (rateCharge (pieces parts)))
  have zero : rateBoundTokens 0 = 0 := by decide
  rw [zero] at rate
  omega

theorem pageRequestCapacity_fewerParts {text : Str} {parts more : List (Str × Bool)}
    {digest : String} {measure : AnswerMeasure} {cap : ℤ} {admitted : Admitted AnswerReserve}
    (returned : pageRequestCapacity composition row images (text ++ (more.map Prod.fst).flatten)
      (parts ++ more) digest measure cap = .ok admitted) :
    ∃ kept, pageRequestCapacity composition row images text parts digest measure cap = .ok kept := by
  obtain ⟨few, bound, reserve, record, charged, reserved, recorded, fits, rfl⟩ :=
    pageRequestCapacity_eq_ok.mp returned
  obtain ⟨sealed, joined, tokens, counts, rfl⟩ := perlectorPagePromptBound_eq_ok.mp charged
  obtain ⟨charge, fewer, less⟩ := @promptTokens_stretch composition [] more parts tokens counts
  rw [List.map_append, List.flatten_append] at joined
  have kept : perlectorPagePromptBound composition text digest parts =
      .ok (perlectorPagePromptOverheadTokens + charge, .reportedBytesFixedCarried) :=
    perlectorPagePromptBound_eq_ok.mpr
      ⟨sealed, List.append_cancel_right joined, charge, fewer, rfl⟩
  obtain ⟨_, _, _, _, _, _, budgetNonneg, _⟩ := requestFits_eq_ok.mp recorded
  have chargeNonneg := add_nonneg perlectorPagePromptOverheadTokens_nonneg
    (promptTokens_nonneg fewer)
  rw [← List.append_nil images] at recorded
  obtain ⟨again, recounted, keeps⟩ := requestFits_fewer recorded fits chargeNonneg
    (add_le_add le_rfl less) budgetNonneg le_rfl
  exact ⟨_, pageRequestCapacity_eq_ok.mpr ⟨few, _, reserve, again, kept, reserved, recounted, keeps,
    rfl⟩⟩

theorem pageRequestCapacity_shorter {text : Str} {parts : List (Str × Bool)} {digest : String}
    {measure : AnswerMeasure} {longer cap : ℤ} {admitted : Admitted AnswerReserve}
    (witnessed : 1 ≤ measure.longestWitnessCharacters)
    (longest : measure.longestWitnessCharacters ≤ longer)
    (returned : pageRequestCapacity composition row images text parts digest
      { measure with longestWitnessCharacters := longer } cap = .ok admitted) :
    ∃ kept, pageRequestCapacity composition row images text parts digest measure cap = .ok kept := by
  obtain ⟨few, bound, reserve, record, charged, reserved, recorded, fits, rfl⟩ :=
    pageRequestCapacity_eq_ok.mp returned
  obtain ⟨less, lower, fewer⟩ := pageAnswerBound_longer witnessed longest reserved
  obtain ⟨_, _, _, _, _, promptNonneg, _, _⟩ := requestFits_eq_ok.mp recorded
  have nonneg := (pageAnswerBound_within lower).1
  rw [← List.append_nil images] at recorded
  obtain ⟨again, recounted, keeps⟩ := requestFits_fewer recorded fits promptNonneg le_rfl
    (zero_le_one.trans nonneg) fewer
  exact ⟨_, pageRequestCapacity_eq_ok.mpr ⟨few, bound, less, again, charged, lower, recounted, keeps,
    rfl⟩⟩

/-- A page request whose record does not fit is refused with that record. -/
theorem pageRequestCapacity_refused {text : Str} {parts : List (Str × Bool)} {digest : String}
    {measure : AnswerMeasure} {cap : ℤ} {bound : ℤ × PromptTokensBasis} {reserve : ℤ × Bool}
    (few : images.length ≤ perlectorPageMaxImages)
    (charged : perlectorPagePromptBound composition text digest parts = .ok bound)
    (reserved : pageAnswerBound measure cap = .ok reserve)
    (recorded : requestFits row images bound.1 reserve.1 bound.2 none none = .ok record)
    (fits : ¬ record.fits = true) :
    (∃ message, pageRequestCapacity composition row images text parts digest measure cap =
      .error (.refusal message (some record))) ∧ OverBy record := by
  refine ⟨?_, (requestFits_counted recorded).overBy fits⟩
  obtain ⟨promptTokens, basis⟩ := bound
  obtain ⟨tokens, clamped⟩ := reserve
  have capPos := (pageAnswerBound_eq_ok.mp reserved).2.2.2.1
  rw [pageRequestCapacity, require_bind_of few, charged, ok_bind]
  dsimp only
  rw [positive_eq_ok.mpr ⟨capPos, rfl⟩, ok_bind, reserved, ok_bind]
  dsimp only
  rw [recorded, ok_bind, require, if_neg fits]
  exact ⟨_, rfl⟩

/-- What the answer to a reconstruction request is estimated at. -/
def reconstructionEstimate (acts joins : ℤ) (policy : AnswerPolicy) : ℤ :=
  let departure := reconstructionDepartureSkeleton.length +
    4 * (2 * policy.maxDepartureCharacters + policy.maxReasonCharacters)
  let perItem := policy.maxDeparturesPerAct * departure + 4 * policy.maxReasonCharacters
  reconstructionAnswerWrapper.length + acts * (reconstructionEntrySkeleton.length + perItem) +
    joins * (reconstructionJoinSkeleton.length + perItem)

theorem reconstructionAnswerBound_eq_ok {acts joins cap : ℤ} {policy : AnswerPolicy}
    {reserve : ℤ × Bool} :
    reconstructionAnswerBound acts joins policy cap = .ok reserve ↔
      0 ≤ acts ∧ 0 ≤ joins ∧ 0 < policy.maxDeparturesPerAct ∧ 0 < policy.maxDepartureCharacters ∧
        0 < policy.maxReasonCharacters ∧ 0 < cap ∧
          reserve = (min (reconstructionEstimate acts joins policy) cap,
            decide (cap < reconstructionEstimate acts joins policy)) := by
  constructor
  · intro returned
    obtain ⟨_, actsCounted, continued⟩ := bind_eq_ok.mp returned
    obtain ⟨actsNonneg, rfl⟩ := nonnegative_eq_ok.mp actsCounted
    obtain ⟨_, joinsCounted, continued⟩ := bind_eq_ok.mp continued
    obtain ⟨joinsNonneg, rfl⟩ := nonnegative_eq_ok.mp joinsCounted
    obtain ⟨_, departuresCounted, continued⟩ := bind_eq_ok.mp continued
    obtain ⟨departuresPos, rfl⟩ := positive_eq_ok.mp departuresCounted
    obtain ⟨_, sideCounted, continued⟩ := bind_eq_ok.mp continued
    obtain ⟨sidePos, rfl⟩ := positive_eq_ok.mp sideCounted
    obtain ⟨_, reasonCounted, continued⟩ := bind_eq_ok.mp continued
    obtain ⟨reasonPos, rfl⟩ := positive_eq_ok.mp reasonCounted
    obtain ⟨_, capCounted, continued⟩ := bind_eq_ok.mp continued
    obtain ⟨capPos, rfl⟩ := positive_eq_ok.mp capCounted
    exact ⟨actsNonneg, joinsNonneg, departuresPos, sidePos, reasonPos, capPos,
      (pure_eq_ok.mp continued).symm⟩
  · rintro ⟨acts, joins, departures, side, reason, cap, rfl⟩
    unfold reconstructionAnswerBound
    rw [nonnegative_eq_ok.mpr ⟨acts, rfl⟩, ok_bind, nonnegative_eq_ok.mpr ⟨joins, rfl⟩, ok_bind,
      positive_eq_ok.mpr ⟨departures, rfl⟩, ok_bind, positive_eq_ok.mpr ⟨side, rfl⟩, ok_bind,
      positive_eq_ok.mpr ⟨reason, rfl⟩, ok_bind, positive_eq_ok.mpr ⟨cap, rfl⟩, ok_bind]
    rfl

theorem reconstructionItem_nonneg {departures side reason : ℤ} (skeleton : ℕ)
    (departuresPos : 0 < departures) (sidePos : 0 < side) (reasonPos : 0 < reason) :
    0 ≤ departures * (skeleton + 4 * (2 * side + reason)) + 4 * reason := by positivity

theorem reconstructionAnswerBound_within {acts joins cap : ℤ} {policy : AnswerPolicy}
    {reserve : ℤ × Bool}
    (returned : reconstructionAnswerBound acts joins policy cap = .ok reserve) :
    1 ≤ reserve.1 ∧ reserve.1 ≤ cap := by
  obtain ⟨actsNonneg, joinsNonneg, departures, side, reason, capPos, rfl⟩ :=
    reconstructionAnswerBound_eq_ok.mp returned
  refine ⟨le_min ?_ capPos, min_le_right _ _⟩
  have wrapper : 0 < reconstructionAnswerWrapper.length := length_pos_of_spelt rfl
  have perItem :=
    reconstructionItem_nonneg reconstructionDepartureSkeleton.length departures side reason
  have actCost := mul_nonneg actsNonneg
    (add_nonneg (Int.natCast_nonneg reconstructionEntrySkeleton.length) perItem)
  have joinCost := mul_nonneg joinsNonneg
    (add_nonneg (Int.natCast_nonneg reconstructionJoinSkeleton.length) perItem)
  simp only [reconstructionEstimate]
  omega

/-- A reconstruction request that is admitted fits. -/
theorem reconstructionRequestCapacity_fits {text : Str} {acts joins cap : ℤ} {policy : AnswerPolicy}
    {admitted : Admitted ReconstructionReserve}
    (returned : reconstructionRequestCapacity composition row text acts joins policy cap =
      .ok admitted) :
    Fits admitted.capacity admitted.answerReserve.tokens admitted.maxTokens cap ∧
      ∃ bytes, reportedBytes composition text = .ok bytes ∧
        admitted.capacity.promptTokens = textTurnOverheadTokens + bytes := by
  obtain ⟨bound, charged, continued⟩ := bind_eq_ok.mp returned
  obtain ⟨bytes, counts, made⟩ := bind_eq_ok.mp charged
  obtain rfl := pure_eq_ok.mp made
  obtain ⟨_, capped, continued⟩ := bind_eq_ok.mp continued
  obtain ⟨capPos, rfl⟩ := positive_eq_ok.mp capped
  obtain ⟨reserve, reserved, continued⟩ := bind_eq_ok.mp continued
  obtain ⟨record, recorded, continued⟩ := bind_eq_ok.mp continued
  obtain ⟨fits, continued⟩ := require_bind_eq_ok.mp continued
  obtain rfl := pure_eq_ok.mp continued
  obtain ⟨some, within⟩ := reconstructionAnswerBound_within reserved
  have counted := requestFits_counted recorded
  have room := counted.fits.mp fits
  rw [counted.need] at room
  have prompt := counted.promptTokens
  have images : record.imagePromptTokens = 0 := by
    obtain ⟨_, _, records, _, _, _, _, _, listed, rfl⟩ := requestFits_eq_ok.mp recorded
    obtain rfl := pure_eq_ok.mp listed
    rfl
  have left := min_le_right cap (record.maxModelLen - record.promptTokens)
  exact ⟨⟨by dsimp only at *; omega, some, le_min within (by dsimp only at *; omega),
    min_le_left _ _, by dsimp only at *; omega⟩, bytes, counts, prompt⟩

/-- A reconstruction request whose record does not fit is refused with that record. -/
theorem reconstructionRequestCapacity_refused {text : Str} {acts joins cap : ℤ}
    {policy : AnswerPolicy} {bound : ℤ × PromptTokensBasis} {reserve : ℤ × Bool}
    (charged : allTextPromptBound composition text = .ok bound)
    (reserved : reconstructionAnswerBound acts joins policy cap = .ok reserve)
    (recorded : requestFits row [] bound.1 reserve.1 bound.2 none none = .ok record)
    (fits : ¬ record.fits = true) :
    (∃ message, reconstructionRequestCapacity composition row text acts joins policy cap =
      .error (.refusal message (some record))) ∧ OverBy record := by
  refine ⟨?_, (requestFits_counted recorded).overBy fits⟩
  obtain ⟨promptTokens, basis⟩ := bound
  obtain ⟨tokens, clamped⟩ := reserve
  have capPos := (reconstructionAnswerBound_eq_ok.mp reserved).2.2.2.2.2.1
  rw [reconstructionRequestCapacity, charged, ok_bind]
  dsimp only
  rw [positive_eq_ok.mpr ⟨capPos, rfl⟩, ok_bind, reserved, ok_bind]
  dsimp only
  rw [recorded, ok_bind, require, if_neg fits]
  exact ⟨_, rfl⟩

end Verbatus.Capacity
