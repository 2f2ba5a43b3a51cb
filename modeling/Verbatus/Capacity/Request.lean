import Verbatus.Capacity.Charge

namespace Verbatus.Capacity

open Library Library.Checked Python Refusal

/-- The closed record of one request, once the row has stated what the check needs. -/
def capacityRecord (row : ServingRow) (geometry : RowImageGeometry) (maxModelLen : ℤ)
    (imageRecords : List ImageRecord) (promptTokens answerBudget : ℤ)
    (promptTokensBasis : PromptTokensBasis) (promptTokensFloor : Option ℤ)
    (promptTokensFloorBasis : Option PromptTokensBasis) : CapacityRecord :=
  let imageTotal := (imageRecords.map ImageRecord.imagePromptTokens).sum
  let need := imageTotal + promptTokens + answerBudget
  let headroom := maxModelLen - need
  { schema := "verbatus-request-capacity.v1"
    recipe := row.recipe
    chair := row.chair
    tier := row.tier
    maxModelLen := maxModelLen
    minPixels := geometry.minPixels
    maxPixels := geometry.maxPixels
    patchSize := geometry.patchSize
    mergeSize := geometry.mergeSize
    images := imageRecords
    imagePromptTokens := imageTotal
    promptTokens := promptTokens
    promptTokensBasis := promptTokensBasis
    promptTokensFloor := promptTokensFloor
    promptTokensFloorBasis := promptTokensFloorBasis
    answerBudget := answerBudget
    need := need
    headroom := headroom
    fits := 0 ≤ headroom
    reason := if 0 ≤ headroom then none else some
      (s!"{imageRecords.length} image(s) cost {imageTotal} prompt tokens, the prompt " ++
        s!"{promptTokens}, and the answer needs {answerBudget}; that is {need} against a " ++
        s!"max_model_len of {maxModelLen}, over by {-headroom}") }

/-- The closed capacity record for one request against one sealed row. -/
def requestFits (row : ServingRow) (images : List (ℤ × ℤ)) (promptTokens answerBudget : ℤ)
    (promptTokensBasis : PromptTokensBasis) (promptTokensFloor : Option ℤ)
    (promptTokensFloorBasis : Option PromptTokensBasis) : Except Raised CapacityRecord := do
  let geometry ← rowImageGeometry row
  let maxModelLen ← rowContextLength row
  let promptTokens ← nonnegative promptTokens "prompt_tokens"
  let answerBudget ← nonnegative answerBudget "answer_budget"
  require (promptTokensBasis ∈ PromptTokensBasis.admitting) (refuse
    (s!"prompt_tokens_basis {quote promptTokensBasis.text} is a lower bound on this prompt, and " ++
      "a request is never admitted on one: it says only that a request costs at least " ++
      s!"this much. Admission rests on " ++
      quote (sortedSet (PromptTokensBasis.admitting.map PromptTokensBasis.text)) ++
      "; a floor travels beside it on prompt_tokens_floor"))
  match promptTokensFloor, promptTokensFloorBasis with
  | none, some basis => .error (refuse
      (s!"a capacity record names a prompt-floor basis {quote basis.text} " ++
        "with no floor to attach it to"))
  | some floor, none =>
      discard (nonnegative floor "prompt_tokens_floor")
      .error (refuse ("prompt_tokens_floor_basis None is not one of " ++
        quote (sortedSet ((PromptTokensBasis.measuredFloor :: PromptTokensBasis.admitting).map
          PromptTokensBasis.text)) ++
        "; a recorded floor says how it was arrived at exactly as the admitted count does"))
  | some floor, some _ =>
      discard (nonnegative floor "prompt_tokens_floor")
  | none, none => pure ()
  let imageRecords ← images.mapM fun image => imageRecord image.1 image.2 geometry
  return capacityRecord row geometry maxModelLen imageRecords promptTokens answerBudget
    promptTokensBasis promptTokensFloor promptTokensFloorBasis

/-- The reason a record gives, as a message quotes it. -/
def reasonText (record : CapacityRecord) : String := record.reason.getD "None"

def perlectorPagePromptTemplateDigest : String :=
  "09a99d131b109b8729638c36a03df5ed2fe777a4b1185350f472c5cd9f2cc4b5"

def chatTurnTokens : ℤ := 52

def chatImageTokens : ℤ := 2

def perlectorPageMaxImages : ℕ := 2

def perlectorPagePromptOverheadTokens : ℤ :=
  chatTurnTokens + chatImageTokens * perlectorPageMaxImages

def pageAnswerEntrySkeleton : String :=
  "\x7b\"n\": 99, \"kind\": \"other\", \"label\": \"baptism of a child\", " ++
    "\"cites\": [\"A99\", \"B99\", \"C99\", \"D100-D199\", \"S99\"], \"text\": \"\", " ++
    "\"continues_from_previous_page\": false, \"continues_to_next_page\": false\x7d, "

def pageAnswerWrapper : String :=
  "\x7b\"page_type\": \"register-acts\", \"writing\": \"handwritten\", " ++
    "\"entries\": [], \"set_aside\": []\x7d"

def pageAnswerLineCite : String := "\"L999\", "

section Page

variable (composition : Composition)

def perlectorPagePromptBound (text : Str) (templateDigest : String) (parts : List (Str × Bool)) :
    Except Raised (ℤ × PromptTokensBasis) := do
  require (templateDigest = perlectorPagePromptTemplateDigest) (refuse
    (s!"the Perlector page prompt builder digests to {templateDigest}, but the " ++
      "tokens-per-character rate carried to its fixed wording was sealed against " ++
      s!"{perlectorPagePromptTemplateDigest}; the page template changed after the " ++
      "rate was carried to it, and a request is never admitted against the token cost " ++
      "of text nobody renders any more. Re-check the carried rate against the new " ++
      "builder and update common/request_capacity.py"))
  require ((parts.map Prod.fst).flatten = text) (refuse
    ("the page prompt's parts do not join to the rendered prompt, so their charge " ++
      "cannot stand for the text that is sent"))
  let charged ← pagePromptCharge composition parts
  return (perlectorPagePromptOverheadTokens + charged.1 + rateBoundTokens charged.2,
    .reportedBytesFixedCarried)

structure AnswerMeasure where
  longestWitnessCharacters : ℤ
  actEntries : ℤ
  suryaLines : ℤ

/-- The tokens reserved for one page's answer, and whether the cap was below the estimate. -/
def pageAnswerBound (measure : AnswerMeasure) (pageMaxTokens : ℤ) : Except Raised (ℤ × Bool) := do
  let longest ← nonnegative measure.longestWitnessCharacters "longest_witness_characters"
  let entries ← nonnegative measure.actEntries "act_entries"
  let lines ← nonnegative measure.suryaLines "surya_lines"
  let cap ← positive pageMaxTokens "page_max_tokens"
  if longest = 0 then return (cap, false)
  else
    let estimate := rateBoundTokens (longest + entries * pageAnswerEntrySkeleton.length +
      lines * pageAnswerLineCite.length + pageAnswerWrapper.length)
    return (min estimate cap, cap < estimate)

def pageAnswerMaxTokens (room pageMaxTokens : ℤ) : Except Raised ℤ := do
  return min (← positive pageMaxTokens "page_max_tokens") room

structure AnswerReserve where
  measure : AnswerMeasure
  tokens : ℤ
  reserveClamped : Bool
  pageMaxTokens : ℤ

structure Admitted (Reserve : Type) where
  capacity : CapacityRecord
  answerReserve : Reserve
  maxTokens : ℤ

/-- One whole-page request, admitted against its sealed row or refused whole. -/
def pageRequestCapacity (row : ServingRow) (imageSizes : List (ℤ × ℤ)) (promptText : Str)
    (promptParts : List (Str × Bool)) (templateDigest : String) (answerMeasure : AnswerMeasure)
    (pageMaxTokens : ℤ) : Except Raised (Admitted AnswerReserve) := do
  require (imageSizes.length ≤ perlectorPageMaxImages) (refuse
    (s!"a page request embeds {imageSizes.length} images, more than the " ++
      s!"{perlectorPageMaxImages} its chat-template overhead is charged for"))
  let (promptTokens, basis) ←
    perlectorPagePromptBound composition promptText templateDigest promptParts
  let cap ← positive pageMaxTokens "page_max_tokens"
  let (reserve, clamped) ← pageAnswerBound answerMeasure cap
  let record ← requestFits row imageSizes promptTokens reserve basis none none
  require (record.fits = true) (.refusal
    ("the Perlector page request does not fit the sealed serving row " ++
      s!"({rowName row}): {reasonText record}. Nothing was sent; the page is held " ++
      "whole, never trimmed, split or downscaled") (some record))
  let room := record.maxModelLen - record.imagePromptTokens - record.promptTokens
  return ⟨record, ⟨answerMeasure, reserve, clamped, cap⟩,
    ← pageAnswerMaxTokens room pageMaxTokens⟩

end Page

def textTurnOverheadTokens : ℤ := 52

def reconstructionAnswerWrapper : String := "\x7b\"acts\": [], \"joins\": []\x7d"

def reconstructionEntrySkeleton : String :=
  "\x7b\"act\": \"p9999:999\", \"findings\": [\x7b\"code\": \"cut-at-page-break\", " ++
    "\"reason\": \"\"\x7d], \"departures\": []\x7d, "

def reconstructionJoinSkeleton : String :=
  "\x7b\"acts\": [\"p9999:999\", \"p9999:999\"], \"continues\": false, \"departures\": []\x7d, "

def reconstructionDepartureSkeleton : String :=
  "\x7b\"diplomatic\": \"\", \"reconstruction\": \"\", \"reason\": \"\"\x7d, "

def allTextPromptBound (composition : Composition) (text : Str) :
    Except Raised (ℤ × PromptTokensBasis) := do
  return (textTurnOverheadTokens + (← reportedBytes composition text), .allTextPerByte)

/-- The bounds of the sealed reconstruction policy that size an answer. -/
structure AnswerPolicy where
  maxDeparturesPerAct : ℤ
  maxDepartureCharacters : ℤ
  maxReasonCharacters : ℤ

def reconstructionAnswerBound (acts joins : ℤ) (policy : AnswerPolicy) (answerMaxTokens : ℤ) :
    Except Raised (ℤ × Bool) := do
  let acts ← nonnegative acts "acts"
  let joins ← nonnegative joins "joins"
  let departures ← positive policy.maxDeparturesPerAct "max_departures_per_act"
  let side ← positive policy.maxDepartureCharacters "max_departure_characters"
  let reason ← positive policy.maxReasonCharacters "max_reason_characters"
  let cap ← positive answerMaxTokens "answer_max_tokens"
  let departure := reconstructionDepartureSkeleton.length + 4 * (2 * side + reason)
  let perItem := departures * departure + 4 * reason
  let estimate := reconstructionAnswerWrapper.length +
    acts * (reconstructionEntrySkeleton.length + perItem) +
    joins * (reconstructionJoinSkeleton.length + perItem)
  return (min estimate cap, cap < estimate)

structure ReconstructionReserve where
  acts : ℤ
  joins : ℤ
  tokens : ℤ
  reserveClamped : Bool
  answerMaxTokens : ℤ

/-- One Coniector request, admitted against its sealed row or refused whole. -/
def reconstructionRequestCapacity (composition : Composition) (row : ServingRow) (promptText : Str)
    (acts joins : ℤ) (policy : AnswerPolicy) (answerMaxTokens : ℤ) :
    Except Raised (Admitted ReconstructionReserve) := do
  let (promptTokens, basis) ← allTextPromptBound composition promptText
  let cap ← positive answerMaxTokens "answer_max_tokens"
  let (reserve, clamped) ← reconstructionAnswerBound acts joins policy cap
  let record ← requestFits row [] promptTokens reserve basis none none
  require (record.fits = true) (.refusal
    (s!"the Coniector request does not fit the sealed serving row ({rowName row}): " ++
      s!"{reasonText record}. Nothing was sent; the page's reconstructions are not made")
    (some record))
  let room := record.maxModelLen - record.promptTokens
  return ⟨record, ⟨acts, joins, reserve, clamped, cap⟩, min cap room⟩

end Verbatus.Capacity
