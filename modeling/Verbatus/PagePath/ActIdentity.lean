import Mathlib
import Verbatus.PagePath.EntryPlans

namespace Verbatus.PagePath

open Library Library.Checked Refusal Python PageReading PageAccounting Identities Ink

/-- One reading of a page: its answer, where it gave one that is read, over the feed it was shown. -/
structure PageReading where
  answer : Option Json
  feed : ShownFeed
  stopReason : Option String

/-- A page's re-ask: the ids it was asked about, and the accounting of both readings. -/
structure PageReask where
  reading : PageReading
  named : List String
  accounting : CombinedAccounting

/-- The readings of one page: the first, its re-ask and the operator re-reads after them. -/
structure PageChain where
  pageId : Str
  first : PageReading
  reask : Option PageReask
  rereads : List PageReading

/-- What one reading of a page minted. -/
structure Minted (Assessment Truncation : Type) where
  pageId : Str
  attempt : ℤ
  reading : PageReading
  named : Option (List String)
  plans : List (Plan Assessment Truncation)

section Chains

variable (isPrintable : CodePoint → Bool) (sha256 : ByteArray → Str) (limit : ℕ)
  (unicode : UnicodeTables) (policy : PageAccountingPolicy) {Assessment Truncation : Type}
  (rules : TextRules Assessment Truncation)

/-- The entry plans of a reading; one that is not read has none. -/
def readingPlans (pageId : Str) (reading : PageReading) (attempt : ℤ) (named : Option (List String))
    (firstCount : ℤ) (superseded : Option (List (Plan Assessment Truncation))) :
    Except Refusal (Minted Assessment Truncation) :=
  match reading.answer with
  | none => .ok ⟨pageId, attempt, reading, named, []⟩
  | some answer => do
    let plans ← entryPlans isPrintable sha256 limit unicode policy rules
      { answer := answer
        feed := reading.feed
        pageId := pageId
        stopReason := reading.stopReason
        attempt := attempt
        named := named
        firstCount := firstCount
        superseded := superseded }
    .ok ⟨pageId, attempt, reading, named, plans⟩

/-- The re-reads of a page in turn, each planned against the plans counted before it. -/
def mintRereads (pageId : Str) :
    List (Plan Assessment Truncation) → ℤ → List PageReading →
      Except Refusal (List (Minted Assessment Truncation))
  | _, _, [] => .ok []
  | counted, attempt, reading :: readings => do
    let minted ← readingPlans isPrintable sha256 limit unicode policy rules pageId reading attempt
      none 0 (some counted)
    let counted := if keepsCounted (minted.plans.map Plan.outline) then minted.plans else counted
    let rest ← mintRereads pageId counted (attempt + 1) readings
    .ok (minted :: rest)

/-- What every reading of a page minted. -/
def mintChain (chain : PageChain) : Except Refusal (List (Minted Assessment Truncation)) := do
  let first ← readingPlans isPrintable sha256 limit unicode policy rules chain.pageId chain.first
    firstReading none 0 none
  match chain.reask with
  | none => do
    let rest ← mintRereads isPrintable sha256 limit unicode policy rules chain.pageId first.plans
      operatorRereadFirst chain.rereads
    .ok (first :: rest)
  | some reask => do
    let second ← readingPlans isPrintable sha256 limit unicode policy rules chain.pageId
      reask.reading reaskReading (some reask.named) first.plans.length none
    let counted ← reaskActPlans reask.accounting first.plans second.plans "the page"
    let rest ← mintRereads isPrintable sha256 limit unicode policy rules chain.pageId counted
      operatorRereadFirst chain.rereads
    .ok (first :: second :: rest)

/-- What is hashed for the ids of one reading. -/
def Minted.hashed (minted : Minted Assessment Truncation) : Set Canonical.Value :=
  {value | value = payload .attempt (attemptBindings minted.pageId pageReadOperation minted.attempt) ∨
    ∃ attempt, pageReadingAttempt isPrintable sha256 limit minted.pageId minted.attempt =
      .ok attempt ∧ ∃ plan ∈ minted.plans, value = payload .act (actRecord minted.pageId
        plan.actClass (.reading (entryBinding attempt plan.act)))}

/-- What is hashed for the ids of every reading of the pages. -/
def hashedFor (pages : Set PageChain) : Set Canonical.Value :=
  {value | ∃ chain ∈ pages, ∃ readings,
    mintChain isPrintable sha256 limit unicode policy rules chain = .ok readings ∧
      ∃ minted ∈ readings, value ∈ minted.hashed isPrintable sha256 limit}

/-- The id of an entry: its own page, reading and place there, and nothing else, give it. -/
structure IdOf (minted : Minted Assessment Truncation) (index : ℕ)
    (plan : Plan Assessment Truncation) : Prop where
  number : plan.act.n = index + 1
  attempt : ∃ attempt, pageReadingAttempt isPrintable sha256 limit minted.pageId minted.attempt =
    .ok attempt ∧ derive isPrintable sha256 limit .act (actRecord minted.pageId plan.actClass
      (.reading (entryBinding attempt plan.act))) = .ok plan.actId
  entry : ∃ answer entries, minted.reading.answer = some answer ∧
    pageEntries unicode policy answer minted.reading.feed.toFeed minted.named = .ok entries ∧
      ∃ found, entries[index]? = some found ∧ found.act = plan.act ∧
        plan.actClass = entryClass found.act

variable {isPrintable sha256 limit unicode policy rules}

theorem actBindings_reading {page : Str} {act : ReadEntry} {attempt : Str} {bindings : Canonical.Value}
    (bound : actBindings page (entryClass act) (.reading (entryBinding attempt act)) = .ok bindings) :
    bindings = actRecord page (entryClass act) (.reading (entryBinding attempt act)) := by
  have listed : entryClass act ∈ readingActClasses := by
    unfold entryClass
    split_ifs
    · decide
    · decide
  rw [actBindings, if_pos listed] at bound
  obtain ⟨-, -, bound⟩ := bind_eq_ok.mp bound
  obtain ⟨-, -, bound⟩ := bind_eq_ok.mp bound
  cases bound
  rfl

/-- What one entry's plan is made of. -/
theorem entryPlan_eq_ok {request : PlanRequest Assessment Truncation} {attempt : Str}
    {entry : PageEntry} {plan : Plan Assessment Truncation}
    (planned : entryPlan isPrintable sha256 limit policy rules request attempt entry = .ok plan) :
    plan.act = entry.act ∧ plan.actClass = entryClass entry.act ∧
      derive isPrintable sha256 limit .act (actRecord request.pageId (entryClass entry.act)
        (.reading (entryBinding attempt entry.act))) = .ok plan.actId := by
  obtain ⟨truncation, -, planned⟩ := bind_eq_ok.mp planned
  obtain ⟨doubted, -, planned⟩ := bind_eq_ok.mp planned
  obtain ⟨identity, minted, planned⟩ := bind_eq_ok.mp planned
  cases planned
  obtain ⟨bindings, bound, derived⟩ := bind_eq_ok.mp minted
  rw [actBindings_reading bound] at derived
  exact ⟨rfl, rfl, derived⟩

/-- The entries of an answer are numbered by their places. -/
theorem pageEntries_number {answer : Json} {feed : Feed} {named : Option (List String)}
    {entries : List PageEntry} (given : pageEntries unicode policy answer feed named = .ok entries)
    {index : ℕ} {entry : PageEntry} (place : entries[index]? = some entry) :
    entry.act.n = index + 1 := by
  obtain ⟨read, answered, given⟩ := bind_eq_ok.mp given
  obtain ⟨count, -, given⟩ := bind_eq_ok.mp given
  obtain ⟨-, given⟩ := require_bind_eq_ok.mp given
  cases given
  have numbers : read.entries.map ReadEntry.n =
      (List.range read.entries.length).map fun index : ℕ => (index : ℤ) + 1 := by
    obtain ⟨candidates, -, answered⟩ := bind_eq_ok.mp answered
    cases named with
    | none => exact validateAnswer_numbers answered
    | some named => exact validateReaskAnswer_numbers answered
  rw [List.getElem?_map, Option.map_eq_some_iff] at place
  obtain ⟨act, found, rfl⟩ := place
  have own := congrArg (fun list => list[index]?) numbers
  obtain ⟨inside, -⟩ := List.getElem?_eq_some_iff.mp found
  simp only [List.getElem?_map, found, List.getElem?_range inside, Option.map_some,
    Option.some.injEq] at own
  exact own

/-- A re-read that lost an act keeps every plan as it is but for its holds. -/
theorem holdReplacing_place {superseded : Option (List (Plan Assessment Truncation))}
    {plans : List (Plan Assessment Truncation)} {index : ℕ} {plan : Plan Assessment Truncation}
    (place : (holdReplacing superseded plans)[index]? = some plan) :
    ∃ given, plans[index]? = some given ∧ plan.act = given.act ∧ plan.actId = given.actId ∧
      plan.actClass = given.actClass := by
  unfold holdReplacing at place
  split at place
  · exact ⟨plan, place, rfl, rfl, rfl⟩
  · split_ifs at place
    · exact ⟨plan, place, rfl, rfl, rfl⟩
    · rw [List.getElem?_map, Option.map_eq_some_iff] at place
      obtain ⟨given, found, rfl⟩ := place
      exact ⟨given, found, rfl, rfl, rfl⟩

/-- Every plan of a reading has the id its page, reading and place give it. -/
theorem readingPlans_idOf {pageId : Str} {reading : PageReading} {attempt : ℤ}
    {named : Option (List String)} {firstCount : ℤ}
    {superseded : Option (List (Plan Assessment Truncation))} {minted : Minted Assessment Truncation}
    (planned : readingPlans isPrintable sha256 limit unicode policy rules pageId reading attempt named
      firstCount superseded = .ok minted) {index : ℕ} {plan : Plan Assessment Truncation}
    (place : minted.plans[index]? = some plan) :
    IdOf isPrintable sha256 limit unicode policy minted index plan := by
  unfold readingPlans at planned
  cases answered : reading.answer with
  | none =>
      rw [answered] at planned
      cases planned
      simp at place
  | some answer =>
      rw [answered] at planned
      obtain ⟨plans, entered, planned⟩ := bind_eq_ok.mp planned
      cases planned
      obtain ⟨-, entered⟩ := require_bind_eq_ok.mp entered
      obtain ⟨-, entered⟩ := require_bind_eq_ok.mp entered
      obtain ⟨-, entered⟩ := require_bind_eq_ok.mp entered
      obtain ⟨attemptIdentity, attempted, entered⟩ := bind_eq_ok.mp entered
      obtain ⟨entries, listed, entered⟩ := bind_eq_ok.mp entered
      obtain ⟨made, each, entered⟩ := bind_eq_ok.mp entered
      cases entered
      obtain ⟨given, found, sameAct, sameId, sameClass⟩ := holdReplacing_place place
      have related := mapM_eq_ok.mp each
      obtain ⟨inside, atPlace⟩ := List.getElem?_eq_some_iff.mp found
      have within : index < entries.length := related.length_eq ▸ inside
      have own : entryPlan isPrintable sha256 limit policy rules _ attemptIdentity entries[index] =
          .ok made[index] := (List.forall₂_iff_get.mp related).2 index within inside
      rw [atPlace] at own
      obtain ⟨act, actClass, derived⟩ := entryPlan_eq_ok own
      have entryPlace : entries[index]? = some entries[index] := List.getElem?_eq_getElem within
      have number := pageEntries_number listed entryPlace
      refine ⟨?_, ⟨attemptIdentity, attempted, ?_⟩,
        answer, entries, answered, listed, entries[index], entryPlace, ?_, ?_⟩
      · rw [sameAct, act, number]
      · rw [sameAct, sameId, sameClass, act, actClass]
        exact derived
      · rw [sameAct, act]
      · rw [sameClass, actClass]

/-- What is so of every reading on its own is so of each reading a chain minted. -/
theorem mintRereads_forall {holds : Minted Assessment Truncation → Prop} {pageId : Str}
    (each : ∀ reading attempt named firstCount superseded minted,
      readingPlans isPrintable sha256 limit unicode policy rules pageId reading attempt named
        firstCount superseded = .ok minted → holds minted)
    {readings : List PageReading} {counted : List (Plan Assessment Truncation)} {attempt : ℤ}
    {minted : List (Minted Assessment Truncation)}
    (made : mintRereads isPrintable sha256 limit unicode policy rules pageId counted attempt readings =
      .ok minted) : ∀ one ∈ minted, holds one := by
  induction readings generalizing counted attempt minted with
  | nil =>
      cases made
      exact List.forall_mem_nil _
  | cons reading readings ih =>
      obtain ⟨first, planned, made⟩ := bind_eq_ok.mp made
      obtain ⟨rest, later, made⟩ := bind_eq_ok.mp made
      cases made
      exact List.forall_mem_cons.mpr ⟨each _ _ _ _ _ _ planned, ih later⟩

theorem mintChain_forall {holds : Minted Assessment Truncation → Prop} {chain : PageChain}
    (each : ∀ reading attempt named firstCount superseded minted,
      readingPlans isPrintable sha256 limit unicode policy rules chain.pageId reading attempt named
        firstCount superseded = .ok minted → holds minted)
    {minted : List (Minted Assessment Truncation)}
    (made : mintChain isPrintable sha256 limit unicode policy rules chain = .ok minted) :
    ∀ one ∈ minted, holds one := by
  obtain ⟨first, planned, made⟩ := bind_eq_ok.mp made
  have firstHolds := each _ _ _ _ _ _ planned
  cases asked : chain.reask with
  | none =>
      rw [asked] at made
      obtain ⟨rest, later, made⟩ := bind_eq_ok.mp made
      cases made
      exact List.forall_mem_cons.mpr ⟨firstHolds, mintRereads_forall each later⟩
  | some reask =>
      rw [asked] at made
      obtain ⟨second, reasked, made⟩ := bind_eq_ok.mp made
      obtain ⟨counted, -, made⟩ := bind_eq_ok.mp made
      obtain ⟨rest, later, made⟩ := bind_eq_ok.mp made
      cases made
      exact List.forall_mem_cons.mpr ⟨firstHolds, List.forall_mem_cons.mpr
        ⟨each _ _ _ _ _ _ reasked, mintRereads_forall each later⟩⟩

theorem readingPlans_attempt {pageId : Str} {reading : PageReading} {attempt : ℤ}
    {named : Option (List String)} {firstCount : ℤ}
    {superseded : Option (List (Plan Assessment Truncation))} {minted : Minted Assessment Truncation}
    (planned : readingPlans isPrintable sha256 limit unicode policy rules pageId reading attempt named
      firstCount superseded = .ok minted) : minted.attempt = attempt := by
  unfold readingPlans at planned
  cases answered : reading.answer with
  | none =>
      rw [answered] at planned
      cases planned
      rfl
  | some answer =>
      rw [answered] at planned
      obtain ⟨plans, -, planned⟩ := bind_eq_ok.mp planned
      cases planned
      rfl

theorem mintRereads_attempts {pageId : Str} {readings : List PageReading}
    {counted : List (Plan Assessment Truncation)} {attempt : ℤ}
    {minted : List (Minted Assessment Truncation)}
    (made : mintRereads isPrintable sha256 limit unicode policy rules pageId counted attempt readings =
      .ok minted) :
    (∀ one ∈ minted, attempt ≤ one.attempt) ∧ (minted.map Minted.attempt).Pairwise (· < ·) := by
  induction readings generalizing counted attempt minted with
  | nil =>
      cases made
      simp
  | cons reading readings ih =>
      obtain ⟨first, planned, made⟩ := bind_eq_ok.mp made
      obtain ⟨rest, later, made⟩ := bind_eq_ok.mp made
      cases made
      obtain ⟨above, ordered⟩ := ih later
      have own := readingPlans_attempt planned
      refine ⟨List.forall_mem_cons.mpr ⟨own.ge, fun one member => ?_⟩, ?_⟩
      · have := above one member
        omega
      · rw [List.map_cons, List.pairwise_cons, List.forall_mem_map]
        refine ⟨fun one member => ?_, ordered⟩
        have := above one member
        omega

/-- Each reading of a page is made under an attempt of its own. -/
theorem mintChain_attempts {chain : PageChain} {minted : List (Minted Assessment Truncation)}
    (made : mintChain isPrintable sha256 limit unicode policy rules chain = .ok minted) :
    (minted.map Minted.attempt).Pairwise (· < ·) := by
  obtain ⟨first, planned, made⟩ := bind_eq_ok.mp made
  have one : first.attempt = 1 := readingPlans_attempt planned
  cases asked : chain.reask with
  | none =>
      rw [asked] at made
      obtain ⟨rest, later, made⟩ := bind_eq_ok.mp made
      cases made
      obtain ⟨above, ordered⟩ := mintRereads_attempts later
      rw [List.map_cons, List.pairwise_cons, List.forall_mem_map]
      refine ⟨fun other member => ?_, ordered⟩
      have : 3 ≤ other.attempt := above other member
      omega
  | some reask =>
      rw [asked] at made
      obtain ⟨second, reasked, made⟩ := bind_eq_ok.mp made
      obtain ⟨counted, -, made⟩ := bind_eq_ok.mp made
      obtain ⟨rest, later, made⟩ := bind_eq_ok.mp made
      cases made
      have two : second.attempt = 2 := readingPlans_attempt reasked
      obtain ⟨above, ordered⟩ := mintRereads_attempts later
      have after (other) (member : other ∈ rest) : 3 ≤ other.attempt := above other member
      simp only [List.map_cons, List.pairwise_cons, List.forall_mem_cons, List.forall_mem_map]
      refine ⟨⟨by omega, fun other member => ?_⟩, fun other member => ?_, ordered⟩
      · have := after other member
        omega
      · have := after other member
        omega

/-- One attempt identity of a page reading is of one page and one attempt. -/
theorem pageReadingAttempt_injective (host : 640 ≤ limit) {hashed : Set Canonical.Value}
    (apart : Apart isPrintable sha256 limit hashed) {first second : Minted Assessment Truncation}
    (member : first.hashed isPrintable sha256 limit ⊆ hashed)
    (otherMember : second.hashed isPrintable sha256 limit ⊆ hashed) {identity : Str}
    (one : pageReadingAttempt isPrintable sha256 limit first.pageId first.attempt = .ok identity)
    (two : pageReadingAttempt isPrintable sha256 limit second.pageId second.attempt = .ok identity) :
    first.pageId = second.pageId ∧ first.attempt = second.attempt := by
  obtain ⟨-, one⟩ := require_bind_eq_ok.mp one
  obtain ⟨-, two⟩ := require_bind_eq_ok.mp two
  exact attemptId_injective host apart (member (.inl rfl)) (otherMember (.inl rfl)) one two

/-- Entries of one id are of one page, one reading and one place there. -/
theorem idOf_unique (host : 640 ≤ limit) {hashed : Set Canonical.Value}
    (apart : Apart isPrintable sha256 limit hashed) {first second : Minted Assessment Truncation}
    (member : first.hashed isPrintable sha256 limit ⊆ hashed)
    (otherMember : second.hashed isPrintable sha256 limit ⊆ hashed) {index place : ℕ}
    {plan other : Plan Assessment Truncation}
    (listed : first.plans[index]? = some plan) (otherListed : second.plans[place]? = some other)
    (idOf : IdOf isPrintable sha256 limit unicode policy first index plan)
    (otherIdOf : IdOf isPrintable sha256 limit unicode policy second place other)
    (same : plan.actId = other.actId) :
    first.pageId = second.pageId ∧ first.attempt = second.attempt ∧ index = place := by
  obtain ⟨attempt, attempted, derived⟩ := idOf.attempt
  obtain ⟨otherAttempt, otherAttempted, otherDerived⟩ := otherIdOf.attempt
  rw [← same] at otherDerived
  have planMember := List.mem_of_getElem? listed
  have otherPlanMember := List.mem_of_getElem? otherListed
  obtain ⟨-, readings, numbers⟩ := actId_injective host apart
    (member (.inr ⟨attempt, attempted, plan, planMember, rfl⟩))
    (otherMember (.inr ⟨otherAttempt, otherAttempted, other, otherPlanMember, rfl⟩))
    derived otherDerived
  simp only [entryBinding] at readings numbers
  rw [← readings] at otherAttempted
  obtain ⟨page, ordinal⟩ := pageReadingAttempt_injective host apart member otherMember attempted
    otherAttempted
  rw [idOf.number, otherIdOf.number] at numbers
  exact ⟨page, ordinal, by omega⟩

/-- One page, one reading and one place there give one id. -/
theorem idOf_congr {first second : Minted Assessment Truncation} {index : ℕ}
    {plan other : Plan Assessment Truncation}
    (idOf : IdOf isPrintable sha256 limit unicode policy first index plan)
    (otherIdOf : IdOf isPrintable sha256 limit unicode policy second index other)
    (page : first.pageId = second.pageId) (attempt : first.attempt = second.attempt)
    (reading : first.reading = second.reading) (named : first.named = second.named) :
    plan.actId = other.actId := by
  obtain ⟨identity, attempted, derived⟩ := idOf.attempt
  obtain ⟨otherIdentity, otherAttempted, otherDerived⟩ := otherIdOf.attempt
  obtain ⟨answer, entries, answered, given, entry, place, act, actClass⟩ := idOf.entry
  obtain ⟨otherAnswer, others, otherAnswered, otherGiven, otherEntry, otherPlace, otherAct,
    otherClass⟩ := otherIdOf.entry
  rw [page, attempt, otherAttempted] at attempted
  cases attempted
  rw [reading, otherAnswered] at answered
  cases answered
  rw [reading, named, otherGiven] at given
  cases given
  rw [otherPlace] at place
  cases place
  have acts : plan.act = other.act := act.symm.trans otherAct
  have classes : plan.actClass = other.actClass := actClass.trans otherClass.symm
  rw [page, acts, classes, otherDerived, Except.ok.injEq] at derived
  exact derived.symm

/-- The ids entry plans mint over every chain of readings of every page: two entries share one only
where they are one entry, and an entry's page, reading and place there are all it depends on; the
plans published of a re-asked page are the first reading's, then the re-ask's where it stood. -/
theorem actIds_unique (isPrintable : CodePoint → Bool) (sha256 : ByteArray → Str) (limit : ℕ)
    (host : 640 ≤ limit) (unicode : UnicodeTables) (policy : PageAccountingPolicy)
    {Assessment Truncation : Type} (rules : TextRules Assessment Truncation) (pages : Set PageChain)
    (apart : Apart isPrintable sha256 limit
      (hashedFor isPrintable sha256 limit unicode policy rules pages)) :
    (∀ chain ∈ pages, ∀ other ∈ pages, ∀ readings others : List (Minted Assessment Truncation),
      mintChain isPrintable sha256 limit unicode policy rules chain = .ok readings →
      mintChain isPrintable sha256 limit unicode policy rules other = .ok others →
      ∀ first ∈ readings, ∀ second ∈ others, ∀ (index place : ℕ)
        (plan another : Plan Assessment Truncation),
        first.plans[index]? = some plan → second.plans[place]? = some another →
          (plan.actId = another.actId →
            first.pageId = second.pageId ∧ first.attempt = second.attempt ∧ index = place) ∧
          (first.pageId = second.pageId → first.attempt = second.attempt → index = place →
            first.reading = second.reading → first.named = second.named →
              plan.actId = another.actId)) ∧
    (∀ chain ∈ pages, ∀ readings : List (Minted Assessment Truncation),
      mintChain isPrintable sha256 limit unicode policy rules chain = .ok readings →
        (readings.map Minted.attempt).Pairwise (· < ·)) ∧
    ∀ accounting (firstPlans reaskPlans published : List (Plan Assessment Truncation)) what,
      reaskActPlans accounting firstPlans reaskPlans what = .ok published →
        published = firstPlans ∨ published = firstPlans ++ reaskPlans := by
  refine ⟨?_, fun chain _ readings made => mintChain_attempts made, ?_⟩
  · intro chain member other otherMember readings others made otherMade first inside second
      otherInside index place plan another listed otherListed
    have idOf := mintChain_forall (fun _ _ _ _ _ _ planned => readingPlans_idOf planned) made first
      inside listed
    have otherIdOf := mintChain_forall (fun _ _ _ _ _ _ planned => readingPlans_idOf planned)
      otherMade second otherInside otherListed
    constructor
    · apply idOf_unique host apart _ _ listed otherListed idOf otherIdOf
      · exact fun value hashed => ⟨chain, member, readings, made, first, inside, hashed⟩
      · exact fun value hashed => ⟨other, otherMember, others, otherMade, second, otherInside, hashed⟩
    · rintro page attempt rfl reading named
      exact idOf_congr idOf otherIdOf page attempt reading named
  · intro accounting firstPlans reaskPlans published what counted
    obtain ⟨-, counted⟩ := require_bind_eq_ok.mp counted
    cases counted
    split_ifs
    · exact .inr rfl
    · exact .inl (List.append_nil _)

end Chains

section Ledger

/-- A policy of the least thresholds there are. -/
def leastPolicy : PageAccountingPolicy where
  insideMinAreaBp := 1
  maxUnreadCharacters := 1
  maxSetAsideCharacters := 1
  maxUnreadShareBp := 1
  minBlockCharacters := 1
  anchorCharacters := 1
  anchorNeighbours := 1
  anchorOffsetTolerance := 1
  bandSlack := 1
  directAlignmentMaxPairs := 1
  maxAlignmentPairs := 1
  maxCharacters := 1
  maxAlignmentSteps := 1
  pieceCharacters := 1
  pieceEdits := 1
  windowSlack := 1
  minPieces := 1
  minDistinctiveShareBp := 1
  maxShortUnitDistanceBp := 1
  maxSharedShareBp := 1
  maxUnitAreaPerCharacterBp := 1
  maxActDoubtShareBp := 1
  maxPageDoubtShareBp := 1
  sha256 := ""
  flagCodes := []
  shortUnitCharacters := 1
  positive := by decide
  shares := by decide
  directPairs := by decide
  flaggable := by decide
  distinctFlags := by decide

def asciiTables : UnicodeTables := ⟨id, id, fun _ => true, id⟩

/-- Text rules that find no doubt and no truncation. -/
def plainRules : TextRules Unit Unit where
  readDoubtMarks text := (text, ())
  malformed _ := false
  assessed _ := false
  doubtCount _ _ := (0, 1)
  classify _ _ _ _ _ := .ok ()
  holdsAsFailure _ := false

def paragraph (n : ℤ) : Json := .object [("n", .int n), ("kind", .str "paragraph"),
  ("cites", .list []), ("text", .str "a"), ("continues_from_previous_page", .bool false),
  ("continues_to_next_page", .bool false)]

def twoParagraphs : Json := .object [("page_type", .str "prose"), ("writing", .str "typed"),
  ("entries", .list [paragraph 1, paragraph 2]), ("set_aside", .list [])]

def ledgerPage : Str := str "pg_0123456789abcdef"

def ledgerFeed : ShownFeed where
  pageId := "pg_0123456789abcdef"
  pageOrdinal := 1
  pageSize := ⟨10, 10⟩
  witnessUnits := "flat"
  witnesses := []
  surya := none
  pageRender := none

def ledgerReading : PageReading := ⟨some twoParagraphs, ledgerFeed, some "stop"⟩

/-- A page read once, of two entries that cite nothing. -/
def ledgerChain : PageChain := ⟨ledgerPage, ledgerReading, none, []⟩

def ledgerAttempt : Str := str "att_0000000000000001"

def attemptHashed : Canonical.Value :=
  payload .attempt (attemptBindings ledgerPage pageReadOperation firstReading)

def entryHashed (n : ℤ) : Canonical.Value :=
  payload .act (actRecord ledgerPage unplacedClass (.reading ⟨ledgerAttempt, n, none⟩))

def bytesOf (value : Canonical.Value) : ByteArray :=
  ((Canonical.canonicalBytes (fun _ => true) 4300 value).toOption).getD .empty

/-- A digest that tells the three values of the page apart. -/
def ledgerDigest (data : ByteArray) : Str :=
  if data = bytesOf attemptHashed then str "0000000000000001"
  else if data = bytesOf (entryHashed 1) then str "0000000000000002"
  else str "0000000000000003"

theorem bytesOf_eq {value : Canonical.Value} {data : ByteArray}
    (written : Canonical.canonicalBytes (fun _ => true) 4300 value = .ok data) :
    bytesOf value = data := by
  rw [bytesOf, written]
  rfl

theorem ledgerDigest_short (data : ByteArray) :
    shortDigest ledgerDigest data = ledgerDigest data := by
  unfold shortDigest ledgerDigest
  split_ifs <;> decide

/-- The three values the page's ids are of have three digests. -/
theorem ledger_apart : Apart (fun _ => true) ledgerDigest 4300
    {attemptHashed, entryHashed 1, entryHashed 2} := by
  intro first member second otherMember data others written otherWritten same
  rw [ledgerDigest_short, ledgerDigest_short] at same
  rw [← bytesOf_eq written, ← bytesOf_eq otherWritten] at same ⊢
  have digests : (str "0000000000000001" ≠ str "0000000000000002") ∧
      (str "0000000000000001" ≠ str "0000000000000003") ∧
      (str "0000000000000002" ≠ str "0000000000000003") := by decide
  obtain ⟨oneTwo, oneThree, twoThree⟩ := digests
  rcases member with rfl | rfl | rfl <;> rcases otherMember with rfl | rfl | rfl <;>
    unfold ledgerDigest at same <;> split_ifs at same <;> simp_all

theorem ledger_attempt :
    pageReadingAttempt (fun _ => true) ledgerDigest 4300 ledgerPage firstReading = .ok ledgerAttempt := by
  have encodable : ledgerPage.Encodable := Str.encodable_ofChars _
  have small : |firstReading| < Canonical.maxIntegerMagnitude := by decide +kernel
  have harmless : Harmless (attemptBindings ledgerPage pageReadOperation firstReading) := by
    apply harmless_record
    simp [harmless_str encodable, harmless_str (Str.encodable_ofChars _), harmless_int small, str]
  obtain ⟨data, written⟩ := canonicalBytes_returns (fun _ => true) 4300 (by decide)
    (attemptPayload_wellFormed ..) harmless (by decide)
  refine require_bind_eq_ok.mpr ⟨by decide, derive_eq_ok.mpr ⟨data, written, ?_⟩⟩
  have bytes : data = bytesOf attemptHashed := (bytesOf_eq written).symm
  rw [ledgerDigest_short, bytes, ledgerDigest, if_pos rfl]
  decide

theorem ledger_actId {n : ℤ} (positive : 1 ≤ n) (small : |n| < Canonical.maxIntegerMagnitude) :
    ∃ identity, actId (fun _ => true) ledgerDigest 4300 ledgerPage unplacedClass
      (.reading ⟨ledgerAttempt, n, none⟩) = .ok identity := by
  have encodable : ledgerPage.Encodable := Str.encodable_ofChars _
  have attemptEncodable : ledgerAttempt.Encodable := Str.encodable_ofChars _
  have bound : Harmless (ReadingBinding.value ⟨ledgerAttempt, n, none⟩) := by
    apply harmless_record
    simp [harmless_str attemptEncodable, harmless_int small, harmless_none]
  have harmless : Harmless (actRecord ledgerPage unplacedClass
      (.reading ⟨ledgerAttempt, n, none⟩)) := by
    apply harmless_record
    simp [harmless_str encodable, harmless_str (Str.encodable_ofChars _), str, ActBounds.value, bound]
  obtain ⟨data, written⟩ := canonicalBytes_returns (fun _ => true) 4300 (by decide)
    (actPayload_wellFormed ..) harmless (by
      simp [payload, actRecord, record, ActBounds.value, ReadingBinding.value, Canonical.Value.depth,
        Canonical.Value.depth.fieldDepth, Canonical.maxCanonicalDepth])
  have bindings : actBindings ledgerPage unplacedClass (.reading ⟨ledgerAttempt, n, none⟩) =
      .ok (actRecord ledgerPage unplacedClass (.reading ⟨ledgerAttempt, n, none⟩)) := by
    have page : checkIdentity ledgerPage .page "act page" = .ok () :=
      require_eq_ok.mpr (by decide +kernel)
    have reading : checkReadingBinding (.reading ⟨ledgerAttempt, n, none⟩) unplacedClass = .ok () := by
      have attempt : checkIdentity ledgerAttempt .attempt "the page reading attempt" = .ok () :=
        require_eq_ok.mpr (by decide +kernel)
      rw [checkReadingBinding, attempt, ok_bind, require_bind_of positive]
      exact require_eq_ok.mpr (by decide)
    rw [actBindings, if_pos (by decide), page, ok_bind, reading, ok_bind]
  exact ⟨_, bind_eq_ok.mpr ⟨_, bindings, derive_eq_ok.mpr ⟨data, written, rfl⟩⟩⟩

theorem ledger_entries : ∃ first second,
    pageEntries asciiTables leastPolicy twoParagraphs ledgerFeed.toFeed none = .ok [first, second] ∧
      first.act.n = 1 ∧ first.act.unionBoxPx = none ∧
      second.act.n = 2 ∧ second.act.unionBoxPx = none := by
  obtain ⟨entries, given, checked⟩ := exists_ok_of_any
    (pageEntries asciiTables leastPolicy twoParagraphs ledgerFeed.toFeed none)
    (fun entries => decide (entries.map (fun entry => (entry.act.n, entry.act.unionBoxPx)) =
      [(1, none), (2, none)])) (by decide +kernel)
  rw [decide_eq_true_eq, List.map_eq_cons_iff] at checked
  obtain ⟨first, rest, rfl, one, checked⟩ := checked
  rw [List.map_eq_cons_iff] at checked
  obtain ⟨second, rest, rfl, two, checked⟩ := checked
  rw [List.map_eq_nil_iff] at checked
  subst checked
  rw [Prod.mk.injEq] at one two
  exact ⟨first, second, given, one.1, one.2, two.1, two.2⟩

theorem ledger_plan {n : ℤ} (positive : 1 ≤ n) (small : |n| < Canonical.maxIntegerMagnitude)
    (request : PlanRequest Unit Unit) (page : request.pageId = ledgerPage) {entry : PageEntry}
    (number : entry.act.n = n) (unboxed : entry.act.unionBoxPx = none) :
    ∃ plan, entryPlan (fun _ => true) ledgerDigest 4300 leastPolicy plainRules request ledgerAttempt
      entry = .ok plan ∧ plan.act = entry.act := by
  obtain ⟨identity, minted⟩ := ledger_actId positive small
  have actClass : entryClass entry.act = unplacedClass := by simp [entryClass, unboxed]
  have binding : entryBinding ledgerAttempt entry.act = ⟨ledgerAttempt, n, none⟩ := by
    rw [entryBinding, number, unboxed]
  refine ⟨_, bind_eq_ok.mpr ⟨none, ?_, bind_eq_ok.mpr ⟨false, ?_, bind_eq_ok.mpr
    ⟨identity, ?_, rfl⟩⟩⟩, rfl⟩
  · rw [truncationOf, unboxed]
  · rw [doubtful, if_neg (by simp [plainRules])]
  · rw [actClass, binding, page]
    exact minted

theorem ledger_minted : ∃ minted : Minted Unit Unit, ∃ first second,
    mintChain (fun _ => true) ledgerDigest 4300 asciiTables leastPolicy plainRules ledgerChain =
      .ok [minted] ∧ minted.pageId = ledgerPage ∧ minted.attempt = firstReading ∧
      minted.plans = [first, second] ∧
      (∀ plan ∈ minted.plans, plan.actClass = unplacedClass ∧
        (entryBinding ledgerAttempt plan.act = ⟨ledgerAttempt, 1, none⟩ ∨
          entryBinding ledgerAttempt plan.act = ⟨ledgerAttempt, 2, none⟩)) := by
  obtain ⟨one, two, given, oneNumber, oneBox, twoNumber, twoBox⟩ := ledger_entries
  let request : PlanRequest Unit Unit :=
    ⟨twoParagraphs, ledgerFeed, ledgerPage, some "stop", firstReading, none, 0, none⟩
  obtain ⟨first, firstPlan, firstAct⟩ := ledger_plan (by decide) (by decide +kernel) request rfl
    oneNumber oneBox
  obtain ⟨second, secondPlan, secondAct⟩ := ledger_plan (by decide) (by decide +kernel) request rfl
    twoNumber twoBox
  have plans : entryPlans (fun _ => true) ledgerDigest 4300 asciiTables leastPolicy plainRules
      request = .ok [first, second] := by
    refine require_bind_eq_ok.mpr ⟨by decide, require_bind_eq_ok.mpr ⟨by decide,
      require_bind_eq_ok.mpr ⟨by decide, bind_eq_ok.mpr ⟨_, ledger_attempt,
        bind_eq_ok.mpr ⟨_, given, bind_eq_ok.mpr ⟨_, mapM_eq_ok.mpr ?_, rfl⟩⟩⟩⟩⟩⟩
    exact .cons firstPlan (.cons secondPlan .nil)
  have reading : readingPlans (fun _ => true) ledgerDigest 4300 asciiTables leastPolicy plainRules
      ledgerPage ledgerReading firstReading none 0 none =
      .ok ⟨ledgerPage, firstReading, ledgerReading, none, [first, second]⟩ :=
    bind_eq_ok.mpr ⟨_, plans, rfl⟩
  refine ⟨_, first, second, bind_eq_ok.mpr ⟨_, reading, rfl⟩, rfl, rfl, rfl, ?_⟩
  have firstClass := (entryPlan_eq_ok firstPlan).2.1
  have secondClass := (entryPlan_eq_ok secondPlan).2.1
  simp only [List.forall_mem_cons, List.not_mem_nil, false_implies, implies_true, and_true]
  refine ⟨⟨?_, .inl ?_⟩, ?_, .inr ?_⟩
  · simp [firstClass, entryClass, oneBox]
  · rw [entryBinding, firstAct, oneNumber, oneBox]
  · simp [secondClass, entryClass, twoBox]
  · rw [entryBinding, secondAct, twoNumber, twoBox]

/-- Two entries that cite nothing have two identities. -/
theorem actIds_unique_twoEntries : ∃ minted : Minted Unit Unit, ∃ first second,
    mintChain (fun _ => true) ledgerDigest 4300 asciiTables leastPolicy plainRules ledgerChain =
      .ok [minted] ∧ minted.plans = [first, second] ∧ first.actId ≠ second.actId := by
  obtain ⟨minted, first, second, made, page, attempt, plans, bound⟩ := ledger_minted
  refine ⟨minted, first, second, made, plans, ?_⟩
  have apart : Apart (fun _ => true) ledgerDigest 4300 (hashedFor (fun _ => true) ledgerDigest 4300
      asciiTables leastPolicy plainRules {ledgerChain}) := by
    have within : hashedFor (fun _ => true) ledgerDigest 4300 asciiTables leastPolicy plainRules
        {ledgerChain} ⊆ {attemptHashed, entryHashed 1, entryHashed 2} := by
      rintro value ⟨chain, rfl, readings, read, one, member, hashed⟩
      rw [made] at read
      cases read
      rw [List.mem_singleton] at member
      subst member
      rcases hashed with rfl | ⟨identity, attempted, plan, listed, rfl⟩
      · rw [page, attempt]
        exact .inl rfl
      · rw [page, attempt, ledger_attempt] at attempted
        cases attempted
        obtain ⟨actClass, binding⟩ := bound plan listed
        rw [page, actClass]
        rcases binding with same | same <;> rw [same]
        · exact .inr (.inl rfl)
        · exact .inr (.inr rfl)
    exact fun one member two otherMember => ledger_apart one (within member) two (within otherMember)
  intro same
  have unique := (actIds_unique (fun _ => true) ledgerDigest 4300 (by decide) asciiTables leastPolicy
    plainRules {ledgerChain} apart).1 ledgerChain rfl ledgerChain rfl _ _ made made minted
    (.head _) minted (.head _) 0 1 first second (by rw [plans]; rfl) (by rw [plans]; rfl)
  exact absurd (unique.1 same).2.2 (by decide)

end Ledger

end Verbatus.PagePath
