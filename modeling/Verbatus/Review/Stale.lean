import Mathlib.Tactic
import Verbatus.Review.Holding
import Verbatus.Review.Unordered

namespace Verbatus.Review

open Library Library.Checked Refusal Contracts

variable {Digest : Type} [LinearOrder Digest]

/-- Summaries less some of the copies of one that is stale. -/
structure WithoutStale (whole fewer : List (Summary Digest)) (summary : Summary Digest) : Prop where
  apart : HashesApart whole
  within : ∀ one ∈ fewer, one ∈ whole
  kept : ∀ one ∈ whole, one ≠ summary → one ∈ fewer
  stale : summary.state = .stale

section Summaries

variable {whole fewer : List (Summary Digest)} {summary : Summary Digest}
  (without : WithoutStale whole fewer summary)

include without

omit [LinearOrder Digest] in
theorem WithoutStale.fewerApart : HashesApart fewer :=
  fun one member other also => without.apart one (without.within one member) other
    (without.within other also)

/-- A stale summary decides nothing. -/
theorem WithoutStale.kinds : kindsOf fewer = kindsOf whole := by
  apply kindsOf_congr without.fewerApart without.apart
  intro one current
  refine ⟨without.within one, fun member => without.kept one member ?_⟩
  rintro rfl
  rw [without.stale] at current
  cases current

omit [LinearOrder Digest] without in
theorem withConflict_of_stale {kinds : Kinds} {one : Summary Digest} (stale : one.state = .stale) :
    withConflict kinds one = one :=
  if_neg fun both => by
    rw [stale] at both
    cases both.1

omit without in
theorem nodup_withConflict (kinds : Kinds) (summaries : List (Summary Digest)) :
    ((byHash summaries).map (withConflict kinds)).Nodup := by
  apply List.Nodup.of_map Summary.decisionHash
  have same : Summary.decisionHash ∘ withConflict kinds = @Summary.decisionHash Digest := by
    funext one
    rw [Function.comp_apply, withConflict_eq]
  rw [List.map_map, same]
  exact byHash_nodup summaries

/-- What does not look at the stale summary finds the same summaries without it. -/
theorem WithoutStale.filter_eq {keep : Summary Digest → Bool} (passed : keep summary = false) :
    (summariesOf fewer).filter keep = (summariesOf whole).filter keep := by
  have alike (summaries : List (Summary Digest)) (apart : HashesApart summaries) :
      (summariesOf summaries).filter keep =
        sortSummaries (((byHash summaries).map (withConflict (kindsOf summaries))).filter keep) := by
    apply sortBy_filter
    intro one member other also equal
    have hashes := congrArg (fun key => (ofLex (ofLex (ofLex key).2).2).2) equal
    exact apart.byHash.withConflict _ one member other also hashes
  rw [alike fewer without.fewerApart, alike whole without.apart, without.kinds]
  apply sortSummaries_perm
  · rw [List.perm_ext_iff_of_nodup ((nodup_withConflict _ fewer).filter _)
      ((nodup_withConflict _ whole).filter _)]
    intro one
    simp only [List.mem_filter, List.mem_map, mem_byHash without.fewerApart,
      mem_byHash without.apart]
    refine and_congr_left fun looked => ?_
    constructor
    · rintro ⟨source, member, same⟩
      exact ⟨source, without.within source member, same⟩
    · rintro ⟨source, member, same⟩
      refine ⟨source, without.kept source member ?_, same⟩
      rintro rfl
      rw [← same, withConflict_of_stale without.stale, passed] at looked
      cases looked
  · intro one member other also
    exact without.fewerApart.byHash.withConflict _ one (List.mem_of_mem_filter member) other
      (List.mem_of_mem_filter also)

theorem WithoutStale.mem_iff {one : Summary Digest} (other : one ≠ summary) :
    one ∈ summariesOf fewer ↔ one ∈ summariesOf whole := by
  have passed : decide (summary = one) = false := decide_eq_false other.symm
  have same : (summariesOf fewer).filter (fun found => decide (found = one)) =
      (summariesOf whole).filter fun found => decide (found = one) := without.filter_eq passed
  have members := congrArg (one ∈ ·) same
  simpa using members

/-- A stale summary that carries no hold leaves what is carried. -/
theorem WithoutStale.carriedAlike (idle : carriedCode summary.scope summary.decision = none)
    (scope : ReviewScope) (subject : String) :
    carriedOnto scope subject (summariesOf fewer) (kindsOf fewer) =
      carriedOnto scope subject (summariesOf whole) (kindsOf whole) := by
  unfold carriedOnto
  rw [without.kinds]
  congr 1
  apply sortedSet_congr
  intro code
  simp only [List.mem_filterMap, List.mem_filter, decide_eq_true_eq]
  refine exists_congr fun one => and_congr_left fun carried => and_congr_left fun about => ?_
  apply without.mem_iff
  rintro rfl
  rw [← about.2.1, idle] at carried
  cases carried

/-- What a page's decisions do to it, apart from which they are. -/
def PageResult.effects {Digest : Type} (page : PageResult Digest) : PageResult Digest :=
  { page with decisions := [] }

theorem WithoutStale.pageEffects (idle : carriedCode summary.scope summary.decision = none)
    (pageId : String) (page : PageEntry Digest) :
    (pageResult pageId page (summariesOf fewer) (kindsOf fewer)).effects =
      (pageResult pageId page (summariesOf whole) (kindsOf whole)).effects := by
  have carried := without.carriedAlike idle .page pageId
  rw [without.kinds] at carried
  simp only [pageResult, PageResult.effects, without.kinds, carried]

end Summaries

section Units

variable {hashing : Hashing Digest} {basis : Basis Digest} {derived : DerivedReview Digest}
  {decisions : List (ApprovalRecord Digest)} {checked : List (Summary Digest)}

/-- Nothing is decided about a subject no summary is about, and nothing is carried onto it. -/
theorem untouched_kind {scope : ReviewScope} {subject : String}
    (untouched : ∀ summary ∈ summariesOf checked, summary.scope = scope →
      summary.subjectId ≠ subject) :
    kindsOf checked scope subject = none ∧
      carriedOnto scope subject (summariesOf checked) (kindsOf checked) = [] := by
  constructor
  · rw [kindsOf, currentKindBySubject, agreed_eq_none, decided, List.map_eq_nil_iff,
      List.filter_eq_nil_iff]
    intro source member about
    obtain ⟨-, ofScope, named⟩ := of_decide_eq_true about
    have listed : withConflict (kindsOf checked) source ∈ summariesOf checked := by
      rw [summariesOf, sortSummaries, List.mem_insertionSort]
      exact List.mem_map_of_mem member
    refine untouched _ listed ?_ ?_
    · rwa [withConflict_scope]
    · rwa [withConflict_subjectId]
  · have nothing : ((summariesOf checked).filter fun summary => summary.state = .stale ∧
        summary.scope = scope ∧ summary.subjectId = subject) = [] := by
      rw [List.filter_eq_nil_iff]
      intro summary member about
      obtain ⟨-, ofScope, named⟩ := of_decide_eq_true about
      exact untouched summary member ofScope named
    rw [carriedOnto, nothing, List.filterMap_nil, ite_eq_left_iff]
    exact fun _ => sortedSet_eq_nil.mpr rfl

/-- A page no summary is about keeps its machine's codes. -/
theorem untouched_page {pageId : String} (page : PageEntry Digest)
    (kind : kindsOf checked .page pageId = none)
    (carried : carriedOnto .page pageId (summariesOf checked) (kindsOf checked) = []) :
    let result := pageResult pageId page (summariesOf checked) (kindsOf checked)
    result.cleared = [] ∧ result.added = [] ∧ result.carried = [] := by
  intro result
  refine ⟨?_, ?_, carried⟩
  · simp [result, pageResult, kind]
  · simp [result, pageResult, kind]

/-- What a review leaves of a unit, and that it leaves the machine's list when that is in order. -/
structure LeftOf (checked : List (Summary Digest)) (unit : DerivedUnit Digest)
    (entry : UnitEntry Digest) (paged : PageResult Digest) (result : UnitResult Digest) : Prop where
  outcome : result.outcome = reviewedOutcome (unitHoldCodes entry paged
    (kindsOf checked .unit unit.actId) (carriedOnto .unit unit.actId (summariesOf checked)
      (kindsOf checked))) entry.unitClass (kindsOf checked .unit unit.actId)
  codes : sortedSet result.payload.holdCodes = unitHoldCodes entry paged
    (kindsOf checked .unit unit.actId) (carriedOnto .unit unit.actId (summariesOf checked)
      (kindsOf checked))
  ordered : unit.payload.holdCodes = sortedSet unit.payload.holdCodes →
    result.payload.holdCodes = sortedSet result.payload.holdCodes
  cleared : (result.payload.operatorReview.map fun block => block.cleared.unit).getD [] =
    if clearsUnit (kindsOf checked .unit unit.actId) then entry.unitCodes else []

theorem sortedSet_idem {κ : Type} [LinearOrder κ] (elements : List κ) :
    sortedSet (sortedSet elements) = sortedSet elements :=
  sortedSet_congr fun _ => mem_sortedSet

/-- A page decision's subject is the page it names. -/
theorem page_of_summary (apart : HashesApart checked)
    (checks : decisions.mapM (reviewDecision hashing basis) = .ok checked)
    {summary : Summary Digest} (member : summary ∈ summariesOf checked)
    (page : summary.scope = .page) : summary.pageId = summary.subjectId := by
  rw [summariesOf, sortSummaries, List.mem_insertionSort, List.mem_map] at member
  obtain ⟨source, listed, rfl⟩ := member
  rw [withConflict_scope] at page
  rw [withConflict_pageId, withConflict_subjectId]
  obtain ⟨record, -, review, subject, sound⟩ :=
    record_of_checked checks ((mem_byHash apart).mp listed)
  rw [sound.kept] at page ⊢
  have names := (sound.sound.pageSubject page).symm.trans sound.names
  exact List.head_eq_of_cons_eq names

omit [LinearOrder Digest] in
/-- A unit nothing is decided about, on a page nothing is decided about, has its machine's codes. -/
theorem unitHoldCodes_untouched {unit : DerivedUnit Digest} {entry : UnitEntry Digest}
    {paged : PageResult Digest} (of : EntryOf hashing unit entry) (cleared : paged.cleared = [])
    (added : paged.added = []) (carried : paged.carried = []) (raised : paged.raised = []) :
    unitHoldCodes entry paged none [] = sortedSet unit.payload.holdCodes := by
  apply sortedSet_congr
  intro code
  rw [classifyHolds_covers of.scopes code]
  simp [clearsUnit, pageHeld, cleared, added, carried, raised]

theorem reviewedOutcome_sortedSet (holdCodes : List String) (unitClass : String)
    (kind : Option Kind) :
    reviewedOutcome (sortedSet holdCodes) unitClass kind = reviewedOutcome holdCodes unitClass kind := by
  unfold reviewedOutcome derivedOutcome
  simp only [ne_eq, sortedSet_eq_nil]

theorem unitResult_left (apart : HashesApart checked)
    (checks : decisions.mapM (reviewDecision hashing basis) = .ok checked)
    {unit : DerivedUnit Digest} {entry : UnitEntry Digest} {page : PageEntry Digest}
    (described : Described hashing basis unit entry page) :
    LeftOf checked unit entry
      (pageResult entry.pageId page (summariesOf checked) (kindsOf checked))
      (unitResult unit.actId unit entry
        (pageResult entry.pageId page (summariesOf checked) (kindsOf checked))
        (summariesOf checked) (kindsOf checked)) := by
  have of := (unitBasis_entryOf described.row).2
  set paged := pageResult entry.pageId page (summariesOf checked) (kindsOf checked) with pagedOf
  by_cases untouched : sortSummaries ((summariesOf checked).filter (fun summary =>
      summary.scope = .unit ∧ summary.subjectId = unit.actId) ++ paged.decisions) = [] ∧
        paged.raised = []
  · -- No summary is about the unit or its page, so every hold it has is the machine's.
    have same : unitResult unit.actId unit entry paged (summariesOf checked) (kindsOf checked) =
        ⟨unit.outcome, unit.payload⟩ := if_pos untouched
    obtain ⟨silent, unraised⟩ := untouched
    obtain ⟨own, onPage⟩ := List.append_eq_nil_iff.mp (sortSummaries_eq_nil.mp silent)
    have noUnit : ∀ summary ∈ summariesOf checked, summary.scope = .unit →
        summary.subjectId ≠ unit.actId := fun summary member ofScope named =>
      List.filter_eq_nil_iff.mp own summary member (decide_eq_true ⟨ofScope, named⟩)
    have noPage : ∀ summary ∈ summariesOf checked, summary.scope = .page →
        summary.subjectId ≠ entry.pageId := fun summary member ofScope named =>
      List.filter_eq_nil_iff.mp onPage summary member (decide_eq_true
        ⟨(page_of_summary apart checks member ofScope).trans named, .inl ofScope⟩)
    obtain ⟨kind, carried⟩ := untouched_kind noUnit
    obtain ⟨pageKind, pageCarried⟩ := untouched_kind noPage
    obtain ⟨cleared, added, onto⟩ := untouched_page page pageKind pageCarried
    have codes : unitHoldCodes entry paged none [] = sortedSet unit.payload.holdCodes :=
      unitHoldCodes_untouched of cleared added onto unraised
    rw [same]
    refine ⟨?_, ?_, id, ?_⟩
    · rw [kind, carried, codes, reviewedOutcome_sortedSet, of.derived, of.unitClass]
      rfl
    · rw [kind, carried, codes]
    · rw [kind, of.unreviewed]
      rfl
  · have same : unitResult unit.actId unit entry paged (summariesOf checked) (kindsOf checked) =
        ⟨_, _⟩ := if_neg untouched
    rw [same]
    have own : carriedOnto .unit unit.actId ((summariesOf checked).filter fun summary =>
        summary.scope = .unit ∧ summary.subjectId = unit.actId) (kindsOf checked) =
      carriedOnto .unit unit.actId (summariesOf checked) (kindsOf checked) := carriedOnto_own
    refine ⟨?_, ?_, fun _ => ?_, rfl⟩
    · simp only [reviewedPayload, own]
    · simp only [reviewedPayload, own]
      exact sortedSet_idem _
    · exact (sortedSet_idem _).symm

/-- A unit's result is found by its id when the unit is in the basis. -/
theorem lookup_units_none (derived : DerivedReview Digest) (checked : List (Summary Digest))
    (distinct : (basis.units.map Prod.fst).Nodup) {actId : String}
    (absent : basis.units.lookup actId = none) :
    (appliedTo hashing derived basis checked).units.lookup actId = none := by
  have rows := lookup_filterMap distinct (fun actId entry =>
    (derived.units.find? fun unit => unit.actId = actId).bind fun unit =>
      ((pageResults basis (summariesOf checked) (kindsOf checked)).lookup entry.pageId).map
        fun page => unitResult actId unit entry page (summariesOf checked) (kindsOf checked)) actId
  rw [absent, Option.bind_none] at rows
  rw [← rows]
  simp only [appliedTo, unitResults, Option.bind_eq_bind, Option.map_eq_bind, Option.bind_assoc,
    Option.bind_some, Function.comp_def]

/-- Every unit of the basis is a unit of the review it was derived from. -/
theorem described_of_lookup (built : currentBasis hashing derived decisions = .ok basis)
    {actId : String} {entry : UnitEntry Digest} (found : basis.units.lookup actId = some entry) :
    ∃ unit ∈ derived.units, unit.actId = actId ∧ ∃ page, Described hashing basis unit entry page := by
  obtain ⟨unit, member, rfl⟩ : ∃ unit ∈ derived.units, unit.actId = actId := by
    have listed := List.mem_map_of_mem (f := Prod.fst) (mem_of_lookup found)
    rw [(currentBasis_ids built).1.mem_iff] at listed
    exact List.mem_map.mp listed
  obtain ⟨entry', page, described⟩ := currentBasis_described built member
  cases found.symm.trans described.found
  exact ⟨unit, member, rfl, page, described⟩

end Units

section Effects

variable {basis : Basis Digest} {units units' : List (String × UnitResult Digest)}
  {pages pages' : List (String × PageResult Digest)}

omit [LinearOrder Digest] in
/-- Clearances look at what units and pages had cleared, and at nothing else of their results. -/
theorem clearancesOf_congr (cleared : ∀ subject, clearedOf units' subject = clearedOf units subject)
    (paged : ∀ pageId, (pages'.lookup pageId).map PageResult.effects =
      (pages.lookup pageId).map PageResult.effects) (applied : List (Summary Digest)) :
    clearancesOf basis units' pages' applied = clearancesOf basis units pages applied := by
  unfold clearancesOf
  dsimp only
  congr 1
  funext subject
  rcases subject with ⟨scope, subject⟩
  cases scope with
  | unit => simp only [cleared]
  | page =>
      have row (page : PageResult Digest) : page.pageOrdinal = page.effects.pageOrdinal ∧
          page.cleared = page.effects.cleared := ⟨rfl, rfl⟩
      have same := paged subject
      cases found : pages.lookup subject with
      | none =>
          rw [found, Option.map_none, Option.map_eq_none_iff] at same
          rw [same]
      | some page =>
          rw [found, Option.map_some, Option.map_eq_some_iff] at same
          obtain ⟨page', found', alike⟩ := same
          have ordinal : page'.pageOrdinal = page.pageOrdinal := by
            rw [(row page').1, alike, ← (row page).1]
          have clearedAlike : page'.cleared = page.cleared := by
            rw [(row page').2, alike, ← (row page).2]
          simp only [found', Option.bind_eq_bind, Option.bind_some, ordinal, clearedAlike]

omit [LinearOrder Digest] in
theorem correctionsOf_congr
    (cleared : ∀ subject, clearedOf units' subject = clearedOf units subject)
    (outcomes : ∀ actId, (units'.lookup actId).map UnitResult.outcome =
      (units.lookup actId).map UnitResult.outcome) (applied : List (Summary Digest)) :
    correctionsOf basis units' applied = correctionsOf basis units applied := by
  unfold correctionsOf
  simp only [cleared, outcomes]

end Effects

/-- Two applications that do the same to every unit and page, whatever decisions they record. -/
structure SameEffects (derived : DerivedReview Digest) (before after : Applied Digest) : Prop where
  pages : ∀ pageId, (after.pages.lookup pageId).map PageResult.effects =
    (before.pages.lookup pageId).map PageResult.effects
  outcomes : ∀ actId, (after.units.lookup actId).map UnitResult.outcome =
    (before.units.lookup actId).map UnitResult.outcome
  codes : ∀ actId, (after.units.lookup actId).map (fun unit => sortedSet unit.payload.holdCodes) =
    (before.units.lookup actId).map fun unit => sortedSet unit.payload.holdCodes
  ordered : ∀ unit ∈ derived.units, unit.payload.holdCodes = sortedSet unit.payload.holdCodes →
    (after.units.lookup unit.actId).map (fun unit => unit.payload.holdCodes) =
      (before.units.lookup unit.actId).map fun unit => unit.payload.holdCodes
  applied : after.applied = before.applied
  conflicting : after.conflicting = before.conflicting
  carried : after.carried = before.carried
  clearances : after.clearances = before.clearances
  corrections : after.corrections = before.corrections
  requests : after.requests = before.requests

section Removed

variable {hashing : Hashing Digest} {basis : Basis Digest} {derived : DerivedReview Digest}
  {decisions fewer : List (ApprovalRecord Digest)} {checked checked' : List (Summary Digest)}
  {summary : Summary Digest}

/-- What is left of one unit with and without the stale summary. -/
theorem WithoutStale.unit (without : WithoutStale checked checked' summary)
    (idle : carriedCode summary.scope summary.decision = none)
    (checks : decisions.mapM (reviewDecision hashing basis) = .ok checked)
    (checks' : fewer.mapM (reviewDecision hashing basis) = .ok checked')
    {unit : DerivedUnit Digest} {entry : UnitEntry Digest} {page : PageEntry Digest}
    (described : Described hashing basis unit entry page) :
    ∃ paged result result', LeftOf checked unit entry paged result ∧
      LeftOf checked unit entry paged result' ∧
      result = unitResult unit.actId unit entry
        (pageResult entry.pageId page (summariesOf checked) (kindsOf checked))
        (summariesOf checked) (kindsOf checked) ∧
      result' = unitResult unit.actId unit entry
        (pageResult entry.pageId page (summariesOf checked') (kindsOf checked'))
        (summariesOf checked') (kindsOf checked') := by
  have whole := unitResult_left without.apart checks described
  have left := unitResult_left without.fewerApart checks' described
  have carried := without.carriedAlike idle .unit unit.actId
  have paged := without.pageEffects idle entry.pageId page
  have codes : ∀ result : PageResult Digest, unitHoldCodes entry result =
      unitHoldCodes entry result.effects := fun _ => rfl
  refine ⟨_, _, _, whole, ⟨?_, ?_, left.ordered, ?_⟩, rfl, rfl⟩
  · rw [left.outcome, codes, paged, ← codes, carried, without.kinds]
  · rw [left.codes, codes, paged, ← codes, carried, without.kinds]
  · rw [left.cleared, without.kinds]

theorem WithoutStale.pages (without : WithoutStale checked checked' summary)
    (idle : carriedCode summary.scope summary.decision = none) (pageId : String) :
    ((appliedTo hashing derived basis checked').pages.lookup pageId).map PageResult.effects =
      ((appliedTo hashing derived basis checked).pages.lookup pageId).map PageResult.effects := by
  have rows (summaries : List (Summary Digest)) :
      (appliedTo hashing derived basis summaries).pages.lookup pageId =
        (basis.pages.lookup pageId).map fun page =>
          pageResult pageId page (summariesOf summaries) (kindsOf summaries) :=
    lookup_map basis.pages (fun pageId page =>
      pageResult pageId page (summariesOf summaries) (kindsOf summaries)) pageId
  rw [rows, rows, Option.map_map, Option.map_map]
  congr 1
  funext page
  exact without.pageEffects idle pageId page

/-- Nothing a review leaves changes without a stale decision that carries no hold. -/
theorem WithoutStale.sameEffects (without : WithoutStale checked checked' summary)
    (idle : carriedCode summary.scope summary.decision = none)
    (built : currentBasis hashing derived decisions = .ok basis)
    (rebuilt : currentBasis hashing derived fewer = .ok basis)
    (checks : decisions.mapM (reviewDecision hashing basis) = .ok checked)
    (checks' : fewer.mapM (reviewDecision hashing basis) = .ok checked') :
    SameEffects derived (appliedTo hashing derived basis checked)
      (appliedTo hashing derived basis checked') := by
  have distinct := currentBasis_distinct built
  have rows : ∀ actId,
      ((appliedTo hashing derived basis checked).units.lookup actId = none ∧
        (appliedTo hashing derived basis checked').units.lookup actId = none) ∨
      ∃ unit ∈ derived.units, unit.actId = actId ∧ ∃ entry paged result result',
        LeftOf checked unit entry paged result ∧ LeftOf checked unit entry paged result' ∧
        (appliedTo hashing derived basis checked).units.lookup actId = some result ∧
        (appliedTo hashing derived basis checked').units.lookup actId = some result' := by
    intro actId
    cases found : basis.units.lookup actId with
    | none =>
        exact .inl ⟨lookup_units_none derived checked distinct found,
          lookup_units_none derived checked' distinct found⟩
    | some entry =>
        obtain ⟨unit, member, rfl, page, described⟩ := described_of_lookup built found
        obtain ⟨paged, result, result', whole, left, rfl, rfl⟩ :=
          without.unit idle checks checks' described
        exact .inr ⟨unit, member, rfl, entry, paged, _, _, whole, left,
          lookup_appliedTo_units built checked member described,
          lookup_appliedTo_units rebuilt checked' member described⟩
  have outcomes : ∀ actId,
      ((appliedTo hashing derived basis checked').units.lookup actId).map UnitResult.outcome =
        ((appliedTo hashing derived basis checked).units.lookup actId).map UnitResult.outcome := by
    intro actId
    rcases rows actId with ⟨absent, absent'⟩ |
      ⟨unit, -, -, entry, paged, result, result', whole, left, found, found'⟩
    · rw [absent, absent']
    · rw [found, found', Option.map_some, Option.map_some, whole.outcome, left.outcome]
  have cleared : ∀ actId, clearedOf (appliedTo hashing derived basis checked').units actId =
      clearedOf (appliedTo hashing derived basis checked).units actId := by
    intro actId
    rcases rows actId with ⟨absent, absent'⟩ |
      ⟨unit, -, -, entry, paged, result, result', whole, left, found, found'⟩
    · rw [clearedOf, clearedOf, absent, absent']
    · rw [clearedOf, clearedOf, found, found', Option.bind_some, Option.bind_some, whole.cleared,
        left.cleared]
  have pages : ∀ pageId,
      ((appliedTo hashing derived basis checked').pages.lookup pageId).map PageResult.effects =
        ((appliedTo hashing derived basis checked).pages.lookup pageId).map PageResult.effects :=
    without.pages idle
  have applied : (summariesOf checked').filter (fun one => one.state = .current) =
      (summariesOf checked).filter fun one => one.state = .current :=
    without.filter_eq (by simp [without.stale])
  refine ⟨pages, outcomes, ?_, ?_, applied, ?_, ?_, ?_, ?_, ?_⟩
  · intro actId
    rcases rows actId with ⟨absent, absent'⟩ |
      ⟨unit, -, -, entry, paged, result, result', whole, left, found, found'⟩
    · rw [absent, absent']
    · rw [found, found', Option.map_some, Option.map_some, whole.codes, left.codes]
  · intro unit member inOrder
    rcases rows unit.actId with ⟨absent, absent'⟩ |
      ⟨other, listed, same, entry, paged, result, result', whole, left, found, found'⟩
    · rw [absent, absent']
    · obtain rfl := List.inj_on_of_nodup_map (currentBasis_ids built).2 listed member same
      rw [found, found', Option.map_some, Option.map_some, whole.ordered inOrder,
        left.ordered inOrder, whole.codes, left.codes]
  · exact without.filter_eq (by simp [without.stale])
  · have kinds := without.kinds
    simp only [appliedTo, List.filter_filter, kinds]
    exact without.filter_eq (by simp [carries, idle])
  · refine (clearancesOf_congr cleared pages _).trans ?_
    rw [show (appliedTo hashing derived basis checked).clearances = clearancesOf basis
      (appliedTo hashing derived basis checked).units (appliedTo hashing derived basis checked).pages
      ((summariesOf checked).filter fun one => one.state = .current) from rfl, ← applied]
  · refine (correctionsOf_congr cleared outcomes _).trans ?_
    rw [show (appliedTo hashing derived basis checked).corrections = correctionsOf basis
      (appliedTo hashing derived basis checked).units
      ((summariesOf checked).filter fun one => one.state = .current) from rfl, ← applied]
  · exact congrArg (requestsOf basis) applied

end Removed

section Records

variable {hashing : Hashing Digest} {basis : Basis Digest} {derived : DerivedReview Digest}
  {decisions fewer : List (ApprovalRecord Digest)} {record : ApprovalRecord Digest}
  {summary : Summary Digest} {before : Applied Digest}

/-- A unit decision looks at no page. -/
theorem reviewDecision_unit {other : Basis Digest} (run : basis.runId = other.runId)
    (units : basis.units = other.units) (unit : record.review.map ReviewBlock.scope = some .unit) :
    reviewDecision hashing basis record = reviewDecision hashing other record := by
  obtain ⟨review, present, scope⟩ := Option.map_eq_some_iff.mp unit
  unfold reviewDecision
  rw [present, run, units]
  cases record.subjectIds with
  | nil => rfl
  | cons subject subjects => simp only [scope]

theorem unitSummary_eq_some (checked : unitSummary hashing basis record = .ok (some summary)) :
    record.review.map ReviewBlock.scope = some .unit ∧
      reviewDecision hashing basis record = .ok summary := by
  obtain ⟨⟨⟩, -, checked⟩ := bind_eq_ok.mp checked
  split_ifs at checked with about
  · obtain ⟨found, made, same⟩ := map_eq_ok.mp checked
    rw [Option.some.injEq] at same
    exact ⟨about.2, same ▸ made⟩
  · cases checked

/-- Decisions less some of the copies of one that is stale against the review's own basis. -/
structure LessStale (hashing : Hashing Digest) (basis : Basis Digest)
    (decisions fewer : List (ApprovalRecord Digest)) (record : ApprovalRecord Digest)
    (summary : Summary Digest) : Prop where
  within : ∀ other ∈ fewer, other ∈ decisions
  kept : ∀ other ∈ decisions, other ≠ record → other ∈ fewer
  checked : reviewDecision hashing basis record = .ok summary
  stale : summary.state = .stale

variable (less : LessStale hashing basis decisions fewer record summary)

include less

/-- A stale decision excludes nothing, so the basis is the same without it. -/
theorem LessStale.rebuilt (built : currentBasis hashing derived decisions = .ok basis) :
    currentBasis hashing derived fewer = .ok basis := by
  obtain ⟨named, entries, rows, entered⟩ := currentBasis_eq_ok.mp built
  obtain ⟨distinct, checked, excluded, made, rfl⟩ := basisOver_eq_ok.mp entered
  refine currentBasis_eq_ok.mpr ⟨named, entries, rows, basisOver_eq_ok.mpr
    ⟨distinct, checked, excluded, ?_, rfl⟩⟩
  obtain ⟨found, each, made⟩ := bind_eq_ok.mp made
  obtain ⟨found', each'⟩ := exists_mapM_of_subset each less.within
  refine bind_eq_ok.mpr ⟨found', each', ?_⟩
  rw [pure_eq_ok] at made ⊢
  rw [← made]
  have kinds : currentKindBySubject (found'.filterMap id) =
      currentKindBySubject (found.filterMap id) := by
    apply currentKindBySubject_congr
    intro one current
    simp only [List.mem_filterMap, id, exists_eq_right, mem_of_mapM each, mem_of_mapM each']
    constructor
    · rintro ⟨other, member, said⟩
      exact ⟨other, less.within other member, said⟩
    · rintro ⟨other, member, said⟩
      refine ⟨other, less.kept other member ?_, said⟩
      rintro rfl
      obtain ⟨unit, decided⟩ := unitSummary_eq_some said
      have same : (Except.ok summary : Except Refusal (Summary Digest)) = .ok one := by
        refine less.checked.symm.trans ((reviewDecision_unit ?_ ?_ unit).trans decided)
        · rfl
        · rfl
      rw [← Except.ok.inj same, less.stale] at current
      cases current
  rw [kinds]

/-- A stale decision that carries no hold changes nothing but which decisions are recorded. -/
theorem LessStale.sameEffects (apart : SelfHashesApart hashing decisions)
    (idle : carriedCode summary.scope summary.decision = none)
    (built : currentBasis hashing derived decisions = .ok basis)
    (accepted : applyDecisions hashing derived decisions = .ok before) :
    ∃ after, applyDecisions hashing derived fewer = .ok after ∧ SameEffects derived before after := by
  obtain ⟨basis', checked, built', checks, rfl⟩ := applyDecisions_eq_ok.mp accepted
  rw [built, Except.ok.injEq] at built'
  subst built'
  obtain ⟨checked', checks'⟩ := exists_mapM_of_subset checks less.within
  have rebuilt := less.rebuilt built
  have without : WithoutStale checked checked' summary := {
    apart := apart.summaries checks
    within := fun one member => by
      rw [mem_of_mapM checks'] at member
      obtain ⟨other, listed, made⟩ := member
      exact (mem_of_mapM checks one).mpr ⟨other, less.within other listed, made⟩
    kept := fun one member different => by
      rw [mem_of_mapM checks] at member
      obtain ⟨other, listed, made⟩ := member
      refine (mem_of_mapM checks' one).mpr ⟨other, less.kept other listed ?_, made⟩
      rintro rfl
      rw [less.checked, Except.ok.injEq] at made
      exact different made.symm
    stale := less.stale }
  exact ⟨_, applyDecisions_eq_ok.mpr ⟨basis, checked', rebuilt, checks', rfl⟩,
    without.sameEffects idle built rebuilt checks checks'⟩

end Records

section Held

variable {hashing : Hashing Digest} {basis : Basis Digest} {derived : DerivedReview Digest}
  {decisions : List (ApprovalRecord Digest)} {record : ApprovalRecord Digest}
  {summary : Summary Digest} {result : Applied Digest}

/-- A subject of the review is held by a code. -/
def HeldBy (result : Applied Digest) (scope : ReviewScope) (subject code : String) : Prop :=
  match scope with
  | .unit => ∃ reviewed, result.units.lookup subject = some reviewed ∧
      reviewed.outcome = .heldForReview ∧ code ∈ reviewed.payload.holdCodes
  | .page => ∃ paged, result.pages.lookup subject = some paged ∧ code ∈ paged.holdCodes

/-- A stale decision whose subject is in the review and has no current decision about it. -/
structure LastWord (hashing : Hashing Digest) (basis : Basis Digest)
    (decisions : List (ApprovalRecord Digest)) (summary : Summary Digest) : Prop where
  listed : ∃ record ∈ decisions, reviewDecision hashing basis record = .ok summary
  stale : summary.state = .stale
  present : (subjectDigest basis summary.scope summary.subjectId).isSome
  undecided : ∀ record ∈ decisions, ∀ other, reviewDecision hashing basis record = .ok other →
    other.state = .current → other.scope = summary.scope → other.subjectId ≠ summary.subjectId

variable {checked : List (Summary Digest)} (last : LastWord hashing basis decisions summary)

include last

theorem LastWord.kind (apart : HashesApart checked)
    (checks : decisions.mapM (reviewDecision hashing basis) = .ok checked) :
    kindsOf checked summary.scope summary.subjectId = none := by
  rw [kindsOf, currentKindBySubject, agreed_eq_none, decided, List.map_eq_nil_iff,
    List.filter_eq_nil_iff]
  intro other member about
  obtain ⟨current, ofScope, named⟩ := of_decide_eq_true about
  obtain ⟨record, listed, made⟩ := (mem_of_mapM checks other).mp ((mem_byHash apart).mp member)
  exact last.undecided record listed other made current ofScope named

/-- What a stale decision carries is among what is carried onto its subject. -/
theorem LastWord.carried (apart : HashesApart checked)
    (checks : decisions.mapM (reviewDecision hashing basis) = .ok checked) {code : String}
    (carries : carriedCode summary.scope summary.decision = some code) :
    code ∈ carriedOnto summary.scope summary.subjectId (summariesOf checked) (kindsOf checked) := by
  obtain ⟨record, listed, made⟩ := last.listed
  have member : summary ∈ checked := (mem_of_mapM checks summary).mpr ⟨record, listed, made⟩
  have kept : summary ∈ summariesOf checked := by
    rw [summariesOf, sortSummaries, List.mem_insertionSort]
    exact List.mem_map.mpr ⟨summary, (mem_byHash apart).mpr member, withConflict_of_stale last.stale⟩
  rw [carriedOnto, last.kind apart checks, if_neg (by simp), mem_sortedSet, List.mem_filterMap]
  exact ⟨summary, List.mem_filter.mpr ⟨kept, decide_eq_true ⟨last.stale, rfl, rfl⟩⟩, carries⟩

/-- A stale decision that carries a hold holds its subject while nothing current is about it. -/
theorem LastWord.heldBy (apart : SelfHashesApart hashing decisions)
    (built : currentBasis hashing derived decisions = .ok basis)
    (accepted : applyDecisions hashing derived decisions = .ok result) {code : String}
    (carries : carriedCode summary.scope summary.decision = some code) :
    HeldBy result summary.scope summary.subjectId code := by
  obtain ⟨basis', checked, built', checks, rfl⟩ := applyDecisions_eq_ok.mp accepted
  rw [built, Except.ok.injEq] at built'
  subst built'
  have hashes := apart.summaries checks
  have kind := last.kind hashes checks
  have carried := last.carried hashes checks carries
  have present := last.present
  cases scope : summary.scope with
  | unit =>
      rw [scope] at kind carried present
      rw [subjectDigest, Option.isSome_map, Option.isSome_iff_exists] at present
      obtain ⟨entry, found⟩ := present
      obtain ⟨unit, member, same, page, described⟩ := described_of_lookup built found
      have left := unitResult_left hashes checks described
      rw [← same] at kind carried ⊢
      have inside : code ∈ unitHoldCodes entry
          (pageResult entry.pageId page (summariesOf checked) (kindsOf checked))
          (kindsOf checked .unit unit.actId)
          (carriedOnto .unit unit.actId (summariesOf checked) (kindsOf checked)) := by
        rw [unitHoldCodes, mem_sortedSet, List.mem_append, List.mem_append]
        exact .inl (.inr carried)
      refine ⟨_, lookup_appliedTo_units built checked member described, ?_, ?_⟩
      · rw [left.outcome, reviewedOutcome_eq_held]
        exact ⟨by rw [kind]; simp, List.ne_nil_of_mem inside⟩
      · rw [← left.codes, mem_sortedSet] at inside
        exact inside
  | page =>
      rw [scope] at carried present
      rw [subjectDigest, Option.isSome_map, Option.isSome_iff_exists] at present
      obtain ⟨page, found⟩ := present
      have rows := lookup_map basis.pages (fun pageId page =>
        pageResult pageId page (summariesOf checked) (kindsOf checked)) summary.subjectId
      rw [found] at rows
      refine ⟨_, rows, ?_⟩
      show code ∈ sortedSet _
      rw [mem_sortedSet, List.mem_append]
      exact .inr carried

end Held

/-- A stale clearing decision changes no result, and a stale holding one holds its subject until a
current decision is about it. -/
theorem applyDecisions_stale {hashing : Hashing Digest} {derived : DerivedReview Digest}
    {decisions : List (ApprovalRecord Digest)} {basis : Basis Digest} {before : Applied Digest}
    (apart : SelfHashesApart hashing decisions)
    (built : currentBasis hashing derived decisions = .ok basis)
    (accepted : applyDecisions hashing derived decisions = .ok before) :
    (∀ record fewer summary, LessStale hashing basis decisions fewer record summary →
      clearing summary.scope summary.decision = true →
      ∃ after, applyDecisions hashing derived fewer = .ok after ∧ SameEffects derived before after) ∧
    ∀ summary, LastWord hashing basis decisions summary →
      ∀ code, carriedCode summary.scope summary.decision = some code →
      HeldBy before summary.scope summary.subjectId code := by
  refine ⟨fun record fewer summary less clears => ?_, fun summary last code carries => ?_⟩
  · have idle : carriedCode summary.scope summary.decision = none := by
      cases scope : summary.scope <;> cases decision : summary.decision <;>
        simp_all [clearing, carriedCode]
    exact less.sameEffects apart idle built accepted
  · exact last.heldBy apart built accepted carries

section Sample

/-- A release of the first act and a hold of the second, both bound to an older basis. -/
def staleRelease : ApprovalRecord String := sampleDecision .unit "act-1" .release "older"

def staleHold : ApprovalRecord String := sampleDecision .unit "act-2" .hold "older"

/-- What a checked decision says of its state and its subject. -/
def checkedAs (basis : Basis String) (record : ApprovalRecord String) :
    Option (SummaryState × ReviewScope × String × ReviewDecision) :=
  (reviewDecision writtenOut basis record).toOption.map fun summary =>
    (summary.state, summary.scope, summary.subjectId, summary.decision)

theorem checkedAs_eq_some {basis : Basis String} {record : ApprovalRecord String}
    {state : SummaryState} {scope : ReviewScope} {subject : String} {decision : ReviewDecision}
    (checked : checkedAs basis record = some (state, scope, subject, decision)) :
    ∃ summary, reviewDecision writtenOut basis record = .ok summary ∧ summary.state = state ∧
      summary.scope = scope ∧ summary.subjectId = subject ∧ summary.decision = decision := by
  unfold checkedAs at checked
  cases made : reviewDecision writtenOut basis record with
  | error refusal =>
      rw [made] at checked
      cases checked
  | ok summary =>
      rw [made] at checked
      cases checked
      exact ⟨summary, rfl, rfl, rfl, rfl, rfl⟩

/-- The stale release changes nothing, and the stale hold holds its act. -/
theorem applyDecisions_stale_sample :
    ∃ before after, applyDecisions writtenOut heldReview [staleRelease, staleHold] = .ok before ∧
      applyDecisions writtenOut heldReview [staleHold] = .ok after ∧
      SameEffects heldReview before after ∧ HeldBy before .unit "act-2" "review-hold-carried" := by
  have apart : SelfHashesApart writtenOut [staleRelease, staleHold] := by
    intro one member other also same
    simp only [List.mem_cons, List.not_mem_nil, or_false] at member also
    rcases member with rfl | rfl <;> rcases also with rfl | rfl
    · rfl
    · exact absurd same (by decide +kernel)
    · exact absurd same (by decide +kernel)
    · rfl
  obtain ⟨before, accepted, -⟩ := exists_ok_of_any
    (applyDecisions writtenOut heldReview [staleRelease, staleHold]) (fun _ => true)
    (by decide +kernel)
  obtain ⟨basis, built, facts⟩ := exists_ok_of_any
    (currentBasis writtenOut heldReview [staleRelease, staleHold]) (fun basis =>
      checkedAs basis staleRelease = some (.stale, .unit, "act-1", .release) ∧
      checkedAs basis staleHold = some (.stale, .unit, "act-2", .hold) ∧
      (subjectDigest basis .unit "act-2").isSome) (by decide +kernel)
  obtain ⟨releaseFacts, holdFacts, present⟩ := of_decide_eq_true facts
  obtain ⟨release, releaseMade, releaseStale, releaseScope, -, releases⟩ :=
    checkedAs_eq_some releaseFacts
  obtain ⟨hold, holdMade, holdStale, holdScope, holdSubject, holds⟩ := checkedAs_eq_some holdFacts
  obtain ⟨unchanged, held⟩ := applyDecisions_stale apart built accepted
  have less : LessStale writtenOut basis [staleRelease, staleHold] [staleHold] staleRelease release :=
    { within := fun other member => .tail _ member
      kept := fun other member different => (List.mem_cons.mp member).resolve_left different
      checked := releaseMade
      stale := releaseStale }
  have last : LastWord writtenOut basis [staleRelease, staleHold] hold :=
    { listed := ⟨staleHold, .tail _ (.head _), holdMade⟩
      stale := holdStale
      present := by rwa [holdScope, holdSubject]
      undecided := fun record member other made current => by
        simp only [List.mem_cons, List.not_mem_nil, or_false] at member
        rcases member with rfl | rfl
        · rw [releaseMade, Except.ok.injEq] at made
          rw [← made, releaseStale] at current
          cases current
        · rw [holdMade, Except.ok.injEq] at made
          rw [← made, holdStale] at current
          cases current }
  obtain ⟨after, reapplied, same⟩ := unchanged staleRelease [staleHold] release less (by
    rw [releaseScope, releases]
    rfl)
  have carried := held hold last "review-hold-carried" (by
    rw [holdScope, holds]
    rfl)
  rw [holdScope, holdSubject] at carried
  exact ⟨before, after, accepted, reapplied, same, carried⟩

/-- An act whose machine review lists its two holds out of order. -/
def unorderedReview : DerivedReview String :=
  ⟨"run-1", [sampleUnit "act-1" "act" ["unread-line", "text-doubt"] ["unread-line", "text-doubt"] []]⟩

/-- A stale release of that act lists its holds in order, and without the release they are not. -/
theorem applyDecisions_stale_reordered :
    ∃ basis before after, currentBasis writtenOut unorderedReview [staleRelease] = .ok basis ∧
      checkedAs basis staleRelease = some (.stale, .unit, "act-1", .release) ∧
      applyDecisions writtenOut unorderedReview [staleRelease] = .ok before ∧
      applyDecisions writtenOut unorderedReview [] = .ok after ∧
      (before.units.lookup "act-1").map (fun unit => unit.payload.holdCodes) =
        some ["text-doubt", "unread-line"] ∧
      (after.units.lookup "act-1").map (fun unit => unit.payload.holdCodes) =
        some ["unread-line", "text-doubt"] := by
  obtain ⟨basis, built, checked⟩ := exists_ok_of_any
    (currentBasis writtenOut unorderedReview [staleRelease]) (fun basis =>
      checkedAs basis staleRelease = some (.stale, .unit, "act-1", .release)) (by decide +kernel)
  obtain ⟨before, accepted, codes⟩ := exists_ok_of_any
    (applyDecisions writtenOut unorderedReview [staleRelease]) (fun before =>
      (before.units.lookup "act-1").map (fun unit => unit.payload.holdCodes) =
        some ["text-doubt", "unread-line"]) (by decide +kernel)
  obtain ⟨after, reapplied, codes'⟩ := exists_ok_of_any
    (applyDecisions writtenOut unorderedReview []) (fun after =>
      (after.units.lookup "act-1").map (fun unit => unit.payload.holdCodes) =
        some ["unread-line", "text-doubt"]) (by decide +kernel)
  exact ⟨basis, before, after, built, of_decide_eq_true checked, accepted, reapplied,
    of_decide_eq_true codes, of_decide_eq_true codes'⟩

end Sample

end Verbatus.Review
