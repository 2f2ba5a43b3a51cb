import Mathlib.Tactic
import Verbatus.Review.Current

namespace Verbatus.Review

open Library Library.Checked Refusal Contracts

variable {Digest : Type} [LinearOrder Digest] {hashing : Hashing Digest} {basis : Basis Digest}

section Application

variable {decisions : List (ApprovalRecord Digest)} {checked : List (Summary Digest)}
  (apart : Distinguishes hashing decisions)
  (checks : decisions.mapM (reviewDecision hashing basis) = .ok checked)

include apart checks

/-- Every record about a subject is among the summaries an application works with. -/
theorem summary_of_record {record : ApprovalRecord Digest} (member : record ∈ decisions)
    {scope : ReviewScope} {subject : String} {review : ReviewBlock}
    (about : reviewOf record scope subject = some review) :
    ∃ summary ∈ summariesOf checked, summary.scope = scope ∧ summary.subjectId = subject ∧
      (scope = .page → summary.pageId = subject) := by
  obtain ⟨source, listed, other, named, sound⟩ := checked_of_record checks member
  obtain ⟨rfl, ofScope, subjected⟩ := sound.reviewOf_iff.mp about
  refine ⟨_, (mem_summariesOf apart checks).mpr ⟨source, listed, rfl⟩, ?_, ?_, fun page => ?_⟩
  · rwa [withConflict_scope]
  · rwa [withConflict_subjectId]
  · obtain ⟨-, ofScope, names⟩ := reviewOf_eq_some.mp about
    have same := (sound.sound.pageSubject (ofScope.trans page)).symm.trans names
    rw [withConflict_pageId, sound.kept]
    exact List.head_eq_of_cons_eq same

/-- Nothing is decided about a subject no record is about. -/
theorem undecided_of_untouched (scope : ReviewScope) (subject : String)
    (untouched : ∀ summary ∈ summariesOf checked, summary.scope = scope →
      summary.subjectId = subject → (scope = .page → summary.pageId = subject) → False) :
    currentDecisions basis decisions scope subject = [] ∧
      carriedCodes basis decisions scope subject = [] := by
  have silent : ∀ record ∈ decisions, ∀ review, reviewOf record scope subject ≠ some review := by
    intro record member review about
    obtain ⟨summary, listed, ofScope, named, paged⟩ := summary_of_record apart checks member about
    exact untouched summary listed ofScope named paged
  have current : currentDecisions basis decisions scope subject = [] := by
    rw [List.eq_nil_iff_forall_not_mem]
    intro one member
    obtain ⟨record, listed, review, about, -⟩ := mem_currentDecisions.mp member
    exact silent record listed review about
  have stale : staleDecisions basis decisions scope subject = [] := by
    rw [List.eq_nil_iff_forall_not_mem]
    intro one member
    obtain ⟨record, listed, review, about, -⟩ := mem_staleDecisions.mp member
    exact silent record listed review about
  refine ⟨current, ?_⟩
  rw [carriedCodes, stale, List.filterMap_nil, ite_self]

omit checks apart [LinearOrder Digest] in
theorem carriedOnto_own {summaries : List (Summary Digest)} {kinds : Kinds} {actId : String} :
    carriedOnto .unit actId (summaries.filter fun summary => summary.scope = .unit ∧
      summary.subjectId = actId) kinds = carriedOnto .unit actId summaries kinds := by
  unfold carriedOnto
  rw [List.filter_filter]
  congr 4
  funext summary
  by_cases own : summary.scope = .unit ∧ summary.subjectId = actId <;> simp [own]

/-- The hold codes of a page's result, by where each comes from. -/
theorem mem_pageResult_holdCodes {pageId : String} {page : PageEntry Digest} {code : String} :
    code ∈ (pageResult pageId page (summariesOf checked) (kindsOf checked)).holdCodes ↔
      (code ∈ standingCodes page ∧ kindsOf checked .page pageId ≠ some (.one .noMissedAct)) ∨
      (kindsOf checked .page pageId).bind (addedCode .page) = some code ∨
      code ∈ carriedCodes basis decisions .page pageId := by
  simp only [pageResult, mem_sortedSet, List.mem_append, List.mem_filter, decide_eq_true_eq,
    Option.mem_toList, mem_carriedOnto apart checks]
  split_ifs with cleared
  · simp [cleared]
  · simp [cleared, or_assoc]

/-- A page that nothing is decided about holds what its machine codes hold. -/
theorem pageResult_undecided {pageId : String} (page : PageEntry Digest)
    (current : currentDecisions basis decisions .page pageId = [])
    (carried : carriedCodes basis decisions .page pageId = []) :
    let result := pageResult pageId page (summariesOf checked) (kindsOf checked)
    result.cleared = [] ∧ result.added = [] ∧ result.carried = [] := by
  have kind : kindsOf checked .page pageId = none := by
    rw [kindsOf_eq apart checks, current]
    rfl
  refine ⟨?_, ?_, ?_⟩
  · simp [pageResult, kind]
  · simp [pageResult, kind]
  · rw [List.eq_nil_iff_forall_not_mem]
    intro code member
    rw [show (pageResult pageId page (summariesOf checked) (kindsOf checked)).carried =
      carriedOnto .page pageId (summariesOf checked) (kindsOf checked) from rfl,
      mem_carriedOnto apart checks, carried] at member
    exact List.not_mem_nil member

/-- The hold codes of a unit's result, by where each comes from, and the outcome they give. -/
theorem unitResult_holdCodes {unit : DerivedUnit Digest} {entry : UnitEntry Digest}
    {page : PageEntry Digest} (described : Described hashing basis unit entry page) :
    let kind := kindsOf checked .unit unit.actId
    let paged := pageResult entry.pageId page (summariesOf checked) (kindsOf checked)
    let result := unitResult unit.actId unit entry paged (summariesOf checked) (kindsOf checked)
    result.outcome = reviewedOutcome result.payload.holdCodes entry.unitClass kind ∧
      ∀ code, code ∈ result.payload.holdCodes ↔
        (clearsUnit kind = false ∧ code ∈ entry.unitCodes) ∨ code ∈ pageHeld entry paged kind ∨
        kind.bind (addedCode .unit) = some code ∨ code ∈ paged.added ∨
        code ∈ carriedCodes basis decisions .unit unit.actId ∨ code ∈ paged.carried := by
  intro kind paged result
  have of := (unitBasis_entryOf described.row).2
  by_cases untouched : sortSummaries ((summariesOf checked).filter (fun summary =>
      summary.scope = .unit ∧ summary.subjectId = unit.actId) ++ paged.decisions) = [] ∧
        paged.raised = []
  · -- No decision is about the unit or its page, so every hold it has is the machine's.
    have same : result = ⟨unit.outcome, unit.payload⟩ := if_pos untouched
    obtain ⟨silent, unraised⟩ := untouched
    obtain ⟨own, onPage⟩ := List.append_eq_nil_iff.mp (sortSummaries_eq_nil.mp silent)
    obtain ⟨undecided, uncarried⟩ := undecided_of_untouched apart checks
      .unit unit.actId fun summary member ofScope named _ =>
        List.filter_eq_nil_iff.mp own summary member (decide_eq_true ⟨ofScope, named⟩)
    obtain ⟨pageUndecided, pageUncarried⟩ := undecided_of_untouched apart checks
      .page entry.pageId fun summary member ofScope _ paged =>
        List.filter_eq_nil_iff.mp onPage summary member
          (decide_eq_true ⟨paged rfl, .inl ofScope⟩)
    obtain ⟨cleared, added, carried⟩ :=
      pageResult_undecided apart checks page pageUndecided pageUncarried
    have kind_none : kind = none := by
      change kindsOf checked .unit unit.actId = none
      rw [kindsOf_eq apart checks, undecided]
      rfl
    rw [same, kind_none]
    refine ⟨?_, fun code => ?_⟩
    · rw [of.derived, of.unitClass]
      rfl
    · rw [classifyHolds_covers of.scopes code]
      simp [clearsUnit, pageHeld, paged, cleared, added, carried, unraised, uncarried]
  · have same : result = ⟨_, _⟩ := if_neg untouched
    rw [same]
    refine ⟨rfl, fun code => ?_⟩
    simp only [reviewedPayload, unitHoldCodes, carriedOnto_own, mem_sortedSet, List.mem_append,
      Option.mem_toList, mem_carriedOnto apart checks, or_assoc]
    cases cleared : clearsUnit kind <;> simp [kind]

omit apart in
/-- A current decision is one of its scope, and says a correction exactly when it is an edit. -/
theorem currentDecisions_sound {scope : ReviewScope} {subject : String}
    {one : ReviewDecision × Option Correction}
    (member : one ∈ currentDecisions basis decisions scope subject) :
    one.1 ∈ reviewDecisions scope ∧ (one.1 = .edit ↔ one.2.isSome) := by
  obtain ⟨record, listed, review, about, -, rfl⟩ := mem_currentDecisions.mp member
  obtain ⟨summary, -, other, named, sound⟩ := checked_of_record checks listed
  obtain ⟨rfl, -⟩ := sound.reviewOf_iff.mp about
  obtain ⟨-, rfl, -⟩ := reviewOf_eq_some.mp about
  exact ⟨sound.sound.allowed, sound.sound.editing⟩

end Application

section Reviewed

/-- What an application leaves of a unit and of its page, in terms of the decisions at hand. -/
structure Reviewed (basis : Basis Digest) (decisions : List (ApprovalRecord Digest))
    (actId : String) (entry : UnitEntry Digest) (page : PageEntry Digest)
    (result : UnitResult Digest) (paged : PageResult Digest) : Prop where
  outcome : result.outcome = reviewedOutcome result.payload.holdCodes entry.unitClass
    (agreed (currentDecisions basis decisions .unit actId))
  holdCodes : ∀ code, code ∈ result.payload.holdCodes ↔
    (clearsUnit (agreed (currentDecisions basis decisions .unit actId)) = false ∧
      code ∈ entry.unitCodes) ∨
    code ∈ pageHeld entry paged (agreed (currentDecisions basis decisions .unit actId)) ∨
    (agreed (currentDecisions basis decisions .unit actId)).bind (addedCode .unit) = some code ∨
    code ∈ paged.added ∨ code ∈ carriedCodes basis decisions .unit actId ∨ code ∈ paged.carried
  pageHoldCodes : ∀ code, code ∈ paged.holdCodes ↔
    (code ∈ standingCodes page ∧
      agreed (currentDecisions basis decisions .page entry.pageId) ≠ some (.one .noMissedAct)) ∨
    code ∈ paged.added ∨ code ∈ paged.carried
  cleared : ∀ code, code ∈ paged.cleared ↔ code ∈ standingCodes page ∧
    agreed (currentDecisions basis decisions .page entry.pageId) = some (.one .noMissedAct)
  added : ∀ code, code ∈ paged.added ↔
    (agreed (currentDecisions basis decisions .page entry.pageId)).bind (addedCode .page) = some code
  carried : ∀ code, code ∈ paged.carried ↔ code ∈ carriedCodes basis decisions .page entry.pageId
  raised : ∀ code, code ∈ paged.raised ↔ code ∈ paged.holdCodes ∧ code ∉ page.pageCodes

variable {derived : DerivedReview Digest} {decisions : List (ApprovalRecord Digest)}
  {checked : List (Summary Digest)}

theorem appliedTo_reviewed (apart : Distinguishes hashing decisions)
    (built : currentBasis hashing derived decisions = .ok basis)
    (checks : decisions.mapM (reviewDecision hashing basis) = .ok checked)
    {unit : DerivedUnit Digest} (member : unit ∈ derived.units) {entry : UnitEntry Digest}
    {page : PageEntry Digest} (described : Described hashing basis unit entry page) :
    ∃ result paged,
      (appliedTo hashing derived basis checked).units.lookup unit.actId = some result ∧
      (appliedTo hashing derived basis checked).pages.lookup entry.pageId = some paged ∧
      Reviewed basis decisions unit.actId entry page result paged := by
  have kindUnit := kindsOf_eq apart checks .unit unit.actId
  have kindPage := kindsOf_eq apart checks .page entry.pageId
  obtain ⟨outcome, codes⟩ := unitResult_holdCodes apart checks described
  rw [kindUnit] at outcome
  simp only [kindUnit] at codes
  have pages := lookup_map basis.pages
    (fun pageId page => pageResult pageId page (summariesOf checked) (kindsOf checked)) entry.pageId
  rw [described.onPage] at pages
  refine ⟨_, _, lookup_appliedTo_units built checked member described, pages, outcome, codes, ?_, ?_,
    ?_, ?_, ?_⟩
  · intro code
    rw [mem_pageResult_holdCodes apart checks, kindPage, ← mem_carriedOnto apart checks]
    simp [pageResult, kindPage]
  · intro code
    simp only [pageResult, kindPage]
    split_ifs with cleared <;> simp [cleared]
  · intro code
    simp [pageResult, kindPage]
  · exact fun code => mem_carriedOnto apart checks
  · intro code
    simp [pageResult]

/-- What an accepted application leaves of a unit of its basis. -/
theorem applyDecisions_reviewed {result : Applied Digest} (apart : Distinguishes hashing decisions)
    (built : currentBasis hashing derived decisions = .ok basis)
    (accepted : applyDecisions hashing derived decisions = .ok result) {actId : String}
    {entry : UnitEntry Digest} (found : basis.units.lookup actId = some entry) :
    ∃ page reviewed paged, basis.pages.lookup entry.pageId = some page ∧
      result.units.lookup actId = some reviewed ∧
      result.pages.lookup entry.pageId = some paged ∧
      Reviewed basis decisions actId entry page reviewed paged := by
  obtain ⟨basis', checked, built', checks, rfl⟩ := applyDecisions_eq_ok.mp accepted
  cases built.symm.trans built'
  obtain ⟨unit, member, rfl⟩ : ∃ unit ∈ derived.units, unit.actId = actId := by
    have listed := List.mem_map_of_mem (f := Prod.fst) (mem_of_lookup found)
    rw [(currentBasis_ids built).1.mem_iff] at listed
    exact List.mem_map.mp listed
  obtain ⟨entry', page, described⟩ := currentBasis_described built member
  cases found.symm.trans described.found
  obtain ⟨reviewed, paged, foundUnit, foundPage, made⟩ :=
    appliedTo_reviewed apart built checks member described
  exact ⟨page, reviewed, paged, described.onPage, foundUnit, foundPage, made⟩

/-- A page of the basis has a unit on it. -/
theorem currentBasis_unitOnPage (apart : Distinguishes hashing decisions)
    (built : currentBasis hashing derived decisions = .ok basis) {pageId : String}
    {page : PageEntry Digest} (found : basis.pages.lookup pageId = some page) :
    ∃ actId entry, basis.units.lookup actId = some entry ∧ entry.pageId = pageId := by
  rw [currentBasis_lookup_pages apart built] at found
  obtain ⟨first, head, -⟩ := Option.map_eq_some_iff.mp found
  obtain ⟨member, onPage⟩ := List.mem_filter.mp (List.mem_of_mem_head? head)
  exact ⟨first.1, first.2, (lookup_eq_some_iff_mem (currentBasis_distinct built)).mpr member,
    of_decide_eq_true onPage⟩

theorem applyDecisions_page {result : Applied Digest}
    (built : currentBasis hashing derived decisions = .ok basis)
    (accepted : applyDecisions hashing derived decisions = .ok result) {pageId : String}
    {paged : PageResult Digest} (found : result.pages.lookup pageId = some paged) :
    ∃ page, basis.pages.lookup pageId = some page := by
  obtain ⟨basis', checked, built', checks, rfl⟩ := applyDecisions_eq_ok.mp accepted
  cases built.symm.trans built'
  have pages := lookup_map basis.pages
    (fun pageId page => pageResult pageId page (summariesOf checked) (kindsOf checked)) pageId
  obtain ⟨page, onPage, -⟩ := Option.map_eq_some_iff.mp (pages.symm.trans found)
  exact ⟨page, onPage⟩

/-- A carried decision carries a code onto the subject it is about. -/
theorem appliedTo_carried (apart : Distinguishes hashing decisions)
    (checks : decisions.mapM (reviewDecision hashing basis) = .ok checked)
    {summary : Summary Digest} (member : summary ∈ (appliedTo hashing derived basis checked).carried) :
    carriedCodes basis decisions summary.scope summary.subjectId ≠ [] := by
  simp only [appliedTo, List.mem_filter, decide_eq_true_eq, carries] at member
  obtain ⟨⟨listed, stale⟩, -, undecided, -, holds⟩ := member
  obtain ⟨code, carried⟩ := Option.isSome_iff_exists.mp holds
  apply List.ne_nil_of_mem (a := code)
  rw [← mem_carriedOnto apart checks, carriedOnto,
    if_neg (by rw [Option.isNone_iff_eq_none.mp undecided]; simp), mem_sortedSet]
  exact List.mem_filterMap.mpr
    ⟨summary, List.mem_filter.mpr ⟨listed, decide_eq_true ⟨stale, rfl, rfl⟩⟩, carried⟩

omit [LinearOrder Digest] in
/-- A page's entry depends on which of its own acts are excluded, and on no other unit's. -/
theorem pageEntry_congr {units : List (String × UnitEntry Digest)} {excluded also : String → Bool}
    {pageId : String} {ordinal : ℤ} {holds : List String}
    (same : ∀ act ∈ (pageEntry hashing units excluded pageId ordinal holds).actUnits,
      excluded act = also act) :
    pageEntry hashing units excluded pageId ordinal holds =
      pageEntry hashing units also pageId ordinal holds := by
  have acts := List.filter_congr same
  simp only [pageEntry] at acts ⊢
  rw [acts]

omit [LinearOrder Digest] in
theorem mem_pageEntry_pageCodes {units : List (String × UnitEntry Digest)}
    {excluded : String → Bool} {pageId : String} {ordinal : ℤ} {holds : List String}
    {code : String} : code ∈ (pageEntry hashing units excluded pageId ordinal holds).pageCodes ↔
      ∃ unit ∈ units, unit.2.pageId = pageId ∧ code ∈ unit.2.pageCodes := by
  simp only [pageEntry, mem_sortedSet, List.mem_flatMap, unitsOfPage, List.mem_filter,
    decide_eq_true_eq, and_assoc]

end Reviewed

end Verbatus.Review
