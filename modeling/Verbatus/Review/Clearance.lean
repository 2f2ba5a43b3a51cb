import Mathlib.Tactic
import Verbatus.Review.Published
import Verbatus.Review.Results

namespace Verbatus.Review

open Library Library.Checked Refusal Contracts

variable {Digest : Type} [LinearOrder Digest]

/-- There are current decisions about a subject, and all decide and say the same. -/
def Unanimous (basis : Basis Digest) (decisions : List (ApprovalRecord Digest))
    (scope : ReviewScope) (subject : String) (said : ReviewDecision × Option Correction) : Prop :=
  currentDecisions basis decisions scope subject ≠ [] ∧
    ∀ one ∈ currentDecisions basis decisions scope subject, one = said

/-- No current decision holds a subject, none differs from another and none is carried onto it. -/
structure Unheld (basis : Basis Digest) (decisions : List (ApprovalRecord Digest))
    (result : Applied Digest) (scope : ReviewScope) (subject : String) : Prop where
  noHold : ∀ one ∈ currentDecisions basis decisions scope subject,
    addedCode scope (.one one.1) = none
  noConflict : ∀ one ∈ currentDecisions basis decisions scope subject,
    ∀ other ∈ currentDecisions basis decisions scope subject, one = other
  noCarried : ∀ summary ∈ result.carried, ¬ (summary.scope = scope ∧ summary.subjectId = subject)

/-- A code the machine put on the page through another of its units. -/
def HeldByAnother (basis : Basis Digest) (actId : String) (entry : UnitEntry Digest)
    (code : String) : Prop :=
  code ∉ entry.pageCodes ∧ ∃ other ∈ basis.units, other.1 ≠ actId ∧
    other.2.pageId = entry.pageId ∧ code ∈ other.2.pageCodes

/-- Why an accepted unit may be: each of its codes was cleared in its own scope. -/
structure ClearedInScope (hashing : Hashing Digest) (basis : Basis Digest)
    (decisions : List (ApprovalRecord Digest)) (result : Applied Digest) (actId : String)
    (entry : UnitEntry Digest) (page : PageEntry Digest) (paged : PageResult Digest) : Prop where
  ownCodes : entry.unitCodes ≠ [] → Unanimous basis decisions .unit actId (.release, none) ∨
    ∃ correction, Unanimous basis decisions .unit actId (.edit, some correction)
  pageCodes : entry.pageCodes ≠ [] →
    Unanimous basis decisions .page entry.pageId (.noMissedAct, none)
  pageDigest : page.basisDigest = hashing.page entry.pageId
    ((unitsOfPage basis.units entry.pageId).map fun unit => (unit.1, unit.2.basisDigest))
    (page.actUnits.filter (excludedNow basis decisions))
  pageHolds : ∀ code ∈ paged.holdCodes, HeldByAnother basis actId entry code
  unitUnheld : Unheld basis decisions result .unit actId
  pageUnheld : Unheld basis decisions result .page entry.pageId
  noActLeft : page.actUnits ≠ [] → (∀ act ∈ page.actUnits, excludedNow basis decisions act) →
    ¬ HeldByAnother basis actId entry noActOnPageHold →
      Unanimous basis decisions .page entry.pageId (.noMissedAct, none)

/-- What an excluded unit still is: excluded by all, and held by its page. -/
structure ExcludedByAll (basis : Basis Digest) (decisions : List (ApprovalRecord Digest))
    (actId : String) (entry : UnitEntry Digest) (result : UnitResult Digest)
    (paged : PageResult Digest) : Prop where
  unanimous : Unanimous basis decisions .unit actId (.exclude, none)
  keeps : ∀ code ∈ paged.holdCodes, code ≠ noActOnPageHold →
    code ∈ result.payload.holdCodes ∨ HeldByAnother basis actId entry code

variable {hashing : Hashing Digest} {derived : DerivedReview Digest}
  {decisions : List (ApprovalRecord Digest)} {basis : Basis Digest} {result : Applied Digest}
  {checked : List (Summary Digest)}

/-- Decisions that agree on anything but an edit say nothing beside it. -/
theorem unanimous_of_agreed (checks : decisions.mapM (reviewDecision hashing basis) = .ok checked)
    {scope : ReviewScope} {subject : String} {decision : ReviewDecision}
    (agree : agreed (currentDecisions basis decisions scope subject) = some (.one decision)) :
    ∃ said, Unanimous basis decisions scope subject (decision, said) ∧
      (decision = .edit ↔ said.isSome) := by
  obtain ⟨said, present, same⟩ := agreed_eq_one.mp agree
  refine ⟨said, ⟨present, same⟩, ?_⟩
  obtain ⟨one, member⟩ := List.exists_mem_of_ne_nil _ present
  have sound := (currentDecisions_sound checks member).2
  rwa [same one member] at sound

/-- A subject that no hold is added to or carried onto is held by no decision. -/
theorem unheld_of_none (apart : Distinguishes hashing decisions)
    (checks : decisions.mapM (reviewDecision hashing basis) = .ok checked) {scope : ReviewScope}
    {subject : String}
    (added : (agreed (currentDecisions basis decisions scope subject)).bind (addedCode scope) = none)
    (carried : carriedCodes basis decisions scope subject = []) :
    Unheld basis decisions (appliedTo hashing derived basis checked) scope subject := by
  have noConflict : ∀ one ∈ currentDecisions basis decisions scope subject,
      ∀ other ∈ currentDecisions basis decisions scope subject, one = other := by
    intro one member other also
    by_contra apart
    rw [agreed_eq_conflict.mpr ⟨one, member, other, also, apart⟩] at added
    cases scope <;> cases added
  refine ⟨fun one member => ?_, noConflict, fun summary listed about => ?_⟩
  · have agree : agreed (currentDecisions basis decisions scope subject) = some (.one one.1) :=
      agreed_eq_one.mpr ⟨one.2, List.ne_nil_of_mem member,
        fun other also => (noConflict other also one member)⟩
    rwa [agree] at added
  · obtain ⟨rfl, rfl⟩ := about
    exact appliedTo_carried apart checks listed carried

theorem reviewedOutcome_eq_accepted {holdCodes : List String} {unitClass : String}
    {kind : Option Kind} (accepted : reviewedOutcome holdCodes unitClass kind = .accepted) :
    kind ≠ some (.one .exclude) ∧ holdCodes = [] := by
  unfold reviewedOutcome derivedOutcome at accepted
  split_ifs at accepted
  simp_all

theorem reviewedOutcome_eq_excluded {holdCodes : List String} {unitClass : String}
    {kind : Option Kind} (excluded : reviewedOutcome holdCodes unitClass kind = .excluded) :
    kind = some (.one .exclude) := by
  unfold reviewedOutcome derivedOutcome at excluded
  split_ifs at excluded with exclude
  exact exclude

omit [LinearOrder Digest] in
/-- The only standing code that is not the machine's is the no-act hold. -/
theorem mem_pageCodes_of_standing {page : PageEntry Digest} {code : String}
    (standing : code ∈ standingCodes page)
    (other : code ≠ noActOnPageHold) : code ∈ page.pageCodes := by
  rw [standingCodes, List.mem_append] at standing
  rcases standing with listed | raised
  · exact listed
  · split_ifs at raised
    · exact absurd (List.mem_singleton.mp raised) other
    · exact absurd raised List.not_mem_nil

section Unit

variable {actId : String} {entry : UnitEntry Digest} {page : PageEntry Digest}
  {reviewed : UnitResult Digest} {paged : PageResult Digest}

/-- A unit of the basis, with its page's entry and what the decisions leave of both. -/
structure Placed (hashing : Hashing Digest) (derived : DerivedReview Digest)
    (decisions : List (ApprovalRecord Digest)) (basis : Basis Digest) (actId : String)
    (entry : UnitEntry Digest) (page : PageEntry Digest) (reviewed : UnitResult Digest)
    (paged : PageResult Digest) : Prop where
  apart : Distinguishes hashing decisions
  built : currentBasis hashing derived decisions = .ok basis
  found : basis.units.lookup actId = some entry
  onPage : basis.pages.lookup entry.pageId = some page
  made : Reviewed basis decisions actId entry page reviewed paged

variable (placed : Placed hashing derived decisions basis actId entry page reviewed paged)

include placed

/-- A machine code of the page that a unit has not is another unit's. -/
theorem Placed.heldByAnother {code : String} (listed : code ∈ page.pageCodes)
    (other : code ∉ entry.pageCodes) : HeldByAnother basis actId entry code := by
  obtain ⟨ordinal, holds, rfl⟩ := currentBasis_page placed.apart placed.built placed.onPage
  obtain ⟨unit, member, onPage, holding⟩ := mem_pageEntry_pageCodes.mp listed
  refine ⟨other, unit, member, fun same => ?_, onPage, holding⟩
  have again := (lookup_eq_some_iff_mem (currentBasis_distinct placed.built)).mpr
    (same ▸ member : (actId, unit.2) ∈ basis.units)
  rw [placed.found, Option.some_inj] at again
  exact other (again ▸ holding)

theorem Placed.pageDigest : page.basisDigest = hashing.page entry.pageId
    ((unitsOfPage basis.units entry.pageId).map fun unit => (unit.1, unit.2.basisDigest))
    (page.actUnits.filter (excludedNow basis decisions)) := by
  obtain ⟨ordinal, holds, rfl⟩ := currentBasis_page placed.apart placed.built placed.onPage
  rfl

theorem Placed.excludedActs :
    page.excludedActs = page.actUnits.filter (excludedNow basis decisions) := by
  obtain ⟨ordinal, holds, rfl⟩ := currentBasis_page placed.apart placed.built placed.onPage
  rfl

/-- Everything that could hold a unit and does not. -/
structure NothingHolds (basis : Basis Digest) (decisions : List (ApprovalRecord Digest))
    (actId : String) (entry : UnitEntry Digest) (paged : PageResult Digest) : Prop where
  included : agreed (currentDecisions basis decisions .unit actId) ≠ some (.one .exclude)
  own : entry.unitCodes ≠ [] →
    clearsUnit (agreed (currentDecisions basis decisions .unit actId)) = true
  ownAdded : (agreed (currentDecisions basis decisions .unit actId)).bind (addedCode .unit) = none
  ownCarried : carriedCodes basis decisions .unit actId = []
  page : ∀ code ∈ entry.pageCodes, code ∈ paged.cleared
  raised : ∀ code, code ∉ paged.raised
  pageAdded : ∀ code, code ∉ paged.added
  pageCarried : ∀ code, code ∉ paged.carried

theorem Placed.nothingHolds (accepted : reviewed.outcome = .accepted) :
    NothingHolds basis decisions actId entry paged := by
  have made := placed.made
  obtain ⟨included, nothing⟩ := reviewedOutcome_eq_accepted (made.outcome.symm.trans accepted)
  have none_left : ∀ code, code ∉ reviewed.payload.holdCodes := by
    rw [nothing]
    exact fun code => List.not_mem_nil
  simp only [made.holdCodes, not_or] at none_left
  have pageUnheld : ∀ code, code ∉ paged.raised ∧ (code ∈ entry.pageCodes → code ∈ paged.cleared) := by
    intro code
    have unheld := (none_left code).2.1
    simp only [pageHeld, List.mem_filter, List.mem_append, decide_eq_true_eq, included,
      false_and, not_false_eq_true, and_true, not_or, not_and, not_not] at unheld
    exact ⟨unheld.2, unheld.1⟩
  refine ⟨included, fun some_code => ?_, ?_, ?_, ?_, ?_, ?_, ?_⟩
  · obtain ⟨code, member⟩ := List.exists_mem_of_ne_nil _ some_code
    by_contra unclear
    exact (none_left code).1 ⟨Bool.eq_false_iff.mpr unclear, member⟩
  · exact Option.eq_none_iff_forall_ne_some.mpr fun code => (none_left code).2.2.1
  · exact List.eq_nil_iff_forall_not_mem.mpr fun code => (none_left code).2.2.2.2.1
  · exact fun code => (pageUnheld code).2
  · exact fun code => (pageUnheld code).1
  · exact fun code => (none_left code).2.2.2.1
  · exact fun code => (none_left code).2.2.2.2.2

omit placed in
/-- Decisions that agree to clear a unit's own codes are all releases, or the same edit. -/
theorem unanimous_of_clearsUnit
    (checks : decisions.mapM (reviewDecision hashing basis) = .ok checked)
    (included : agreed (currentDecisions basis decisions .unit actId) ≠ some (.one .exclude))
    (clears : clearsUnit (agreed (currentDecisions basis decisions .unit actId)) = true) :
    Unanimous basis decisions .unit actId (.release, none) ∨
      ∃ correction, Unanimous basis decisions .unit actId (.edit, some correction) := by
  cases agree : agreed (currentDecisions basis decisions .unit actId) with
  | none => simp [agree, clearsUnit] at clears
  | some kind =>
      cases kind with
      | conflict => simp [agree, clearsUnit] at clears
      | one decision =>
          obtain ⟨said, unanimous, edits⟩ := unanimous_of_agreed checks agree
          rw [agree] at clears included
          by_cases edit : decision = .edit
          · subst edit
            obtain ⟨correction, rfl⟩ := Option.isSome_iff_exists.mp (edits.mp rfl)
            exact .inr ⟨correction, unanimous⟩
          · have release : decision = .release := by
              cases decision <;> simp_all [clearsUnit, clearing]
            subst release
            rw [Option.not_isSome_iff_eq_none.mp (mt edits.mpr edit)] at unanimous
            exact .inl unanimous

omit placed in
theorem unanimous_of_noEdit (checks : decisions.mapM (reviewDecision hashing basis) = .ok checked)
    {scope : ReviewScope} {subject : String} {decision : ReviewDecision} (other : decision ≠ .edit)
    (agree : agreed (currentDecisions basis decisions scope subject) = some (.one decision)) :
    Unanimous basis decisions scope subject (decision, none) := by
  obtain ⟨said, unanimous, edits⟩ := unanimous_of_agreed checks agree
  rwa [Option.not_isSome_iff_eq_none.mp (mt edits.mpr other)] at unanimous

/-- What is left on the page of an accepted unit is another unit's. -/
theorem Placed.pageHolds (free : NothingHolds basis decisions actId entry paged) :
    ∀ code ∈ paged.holdCodes, HeldByAnother basis actId entry code := by
  intro code member
  have listed : code ∈ page.pageCodes := by
    by_contra unlisted
    exact free.raised code ((placed.made.raised code).mpr ⟨member, unlisted⟩)
  refine placed.heldByAnother listed fun own => ?_
  have cleared := ((placed.made.cleared code).mp (free.page code own)).2
  rcases (placed.made.pageHoldCodes code).mp member with standing | added | carried
  · exact standing.2 cleared
  · exact free.pageAdded code added
  · exact free.pageCarried code carried

theorem clearedInScope_of_accepted
    (checks : decisions.mapM (reviewDecision hashing basis) = .ok checked)
    (accepted : reviewed.outcome = .accepted) :
    ClearedInScope hashing basis decisions (appliedTo hashing derived basis checked) actId entry page
      paged where
  ownCodes some_code := by
    have free := placed.nothingHolds accepted
    exact unanimous_of_clearsUnit checks free.included (free.own some_code)
  pageCodes some_code := by
    obtain ⟨code, member⟩ := List.exists_mem_of_ne_nil _ some_code
    have cleared := (placed.nothingHolds accepted).page code member
    exact unanimous_of_noEdit checks nofun ((placed.made.cleared code).mp cleared).2
  pageDigest := placed.pageDigest
  pageHolds := placed.pageHolds (placed.nothingHolds accepted)
  unitUnheld :=
    have free := placed.nothingHolds accepted
    unheld_of_none placed.apart checks free.ownAdded free.ownCarried
  pageUnheld := by
    have free := placed.nothingHolds accepted
    apply unheld_of_none placed.apart checks
    · exact Option.eq_none_iff_forall_ne_some.mpr fun code added =>
        free.pageAdded code ((placed.made.added code).mpr added)
    · exact List.eq_nil_iff_forall_not_mem.mpr fun code carried =>
        free.pageCarried code ((placed.made.carried code).mpr carried)
  noActLeft some_act allExcluded unique := by
    by_contra unclear
    have all : page.excludedActs = page.actUnits := by
      rw [placed.excludedActs, List.filter_eq_self]
      exact allExcluded
    have standing : noActOnPageHold ∈ standingCodes page := by
      rw [standingCodes, if_pos ⟨some_act, all⟩]
      exact List.mem_append_right _ (List.mem_singleton_self _)
    have held : noActOnPageHold ∈ paged.holdCodes :=
      (placed.made.pageHoldCodes _).mpr (.inl ⟨standing, fun agree =>
        unclear (unanimous_of_noEdit checks nofun agree)⟩)
    exact unique (placed.pageHolds (placed.nothingHolds accepted) _ held)

theorem excludedByAll_of_excluded
    (checks : decisions.mapM (reviewDecision hashing basis) = .ok checked)
    (excluded : reviewed.outcome = .excluded) :
    ExcludedByAll basis decisions actId entry reviewed paged where
  unanimous := unanimous_of_noEdit checks nofun
    (reviewedOutcome_eq_excluded (placed.made.outcome.symm.trans excluded))
  keeps code member other := by
    rw [placed.made.holdCodes]
    rcases (placed.made.pageHoldCodes code).mp member with ⟨standing, undone⟩ | added | carried
    · by_cases own : code ∈ entry.pageCodes
      · left; right; left
        have uncleared : code ∉ paged.cleared := fun cleared =>
          undone ((placed.made.cleared code).mp cleared).2
        simp [pageHeld, own, uncleared, other]
      · exact .inr (placed.heldByAnother (mem_pageCodes_of_standing standing other) own)
    · exact .inl (.inr (.inr (.inr (.inl added))))
    · exact .inl (.inr (.inr (.inr (.inr (.inr carried)))))

end Unit

/-- An accepted unit was cleared in the scope of each of its codes, and an excluded one is
excluded by every current decision about it and still carries its page's holds. -/
theorem applyDecisions_clearance (apart : Distinguishes hashing decisions)
    (built : currentBasis hashing derived decisions = .ok basis)
    (accepted : applyDecisions hashing derived decisions = .ok result)
    {actId : String} {entry : UnitEntry Digest} (found : basis.units.lookup actId = some entry) :
    ∃ page paged reviewed, basis.pages.lookup entry.pageId = some page ∧
      result.pages.lookup entry.pageId = some paged ∧
      result.units.lookup actId = some reviewed ∧
      (reviewed.outcome = .accepted →
        ClearedInScope hashing basis decisions result actId entry page paged) ∧
      (reviewed.outcome = .excluded →
        ExcludedByAll basis decisions actId entry reviewed paged) := by
  obtain ⟨page, reviewed, paged, onPage, foundUnit, foundPage, made⟩ :=
    applyDecisions_reviewed apart built accepted found
  obtain ⟨basis', checked, built', checks, rfl⟩ := applyDecisions_eq_ok.mp accepted
  cases built.symm.trans built'
  have placed : Placed hashing derived decisions basis actId entry page reviewed paged :=
    ⟨apart, built, found, onPage, made⟩
  exact ⟨page, paged, reviewed, onPage, foundPage, foundUnit,
    fun outcome => clearedInScope_of_accepted placed checks outcome,
    fun outcome => excludedByAll_of_excluded placed checks outcome⟩

/-- A released reading is accepted, and its release is why. -/
theorem applyDecisions_clearance_released :
    ∃ basis result entry page paged,
      currentBasis writtenOut heldReview [releaseAct] = .ok basis ∧
      applyDecisions writtenOut heldReview [releaseAct] = .ok result ∧
      ClearedInScope writtenOut basis [releaseAct] result "act-1" entry page paged := by
  have apart : Distinguishes writtenOut [releaseAct] := by
    constructor
    · simp
    · simp only [List.mem_singleton, forall_eq]
      nofun
  obtain ⟨basis, built, found⟩ := exists_ok_of_any (currentBasis writtenOut heldReview
    [releaseAct]) (fun basis => (basis.units.lookup "act-1").isSome) (by decide +kernel)
  obtain ⟨result, accepted, outcome⟩ := exists_ok_of_any (applyDecisions writtenOut
    heldReview [releaseAct]) (fun result =>
      (result.units.lookup "act-1").map UnitResult.outcome = some .accepted) (by decide +kernel)
  obtain ⟨entry, found⟩ := Option.isSome_iff_exists.mp found
  obtain ⟨page, paged, reviewed, -, -, row, cleared, -⟩ :=
    applyDecisions_clearance apart built accepted found
  rw [row, Option.map_some, decide_eq_true_eq, Option.some_inj] at outcome
  exact ⟨basis, result, entry, page, paged, built, accepted, cleared outcome⟩

/-- An accepted reading's page can still be held, by a code only its other reading has. -/
theorem applyDecisions_acceptedOnHeldPage :
    ∃ result, applyDecisions writtenOut
        ⟨"run-1", [sampleUnit "act-1" "act" [] [] ["under-witnessed"],
          sampleUnit "act-2" "act" ["under-witnessed"] [] ["under-witnessed"]]⟩ [] = .ok result ∧
      (result.units.lookup "act-1").map UnitResult.outcome = some .accepted ∧
      (result.pages.lookup "page-1").map PageResult.holdCodes = some ["under-witnessed"] := by
  obtain ⟨result, accepted, held⟩ := exists_ok_of_any (applyDecisions writtenOut
    ⟨"run-1", [sampleUnit "act-1" "act" [] [] ["under-witnessed"],
      sampleUnit "act-2" "act" ["under-witnessed"] [] ["under-witnessed"]]⟩ []) (fun result =>
        (result.units.lookup "act-1").map UnitResult.outcome = some .accepted ∧
        (result.pages.lookup "page-1").map PageResult.holdCodes = some ["under-witnessed"])
    (by decide +kernel)
  exact ⟨result, accepted, of_decide_eq_true held⟩

end Verbatus.Review
