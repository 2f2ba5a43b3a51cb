import Mathlib.Tactic
import Verbatus.Review.Clearance

namespace Verbatus.Review

open Library Library.Checked Refusal Contracts

variable {Digest : Type} [LinearOrder Digest]

/-- The decisions that only ask to hold their subject. -/
def asksToHold : ReviewScope → ReviewDecision → Bool
  | .unit, .hold => true
  | .unit, .reAsk => true
  | .page, .hold => true
  | .page, .missedAct => true
  | .page, .reAsk => true
  | .page, .reShoot => true
  | _, _ => false

def UnitHeld (result : Applied Digest) (actId : String) : Prop :=
  ∃ reviewed, result.units.lookup actId = some reviewed ∧ reviewed.outcome = .heldForReview

def PageHeld (result : Applied Digest) (pageId : String) : Prop :=
  ∃ paged, result.pages.lookup pageId = some paged ∧ paged.holdCodes ≠ []

/-- A decision about an act of the page, bound to it as it is, that the others now exclude. -/
def Disputes (basis : Basis Digest) (record : ApprovalRecord Digest) (pageId : String) : Prop :=
  ∃ act page, basis.pages.lookup pageId = some page ∧ act ∈ page.excludedActs ∧
    (reviewOf record .unit act).isSome ∧
    subjectDigest basis .unit act = some record.targetVersionHash

/-- A unit that something of its own scope holds, whatever its page does. -/
def HeldByItself (basis : Basis Digest) (decisions : List (ApprovalRecord Digest)) (actId : String)
    (entry : UnitEntry Digest) : Prop :=
  (clearsUnit (agreed (currentDecisions basis decisions .unit actId)) = false ∧
    entry.unitCodes ≠ []) ∨
  (agreed (currentDecisions basis decisions .unit actId)).bind (addedCode .unit) ≠ none ∨
  carriedCodes basis decisions .unit actId ≠ []

/-- What still holds a page and its units once an exclusion of one of its acts is disputed. -/
structure HeldThroughDispute (basis current : Basis Digest)
    (decisions later : List (ApprovalRecord Digest)) (before after : Applied Digest)
    (pageId : String) (page : PageEntry Digest) : Prop where
  ownHold : ∀ actId entry, basis.units.lookup actId = some entry → entry.pageId = pageId →
    HeldByItself basis decisions actId entry → UnitHeld before actId → UnitHeld after actId
  machineCode : ¬ Unanimous current later .page pageId (.noMissedAct, none) →
    ∀ code ∈ page.pageCodes, PageHeld after pageId ∧
      ∀ actId entry, basis.units.lookup actId = some entry → entry.pageId = pageId →
        code ∈ entry.pageCodes → UnitHeld before actId → UnitHeld after actId
  earlierHold : currentDecisions current later .page pageId = [] →
    (∃ record ∈ decisions, ∃ review, reviewOf record .page pageId = some review ∧
      (carriedCode .page review.decision).isSome) → PageHeld after pageId ∧
      ∀ actId entry, basis.units.lookup actId = some entry → entry.pageId = pageId →
        UnitHeld before actId → UnitHeld after actId

section Tightened

variable {basis current : Basis Digest} {decisions : List (ApprovalRecord Digest)}
  {record : ApprovalRecord Digest} {scope : ReviewScope} {subject : String}

/-- Either nothing about a subject is decided anew and no carried hold is lost, or what is
decided anew holds it. -/
def Tightened (basis current : Basis Digest) (decisions later : List (ApprovalRecord Digest))
    (scope : ReviewScope) (subject : String) : Prop :=
  (agreed (currentDecisions current later scope subject) =
      agreed (currentDecisions basis decisions scope subject) ∧
    ∀ code ∈ carriedCodes basis decisions scope subject,
      code ∈ carriedCodes current later scope subject) ∨
  (agreed (currentDecisions current later scope subject)).bind (addedCode scope) ≠ none

theorem addedCode_of_asksToHold {decision : ReviewDecision}
    (holding : asksToHold scope decision = true) : addedCode scope (.one decision) ≠ none := by
  cases scope <;> cases decision <;> simp_all [asksToHold, addedCode]

/-- Whatever else is decided, a decision that asks to hold leaves a hold or a conflict. -/
theorem agreed_asksToHold {decided : List (ReviewDecision × Option Correction)}
    {said : ReviewDecision × Option Correction} (holding : asksToHold scope said.1 = true) :
    (agreed (decided ++ [said])).bind (addedCode scope) ≠ none := by
  have member : said ∈ decided ++ [said] := List.mem_append_right _ (List.mem_singleton_self _)
  cases made : agreed (decided ++ [said]) with
  | none => exact absurd (agreed_eq_none.mp made) (List.ne_nil_of_mem member)
  | some kind =>
      cases kind with
      | conflict => cases scope <;> simp [addedCode]
      | one decision =>
          obtain ⟨correction, -, same⟩ := agreed_eq_one.mp made
          have alike := congrArg Prod.fst (same said member)
          dsimp only at alike
          rw [alike] at holding
          exact addedCode_of_asksToHold holding

theorem currentDecisions_append (later : List (ApprovalRecord Digest)) :
    currentDecisions basis (decisions ++ later) scope subject =
      currentDecisions basis decisions scope subject ++
        currentDecisions basis later scope subject := by
  simp only [currentDecisions, List.filter_append, List.filterMap_append]

theorem staleDecisions_append (later : List (ApprovalRecord Digest)) :
    staleDecisions basis (decisions ++ later) scope subject =
      staleDecisions basis decisions scope subject ++ staleDecisions basis later scope subject := by
  simp only [staleDecisions, List.filter_append, List.filterMap_append]

theorem currentDecisions_singleton : currentDecisions basis [record] scope subject =
    if subjectDigest basis scope subject = some record.targetVersionHash then
      ((reviewOf record scope subject).map fun review => (review.decision, review.correction)).toList
    else [] := by
  unfold currentDecisions
  split_ifs with bound
  · rw [List.filter_cons_of_pos (by simpa using bound), List.filter_nil]
    cases about : reviewOf record scope subject <;> simp [about]
  · rw [List.filter_cons_of_neg (by simpa using bound), List.filter_nil, List.filterMap_nil]

/-- A decision not bound to a subject whose digest stays decides nothing about it. -/
theorem currentDecisions_unbound (decisions : List (ApprovalRecord Digest))
    (same : subjectDigest current scope subject =
      subjectDigest basis scope subject)
    (unbound : ¬ ((reviewOf record scope subject).isSome ∧
      subjectDigest basis scope subject = some record.targetVersionHash)) :
    currentDecisions current (decisions ++ [record]) scope subject =
      currentDecisions basis decisions scope subject := by
  have kept : currentDecisions current decisions scope subject =
      currentDecisions basis decisions scope subject := by
    unfold currentDecisions
    rw [same]
  have nothing : currentDecisions current [record] scope subject = [] := by
    rw [currentDecisions_singleton, same]
    split_ifs with bound
    · have silent : reviewOf record scope subject = none :=
        Option.not_isSome_iff_eq_none.mp fun about => unbound ⟨about, bound⟩
      rw [silent]
      rfl
    · rfl
  rw [currentDecisions_append, kept, nothing, List.append_nil]

/-- A decision bound to a subject that asks to hold leaves a hold or a conflict on it. -/
theorem added_of_bound (decisions : List (ApprovalRecord Digest)) {review : ReviewBlock}
    (block : record.review = some review)
    (holding : asksToHold review.scope review.decision = true)
    (about : (reviewOf record scope subject).isSome)
    (bound : subjectDigest current scope subject = some record.targetVersionHash) :
    (agreed (currentDecisions current (decisions ++ [record]) scope subject)).bind
      (addedCode scope) ≠ none := by
  obtain ⟨review', about⟩ := Option.isSome_iff_exists.mp about
  obtain ⟨present, rfl, -⟩ := reviewOf_eq_some.mp about
  cases block.symm.trans present
  rw [currentDecisions_append, currentDecisions_singleton, if_pos bound, about]
  exact agreed_asksToHold holding

/-- One more decision that asks to hold loosens nothing on a subject whose digest stays. -/
theorem tightened_of_digest {review : ReviewBlock} (block : record.review = some review)
    (holding : asksToHold review.scope review.decision = true)
    (same : subjectDigest current scope subject = subjectDigest basis scope subject) :
    Tightened basis current decisions (decisions ++ [record]) scope subject := by
  by_cases bound : (reviewOf record scope subject).isSome ∧
      subjectDigest basis scope subject = some record.targetVersionHash
  · exact .inr (added_of_bound decisions block holding bound.1 (same.trans bound.2))
  · have unchanged := currentDecisions_unbound decisions same bound
    refine .inl ⟨by rw [unchanged], fun code => ?_⟩
    have kept : staleDecisions current decisions scope subject =
        staleDecisions basis decisions scope subject := by
      unfold staleDecisions
      rw [same]
    rw [carriedCodes, carriedCodes, unchanged, staleDecisions_append, kept]
    split_ifs
    · rw [List.filterMap_append]
      exact List.mem_append_left _
    · exact id

end Tightened

section Monotone

variable {basis current : Basis Digest} {decisions later : List (ApprovalRecord Digest)}
  {actId : String} {entry : UnitEntry Digest} {page other : PageEntry Digest}
  {reviewed reviewed' : UnitResult Digest} {paged paged' : PageResult Digest}

theorem reviewedOutcome_eq_held {holdCodes : List String} {unitClass : String}
    {kind : Option Kind} : reviewedOutcome holdCodes unitClass kind = .heldForReview ↔
      kind ≠ some (.one .exclude) ∧ holdCodes ≠ [] := by
  unfold reviewedOutcome derivedOutcome
  split_ifs <;> simp_all

/-- A decision that holds a subject is not the one that clears or excludes it. -/
theorem kind_of_addedCode {scope : ReviewScope} {kind : Option Kind}
    (added : kind.bind (addedCode scope) ≠ none) :
    kind ≠ some (.one .exclude) ∧ kind ≠ some (.one .noMissedAct) := by
  constructor <;> rintro rfl <;> cases scope <;> exact absurd rfl added

theorem Tightened.included (tight : Tightened basis current decisions later .unit actId)
    (included : agreed (currentDecisions basis decisions .unit actId) ≠ some (.one .exclude)) :
    agreed (currentDecisions current later .unit actId) ≠ some (.one .exclude) := by
  rcases tight with ⟨same, -⟩ | added
  · rwa [same]
  · exact (kind_of_addedCode added).1

/-- A unit is held when a code of its own scope or its page's is left and nothing excludes it. -/
theorem Reviewed.held_of_code (made : Reviewed current later actId entry page reviewed paged)
    (included : agreed (currentDecisions current later .unit actId) ≠ some (.one .exclude))
    {code : String} (left : code ∈ reviewed.payload.holdCodes) :
    reviewed.outcome = .heldForReview := by
  rw [made.outcome, reviewedOutcome_eq_held]
  exact ⟨included, List.ne_nil_of_mem left⟩

theorem Reviewed.held_of_itself (made : Reviewed current later actId entry page reviewed paged)
    (included : agreed (currentDecisions current later .unit actId) ≠ some (.one .exclude))
    (own : HeldByItself current later actId entry) : reviewed.outcome = .heldForReview := by
  rcases own with ⟨uncleared, some_code⟩ | added | carried
  · obtain ⟨code, member⟩ := List.exists_mem_of_ne_nil _ some_code
    exact made.held_of_code included ((made.holdCodes code).mpr (.inl ⟨uncleared, member⟩))
  · obtain ⟨code, member⟩ := Option.ne_none_iff_exists'.mp added
    exact made.held_of_code included ((made.holdCodes code).mpr (.inr (.inr (.inl member))))
  · obtain ⟨code, member⟩ := List.exists_mem_of_ne_nil _ carried
    exact made.held_of_code included
      ((made.holdCodes code).mpr (.inr (.inr (.inr (.inr (.inl member))))))

/-- What holds a unit by itself still does when its decisions are only tightened. -/
theorem Tightened.heldByItself (tight : Tightened basis current decisions later .unit actId)
    (own : HeldByItself basis decisions actId entry) : HeldByItself current later actId entry := by
  rcases tight with ⟨same, kept⟩ | added
  · rcases own with uncleared | added | carried
    · exact .inl (same ▸ uncleared)
    · exact .inr (.inl (same ▸ added))
    · obtain ⟨code, member⟩ := List.exists_mem_of_ne_nil _ carried
      exact .inr (.inr (List.ne_nil_of_mem (kept code member)))
  · exact .inr (.inl added)

/-- Every code a page held is still on it, or a decision added one. -/
theorem Tightened.onPage (made : Reviewed basis decisions actId entry page reviewed paged)
    (made' : Reviewed current later actId entry page reviewed' paged')
    (tight : Tightened basis current decisions later .page entry.pageId) :
    (∃ code, code ∈ paged'.added) ∨
      (∀ code ∈ paged.holdCodes, code ∈ paged'.holdCodes) ∧
      (∀ code ∈ paged'.cleared, code ∈ paged.cleared) ∧
      (∀ code ∈ paged.added, code ∈ paged'.added) ∧
      ∀ code ∈ paged.carried, code ∈ paged'.carried := by
  rcases tight with ⟨same, kept⟩ | added
  · have carried : ∀ code ∈ paged.carried, code ∈ paged'.carried := fun code member =>
      (made'.carried code).mpr (kept code ((made.carried code).mp member))
    have added : ∀ code ∈ paged.added, code ∈ paged'.added := fun code member =>
      (made'.added code).mpr (same ▸ (made.added code).mp member)
    refine .inr ⟨fun code member => ?_, fun code member => ?_, added, carried⟩
    · rw [made'.pageHoldCodes, same]
      rcases (made.pageHoldCodes code).mp member with standing | one | one
      · exact .inl standing
      · exact .inr (.inl (added code one))
      · exact .inr (.inr (carried code one))
    · rw [made.cleared, ← same]
      exact (made'.cleared code).mp member
  · obtain ⟨code, member⟩ := Option.ne_none_iff_exists'.mp added
    exact .inl ⟨code, (made'.added code).mpr member⟩

/-- A held page stays held when the decisions about it are only tightened. -/
theorem Reviewed.pageHeld_mono (made : Reviewed basis decisions actId entry page reviewed paged)
    (made' : Reviewed current later actId entry page reviewed' paged')
    (tight : Tightened basis current decisions later .page entry.pageId)
    (held : paged.holdCodes ≠ []) : paged'.holdCodes ≠ [] := by
  rcases tight.onPage made made' with ⟨code, added⟩ | ⟨kept, -⟩
  · exact List.ne_nil_of_mem ((made'.pageHoldCodes code).mpr (.inr (.inl added)))
  · obtain ⟨code, member⟩ := List.exists_mem_of_ne_nil _ held
    exact List.ne_nil_of_mem (kept code member)

/-- A held unit stays held when the decisions about it and its page are only tightened. -/
theorem Reviewed.held_mono (made : Reviewed basis decisions actId entry page reviewed paged)
    (made' : Reviewed current later actId entry page reviewed' paged')
    (own : Tightened basis current decisions later .unit actId)
    (tight : Tightened basis current decisions later .page entry.pageId)
    (held : reviewed.outcome = .heldForReview) : reviewed'.outcome = .heldForReview := by
  rw [made.outcome, reviewedOutcome_eq_held] at held
  obtain ⟨included, some_code⟩ := held
  have included' := own.included included
  obtain ⟨code, member⟩ := List.exists_mem_of_ne_nil _ some_code
  rcases own with ⟨same, kept⟩ | added
  · rcases tight.onPage made made' with ⟨code, added⟩ | ⟨holds, clears, adds, carries⟩
    · exact made'.held_of_code included'
        ((made'.holdCodes code).mpr (.inr (.inr (.inr (.inl added)))))
    · suffices left : code ∈ reviewed'.payload.holdCodes from made'.held_of_code included' left
      rw [made'.holdCodes, same]
      rcases (made.holdCodes code).mp member with one | one | one | one | one | one
      · exact .inl one
      · refine .inr (.inl ?_)
        simp only [pageHeld, List.mem_filter, List.mem_append, decide_eq_true_eq] at one ⊢
        refine ⟨?_, one.2⟩
        rcases one.1 with ⟨own, uncleared⟩ | raised
        · exact .inl ⟨own, fun cleared => uncleared (clears code cleared)⟩
        · obtain ⟨listed, unlisted⟩ := (made.raised code).mp raised
          exact .inr ((made'.raised code).mpr ⟨holds code listed, unlisted⟩)
      · exact .inr (.inr (.inl one))
      · exact .inr (.inr (.inr (.inl (adds code one))))
      · exact .inr (.inr (.inr (.inr (.inl (kept code one)))))
      · exact .inr (.inr (.inr (.inr (.inr (carries code one)))))
  · exact made'.held_of_itself included' (.inr (.inl added))

end Monotone

section Recorded

variable {hashing : Hashing Digest} {derived : DerivedReview Digest}
  {decisions : List (ApprovalRecord Digest)} {record : ApprovalRecord Digest}
  {basis current : Basis Digest} {before after : Applied Digest}

omit [LinearOrder Digest] in
theorem Distinguishes.left {decisions later : List (ApprovalRecord Digest)}
    (apart : Distinguishes hashing (decisions ++ later)) : Distinguishes hashing decisions where
  body one member other also :=
    apart.body one (List.mem_append_left _ member) other (List.mem_append_left _ also)
  correction one member other also :=
    apart.correction one (List.mem_append_left _ member) other (List.mem_append_left _ also)

/-- The units of a review are the same whatever is decided about them. -/
theorem currentBasis_units {one other : List (ApprovalRecord Digest)}
    (built : currentBasis hashing derived one = .ok basis)
    (also : currentBasis hashing derived other = .ok current) : current.units = basis.units := by
  obtain ⟨-, entries, rows, entered⟩ := currentBasis_eq_ok.mp built
  obtain ⟨-, entries', rows', entered'⟩ := currentBasis_eq_ok.mp also
  cases rows.symm.trans rows'
  obtain ⟨-, -, excluded, -, rfl⟩ := basisOver_eq_ok.mp entered
  obtain ⟨-, -, excluded', -, rfl⟩ := basisOver_eq_ok.mp entered'
  rfl

/-- One more decision that asks to hold, recorded on a review that accepts it. -/
structure Recorded (hashing : Hashing Digest) (derived : DerivedReview Digest)
    (decisions : List (ApprovalRecord Digest)) (record : ApprovalRecord Digest)
    (basis current : Basis Digest) (before after : Applied Digest) : Prop where
  apart : Distinguishes hashing (decisions ++ [record])
  built : currentBasis hashing derived decisions = .ok basis
  rebuilt : currentBasis hashing derived (decisions ++ [record]) = .ok current
  applied : applyDecisions hashing derived decisions = .ok before
  reapplied : applyDecisions hashing derived (decisions ++ [record]) = .ok after
  holding : ∃ review, record.review = some review ∧
    asksToHold review.scope review.decision = true

variable (recorded : Recorded hashing derived decisions record basis current before after)

include recorded

theorem Recorded.unitDigest (actId : String) :
    subjectDigest current .unit actId = subjectDigest basis .unit actId := by
  simp only [subjectDigest, currentBasis_units recorded.built recorded.rebuilt]

theorem Recorded.unitTightened (actId : String) :
    Tightened basis current decisions (decisions ++ [record]) .unit actId := by
  obtain ⟨review, block, holding⟩ := recorded.holding
  exact tightened_of_digest block holding (recorded.unitDigest actId)

/-- A page no exclusion of which is disputed keeps its entry, and with it its digest. -/
theorem Recorded.page_of_undisputed {pageId : String} (undisputed : ¬ Disputes basis record pageId) :
    current.pages.lookup pageId = basis.pages.lookup pageId := by
  have units := currentBasis_units recorded.built recorded.rebuilt
  have found := currentBasis_lookup_pages recorded.apart.left recorded.built pageId
  rw [found, currentBasis_lookup_pages recorded.apart recorded.rebuilt pageId, units]
  refine Option.map_congr fun first head => (pageEntry_congr fun act listed => ?_).symm
  rw [Option.mem_def.mp head, Option.map_some] at found
  by_cases bound : (reviewOf record .unit act).isSome ∧
      subjectDigest basis .unit act = some record.targetVersionHash
  · obtain ⟨review, block, holding⟩ := recorded.holding
    have added := added_of_bound decisions block holding bound.1
      ((recorded.unitDigest act).trans bound.2)
    have counted : excludedNow basis decisions act = false := by
      by_contra excluded
      exact undisputed ⟨act, _, found,
        List.mem_filter.mpr ⟨listed, Bool.not_eq_false _ ▸ excluded⟩, bound.1, bound.2⟩
    rw [counted]
    exact (decide_eq_false (kind_of_addedCode added).1).symm
  · rw [excludedNow, excludedNow, currentDecisions_unbound decisions (recorded.unitDigest act) bound]

theorem Recorded.pageTightened {pageId : String} (undisputed : ¬ Disputes basis record pageId) :
    Tightened basis current decisions (decisions ++ [record]) .page pageId := by
  obtain ⟨review, block, holding⟩ := recorded.holding
  refine tightened_of_digest block holding ?_
  rw [subjectDigest, subjectDigest, recorded.page_of_undisputed undisputed]

/-- What both applications leave of a unit and its page. -/
theorem Recorded.reviewed {actId : String} {entry : UnitEntry Digest}
    (found : basis.units.lookup actId = some entry) :
    (∃ page reviewed paged, basis.pages.lookup entry.pageId = some page ∧
      before.units.lookup actId = some reviewed ∧
      before.pages.lookup entry.pageId = some paged ∧
      Reviewed basis decisions actId entry page reviewed paged) ∧
    ∃ page reviewed paged, current.pages.lookup entry.pageId = some page ∧
      after.units.lookup actId = some reviewed ∧
      after.pages.lookup entry.pageId = some paged ∧
      Reviewed current (decisions ++ [record]) actId entry page reviewed paged := by
  have again : current.units.lookup actId = some entry := by
    rw [currentBasis_units recorded.built recorded.rebuilt]
    exact found
  exact ⟨applyDecisions_reviewed recorded.apart.left recorded.built recorded.applied found,
    applyDecisions_reviewed recorded.apart recorded.rebuilt recorded.reapplied again⟩

theorem Recorded.included {actId : String} {entry : UnitEntry Digest}
    (found : basis.units.lookup actId = some entry) (held : UnitHeld before actId) :
    agreed (currentDecisions current (decisions ++ [record]) .unit actId) ≠
      some (.one .exclude) := by
  obtain ⟨⟨page, reviewed, paged, -, foundUnit, -, made⟩, -⟩ := recorded.reviewed found
  obtain ⟨reviewed', foundHeld, held⟩ := held
  cases foundUnit.symm.trans foundHeld
  rw [made.outcome, reviewedOutcome_eq_held] at held
  exact (recorded.unitTightened actId).included held.1

/-- A unit that is not excluded is held after by any code left on it. -/
theorem Recorded.unitHeld {actId : String} {entry : UnitEntry Digest}
    (found : basis.units.lookup actId = some entry) (held : UnitHeld before actId)
    (left : ∀ page reviewed paged, after.pages.lookup entry.pageId = some paged →
      current.pages.lookup entry.pageId = some page →
      Reviewed current (decisions ++ [record]) actId entry page reviewed paged →
        ∃ code, code ∈ reviewed.payload.holdCodes) : UnitHeld after actId := by
  obtain ⟨-, page, reviewed, paged, onPage, foundUnit, foundPage, made⟩ := recorded.reviewed found
  obtain ⟨code, member⟩ := left page reviewed paged foundPage onPage made
  exact ⟨reviewed, foundUnit, made.held_of_code (recorded.included found held) member⟩

theorem Recorded.pageHeld_of_undisputed {pageId : String}
    (undisputed : ¬ Disputes basis record pageId) (held : PageHeld before pageId) :
    PageHeld after pageId := by
  obtain ⟨paged, foundPage, some_code⟩ := held
  obtain ⟨page, onPage⟩ := applyDecisions_page recorded.built recorded.applied foundPage
  obtain ⟨actId, entry, found, rfl⟩ :=
    currentBasis_unitOnPage recorded.apart.left recorded.built onPage
  obtain ⟨⟨page', reviewed, paged', onPage', -, foundPage', made⟩,
    other, reviewed', later, onOther, -, foundLater, made'⟩ := recorded.reviewed found
  cases foundPage.symm.trans foundPage'
  rw [recorded.page_of_undisputed undisputed] at onOther
  cases onPage'.symm.trans onOther
  exact ⟨later, foundLater,
    made.pageHeld_mono made' (recorded.pageTightened undisputed) some_code⟩

theorem Recorded.unitHeld_of_undisputed {actId : String} {entry : UnitEntry Digest}
    (found : basis.units.lookup actId = some entry)
    (undisputed : ¬ Disputes basis record entry.pageId) (held : UnitHeld before actId) :
    UnitHeld after actId := by
  obtain ⟨⟨page, reviewed, paged, onPage, foundUnit, foundPage, made⟩,
    other, reviewed', later, onOther, foundAfter, -, made'⟩ := recorded.reviewed found
  obtain ⟨reviewed'', foundHeld, held⟩ := held
  cases foundUnit.symm.trans foundHeld
  rw [recorded.page_of_undisputed undisputed] at onOther
  cases onPage.symm.trans onOther
  exact ⟨reviewed', foundAfter, made.held_mono made' (recorded.unitTightened actId)
    (recorded.pageTightened undisputed) held⟩

/-- The unit a decision that asks to hold is bound to is held, even one that was excluded. -/
theorem Recorded.unitHeld_of_bound {actId : String} {entry : UnitEntry Digest}
    (found : basis.units.lookup actId = some entry) (about : (reviewOf record .unit actId).isSome)
    (bound : subjectDigest basis .unit actId = some record.targetVersionHash) :
    UnitHeld after actId := by
  obtain ⟨review, block, holding⟩ := recorded.holding
  have added := added_of_bound decisions block holding about
    ((recorded.unitDigest actId).trans bound)
  obtain ⟨-, page, reviewed, paged, -, foundUnit, -, made⟩ := recorded.reviewed found
  exact ⟨reviewed, foundUnit,
    made.held_of_itself (kind_of_addedCode added).1 (.inr (.inl added))⟩

/-- A page's machine codes do not depend on which of its acts are excluded. -/
theorem Recorded.pageCodes {pageId : String} {page other : PageEntry Digest}
    (onPage : basis.pages.lookup pageId = some page)
    (onOther : current.pages.lookup pageId = some other) : other.pageCodes = page.pageCodes := by
  rw [currentBasis_lookup_pages recorded.apart.left recorded.built] at onPage
  rw [currentBasis_lookup_pages recorded.apart recorded.rebuilt,
    currentBasis_units recorded.built recorded.rebuilt] at onOther
  obtain ⟨first, head, rfl⟩ := Option.map_eq_some_iff.mp onPage
  rw [head, Option.map_some, Option.some_inj] at onOther
  rw [← onOther]
  rfl

theorem Recorded.heldThroughDispute {pageId : String} {page : PageEntry Digest}
    (onPage : basis.pages.lookup pageId = some page) :
    HeldThroughDispute basis current decisions (decisions ++ [record]) before after pageId page := by
  obtain ⟨first, entry, foundFirst, rfl⟩ :=
    currentBasis_unitOnPage recorded.apart.left recorded.built onPage
  obtain ⟨-, other, reviewed, paged, onOther, -, foundPage, made⟩ := recorded.reviewed foundFirst
  obtain ⟨current', checked, rebuilt, checks, -⟩ := applyDecisions_eq_ok.mp recorded.reapplied
  cases recorded.rebuilt.symm.trans rebuilt
  refine ⟨fun actId entry' found _ own held => ?_, fun undone code listed => ?_,
    fun unbound earlier => ?_⟩
  · obtain ⟨-, page', reviewed', paged', -, foundUnit, -, made'⟩ := recorded.reviewed found
    exact ⟨reviewed', foundUnit, made'.held_of_itself (recorded.included found held)
      ((recorded.unitTightened actId).heldByItself own)⟩
  · have uncleared : agreed (currentDecisions current (decisions ++ [record]) .page entry.pageId) ≠
        some (.one .noMissedAct) := fun agree => undone (unanimous_of_noEdit checks nofun agree)
    have standing : code ∈ standingCodes other :=
      List.mem_append_left _ (recorded.pageCodes onPage onOther ▸ listed)
    refine ⟨⟨paged, foundPage, List.ne_nil_of_mem
      ((made.pageHoldCodes code).mpr (.inl ⟨standing, uncleared⟩))⟩, ?_⟩
    intro actId entry' found same own held
    refine recorded.unitHeld found held fun page' reviewed' paged' found' _ made' => ⟨code, ?_⟩
    have left : code ∉ paged'.cleared := fun cleared =>
      uncleared (same ▸ ((made'.cleared code).mp cleared).2)
    rw [made'.holdCodes]
    right; left
    simp [pageHeld, own, left, recorded.included found held]
  · obtain ⟨earlier, member, review, about, holds⟩ := earlier
    obtain ⟨code, carries⟩ := Option.isSome_iff_exists.mp holds
    have stale : review.decision ∈
        staleDecisions current (decisions ++ [record]) .page entry.pageId := by
      refine mem_staleDecisions.mpr
        ⟨earlier, List.mem_append_left _ member, review, about, fun bound => ?_, rfl⟩
      have decided : (review.decision, review.correction) ∈
          currentDecisions current (decisions ++ [record]) .page entry.pageId :=
        mem_currentDecisions.mpr
          ⟨earlier, List.mem_append_left _ member, review, about, bound, rfl⟩
      rw [unbound] at decided
      exact List.not_mem_nil decided
    have carried : code ∈ carriedCodes current (decisions ++ [record]) .page entry.pageId := by
      rw [carriedCodes, if_pos unbound]
      exact List.mem_filterMap.mpr ⟨_, stale, carries⟩
    refine ⟨⟨paged, foundPage, List.ne_nil_of_mem ((made.pageHoldCodes code).mpr
      (.inr (.inr ((made.carried code).mpr carried))))⟩, ?_⟩
    intro actId entry' found same held
    refine recorded.unitHeld found held fun page' reviewed' paged' found' _ made' => ⟨code, ?_⟩
    rw [made'.holdCodes]
    exact .inr (.inr (.inr (.inr (.inr ((made'.carried code).mpr (same ▸ carried))))))

end Recorded

/-- Recording a decision that only asks to hold lets nothing through, but on a page where it
disputes an act's exclusion: there the act is held, and so is all that a hold of its own, a
machine code no new page decision clears or an earlier page hold still holds. -/
theorem applyDecisions_holding {hashing : Hashing Digest} {derived : DerivedReview Digest}
    {decisions : List (ApprovalRecord Digest)} {record : ApprovalRecord Digest}
    {basis current : Basis Digest} {before after : Applied Digest}
    (recorded : Recorded hashing derived decisions record basis current before after) :
    (∀ pageId, ¬ Disputes basis record pageId → PageHeld before pageId → PageHeld after pageId) ∧
    (∀ actId entry, basis.units.lookup actId = some entry →
      ¬ Disputes basis record entry.pageId → UnitHeld before actId → UnitHeld after actId) ∧
    (∀ actId entry, basis.units.lookup actId = some entry → (reviewOf record .unit actId).isSome →
      subjectDigest basis .unit actId = some record.targetVersionHash → UnitHeld after actId) ∧
    ∀ pageId page, basis.pages.lookup pageId = some page →
      HeldThroughDispute basis current decisions (decisions ++ [record]) before after pageId page :=
  ⟨fun _ => recorded.pageHeld_of_undisputed, fun _ _ => recorded.unitHeld_of_undisputed,
    fun _ _ => recorded.unitHeld_of_bound, fun _ _ => recorded.heldThroughDispute⟩

section Sample

def holdSecondAct : ApprovalRecord String :=
  sampleDecision .unit "act-2" .hold
    (writtenOut.payload (sampleUnit "act-2" "act" [] [] []).payload)

/-- A hold of an accepted act holds it, and lets through nothing that was held. -/
theorem applyDecisions_holding_secondAct :
    ∃ before after, applyDecisions writtenOut heldReview [] = .ok before ∧
      applyDecisions writtenOut heldReview ([] ++ [holdSecondAct]) = .ok after ∧
      (UnitHeld before "act-1" → UnitHeld after "act-1") ∧ UnitHeld after "act-2" := by
  obtain ⟨before, applied, -⟩ :=
    exists_ok_of_any (applyDecisions writtenOut heldReview []) (fun _ => true) (by decide +kernel)
  obtain ⟨after, reapplied, -⟩ := exists_ok_of_any
    (applyDecisions writtenOut heldReview ([] ++ [holdSecondAct])) (fun _ => true)
    (by decide +kernel)
  obtain ⟨basis, built, facts⟩ := exists_ok_of_any (currentBasis writtenOut heldReview [])
    (fun basis => (basis.units.lookup "act-1").isSome ∧ (basis.units.lookup "act-2").isSome ∧
      (∀ page ∈ basis.pages, page.2.excludedActs = []) ∧
      subjectDigest basis .unit "act-2" = some holdSecondAct.targetVersionHash)
    (by decide +kernel)
  obtain ⟨current, rebuilt, -⟩ := exists_ok_of_any
    (currentBasis writtenOut heldReview ([] ++ [holdSecondAct])) (fun _ => true)
    (by decide +kernel)
  obtain ⟨first, second, noneExcluded, bound⟩ := of_decide_eq_true facts
  obtain ⟨entry, foundFirst⟩ := Option.isSome_iff_exists.mp first
  obtain ⟨other, foundSecond⟩ := Option.isSome_iff_exists.mp second
  have apart : Distinguishes writtenOut ([] ++ [holdSecondAct]) := by
    constructor
    · simp
    · simp only [List.nil_append, List.mem_singleton, forall_eq]
      nofun
  have recorded : Recorded writtenOut heldReview [] holdSecondAct basis current before after :=
    ⟨apart, built, rebuilt, applied, reapplied, _, rfl, rfl⟩
  obtain ⟨-, units, disputed, -⟩ := applyDecisions_holding recorded
  refine ⟨before, after, applied, reapplied, units "act-1" entry foundFirst ?_,
    disputed "act-2" other foundSecond rfl bound⟩
  rintro ⟨act, page, onPage, excluded, -⟩
  rw [noneExcluded _ (mem_of_lookup onPage)] at excluded
  exact List.not_mem_nil excluded

/-- An excluded act beside an entry that is none, and a hold of the act recorded after. -/
def excludedReview : DerivedReview String :=
  ⟨"run-1", [sampleUnit "act-1" "act" [] [] [], sampleUnit "note-1" "other" [] [] []]⟩

def excludeAct : ApprovalRecord String :=
  sampleDecision .unit "act-1" .exclude
    (writtenOut.payload (sampleUnit "act-1" "act" [] [] []).payload)

def holdAct : ApprovalRecord String :=
  sampleDecision .unit "act-1" .hold
    (writtenOut.payload (sampleUnit "act-1" "act" [] [] []).payload)

/-- A hold that disputes the page's only exclusion takes away the hold of a page with no act. -/
theorem applyDecisions_disputedExclusion :
    (∃ before, applyDecisions writtenOut excludedReview [excludeAct] = .ok before ∧
      (before.units.lookup "note-1").map UnitResult.outcome = some .heldForReview ∧
      (before.pages.lookup "page-1").map PageResult.holdCodes = some [noActOnPageHold]) ∧
    ∃ after, applyDecisions writtenOut excludedReview ([excludeAct] ++ [holdAct]) = .ok after ∧
      (after.units.lookup "note-1").map UnitResult.outcome = some .accepted ∧
      (after.pages.lookup "page-1").map PageResult.holdCodes = some [] := by
  constructor
  · obtain ⟨before, applied, held⟩ := exists_ok_of_any
      (applyDecisions writtenOut excludedReview [excludeAct]) (fun before =>
        (before.units.lookup "note-1").map UnitResult.outcome = some .heldForReview ∧
        (before.pages.lookup "page-1").map PageResult.holdCodes = some [noActOnPageHold])
      (by decide +kernel)
    exact ⟨before, applied, of_decide_eq_true held⟩
  · obtain ⟨after, applied, released⟩ := exists_ok_of_any
      (applyDecisions writtenOut excludedReview ([excludeAct] ++ [holdAct])) (fun after =>
        (after.units.lookup "note-1").map UnitResult.outcome = some .accepted ∧
        (after.pages.lookup "page-1").map PageResult.holdCodes = some [])
      (by decide +kernel)
    exact ⟨after, applied, of_decide_eq_true released⟩

end Sample

end Verbatus.Review
