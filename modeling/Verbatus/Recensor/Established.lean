import Verbatus.Recensor.Decide
import Verbatus.Review.Published

namespace Verbatus.Recensor

open Library Library.Checked Refusal Contracts Review

variable {Digest : Type}

/-- The plan is this stage's own review of its row, from some evidence of the row's page. -/
def PlannedReview (flagCodes : List String) (plan : Plan Digest) : Prop :=
  ∃ evidence, plan.outcome = (planReview Digest plan.act evidence flagCodes).1 ∧
    plan.review = (planReview Digest plan.act evidence flagCodes).2

/-- The machine released exactly the row's codes, each releasable, on a confirmed no-act page. -/
structure ReleasedByMachine (row : CountedRow) (review : PageReview Digest) : Prop where
  confirmed : ∃ confirmed, review.confirmation = some confirmed ∧ confirmed.confirmed = true ∧
    confirmed.confirms = "no-act-on-page"
  released : review.release.map Release.holdCodes = some row.holdCodes
  someCode : row.holdCodes ≠ []
  releasable : ∀ code ∈ row.holdCodes, code ∈ releasableReadingHolds

section Plan

variable {flagCodes : List String} {act : CountedRow} {evidence : Evidence}

/-- A status that confirms, or a rule that does not apply. -/
def Confirms (accounting : Accounting) (rule : PageAccounting.RuleName) : Prop :=
  (∃ status ∈ accounting.rules.lookup rule, status ∈ confirming) ∨
    rule ∈ rulesNotApplying accounting

/-- A page of other entries is confirmed when each of the four rules passes or does not apply. -/
theorem confirmation_confirmed {accounting : Accounting} {witnesses : List WitnessLook}
    {census : List String} :
    (confirmation accounting witnesses false census).confirmed = true ↔
      ∀ rule ∈ noActRules, Confirms accounting rule := by
  simp only [confirmation, Bool.false_eq_true, if_false, List.append_nil, decide_eq_true_eq,
    List.map_eq_nil_iff, List.filter_eq_nil_iff, List.forall_mem_map, Confirms, not_and_or,
    not_forall, not_not, exists_prop]

theorem releaseOf_eq_some {confirmed : Option Confirmation} {own : List OwnFinding}
    {release : Release} (released : releaseOf act confirmed own = some release) :
    ∃ found, confirmed = some found ∧ found.confirmed = true ∧ own = [] ∧ act.holdCodes ≠ [] ∧
      (∀ code ∈ act.holdCodes, code ∈ releasableHolds) ∧ release.holdCodes = act.holdCodes := by
  obtain ⟨found, some_found, made⟩ := Option.bind_eq_some_iff.mp released
  split_ifs at made with holds
  obtain ⟨confirms, alone, someCode, releasable⟩ := holds
  rw [Option.some_inj] at made
  exact ⟨found, some_found, confirms, alone, someCode, releasable, made ▸ rfl⟩

/-- A reading this stage accepts is held by no code, or released by name. -/
theorem planReview_accepted (read : act.perlectio.isSome)
    (accepted : (planReview Digest act evidence flagCodes).1 = .accepted) :
    (act.holdCodes = [] ∧ (planReview Digest act evidence flagCodes).2.release = none) ∨
      ReleasedByMachine act (planReview Digest act evidence flagCodes).2 := by
  have unheld : (planReview Digest act evidence flagCodes).2.holdCodes = [] := by
    by_contra held
    have outcome : (planReview Digest act evidence flagCodes).1 = .heldForReview := if_pos held
    rw [outcome] at accepted
    cases accepted
  cases released : (planReview Digest act evidence flagCodes).2.release with
  | none =>
      left
      refine ⟨?_, rfl⟩
      have none_left := sortedSet_eq_nil.mp unheld
      have kept := (List.append_eq_nil_iff.mp none_left).1
      rwa [show releaseOf act _ _ = none from released] at kept
  | some release =>
      right
      obtain ⟨found, some_found, confirms, -, someCode, releasable, same⟩ :=
        releaseOf_eq_some released
      have reading := act.notPageBlank read
      have named : found.confirms = "no-act-on-page" := by
        simp only [measure, reading, decide_false] at some_found
        split_ifs at some_found
        rw [← Option.some_inj.mp some_found]
        rfl
      refine ⟨⟨found, some_found, confirms, named⟩, ?_, someCode, ?_⟩
      · rw [released, Option.map_some, same]
      · intro code member
        have either := releasable code member
        simp only [releasableHolds, List.mem_cons, List.not_mem_nil, or_false] at either
        rcases either with rfl | rfl
        · exact absurd member (act.pageBlankHold_notMem read)
        · exact .head _

/-- A reading this stage does not accept is released by nothing. -/
theorem planReview_unreleased (read : act.perlectio.isSome)
    (unaccepted : (planReview Digest act evidence flagCodes).1 ≠ .accepted) :
    (planReview Digest act evidence flagCodes).2.release = none := by
  by_contra released
  obtain ⟨release, made⟩ := Option.ne_none_iff_exists'.mp released
  obtain ⟨-, -, -, alone, -⟩ := releaseOf_eq_some made
  apply unaccepted
  have codes : (planReview Digest act evidence flagCodes).2.holdCodes = [] := by
    refine sortedSet_eq_nil.mpr (List.append_eq_nil_iff.mpr ⟨?_, ?_⟩)
    · rw [show releaseOf act _ _ = some release from made]
      rfl
    · rw [alone]
      rfl
  have reading := act.notPageBlank read
  change derivedOutcome (planReview Digest act evidence flagCodes).2.holdCodes act.unitClass = _
  rw [codes, derivedOutcome, if_neg (not_not_intro rfl), if_neg reading]

end Plan

variable [LinearOrder Digest]

/-- The review's operator block clears every code of the row, and nothing refuses the override. -/
structure ClearedByOperator (row : CountedRow) (review : RecordedReview Digest) : Prop where
  cleared : ∃ block, review.payload.operatorReview = some block ∧
    ∀ code ∈ row.holdCodes, code ∈ block.cleared.unit ∨ code ∈ block.cleared.page
  overridable : ∃ correction, operatorCorrection row review none = .ok correction ∧
    overrideRefusal row correction.isSome = none

/-- What a later stage checks of an accepted review, with the decisions its pass applied at hand
or not, and the sealed route its row's hold codes were lifted by. -/
structure Establishable (row : CountedRow) (review : RecordedReview Digest)
    (hashes : List Digest) : Prop where
  stands : ∀ applied, applied = none ∨ applied = some hashes →
    ∃ found, requireEstablishable row review applied = .ok found
  sealedRoute : row.holdCodes ≠ [] →
    ReleasedByMachine row review.payload ∨ ClearedByOperator row review

section Stands

variable {row : CountedRow} {review : RecordedReview Digest}

/-- A machine release of exactly the row's codes is enough. -/
theorem requireEstablishable_released (read : row.perlectio.isSome)
    (accepted : review.outcome = .accepted) (released : ReleasedByMachine row review.payload)
    (applied : Option (List Digest)) : requireEstablishable row review applied = .ok none := by
  obtain ⟨release, some_release, same⟩ := Option.map_eq_some_iff.mp released.released
  have names : releasesRow row review.payload.release = true := by
    rw [releasesRow, decide_eq_true_eq, row.sorted_holdCodes read]
    exact ⟨released.someCode, released.releasable, released.released⟩
  have named : review.payload.release ≠ none := by
    rw [some_release]
    exact Option.some_ne_none release
  unfold requireEstablishable
  rw [require_bind_of accepted, require_bind_of read]
  simp only [named, and_false, if_false, ok_bind, Option.isSome_none, Bool.false_eq_true]
  rw [require_bind_of names]
  rfl

/-- A reading no code holds needs no release. -/
theorem requireEstablishable_unheld (read : row.perlectio.isSome)
    (accepted : review.outcome = .accepted) (unheld : row.holdCodes = [])
    (unreleased : review.payload.release = none) (applied : Option (List Digest)) :
    requireEstablishable row review applied = .ok none := by
  have disposed : row.disposition = .read := by
    cases disposition : row.disposition with
    | read => rfl
    | held => exact absurd unheld (row.held.mp disposition)
  unfold requireEstablishable
  rw [require_bind_of accepted, require_bind_of read, if_pos ⟨disposed, unreleased⟩]

/-- A held reading no machine released stands only where an operator block clears its every code. -/
theorem cleared_of_requireEstablishable {applied : Option (List Digest)}
    {found : Option (Override Digest)} (unreleased : review.payload.release = none)
    (held : row.holdCodes ≠ [])
    (stands : requireEstablishable row review applied = .ok found) :
    ∃ block, review.payload.operatorReview = some block ∧
      ∀ code ∈ row.holdCodes, code ∈ block.cleared.unit ∨ code ∈ block.cleared.page := by
  have disposed : row.disposition ≠ .read := by
    intro read
    have unheld := mt row.held.mpr (by rw [read]; decide)
    exact unheld held
  obtain ⟨-, stands⟩ := require_bind_eq_ok.mp stands
  obtain ⟨-, stands⟩ := require_bind_eq_ok.mp stands
  rw [if_neg (fun both => disposed both.1)] at stands
  obtain ⟨override, made, stands⟩ := bind_eq_ok.mp stands
  rw [if_pos unreleased] at made
  have overridden : override.isSome := by
    by_contra none_made
    rw [if_neg none_made] at stands
    obtain ⟨names, -⟩ := require_bind_eq_ok.mp stands
    simp [releasesRow, unreleased] at names
  obtain ⟨override, rfl⟩ := Option.isSome_iff_exists.mp overridden
  unfold operatorOverride at made
  cases block : review.payload.operatorReview with
  | none => simp [block] at made
  | some block' =>
      simp only [block] at made
      split_ifs at made with absent cleared
      · cases made
      · exact ⟨block', rfl, fun code member => cleared code (mem_sortedSet.mpr member)⟩
      · cases made

/-- Decisions a pass applied are as good as any, once the block's current ones are among them. -/
theorem decisionsMaking_applied {decisions : List (Summary Digest)} {hashes : List Digest}
    (applied : ∀ summary ∈ decisions, summary.state = .current → summary.decisionHash ∈ hashes)
    (scope : ReviewScope) (subject : String) (decision : ReviewDecision) (basis : Digest) :
    decisionsMaking decisions scope subject decision basis (some hashes) =
      decisionsMaking decisions scope subject decision basis none := by
  unfold decisionsMaking
  congr 1
  refine List.filter_congr fun summary member => ?_
  have listed := applied summary member
  simp only [Option.mem_some, forall_eq', decide_eq_decide]
  tauto

/-- A later stage that knows what the pass applied comes to what the pass itself came to. -/
theorem requireEstablishable_applied {hashes : List Digest}
    (applied : ∀ block, review.payload.operatorReview = some block → ∀ summary ∈ block.decisions,
      summary.state = .current → summary.decisionHash ∈ hashes) :
    requireEstablishable row review (some hashes) = requireEstablishable row review none := by
  cases block : review.payload.operatorReview with
  | none => simp [requireEstablishable, operatorOverride, block]
  | some block' =>
      have making := decisionsMaking_applied (applied block' block)
      simp only [requireEstablishable, operatorOverride, operatorCorrection, overriding, block,
        making]

end Stands

/-- Nothing was refused exactly where the attempt succeeded. -/
theorem fatalMessage_eq_none {α : Type} {attempt : Except Refusal α} :
    fatalMessage attempt = .ok none ↔ ∃ value, attempt = .ok value := by
  cases attempt with
  | ok value => simp [fatalMessage]
  | error raised => cases raised <;> simp [fatalMessage]

section Decided

variable {hashing : Hashing Digest} {written : ReviewFacts → String}
  {runId : String} {stored : List (StoredDecision Digest)} {planned : List (Plan Digest)}
  {result : Applied Digest} {plan : Plan Digest} {final : Decided Digest} {unit : UnitResult Digest}

/-- The unit's review is what the decisions make of it. -/
structure Completes (plan : Plan Digest) (unit : UnitResult Digest) (final : Decided Digest) :
    Prop where
  outcome : final.outcome = unit.outcome
  review : final.review = (plan.review.decided unit.payload).queued
  reheld : final.reheld = none
  checked : unit.outcome = .accepted → plan.outcome ≠ .accepted →
    notEstablishable plan.act (plan.review.decided unit.payload) = .ok none

/-- The decisions would accept the unit, and its reading keeps it held. -/
structure KeepsHeld (plan : Plan Digest) (unit : UnitResult Digest) (final : Decided Digest) :
    Prop where
  accepts : unit.outcome = .accepted
  machineHeld : plan.outcome ≠ .accepted
  held : ∃ refusal held, readingHeld plan.act (plan.review.decided unit.payload) refusal = .ok held ∧
    final.review = held.queued ∧ final.reheld = some held.holdCodes
  outcome : final.outcome = .heldForReview

/-- One decided plan is one or the other. -/
theorem decidePlan_eq_ok [ToString Digest] (decided : decidePlan stored result plan = .ok final) :
    ∃ unit, result.units.lookup plan.act.actId = some unit ∧ final.act = plan.act ∧
      (Completes plan unit final ∨ KeepsHeld plan unit final) := by
  unfold decidePlan at decided
  cases found : result.units.lookup plan.act.actId with
  | none => simp [found] at decided
  | some unit =>
      rw [found] at decided
      obtain ⟨approvalRef, -, decided⟩ := bind_eq_ok.mp decided
      obtain ⟨refusal, refused, decided⟩ := bind_eq_ok.mp decided
      refine ⟨unit, rfl, ?_⟩
      cases refusal with
      | none =>
          cases decided
          refine ⟨rfl, .inl ⟨rfl, rfl, rfl, fun accepts machineHeld => ?_⟩⟩
          rwa [if_pos ⟨accepts, machineHeld⟩] at refused
      | some refusal =>
          obtain ⟨held, made, decided⟩ := bind_eq_ok.mp decided
          cases decided
          by_cases checked : unit.outcome = .accepted ∧ plan.outcome ≠ .accepted
          · exact ⟨rfl, .inr ⟨checked.1, checked.2, ⟨refusal, held, made, rfl, rfl⟩, rfl⟩⟩
          · rw [if_neg checked] at refused
            cases refused

/-- An accepted pass over some decisions applied them and decided each plan in order. -/
theorem decideReviews_eq_ok [ToString Digest] {decided : List (Decided Digest)}
    {record : Option (ReviewDecisions Digest)} (some_stored : stored ≠ [])
    (accepted : decideReviews hashing written runId stored planned = .ok (decided, record)) :
    ∃ result, applyDecisions hashing (derivedReview written runId planned)
        (stored.map StoredDecision.record) = .ok result ∧
      List.Forall₂ (fun plan final => decidePlan stored result plan = .ok final) planned decided ∧
      record = some (decisionsRecord result decided) := by
  rw [decideReviews, if_neg some_stored] at accepted
  obtain ⟨result, applied, accepted⟩ := bind_eq_ok.mp accepted
  obtain ⟨each, traversed, accepted⟩ := bind_eq_ok.mp accepted
  cases accepted
  exact ⟨result, applied, mapM_eq_ok.mp traversed, rfl⟩

/-- A block the decisions wrote names, as current, only decisions they applied. -/
theorem applied_of_block {derived : DerivedReview Digest} {decisions : List (ApprovalRecord Digest)}
    (accepted : applyDecisions hashing derived decisions = .ok result)
    {source : DerivedUnit Digest} (member : source ∈ derived.units)
    (found : result.units.lookup source.actId = some unit) {block : OperatorReview Digest}
    (written : unit.payload.operatorReview = some block) :
    ∀ summary ∈ block.decisions, summary.state = .current → summary ∈ result.applied := by
  obtain ⟨basis, checked, built, -, rfl⟩ := applyDecisions_eq_ok.mp accepted
  obtain ⟨entry, page, described⟩ := currentBasis_described built member
  rw [lookup_appliedTo_units built checked member described, Option.some_inj] at found
  subst found
  unfold unitResult at written
  dsimp only at written
  split_ifs at written with untouched
  · rw [(unitBasis_entryOf described.row).2.unreviewed] at written
    cases written
  · rw [reviewedPayload, Option.some_inj] at written
    subst written
    intro summary listed current
    rw [sortSummaries, (List.perm_insertionSort _ _).mem_iff, List.mem_append] at listed
    refine List.mem_filter.mpr ⟨?_, decide_eq_true current⟩
    rcases listed with own | onPage
    · exact (List.mem_filter.mp own).1
    · exact (List.mem_filter.mp onPage).1

/-- What is checked of a unit the machine held before its decisions may accept it. -/
theorem notEstablishable_eq_none {act : CountedRow} {review : PageReview Digest}
    (read : act.perlectio.isSome) (silent : notEstablishable act review = .ok none) :
    (∃ correction, operatorCorrection act ⟨.accepted, review⟩ none = .ok correction ∧
      (act.holdCodes ≠ [] → overrideRefusal act correction.isSome = none)) ∧
    ∃ found, requireEstablishable act ⟨.accepted, review⟩ none = .ok found := by
  unfold notEstablishable at silent
  rw [if_neg (Option.isSome_iff_ne_none.mp read)] at silent
  obtain ⟨correction, corrected, silent⟩ := bind_eq_ok.mp silent
  dsimp only at silent
  generalize refusing : (if act.holdCodes ≠ [] ∨ correction.isSome then
    overrideRefusal act correction.isSome else none) = refusal at silent
  by_cases refused : refusal.isSome
  · rw [if_pos refused, Except.ok.injEq] at silent
    simp [silent] at refused
  · rw [if_neg refused] at silent
    refine ⟨⟨correction, corrected, fun held => ?_⟩, fatalMessage_eq_none.mp silent⟩
    rw [if_pos (.inl held)] at refusing
    rw [refusing]
    exact Option.not_isSome_iff_eq_none.mp refused

/-- A reading the machine accepts can be established, whatever else its review then carries. -/
theorem PlannedReview.establishable {flagCodes : List String} (made : PlannedReview flagCodes plan)
    (read : plan.act.perlectio.isSome) (accepted : plan.outcome = .accepted)
    {review : RecordedReview Digest} (outcome : review.outcome = .accepted)
    (release : review.payload.release = plan.review.release)
    (confirmed : review.payload.confirmation = plan.review.confirmation) (hashes : List Digest) :
    Establishable plan.act review hashes := by
  obtain ⟨evidence, outcomes, reviews⟩ := made
  rw [outcomes] at accepted
  rw [reviews] at release confirmed
  rcases planReview_accepted read accepted with ⟨unheld, unreleased⟩ | released
  · refine ⟨fun applied _ => ⟨none, ?_⟩, fun held => absurd unheld held⟩
    exact requireEstablishable_unheld read outcome unheld (release.trans unreleased) applied
  · have kept : ReleasedByMachine plan.act review.payload :=
      ⟨by rw [confirmed]; exact released.confirmed, by rw [release]; exact released.released,
        released.someCode, released.releasable⟩
    refine ⟨fun applied _ => ⟨none, ?_⟩, fun _ => .inl kept⟩
    exact requireEstablishable_released read outcome kept applied

/-- A review's place in the queue is no part of what is checked of it. -/
theorem Establishable.queued {row : CountedRow} {outcome : Outcome} {review : PageReview Digest}
    {hashes : List Digest} (fit : Establishable row ⟨outcome, review⟩ hashes) :
    Establishable row ⟨outcome, review.queued⟩ hashes := by
  refine ⟨fit.stands, fun held => ?_⟩
  rcases fit.sealedRoute held with released | cleared
  · exact .inl ⟨released.confirmed, released.released, released.someCode, released.releasable⟩
  · exact .inr ⟨cleared.cleared, cleared.overridable⟩

/-- A unit its decisions accept is established where nothing speaks against it. -/
theorem Completes.establishable {flagCodes : List String} (made : PlannedReview flagCodes plan)
    (read : plan.act.perlectio.isSome) (completes : Completes plan unit final)
    (accepted : unit.outcome = .accepted) {hashes : List Digest}
    (applied : ∀ block, unit.payload.operatorReview = some block → ∀ summary ∈ block.decisions,
      summary.state = .current → summary.decisionHash ∈ hashes) :
    Establishable plan.act ⟨.accepted, plan.review.decided unit.payload⟩ hashes := by
  by_cases machine : plan.outcome = .accepted
  · exact made.establishable read machine rfl rfl rfl hashes
  · obtain ⟨corrected, found, stands⟩ :=
      notEstablishable_eq_none read (completes.checked accepted machine)
    refine ⟨fun at_hand => ?_, fun held => .inr ⟨?_, ?_⟩⟩
    · rintro (rfl | rfl)
      · exact ⟨found, stands⟩
      · exact ⟨found, (requireEstablishable_applied applied).trans stands⟩
    · obtain ⟨evidence, outcomes, reviews⟩ := made
      rw [outcomes] at machine
      have unreleased : plan.review.release = none := by
        rw [reviews]
        exact planReview_unreleased read machine
      exact cleared_of_requireEstablishable unreleased held stands
    · obtain ⟨correction, found, overridable⟩ := corrected
      exact ⟨correction, found, overridable held⟩

/-- A unit that stays held under the reading's code, with every code of its row. -/
structure HeldByReading (final : Decided Digest) : Prop where
  outcome : final.outcome = .heldForReview
  named : readingHeldCode ∈ final.review.holdCodes
  rowCodes : ∀ code ∈ final.act.holdCodes, code ∈ final.review.holdCodes

omit [LinearOrder Digest] in
theorem KeepsHeld.heldByReading (same : final.act = plan.act)
    (keeps : KeepsHeld plan unit final) : HeldByReading final := by
  obtain ⟨refusal, held, made, review, -⟩ := keeps.held
  unfold readingHeld at made
  cases block : (plan.review.decided unit.payload).operatorReview with
  | none => simp [block] at made
  | some block' =>
      simp only [block, Except.ok.injEq] at made
      subst made
      refine ⟨keeps.outcome, ?_, ?_⟩
      · simp [review, PageReview.queued]
      · intro code member
        rw [same] at member
        simp [review, PageReview.queued, member]

/-- Every reading the pass accepts can be established by what follows it, and only by a sealed
route; a reading its decisions would accept and that cannot stays held. -/
theorem decideReviews_establishable [ToString Digest] {flagCodes : List String}
    (reviewed : ∀ plan ∈ planned, PlannedReview flagCodes plan) {decided : List (Decided Digest)}
    {record : Option (ReviewDecisions Digest)}
    (accepted : decideReviews hashing written runId stored planned = .ok (decided, record)) :
    List.Forall₂ (fun plan final => final.act = plan.act ∧ (plan.act.perlectio.isSome →
      (final.outcome = .accepted →
        Establishable plan.act ⟨final.outcome, final.review⟩ (appliedDecisionHashes record)) ∧
      ∀ result unit, stored ≠ [] →
        applyDecisions hashing (derivedReview written runId planned)
          (stored.map StoredDecision.record) = .ok result →
        result.units.lookup plan.act.actId = some unit → unit.outcome = .accepted →
        ¬ Establishable plan.act ⟨.accepted, plan.review.decided unit.payload⟩
          (appliedDecisionHashes record) → HeldByReading final)) planned decided := by
  by_cases none_stored : stored = []
  · rw [decideReviews, if_pos none_stored] at accepted
    cases accepted
    rw [List.forall₂_map_right_iff, List.forall₂_same]
    intro plan member
    refine ⟨rfl, fun read => ⟨fun accepts => ?_, fun _ _ some_stored => absurd none_stored some_stored⟩⟩
    exact (reviewed plan member).establishable read accepts accepts rfl rfl _
  · obtain ⟨result, applied, each, rfl⟩ := decideReviews_eq_ok none_stored accepted
    refine forall₂_imp_of_mem each fun plan member final _ decides => ?_
    obtain ⟨unit, found, same, ended⟩ := decidePlan_eq_ok decides
    refine ⟨same, fun read => ?_⟩
    have listed := List.mem_map_of_mem (f := Plan.derivedUnit written) member
    have hashes : ∀ block, unit.payload.operatorReview = some block →
        ∀ summary ∈ block.decisions, summary.state = .current →
          summary.decisionHash ∈ appliedDecisionHashes (some (decisionsRecord result decided)) :=
      fun block reviewed summary inside current =>
        List.mem_map_of_mem (applied_of_block applied listed found reviewed summary inside current)
    refine ⟨fun accepts => ?_, fun result' unit' _ applied' found' accepts' unfit => ?_⟩
    · rcases ended with completes | keeps
      · rw [completes.outcome] at accepts
        have fit := completes.establishable (reviewed plan member) read accepts hashes
        rw [completes.outcome, completes.review, accepts]
        exact fit.queued
      · rw [keeps.outcome] at accepts
        cases accepts
    · cases applied.symm.trans applied'
      cases found.symm.trans found'
      rcases ended with completes | keeps
      · exact absurd (completes.establishable (reviewed plan member) read accepts' hashes) unfit
      · exact keeps.heldByReading same

end Decided

section Sample

/-- An entry of the first page, read whole. -/
def sampleRow (n : ℤ) (reading : Perlectio) : CountedRow where
  actId := s!"act-{n}"
  actKey := PageEdges.entryKey 1 n
  pageId := "page-1"
  pageOrdinal := 1
  n := some n
  kind := .act
  unitClass := readingClass
  disposition := if sortedSet (reading.holds ++ reading.pageHolds) = [] then .read else .held
  regionRef := some "region"
  readingRef := "reading"
  accountingRef := "accounting"
  perlectio := some reading
  holdCodes := sortedSet (reading.holds ++ reading.pageHolds)
  flagCodes := []
  continuesFromPreviousPage := some false
  continuesToNextPage := some false
  readingAttempt := some 1
  keyed := by
    intro number same
    cases same
    rfl
  classed := by simp [readingClasses]
  held := by split_ifs <;> simp_all
  codes := by
    intro found same
    cases same
    exact ⟨[], .inl rfl, by simp⟩

def doubtfulReading : Perlectio := ⟨"perlectio", [doubtShareHigh], [], by decide, by decide⟩

/-- A page its two witnesses read, with its ink checked. -/
def sampleEvidence : Evidence where
  accounting := ⟨[(.d, .pass), (.e, .pass), (.f, .pass), (.i, .pass)], 4, []⟩
  witnesses := []
  census := []
  coverage := ⟨2, 2, [("read", 2)], [], 0, 0, ⟨0, 0, 0⟩, false⟩
  pageCoverage := ⟨[1], [], []⟩
  assessment := none
  offEdge := []
  recoveriesUsed := 0

def samplePlan (act : CountedRow) : Plan String :=
  let planned := planReview String act sampleEvidence []
  ⟨act, planned.1, planned.2, []⟩

def storedRelease : StoredDecision String :=
  let record := sampleDecision .unit "act-1" .release
    (writtenOut.payload ((samplePlan (sampleRow 1 doubtfulReading)).review.payload
      fun _ => ""))
  ⟨"receipts/release.json", writtenOut.record record, record⟩

/-- A reading released by a person is accepted, and established by what follows. -/
theorem decideReviews_establishable_release : ∃ decided record,
    decideReviews writtenOut (fun _ => "") "run-1" [storedRelease]
      [samplePlan (sampleRow 1 doubtfulReading)] = .ok (decided, record) ∧
    ∀ final ∈ decided, final.outcome = .accepted ∧
      Establishable final.act ⟨final.outcome, final.review⟩ (appliedDecisionHashes record) := by
  obtain ⟨⟨decided, record⟩, accepted, outcomes⟩ := exists_ok_of_any
    (decideReviews writtenOut (fun _ => "") "run-1" [storedRelease]
      [samplePlan (sampleRow 1 doubtfulReading)])
    (fun made => made.1.all fun final => final.outcome = .accepted) (by decide +kernel)
  refine ⟨decided, record, accepted, fun final member => ?_⟩
  have reviewed : ∀ plan ∈ [samplePlan (sampleRow 1 doubtfulReading)], PlannedReview [] plan := by
    intro plan listed
    rw [List.mem_singleton] at listed
    subst listed
    exact ⟨sampleEvidence, rfl, rfl⟩
  have each := decideReviews_establishable reviewed accepted
  have outcome : final.outcome = .accepted :=
    of_decide_eq_true (List.all_eq_true.mp outcomes final member)
  cases each with
  | cons first rest =>
      cases rest
      rw [List.mem_singleton] at member
      subst member
      refine ⟨outcome, ?_⟩
      rw [first.1]
      exact (first.2 rfl).1 outcome

end Sample

end Verbatus.Recensor
