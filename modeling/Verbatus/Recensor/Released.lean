import Verbatus.Outcomes.Complete
import Verbatus.Recensor.Established
import Verbatus.Review.Clearance

namespace Verbatus.Recensor

open Library Library.Checked Refusal Contracts Review Outcomes

variable {Digest : Type}

/-- What the run aggregate calls a unit. -/
inductive UnitKey where
  | actId
  | actKey
  deriving DecidableEq

/-- The clearances of a record, as the run aggregate reads them. -/
def aggregateClearances (unitKey : UnitKey) (clearances : List (Clearance Digest)) :
    List ReviewClearance :=
  clearances.map fun row =>
    { scope := row.scope.text
      subject := match row.scope, unitKey with
        | .page, _ => .ordinal row.pageOrdinal
        | .unit, .actId => .key row.subjectId
        | .unit, .actKey => .key (row.actKey.getD "")
      page := row.pageOrdinal
      decision := row.decision.text
      cleared := row.cleared }

/-- A clearance row names the code, about the unit or about its page. -/
def NamedByClearance (record : ReviewDecisions Digest) (row : CountedRow) (code : String) : Prop :=
  ∃ clearance ∈ record.clearances, code ∈ clearance.cleared ∧
    ((clearance.scope = .unit ∧ clearance.subjectId = row.actId) ∨
      (clearance.scope = .page ∧ clearance.subjectId = row.pageId))

/-- A correction row is about the unit. -/
def NamedByCorrection (record : ReviewDecisions Digest) (row : CountedRow) (code : String) : Prop :=
  ∃ correction ∈ record.corrections, correction.subjectId = row.actId ∧ code ∈ correction.cleared

/-- The code holds another unit of the page again, which its reading keeps held. -/
def HeldThroughAnother (decided : List (Decided Digest)) (row : CountedRow) (code : String) : Prop :=
  ∃ other ∈ decided, other.act.actId ≠ row.actId ∧ other.act.pageId = row.pageId ∧
    HeldByReading other ∧ code ∈ other.review.holdCodes

/-- The aggregate's input says what the pass decided: its clearances, and each unit still held. -/
structure Aggregates (record : ReviewDecisions Digest) (decided : List (Decided Digest))
    (input : RunInput) : Prop where
  clearances : ∃ unitKey, input.reviewClearances = aggregateClearances unitKey record.clearances
  heldActs : ∀ final ∈ decided, final.outcome = .heldForReview → final.act.kind = .act →
    input.actCategories.get? final.act.actKey = some (.category .heldForReview)
  heldOthers : ∀ final ∈ decided, final.outcome = .heldForReview → final.act.kind = .other →
    (∃ page, input.census.get? final.act.pageOrdinal = some page) ∧
      "held-for-review" ∈ input.others final.act.pageOrdinal

/-- No run that aggregates the pass is complete. -/
def NeverComplete (record : ReviewDecisions Digest) (decided : List (Decided Digest)) : Prop :=
  ∀ input, Aggregates record decided input → ∀ aggregate, runAggregate input = .ok aggregate →
    aggregate.status ≠ .complete

section Aggregate

variable {record : ReviewDecisions Digest} {decided : List (Decided Digest)} {row : CountedRow}
  {code : String}

/-- A complete run reconciled everything its aggregate was given. -/
theorem reconciled_of_complete {input : RunInput} {aggregate : Aggregate}
    (accepted : runAggregate input = .ok aggregate) (complete : aggregate.status = .complete) :
    Reconciled input := by
  rw [runAggregate_status accepted] at complete
  split_ifs at complete with silent
  exact runAggregate_reconciled accepted silent

/-- A run that names a clearance is not complete. -/
theorem NamedByClearance.neverComplete (named : NamedByClearance record row code) :
    NeverComplete record decided := by
  intro input aggregates aggregate accepted complete
  obtain ⟨clearance, listed, -⟩ := named
  obtain ⟨unitKey, same⟩ := aggregates.clearances
  have none_cleared := (reconciled_of_complete accepted complete).clearances
  rw [same, aggregateClearances, List.map_eq_nil_iff] at none_cleared
  rw [none_cleared] at listed
  exact List.not_mem_nil listed

/-- A run with a reading still held is not complete. -/
theorem HeldThroughAnother.neverComplete (held : HeldThroughAnother decided row code) :
    NeverComplete record decided := by
  intro input aggregates aggregate accepted complete
  have reconciled := reconciled_of_complete accepted complete
  obtain ⟨other, member, -, -, kept, -⟩ := held
  cases kind : other.act.kind with
  | act =>
      have found := aggregates.heldActs other member kept.outcome kind
      obtain ⟨category, same, completed⟩ := reconciled.completed _ _ found
      cases same
      cases completed
  | other =>
      obtain ⟨⟨page, found⟩, listed⟩ := aggregates.heldOthers other member kept.outcome kind
      rcases reconciled.readings _ page found (reconciled.sealed _ page found) with ⟨-, all⟩ | ⟨-, all⟩
      · exact absurd (all _ listed) (by decide)
      · exact absurd (all _ listed) (by decide)

end Aggregate

section Rows

variable {summaries applied : List (Summary Digest)} {summary : Summary Digest}
  {basis : Basis Digest} {units : List (String × UnitResult Digest)}
  {pages : List (String × PageResult Digest)}

theorem mem_subjectsOf (member : summary ∈ summaries) :
    (summary.scope, summary.subjectId) ∈ subjectsOf summaries := by
  have named : summary.subjectId ∈ sortedSet ((summaries.filter fun other =>
      other.scope = summary.scope).map Summary.subjectId) :=
    mem_sortedSet.mpr (List.mem_map_of_mem (List.mem_filter.mpr ⟨member, decide_eq_true rfl⟩))
  rw [subjectsOf, List.mem_append]
  cases scope : summary.scope with
  | page =>
      rw [scope] at named
      exact .inl (List.mem_map_of_mem named)
  | unit =>
      rw [scope] at named
      exact .inr (List.mem_map_of_mem named)

theorem head?_aboutSubject (member : summary ∈ summaries) :
    ∃ first, (aboutSubject summaries (summary.scope, summary.subjectId)).head? = some first := by
  have about : summary ∈ aboutSubject summaries (summary.scope, summary.subjectId) :=
    List.mem_filter.mpr ⟨member, decide_eq_true ⟨rfl, rfl⟩⟩
  obtain ⟨first, rest, same⟩ := List.exists_cons_of_ne_nil (List.ne_nil_of_mem about)
  exact ⟨first, by rw [same]; rfl⟩

/-- A release of a unit has a clearance row, with what the unit's own block clears. -/
theorem clearancesOf_unit {entry : UnitEntry Digest} (member : summary ∈ applied)
    (scope : summary.scope = .unit) (release : summary.decision = .release)
    (found : basis.units.lookup summary.subjectId = some entry) :
    ∃ row ∈ clearancesOf basis units pages applied, row.scope = .unit ∧
      row.subjectId = summary.subjectId ∧ row.cleared = clearedOf units summary.subjectId := by
  have kept : summary ∈ applied.filter fun summary =>
      clearing summary.scope summary.decision ∧ summary.decision ≠ .edit :=
    List.mem_filter.mpr ⟨member, by simp [scope, release, clearing]⟩
  obtain ⟨first, head⟩ := head?_aboutSubject kept
  have subject := mem_subjectsOf kept
  rw [scope] at head subject
  refine ⟨⟨.unit, summary.subjectId, some entry.actKey, first.pageId, entry.pageOrdinal,
    first.decision, clearedOf units summary.subjectId, ?hashes⟩,
    List.mem_filterMap.mpr ⟨_, subject, ?made⟩, rfl, rfl, rfl⟩
  case made =>
    simp only [head, found, Option.bind_eq_bind, Option.bind_some]
    rfl

/-- A finding of no missed act has a clearance row, with what it clears on the page. -/
theorem clearancesOf_page {paged : PageResult Digest} (member : summary ∈ applied)
    (scope : summary.scope = .page) (cleared : summary.decision = .noMissedAct)
    (found : pages.lookup summary.subjectId = some paged) :
    ∃ row ∈ clearancesOf basis units pages applied, row.scope = .page ∧
      row.subjectId = summary.subjectId ∧ row.cleared = paged.cleared := by
  have kept : summary ∈ applied.filter fun summary =>
      clearing summary.scope summary.decision ∧ summary.decision ≠ .edit :=
    List.mem_filter.mpr ⟨member, by simp [scope, cleared, clearing]⟩
  obtain ⟨first, head⟩ := head?_aboutSubject kept
  have subject := mem_subjectsOf kept
  rw [scope] at head subject
  refine ⟨⟨.page, summary.subjectId, none, first.pageId, paged.pageOrdinal, first.decision,
    paged.cleared, ?hashes⟩, List.mem_filterMap.mpr ⟨_, subject, ?made⟩, rfl, rfl, rfl⟩
  case made =>
    simp only [head, found, Option.bind_eq_bind, Option.bind_some]
    rfl

/-- An edit of an accepted unit has a correction row, with what the unit's own block clears. -/
theorem correctionsOf_unit {entry : UnitEntry Digest} {unit : UnitResult Digest}
    (member : summary ∈ applied) (scope : summary.scope = .unit) (edit : summary.decision = .edit)
    (found : basis.units.lookup summary.subjectId = some entry)
    (decided : units.lookup summary.subjectId = some unit) (accepted : unit.outcome = .accepted) :
    ∃ row ∈ correctionsOf basis units applied, row.subjectId = summary.subjectId ∧
      row.cleared = clearedOf units summary.subjectId := by
  have kept : summary ∈ applied.filter fun summary => summary.decision = .edit ∧
      (units.lookup summary.subjectId).map UnitResult.outcome = some .accepted :=
    List.mem_filter.mpr ⟨member, by simp [edit, decided, accepted]⟩
  obtain ⟨first, head⟩ := head?_aboutSubject kept
  have subject := mem_subjectsOf kept
  rw [scope] at head subject
  refine ⟨⟨summary.subjectId, entry.actKey, first.pageId, entry.pageOrdinal,
    clearedOf units summary.subjectId, ?hashes⟩,
    List.mem_filterMap.mpr ⟨_, subject, ?made⟩, rfl, rfl⟩
  case made =>
    simp only [head, found, Option.bind_eq_bind, Option.bind_some]
    rfl

end Rows

variable [LinearOrder Digest]

section Accepted

variable {checked : List (Summary Digest)} {hashing : Hashing Digest}
  {derived : DerivedReview Digest} {decisions : List (ApprovalRecord Digest)}
  {result : Applied Digest}

/-- What a subject's decisions agree on, a current one of them decides. -/
theorem applied_of_kind {scope : ReviewScope} {subject : String} {decision : ReviewDecision}
    (kind : kindsOf checked scope subject = some (.one decision)) :
    ∃ summary ∈ summariesOf checked, summary.state = .current ∧ summary.scope = scope ∧
      summary.subjectId = subject ∧ summary.decision = decision := by
  obtain ⟨said, present, same⟩ := agreed_eq_one.mp kind
  obtain ⟨one, member⟩ := List.exists_mem_of_ne_nil _ present
  obtain ⟨summary, listed, made⟩ := List.mem_map.mp member
  obtain ⟨known, about⟩ := List.mem_filter.mp listed
  obtain ⟨current, ofScope, named⟩ := of_decide_eq_true about
  have kept : withConflict (kindsOf checked) summary = summary := by
    rw [withConflict, if_neg]
    rintro ⟨-, conflict⟩
    rw [ofScope, named, kind] at conflict
    cases conflict
  refine ⟨summary, ?_, current, ofScope, named, ?_⟩
  · rw [summariesOf, sortSummaries, (List.perm_insertionSort _ _).mem_iff]
    exact List.mem_map.mpr ⟨summary, known, kept⟩
  · exact congrArg Prod.fst (made.trans (same one member))

/-- A row of the result names the code, about the unit or about its page. -/
def NamedInResult (result : Applied Digest) (actId pageId code : String) : Prop :=
  (∃ row ∈ result.clearances, row.scope = .unit ∧ row.subjectId = actId ∧ code ∈ row.cleared) ∨
  (∃ row ∈ result.clearances, row.scope = .page ∧ row.subjectId = pageId ∧ code ∈ row.cleared) ∨
  ∃ row ∈ result.corrections, row.subjectId = actId ∧ code ∈ row.cleared

/-- Decisions that accept a held unit are named with every code they cleared. -/
theorem applyDecisions_named (accepted : applyDecisions hashing derived decisions = .ok result)
    {source : DerivedUnit Digest} (member : source ∈ derived.units) {unit : UnitResult Digest}
    (found : result.units.lookup source.actId = some unit) (held : source.outcome ≠ .accepted)
    (accepts : unit.outcome = .accepted) {code : String}
    (holds : code ∈ source.payload.holdCodes) :
    NamedInResult result source.actId source.pageId code := by
  obtain ⟨basis, checked, built, -, rfl⟩ := applyDecisions_eq_ok.mp accepted
  obtain ⟨entry, page, described⟩ := currentBasis_described built member
  have of := (unitBasis_entryOf described.row).2
  have units := lookup_appliedTo_units built checked member described
  have pages := lookup_map basis.pages
    (fun pageId page => pageResult pageId page (summariesOf checked) (kindsOf checked)) entry.pageId
  rw [described.onPage, Option.map_some] at pages
  have made := Option.some_inj.mp (units.symm.trans found)
  unfold unitResult at made
  dsimp only at made
  split_ifs at made with untouched
  · rw [← made] at accepts
    exact absurd accepts held
  · -- The decisions touch the unit, and leave it with no code at all.
    have block : unit.payload.operatorReview.map (fun block => block.cleared.unit) =
        some (if clearsUnit (kindsOf checked .unit source.actId) then entry.unitCodes else []) := by
      rw [← made]
      rfl
    obtain ⟨included, nothing⟩ := reviewedOutcome_eq_accepted (made ▸ accepts)
    rw [reviewedPayload, unitHoldCodes, sortedSet_eq_nil] at nothing
    simp only [List.append_eq_nil_iff, and_assoc] at nothing
    obtain ⟨own, onPage, -⟩ := nothing
    rcases (classifyHolds_covers of.scopes code).mp holds with unitCode | pageCode
    · have clears : clearsUnit (kindsOf checked .unit source.actId) = true := by
        by_contra unclear
        rw [if_neg unclear] at own
        rw [own] at unitCode
        exact List.not_mem_nil unitCode
      have named : code ∈ clearedOf
          (appliedTo hashing derived basis checked).units source.actId := by
        rw [clearedOf, found, Option.bind_some, block, if_pos clears]
        exact unitCode
      cases kind : kindsOf checked .unit source.actId with
      | none => simp [kind, clearsUnit] at clears
      | some made =>
          cases made with
          | conflict => simp [kind, clearsUnit] at clears
          | one decision =>
              obtain ⟨summary, listed, current, scope, same, decides⟩ := applied_of_kind kind
              have applied : summary ∈ (appliedTo hashing derived basis checked).applied :=
                List.mem_filter.mpr ⟨listed, decide_eq_true current⟩
              rw [← same] at found named
              have known := described.found
              rw [← same] at known
              rw [kind] at clears included
              rw [← same]
              cases decision with
              | release =>
                  obtain ⟨row, inside, ofScope, subject, cleared⟩ :=
                    clearancesOf_unit applied scope decides known
                  exact .inl ⟨row, inside, ofScope, subject, cleared ▸ named⟩
              | edit =>
                  obtain ⟨row, inside, subject, cleared⟩ :=
                    correctionsOf_unit applied scope decides known found accepts
                  exact .inr (.inr ⟨row, inside, subject, cleared ▸ named⟩)
              | exclude => exact absurd rfl included
              | hold | reAsk | noMissedAct | missedAct | reShoot => cases clears
    · have cleared : code ∈ (pageResult entry.pageId page (summariesOf checked)
          (kindsOf checked)).cleared := by
        by_contra uncleared
        refine List.ne_nil_of_mem (a := code) ?_ onPage
        simp [pageHeld, pageCode, uncleared, included]
      have kind : kindsOf checked .page entry.pageId = some (.one .noMissedAct) := by
        by_contra other
        simp [pageResult, other] at cleared
      obtain ⟨summary, listed, current, scope, same, decides⟩ := applied_of_kind kind
      have applied : summary ∈ (appliedTo hashing derived basis checked).applied :=
        List.mem_filter.mpr ⟨listed, decide_eq_true current⟩
      have onSubject : (appliedTo hashing derived basis checked).pages.lookup summary.subjectId =
          some (pageResult entry.pageId page (summariesOf checked) (kindsOf checked)) := by
        rw [same]
        exact pages
      obtain ⟨row, inside, ofScope, subject, clears⟩ :=
        clearancesOf_page applied scope decides onSubject
      refine .inr (.inl ⟨row, inside, ofScope, ?_, clears ▸ cleared⟩)
      rw [subject, same, of.pageId]

end Accepted

section Recorded

variable [ToString Digest] {hashing : Hashing Digest} {written : ReviewFacts → String}
  {runId : String} {stored : List (StoredDecision Digest)} {planned : List (Plan Digest)}
  {result : Applied Digest} {decided : List (Decided Digest)}

omit [ToString Digest] [LinearOrder Digest] in
/-- A clearance with a code that holds nothing again keeps it. -/
theorem effectiveClearance_keeps {row : Clearance Digest} {code : String}
    (cleared : code ∈ row.cleared) (free : code ∉ heldAgain decided row.scope row.subjectId) :
    ∃ kept, effectiveClearance decided row = some kept ∧ kept.scope = row.scope ∧
      kept.subjectId = row.subjectId ∧ code ∈ kept.cleared := by
  unfold effectiveClearance
  dsimp only
  have remains : code ∈ row.cleared.filter (· ∉ heldAgain decided row.scope row.subjectId) :=
    List.mem_filter.mpr ⟨cleared, decide_eq_true free⟩
  split_ifs with unheld emptied
  · exact ⟨row, rfl, rfl, rfl, cleared⟩
  · rw [emptied] at remains
    exact absurd remains List.not_mem_nil
  · exact ⟨_, rfl, rfl, rfl, remains⟩

/-- Each unit is decided once. -/
theorem decided_nodup (applied : applyDecisions hashing (derivedReview written runId planned)
      (stored.map StoredDecision.record) = .ok result)
    (each : List.Forall₂ (fun plan final => decidePlan stored result plan = .ok final) planned
      decided) : (decided.map fun final => final.act.actId).Nodup := by
  obtain ⟨basis, checked, built, -, -⟩ := applyDecisions_eq_ok.mp applied
  have ids := (currentBasis_ids built).2
  have kept : decided.map (fun final => final.act.actId) =
      planned.map fun plan => plan.act.actId := by
    refine mapM_map_eq (mapM_eq_ok.mpr each) fun plan final decides => ?_
    obtain ⟨unit, -, same, -⟩ := decidePlan_eq_ok decides
    rw [same]
  rw [kept]
  simpa [derivedReview, Plan.derivedUnit, Function.comp_def] using ids

/-- A code that holds again is another reading's, which stays held by it. -/
theorem heldThroughAnother_of_heldAgain
    (each : List.Forall₂ (fun plan final => decidePlan stored result plan = .ok final) planned
      decided) {row : CountedRow} {code : String}
    (alone : ∀ final ∈ decided, final.act.actId = row.actId → final.reheld = none)
    (again : code ∈ heldAgain decided .page row.pageId) : HeldThroughAnother decided row code := by
  obtain ⟨other, member, inside⟩ := List.mem_flatMap.mp again
  dsimp only at inside
  split_ifs at inside with onPage
  · obtain ⟨plan, -, decides⟩ := mapM_mem_right (mapM_eq_ok.mpr each) member
    obtain ⟨unit, -, same, completes | keeps⟩ := decidePlan_eq_ok decides
    · rw [completes.reheld] at inside
      exact absurd inside List.not_mem_nil
    · obtain ⟨refusal, held, -, review, reheld⟩ := keeps.held
      refine ⟨other, member, fun own => ?_, onPage, keeps.heldByReading same, ?_⟩
      · rw [alone other member own] at reheld
        cases reheld
      · rw [reheld] at inside
        rw [review]
        exact inside
  · exact absurd inside List.not_mem_nil

/-- No release is silent: a code a held unit is accepted without is named as cleared or corrected,
or still holds another reading of its page; and where it is not a correction, no run is complete. -/
theorem decideReviews_recorded {record : Option (ReviewDecisions Digest)}
    (accepted : decideReviews hashing written runId stored planned = .ok (decided, record)) :
    List.Forall₂ (fun plan final => final.act = plan.act ∧
      (plan.outcome = .heldForReview → final.outcome = .accepted →
        ∀ code ∈ plan.review.holdCodes, code ∉ final.review.holdCodes →
          ∃ kept, record = some kept ∧
            (((NamedByClearance kept plan.act code ∨ HeldThroughAnother decided plan.act code) ∧
              NeverComplete kept decided) ∨ NamedByCorrection kept plan.act code)))
      planned decided := by
  by_cases none_stored : stored = []
  · rw [decideReviews, if_pos none_stored] at accepted
    cases accepted
    rw [List.forall₂_map_right_iff, List.forall₂_same]
    intro plan member
    refine ⟨rfl, fun held accepts => ?_⟩
    rw [held] at accepts
    cases accepts
  · obtain ⟨result, applied, each, rfl⟩ := decideReviews_eq_ok none_stored accepted
    have distinct := decided_nodup applied each
    refine forall₂_imp_of_mem each fun plan member final listed decides => ?_
    obtain ⟨unit, found, same, ended⟩ := decidePlan_eq_ok decides
    refine ⟨same, fun held accepts code holds _ => ⟨_, rfl, ?_⟩⟩
    rcases ended with completes | keeps
    · have alone : ∀ other ∈ decided, other.act.actId = plan.act.actId → other.reheld = none := by
        intro other also sameId
        rw [← same] at sameId
        rw [List.inj_on_of_nodup_map distinct also listed sameId]
        exact completes.reheld
      have source := List.mem_map_of_mem (f := Plan.derivedUnit written) member
      have machine : plan.outcome ≠ .accepted := by
        rw [held]
        decide
      rcases applyDecisions_named applied source found machine (completes.outcome ▸ accepts) holds with
        ⟨row, inside, scope, subject, cleared⟩ | ⟨row, inside, scope, subject, cleared⟩ |
          ⟨row, inside, subject, cleared⟩
      · have free : code ∉ heldAgain decided row.scope row.subjectId := by
          rw [scope, subject, heldAgain, List.mem_flatMap]
          rintro ⟨other, also, again⟩
          dsimp only at again
          split_ifs at again with own
          · rw [alone other also own] at again
            exact List.not_mem_nil again
          · exact List.not_mem_nil again
        obtain ⟨kept, effective, ofScope, named, remains⟩ := effectiveClearance_keeps cleared free
        have clearance : NamedByClearance (decisionsRecord result decided) plan.act code :=
          ⟨kept, List.mem_filterMap.mpr ⟨row, inside, effective⟩, remains,
            .inl ⟨ofScope.trans scope, named.trans subject⟩⟩
        exact .inl ⟨.inl clearance, clearance.neverComplete⟩
      · by_cases again : code ∈ heldAgain decided .page plan.act.pageId
        · have another := heldThroughAnother_of_heldAgain each alone again
          exact .inl ⟨.inr another, another.neverComplete⟩
        · have free : code ∉ heldAgain decided row.scope row.subjectId := by
            rwa [scope, subject]
          obtain ⟨kept, effective, ofScope, named, remains⟩ := effectiveClearance_keeps cleared free
          have clearance : NamedByClearance (decisionsRecord result decided) plan.act code :=
            ⟨kept, List.mem_filterMap.mpr ⟨row, inside, effective⟩, remains,
              .inr ⟨ofScope.trans scope, named.trans subject⟩⟩
          exact .inl ⟨.inl clearance, clearance.neverComplete⟩
      · refine .inr ⟨row, List.mem_filter.mpr ⟨inside, ?_⟩, subject, cleared⟩
        rw [decide_eq_true_eq, subject]
        exact alone
    · rw [keeps.outcome] at accepts
      cases accepts

end Recorded

/-- A released reading is named as cleared, and no run over the pass is complete. -/
theorem decideReviews_recorded_release : ∃ decided record,
    decideReviews writtenOut (fun _ => "") "run-1" [storedRelease]
      [samplePlan (sampleRow 1 doubtfulReading)] = .ok (decided, some record) ∧
    ((NamedByClearance record (sampleRow 1 doubtfulReading) doubtShareHigh ∨
        HeldThroughAnother decided (sampleRow 1 doubtfulReading) doubtShareHigh) ∧
      NeverComplete record decided ∨
      NamedByCorrection record (sampleRow 1 doubtfulReading) doubtShareHigh) := by
  obtain ⟨⟨decided, record⟩, accepted, outcomes⟩ := exists_ok_of_any
    (decideReviews writtenOut (fun _ => "") "run-1" [storedRelease]
      [samplePlan (sampleRow 1 doubtfulReading)])
    (fun made => made.1.all fun final => final.outcome = .accepted ∧ final.review.holdCodes = [])
    (by decide +kernel)
  have each := decideReviews_recorded accepted
  cases each with
  | cons first rest =>
      have ended := List.all_eq_true.mp outcomes _ (.head _)
      rw [decide_eq_true_eq] at ended
      obtain ⟨kept, same, named⟩ := first.2 (by decide +kernel) ended.1 doubtShareHigh
        (by decide +kernel) (by rw [ended.2]; exact List.not_mem_nil)
      exact ⟨_, kept, same ▸ accepted, named⟩

section Unnamed

def lineHeld : Perlectio := ⟨"perlectio-1", [], ["unread-line"], by decide, by decide⟩

def emptyReading : Perlectio :=
  ⟨"perlectio-2", [entryNoReadableText], ["unread-line"], by decide, by decide⟩

/-- Two acts of a page with an unread line, the second with no readable text. -/
def unreadPlans : List (Plan String) :=
  [samplePlan (sampleRow 1 lineHeld), samplePlan (sampleRow 2 emptyReading)]

def basisOf (plan : Plan String) : String := writtenOut.payload (plan.review.payload fun _ => "")

def storedAs (path : String) (record : ApprovalRecord String) : StoredDecision String :=
  ⟨path, writtenOut.record record, record⟩

/-- A release of the second act, and a finding of no missed act on its page. -/
def unreadDecisions : List (StoredDecision String) :=
  [storedAs "receipts/release.json" (sampleDecision .unit "act-2" .release
      (basisOf (samplePlan (sampleRow 2 emptyReading)))),
    storedAs "receipts/page.json" (sampleDecision .page "page-1" .noMissedAct
      (writtenOut.page "page-1" (unreadPlans.map fun plan => (plan.act.actId, basisOf plan)) []))]

/-- The first act is accepted without the page's hold, which holds the second again, and no row of
the record names it. -/
theorem decideReviews_unnamed : ∃ decided record,
    decideReviews writtenOut (fun _ => "") "run-1" unreadDecisions unreadPlans =
      .ok (decided, some record) ∧
    (samplePlan (sampleRow 1 lineHeld)).outcome = .heldForReview ∧
    "unread-line" ∈ (samplePlan (sampleRow 1 lineHeld)).review.holdCodes ∧
    (∃ final ∈ decided, final.act.actId = "act-1" ∧ final.outcome = .accepted ∧
      "unread-line" ∉ final.review.holdCodes) ∧
    ¬ NamedByClearance record (sampleRow 1 lineHeld) "unread-line" ∧
    ¬ NamedByCorrection record (sampleRow 1 lineHeld) "unread-line" := by
  obtain ⟨⟨decided, record⟩, accepted, checked⟩ := exists_ok_of_any
    (decideReviews writtenOut (fun _ => "") "run-1" unreadDecisions unreadPlans)
    (fun made => (made.1.any fun final => final.act.actId = "act-1" ∧ final.outcome = .accepted ∧
        "unread-line" ∉ final.review.holdCodes) &&
      made.2.any fun record => record.clearances = [] ∧ record.corrections = [])
    (by decide +kernel)
  rw [Bool.and_eq_true, List.any_eq_true, Option.any_eq_true] at checked
  obtain ⟨⟨final, member, ended⟩, record, rfl, silent⟩ := checked
  obtain ⟨uncleared, uncorrected⟩ := of_decide_eq_true silent
  refine ⟨decided, record, accepted, by decide +kernel, by decide +kernel,
    ⟨final, member, of_decide_eq_true ended⟩, ?_, ?_⟩
  · rintro ⟨row, listed, -⟩
    rw [uncleared] at listed
    exact List.not_mem_nil listed
  · rintro ⟨row, listed, -⟩
    rw [uncorrected] at listed
    exact List.not_mem_nil listed

end Unnamed

end Verbatus.Recensor
