import Mathlib.Tactic
import Verbatus.Library.Sorting
import Verbatus.Review.Current
import Verbatus.Review.Published

namespace Verbatus.Review

open Library Library.Checked Refusal Contracts

variable {Digest : Type} [LinearOrder Digest]

/-- No two of the decisions at hand share a self-hash. -/
def SelfHashesApart (hashing : Hashing Digest) (decisions : List (ApprovalRecord Digest)) : Prop :=
  ∀ one ∈ decisions, ∀ other ∈ decisions,
    hashing.selfHash one.toApprovalBody = hashing.selfHash other.toApprovalBody →
      one.toApprovalBody = other.toApprovalBody

section ByHash

variable {first second : List (Summary Digest)}

theorem insertByHash_hashes (kept : List (Summary Digest)) (summary : Summary Digest) :
    (insertByHash kept summary).map Summary.decisionHash =
      if summary.decisionHash ∈ kept.map Summary.decisionHash then kept.map Summary.decisionHash
      else kept.map Summary.decisionHash ++ [summary.decisionHash] := by
  unfold insertByHash
  split_ifs with present
  · rw [List.map_map]
    apply List.map_congr_left
    intro other _
    rw [Function.comp_apply]
    split_ifs with same
    · exact same.symm
    · rfl
  · rw [List.map_append, List.map_singleton]

/-- A dictionary of summaries has one for each hash. -/
theorem byHash_nodup (summaries : List (Summary Digest)) :
    ((byHash summaries).map Summary.decisionHash).Nodup := by
  suffices fold : ∀ kept : List (Summary Digest), (kept.map Summary.decisionHash).Nodup →
      ((summaries.foldl insertByHash kept).map Summary.decisionHash).Nodup from fold [] List.nodup_nil
  induction summaries with
  | nil => exact fun kept apart => apart
  | cons summary summaries ih =>
      intro kept apart
      apply ih
      rw [insertByHash_hashes]
      split_ifs with present
      · exact apart
      · exact List.nodup_append.mpr ⟨apart, List.nodup_singleton _, fun a inKept b inNew same =>
          present (List.mem_singleton.mp inNew ▸ same ▸ inKept)⟩

/-- The summaries told apart by their hashes. -/
def HashesApart (summaries : List (Summary Digest)) : Prop :=
  ∀ one ∈ summaries, ∀ other ∈ summaries, one.decisionHash = other.decisionHash → one = other

theorem byHash_perm (apart : HashesApart first) (alsoApart : HashesApart second)
    (same : ∀ summary, summary ∈ first ↔ summary ∈ second) :
    (byHash first).Perm (byHash second) := by
  rw [List.perm_ext_iff_of_nodup (byHash_nodup first).of_map (byHash_nodup second).of_map]
  intro summary
  rw [mem_byHash apart, mem_byHash alsoApart, same]

/-- What the current decisions about a subject come to depends on the summaries that are current. -/
theorem currentKindBySubject_congr
    (same : ∀ summary, summary.state = .current → (summary ∈ first ↔ summary ∈ second)) :
    currentKindBySubject first = currentKindBySubject second := by
  funext scope subject
  apply agreed_congr
  intro one
  simp only [decided, List.mem_map, List.mem_filter, decide_eq_true_eq]
  constructor
  · rintro ⟨summary, ⟨member, about⟩, said⟩
    exact ⟨summary, ⟨(same summary about.1).mp member, about⟩, said⟩
  · rintro ⟨summary, ⟨member, about⟩, said⟩
    exact ⟨summary, ⟨(same summary about.1).mpr member, about⟩, said⟩

theorem kindsOf_congr (apart : HashesApart first) (alsoApart : HashesApart second)
    (same : ∀ summary, summary.state = .current → (summary ∈ first ↔ summary ∈ second)) :
    kindsOf first = kindsOf second := by
  apply currentKindBySubject_congr
  intro summary current
  rw [mem_byHash apart, mem_byHash alsoApart, same summary current]

/-- Summaries told apart by their hashes are sorted alike in whatever order they come. -/
theorem sortSummaries_perm (same : first.Perm second) (apart : HashesApart first) :
    sortSummaries first = sortSummaries second := by
  apply sortBy_eq_of_perm same
  intro one member other also equal
  have hashes := congrArg (fun key => (ofLex (ofLex (ofLex key).2).2).2) equal
  exact apart one member other also hashes

omit [LinearOrder Digest] in
theorem HashesApart.withConflict (apart : HashesApart first) (kinds : Kinds) :
    HashesApart (first.map (withConflict kinds)) := by
  intro one member other also same
  obtain ⟨source, listed, rfl⟩ := List.mem_map.mp member
  obtain ⟨source', listed', rfl⟩ := List.mem_map.mp also
  rw [withConflict_eq kinds source, withConflict_eq kinds source'] at same
  rw [apart source listed source' listed' same]

theorem HashesApart.byHash (apart : HashesApart first) : HashesApart (byHash first) :=
  fun one member other also => apart one ((mem_byHash apart).mp member) other
    ((mem_byHash apart).mp also)

theorem summariesOf_congr (apart : HashesApart first) (alsoApart : HashesApart second)
    (same : ∀ summary, summary ∈ first ↔ summary ∈ second) :
    summariesOf first = summariesOf second := by
  have kinds := kindsOf_congr apart alsoApart fun summary _ => same summary
  rw [summariesOf, summariesOf, kinds]
  exact sortSummaries_perm ((byHash_perm apart alsoApart same).map _)
    (apart.byHash.withConflict (kindsOf second))

end ByHash

variable {hashing : Hashing Digest} {basis : Basis Digest} {derived others : DerivedReview Digest}
  {decisions again : List (ApprovalRecord Digest)}

section Records

variable {checked : List (Summary Digest)}

/-- Records told apart by their self-hashes have summaries told apart by theirs. -/
theorem SelfHashesApart.summaries (apart : SelfHashesApart hashing decisions)
    (checks : decisions.mapM (reviewDecision hashing basis) = .ok checked) :
    HashesApart checked := by
  intro one member other also same
  obtain ⟨first, listed, made⟩ := mapM_mem_right checks member
  obtain ⟨second, alsoListed, alsoMade⟩ := mapM_mem_right checks also
  obtain ⟨review, subject, sound⟩ := reviewDecision_checks made
  obtain ⟨review', subject', sound'⟩ := reviewDecision_checks alsoMade
  have hashes : first.selfHash = second.selfHash := by
    rw [sound.kept, sound'.kept] at same
    exact same
  have bodies : first.toApprovalBody = second.toApprovalBody := by
    apply apart first listed second alsoListed
    rw [← sound.sound.sealed, ← sound'.sound.sealed, hashes]
  have records : first = second := by
    cases first
    cases second
    rw [ApprovalRecord.mk.injEq]
    exact ⟨bodies, hashes⟩
  rw [records, alsoMade] at made
  exact (Except.ok.inj made).symm

omit [LinearOrder Digest] in
theorem SelfHashesApart.of_subset (apart : SelfHashesApart hashing decisions)
    (within : ∀ record ∈ again, record ∈ decisions) : SelfHashesApart hashing again :=
  fun one member other also => apart one (within one member) other (within other also)

end Records

section SameSet

variable (same : ∀ record, record ∈ decisions ↔ record ∈ again)

include same

/-- The excluded units depend on which records there are, and not on their order or number. -/
theorem excludedUnits_congr {excluded : String → Bool}
    (made : excludedUnits hashing decisions basis = .ok excluded) :
    excludedUnits hashing again basis = .ok excluded := by
  obtain ⟨found, each, made⟩ := bind_eq_ok.mp made
  obtain ⟨found', each'⟩ := exists_mapM_of_subset each fun record member => (same record).mpr member
  refine bind_eq_ok.mpr ⟨found', each', ?_⟩
  rw [pure_eq_ok] at made ⊢
  rw [← made]
  have kinds : currentKindBySubject (found'.filterMap id) =
      currentKindBySubject (found.filterMap id) := by
    apply currentKindBySubject_congr
    intro summary _
    simp only [List.mem_filterMap, id, exists_eq_right, mem_of_mapM each, mem_of_mapM each', same]
  rw [kinds]

theorem currentBasis_congr (built : currentBasis hashing derived decisions = .ok basis) :
    currentBasis hashing derived again = .ok basis := by
  obtain ⟨named, entries, rows, entered⟩ := currentBasis_eq_ok.mp built
  obtain ⟨distinct, checked, excluded, made, whole⟩ := basisOver_eq_ok.mp entered
  exact currentBasis_eq_ok.mpr ⟨named, entries, rows, basisOver_eq_ok.mpr
    ⟨distinct, checked, excluded, excludedUnits_congr same made, whole⟩⟩

/-- What is applied depends on which records there are, and not on their order or number. -/
theorem applyDecisions_congr (apart : SelfHashesApart hashing decisions) {result : Applied Digest}
    (accepted : applyDecisions hashing derived decisions = .ok result) :
    applyDecisions hashing derived again = .ok result := by
  obtain ⟨basis, checked, built, checks, made⟩ := applyDecisions_eq_ok.mp accepted
  have within : ∀ record ∈ again, record ∈ decisions := fun record => (same record).mpr
  obtain ⟨checked', checks'⟩ := exists_mapM_of_subset checks within
  have members : ∀ summary, summary ∈ checked' ↔ summary ∈ checked := by
    intro summary
    simp only [mem_of_mapM checks, mem_of_mapM checks', same]
  have hashes := apart.summaries checks
  have hashes' := (apart.of_subset within).summaries checks'
  refine applyDecisions_eq_ok.mpr ⟨basis, checked', currentBasis_congr same built, checks', ?_⟩
  rw [← made, appliedTo, appliedTo, summariesOf_congr hashes' hashes members,
    kindsOf_congr hashes' hashes fun summary _ => members summary]

end SameSet

omit [LinearOrder Digest] in
/-- Units told apart by their ids are found by them. -/
theorem find_unit_eq_some {units : List (DerivedUnit Digest)}
    (distinct : (units.map DerivedUnit.actId).Nodup) {actId : String} {unit : DerivedUnit Digest} :
    units.find? (fun unit => unit.actId = actId) = some unit ↔
      unit ∈ units ∧ unit.actId = actId := by
  constructor
  · intro found
    have alike := List.find?_some found
    rw [decide_eq_true_eq] at alike
    exact ⟨List.mem_of_find?_eq_some found, alike⟩
  · rintro ⟨member, rfl⟩
    cases found : units.find? fun other => other.actId = unit.actId with
    | none => exact absurd (decide_eq_true rfl) (List.find?_eq_none.mp found unit member)
    | some other =>
        have listed := List.mem_of_find?_eq_some found
        have alike := List.find?_some found
        rw [decide_eq_true_eq] at alike
        rw [List.inj_on_of_nodup_map distinct listed member alike]

section Units

variable (named : derived.runId = others.runId) (units : derived.units.Perm others.units)

include named units

/-- The basis depends on which units there are, and not on their order. -/
theorem currentBasis_perm (built : currentBasis hashing derived decisions = .ok basis) :
    currentBasis hashing others decisions = .ok basis := by
  obtain ⟨run, entries, rows, entered⟩ := currentBasis_eq_ok.mp built
  obtain ⟨distinct, checked, excluded, made, whole⟩ := basisOver_eq_ok.mp entered
  obtain ⟨entries', rows', perm⟩ := mapM_perm rows units
  have apart : ∀ one ∈ entries, ∀ other ∈ entries, one.1 = other.1 → one = other :=
    fun one member other also => List.inj_on_of_nodup_map distinct member also
  have sorted : (entries'.insertionSort fun first second => first.1 ≤ second.1) =
      entries.insertionSort fun first second => first.1 ≤ second.1 :=
    (sortBy_eq_of_perm perm apart).symm
  refine currentBasis_eq_ok.mpr ⟨named ▸ run, entries', rows', basisOver_eq_ok.mpr ?_⟩
  rw [sorted, ← named]
  exact ⟨(perm.map Prod.fst).nodup_iff.mp distinct, checked, excluded, made, whole⟩

omit [LinearOrder Digest] named in
/-- A unit is found by its id wherever it stands. -/
theorem find_unit_perm (distinct : (derived.units.map DerivedUnit.actId).Nodup) (actId : String) :
    (derived.units.find? fun unit => unit.actId = actId) =
      others.units.find? fun unit => unit.actId = actId := by
  have distinct' := (units.map DerivedUnit.actId).nodup_iff.mp distinct
  ext unit
  rw [find_unit_eq_some distinct, find_unit_eq_some distinct', units.mem_iff]

theorem applyDecisions_perm {result : Applied Digest}
    (accepted : applyDecisions hashing derived decisions = .ok result) :
    applyDecisions hashing others decisions = .ok result := by
  obtain ⟨basis, checked, built, checks, made⟩ := applyDecisions_eq_ok.mp accepted
  refine applyDecisions_eq_ok.mpr ⟨basis, checked, currentBasis_perm named units built, checks, ?_⟩
  have found := find_unit_perm units (currentBasis_ids built).2
  rw [← made, appliedTo, appliedTo]
  simp only [unitResults, found]

end Units

/-- What is applied is a function of the set of decisions and of the set of units. -/
theorem applyDecisions_unordered (apart : SelfHashesApart hashing decisions)
    (same : ∀ record, record ∈ decisions ↔ record ∈ again) (named : derived.runId = others.runId)
    (units : derived.units.Perm others.units) :
    (∃ refusal other, applyDecisions hashing derived decisions = .error refusal ∧
        applyDecisions hashing others again = .error other) ∨
      ∃ result, applyDecisions hashing derived decisions = .ok result ∧
        applyDecisions hashing others again = .ok result := by
  cases accepted : applyDecisions hashing derived decisions with
  | ok result =>
      exact .inr ⟨result, rfl, applyDecisions_perm named units (applyDecisions_congr same apart accepted)⟩
  | error refusal =>
      cases also : applyDecisions hashing others again with
      | error other => exact .inl ⟨refusal, other, rfl, rfl⟩
      | ok result =>
          have apart' := apart.of_subset fun record member => (same record).mpr member
          have back := applyDecisions_congr (fun record => (same record).symm) apart'
            (applyDecisions_perm named.symm units.symm also)
          rw [accepted] at back
          cases back

/-- A release given twice, and a review whose two units change places. -/
theorem applyDecisions_unordered_released :
    ∃ result, applyDecisions writtenOut heldReview [releaseAct] = .ok result ∧
      applyDecisions writtenOut ⟨"run-1", heldReview.units.reverse⟩ [releaseAct, releaseAct] =
        .ok result := by
  have apart : SelfHashesApart writtenOut [releaseAct] := by
    intro one member other also _
    rw [List.mem_singleton.mp member, List.mem_singleton.mp also]
  have either : (∃ refusal other, applyDecisions writtenOut heldReview [releaseAct] = .error refusal ∧
        applyDecisions writtenOut ⟨"run-1", heldReview.units.reverse⟩ [releaseAct, releaseAct] =
          .error other) ∨
      ∃ result, applyDecisions writtenOut heldReview [releaseAct] = .ok result ∧
        applyDecisions writtenOut ⟨"run-1", heldReview.units.reverse⟩ [releaseAct, releaseAct] =
          .ok result :=
    applyDecisions_unordered apart (by simp) rfl (List.reverse_perm _).symm
  obtain ⟨result, accepted, -⟩ := exists_ok_of_any (applyDecisions writtenOut heldReview [releaseAct])
    (fun _ => true) (by decide +kernel)
  rcases either with ⟨refusal, other, refused, -⟩ | both
  · rw [accepted] at refused
    cases refused
  · exact both

end Verbatus.Review
