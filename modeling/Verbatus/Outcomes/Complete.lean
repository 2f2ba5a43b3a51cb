import Mathlib.Tactic
import Verbatus.Outcomes.RunAggregate

namespace Verbatus.Outcomes

open Library Library.Checked Refusal

section Fatal

/-- The one error the aggregate raises. -/
def FatalAccounting (refusal : Refusal) : Prop := ∃ message, refusal = .fatalAccounting message

theorem fatal (message : String) : FatalAccounting (.fatalAccounting message) := ⟨message, rfl⟩

variable (input : RunInput)

theorem classifyExemplar_raises (outcome : Option String) :
    RaisesOnly FatalAccounting (classifyExemplar outcome) := by
  unfold classifyExemplar
  split
  · exact .ok _
  · exact .error (fatal _)

theorem attributedAct_raises (actPages : Mapping String (List ℤ)) (act : String) :
    RaisesOnly FatalAccounting (attributedAct input actPages act) := by
  unfold attributedAct
  split
  · exact .ok _
  · refine (RaisesOnly.forM fun ordinal _ => ?_).bind fun _ _ => .ok _
    split
    · exact .error (fatal _)
    · exact .require (fatal _)

theorem attributedPages_raises : RaisesOnly FatalAccounting (attributedPages input) := by
  unfold attributedPages
  refine .ite (.ok _) ?_
  split
  · exact .ite (.ok _) (.ok _)
  · exact (RaisesOnly.require (fatal _)).bind fun _ _ =>
      (RaisesOnly.mapM fun act _ => attributedAct_raises input _ act).bind fun _ _ => .ok _

theorem missingCoverageReasons_raises :
    RaisesOnly FatalAccounting (missingCoverageReasons input) :=
  (RaisesOnly.require (fatal _)).bind fun _ _ => .ok _

theorem edgeHoldReasons_raises : RaisesOnly FatalAccounting (edgeHoldReasons input) :=
  (RaisesOnly.require (fatal _)).bind fun _ _ => .ok _

theorem unpairedContinuationReasons_raises :
    RaisesOnly FatalAccounting (unpairedContinuationReasons input) := by
  refine RaisesOnly.mapM fun row _ => ?_
  dsimp only
  split
  · exact (RaisesOnly.require (fatal _)).bind fun _ _ => .ok _
  · exact .error (fatal _)

theorem clearanceReason_raises (row : ReviewClearance) :
    RaisesOnly FatalAccounting (clearanceReason input row) := by
  refine (RaisesOnly.require (fatal _)).bind fun _ _ => RaisesOnly.bind ?_ fun _ _ =>
    (RaisesOnly.require (fatal _)).bind fun _ _ => .ok _
  unfold clearanceWhat
  dsimp only
  split
  · split_ifs
    · exact .ok _
    · exact .ok _
    · exact .error (fatal _)
  · split_ifs
    · exact .ok _
    · exact .error (fatal _)

theorem clearanceReasonsFrom_raises (rows : List ReviewClearance)
    (named : List ((String ×ₗ String) × String)) :
    RaisesOnly FatalAccounting (clearanceReasonsFrom input rows named) := by
  induction rows generalizing named with
  | nil => exact .ok _
  | cons row rest ih =>
      exact (clearanceReason_raises input row).bind fun _ _ =>
        (RaisesOnly.require (fatal _)).bind fun _ _ => ih _

theorem clearanceReasons_raises : RaisesOnly FatalAccounting (clearanceReasons input) :=
  (clearanceReasonsFrom_raises input _ _).bind fun _ _ => .ok _

theorem reviewPageHoldReasons_raises :
    RaisesOnly FatalAccounting (reviewPageHoldReasons input) :=
  RaisesOnly.mapM fun _ _ => (RaisesOnly.require (fatal _)).bind fun _ _ =>
    (RaisesOnly.require (fatal _)).bind fun _ _ => .ok _

theorem systemicReviewReasons_raises :
    RaisesOnly FatalAccounting (systemicReviewReasons input) := by
  unfold systemicReviewReasons
  split
  · exact .ok _
  · exact (RaisesOnly.require (fatal _)).bind fun _ _ => .ok _

theorem categoryReasons_raises (act : String) :
    RaisesOnly FatalAccounting (categoryReasons input act) := by
  unfold categoryReasons
  split
  · refine RaisesOnly.bind ?_ fun _ _ => .ok _
    unfold textStatusReasons
    split_ifs
    · exact (RaisesOnly.require (fatal _)).bind fun _ _ => .ok _
    · split
      · exact .ok _
      · exact (RaisesOnly.require (fatal _)).bind fun _ _ => .ok _
  · exact .error (fatal _)
  · exact .ok _

theorem coverageReasons_raises (act : String) :
    RaisesOnly FatalAccounting (coverageReasons input act) := by
  unfold coverageReasons
  dsimp only
  split
  · exact .ok _
  · split
    · exact (RaisesOnly.require (fatal _)).bind fun _ _ => .ok _
    · exact .error (fatal _)

theorem pageReasons_raises (pagesWithActs : Option (List ℤ)) (ordinal : ℤ) :
    RaisesOnly FatalAccounting (pageReasons input pagesWithActs ordinal) := by
  unfold pageReasons
  split
  · exact .ok _
  · exact (classifyExemplar_raises _).bind fun _ _ => .ok _

/-- Whatever the run hands over, the aggregate either answers or names a fatal imbalance. -/
theorem runAggregate_raises : RaisesOnly FatalAccounting (runAggregate input) :=
  (attributedPages_raises input).bind fun _ _ =>
  (missingCoverageReasons_raises input).bind fun _ _ =>
  (RaisesOnly.require (fatal _)).bind fun _ _ =>
  (edgeHoldReasons_raises input).bind fun _ _ =>
  (unpairedContinuationReasons_raises input).bind fun _ _ =>
  (clearanceReasons_raises input).bind fun _ _ =>
  (reviewPageHoldReasons_raises input).bind fun _ _ =>
  (systemicReviewReasons_raises input).bind fun _ _ =>
  (RaisesOnly.mapM fun act _ => categoryReasons_raises input act).bind fun _ _ =>
  (RaisesOnly.mapM fun act _ => coverageReasons_raises input act).bind fun _ _ =>
  (RaisesOnly.mapM fun ordinal _ => pageReasons_raises input _ ordinal).bind fun _ _ => .ok _

end Fatal

/-- An act of the run was marked out on the page. -/
def AttributedTo (input : RunInput) (ordinal : ℤ) : Prop :=
  ∃ actPages, input.actPages = some actPages ∧
    ∃ act ∈ input.actCategories, ∃ ordinals, actPages.get? act = some ordinals ∧ ordinal ∈ ordinals

/-- Everything a complete run has reconciled. -/
structure Reconciled (input : RunInput) : Prop where
  counted : input.actCategories.items ≠ [] ∨ input.census.items ≠ []
  sealed : ∀ ordinal page, input.census.get? ordinal = some page → page.outcome = some "sealed"
  completed : ∀ act given, input.actCategories.get? act = some given →
    ∃ category : ArmariumCategory, given = .category category ∧ category.outcomeClass = .completed
  covered : ∀ act ∈ input.actCategories, ∃ record, input.coverage.get? act = some record ∧
    record.underWitnessed = some false ∧ record.unresolvedChairs = some 0
  attributed : ∀ act ∈ input.actCategories, ∃ actPages, input.actPages = some actPages ∧
    act ∈ actPages
  established : ∀ act, input.actCategories.get? act = some (.category .delivered) →
    input.textStatus.get? act = some "established"
  readings : ∀ ordinal page, input.census.get? ordinal = some page → page.outcome = some "sealed" →
    (AttributedTo input ordinal ∧ ∀ category ∈ input.others ordinal, category = "delivered") ∨
    (input.others ordinal ≠ [] ∧ ∀ category ∈ input.others ordinal, category = "delivered")
  chairs : input.unaddressedChairs.getD [] = []
  edges : input.edgeHolds = []
  joins : input.joins = []
  continuations : input.unpairedContinuations = []
  clearances : input.reviewClearances = []
  pageHolds : input.pageHolds.items = []
  systemic : input.systemicReview = none

section Sections

variable {input : RunInput}

theorem missingCensusReasons_nil (silent : missingCensusReasons input = []) :
    input.actCategories.items = [] ∨ input.census.items ≠ [] := by
  unfold missingCensusReasons at silent
  split_ifs at silent with missing
  exact (not_and_or.mp missing).imp not_not.mp id

theorem emptyPopulationReasons_nil (silent : emptyPopulationReasons input = []) :
    input.actCategories.items ≠ [] ∨ input.census.items ≠ [] := by
  unfold emptyPopulationReasons at silent
  split_ifs at silent with empty
  exact not_and_or.mp empty

/-- The traversal's silence is the silence of each of its keys. -/
theorem keys_silent {κ : Type} [LinearOrder κ] {keys : List κ}
    {step : κ → Except Refusal (List String)} {results : List (List String)}
    (traversed : (sortedSet keys).mapM step = .ok results) (silent : results.flatten = []) :
    ∀ key ∈ keys, step key = .ok [] := fun key member =>
  (mapM_flatten_eq_nil traversed).mp silent key (mem_sortedSet.mpr member)

/-- No attribution reason means every act is named, and the pages are the attributed ones. -/
theorem attributedPages_nil {pages : Option (List ℤ)}
    (accepted : attributedPages input = .ok ([], pages)) (counted : input.census.items ≠ []) :
    (∀ act ∈ input.actCategories, ∃ actPages, input.actPages = some actPages ∧ act ∈ actPages) ∧
      ∃ attributed, pages = some attributed ∧
        ∀ ordinal ∈ attributed, AttributedTo input ordinal := by
  unfold attributedPages at accepted
  rw [if_neg counted] at accepted
  cases given : input.actPages with
  | none =>
      rw [given] at accepted
      dsimp only at accepted
      split_ifs at accepted with noActs
      · rw [Except.ok.injEq, Prod.mk.injEq] at accepted
        refine ⟨fun act member => ?_, [], accepted.2.symm, by simp⟩
        rw [Mapping.mem_def, Mapping.keys, noActs] at member
        exact absurd member List.not_mem_nil
      · simp at accepted
  | some actPages =>
      rw [given] at accepted
      obtain ⟨-, accepted⟩ := require_bind_eq_ok.mp accepted
      obtain ⟨perAct, traversed, same⟩ := bind_eq_ok.mp accepted
      rw [pure_eq_ok, Prod.mk.injEq] at same
      have perKey : ∀ act ∈ input.actCategories, ∃ ordinals, actPages.get? act = some ordinals := by
        intro act member
        obtain ⟨made, listed, result⟩ :=
          mapM_mem_left traversed (mem_sortedSet.mpr (Mapping.mem_def.mp member))
        have silent : made.1 = [] :=
          List.flatten_eq_nil_iff.mp same.1 _ (List.mem_map_of_mem listed)
        cases found : actPages.get? act with
        | some ordinals => exact ⟨ordinals, rfl⟩
        | none =>
            rw [attributedAct, found, Except.ok.injEq] at result
            rw [← result] at silent
            exact absurd silent (List.cons_ne_nil _ _)
      refine ⟨fun act member => ⟨actPages, rfl, Mapping.mem_iff_get?.mpr (perKey act member)⟩, _,
        same.2.symm, fun ordinal listed => ?_⟩
      obtain ⟨ordinals, mapped, inside⟩ := List.mem_flatten.mp listed
      obtain ⟨result, member, rfl⟩ := List.mem_map.mp mapped
      obtain ⟨act, actListed, given'⟩ := mapM_mem_right traversed member
      have act_mem := mem_sortedSet.mp actListed
      refine ⟨actPages, given, act, act_mem, ?_⟩
      obtain ⟨found, known⟩ := perKey act act_mem
      rw [attributedAct, known] at given'
      obtain ⟨-, -, same⟩ := bind_eq_ok.mp given'
      rw [pure_eq_ok] at same
      rw [← same] at inside
      exact ⟨found, known, inside⟩

theorem missingCoverageReasons_nil (accepted : missingCoverageReasons input = .ok []) :
    ∀ act ∈ input.actCategories, act ∈ input.coverage := by
  obtain ⟨-, same⟩ := require_bind_eq_ok.mp accepted
  rw [pure_eq_ok, List.map_eq_nil_iff, sortedSet_eq_nil, List.filter_eq_nil_iff] at same
  intro act member
  have kept := same act (Mapping.mem_def.mp member)
  rwa [decide_eq_true_eq, not_not] at kept

theorem edgeHoldReasons_nil (accepted : edgeHoldReasons input = .ok []) : input.edgeHolds = [] := by
  obtain ⟨-, same⟩ := require_bind_eq_ok.mp accepted
  rwa [pure_eq_ok, List.map_eq_nil_iff, sortedSet_eq_nil] at same

theorem continuationJoinReasons_nil (silent : continuationJoinReasons input = []) :
    input.joins = [] := List.map_eq_nil_iff.mp silent

theorem unaddressedChairReasons_nil (silent : unaddressedChairReasons input = []) :
    input.unaddressedChairs.getD [] = [] := sortedSet_eq_nil.mp (List.map_eq_nil_iff.mp silent)

theorem unpairedContinuationReasons_nil (accepted : unpairedContinuationReasons input = .ok []) :
    input.unpairedContinuations = [] := by
  have each := mapM_eq_ok.mp accepted
  exact List.map_eq_nil_iff.mp (sortedSet_eq_nil.mp (List.forall₂_nil_right_iff.mp each))

theorem clearanceReasonsFrom_length {rows : List ReviewClearance}
    {named final : List ((String ×ₗ String) × String)}
    (accepted : clearanceReasonsFrom input rows named = .ok final) :
    final.length = named.length + rows.length := by
  induction rows generalizing named with
  | nil =>
      rw [clearanceReasonsFrom, Except.ok.injEq] at accepted
      rw [accepted]
      rfl
  | cons row rest ih =>
      obtain ⟨reason, -, accepted⟩ := bind_eq_ok.mp accepted
      obtain ⟨-, accepted⟩ := require_bind_eq_ok.mp accepted
      rw [ih accepted, List.length_append, List.length_singleton, List.length_cons]
      omega

/-- Every clearance row gives a reason of its own. -/
theorem clearanceReasons_nil (accepted : clearanceReasons input = .ok []) :
    input.reviewClearances = [] := by
  obtain ⟨named, found, same⟩ := bind_eq_ok.mp accepted
  rw [pure_eq_ok, List.map_eq_nil_iff] at same
  have length := clearanceReasonsFrom_length found
  have sorted := List.length_insertionSort (fun first second : (String ×ₗ String) × String =>
    first.1 ≤ second.1) named
  rw [same, List.length_nil] at sorted
  rw [← sorted, List.length_nil, Nat.zero_add] at length
  exact List.length_eq_zero_iff.mp length.symm

theorem reviewPageHoldReasons_nil (accepted : reviewPageHoldReasons input = .ok []) :
    input.pageHolds.items = [] := by
  have each := mapM_eq_ok.mp accepted
  exact List.map_eq_nil_iff.mp (sortedSet_eq_nil.mp (List.forall₂_nil_right_iff.mp each))

theorem systemicReviewReasons_nil (accepted : systemicReviewReasons input = .ok []) :
    input.systemicReview = none := by
  unfold systemicReviewReasons at accepted
  split at accepted
  · assumption
  · obtain ⟨-, same⟩ := require_bind_eq_ok.mp accepted
    rw [pure_eq_ok] at same
    exact absurd same (List.cons_ne_nil _ _)

theorem textStatusReason_none {status act : String} (known : status ∈ textStatuses)
    (silent : textStatusReason status act = none) : status = "established" := by
  simp only [textStatuses, List.mem_cons, List.not_mem_nil, or_false] at known
  rcases known with rfl | rfl | rfl
  · rfl
  · simp [textStatusReason] at silent
  · simp [textStatusReason] at silent

/-- A silent act is of a completed category, and its text is whole if it was delivered. -/
theorem categoryReasons_nil {act : String} {given : ActCategory}
    (found : input.actCategories.get? act = some given) (silent : categoryReasons input act = .ok []) :
    ∃ category : ArmariumCategory, given = .category category ∧
      category.outcomeClass = .completed ∧
      (category = .delivered → input.textStatus.get? act = some "established") := by
  rw [categoryReasons, found] at silent
  cases given with
  | word text => simp at silent
  | category category =>
      obtain ⟨text, accepted, same⟩ := bind_eq_ok.mp silent
      rw [pure_eq_ok, List.append_eq_nil_iff] at same
      obtain ⟨complete, rfl⟩ := same
      refine ⟨category, rfl, ?_, ?_⟩
      · split_ifs at complete with other
        exact not_not.mp other
      · rintro rfl
        rw [textStatusReasons, if_neg (by simp)] at accepted
        cases status : input.textStatus.get? act with
        | none =>
            rw [status] at accepted
            simp at accepted
        | some word =>
            rw [status] at accepted
            obtain ⟨known, same⟩ := require_bind_eq_ok.mp accepted
            rw [pure_eq_ok, Option.toList_eq_nil_iff] at same
            rw [textStatusReason_none known same]

theorem coverageReasons_nil {act : String} {record : CoverageRecord}
    (found : input.coverage.get? act = some record) (silent : coverageReasons input act = .ok []) :
    record.underWitnessed = some false ∧ record.unresolvedChairs = some 0 := by
  rw [coverageReasons, found] at silent
  dsimp only at silent
  split at silent
  · next underWitnessed unresolvedChairs under unresolved =>
      obtain ⟨-, same⟩ := require_bind_eq_ok.mp silent
      rw [pure_eq_ok, List.append_eq_nil_iff] at same
      obtain ⟨witnessed, answered⟩ := same
      split_ifs at witnessed answered with isUnder isUnresolved
      rw [under, unresolved]
      exact ⟨congrArg some (Bool.eq_false_of_not_eq_true isUnder),
        congrArg some (not_not.mp isUnresolved)⟩
  · simp at silent

theorem sealedPageReasons_nil {attributed : List ℤ} {ordinal : ℤ}
    (silent : sealedPageReasons input (some attributed) ordinal = []) :
    (ordinal ∈ attributed ∧ ∀ category ∈ input.others ordinal, category = "delivered") ∨
      (input.others ordinal ≠ [] ∧ ∀ category ∈ input.others ordinal, category = "delivered") := by
  unfold sealedPageReasons at silent
  dsimp only at silent
  split_ifs at silent with listed held none undelivered
  · refine .inl ⟨listed, fun category member => ?_⟩
    rw [not_not, sortedSet_eq_nil, List.filter_eq_nil_iff] at held
    have kept := held category member
    rwa [decide_eq_true_eq, not_not] at kept
  · refine .inr ⟨none, fun category member => ?_⟩
    have kept := mem_sortedSet.mpr member
    rw [not_not.mp undelivered] at kept
    exact List.mem_singleton.mp kept

theorem pageReasons_nil {pagesWithActs : Option (List ℤ)} {ordinal : ℤ} {page : CensusPage}
    (found : input.census.get? ordinal = some page)
    (silent : pageReasons input pagesWithActs ordinal = .ok []) :
    page.outcome = some "sealed" ∧ sealedPageReasons input pagesWithActs ordinal = [] := by
  rw [pageReasons, found] at silent
  obtain ⟨klass, -, same⟩ := bind_eq_ok.mp silent
  rw [pure_eq_ok] at same
  split_ifs at same with unsealed
  exact ⟨not_not.mp unsealed, same⟩

theorem mem_of_get? {κ ν : Type} [DecidableEq κ] {mapping : Mapping κ ν} {key : κ} {value : ν}
    (found : mapping.get? key = some value) : key ∈ mapping.keys :=
  Mapping.mem_def.mp (Mapping.mem_iff_get?.mpr ⟨value, found⟩)

/-- An aggregate without a reason has reconciled everything. -/
theorem runAggregate_reconciled {result : Aggregate} (accepted : runAggregate input = .ok result)
    (silent : result.reasons = []) : Reconciled input := by
  obtain ⟨⟨attribution, pagesWithActs⟩, attributed, accepted⟩ := bind_eq_ok.mp accepted
  obtain ⟨missingCoverage, covered, accepted⟩ := bind_eq_ok.mp accepted
  obtain ⟨-, -, accepted⟩ := bind_eq_ok.mp accepted
  obtain ⟨edges, edgesFound, accepted⟩ := bind_eq_ok.mp accepted
  obtain ⟨unpaired, unpairedFound, accepted⟩ := bind_eq_ok.mp accepted
  obtain ⟨clearances, clearancesFound, accepted⟩ := bind_eq_ok.mp accepted
  obtain ⟨pageHolds, pageHoldsFound, accepted⟩ := bind_eq_ok.mp accepted
  obtain ⟨systemic, systemicFound, accepted⟩ := bind_eq_ok.mp accepted
  obtain ⟨categories, categoriesFound, accepted⟩ := bind_eq_ok.mp accepted
  obtain ⟨coverage, coverageFound, accepted⟩ := bind_eq_ok.mp accepted
  obtain ⟨pages, pagesFound, accepted⟩ := bind_eq_ok.mp accepted
  rw [pure_eq_ok] at accepted
  subst accepted
  simp only [List.append_eq_nil_iff, and_assoc] at silent
  obtain ⟨population, rfl, rfl, census, chairs, rfl, joins, rfl, rfl, rfl, rfl, noCategory,
    noCoverage, noPage⟩ := silent
  have categorySilent := keys_silent categoriesFound noCategory
  have coverageSilent := keys_silent coverageFound noCoverage
  have pageSilent := keys_silent pagesFound noPage
  have counted : input.census.items ≠ [] := by
    rcases missingCensusReasons_nil census with noActs | counted
    · exact (emptyPopulationReasons_nil population).resolve_left (not_not.mpr noActs)
    · exact counted
  obtain ⟨named, attributedPages, rfl, marked⟩ := attributedPages_nil attributed counted
  have allCovered := missingCoverageReasons_nil covered
  exact {
    counted := .inr counted
    sealed := fun ordinal page found =>
      (pageReasons_nil found (pageSilent ordinal (mem_of_get? found))).1
    completed := fun act given found => by
      obtain ⟨category, same, complete, -⟩ :=
        categoryReasons_nil found (categorySilent act (mem_of_get? found))
      exact ⟨category, same, complete⟩
    covered := fun act member => by
      obtain ⟨record, found⟩ := Mapping.mem_iff_get?.mp (allCovered act member)
      exact ⟨record, found, coverageReasons_nil found (coverageSilent act (mem_of_get? found))⟩
    attributed := named
    established := fun act found => by
      obtain ⟨category, same, -, whole⟩ :=
        categoryReasons_nil found (categorySilent act (mem_of_get? found))
      exact whole (ActCategory.category.inj same).symm
    readings := fun ordinal page found _ => by
      have silent := (pageReasons_nil found (pageSilent ordinal (mem_of_get? found))).2
      exact (sealedPageReasons_nil silent).imp_left fun held => ⟨marked ordinal held.1, held.2⟩
    chairs := unaddressedChairReasons_nil chairs
    edges := edgeHoldReasons_nil edgesFound
    joins := continuationJoinReasons_nil joins
    continuations := unpairedContinuationReasons_nil unpairedFound
    clearances := clearanceReasons_nil clearancesFound
    pageHolds := reviewPageHoldReasons_nil pageHoldsFound
    systemic := systemicReviewReasons_nil systemicFound }

theorem runAggregate_status {result : Aggregate} (accepted : runAggregate input = .ok result) :
    result.status = if result.reasons = [] then .complete else .partialResult := by
  obtain ⟨_, -, accepted⟩ := bind_eq_ok.mp accepted
  obtain ⟨_, -, accepted⟩ := bind_eq_ok.mp accepted
  obtain ⟨_, -, accepted⟩ := bind_eq_ok.mp accepted
  obtain ⟨_, -, accepted⟩ := bind_eq_ok.mp accepted
  obtain ⟨_, -, accepted⟩ := bind_eq_ok.mp accepted
  obtain ⟨_, -, accepted⟩ := bind_eq_ok.mp accepted
  obtain ⟨_, -, accepted⟩ := bind_eq_ok.mp accepted
  obtain ⟨_, -, accepted⟩ := bind_eq_ok.mp accepted
  obtain ⟨_, -, accepted⟩ := bind_eq_ok.mp accepted
  obtain ⟨_, -, accepted⟩ := bind_eq_ok.mp accepted
  obtain ⟨_, -, accepted⟩ := bind_eq_ok.mp accepted
  rw [pure_eq_ok] at accepted
  rw [← accepted]

end Sections

end Verbatus.Outcomes
