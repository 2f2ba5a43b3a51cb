import Verbatus.Outcomes.Complete
import Verbatus.Library.Sorting

namespace Verbatus.Outcomes

open Library Library.Checked Refusal

variable {input : RunInput}

/-- What every accepted complete run's inputs share: one denominator of acts and one of pages. -/
structure OneDenominator (input : RunInput) : Prop where
  paged : input.census.items ≠ []
  pages : ∀ actPages, input.actPages = some actPages → ∀ act ∈ actPages, act ∈ input.actCategories
  marked : ∀ actPages, input.actPages = some actPages → ∀ act ∈ input.actCategories,
    ∀ ordinals, actPages.get? act = some ordinals → ∀ ordinal ∈ ordinals,
      ∃ page, input.census.get? ordinal = some page ∧ page.outcome = some "sealed"
  covered : ∀ act ∈ input.coverage, act ∈ input.actCategories
  described : ∀ act ∈ input.textStatus, input.actCategories.get? act = some (.category .delivered)

section Accepted

/-- No key of a mapping is outside another one that has them all. -/
theorem unknown_nil {κ ν μ : Type} [LinearOrder κ] {mapping : Mapping κ ν} {other : Mapping κ μ}
    (known : ∀ key ∈ mapping, key ∈ other) :
    sortedSet (mapping.keys.filter fun key => key ∉ other) = [] := by
  rw [sortedSet_eq_nil, List.filter_eq_nil_iff]
  intro key member
  rw [decide_eq_true_eq, not_not]
  exact known key (Mapping.mem_def.mpr member)

theorem known_of_unknown_nil {κ ν μ : Type} [LinearOrder κ] {mapping : Mapping κ ν}
    {other : Mapping κ μ} (none : sortedSet (mapping.keys.filter fun key => key ∉ other) = []) :
    ∀ key ∈ mapping, key ∈ other := by
  rw [sortedSet_eq_nil, List.filter_eq_nil_iff] at none
  intro key member
  have kept := none key (Mapping.mem_def.mp member)
  rwa [decide_eq_true_eq, not_not] at kept

theorem attributedAct_ok {actPages : Mapping String (List ℤ)} {act : String} {ordinals : List ℤ}
    (found : actPages.get? act = some ordinals)
    (marked : ∀ ordinal ∈ ordinals,
      ∃ page, input.census.get? ordinal = some page ∧ page.outcome = some "sealed") :
    attributedAct input actPages act = .ok ([], ordinals) := by
  rw [attributedAct, found]
  refine bind_eq_ok.mpr ⟨(), forM_ok_of_forall fun ordinal member => ?_, rfl⟩
  obtain ⟨page, counted, sealedPage⟩ := marked ordinal member
  rw [counted]
  exact require_eq_ok.mpr sealedPage

/-- An act that names its pages is accepted only when each of them is a sealed page. -/
theorem attributedAct_marked {actPages : Mapping String (List ℤ)} {act : String}
    {ordinals : List ℤ} {result : List String × List ℤ}
    (found : actPages.get? act = some ordinals)
    (accepted : attributedAct input actPages act = .ok result) : ∀ ordinal ∈ ordinals,
      ∃ page, input.census.get? ordinal = some page ∧ page.outcome = some "sealed" := by
  rw [attributedAct, found] at accepted
  obtain ⟨⟨⟩, checked, -⟩ := bind_eq_ok.mp accepted
  intro ordinal member
  have one := forM_eq_ok.mp checked ordinal member
  cases counted : input.census.get? ordinal with
  | none =>
      rw [counted] at one
      cases one
  | some page =>
      rw [counted] at one
      exact ⟨page, rfl, require_eq_ok.mp one⟩

/-- Where every act names sealed pages, the attributed pages are the ones acts name. -/
theorem attributedPages_ok (denominator : OneDenominator input)
    (named : ∀ act ∈ input.actCategories, ∃ actPages, input.actPages = some actPages ∧
      act ∈ actPages) :
    ∃ attributed, attributedPages input = .ok ([], some attributed) ∧
      ∀ ordinal, AttributedTo input ordinal → ordinal ∈ attributed := by
  unfold attributedPages
  rw [if_neg denominator.paged]
  cases given : input.actPages with
  | none =>
      have noActs : input.actCategories.items = [] := by
        cases acts : input.actCategories.items with
        | nil => rfl
        | cons row rows =>
            have member : row.1 ∈ input.actCategories := by
              rw [Mapping.mem_def, Mapping.keys, acts]
              exact .head _
            obtain ⟨actPages, same, -⟩ := named row.1 member
            rw [given] at same
            cases same
      refine ⟨[], if_pos noActs, ?_⟩
      rintro ordinal ⟨actPages, same, -⟩
      rw [given] at same
      cases same
  | some actPages =>
      have each : ∀ act ∈ sortedSet input.actCategories.keys,
          attributedAct input actPages act = .ok ([], (actPages.get? act).getD []) := by
        intro act listed
        have member := Mapping.mem_def.mpr (mem_sortedSet.mp listed)
        obtain ⟨others, same, inside⟩ := named act member
        rw [given, Option.some.injEq] at same
        rw [← same] at inside
        obtain ⟨ordinals, found⟩ := Mapping.mem_iff_get?.mp inside
        rw [found]
        exact attributedAct_ok found (denominator.marked actPages given act member ordinals found)
      have traversed := mapM_ok_of_forall each
      dsimp only
      rw [require_bind_of (unknown_nil (denominator.pages actPages given)), traversed, ok_bind,
        List.map_map, List.map_map]
      have silent : ((sortedSet input.actCategories.keys).map (Prod.fst ∘ fun act =>
          (([], (actPages.get? act).getD []) : List String × List ℤ))).flatten = [] := by
        rw [List.flatten_eq_nil_iff]
        intro reasons member
        obtain ⟨act, -, rfl⟩ := List.mem_map.mp member
        rfl
      refine ⟨_, by rw [silent]; rfl, ?_⟩
      rintro ordinal ⟨others, same, act, member, ordinals, found, inside⟩
      rw [given, Option.some.injEq] at same
      rw [← same] at found
      refine List.mem_flatten.mpr ⟨ordinals, List.mem_map.mpr ⟨act, ?_, ?_⟩, inside⟩
      · exact mem_sortedSet.mpr (Mapping.mem_def.mp member)
      · rw [Function.comp_apply, found]
        rfl

theorem sortedSet_all {words : List String} {word : String} (some : words ≠ [])
    (all : ∀ other ∈ words, other = word) : sortedSet words = [word] := by
  have same : ∀ other, other ∈ words ↔ other ∈ [word] := by
    intro other
    rw [List.mem_singleton]
    refine ⟨all other, ?_⟩
    rintro rfl
    obtain ⟨first, member⟩ := List.exists_mem_of_ne_nil words some
    exact all first member ▸ member
  rw [sortedSet_congr same]
  rfl

/-- A page with acts or with other readings, all of them delivered, gives no reason. -/
theorem sealedPageReasons_ok {attributed : List ℤ} {ordinal : ℤ}
    (listed : (ordinal ∈ attributed ∧ ∀ category ∈ input.others ordinal, category = "delivered") ∨
      (input.others ordinal ≠ [] ∧ ∀ category ∈ input.others ordinal, category = "delivered")) :
    sealedPageReasons input (some attributed) ordinal = [] := by
  have delivered : ∀ category ∈ input.others ordinal, category = "delivered" :=
    listed.elim And.right And.right
  have none : sortedSet ((input.others ordinal).filter (· ≠ ArmariumCategory.delivered.text)) = [] := by
    rw [sortedSet_eq_nil, List.filter_eq_nil_iff]
    intro category member
    rw [decide_eq_true_eq, not_not]
    exact delivered category member
  unfold sealedPageReasons
  dsimp only
  rcases listed with ⟨inside, -⟩ | ⟨some, -⟩
  · rw [if_pos inside, none]
    rfl
  · rw [none, if_neg some, sortedSet_all some delivered]
    simp [ArmariumCategory.text]

theorem pageReasons_ok {pagesWithActs : Option (List ℤ)} {ordinal : ℤ} {page : CensusPage}
    (found : input.census.get? ordinal = some page) (sealedPage : page.outcome = some "sealed")
    (silent : sealedPageReasons input pagesWithActs ordinal = []) :
    pageReasons input pagesWithActs ordinal = .ok [] := by
  have known : ∃ klass, classifyExemplar (some "sealed") = .ok klass := ⟨_, rfl⟩
  obtain ⟨klass, classified⟩ := known
  rw [pageReasons, found]
  dsimp only
  rw [sealedPage, classified, ok_bind, if_neg (not_not.mpr rfl), silent]
  rfl

theorem categoryReasons_ok {act : String} {category : ArmariumCategory}
    (found : input.actCategories.get? act = some (.category category))
    (completed : category.outcomeClass = .completed)
    (whole : category = .delivered → input.textStatus.get? act = some "established")
    (undescribed : category ≠ .delivered → act ∉ input.textStatus) :
    categoryReasons input act = .ok [] := by
  have text : textStatusReasons input act category = .ok [] := by
    unfold textStatusReasons
    split_ifs with other
    · rw [require_bind_of (undescribed other)]
      rfl
    · rw [whole (not_not.mp other)]
      have known : "established" ∈ textStatuses := by decide
      dsimp only
      rw [require_bind_of known]
      rfl
  rw [categoryReasons, found]
  dsimp only
  rw [text, ok_bind, if_neg (not_not.mpr completed)]
  rfl

theorem coverageReasons_ok {act : String} {record : CoverageRecord}
    (found : input.coverage.get? act = some record) (witnessed : record.underWitnessed = some false)
    (answered : record.unresolvedChairs = some 0) : coverageReasons input act = .ok [] := by
  rw [coverageReasons, found]
  dsimp only
  rw [witnessed, answered]
  rfl

/-- A traversal of silent keys gives no reason. -/
theorem silent_keys {κ : Type} [LinearOrder κ] {keys : List κ}
    {step : κ → Except Refusal (List String)} (each : ∀ key ∈ keys, step key = .ok []) :
    ∃ results, (sortedSet keys).mapM step = .ok results ∧ results.flatten = [] := by
  refine ⟨(sortedSet keys).map fun _ => [], ?_, ?_⟩
  · exact mapM_ok_of_forall fun key member => each key (mem_sortedSet.mp member)
  · rw [List.flatten_eq_nil_iff]
    intro reasons member
    obtain ⟨-, -, rfl⟩ := List.mem_map.mp member
    rfl

/-- A run whose inputs share their denominators and reconcile is complete. -/
theorem runAggregate_of_reconciled (denominator : OneDenominator input)
    (reconciled : Reconciled input) :
    ∃ result, runAggregate input = .ok result ∧ result.status = .complete := by
  obtain ⟨attributed, attribution, marks⟩ := attributedPages_ok denominator reconciled.attributed
  have coverage : missingCoverageReasons input = .ok [] := by
    have none : sortedSet (input.actCategories.keys.filter fun act => act ∉ input.coverage) = [] :=
      unknown_nil fun act member => by
        obtain ⟨record, found, -⟩ := reconciled.covered act member
        exact Mapping.mem_iff_get?.mpr ⟨record, found⟩
    rw [missingCoverageReasons]
    rw [require_bind_of (unknown_nil denominator.covered), none]
    rfl
  have described : checkedTextStatus input = .ok () := by
    rw [checkedTextStatus]
    exact require_eq_ok.mpr (unknown_nil fun act member =>
      Mapping.mem_iff_get?.mpr ⟨_, denominator.described act member⟩)
  have edges : edgeHoldReasons input = .ok [] := by
    rw [edgeHoldReasons, reconciled.edges]
    rfl
  have unpaired : unpairedContinuationReasons input = .ok [] := by
    rw [unpairedContinuationReasons, reconciled.continuations]
    rfl
  have clearances : clearanceReasons input = .ok [] := by
    rw [clearanceReasons, reconciled.clearances]
    rfl
  have pageHolds : reviewPageHoldReasons input = .ok [] := by
    rw [reviewPageHoldReasons, Mapping.keys, reconciled.pageHolds]
    rfl
  have systemic : systemicReviewReasons input = .ok [] := by
    rw [systemicReviewReasons, reconciled.systemic]
  have categorySilent : ∀ act ∈ input.actCategories.keys, categoryReasons input act = .ok [] := by
    intro act member
    obtain ⟨given, found⟩ := Mapping.mem_iff_get?.mp (Mapping.mem_def.mpr member)
    obtain ⟨category, rfl, completed⟩ := reconciled.completed act given found
    refine categoryReasons_ok found completed ?_ ?_
    · rintro rfl
      exact reconciled.established act found
    · intro other inStatus
      have delivered := denominator.described act inStatus
      rw [found, Option.some.injEq, ActCategory.category.injEq] at delivered
      exact other delivered
  have coverageSilent : ∀ act ∈ input.coverage.keys, coverageReasons input act = .ok [] := by
    intro act member
    have counted := denominator.covered act (Mapping.mem_def.mpr member)
    obtain ⟨record, found, witnessed, answered⟩ := reconciled.covered act counted
    exact coverageReasons_ok found witnessed answered
  have pageSilent : ∀ ordinal ∈ input.census.keys,
      pageReasons input (some attributed) ordinal = .ok [] := by
    intro ordinal member
    obtain ⟨page, found⟩ := Mapping.mem_iff_get?.mp (Mapping.mem_def.mpr member)
    have sealedPage := reconciled.sealed ordinal page found
    refine pageReasons_ok found sealedPage (sealedPageReasons_ok ?_)
    exact (reconciled.readings ordinal page found sealedPage).imp_left fun held =>
      ⟨marks ordinal held.1, held.2⟩
  obtain ⟨categories, categoriesMade, noCategory⟩ := silent_keys categorySilent
  obtain ⟨coverages, coveragesMade, noCoverage⟩ := silent_keys coverageSilent
  obtain ⟨pages, pagesMade, noPage⟩ := silent_keys pageSilent
  have population : emptyPopulationReasons input = [] :=
    if_neg fun empty => denominator.paged empty.2
  have census : missingCensusReasons input = [] := if_neg fun missing => denominator.paged missing.2
  have chairs : unaddressedChairReasons input = [] := by
    rw [unaddressedChairReasons, reconciled.chairs]
    rfl
  have joins : continuationJoinReasons input = [] := by
    rw [continuationJoinReasons, reconciled.joins]
    rfl
  rw [runAggregate, attribution, ok_bind]
  dsimp only
  rw [coverage, ok_bind, described, ok_bind, edges, ok_bind, unpaired, ok_bind, clearances, ok_bind,
    pageHolds, ok_bind, systemic, ok_bind, categoriesMade, ok_bind, coveragesMade, ok_bind, pagesMade,
    ok_bind]
  refine ⟨_, pure_eq_ok.mpr rfl, ?_⟩
  dsimp only
  rw [population, census, chairs, joins, noCategory, noCoverage, noPage]
  exact if_pos rfl

/-- An accepted attribution names counted acts only, on sealed census pages only. -/
theorem attributedPages_marked {actPages : Mapping String (List ℤ)}
    {result : List String × Option (List ℤ)} (given : input.actPages = some actPages)
    (counted : input.census.items ≠ []) (accepted : attributedPages input = .ok result) :
    (∀ act ∈ actPages, act ∈ input.actCategories) ∧ ∀ act ∈ input.actCategories,
      ∀ ordinals, actPages.get? act = some ordinals → ∀ ordinal ∈ ordinals,
        ∃ page, input.census.get? ordinal = some page ∧ page.outcome = some "sealed" := by
  unfold attributedPages at accepted
  rw [if_neg counted, given] at accepted
  obtain ⟨known, accepted⟩ := require_bind_eq_ok.mp accepted
  obtain ⟨perAct, traversed, -⟩ := bind_eq_ok.mp accepted
  refine ⟨known_of_unknown_nil known, fun act member ordinals found => ?_⟩
  obtain ⟨made, -, result⟩ :=
    mapM_mem_left traversed (mem_sortedSet.mpr (Mapping.mem_def.mp member))
  exact attributedAct_marked found result

/-- A text status is accepted on a delivered act only. -/
theorem categoryReasons_described {act : String} {reasons : List String}
    (described : act ∈ input.textStatus) (member : act ∈ input.actCategories)
    (accepted : categoryReasons input act = .ok reasons) :
    input.actCategories.get? act = some (.category .delivered) := by
  obtain ⟨given, found⟩ := Mapping.mem_iff_get?.mp member
  rw [categoryReasons, found] at accepted
  cases given with
  | word text => cases accepted
  | category category =>
      obtain ⟨text, checked, -⟩ := bind_eq_ok.mp accepted
      unfold textStatusReasons at checked
      split_ifs at checked with other
      · exact absurd described (require_bind_eq_ok.mp checked).1
      · rw [found, not_not.mp other]

/-- An accepted run without a reason shares its denominators. -/
theorem runAggregate_oneDenominator {result : Aggregate}
    (accepted : runAggregate input = .ok result) (silent : result.reasons = []) :
    OneDenominator input := by
  obtain ⟨⟨attribution, pagesWithActs⟩, attributed, accepted⟩ := bind_eq_ok.mp accepted
  obtain ⟨missingCoverage, covered, accepted⟩ := bind_eq_ok.mp accepted
  obtain ⟨⟨⟩, described, accepted⟩ := bind_eq_ok.mp accepted
  obtain ⟨edges, -, accepted⟩ := bind_eq_ok.mp accepted
  obtain ⟨unpaired, -, accepted⟩ := bind_eq_ok.mp accepted
  obtain ⟨clearances, -, accepted⟩ := bind_eq_ok.mp accepted
  obtain ⟨pageHolds, -, accepted⟩ := bind_eq_ok.mp accepted
  obtain ⟨systemic, -, accepted⟩ := bind_eq_ok.mp accepted
  obtain ⟨categories, categorized, accepted⟩ := bind_eq_ok.mp accepted
  obtain ⟨coverage, -, accepted⟩ := bind_eq_ok.mp accepted
  obtain ⟨pages, -, accepted⟩ := bind_eq_ok.mp accepted
  rw [pure_eq_ok] at accepted
  subst accepted
  simp only [List.append_eq_nil_iff, and_assoc] at silent
  obtain ⟨population, -, -, census, -⟩ := silent
  have counted : input.census.items ≠ [] := by
    rcases missingCensusReasons_nil census with noActs | counted
    · exact (emptyPopulationReasons_nil population).resolve_left (not_not.mpr noActs)
    · exact counted
  obtain ⟨expected, -⟩ := require_bind_eq_ok.mp covered
  have inside := known_of_unknown_nil (require_eq_ok.mp described)
  exact {
    paged := counted
    pages := fun actPages given => (attributedPages_marked given counted attributed).1
    marked := fun actPages given => (attributedPages_marked given counted attributed).2
    covered := known_of_unknown_nil expected
    described := fun act member => by
      have known := inside act member
      obtain ⟨reasons, -, made⟩ :=
        mapM_mem_left categorized (mem_sortedSet.mpr (Mapping.mem_def.mp known))
      exact categoryReasons_described member known made }

/-- Which runs are complete: the ones that share their denominators and reconcile. -/
theorem runAggregate_complete_iff :
    (∃ result, runAggregate input = .ok result ∧ result.status = .complete) ↔
      OneDenominator input ∧ Reconciled input := by
  constructor
  · rintro ⟨result, accepted, complete⟩
    have silent : result.reasons = [] := by
      rw [runAggregate_status accepted] at complete
      split_ifs at complete with silent
      exact silent
    exact ⟨runAggregate_oneDenominator accepted silent, runAggregate_reconciled accepted silent⟩
  · rintro ⟨denominator, reconciled⟩
    exact runAggregate_of_reconciled denominator reconciled

end Accepted

section Pages

/-- An act's attribution names at least one sealed page of the census. -/
def OnSealedPage (input : RunInput) (act : String) : Prop :=
  ∃ actPages ordinals, input.actPages = some actPages ∧ actPages.get? act = some ordinals ∧
    ∃ ordinal ∈ ordinals, ∃ page, input.census.get? ordinal = some page ∧
      page.outcome = some "sealed"

/-- An act is mapped to a sequence of pages that has none. -/
def MappedToNoPage (input : RunInput) (act : String) : Prop :=
  ∃ actPages, input.actPages = some actPages ∧ actPages.get? act = some []

/-- In a run that is complete, only an act mapped to no page is on no sealed one. -/
theorem onSealedPage_iff (denominator : OneDenominator input) (reconciled : Reconciled input)
    {act : String} (member : act ∈ input.actCategories) :
    OnSealedPage input act ↔ ¬ MappedToNoPage input act := by
  constructor
  · rintro ⟨actPages, ordinals, given, found, ordinal, listed, -⟩ ⟨others, same, none⟩
    rw [given, Option.some.injEq] at same
    rw [← same, found, Option.some.injEq] at none
    rw [none] at listed
    exact List.not_mem_nil listed
  · intro some
    obtain ⟨actPages, given, inside⟩ := reconciled.attributed act member
    obtain ⟨ordinals, found⟩ := Mapping.mem_iff_get?.mp inside
    have nonempty : ordinals ≠ [] := by
      rintro rfl
      exact some ⟨actPages, given, found⟩
    obtain ⟨ordinal, listed⟩ := List.exists_mem_of_ne_nil ordinals nonempty
    exact ⟨actPages, ordinals, given, found, ordinal, listed,
      denominator.marked actPages given act member ordinals found ordinal listed⟩

/-- Every act of a complete run is on a sealed page, unless one is mapped to no page and the run
has no other shortfall. -/
theorem runAggregate_onSealedPage_iff (input : RunInput) :
    (∀ result, runAggregate input = .ok result → result.status = .complete →
        ∀ act ∈ input.actCategories, OnSealedPage input act) ↔
      (∀ act ∈ input.actCategories, ¬ MappedToNoPage input act) ∨ ¬ OneDenominator input ∨
        ¬ Reconciled input := by
  rw [← not_and_or, ← runAggregate_complete_iff]
  constructor
  · intro attributed
    rw [or_iff_not_imp_right, not_not]
    intro ⟨result, accepted, complete⟩ act member
    have whole := runAggregate_complete_iff.mp ⟨result, accepted, complete⟩
    exact (onSealedPage_iff whole.1 whole.2 member).mp
      (attributed result accepted complete act member)
  · rintro (mapped | shortfall) result accepted complete act member
    · have whole := runAggregate_complete_iff.mp ⟨result, accepted, complete⟩
      exact (onSealedPage_iff whole.1 whole.2 member).mpr (mapped act member)
    · exact absurd ⟨result, accepted, complete⟩ shortfall

/-- A run of one sealed page, on which the first of its two acts was marked out. -/
def maskedInput : RunInput where
  actCategories := ⟨[("act-1", .category .delivered), ("act-2", .category .delivered)], by simp⟩
  coverageRecords := some ⟨[("act-1", ⟨some false, some 0, .empty, 0, 1⟩),
    ("act-2", ⟨some false, some 0, .empty, 0, 1⟩)], by simp⟩
  pageCensus := some ⟨[(1, ⟨some "sealed", none⟩)], by simp⟩
  unaddressedChairs := none
  actPages := some ⟨[("act-1", [1]), ("act-2", [])], by simp⟩
  actTextStatus := some ⟨[("act-1", "established"), ("act-2", "established")], by simp⟩
  edgeHoldPages := none
  continuationJoins := none
  otherCategoriesByPage := none
  unpairedContinuations := []
  reviewClearances := []
  reviewPageHolds := none
  systemicReview := none

/-- The act mapped to no page is masked by the other act, and the run is complete. -/
theorem maskedInput_complete :
    (∃ result, runAggregate maskedInput = .ok result ∧ result.status = .complete) ∧
      "act-2" ∈ maskedInput.actCategories ∧ ¬ OnSealedPage maskedInput "act-2" := by
  refine ⟨?_, by decide, ?_⟩
  · exact ⟨⟨.complete, [("delivered", 2)], [("sealed", 1)], []⟩, by decide +kernel, rfl⟩
  · rintro ⟨actPages, ordinals, given, found, ordinal, listed, -⟩
    rw [← Option.some.inj given] at found
    rw [← Option.some.inj found] at listed
    exact List.not_mem_nil listed

end Pages

end Verbatus.Outcomes
