import Verbatus.Receipt.Partition

namespace Verbatus.Receipt

open Library Library.Checked Refusal Python CodePoint Canonical Outcomes
open Identities (str)

section Reasons

theorem itemReasons_eq_nil {item : Item} : itemReasons item = [] ↔
    item.partitionClass = .completed ∧ item.coverage.underWitnessed = false ∧
      item.coverage.unresolvedChairs = 0 := by
  unfold itemReasons
  by_cases completed : item.partitionClass = .completed <;>
    by_cases chairless : item.coverage.unresolvedChairs = 0 <;>
    cases item.coverage.underWitnessed <;> simp [completed, chairless]

theorem linkReasons_eq_nil {link : Link} : linkReasons link = [] ↔ link.outcome = str "accepted" := by
  unfold linkReasons
  split_ifs with refused <;> simp_all

theorem reasonsOf_eq_nil {items : List Item} {links : List Link} {holds : List PageHold} :
    reasonsOf items links holds = [] ↔ (∀ item ∈ items, itemReasons item = []) ∧
      (∀ link ∈ links, linkReasons link = []) ∧ holds = [] := by
  simp only [reasonsOf, List.append_eq_nil_iff, List.flatMap_eq_nil_iff, List.map_eq_nil_iff,
    and_assoc]

theorem statusOf_complete {reasons : List Str} :
    statusOf reasons = str "complete" ↔ reasons = [] := by
  have differ : str "partial" ≠ str "complete" := by decide
  unfold statusOf
  split_ifs with none <;> simp_all

end Reasons

section Coverage

/-- The chairs whose outcomes are in a class. -/
def classCount (byOutcome : List (Str × ℤ)) (klass : OutcomeClass) : ℤ :=
  ((byOutcome.filter fun entry => classIn attestatoresVocabulary entry.1 = some klass).map
    Prod.snd).sum

/-- What an accepted coverage derives from its counts per outcome, its floor and its truncations. -/
structure Coverage.Derived (coverage : Coverage) : Prop where
  total : (coverage.byOutcome.map Prod.snd).sum = coverage.configured
  known : ∀ entry ∈ coverage.byOutcome, (classIn attestatoresVocabulary entry.1).isSome = true
  byClass : ∀ klass, coverage.byClass klass = classCount coverage.byOutcome klass
  unresolved : coverage.unresolvedChairs = coverage.byClass .unresolved
  flag : coverage.underWitnessed =
    decide (witnessedCount coverage.byOutcome coverage.truncated < coverage.floor)
  truncated : 0 ≤ coverage.truncated ∧ coverage.truncated ≤ readingChairs coverage.byOutcome
  failed : coverage.failed = chairs coverage.byOutcome "failed"
  unaligned : coverage.unaligned = 0

theorem mem_outcomeClasses (klass : OutcomeClass) : klass ∈ outcomeClasses := by
  cases klass <;> decide

theorem derivedByClass_eq {byOutcome : List (Str × ℤ)} {derived : OutcomeClass → ℤ}
    (made : derivedByClass byOutcome = .ok derived) :
    (∀ entry ∈ byOutcome, (classIn attestatoresVocabulary entry.1).isSome = true) ∧
      ∀ klass, derived klass = classCount byOutcome klass := by
  obtain ⟨classes, traversed, counted⟩ := bind_eq_ok.mp made
  cases counted
  have each := mapM_eq_ok.mp traversed
  clear traversed made
  induction each with
  | nil => exact ⟨fun _ member => (nomatch member), fun _ => rfl⟩
  | @cons entry found entries classes first rest ih =>
      cases read : classIn attestatoresVocabulary entry.1 with
      | none =>
          rw [read] at first
          cases first
      | some klass =>
          rw [read] at first
          cases first
          refine ⟨?_, fun other => ?_⟩
          · intro entry member
            rcases List.mem_cons.mp member with rfl | member
            · rw [read]
              rfl
            · exact ih.1 entry member
          · have tail := ih.2 other
            simp only [classCount] at tail ⊢
            by_cases same : klass = other
            · simp [read, same, tail]
            · simp [read, same, tail]

theorem count?_nonneg {value : JsonValue} {count : ℤ} (read : count? value = some count) :
    0 ≤ count := by
  cases value with
  | int given =>
      rw [count?] at read
      split_ifs at read with nonneg
      cases read
      exact nonneg
  | null | bool | float | str | list | object => cases read

theorem readTruncated_bounds {shortfalls : JsonValue} {readings truncated : ℤ}
    (read : readTruncated shortfalls readings = .ok truncated) :
    0 ≤ truncated ∧ truncated ≤ readings := by
  cases shortfalls with
  | object fields =>
      simp only [readTruncated] at read
      cases found : count? (fieldOf "truncated" fields) with
      | none =>
          rw [found] at read
          cases read
      | some count =>
          rw [found] at read
          obtain ⟨within, read⟩ := require_bind_eq_ok.mp read
          cases read
          exact ⟨count?_nonneg found, within⟩
  | null | bool | int | float | str | list => cases read

/-- A coverage its check accepts is derived from its counts. -/
theorem validateCoverage_derived {value : JsonValue} {coverage : Coverage}
    (accepted : validateCoverage value = .ok coverage) : coverage.Derived := by
  cases value with
  | object fields =>
      obtain ⟨-, accepted⟩ := require_bind_eq_ok.mp accepted
      obtain ⟨configured, -, accepted⟩ := bind_eq_ok.mp accepted
      obtain ⟨floor, -, accepted⟩ := bind_eq_ok.mp accepted
      obtain ⟨unresolved, -, accepted⟩ := bind_eq_ok.mp accepted
      obtain ⟨byOutcome, -, accepted⟩ := bind_eq_ok.mp accepted
      obtain ⟨byClass, -, accepted⟩ := bind_eq_ok.mp accepted
      obtain ⟨total, accepted⟩ := require_bind_eq_ok.mp accepted
      obtain ⟨-, accepted⟩ := require_bind_eq_ok.mp accepted
      obtain ⟨chairless, accepted⟩ := require_bind_eq_ok.mp accepted
      obtain ⟨flag, -, accepted⟩ := bind_eq_ok.mp accepted
      obtain ⟨truncated, cut, accepted⟩ := bind_eq_ok.mp accepted
      obtain ⟨judged, accepted⟩ := require_bind_eq_ok.mp accepted
      obtain ⟨derived, classified, accepted⟩ := bind_eq_ok.mp accepted
      obtain ⟨agree, accepted⟩ := require_bind_eq_ok.mp accepted
      obtain ⟨health, -, accepted⟩ := bind_eq_ok.mp accepted
      obtain ⟨⟨failed, unaligned⟩, -, accepted⟩ := bind_eq_ok.mp accepted
      obtain ⟨-, accepted⟩ := require_bind_eq_ok.mp accepted
      obtain ⟨aligned, accepted⟩ := require_bind_eq_ok.mp accepted
      obtain ⟨counted, accepted⟩ := require_bind_eq_ok.mp accepted
      cases accepted
      obtain ⟨known, classes⟩ := derivedByClass_eq classified
      exact ⟨total, known, fun klass => (agree klass (mem_outcomeClasses klass)).trans (classes klass),
        chairless, judged, readTruncated_bounds cut, counted, aligned⟩
  | null | bool | int | float | str | list => cases accepted

end Coverage

section Items

/-- What an accepted item's class, release reason and coverage are. -/
structure Item.Derived (item : Item) : Prop where
  classified : classIn recensorVocabulary item.reviewOutcome = some item.partitionClass
  released : item.releaseReason.isSome = true ↔
    item.held = true ∧ item.partitionClass = .completed
  coverage : item.coverage.Derived

theorem readOutcome_classified {value : JsonValue} {outcome : Str} {klass : OutcomeClass}
    (read : readOutcome value = .ok (outcome, klass)) :
    classIn recensorVocabulary outcome = some klass := by
  cases value with
  | str text =>
      simp only [readOutcome] at read
      cases found : classIn recensorVocabulary text with
      | none =>
          rw [found] at read
          cases read
      | some other =>
          rw [found] at read
          cases read
          exact found
  | null | bool | int | float | list | object => cases read

theorem validateRelease_isSome {released : Bool} {reason : JsonValue} {text : Option Str}
    (accepted : validateRelease released reason = .ok text) : text.isSome = released := by
  unfold validateRelease at accepted
  split at accepted
  · obtain ⟨-, accepted⟩ := require_bind_eq_ok.mp accepted
    cases accepted
    rfl
  · cases accepted
  · cases accepted
    rfl
  · cases accepted

/-- An item its check accepts is derived from its review and its page reading. -/
theorem validateItem_derived {value : JsonValue} {item : Item}
    (accepted : validateItem value = .ok item) : item.Derived := by
  cases value with
  | object fields =>
      obtain ⟨-, accepted⟩ := require_bind_eq_ok.mp accepted
      obtain ⟨actId, -, accepted⟩ := bind_eq_ok.mp accepted
      obtain ⟨actKey, -, accepted⟩ := bind_eq_ok.mp accepted
      obtain ⟨-, accepted⟩ := require_bind_eq_ok.mp accepted
      obtain ⟨held, -, accepted⟩ := bind_eq_ok.mp accepted
      obtain ⟨⟨outcome, klass⟩, outcomeRead, accepted⟩ := bind_eq_ok.mp accepted
      obtain ⟨-, accepted⟩ := require_bind_eq_ok.mp accepted
      obtain ⟨review, -, accepted⟩ := bind_eq_ok.mp accepted
      obtain ⟨reason, releaseRead, accepted⟩ := bind_eq_ok.mp accepted
      obtain ⟨coverage, coverageRead, accepted⟩ := bind_eq_ok.mp accepted
      cases accepted
      refine ⟨readOutcome_classified outcomeRead, ?_, validateCoverage_derived coverageRead⟩
      rw [validateRelease_isSome releaseRead, Bool.and_eq_true, decide_eq_true_eq]
  | null | bool | int | float | str | list => cases accepted

end Items

section Pages

/-- A re-ask whose parts split what it names, each id once and in the order named. -/
structure Reask.Splits (reask : Reask) : Prop where
  once : reask.named.Nodup
  whole : reask.parts.flatten.Perm reask.named
  ordered : ∀ part ∈ reask.parts, part.Sublist reask.named

theorem readPart_sublist {named part : List Str} {value : JsonValue}
    (read : readPart named value = .ok part) : part.Sublist named := by
  unfold readPart at read
  split at read
  · obtain ⟨ordered, read⟩ := require_bind_eq_ok.mp read
    cases read
    rw [ordered]
    exact List.filter_sublist
  · cases read

theorem readNamed_nodup {value : JsonValue} {named : List Str} (read : readNamed value = .ok named) :
    named.Nodup := by
  unfold readNamed at read
  split at read
  · obtain ⟨⟨-, -, once⟩, read⟩ := require_bind_eq_ok.mp read
    cases read
    exact once
  · cases read

theorem readReask_splits {value : JsonValue} {reask : Reask} (read : readReask value = .ok reask) :
    reask.Splits := by
  cases value with
  | object fields =>
      obtain ⟨-, read⟩ := require_bind_eq_ok.mp read
      obtain ⟨named, namedRead, read⟩ := bind_eq_ok.mp read
      obtain ⟨cleared, clearedRead, read⟩ := bind_eq_ok.mp read
      obtain ⟨setAside, setAsideRead, read⟩ := bind_eq_ok.mp read
      obtain ⟨held, heldRead, read⟩ := bind_eq_ok.mp read
      obtain ⟨unread, unreadRead, read⟩ := bind_eq_ok.mp read
      obtain ⟨same, read⟩ := require_bind_eq_ok.mp read
      obtain ⟨duplicate, -, read⟩ := bind_eq_ok.mp read
      cases read
      refine ⟨readNamed_nodup namedRead, ?_, ?_⟩
      · have joined : (cleared ++ setAside ++ held ++ unread).Perm named :=
          (sortBy_perm id _).symm.trans (same ▸ sortBy_perm id named)
        simpa [Reask.parts] using joined
      · simp only [Reask.parts, List.mem_cons, List.not_mem_nil, or_false]
        intro part member
        rcases member with rfl | rfl | rfl | rfl
        · exact readPart_sublist clearedRead
        · exact readPart_sublist setAsideRead
        · exact readPart_sublist heldRead
        · exact readPart_sublist unreadRead
  | null | bool | int | float | str | list => cases read

theorem validateReask_splits {reference reask : JsonValue} {asked : Reference} {found : Reask}
    (accepted : validateReask reference reask = .ok (some (asked, found))) : found.Splits := by
  unfold validateReask at accepted
  split at accepted
  · cases accepted
  · cases accepted
  · cases accepted
  · obtain ⟨other, -, accepted⟩ := bind_eq_ok.mp accepted
    obtain ⟨split, splitRead, accepted⟩ := bind_eq_ok.mp accepted
    cases accepted
    exact readReask_splits splitRead

theorem validatePage_splits {value : JsonValue} {page : PageRow}
    (accepted : validatePage value = .ok page) {asked : Reference} {reask : Reask}
    (named : page.reask = some (asked, reask)) : reask.Splits := by
  cases value with
  | object fields =>
      obtain ⟨-, accepted⟩ := require_bind_eq_ok.mp accepted
      cases ordinal : fieldOf "page_ordinal" fields with
      | int number =>
          rw [ordinal] at accepted
          obtain ⟨-, accepted⟩ := require_bind_eq_ok.mp accepted
          obtain ⟨reading, -, accepted⟩ := bind_eq_ok.mp accepted
          obtain ⟨accounting, -, accepted⟩ := bind_eq_ok.mp accepted
          obtain ⟨found, split, accepted⟩ := bind_eq_ok.mp accepted
          cases accepted
          cases named
          exact validateReask_splits split
      | null | bool | float | str | list | object =>
          rw [ordinal] at accepted
          cases accepted
  | null | bool | int | float | str | list => cases accepted

theorem nodup_sortedSet {α : Type} [LinearOrder α] {elements : List α}
    (same : elements = sortedSet elements) : elements.Nodup := by
  rw [same, sortedSet, (List.perm_insertionSort _ _).nodup_iff]
  exact List.nodup_dedup elements

end Pages

end Verbatus.Receipt
