import Mathlib
import Verbatus.Library.Ownership

namespace Verbatus.PagePath

open Library.Ownership

/-- The act class of an entry kind. -/
inductive ActKind where
  | act
  | other
  deriving DecidableEq, Repr

/-- What a re-read's plans are compared by, and the holds its own rules leave on them. -/
structure EntryPlan where
  kind : ActKind
  citedIds : List String
  readingHolds : List String
  deriving DecidableEq

def supersededActNotRead : String := "superseded-act-not-read"

def actEntries (plans : List EntryPlan) : List EntryPlan := plans.filter fun plan => plan.kind = .act

/-- An act entry citing nothing reads no ink, so it cannot stand for a replaced act. -/
def readingsOf (plans : List EntryPlan) : List (Finset String) :=
  (plans.filter fun plan => plan.kind = .act ∧ plan.citedIds ≠ []).map fun plan =>
    plan.citedIds.toFinset

/-- The number of act entries that cite an id. -/
def owners (acts : List EntryPlan) (cited : String) : ℕ :=
  acts.countP fun entry => cited ∈ entry.citedIds.toFinset

def ownIds (acts : List EntryPlan) (entry : EntryPlan) : Finset String :=
  entry.citedIds.toFinset.filter fun cited => owners acts cited = 1

/-- The union of a list of sets. -/
def unionOf (sets : List (Finset String)) : Finset String := sets.foldr (· ∪ ·) ∅

/-- One followed act: a single reading covers it, all of it, and no other act's own ids. -/
def followed (own readings : List (Finset String)) (ids : Finset String) (index : ℕ) : Bool :=
  let others := unionOf (own.eraseIdx index)
  let covering := readings.filter fun cited => cited ∩ ids ≠ ∅
  match covering with
  | [cited] => ids ⊆ cited ∧ cited ∩ others = ∅
  | _ => false

/-- Whether a re-read reads every act of the reading it replaces as one act of its own. -/
def supersededActsKept (superseded plans : List EntryPlan) : Bool :=
  let acts := actEntries superseded
  let readings := readingsOf plans
  if readings.length < acts.length then false else
  let own := acts.map (ownIds acts)
  if (∃ ids ∈ own, ids = ∅) ∧
      ¬ unionOf readings ⊆ unionOf (acts.map fun entry => entry.citedIds.toFinset) then false else
  own.zipIdx.all fun (ids, index) => ids = ∅ || followed own readings ids index

/-- The re-read's plans with the hold its rule appends where an act of the replaced reading is lost. -/
def holdSuperseded (superseded : Option (List EntryPlan)) (plans : List EntryPlan) : List EntryPlan :=
  match superseded with
  | some replaced =>
    if supersededActsKept replaced plans then plans
    else plans.map fun plan =>
      { plan with readingHolds := plan.readingHolds ++ [supersededActNotRead] }
  | none => plans

/-- Whether a re-read's plans become what the page's next re-read is planned against. -/
def keepsCounted (plans : List EntryPlan) : Bool :=
  match plans with
  | [] => false
  | first :: _ => supersededActNotRead ∉ first.readingHolds

/-- A re-read that is counted kept every act of the reading it was planned against. -/
theorem keepsCounted_holdSuperseded {superseded plans : List EntryPlan}
    (counted : keepsCounted (holdSuperseded (some superseded) plans) = true) :
    supersededActsKept superseded plans = true := by
  by_contra lost
  rw [holdSuperseded, if_neg lost] at counted
  cases plans with
  | nil => simp [keepsCounted] at counted
  | cons first rest => simp [keepsCounted] at counted

section Families

/-- The ids each act entry of a reading cites, by the entry's place among the act entries. -/
def actClaims (plans : List EntryPlan) (index : Fin (actEntries plans).length) : Set String :=
  {cited | cited ∈ ((actEntries plans).get index).citedIds}

theorem countP_eq_one_iff {α : Type} {holds : α → Bool} {elements : List α} {index : ℕ}
    (inside : index < elements.length) (held : holds elements[index] = true) :
    elements.countP holds = 1 ↔
      ∀ other (within : other < elements.length), holds elements[other] = true → other = index := by
  induction elements generalizing index with
  | nil => exact absurd inside (Nat.not_lt_zero _)
  | cons element elements ih =>
      rw [List.countP_cons]
      cases index with
      | zero =>
          rw [List.getElem_cons_zero] at held
          rw [if_pos held, Nat.add_eq_right, List.countP_eq_zero]
          constructor
          · intro none other within also
            cases other with
            | zero => rfl
            | succ other =>
                exact absurd also (none _ (List.getElem_mem (Nat.lt_of_succ_lt_succ within)))
          · intro unique later member also
            obtain ⟨place, within, rfl⟩ := List.mem_iff_getElem.mp member
            exact absurd (unique (place + 1) (Nat.succ_lt_succ within) also) (Nat.succ_ne_zero _)
      | succ index =>
          rw [List.getElem_cons_succ] at held
          have tail := ih (Nat.lt_of_succ_lt_succ inside) held
          have some : 0 < elements.countP holds :=
            List.countP_pos_iff.mpr ⟨_, List.getElem_mem _, held⟩
          split_ifs with first
          · constructor
            · intro one
              omega
            · intro unique
              exact absurd (unique 0 (Nat.succ_pos _) first) (Nat.succ_ne_zero _).symm
          · rw [Nat.add_zero, tail]
            constructor
            · intro unique other within also
              cases other with
              | zero => exact absurd also first
              | succ other => rw [unique other (Nat.lt_of_succ_lt_succ within) also]
            · intro unique other within also
              exact Nat.succ.inj (unique (other + 1) (Nat.succ_lt_succ within) also)

variable {plans : List EntryPlan}

/-- An entry's own ids are the ones no other act entry cites. -/
theorem mem_ownIds (index : Fin (actEntries plans).length) (cited : String) :
    cited ∈ ownIds (actEntries plans) ((actEntries plans).get index) ↔
      cited ∈ own (actClaims plans) index := by
  simp only [ownIds, Finset.mem_filter, List.mem_toFinset, own, actClaims, Set.mem_ofPred_eq]
  apply and_congr_right
  intro claimed
  rw [owners, countP_eq_one_iff index.isLt (by simpa using claimed)]
  simp only [List.mem_toFinset, decide_eq_true_eq, List.get_eq_getElem]
  constructor
  · intro unique other also
    exact Fin.ext (unique other other.isLt also)
  · intro unique other within also
    exact congrArg Fin.val (unique ⟨other, within⟩ also)

theorem mem_unionOf {sets : List (Finset String)} {cited : String} :
    cited ∈ unionOf sets ↔ ∃ set ∈ sets, cited ∈ set := by
  induction sets with
  | nil => simp [unionOf]
  | cons set sets ih =>
      change cited ∈ set ∪ unionOf sets ↔ _
      simp [ih]

/-- A reading that covers an id is an act entry that cites it. -/
theorem covering_eq (ids : Finset String) :
    (readingsOf plans).filter (fun cited => cited ∩ ids ≠ ∅) =
      ((actEntries plans).filter fun entry => entry.citedIds.toFinset ∩ ids ≠ ∅).map
        fun entry => entry.citedIds.toFinset := by
  rw [readingsOf, actEntries, List.filter_map, List.filter_filter, List.filter_filter]
  congr 1
  apply List.filter_congr
  intro plan _
  by_cases empty : plan.citedIds = [] <;> simp [empty, Bool.and_comm]

theorem followed_eq_true {ownSets readings : List (Finset String)} {ids : Finset String} {index : ℕ} :
    followed ownSets readings ids index = true ↔
      ∃ cited, readings.filter (fun cited => cited ∩ ids ≠ ∅) = [cited] ∧
        ids ⊆ cited ∧ cited ∩ unionOf (ownSets.eraseIdx index) = ∅ := by
  unfold followed
  dsimp only
  split
  · next cited single =>
      simp only [single, List.cons.injEq, and_true, exists_eq_left', decide_eq_true_eq]
  · next several =>
      simp only [Bool.false_eq_true, false_iff, not_exists]
      rintro cited ⟨single, -⟩
      exact several cited single

/-- What the check of one re-read gives: as many acts, and every followed act in one place. -/
theorem supersededActsKept_follows {superseded : List EntryPlan}
    (kept : supersededActsKept superseded plans = true) :
    (actEntries superseded).length ≤ (actEntries plans).length ∧
      ∃ image : Owner (actClaims superseded) → Fin (actEntries plans).length,
        Follows (actClaims superseded) (actClaims plans) image := by
  rw [supersededActsKept] at kept
  dsimp only at kept
  split_ifs at kept with fewer stranger
  have readings : (readingsOf plans).length ≤ (actEntries plans).length := by
    rw [readingsOf, List.length_map, actEntries, ← List.countP_eq_length_filter,
      ← List.countP_eq_length_filter]
    exact List.countP_mono_left fun plan _ both => by simp_all
  refine ⟨by omega, ?_⟩
  have covered (owner : Owner (actClaims superseded)) : ∃ index : Fin (actEntries plans).length,
      own (actClaims superseded) owner ⊆ own (actClaims plans) index ∧
      ∀ other : Owner (actClaims superseded), owner ≠ other →
        Disjoint (actClaims plans index) (own (actClaims superseded) other) := by
    obtain ⟨place, item, owned⟩ := owner
    have inOwn := (mem_ownIds place item).mpr owned
    have listed : (ownIds (actEntries superseded) ((actEntries superseded).get place), (place : ℕ)) ∈
        ((actEntries superseded).map (ownIds (actEntries superseded))).zipIdx := by
      rw [List.mk_mem_zipIdx_iff_getElem?, List.getElem?_map,
        List.getElem?_eq_getElem place.isLt]
      rfl
    have follows := List.all_eq_true.mp kept _ listed
    rw [Bool.or_eq_true, decide_eq_true_eq, followed_eq_true] at follows
    dsimp only at follows
    rcases follows with empty | ⟨cited, single, subset, clear⟩
    · rw [empty] at inOwn
      exact absurd inOwn (Finset.notMem_empty item)
    rw [covering_eq] at single
    have one := congrArg List.length single
    rw [List.length_map, ← List.countP_eq_length_filter, List.length_singleton] at one
    obtain ⟨entry, member, covers⟩ := List.countP_pos_iff.mp (one ▸ Nat.one_pos)
    obtain ⟨index, within, rfl⟩ := List.mem_iff_getElem.mp member
    have unique := (countP_eq_one_iff within covers).mp one
    have citedEq : (actEntries plans)[index].citedIds.toFinset = cited := by
      have held : (actEntries plans)[index].citedIds.toFinset ∈
          ((actEntries plans).filter fun entry => entry.citedIds.toFinset ∩
            ownIds (actEntries superseded) ((actEntries superseded).get place) ≠ ∅).map
              fun entry => entry.citedIds.toFinset :=
        List.mem_map_of_mem (List.mem_filter.mpr ⟨member, covers⟩)
      rw [single] at held
      exact List.mem_singleton.mp held
    refine ⟨⟨index, within⟩, ?_, ?_⟩
    · intro id ownId
      have inIds := (mem_ownIds place id).mpr ownId
      have inCited := subset inIds
      rw [← citedEq, List.mem_toFinset] at inCited
      refine ⟨inCited, fun other claimed => Fin.ext (unique other other.isLt ?_)⟩
      rw [decide_eq_true_eq, ← Finset.nonempty_iff_ne_empty]
      exact ⟨id, Finset.mem_inter.mpr ⟨List.mem_toFinset.mpr claimed, inIds⟩⟩
    · intro other different
      rw [Set.disjoint_left]
      intro id claimed otherOwn
      have inCited : id ∈ cited := by
        rw [← citedEq, List.mem_toFinset]
        exact claimed
      have inOthers : id ∈ unionOf (((actEntries superseded).map
          (ownIds (actEntries superseded))).eraseIdx place) := by
        refine mem_unionOf.mpr ⟨ownIds (actEntries superseded) ((actEntries superseded).get other.1),
          ?_, (mem_ownIds other.1 id).mpr otherOwn⟩
        refine List.mem_eraseIdx_iff_getElem.mpr ⟨other.1, by simp, ?_, by simp⟩
        exact fun same => different (Subtype.ext (Fin.ext same.symm))
      have both := Finset.mem_inter.mpr ⟨inCited, inOthers⟩
      rw [clear] at both
      exact Finset.notMem_empty id both
  choose image follows using covered
  exact ⟨image, fun owner => (follows owner).1, fun owner => (follows owner).2⟩

/-- Over any chain of re-reads, each one kept, the acts never fall and every followed act stays
in one act entry of its own. -/
theorem supersededActsKept_chain {readings : ℕ → List EntryPlan} {last : ℕ}
    (kept : ∀ step < last, supersededActsKept (readings step) (readings (step + 1)) = true) :
    (∀ step < last, (actEntries (readings step)).length ≤ (actEntries (readings (step + 1))).length) ∧
      ∃ image : Owner (actClaims (readings 0)) → Fin (actEntries (readings last)).length,
        Function.Injective image ∧
        (∀ owner : Owner (actClaims (readings 0)),
          own (actClaims (readings 0)) owner ⊆ actClaims (readings last) (image owner)) ∧
        (∀ owner : Owner (actClaims (readings 0)), ∀ id ∈ own (actClaims (readings 0)) owner,
          ∀ index, id ∈ actClaims (readings last) index → index = image owner) ∧
        ∀ owner other : Owner (actClaims (readings 0)), owner ≠ other →
          Disjoint (actClaims (readings last) (image owner)) (own (actClaims (readings 0)) other) := by
  refine ⟨fun step before => (supersededActsKept_follows (kept step before)).1, ?_⟩
  obtain ⟨image, follows⟩ : ∃ image : Owner (actClaims (readings 0)) →
      Fin (actEntries (readings last)).length,
      Follows (actClaims (readings 0)) (actClaims (readings last)) image := by
    induction last with
    | zero => exact ⟨_, Follows.refl _⟩
    | succ last ih =>
        obtain ⟨image, follows⟩ := ih fun step before => kept step (before.trans (Nat.lt_succ_self _))
        obtain ⟨-, next, nextFollows⟩ := supersededActsKept_follows (kept last (Nat.lt_succ_self _))
        exact ⟨_, follows.trans nextFollows⟩
  exact ⟨image, follows.injective, fun owner => (follows.kept owner).trans (own_subset _ _),
    fun owner id owned index claimed => own_unique (follows.kept owner owned) claimed,
    follows.apart⟩

/-- Three readings of one page, the last with its entries in another order. -/
def rereadChain (step : ℕ) : List EntryPlan :=
  if step < 2 then [⟨.act, ["A1", "B1"], []⟩, ⟨.act, ["A2"], []⟩]
  else [⟨.act, ["A2", "B2"], []⟩, ⟨.other, ["B3"], []⟩, ⟨.act, ["A1", "B1"], []⟩]

theorem supersededActsKept_rereadChain :
    (∀ step < 2, supersededActsKept (rereadChain step) (rereadChain (step + 1)) = true) ∧
      ∃ image : Owner (actClaims (rereadChain 0)) → Fin (actEntries (rereadChain 2)).length,
        Function.Injective image := by
  have kept : ∀ step < 2, supersededActsKept (rereadChain step) (rereadChain (step + 1)) = true := by
    decide
  obtain ⟨-, image, injective, -⟩ := supersededActsKept_chain kept
  exact ⟨kept, image, injective⟩

end Families

end Verbatus.PagePath
