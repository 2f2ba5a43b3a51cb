import Mathlib.Tactic

namespace Verbatus.Library.Checked

variable {ε α β : Type}

/-- A check that refuses with the given error unless the condition holds. -/
def require (condition : Prop) [Decidable condition] (error : ε) : Except ε Unit :=
  if condition then .ok () else .error error

@[simp] theorem require_eq_ok {condition : Prop} [Decidable condition] {error : ε} {result : Unit} :
    require condition error = .ok result ↔ condition := by
  unfold require
  split_ifs <;> simp_all

/-- A sequence succeeds exactly when its first step does and the rest does from there. -/
theorem bind_eq_ok {first : Except ε α} {next : α → Except ε β} {result : β} :
    first >>= next = .ok result ↔ ∃ value, first = .ok value ∧ next value = .ok result := by
  cases first with
  | error error => simp [bind, Except.bind]
  | ok value => simp [bind, Except.bind]

theorem pure_eq_ok {value result : α} :
    (pure value : Except ε α) = .ok result ↔ value = result := by
  simp [pure, Except.pure]

theorem map_eq_ok {first : Except ε α} {image : α → β} {result : β} :
    first.map image = .ok result ↔ ∃ value, first = .ok value ∧ image value = result := by
  cases first with
  | error error => simp [Except.map]
  | ok value => simp [Except.map]

theorem require_bind_eq_ok {condition : Prop} [Decidable condition] {error : ε}
    {next : Unit → Except ε β} {result : β} :
    require condition error >>= next = .ok result ↔ condition ∧ next () = .ok result := by
  rw [bind_eq_ok]
  constructor
  · rintro ⟨⟨⟩, checked, continued⟩
    exact ⟨require_eq_ok.mp checked, continued⟩
  · rintro ⟨holds, continued⟩
    exact ⟨(), require_eq_ok.mpr holds, continued⟩

theorem require_bind_of {condition : Prop} [Decidable condition] {error : ε}
    {next : Unit → Except ε β} (holds : condition) :
    require condition error >>= next = next () := by
  simp [require, holds, bind, Except.bind]

theorem ok_bind (value : α) (next : α → Except ε β) :
    (Except.ok value : Except ε α) >>= next = next value := rfl

/-- A computation that evaluates to a value the check accepts succeeds with such a value. -/
theorem exists_ok_of_any (result : Except ε α) (check : α → Bool)
    (evaluated : result.toOption.any check = true) :
    ∃ value, result = .ok value ∧ check value = true := by
  cases result with
  | error error => cases evaluated
  | ok value => exact ⟨value, rfl, evaluated⟩

/-- A traversal succeeds exactly when each element does, with the elements' results in order. -/
theorem mapM_eq_ok {step : α → Except ε β} {elements : List α} {results : List β} :
    elements.mapM step = .ok results ↔
      List.Forall₂ (fun element result => step element = .ok result) elements results := by
  induction elements generalizing results with
  | nil => cases results <;> simp [List.mapM_nil, pure_eq_ok]
  | cons element elements ih =>
      rw [List.mapM_cons, bind_eq_ok]
      constructor
      · rintro ⟨value, first, rest⟩
        obtain ⟨values, tail, same⟩ := bind_eq_ok.mp rest
        rw [pure_eq_ok] at same
        subst same
        exact .cons first (ih.mp tail)
      · intro each
        cases each with
        | cons first rest =>
            exact ⟨_, first, bind_eq_ok.mpr ⟨_, ih.mpr rest, rfl⟩⟩

/-- A relation of lists in order may be weakened with each element at hand. -/
theorem forall₂_imp_of_mem {first second : α → β → Prop} {elements : List α} {results : List β}
    (related : List.Forall₂ first elements results)
    (weaker : ∀ element ∈ elements, ∀ result ∈ results, first element result →
      second element result) : List.Forall₂ second elements results := by
  induction related with
  | nil => exact .nil
  | cons head tail ih =>
      refine .cons (weaker _ (.head _) _ (.head _) head) (ih ?_)
      exact fun element member result also => weaker element (.tail _ member) result (.tail _ also)

theorem exists_of_mem_forall₂ {relation : α → β → Prop} {first : List α} {second : List β}
    (each : List.Forall₂ relation first second) {element : β} (listed : element ∈ second) :
    ∃ other ∈ first, relation other element := by
  induction each with
  | nil => cases listed
  | cons related _ ih =>
      rcases List.mem_cons.mp listed with rfl | later
      · exact ⟨_, .head _, related⟩
      · obtain ⟨other, inside, held⟩ := ih later
        exact ⟨other, .tail _ inside, held⟩

theorem mapM_mem_left {step : α → Except ε β} {elements : List α} {results : List β}
    (traversed : elements.mapM step = .ok results) {element : α} (member : element ∈ elements) :
    ∃ result ∈ results, step element = .ok result := by
  have each := mapM_eq_ok.mp traversed
  clear traversed
  induction each with
  | nil => exact absurd member List.not_mem_nil
  | cons first rest ih =>
      rcases List.mem_cons.mp member with rfl | member
      · exact ⟨_, .head _, first⟩
      · obtain ⟨result, listed, made⟩ := ih member
        exact ⟨result, .tail _ listed, made⟩

theorem mapM_mem_right {step : α → Except ε β} {elements : List α} {results : List β}
    (traversed : elements.mapM step = .ok results) {result : β} (member : result ∈ results) :
    ∃ element ∈ elements, step element = .ok result := by
  have each := mapM_eq_ok.mp traversed
  clear traversed
  induction each with
  | nil => exact absurd member List.not_mem_nil
  | cons first rest ih =>
      rcases List.mem_cons.mp member with rfl | member
      · exact ⟨_, .head _, first⟩
      · obtain ⟨element, listed, made⟩ := ih member
        exact ⟨element, .tail _ listed, made⟩

/-- What each step keeps of its element, the whole traversal keeps in order. -/
theorem mapM_map_eq {γ : Type} {step : α → Except ε β} {elements : List α} {results : List β}
    {before : α → γ} {after : β → γ} (traversed : elements.mapM step = .ok results)
    (kept : ∀ element result, step element = .ok result → after result = before element) :
    results.map after = elements.map before := by
  have each := mapM_eq_ok.mp traversed
  clear traversed
  induction each with
  | nil => rfl
  | cons first rest ih => rw [List.map_cons, List.map_cons, kept _ _ first, ih]

/-- A traversal of the same elements in another order gives the same results in another order. -/
theorem mapM_perm {step : α → Except ε β} {elements others : List α} {results : List β}
    (traversed : elements.mapM step = .ok results) (same : elements.Perm others) :
    ∃ rearranged, others.mapM step = .ok rearranged ∧ results.Perm rearranged := by
  obtain ⟨rearranged, each, perm⟩ := List.perm_comp_forall₂ same.symm (mapM_eq_ok.mp traversed)
  exact ⟨rearranged, mapM_eq_ok.mpr each, perm.symm⟩

theorem mapM_ok_of_forall {step : α → Except ε β} {value : α → β} {elements : List α}
    (each : ∀ element ∈ elements, step element = .ok (value element)) :
    elements.mapM step = .ok (elements.map value) := by
  rw [mapM_eq_ok, List.forall₂_map_right_iff, List.forall₂_same]
  exact each

/-- A traversal whose every step succeeds succeeds. -/
theorem exists_mapM_ok {step : α → Except ε β} {elements : List α}
    (each : ∀ element ∈ elements, ∃ result, step element = .ok result) :
    ∃ results, elements.mapM step = .ok results := by
  induction elements with
  | nil => exact ⟨[], rfl⟩
  | cons element elements ih =>
      obtain ⟨value, first⟩ := each element (.head _)
      obtain ⟨values, rest⟩ := ih fun other member => each other (.tail _ member)
      exact ⟨value :: values, mapM_eq_ok.mpr (.cons first (mapM_eq_ok.mp rest))⟩

/-- A result is listed by a traversal when a listed element gives it. -/
theorem mem_of_mapM {step : α → Except ε β} {elements : List α} {results : List β}
    (traversed : elements.mapM step = .ok results) (result : β) :
    result ∈ results ↔ ∃ element ∈ elements, step element = .ok result := by
  refine ⟨mapM_mem_right traversed, ?_⟩
  rintro ⟨element, member, made⟩
  obtain ⟨other, listed, same⟩ := mapM_mem_left traversed member
  rw [made, Except.ok.injEq] at same
  rwa [same]

/-- A traversal of some of the elements succeeds when one of all of them does. -/
theorem exists_mapM_of_subset {step : α → Except ε β} {elements others : List α} {results : List β}
    (traversed : elements.mapM step = .ok results) (within : ∀ other ∈ others, other ∈ elements) :
    ∃ fewer, others.mapM step = .ok fewer := by
  apply exists_mapM_ok
  intro other member
  obtain ⟨result, -, made⟩ := mapM_mem_left traversed (within other member)
  exact ⟨result, made⟩

theorem forM_ok_of_forall {check : α → Except ε Unit} {elements : List α}
    (each : ∀ element ∈ elements, check element = .ok ()) : elements.forM check = .ok () := by
  induction elements with
  | nil => rfl
  | cons element elements ih =>
      change (check element >>= fun _ => elements.forM check) = _
      rw [each element (.head _), ok_bind]
      exact ih fun other member => each other (.tail _ member)

/-- A traversal's lists are all empty exactly when each element gives an empty one. -/
theorem mapM_flatten_eq_nil {step : α → Except ε (List β)} {elements : List α}
    {results : List (List β)} (traversed : elements.mapM step = .ok results) :
    results.flatten = [] ↔ ∀ element ∈ elements, step element = .ok [] := by
  have each := mapM_eq_ok.mp traversed
  clear traversed
  induction each with
  | nil => simp
  | cons first rest ih => simp [first, ih]

section RaisesOnly

/-- A computation whose every error is of the allowed kind. -/
def RaisesOnly (allowed : ε → Prop) (result : Except ε α) : Prop :=
  ∀ error, result = .error error → allowed error

variable {allowed : ε → Prop}

theorem RaisesOnly.ok (value : α) : RaisesOnly allowed (.ok value : Except ε α) :=
  fun _ raised => nomatch raised

theorem RaisesOnly.error {error : ε} (permitted : allowed error) :
    RaisesOnly allowed (.error error : Except ε α) := by
  intro other raised
  rw [Except.error.injEq] at raised
  exact raised ▸ permitted

theorem RaisesOnly.require {condition : Prop} [Decidable condition] {error : ε}
    (permitted : allowed error) : RaisesOnly allowed (require condition error) := by
  unfold Checked.require
  split_ifs
  · exact .ok ()
  · exact .error permitted

theorem RaisesOnly.ite {condition : Prop} [Decidable condition] {first second : Except ε α}
    (yes : RaisesOnly allowed first) (no : RaisesOnly allowed second) :
    RaisesOnly allowed (if condition then first else second) := by
  split_ifs
  · exact yes
  · exact no

theorem RaisesOnly.bind {first : Except ε α} {next : α → Except ε β}
    (head : RaisesOnly allowed first)
    (tail : ∀ value, first = .ok value → RaisesOnly allowed (next value)) :
    RaisesOnly allowed (first >>= next) := by
  cases first with
  | error error => exact .error (head error rfl)
  | ok value => exact tail value rfl

theorem RaisesOnly.mapM {step : α → Except ε β} {elements : List α}
    (each : ∀ element ∈ elements, RaisesOnly allowed (step element)) :
    RaisesOnly allowed (elements.mapM step) := by
  induction elements with
  | nil => exact .ok []
  | cons element elements ih =>
      rw [List.mapM_cons]
      exact (each element (.head _)).bind fun value _ =>
        (ih fun other member => each other (.tail _ member)).bind fun values _ => .ok _

theorem RaisesOnly.forM {check : α → Except ε Unit} {elements : List α}
    (each : ∀ element ∈ elements, RaisesOnly allowed (check element)) :
    RaisesOnly allowed (elements.forM check) := by
  induction elements with
  | nil => exact .ok ()
  | cons element elements ih =>
      exact (each element (.head _)).bind fun _ _ => ih fun other member => each other (.tail _ member)

end RaisesOnly

theorem forM_eq_ok {check : α → Except ε Unit} {elements : List α} :
    elements.forM check = .ok () ↔ ∀ element ∈ elements, check element = .ok () := by
  refine ⟨fun checked => ?_, forM_ok_of_forall⟩
  induction elements with
  | nil => simp
  | cons element elements ih =>
      obtain ⟨value, first, rest⟩ := bind_eq_ok.mp checked
      intro other member
      rcases List.mem_cons.mp member with rfl | member
      · exact first
      · exact ih rest other member

end Verbatus.Library.Checked
