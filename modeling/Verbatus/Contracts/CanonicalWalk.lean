import Verbatus.Contracts.Canonical

namespace Verbatus.Canonical

open Python CodePoint Library

namespace Value

@[elab_as_elim]
theorem induct {motive : Value → Prop} (none : motive none)
    (bool : ∀ value, motive (bool value)) (int : ∀ value, motive (int value))
    (float : ∀ printed, motive (float printed)) (str : ∀ text, motive (str text))
    (list : ∀ identity items, (∀ item ∈ items, motive item) → motive (list identity items))
    (tuple : ∀ identity items, (∀ item ∈ items, motive item) → motive (tuple identity items))
    (dict : ∀ identity items, (∀ item ∈ items, motive item.2) → motive (dict identity items))
    (value : Value) : motive value :=
  @Value.rec motive (fun items => ∀ item ∈ items, motive item)
    (fun items => ∀ item ∈ items, motive item.2) (fun item => motive item.2)
    none bool int float str list tuple dict (List.forall_mem_nil _)
    (fun _ _ first rest => List.forall_mem_cons.mpr ⟨first, rest⟩) (List.forall_mem_nil _)
    (fun _ _ first rest => List.forall_mem_cons.mpr ⟨first, rest⟩) (fun _ _ item => item) value

/-- The values a container holds. -/
def children : Value → List Value
  | list _ items => items
  | tuple _ items => items
  | dict _ items => items.map Prod.snd
  | _ => []

/-- Which object a container is. -/
def identity? : Value → Option ℕ
  | list identity _ => some identity
  | tuple identity _ => some identity
  | dict identity _ => some identity
  | _ => Option.none

/-- A value and every value inside it. -/
def parts : Value → List Value
  | list identity items => list identity items :: itemParts items
  | tuple identity items => tuple identity items :: itemParts items
  | dict identity items => dict identity items :: fieldParts items
  | value => [value]
where
  itemParts : List Value → List Value
    | [] => []
    | item :: items => item.parts ++ itemParts items
  fieldParts : List (Key × Value) → List Value
    | [] => []
    | (_, item) :: items => item.parts ++ fieldParts items

/-- How many containers are open at the deepest place of a value. -/
def depth : Value → ℕ
  | list _ items => 1 + itemDepth items
  | tuple _ items => 1 + itemDepth items
  | dict _ items => 1 + fieldDepth items
  | _ => 0
where
  itemDepth : List Value → ℕ
    | [] => 0
    | item :: items => max item.depth (itemDepth items)
  fieldDepth : List (Key × Value) → ℕ
    | [] => 0
    | (_, item) :: items => max item.depth (fieldDepth items)

theorem itemParts_eq (items : List Value) : parts.itemParts items = items.flatMap parts := by
  induction items with
  | nil => rfl
  | cons item items ih => rw [parts.itemParts, ih, List.flatMap_cons]

theorem fieldParts_eq (items : List (Key × Value)) :
    parts.fieldParts items = (items.map Prod.snd).flatMap parts := by
  induction items with
  | nil => rfl
  | cons item items ih => rw [parts.fieldParts, ih, List.map_cons, List.flatMap_cons]

theorem parts_eq (value : Value) : value.parts = value :: value.children.flatMap parts := by
  cases value <;> simp [parts, children, itemParts_eq, fieldParts_eq]

theorem self_mem_parts (value : Value) : value ∈ value.parts := by
  rw [parts_eq]
  exact .head _

theorem child_parts {value child part : Value} (member : child ∈ value.children)
    (inside : part ∈ child.parts) : part ∈ value.parts := by
  rw [parts_eq]
  exact .tail _ (List.mem_flatMap.mpr ⟨child, member, inside⟩)

theorem itemDepth_le (items : List Value) (bound : ℕ) :
    depth.itemDepth items ≤ bound ↔ ∀ item ∈ items, item.depth ≤ bound := by
  induction items with
  | nil => simp [depth.itemDepth]
  | cons item items ih => rw [depth.itemDepth, max_le_iff, ih, List.forall_mem_cons]

theorem fieldDepth_le (items : List (Key × Value)) (bound : ℕ) :
    depth.fieldDepth items ≤ bound ↔ ∀ item ∈ items.map Prod.snd, item.depth ≤ bound := by
  induction items with
  | nil => simp [depth.fieldDepth]
  | cons item items ih => rw [depth.fieldDepth, max_le_iff, ih, List.map_cons, List.forall_mem_cons]

/-- A container nests one level deeper than what it holds. -/
theorem depth_le {value : Value} (container : value.identity?.isSome) (bound : ℕ) :
    value.depth ≤ bound + 1 ↔ ∀ child ∈ value.children, child.depth ≤ bound := by
  cases value with
  | list identity items =>
      rw [depth, children, ← itemDepth_le]
      omega
  | tuple identity items =>
      rw [depth, children, ← itemDepth_le]
      omega
  | dict identity items =>
      rw [depth, children, ← fieldDepth_le]
      omega
  | none | bool | int | float | str => cases container

theorem depth_pos {value : Value} (container : value.identity?.isSome) : 0 < value.depth := by
  cases value with
  | list | tuple | dict =>
      rw [depth]
      omega
  | none | bool | int | float | str => cases container

theorem itemsSize_le {items : List Value} {item : Value} (member : item ∈ items) :
    item.size < 1 + size.itemsSize items := by
  induction items with
  | nil => cases member
  | cons first items ih =>
      rw [size.itemsSize]
      rcases List.mem_cons.mp member with rfl | later
      · omega
      · have smaller := ih later
        omega

theorem fieldsSize_le {items : List (Key × Value)} {item : Value}
    (member : item ∈ items.map Prod.snd) : item.size < 1 + size.fieldsSize items := by
  induction items with
  | nil => cases member
  | cons first items ih =>
      rw [size.fieldsSize]
      rcases List.mem_cons.mp member with rfl | later
      · omega
      · have smaller := ih later
        omega

theorem child_size {value child : Value} (member : child ∈ value.children) :
    child.size < value.size := by
  cases value with
  | list | tuple => exact itemsSize_le member
  | dict => exact fieldsSize_le member
  | none | bool | int | float | str => cases member

/-- One identity names one object, wherever it is shared. -/
def SameObjects (value : Value) : Prop :=
  ∀ one ∈ value.parts, ∀ other ∈ value.parts,
    one.identity?.isSome → one.identity? = other.identity? → one = other

theorem parts_trans {part middle whole : Value} (lower : part ∈ middle.parts)
    (upper : middle ∈ whole.parts) : part ∈ whole.parts := by
  have inherit (value : Value)
      (ih : ∀ child ∈ value.children, middle ∈ child.parts → part ∈ child.parts)
      (upper : middle ∈ value.parts) : part ∈ value.parts := by
    rw [parts_eq] at upper
    rcases List.mem_cons.mp upper with rfl | below
    · exact lower
    · obtain ⟨child, member, inside⟩ := List.mem_flatMap.mp below
      exact child_parts member (ih child member inside)
  induction whole using induct with
  | none | bool | int | float | str => exact inherit _ (by simp [children]) upper
  | list identity items ih | tuple identity items ih => exact inherit _ ih upper
  | dict identity items ih =>
      refine inherit _ ?_ upper
      intro child member
      obtain ⟨item, given, rfl⟩ := List.mem_map.mp member
      exact ih item given

end Value

section Acceptance

variable (isPrintable : CodePoint → Bool)

/-- A value the walk does not stop at for what it is itself. -/
def Value.Plain : Value → Prop
  | .int value => |value| < maxIntegerMagnitude
  | .float _ => False
  | .dict _ items => ∀ item ∈ items, item.1.isText = true
  | _ => True

theorem enterContainer_eq_ok {container : ℕ} {openPath opened : List ℕ} {trail : List Crumb} :
    enterContainer isPrintable container openPath trail = .ok opened ↔
      container ∉ openPath ∧ openPath.length + 1 ≤ maxCanonicalDepth ∧
        opened = container :: openPath := by
  unfold enterContainer
  split
  · next inside => simp [inside]
  split
  · next inside deep =>
      rw [List.length_cons] at deep
      simp only [reduceCtorEq, inside, not_false_eq_true, true_and, false_iff]
      omega
  · next inside shallow =>
      rw [List.length_cons] at shallow
      simp only [Except.ok.injEq, inside, not_false_eq_true, true_and]
      constructor
      · intro same
        exact ⟨by omega, same.symm⟩
      · exact fun same => same.2.symm

theorem enterContainer_bind {container : ℕ} {openPath : List ℕ} (fresh : container ∉ openPath)
    (trail : List Crumb) (go : List ℕ → Except Refusal Unit) :
    (enterContainer isPrintable container openPath trail >>= go) = .ok () ↔
      openPath.length + 1 ≤ maxCanonicalDepth ∧ go (container :: openPath) = .ok () := by
  cases entered : enterContainer isPrintable container openPath trail with
  | ok opened =>
      obtain ⟨-, room, rfl⟩ := (enterContainer_eq_ok isPrintable).mp entered
      exact (and_iff_right room).symm
  | error raised =>
      have full : ¬ openPath.length + 1 ≤ maxCanonicalDepth := by
        intro room
        have opens : enterContainer isPrintable container openPath trail =
            .ok (container :: openPath) :=
          (enterContainer_eq_ok isPrintable).mpr ⟨fresh, room, rfl⟩
        rw [entered] at opens
        cases opens
      simp [full, Bind.bind, Except.bind]

variable {isPrintable}

/-- What a task does to the rest of the walk: it is passed when its value is, whatever follows. -/
def Passes (isPrintable : CodePoint → Bool) (openPath : List ℕ) (good : Prop) (value : Value) :
    Prop :=
  ∀ trail pending, refuseFloats isPrintable openPath (.value value trail :: pending) = .ok () ↔
    good ∧ refuseFloats isPrintable openPath pending = .ok ()

theorem refuseFloats_items {openPath : List ℕ} {good : Value → Prop} {items : List Value}
    (each : ∀ item ∈ items, Passes isPrintable openPath (good item) item)
    (trail : List Crumb) (index : ℕ) (pending : List Task) :
    refuseFloats isPrintable openPath (itemTasks trail index items ++ pending) = .ok () ↔
      (∀ item ∈ items, good item) ∧ refuseFloats isPrintable openPath pending = .ok () := by
  induction items generalizing index with
  | nil => simp [itemTasks]
  | cons item items ih =>
      have later := ih (fun item member => each item (.tail _ member)) (index + 1)
      rw [itemTasks, List.cons_append, each item (.head _), later, List.forall_mem_cons, and_assoc]

theorem refuseFloats_fields {openPath : List ℕ} {good : Value → Prop} {items : List (Key × Value)}
    (each : ∀ item ∈ items, Passes isPrintable openPath (good item.2) item.2)
    (trail : List Crumb) (pending : List Task) :
    refuseFloats isPrintable openPath (fieldTasks trail items ++ pending) = .ok () ↔
      ((∀ item ∈ items, item.1.isText = true) ∧ ∀ item ∈ items, good item.2) ∧
        refuseFloats isPrintable openPath pending = .ok () := by
  induction items with
  | nil => simp [fieldTasks]
  | cons item items ih =>
      have later := ih fun item member => each item (.tail _ member)
      have own := each item (.head _)
      obtain ⟨key, value⟩ := item
      cases key with
      | text key =>
          rw [fieldTasks, List.cons_append, own, later, List.forall_mem_cons, List.forall_mem_cons]
          simp only [Key.isText]
          tauto
      | other typeName written => simp [fieldTasks, refuseFloats, Key.isText]

/-- A container that is open is closed again after what it holds. -/
theorem refuseFloats_exit {container : ℕ} {openPath : List ℕ} (fresh : container ∉ openPath)
    (pending : List Task) :
    refuseFloats isPrintable (container :: openPath) (.exit container :: pending) =
      refuseFloats isPrintable openPath pending := by
  have closed : discard container (container :: openPath) = openPath := by
    rw [discard, List.filter_cons_of_neg (by simp), List.filter_eq_self]
    intro other member
    simpa using fun same : other = container => fresh (same ▸ member)
  rw [refuseFloats, closed]

/-- What the walk has been through when it comes to a value of the whole. -/
structure Above (whole : Value) (openPath : List ℕ) (value : Value) : Prop where
  inside : value ∈ whole.parts
  outer : ∀ container ∈ openPath, ∃ outer ∈ whole.parts,
    outer.identity? = some container ∧ value.size < outer.size
  shallow : openPath.length ≤ maxCanonicalDepth

/-- Nothing is inside itself: what is inside a container is smaller, and so another object. -/
theorem Above.fresh {whole value : Value} {openPath : List ℕ} (objects : whole.SameObjects)
    (above : Above whole openPath value) {container : ℕ}
    (identity : value.identity? = some container) : container ∉ openPath := by
  intro opened
  obtain ⟨outer, member, same, smaller⟩ := above.outer container opened
  have equal := objects value above.inside outer member (by simp [identity]) (identity.trans same.symm)
  rw [equal] at smaller
  exact smaller.false

theorem Above.child {whole value child : Value} {openPath : List ℕ}
    (above : Above whole openPath value) {container : ℕ}
    (identity : value.identity? = some container) (room : openPath.length + 1 ≤ maxCanonicalDepth)
    (member : child ∈ value.children) : Above whole (container :: openPath) child where
  inside := Value.parts_trans (Value.child_parts member (Value.self_mem_parts child)) above.inside
  outer := by
    intro opened here
    rcases List.mem_cons.mp here with rfl | earlier
    · exact ⟨value, above.inside, identity, Value.child_size member⟩
    · obtain ⟨outer, given, same, smaller⟩ := above.outer opened earlier
      exact ⟨outer, given, same, (Value.child_size member).trans smaller⟩
  shallow := room

/-- What the walk asks of a value below the open containers. -/
def Fits (openPath : List ℕ) (value : Value) : Prop :=
  openPath.length + value.depth ≤ maxCanonicalDepth ∧ ∀ part ∈ value.parts, part.Plain

/-- A container fits when there is room for it, it is plain and everything in it fits. -/
theorem fits_container {value : Value} {container : ℕ} (identity : value.identity? = some container)
    (openPath : List ℕ) :
    Fits openPath value ↔ openPath.length + 1 ≤ maxCanonicalDepth ∧ value.Plain ∧
      ∀ child ∈ value.children, Fits (container :: openPath) child := by
  have isContainer : value.identity?.isSome := by simp [identity]
  have positive := Value.depth_pos isContainer
  unfold Fits
  rw [Value.parts_eq, List.forall_mem_cons, List.length_cons]
  constructor
  · rintro ⟨deep, plain, inner⟩
    obtain ⟨room, bound⟩ : ∃ room, openPath.length + 1 + room = maxCanonicalDepth :=
      ⟨maxCanonicalDepth - (openPath.length + 1), by omega⟩
    have below := (Value.depth_le isContainer room).mp (by omega)
    refine ⟨by omega, plain, fun child member => ⟨?_, fun part here => ?_⟩⟩
    · have shallow := below child member
      omega
    · exact inner part (List.mem_flatMap.mpr ⟨child, member, here⟩)
  · rintro ⟨deep, plain, inner⟩
    obtain ⟨room, bound⟩ : ∃ room, openPath.length + 1 + room = maxCanonicalDepth :=
      ⟨maxCanonicalDepth - (openPath.length + 1), by omega⟩
    have below := (Value.depth_le isContainer room).mpr fun child member => by
      have shallow := (inner child member).1
      omega
    refine ⟨by omega, plain, fun part here => ?_⟩
    obtain ⟨child, member, inside⟩ := List.mem_flatMap.mp here
    exact (inner child member).2 part inside

/-- The walk goes on past a value exactly when the value fits. -/
theorem refuseFloats_value {whole : Value} (objects : whole.SameObjects) (value : Value)
    {openPath : List ℕ} (above : Above whole openPath value) :
    Passes isPrintable openPath (Fits openPath value) value := by
  have shallow := above.shallow
  induction value using Value.induct generalizing openPath with
  | none | bool | str =>
      intro trail pending
      rw [refuseFloats]
      simp [Fits, Value.depth, Value.parts, Value.Plain, shallow]
  | int value =>
      intro trail pending
      rw [refuseFloats]
      simp only [Fits, Value.depth, Value.parts, Value.Plain, List.mem_singleton, forall_eq,
        abs_lt, add_zero, shallow, true_and]
      split
      · next within => simp [within]
      · next outside => simp [outside]
  | float printed =>
      intro trail pending
      simp [refuseFloats, Fits, Value.parts, Value.Plain]
  | list identity items ih | tuple identity items ih =>
      intro trail pending
      rw [refuseFloats, enterContainer_bind isPrintable (above.fresh objects rfl),
        fits_container rfl, and_assoc]
      refine and_congr_right fun room => ?_
      have each := fun item member =>
        ih item member (above.child rfl room member) (above.child rfl room member).shallow
      rw [refuseFloats_items each, refuseFloats_exit (above.fresh objects rfl)]
      simp [Value.Plain, Value.children]
  | dict identity items ih =>
      intro trail pending
      rw [refuseFloats, enterContainer_bind isPrintable (above.fresh objects rfl),
        fits_container rfl, and_assoc]
      refine and_congr_right fun room => ?_
      have member (item : Key × Value) (given : item ∈ items) :
          item.2 ∈ (Value.dict identity items).children := List.mem_map_of_mem given
      have each := fun item given => ih item given (above.child rfl room (member item given))
        (above.child rfl room (member item given)).shallow
      rw [refuseFloats_fields each, refuseFloats_exit (above.fresh objects rfl)]
      simp only [Value.Plain, Value.children, List.forall_mem_map]

/-- The walk accepts a value when it is at most 256 deep and nothing in it is out of place. -/
theorem refuseFloats_eq_ok {value : Value} (objects : value.SameObjects) (trail : List Crumb) :
    refuseFloats isPrintable [] [.value value trail] = .ok () ↔
      value.depth ≤ maxCanonicalDepth ∧ ∀ part ∈ value.parts, part.Plain := by
  have above : Above value [] value := ⟨value.self_mem_parts, by simp, by simp⟩
  rw [refuseFloats_value objects value above trail []]
  simp [refuseFloats, Fits]

/-- Whatever the walk raises is a `TypeError`. -/
theorem refuseFloats_error (openPath : List ℕ) (pending : List Task) {raised : Refusal}
    (refused : refuseFloats isPrintable openPath pending = .error raised) :
    ∃ message, raised = .typeError message := by
  have entered {container : ℕ} {openPath : List ℕ} {trail : List Crumb} {raised : Refusal}
      (refused : enterContainer isPrintable container openPath trail = .error raised) :
      ∃ message, raised = .typeError message := by
    unfold enterContainer at refused
    split at refused
    · cases refused
      exact ⟨_, rfl⟩
    split at refused
    · cases refused
      exact ⟨_, rfl⟩
    · cases refused
  have went {container : ℕ} {openPath : List ℕ} {trail : List Crumb}
      {go : List ℕ → Except Refusal Unit}
      (ih : ∀ opened, go opened = .error raised → ∃ message, raised = .typeError message)
      (refused : (enterContainer isPrintable container openPath trail >>= go) = .error raised) :
      ∃ message, raised = .typeError message := by
    cases step : enterContainer isPrintable container openPath trail with
    | ok opened =>
        rw [step] at refused
        exact ih opened refused
    | error first =>
        rw [step] at refused
        cases refused
        exact entered step
  fun_induction refuseFloats isPrintable openPath pending with
  | case1 => cases refused
  | case2 _ _ _ ih | case4 _ _ _ ih | case5 _ _ _ _ ih | case6 _ _ _ _ ih
  | case8 _ _ _ _ _ ih => exact ih refused
  | case3 | case7 | case9 =>
      cases refused
      exact ⟨_, rfl⟩
  | case10 _ _ _ _ _ ih | case11 _ _ _ _ _ ih | case12 _ _ _ _ _ ih => exact went ih refused

end Acceptance

end Verbatus.Canonical
