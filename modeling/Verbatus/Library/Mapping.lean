import Mathlib.Data.List.Sort
import Mathlib.Data.List.Dedup
import Mathlib.Tactic

namespace Verbatus.Library

section Rows

variable {κ α β : Type} [DecidableEq κ] {rows : List (κ × α)}

theorem mem_of_lookup {key : κ} {value : α} (found : rows.lookup key = some value) :
    (key, value) ∈ rows := by
  obtain ⟨before, after, same, -⟩ := List.lookup_eq_some_iff.mp found
  rw [same]
  exact List.mem_append_right _ (.head _)

theorem isSome_lookup_iff {key : κ} : (rows.lookup key).isSome ↔ key ∈ rows.map Prod.fst := by
  rw [List.lookup_isSome_iff, List.mem_map]
  constructor
  · rintro ⟨row, listed, same⟩
    exact ⟨row, listed, (eq_of_beq same).symm⟩
  · rintro ⟨row, listed, rfl⟩
    exact ⟨row, listed, beq_self_eq_true _⟩

/-- A row is found by its key when no other row has it. -/
theorem lookup_eq_some_iff_mem (distinct : (rows.map Prod.fst).Nodup) {key : κ} {value : α} :
    rows.lookup key = some value ↔ (key, value) ∈ rows := by
  refine ⟨mem_of_lookup, fun member => ?_⟩
  have present : (rows.lookup key).isSome := by
    rw [List.lookup_isSome_iff]
    exact ⟨(key, value), member, beq_self_eq_true key⟩
  obtain ⟨other, found⟩ := Option.isSome_iff_exists.mp present
  have pair := List.inj_on_of_nodup_map distinct (mem_of_lookup found) member rfl
  exact found.trans (congrArg (some ∘ Prod.snd) pair)

/-- A listing kept only where it is not empty reads the same as the whole. -/
theorem getD_lookup_filter {rows : List (κ × List β)} (distinct : (rows.map Prod.fst).Nodup)
    {key : κ} {listing : List β} (member : (key, listing) ∈ rows) :
    ((rows.filter fun row => !row.2.isEmpty).lookup key).getD [] = listing := by
  have apart : ((rows.filter fun row => !row.2.isEmpty).map Prod.fst).Nodup :=
    distinct.sublist (List.filter_sublist.map Prod.fst)
  cases listing with
  | nil =>
      have absent : (rows.filter fun row => !row.2.isEmpty).lookup key = none := by
        rw [List.lookup_eq_none_iff]
        intro row kept
        obtain ⟨listed, nonempty⟩ := List.mem_filter.mp kept
        rw [bne_iff_ne]
        intro same
        have equal := List.inj_on_of_nodup_map distinct listed member same.symm
        rw [equal] at nonempty
        cases nonempty
      rw [absent]
      rfl
  | cons first rest =>
      have kept : (key, first :: rest) ∈ rows.filter fun row => !row.2.isEmpty :=
        List.mem_filter.mpr ⟨member, rfl⟩
      rw [(lookup_eq_some_iff_mem apart).mpr kept]
      rfl

/-- Rows rewritten under their own keys are found as the rewriting of what was found. -/
theorem lookup_filterMap (distinct : (rows.map Prod.fst).Nodup) (rewrite : κ → α → Option β)
    (key : κ) :
    (rows.filterMap fun row => (rewrite row.1 row.2).map fun value => (row.1, value)).lookup key =
      (rows.lookup key).bind (rewrite key) := by
  induction rows with
  | nil => rfl
  | cons row rows ih =>
      obtain ⟨fresh, distinct⟩ := List.nodup_cons.mp distinct
      by_cases same : key = row.1
      · have absent : rows.lookup key = none := by
          rw [List.lookup_eq_none_iff]
          rintro other member
          rw [bne_iff_ne, same]
          intro equal
          exact fresh (equal ▸ List.mem_map_of_mem member)
        have tail := ih distinct
        rw [absent, Option.bind_none] at tail
        subst same
        rw [List.filterMap_cons, List.lookup_cons]
        cases rewritten : rewrite row.1 row.2 with
        | none => simpa [rewritten] using tail
        | some value => simp [rewritten]
      · have other : (key == row.1) = false := beq_eq_false_iff_ne.mpr same
        rw [List.filterMap_cons, List.lookup_cons, other]
        cases rewritten : rewrite row.1 row.2 with
        | none => simpa [rewritten] using ih distinct
        | some value => simpa [rewritten, List.lookup_cons, other] using ih distinct

theorem lookup_map (rows : List (κ × α)) (rewrite : κ → α → β) (key : κ) :
    (rows.map fun row => (row.1, rewrite row.1 row.2)).lookup key =
      (rows.lookup key).map (rewrite key) := by
  induction rows with
  | nil => rfl
  | cons row rows ih =>
      rw [List.map_cons, List.lookup_cons, List.lookup_cons]
      by_cases same : key = row.1
      · subst same
        simp
      · rw [beq_eq_false_iff_ne.mpr same]
        exact ih

/-- A table over a list of keys holds what its rule gives each of them. -/
theorem lookup_keyed (keys : List κ) (rule : κ → Option β) (key : κ) :
    (keys.filterMap fun other => (rule other).map fun value => (other, value)).lookup key =
      if key ∈ keys then rule key else none := by
  induction keys with
  | nil => rfl
  | cons first keys ih =>
      by_cases same : key = first
      · subst same
        cases ruled : rule key <;> simp [ruled, ih]
      · have other : (key == first) = false := beq_eq_false_iff_ne.mpr same
        cases ruled : rule first <;> simp [ruled, ih, List.lookup_cons, other, same]

/-- Sorting rows by a key loses and repeats none. -/
theorem lookup_perm {rows others : List (κ × α)} (same : rows.Perm others)
    (distinct : (rows.map Prod.fst).Nodup) (key : κ) : rows.lookup key = others.lookup key := by
  have alike : (others.map Prod.fst).Nodup := (same.map Prod.fst).nodup_iff.mp distinct
  cases found : others.lookup key with
  | some value =>
      rw [lookup_eq_some_iff_mem distinct, same.mem_iff]
      exact mem_of_lookup found
  | none =>
      rw [List.lookup_eq_none_iff] at found ⊢
      exact fun row member => found row (same.mem_iff.mp member)

end Rows

/-- A table with a key set to a value, in its place where the key was there already. -/
def assign {κ α : Type} [DecidableEq κ] (rows : List (κ × α)) (key : κ) (value : α) :
    List (κ × α) :=
  if key ∈ rows.map Prod.fst then
    rows.map fun row => if row.1 = key then (key, value) else row
  else rows ++ [(key, value)]

theorem lookup_assign {κ α : Type} [DecidableEq κ] (rows : List (κ × α)) (key other : κ) (value : α) :
    (assign rows key value).lookup other = if other = key then some value else rows.lookup other := by
  have replaced : (rows.map fun row => if row.1 = key then (key, value) else row) =
      rows.map fun row => (row.1, if row.1 = key then value else row.2) := by
    apply List.map_congr_left
    intro row _
    split_ifs with same
    · rw [same]
    · rfl
  unfold assign
  split_ifs with present same same
  · subst same
    rw [replaced, lookup_map rows fun row old => if row = other then value else old]
    obtain ⟨row, listed, rfl⟩ := List.mem_map.mp present
    have found : (rows.lookup row.1).isSome := by
      rw [List.lookup_isSome_iff]
      exact ⟨row, listed, beq_self_eq_true _⟩
    obtain ⟨old, held⟩ := Option.isSome_iff_exists.mp found
    rw [held, Option.map_some, if_pos rfl]
  · rw [replaced, lookup_map rows fun row old => if row = key then value else old]
    cases rows.lookup other with
    | none => rfl
    | some old => rw [Option.map_some, if_neg same]
  · subst same
    have absent : rows.lookup other = none := by
      rw [List.lookup_eq_none_iff]
      intro row listed
      rw [bne_iff_ne]
      intro equal
      exact present (equal ▸ List.mem_map_of_mem listed)
    rw [List.lookup_append, absent, Option.none_or, List.lookup_cons, beq_self_eq_true]
  · rw [List.lookup_append, List.lookup_cons, beq_eq_false_iff_ne.mpr same]
    simp

/-- Setting a key lists it once, beside the keys there were. -/
theorem keys_assign_nodup {κ α : Type} [DecidableEq κ] {rows : List (κ × α)} (key : κ) (value : α)
    (distinct : (rows.map Prod.fst).Nodup) : ((assign rows key value).map Prod.fst).Nodup := by
  unfold assign
  split_ifs with present
  · rw [List.map_map]
    convert distinct using 2
    funext row
    simp only [Function.comp_apply]
    split_ifs with same
    · exact same.symm
    · rfl
  · rw [List.map_append, List.nodup_append]
    refine ⟨distinct, List.nodup_singleton key, ?_⟩
    intro listed member other single equal
    rw [List.map_singleton, List.mem_singleton] at single
    subst single equal
    exact present member

/-- The table of rows set one after the other, a later value in place of an earlier one. -/
def dictOf {κ α : Type} [DecidableEq κ] (rows : List (κ × α)) : List (κ × α) :=
  rows.foldl (fun table row => assign table row.1 row.2) []

/-- Rows with distinct keys are their own table. -/
theorem dictOf_of_nodup {κ α : Type} [DecidableEq κ] {rows : List (κ × α)}
    (distinct : (rows.map Prod.fst).Nodup) : dictOf rows = rows := by
  induction rows using List.reverseRecOn with
  | nil => rfl
  | append_singleton rows row ih =>
      rw [List.map_append, List.nodup_append] at distinct
      have fresh : row.1 ∉ rows.map Prod.fst := by
        intro member
        exact distinct.2.2 _ member _ (List.mem_singleton_self _) rfl
      have earlier := ih distinct.1
      rw [dictOf, List.foldl_append, ← dictOf, earlier]
      exact if_neg fresh

theorem mem_assign {κ α : Type} [DecidableEq κ] {rows : List (κ × α)} {key : κ} {value : α}
    {row : κ × α} (member : row ∈ assign rows key value) : row = (key, value) ∨ row ∈ rows := by
  unfold assign at member
  split_ifs at member
  · obtain ⟨old, listed, rfl⟩ := List.mem_map.mp member
    split_ifs
    · exact .inl rfl
    · exact .inr listed
  · rcases List.mem_append.mp member with listed | last
    · exact .inr listed
    · exact .inl (List.mem_singleton.mp last)

/-- A table lists rows it was made of, under distinct keys. -/
theorem dictOf_rows {κ α : Type} [DecidableEq κ] (rows : List (κ × α)) :
    ((dictOf rows).map Prod.fst).Nodup ∧ dictOf rows ⊆ rows := by
  induction rows using List.reverseRecOn with
  | nil => exact ⟨List.nodup_nil, fun _ absent => nomatch absent⟩
  | append_singleton rows row ih =>
      rw [dictOf, List.foldl_append, ← dictOf, List.foldl_cons, List.foldl_nil]
      refine ⟨keys_assign_nodup row.1 row.2 ih.1, fun other member => ?_⟩
      rcases mem_assign member with rfl | listed
      · exact List.mem_append_right _ (.head _)
      · exact List.mem_append_left _ (ih.2 listed)

/-- A key all of whose rows agree is found with what they agree on. -/
theorem lookup_dictOf {κ α : Type} [DecidableEq κ] {rows : List (κ × α)} {key : κ} {value : α}
    (agree : ∀ row ∈ rows, row.1 = key → row.2 = value) :
    (dictOf rows).lookup key = if key ∈ rows.map Prod.fst then some value else none := by
  induction rows using List.reverseRecOn with
  | nil => rfl
  | append_singleton rows row ih =>
      have table : dictOf (rows ++ [row]) = assign (dictOf rows) row.1 row.2 := by
        rw [dictOf, List.foldl_append]
        rfl
      rw [table, lookup_assign, ih fun other member => agree other (List.mem_append_left _ member)]
      by_cases here : key = row.1
      · rw [if_pos here, agree row (by simp) here.symm, if_pos (by simp [here])]
      · have listed : key ∈ (rows ++ [row]).map Prod.fst ↔ key ∈ rows.map Prod.fst := by
          simp [here]
        rw [if_neg here]
        simp only [listed]

/-- What a key's value is replaced by adds to a table's listing only what it adds to the value's. -/
theorem flatMap_replace_perm {κ α β : Type} [DecidableEq κ] {rows : List (κ × α)}
    (distinct : (rows.map Prod.fst).Nodup) {key : κ} {value old : α} {listing : α → List β}
    {more : List β} (found : rows.lookup key = some old)
    (grown : listing value = listing old ++ more) :
    ((rows.map fun row => if row.1 = key then (key, value) else row).flatMap
      fun row => listing row.2).Perm ((rows.flatMap fun row => listing row.2) ++ more) := by
  induction rows with
  | nil => cases found
  | cons row rows ih =>
      obtain ⟨fresh, distinct⟩ := List.nodup_cons.mp distinct
      rw [List.map_cons, List.flatMap_cons, List.flatMap_cons, List.append_assoc]
      rw [List.lookup_cons] at found
      by_cases here : row.1 = key
      · subst here
        rw [beq_self_eq_true, Option.some.injEq] at found
        have rest : (rows.map fun other => if other.1 = row.1 then (row.1, value) else other) =
            rows := by
          rw [List.map_congr_left (g := id), List.map_id]
          intro other listed
          have apart : other.1 ≠ row.1 := fun same => fresh (same ▸ List.mem_map_of_mem listed)
          rw [if_neg apart, id]
        rw [rest, if_pos rfl, grown, found, List.append_assoc]
        exact List.perm_append_comm.append_left _
      · rw [if_neg here]
        rw [beq_eq_false_iff_ne.mpr (Ne.symm here)] at found
        exact (ih distinct found).append_left _

/-- A finite map in the order its keys were given, no key given twice. -/
structure Mapping (κ ν : Type) where
  items : List (κ × ν)
  distinct : (items.map Prod.fst).Nodup

namespace Mapping

variable {κ ν : Type}

def empty : Mapping κ ν := ⟨[], List.nodup_nil⟩

def keys (mapping : Mapping κ ν) : List κ := mapping.items.map Prod.fst

def values (mapping : Mapping κ ν) : List ν := mapping.items.map Prod.snd

instance : Membership κ (Mapping κ ν) := ⟨fun mapping key => key ∈ mapping.keys⟩

theorem mem_def {mapping : Mapping κ ν} {key : κ} : key ∈ mapping ↔ key ∈ mapping.keys := .rfl

variable [DecidableEq κ]

instance (mapping : Mapping κ ν) (key : κ) : Decidable (key ∈ mapping) :=
  inferInstanceAs (Decidable (key ∈ mapping.keys))

def get? (mapping : Mapping κ ν) (key : κ) : Option ν := mapping.items.lookup key

theorem mem_items_of_get? {mapping : Mapping κ ν} {key : κ} {value : ν}
    (found : mapping.get? key = some value) : (key, value) ∈ mapping.items :=
  mem_of_lookup found

theorem mem_iff_get? {mapping : Mapping κ ν} {key : κ} :
    key ∈ mapping ↔ ∃ value, mapping.get? key = some value := by
  rw [mem_def, keys, get?, ← Option.isSome_iff_exists, List.lookup_isSome_iff]
  simp

theorem get?_eq_none {mapping : Mapping κ ν} {key : κ} : mapping.get? key = none ↔ key ∉ mapping := by
  rw [mem_iff_get?, ← Option.isSome_iff_exists, Option.not_isSome_iff_eq_none]

/-- A key given once has the value it was given with. -/
theorem get?_eq_some {mapping : Mapping κ ν} {key : κ} {value : ν} :
    mapping.get? key = some value ↔ (key, value) ∈ mapping.items :=
  lookup_eq_some_iff_mem mapping.distinct

/-- The map with a key set to a value. -/
def set (mapping : Mapping κ ν) (key : κ) (value : ν) : Mapping κ ν :=
  ⟨assign mapping.items key value, keys_assign_nodup key value mapping.distinct⟩

theorem get?_set (mapping : Mapping κ ν) (key other : κ) (value : ν) :
    (mapping.set key value).get? other = if other = key then some value else mapping.get? other :=
  lookup_assign mapping.items key other value

/-- A new key is listed after the others. -/
theorem items_set {mapping : Mapping κ ν} {key : κ} (absent : mapping.get? key = none) (value : ν) :
    (mapping.set key value).items = mapping.items ++ [(key, value)] := by
  rw [get?_eq_none, mem_def, keys] at absent
  exact if_neg absent

/-- The map without a key. -/
def without (mapping : Mapping κ ν) (key : κ) : Mapping κ ν :=
  ⟨mapping.items.filter fun row => row.1 ≠ key,
    mapping.distinct.sublist (List.filter_sublist.map Prod.fst)⟩

theorem get?_without (mapping : Mapping κ ν) (key other : κ) :
    (mapping.without key).get? other = if other = key then none else mapping.get? other := by
  ext value
  rw [get?_eq_some, without, List.mem_filter, decide_eq_true_eq]
  split
  · next same => simp [same]
  · next apart => rw [get?_eq_some]; simp [apart]

theorem mem_set {mapping : Mapping κ ν} {key other : κ} {value : ν} :
    other ∈ mapping.set key value ↔ other = key ∨ other ∈ mapping := by
  rw [mem_iff_get?, mem_iff_get?, get?_set]
  split
  · next same => simp [same]
  · next apart => simp [apart]

theorem mem_without {mapping : Mapping κ ν} {key other : κ} :
    other ∈ mapping.without key ↔ other ≠ key ∧ other ∈ mapping := by
  rw [mem_iff_get?, mem_iff_get?, get?_without]
  split
  · next same => simp [same]
  · next apart => simp [apart]

end Mapping

section SortedSet

variable {α : Type} [LinearOrder α]

/-- The distinct elements in ascending order. -/
def sortedSet (elements : List α) : List α := elements.dedup.insertionSort (· ≤ ·)

@[simp] theorem mem_sortedSet {element : α} {elements : List α} :
    element ∈ sortedSet elements ↔ element ∈ elements := by
  rw [sortedSet, (List.perm_insertionSort _ _).mem_iff, List.mem_dedup]

@[simp] theorem sortedSet_eq_nil {elements : List α} : sortedSet elements = [] ↔ elements = [] := by
  constructor
  · intro nothing
    rw [List.eq_nil_iff_forall_not_mem]
    intro element member
    have kept := mem_sortedSet.mpr member
    rw [nothing] at kept
    exact List.not_mem_nil kept
  · rintro rfl
    rfl

end SortedSet

end Verbatus.Library
