import Mathlib.Data.List.Perm.Basic
import Mathlib.Data.List.Nodup
import Mathlib.Tactic

namespace Verbatus.Library

section Grouping

variable {κ α : Type} [DecidableEq κ]

/-- An element joins its key's group, which keeps the place of its first member. -/
def addTo (key : κ) (element : α) : List (κ × List α) → List (κ × List α)
  | [] => [(key, [element])]
  | (other, members) :: groups =>
    if other = key then (other, members ++ [element]) :: groups
    else (other, members) :: addTo key element groups

/-- Each group lists the elements of its key, in the order they came; every key has one group. -/
structure Grouped (pairs : List (κ × α)) (groups : List (κ × List α)) : Prop where
  distinct : (groups.map Prod.fst).Nodup
  members : ∀ group ∈ groups,
    group.2 = (pairs.filter fun pair => pair.1 = group.1).map Prod.snd
  keys : ∀ key, key ∈ groups.map Prod.fst ↔ key ∈ pairs.map Prod.fst

theorem Grouped.nil : Grouped ([] : List (κ × α)) [] := ⟨.nil, nofun, fun _ => .rfl⟩

theorem mem_keys_addTo {key other : κ} {element : α} {groups : List (κ × List α)} :
    other ∈ (addTo key element groups).map Prod.fst ↔ other = key ∨ other ∈ groups.map Prod.fst := by
  induction groups with
  | nil => simp [addTo]
  | cons group groups ih =>
      obtain ⟨first, members⟩ := group
      rw [addTo]
      split_ifs with same
      · simp only [List.map_cons, List.mem_cons, same]
        tauto
      · rw [List.map_cons, List.map_cons, List.mem_cons, List.mem_cons, ih]
        tauto

theorem nodup_keys_addTo {key : κ} {element : α} {groups : List (κ × List α)}
    (distinct : (groups.map Prod.fst).Nodup) :
    ((addTo key element groups).map Prod.fst).Nodup := by
  induction groups with
  | nil => exact List.nodup_singleton key
  | cons group groups ih =>
      obtain ⟨first, members⟩ := group
      rw [List.map_cons, List.nodup_cons] at distinct
      rw [addTo]
      split_ifs with same
      · exact List.nodup_cons.mpr distinct
      · rw [List.map_cons, List.nodup_cons]
        refine ⟨?_, ih distinct.2⟩
        rw [mem_keys_addTo]
        exact not_or.mpr ⟨same, distinct.1⟩

/-- A group after one more element: as it was, or the key's with the element at its end. -/
theorem mem_addTo {key : κ} {element : α} {groups : List (κ × List α)} {group : κ × List α}
    (distinct : (groups.map Prod.fst).Nodup) (listed : group ∈ addTo key element groups) :
    group ∈ groups ∧ group.1 ≠ key ∨
      (∃ members, (key, members) ∈ groups ∧ group = (key, members ++ [element])) ∨
      key ∉ groups.map Prod.fst ∧ group = (key, [element]) := by
  induction groups with
  | nil => exact .inr (.inr ⟨List.not_mem_nil, List.mem_singleton.mp listed⟩)
  | cons first groups ih =>
      obtain ⟨other, members⟩ := first
      rw [List.map_cons, List.nodup_cons] at distinct
      rw [addTo] at listed
      split_ifs at listed with same
      · subst same
        rcases List.mem_cons.mp listed with rfl | later
        · exact .inr (.inl ⟨members, .head _, rfl⟩)
        · refine .inl ⟨.tail _ later, ?_⟩
          intro same
          exact distinct.1 (List.mem_map.mpr ⟨group, later, same⟩)
      · rcases List.mem_cons.mp listed with rfl | later
        · exact .inl ⟨.head _, same⟩
        rcases ih distinct.2 later with ⟨old, apart⟩ | ⟨members, old, rfl⟩ | ⟨absent, rfl⟩
        · exact .inl ⟨.tail _ old, apart⟩
        · exact .inr (.inl ⟨members, .tail _ old, rfl⟩)
        · refine .inr (.inr ⟨?_, rfl⟩)
          rw [List.map_cons, List.mem_cons]
          exact not_or.mpr ⟨Ne.symm same, absent⟩

theorem Grouped.add {pairs : List (κ × α)} {groups : List (κ × List α)}
    (grouped : Grouped pairs groups) (key : κ) (element : α) :
    Grouped (pairs ++ [(key, element)]) (addTo key element groups) := by
  have alone : [(key, element)].filter (fun pair => pair.1 = key) = [(key, element)] := by simp
  refine ⟨nodup_keys_addTo grouped.distinct, ?_, ?_⟩
  · intro group listed
    rw [List.filter_append, List.map_append]
    rcases mem_addTo grouped.distinct listed with ⟨old, apart⟩ | ⟨members, old, rfl⟩ |
      ⟨absent, rfl⟩
    · rw [grouped.members group old, List.filter_cons_of_neg (by simpa using apart.symm),
        List.filter_nil, List.map_nil, List.append_nil]
    · dsimp only
      rw [alone, ← grouped.members _ old]
      rfl
    · have none : pairs.filter (fun pair => pair.1 = key) = [] := by
        rw [List.filter_eq_nil_iff]
        intro pair listed same
        rw [grouped.keys] at absent
        exact absent (List.mem_map.mpr ⟨pair, listed, of_decide_eq_true same⟩)
      dsimp only
      rw [none, alone]
      rfl
  · intro other
    rw [mem_keys_addTo, grouped.keys, List.map_append, List.mem_append, List.map_singleton,
      List.mem_singleton]
    exact or_comm

theorem foldl_grouped {pairs : List (κ × α)} {groups : List (κ × List α)}
    (grouped : Grouped pairs groups) (more : List (κ × α)) :
    Grouped (pairs ++ more) (more.foldl (fun groups pair => addTo pair.1 pair.2 groups) groups) := by
  induction more generalizing pairs groups with
  | nil => rwa [List.append_nil]
  | cons pair more ih =>
      rw [List.foldl_cons, List.append_cons]
      exact ih (grouped.add pair.1 pair.2)

/-- The groups of a list keyed element by element. -/
def groupBy (pairs : List (κ × α)) : List (κ × List α) :=
  pairs.foldl (fun groups pair => addTo pair.1 pair.2 groups) []

theorem groupBy_grouped (pairs : List (κ × α)) : Grouped pairs (groupBy pairs) :=
  foldl_grouped .nil pairs

section Members

variable {pairs : List (κ × α)} {groups : List (κ × List α)} (grouped : Grouped pairs groups)

include grouped

theorem Grouped.mem_iff {group : κ × List α} (listed : group ∈ groups) {element : α} :
    element ∈ group.2 ↔ (group.1, element) ∈ pairs := by
  rw [grouped.members group listed, List.mem_map]
  constructor
  · rintro ⟨pair, kept, rfl⟩
    obtain ⟨inside, same⟩ := List.mem_filter.mp kept
    rwa [← of_decide_eq_true same]
  · intro inside
    exact ⟨_, List.mem_filter.mpr ⟨inside, decide_eq_true rfl⟩, rfl⟩

theorem Grouped.exists_of_mem {key : κ} {element : α} (listed : (key, element) ∈ pairs) :
    ∃ members, (key, members) ∈ groups ∧ element ∈ members := by
  have present := (grouped.keys key).mpr (List.mem_map_of_mem (f := Prod.fst) listed)
  obtain ⟨⟨other, members⟩, inside, rfl⟩ := List.mem_map.mp present
  exact ⟨members, inside, (grouped.mem_iff inside).mpr listed⟩

/-- No group is empty. -/
theorem Grouped.ne_nil {group : κ × List α} (listed : group ∈ groups) : group.2 ≠ [] := by
  have present := (grouped.keys group.1).mp (List.mem_map_of_mem listed)
  obtain ⟨⟨key, element⟩, inside, same⟩ := List.mem_map.mp present
  dsimp only at same
  subst same
  have member := (grouped.mem_iff listed).mpr inside
  exact List.ne_nil_of_mem member

/-- Every element is in one group once. -/
theorem Grouped.perm (single : (pairs.map Prod.snd).Nodup) :
    (groups.flatMap Prod.snd).Perm (pairs.map Prod.snd) := by
  have inGroup : ∀ group ∈ groups, group.2.Nodup := by
    intro group listed
    rw [grouped.members group listed]
    exact single.sublist (List.filter_sublist.map Prod.snd)
  have once : (groups.flatMap Prod.snd).Nodup := by
    rw [List.nodup_flatMap]
    refine ⟨inGroup, ?_⟩
    have apart := List.pairwise_map.mp grouped.distinct
    refine apart.imp_of_mem ?_
    intro first second inFirst inSecond differ element atFirst atSecond
    have one := (grouped.mem_iff inFirst).mp atFirst
    have two := (grouped.mem_iff inSecond).mp atSecond
    have same := List.inj_on_of_nodup_map single one two rfl
    exact differ (Prod.mk.inj same).1
  rw [List.perm_ext_iff_of_nodup once single]
  intro element
  rw [List.mem_flatMap, List.mem_map]
  constructor
  · rintro ⟨group, listed, member⟩
    exact ⟨_, (grouped.mem_iff listed).mp member, rfl⟩
  · rintro ⟨⟨key, other⟩, listed, rfl⟩
    obtain ⟨members, inside, member⟩ := grouped.exists_of_mem listed
    exact ⟨_, inside, member⟩

end Members

end Grouping

end Verbatus.Library
