import Verbatus.PageAccounting.Candidates
import Verbatus.PageFeed.Order
import Verbatus.Python.JsonRoundTrip

namespace Verbatus.PageFeed

open Library Library.Checked Refusal Python CodePoint Canonical Ink PageAccounting
open Identities (str)

section Ids

/-- The ids of letters, each numbered from one. -/
def numberedIds (groups : List (Char × ℕ)) : List String :=
  groups.flatMap fun group => (List.range' 1 group.2).map (idOf group.1)

theorem idOf_toList (letter : Char) (number : ℕ) :
    (idOf letter number).toList = letter :: Nat.toDigits 10 number := by
  rw [idOf, String.toList_append, String.toList_singleton, Nat.toString_eq_ofList_toDigits,
    String.toList_ofList, List.singleton_append]

theorem idOf_inj {letter other : Char} {number count : ℕ}
    (same : idOf letter number = idOf other count) : letter = other ∧ number = count := by
  have characters := congrArg String.toList same
  rw [idOf_toList, idOf_toList, List.cons.injEq] at characters
  exact ⟨characters.1, digits_injective characters.2⟩

theorem numberedIds_nodup {groups : List (Char × ℕ)} (distinct : (groups.map Prod.fst).Nodup) :
    (numberedIds groups).Nodup := by
  induction groups with
  | nil => exact List.nodup_nil
  | cons group groups ih =>
      rw [List.map_cons, List.nodup_cons] at distinct
      rw [numberedIds, List.flatMap_cons, List.nodup_append]
      refine ⟨?_, ih distinct.2, ?_⟩
      · exact (List.nodup_range' 1).map fun number count same => (idOf_inj same).2
      · intro first inFirst second inRest same
        obtain ⟨number, -, rfl⟩ := List.mem_map.mp inFirst
        obtain ⟨other, listed, inside⟩ := List.mem_flatMap.mp inRest
        obtain ⟨count, -, rfl⟩ := List.mem_map.mp inside
        exact distinct.1 (List.mem_map.mpr ⟨other, listed, (idOf_inj same).1.symm⟩)

/-- An id is read as its letter and its number. -/
theorem idParts_idOf {letter : Char} (upper : letter.isUpper) {number : ℕ} (positive : 0 < number) :
    idParts? (idOf letter number).toList = some ⟨letter, Nat.toDigits 10 number⟩ := by
  have leading := head_digits positive
  have all : ∀ character ∈ Nat.toDigits 10 number, character.isDigit :=
    fun character member => isDigit_of_mem_digits member
  rw [idOf_toList]
  cases digits : Nat.toDigits 10 number with
  | nil => exact absurd digits Nat.toDigits_ne_nil
  | cons first rest =>
      rw [digits, List.forall_mem_cons] at all
      rw [digits, List.head?_cons, Ne, Option.some.injEq] at leading
      rw [idParts?, if_pos ⟨upper, all.1, leading, List.all_eq_true.mpr all.2⟩]

theorem readInteger_digits {number : ℕ} (small : number ≤ maxLength) :
    readInteger (Nat.toDigits 10 number) = .ok number := by
  have short : (Nat.toDigits 10 number).length ≤ maxIntegerDigits := by
    refine ((Nat.length_toDigits_le_iff (k := 19) (by decide) (by decide)).mpr ?_).trans (by decide)
    exact small.trans_lt (by decide)
  rw [readInteger, require_bind_of short, Nat.ofDigitChars_ten_toDigits]

theorem checkFeedIds_ok {ids : List String} (shaped : ∀ id ∈ ids, (idParts? id.toList).isSome = true)
    (distinct : ids.Nodup) (seen : List String) (fresh : ∀ id ∈ ids, id ∉ seen) :
    checkFeedIds seen ids = .ok () := by
  induction ids generalizing seen with
  | nil => rfl
  | cons id ids ih =>
      rw [List.nodup_cons] at distinct
      rw [checkFeedIds, require_bind_of (shaped id (.head _)), require_bind_of (fresh id (.head _))]
      refine ih (fun other member => shaped other (.tail _ member)) distinct.2 _ ?_
      intro other member known
      rcases List.mem_cons.mp known with rfl | known
      · exact distinct.1 member
      · exact fresh other (.tail _ member) known

/-- A dict made of rows under distinct ids has these ids, in order. -/
theorem candidatesOf_keys {rows : List (String × Option Bounds)} (distinct : (rows.map Prod.fst).Nodup) :
    (candidatesOf rows).keys = rows.map Prod.fst := by
  induction rows using List.reverseRecOn with
  | nil => rfl
  | append_singleton rows row ih =>
      rw [List.map_append, List.nodup_append] at distinct
      have earlier := ih distinct.1
      have absent : (candidatesOf rows).get? row.1 = none := by
        rw [Mapping.get?_eq_none, Mapping.mem_def, earlier]
        intro member
        exact distinct.2.2 row.1 member row.1 (List.mem_singleton_self _) rfl
      rw [candidatesOf, List.foldl_append, ← candidatesOf, List.foldl_cons, List.foldl_nil,
        Mapping.keys, Mapping.items_set absent, List.map_append, List.map_append, ← earlier]
      rfl

end Ids

section Numbers

variable {groups : List (Char × ℕ)}

/-- A letter and the digits of each of its numbers. -/
def groupParts (group : Char × ℕ) : List IdParts :=
  (List.range' 1 group.2).map fun number => ⟨group.1, Nat.toDigits 10 number⟩

theorem parts_numberedIds (upper : ∀ group ∈ groups, group.1.isUpper) :
    (numberedIds groups).filterMap (fun id => idParts? id.toList) = groups.flatMap groupParts := by
  induction groups with
  | nil => rfl
  | cons group groups ih =>
      rw [numberedIds, List.flatMap_cons, List.filterMap_append, List.flatMap_cons]
      congr 1
      · rw [List.filterMap_map, groupParts, ← List.filterMap_eq_map]
        apply List.filterMap_congr
        intro number member
        have positive : 0 < number := (List.mem_range'_1.mp member).1
        exact idParts_idOf (upper group (.head _)) positive
      · exact ih fun other member => upper other (.tail _ member)

/-- The ids of one letter are those of its one group, or there are none. -/
theorem filter_parts (distinct : (groups.map Prod.fst).Nodup) (letter : Char) :
    (∃ count, (letter, count) ∈ groups ∧
      (groups.flatMap groupParts).filter (fun part => decide (part.letter = letter)) =
        groupParts (letter, count)) ∨
    (groups.flatMap groupParts).filter (fun part => decide (part.letter = letter)) = [] := by
  induction groups with
  | nil => exact .inr rfl
  | cons group groups ih =>
      rw [List.map_cons, List.nodup_cons] at distinct
      rw [List.flatMap_cons, List.filter_append]
      have own : ∀ part ∈ groupParts group, part.letter = group.1 := by
        rw [groupParts, List.forall_mem_map]
        exact fun number _ => rfl
      by_cases same : group.1 = letter
      · have whole : (groupParts group).filter (fun part => decide (part.letter = letter)) =
            groupParts group :=
          List.filter_eq_self.mpr fun part member => decide_eq_true ((own part member).trans same)
        have rest : (groups.flatMap groupParts).filter (fun part => decide (part.letter = letter)) =
            [] := by
          rw [List.filter_eq_nil_iff]
          intro part member
          obtain ⟨other, listed, inside⟩ := List.mem_flatMap.mp member
          rw [groupParts, List.mem_map] at inside
          obtain ⟨number, -, rfl⟩ := inside
          rw [decide_eq_true_eq]
          intro equal
          exact distinct.1 (List.mem_map.mpr ⟨other, listed, equal.trans same.symm⟩)
        refine .inl ⟨group.2, ?_, ?_⟩
        · rw [← same]
          exact .head _
        · rw [whole, rest, List.append_nil, ← same]
      · have none : (groupParts group).filter (fun part => decide (part.letter = letter)) = [] := by
          rw [List.filter_eq_nil_iff]
          intro part member
          rw [decide_eq_true_eq, own part member]
          exact same
        rw [none, List.nil_append]
        rcases ih distinct.2 with ⟨count, listed, found⟩ | found
        · exact .inl ⟨count, .tail _ listed, found⟩
        · exact .inr found

theorem mapM_groupParts {group : Char × ℕ} (small : group.2 ≤ maxLength) :
    (groupParts group).mapM (fun part => readInteger part.digits) =
      .ok (List.range' 1 group.2) := by
  rw [mapM_eq_ok, groupParts, List.forall₂_map_left_iff, List.forall₂_same]
  intro number member
  have bound := (List.mem_range'_1.mp member).2
  exact readInteger_digits (by omega)

theorem numbersOf_groups (distinct : (groups.map Prod.fst).Nodup)
    (small : ∀ group ∈ groups, group.2 ≤ maxLength) (letter : Char) :
    ∃ count, numbersOf (groups.flatMap groupParts) letter = .ok (List.range' 1 count) := by
  unfold numbersOf
  rcases filter_parts distinct letter with ⟨count, listed, found⟩ | found
  · rw [found]
    exact ⟨count, mapM_groupParts (small _ listed)⟩
  · rw [found]
    exact ⟨0, rfl⟩

theorem sortBy_range' (count : ℕ) :
    sortBy (fun number : ℕ => number) (List.range' 1 count) =
      (List.range (List.range' 1 count).length).map (· + 1) := by
  rw [sortBy_of_pairwise, List.length_range', List.range'_eq_map_range]
  · exact List.map_congr_left fun number _ => Nat.add_comm 1 number
  · exact List.pairwise_le_range'

theorem readAll_groups (small : ∀ group ∈ groups, group.2 ≤ maxLength) :
    ∃ numbers, (groups.flatMap groupParts).mapM (fun part => readInteger part.digits) =
      .ok numbers := by
  refine ⟨(groups.flatMap groupParts).map fun part => Nat.ofDigitChars 10 part.digits 0,
    mapM_ok_of_forall ?_⟩
  intro part member
  obtain ⟨group, listed, inside⟩ := List.mem_flatMap.mp member
  rw [groupParts, List.mem_map] at inside
  obtain ⟨number, ranged, rfl⟩ := inside
  have bound := (List.mem_range'_1.mp ranged).2
  have own := small group listed
  rw [readInteger_digits (by omega), Nat.ofDigitChars_ten_toDigits]

end Numbers

end Verbatus.PageFeed
