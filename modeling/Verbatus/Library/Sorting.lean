import Mathlib.Data.List.Sort
import Mathlib.Data.Prod.Lex
import Verbatus.Library.Mapping

namespace Verbatus.Library

section SortBy

variable {α κ : Type} [LinearOrder κ] (key : α → κ)

/-- The elements in ascending order of a key, equal keys in the order given. -/
def sortBy (elements : List α) : List α :=
  elements.insertionSort fun first second => key first ≤ key second

theorem sortBy_perm (elements : List α) : (sortBy key elements).Perm elements :=
  List.perm_insertionSort _ elements

@[simp] theorem mem_sortBy {element : α} {elements : List α} :
    element ∈ sortBy key elements ↔ element ∈ elements :=
  (sortBy_perm key elements).mem_iff

theorem sortBy_pairwise (elements : List α) :
    (sortBy key elements).Pairwise fun first second => key first ≤ key second := by
  have total : Std.Total fun first second : α => key first ≤ key second :=
    ⟨fun first second => le_total (key first) (key second)⟩
  have trans : IsTrans α fun first second => key first ≤ key second := ⟨fun _ _ _ => le_trans⟩
  exact List.pairwise_insertionSort _ elements

/-- Elements already in order stay as they are. -/
theorem sortBy_of_pairwise {elements : List α}
    (sorted : elements.Pairwise fun first second => key first ≤ key second) :
    sortBy key elements = elements := by
  induction elements with
  | nil => rfl
  | cons first elements ih =>
      obtain ⟨least, sorted⟩ := List.pairwise_cons.mp sorted
      have tail := ih sorted
      rw [sortBy, List.insertionSort_cons]
      rw [sortBy] at tail
      rw [tail]
      cases elements with
      | nil => rfl
      | cons second elements => exact List.orderedInsert_cons_of_le _ _ (least second (.head _))

variable {key}

/-- Elements told apart by their keys are sorted alike in whatever order they come. -/
theorem sortBy_eq_of_perm {first second : List α} (same : first.Perm second)
    (apart : ∀ a ∈ first, ∀ b ∈ first, key a = key b → a = b) :
    sortBy key first = sortBy key second := by
  have joined := (sortBy_perm key first).trans (same.trans (sortBy_perm key second).symm)
  have antisymm : ∀ a b, a ∈ sortBy key first → b ∈ sortBy key second → key a ≤ key b →
      key b ≤ key a → a = b := by
    intro a b inFirst inSecond below above
    have other := same.mem_iff.mpr ((mem_sortBy key).mp inSecond)
    exact apart a ((mem_sortBy key).mp inFirst) b other (below.antisymm above)
  exact joined.eq_of_pairwise antisymm (sortBy_pairwise key first) (sortBy_pairwise key second)

theorem sortBy_congr {first second : List α} (same : first.Perm second)
    (injective : Function.Injective key) : sortBy key first = sortBy key second :=
  sortBy_eq_of_perm same fun _ _ _ _ equal => injective equal

/-- Some of the sorted elements are those elements sorted. -/
theorem sortBy_filter (keep : α → Bool) {elements : List α}
    (apart : ∀ a ∈ elements, ∀ b ∈ elements, key a = key b → a = b) :
    (sortBy key elements).filter keep = sortBy key (elements.filter keep) := by
  have sorted : ((sortBy key elements).filter keep).Pairwise
      fun first second => key first ≤ key second :=
    (sortBy_pairwise key elements).sublist List.filter_sublist
  have same : ((sortBy key elements).filter keep).Perm (elements.filter keep) :=
    (sortBy_perm key elements).filter keep
  calc (sortBy key elements).filter keep
    _ = sortBy key ((sortBy key elements).filter keep) := (sortBy_of_pairwise key sorted).symm
    _ = sortBy key (elements.filter keep) := by
      apply sortBy_eq_of_perm same
      intro a inFirst b inSecond
      rw [List.mem_filter, mem_sortBy] at inFirst inSecond
      exact apart a inFirst.1 b inSecond.1

theorem sortBy_map {β : Type} (image : β → α) (elements : List β) :
    sortBy key (elements.map image) = (sortBy (fun element => key (image element)) elements).map
      image := by
  induction elements with
  | nil => rfl
  | cons element elements ih =>
      have ordered : ∀ sorted : List β, (sorted.map image).orderedInsert
          (fun first second => key first ≤ key second) (image element) =
          (sorted.orderedInsert (fun first second => key (image first) ≤ key (image second))
            element).map image := by
        intro sorted
        induction sorted with
        | nil => rfl
        | cons other sorted rest =>
            simp only [List.map_cons, List.orderedInsert]
            split_ifs
            · rfl
            · rw [List.map_cons, rest]
      unfold sortBy at ih ⊢
      rw [List.map_cons, List.insertionSort_cons, ih, ordered, List.insertionSort_cons]

theorem sortedSet_congr {first second : List κ}
    (same : ∀ element, element ∈ first ↔ element ∈ second) :
    sortedSet first = sortedSet second := by
  have perm : first.dedup.Perm second.dedup := by
    rw [List.perm_ext_iff_of_nodup (List.nodup_dedup _) (List.nodup_dedup _)]
    intro element
    rw [List.mem_dedup, List.mem_dedup, same]
  exact sortBy_congr perm Function.injective_id

end SortBy

section Distinct

variable {α : Type} [DecidableEq α]

theorem nodup_eraseDups (elements : List α) : elements.eraseDups.Nodup := by
  induction elements using List.reverseRecOn with
  | nil => exact List.nodup_nil
  | append_singleton elements last ih =>
      rw [List.eraseDups_append]
      refine List.nodup_append.mpr ⟨ih, ?_, ?_⟩
      · rw [List.removeAll]
        by_cases known : last ∈ elements <;> simp [known, List.eraseDups_cons]
      · intro a inFirst b inSecond equal
        have fresh := List.mem_eraseDups.mp inSecond
        simp only [List.removeAll, List.mem_filter, List.mem_singleton, List.elem_eq_mem] at fresh
        subst equal
        simp [List.mem_eraseDups.mp inFirst] at fresh

/-- Dropping repeats keeps what is listed, whatever order it is listed in. -/
theorem eraseDups_perm {first second : List α} (same : first.Perm second) :
    first.eraseDups.Perm second.eraseDups := by
  rw [List.perm_ext_iff_of_nodup (nodup_eraseDups first) (nodup_eraseDups second)]
  intro element
  rw [List.mem_eraseDups, List.mem_eraseDups, same.mem_iff]

end Distinct

end Verbatus.Library
