import Mathlib.Data.List.Chain
import Mathlib.Data.List.Nodup
import Mathlib.Tactic

namespace Verbatus.Library

variable {α : Type}

/-- The neighbouring elements of a list, in order. -/
def neighbours (elements : List α) : List (α × α) := elements.zip elements.tail

theorem neighbours_concat (chain : List α) (first second : α) :
    neighbours (chain ++ [first, second]) = neighbours (chain ++ [first]) ++ [(first, second)] := by
  induction chain with
  | nil => rfl
  | cons element chain ih =>
      cases chain with
      | nil => rfl
      | cons next chain =>
          simp only [neighbours, List.cons_append, List.tail_cons, List.zip_cons_cons] at ih ⊢
          rw [ih]

theorem neighbours_mem_isChain {relation : α → α → Prop} {chain : List α}
    (each : ∀ pair ∈ neighbours chain, relation pair.1 pair.2) : chain.IsChain relation := by
  induction chain with
  | nil => exact .nil
  | cons first chain ih =>
      cases chain with
      | nil => exact .singleton first
      | cons second chain =>
          refine List.isChain_cons_cons.mpr ⟨each (first, second) (.head _), ih ?_⟩
          intro pair member
          exact each pair (.tail _ member)

theorem mem_of_mem_neighbours {chain : List α} {pair : α × α} (member : pair ∈ neighbours chain) :
    pair.1 ∈ chain ∧ pair.2 ∈ chain :=
  ⟨(List.of_mem_zip member).1, List.mem_of_mem_tail (List.of_mem_zip member).2⟩

/-- Every element of a chain of two or more has a neighbour. -/
theorem exists_mem_neighbours {chain : List α} (long : 2 ≤ chain.length) {element : α}
    (member : element ∈ chain) : ∃ pair ∈ neighbours chain, element = pair.1 ∨ element = pair.2 := by
  induction chain with
  | nil => exact absurd member List.not_mem_nil
  | cons first chain ih =>
      cases chain with
      | nil => simp at long
      | cons second chain =>
          have head : (first, second) ∈ neighbours (first :: second :: chain) := .head _
          rcases List.mem_cons.mp member with rfl | rest
          · exact ⟨_, head, .inl rfl⟩
          · cases chain with
            | nil => exact ⟨_, head, .inr (List.mem_singleton.mp rest)⟩
            | cons third chain =>
                obtain ⟨pair, later, side⟩ := ih (by simp) rest
                exact ⟨pair, .tail _ later, side⟩

section Rising

variable {κ : Type} [LinearOrder κ] (rank : α → κ)

/-- The chained elements, the last of them ranked above all the others. -/
structure Rising (elements : List α) (last : α) : Prop where
  distinct : elements.Nodup
  ends : ∃ before, elements = before ++ [last] ∧ ∀ element ∈ before, rank element < rank last

variable {rank}

/-- An element ranked above distinct ones is distinct from them. -/
theorem Rising.concat {elements : List α} {next : α} (distinct : elements.Nodup)
    (under : ∀ element ∈ elements, rank element < rank next) :
    Rising rank (elements ++ [next]) next := by
  refine ⟨?_, elements, rfl, under⟩
  rw [List.nodup_append]
  refine ⟨distinct, List.nodup_singleton next, ?_⟩
  intro element member other single equal
  rw [List.mem_singleton] at single
  subst single equal
  exact (under element member).false

theorem Rising.le {elements : List α} {last element : α} (rising : Rising rank elements last)
    (member : element ∈ elements) : rank element ≤ rank last := by
  obtain ⟨-, before, same, below⟩ := rising
  rw [same, List.mem_append, List.mem_singleton] at member
  rcases member with earlier | rfl
  · exact (below element earlier).le
  · exact le_rfl

/-- Another element no lower than the last one is different from every one before it. -/
theorem Rising.fresh {elements : List α} {last next : α} (rising : Rising rank elements last)
    (above : rank last ≤ rank next) (other : next ≠ last) : next ∉ elements := by
  obtain ⟨-, before, same, below⟩ := rising
  intro member
  rw [same, List.mem_append, List.mem_singleton] at member
  rcases member with earlier | equal
  · exact (below next earlier).not_ge above
  · exact other equal

end Rising

section LinkPairs

variable [DecidableEq α] {κ : Type} [LinearOrder κ] {rank : α → κ}

/-- A pair that starts where the last chain ends continues it; any other starts its own. -/
def linkPair (chains : List (List α)) (pair : α × α) : List (List α) :=
  match chains.getLast? with
  | none => [[pair.1, pair.2]]
  | some chain =>
    if chain.getLast? = some pair.1 then chains.dropLast ++ [chain ++ [pair.2]]
    else chains ++ [[pair.1, pair.2]]

def linkPairs (pairs : List (α × α)) : List (List α) := pairs.foldl linkPair []

theorem linkPairs_concat (pairs : List (α × α)) (pair : α × α) :
    linkPairs (pairs ++ [pair]) = linkPair (linkPairs pairs) pair := by
  rw [linkPairs, List.foldl_append]
  rfl

/-- What one more pair does to the chains. -/
theorem linkPair_cases (chains : List (List α)) (pair : α × α) :
    (∃ before chain, chains = before ++ [chain ++ [pair.1]] ∧
      linkPair chains pair = before ++ [chain ++ [pair.1, pair.2]]) ∨
    ((∀ before chain, chains ≠ before ++ [chain ++ [pair.1]]) ∧
      linkPair chains pair = chains ++ [[pair.1, pair.2]]) := by
  cases last : chains.getLast? with
  | none =>
      have empty := List.getLast?_eq_none_iff.mp last
      subst empty
      right
      exact ⟨by simp, rfl⟩
  | some chain =>
      obtain ⟨before, same⟩ := List.getLast?_eq_some_iff.mp last
      subst same
      by_cases joined : chain.getLast? = some pair.1
      · obtain ⟨start, ends⟩ := List.getLast?_eq_some_iff.mp joined
        subst ends
        left
        refine ⟨before, start, rfl, ?_⟩
        simp [linkPair]
      · right
        constructor
        · intro other start same
          obtain ⟨-, equal⟩ := List.append_inj' same rfl
          rw [List.singleton_inj] at equal
          rw [equal] at joined
          simp at joined
        · simp [linkPair, joined]

/-- The chains' neighbours are the linked pairs, each once and in order. -/
theorem linkPairs_neighbours (pairs : List (α × α)) :
    (linkPairs pairs).flatMap neighbours = pairs := by
  induction pairs using List.reverseRecOn with
  | nil => rfl
  | append_singleton pairs pair ih =>
      rw [linkPairs_concat]
      rcases linkPair_cases (linkPairs pairs) pair with ⟨before, chain, same, linked⟩ | ⟨-, linked⟩
      · rw [same] at ih
        rw [linked, List.flatMap_append, List.flatMap_singleton, neighbours_concat,
          ← List.append_assoc]
        rw [List.flatMap_append, List.flatMap_singleton] at ih
        rw [ih]
      · rw [linked, List.flatMap_append, ih]
        rfl

/-- Every chain joins at least two elements. -/
theorem linkPairs_length (pairs : List (α × α)) :
    ∀ chain ∈ linkPairs pairs, 2 ≤ chain.length := by
  induction pairs using List.reverseRecOn with
  | nil => simp [linkPairs]
  | append_singleton pairs pair ih =>
      intro chain member
      rw [linkPairs_concat] at member
      rcases linkPair_cases (linkPairs pairs) pair with ⟨before, start, same, linked⟩ | ⟨-, linked⟩
      · rw [linked, List.mem_append, List.mem_singleton] at member
        rcases member with earlier | rfl
        · exact ih chain (same ▸ List.mem_append_left _ earlier)
        · simp
      · rw [linked, List.mem_append, List.mem_singleton] at member
        rcases member with earlier | rfl
        · exact ih chain earlier
        · simp

/-- Whatever holds between the parts of every pair holds along every chain. -/
theorem linkPairs_isChain {relation : α → α → Prop} {pairs : List (α × α)}
    (each : ∀ pair ∈ pairs, relation pair.1 pair.2) :
    ∀ chain ∈ linkPairs pairs, chain.IsChain relation := by
  intro chain member
  apply neighbours_mem_isChain
  intro pair inside
  apply each
  rw [← linkPairs_neighbours pairs]
  exact List.mem_flatMap_of_mem member inside

/-- The last chain ends where the last pair does. -/
theorem linkPairs_ends {pairs : List (α × α)} {last : α × α} (ends : pairs.getLast? = some last) :
    ∃ before chain, linkPairs pairs = before ++ [chain ++ [last.2]] := by
  obtain ⟨earlier, same⟩ := List.getLast?_eq_some_iff.mp ends
  rw [same, linkPairs_concat]
  rcases linkPair_cases (linkPairs earlier) last with ⟨before, chain, -, linked⟩ | ⟨-, linked⟩
  · exact ⟨before, chain ++ [last.1], by rw [linked]; simp⟩
  · exact ⟨linkPairs earlier, [last.1], linked⟩

/-- Pairs that rise, each starting no lower than the one before it ends, chain no element twice. -/
theorem linkPairs_rising (rank : α → ℤ) {pairs : List (α × α)}
    (rises : ∀ pair ∈ pairs, rank pair.1 < rank pair.2)
    (ordered : pairs.Pairwise fun pair later => rank pair.2 ≤ rank later.1) (last : α × α)
    (ends : pairs.getLast? = some last) : Rising rank (linkPairs pairs).flatten last.2 := by
  induction pairs using List.reverseRecOn generalizing last with
  | nil => simp at ends
  | append_singleton pairs pair ih =>
      rw [List.getLast?_concat, Option.some.injEq] at ends
      subst ends
      have step := rises pair (by simp)
      rw [List.pairwise_append] at ordered
      have earlier := ih (fun other member => rises other (List.mem_append_left _ member)) ordered.1
      rw [linkPairs_concat]
      cases previous : pairs.getLast? with
      | none =>
          have empty := List.getLast?_eq_none_iff.mp previous
          subst empty
          refine Rising.concat (List.nodup_singleton pair.1) ?_
          intro element member
          rw [List.mem_singleton] at member
          exact member ▸ step
      | some prior =>
          have rising := earlier prior previous
          have apart := ordered.2.2 prior (List.mem_of_getLast? previous) pair (by simp)
          obtain ⟨others, piece, shape⟩ := linkPairs_ends previous
          rcases linkPair_cases (linkPairs pairs) pair with ⟨before, chain, same, linked⟩ |
            ⟨separate, linked⟩
          · -- The pair continues the last chain, whose end is the last element chained.
            have tail : prior.2 = pair.1 := by
              have equal := (List.append_inj' (shape.symm.trans same) rfl).2
              rw [List.singleton_inj] at equal
              exact List.singleton_inj.mp (List.append_inj' equal rfl).2
            have joined : (linkPair (linkPairs pairs) pair).flatten =
                (linkPairs pairs).flatten ++ [pair.2] := by
              rw [linked, same]
              simp
            rw [joined]
            refine Rising.concat rising.distinct fun element member => ?_
            exact (rising.le member).trans_lt (tail ▸ step)
          · have other : pair.1 ≠ prior.2 := by
              intro equal
              exact separate others piece (equal ▸ shape)
            have joined : (linkPair (linkPairs pairs) pair).flatten =
                (linkPairs pairs).flatten ++ [pair.1] ++ [pair.2] := by
              rw [linked]
              simp
            rw [joined]
            refine Rising.concat ?_ ?_
            · rw [List.nodup_append]
              refine ⟨rising.distinct, List.nodup_singleton _, ?_⟩
              intro element member single inSingle equal
              rw [List.mem_singleton] at inSingle
              subst inSingle equal
              exact rising.fresh apart other member
            · intro element member
              rw [List.mem_append, List.mem_singleton] at member
              rcases member with chained | rfl
              · exact ((rising.le chained).trans apart).trans_lt step
              · exact step

end LinkPairs

end Verbatus.Library
