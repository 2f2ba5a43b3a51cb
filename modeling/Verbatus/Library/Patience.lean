import Mathlib.Data.List.Chain
import Mathlib.Tactic

namespace Verbatus.Library

section Bisect

variable {κ : Type} [LinearOrder κ]

/-- Where a key goes in a sorted list, in front of its equals. -/
def bisectLeft (sorted : List κ) (key : κ) : ℕ := (sorted.takeWhile (· < key)).length

theorem bisectLeft_le (sorted : List κ) (key : κ) : bisectLeft sorted key ≤ sorted.length :=
  (List.takeWhile_sublist _).length_le

/-- Everything in front of the place is smaller. -/
theorem lt_of_lt_bisectLeft {sorted : List κ} {key other : κ} {position : ℕ}
    (before : position < bisectLeft sorted key) (here : sorted[position]? = some other) :
    other < key := by
  have listed := List.prefix_iff_getElem?.mp (List.takeWhile_prefix (· < key)) position before
  rw [here, Option.some.injEq] at listed
  have member := List.getElem_mem (l := sorted.takeWhile (· < key)) before
  rw [← listed] at member
  exact of_decide_eq_true (List.all_eq_true.mp List.all_takeWhile other member)

/-- What stands at the place is no smaller. -/
theorem le_of_eq_bisectLeft {sorted : List κ} {key other : κ}
    (here : sorted[bisectLeft sorted key]? = some other) : key ≤ other := by
  have split := List.takeWhile_append_dropWhile (p := (· < key)) (l := sorted)
  rw [← split, List.getElem?_append_right (by rw [split]; rfl), split] at here
  rw [bisectLeft, Nat.sub_self] at here
  have first : (sorted.dropWhile (· < key)).head? = some other := by
    rw [List.head?_eq_getElem?]
    exact here
  have fails := List.head?_dropWhile_not (· < key) sorted
  rw [first] at fails
  simpa using fails

end Bisect

section Patience

variable {κ : Type} [LinearOrder κ]

/-- The least ends of the chains of each length so far, where they stand, and what each key
    follows in its chain. -/
structure Patience (κ : Type) where
  tails : List κ
  tailIndex : List ℕ
  previous : List (Option ℕ)

def Patience.empty : Patience κ := { tails := [], tailIndex := [], previous := [] }

/-- An element replaced, or one more at the end. -/
def putAt {α : Type} (elements : List α) (position : ℕ) (element : α) : List α :=
  if position = elements.length then elements ++ [element] else elements.set position element

theorem getElem?_putAt {α : Type} {elements : List α} {position : ℕ}
    (inside : position ≤ elements.length) (element : α) (other : ℕ) :
    (putAt elements position element)[other]? =
      if other = position then some element else elements[other]? := by
  rw [putAt]
  split_ifs with last here here
  · rw [here, last, List.getElem?_concat_length]
  · rw [List.getElem?_append]
    split_ifs with before
    · rfl
    · rw [List.getElem?_eq_none (by simp; omega), List.getElem?_eq_none (by omega)]
  · rw [here, List.getElem?_set_self (by omega)]
  · rw [List.getElem?_set_ne (Ne.symm here)]

/-- The next key ends a chain one longer than the longest it may follow. -/
def Patience.insert (state : Patience κ) (key : κ) : Patience κ :=
  let index := state.previous.length
  let position := bisectLeft state.tails key
  let tailIndex := putAt state.tailIndex position index
  { tails := putAt state.tails position key
    tailIndex := tailIndex
    previous := state.previous ++ [if position = 0 then none else tailIndex[position - 1]?] }

/-- A chain followed back from its end; each index is smaller than the one before. -/
def followBack (previous : List (Option ℕ)) : ℕ → Option ℕ → List ℕ
  | 0, _ => []
  | _ + 1, none => []
  | fuel + 1, some index => index :: followBack previous fuel previous[index]?.join

/-- Where a longest chain of strictly rising keys stands. -/
def risingChain (keys : List κ) : List ℕ :=
  let state := keys.foldl Patience.insert Patience.empty
  (followBack state.previous keys.length state.tailIndex.getLast?).reverse

/-- One place comes before another and holds a smaller key. -/
def Rises (keys : List κ) (first second : ℕ) : Prop :=
  first < second ∧ ∃ low high, keys[first]? = some low ∧ keys[second]? = some high ∧ low < high

theorem Rises.trans {keys : List κ} {first second third : ℕ} (before : Rises keys first second)
    (after : Rises keys second third) : Rises keys first third := by
  obtain ⟨below, low, middle, atFirst, atSecond, less⟩ := before
  obtain ⟨above, other, high, again, atThird, more⟩ := after
  rw [atSecond, Option.some.injEq] at again
  subst again
  exact ⟨below.trans above, low, high, atFirst, atThird, less.trans more⟩

theorem getElem?_append_some {α : Type} {elements : List α} {position : ℕ} {element : α}
    (here : elements[position]? = some element) (more : List α) :
    (elements ++ more)[position]? = some element := by
  obtain ⟨inside, _⟩ := List.getElem?_eq_some_iff.mp here
  rw [List.getElem?_append_left inside, here]

theorem Rises.append {keys : List κ} {first second : ℕ} (rises : Rises keys first second)
    (more : List κ) : Rises (keys ++ more) first second := by
  obtain ⟨below, low, high, atFirst, atSecond, less⟩ := rises
  exact ⟨below, low, high, getElem?_append_some atFirst more,
    getElem?_append_some atSecond more, less⟩

/-- The tails strictly rise and stand where they say, and what a key follows is smaller. -/
structure Patience.Holds (state : Patience κ) (keys : List κ) : Prop where
  length : state.previous.length = keys.length
  lengths : state.tailIndex.length = state.tails.length
  rising : ∀ {first second : ℕ} {low high : κ}, first < second → state.tails[first]? = some low →
    state.tails[second]? = some high → low < high
  stands : ∀ {position index : ℕ} {tail : κ}, state.tailIndex[position]? = some index →
    state.tails[position]? = some tail → keys[index]? = some tail
  follows : ∀ {index before : ℕ}, state.previous[index]? = some (some before) → Rises keys before index

theorem Patience.empty_holds : Patience.empty.Holds ([] : List κ) :=
  ⟨rfl, rfl, nofun, nofun, nofun⟩

section Insert

variable {state : Patience κ} {keys : List κ} (holds : state.Holds keys) (key : κ)

include holds

/-- The tails rise still: the key goes above everything in front of its place. -/
theorem Patience.insert_rising {first second : ℕ} {low high : κ} (before : first < second)
    (atFirst : (state.insert key).tails[first]? = some low)
    (atSecond : (state.insert key).tails[second]? = some high) : low < high := by
  have place := bisectLeft_le state.tails key
  rw [Patience.insert, getElem?_putAt place] at atFirst atSecond
  split_ifs at atFirst atSecond with here there there
  · omega
  · obtain rfl := Option.some.inj atFirst
    obtain ⟨inside, _⟩ := List.getElem?_eq_some_iff.mp atSecond
    rw [here] at before
    have placed := List.getElem?_eq_getElem (before.trans inside)
    exact (le_of_eq_bisectLeft placed).trans_lt (holds.rising before placed atSecond)
  · obtain rfl := Option.some.inj atSecond
    exact lt_of_lt_bisectLeft (there ▸ before) atFirst
  · exact holds.rising before atFirst atSecond

theorem Patience.insert_stands {position index : ℕ} {tail : κ}
    (indexed : (state.insert key).tailIndex[position]? = some index)
    (holding : (state.insert key).tails[position]? = some tail) :
    (keys ++ [key])[index]? = some tail := by
  have place := bisectLeft_le state.tails key
  rw [Patience.insert, getElem?_putAt (holds.lengths ▸ place)] at indexed
  rw [Patience.insert, getElem?_putAt place] at holding
  split_ifs at indexed holding with here
  · obtain rfl := Option.some.inj indexed
    obtain rfl := Option.some.inj holding
    rw [holds.length, List.getElem?_concat_length]
  · exact getElem?_append_some (holds.stands indexed holding) _

/-- What the new key follows is the tail in front of its place. -/
theorem Patience.insert_follows {index before : ℕ}
    (followed : (state.insert key).previous[index]? = some (some before)) :
    Rises (keys ++ [key]) before index := by
  have place := bisectLeft_le state.tails key
  rw [Patience.insert, List.getElem?_append] at followed
  split_ifs at followed with old first
  · exact (holds.follows followed).append _
  · rw [List.getElem?_singleton] at followed
    split_ifs at followed
    cases followed
  · rw [List.getElem?_singleton] at followed
    split_ifs at followed with last
    obtain tailed := Option.some.inj followed
    rw [getElem?_putAt (holds.lengths ▸ place), if_neg (by omega)] at tailed
    have same : index = keys.length := by
      rw [← holds.length]
      omega
    obtain ⟨inside, _⟩ := List.getElem?_eq_some_iff.mp tailed
    have held := List.getElem?_eq_getElem (holds.lengths ▸ inside)
    have stood := holds.stands tailed held
    have less : _ < key := lt_of_lt_bisectLeft (by omega) held
    obtain ⟨below, _⟩ := List.getElem?_eq_some_iff.mp stood
    refine ⟨same ▸ below, _, key, getElem?_append_some stood _, ?_, less⟩
    rw [same, List.getElem?_concat_length]

theorem Patience.insert_holds : (state.insert key).Holds (keys ++ [key]) := by
  refine ⟨?_, ?_, ?_, ?_, ?_⟩
  · rw [Patience.insert, List.length_append, List.length_append, holds.length]
    rfl
  · rw [Patience.insert]
    simp only [putAt, holds.lengths]
    split_ifs
    · rw [List.length_append, List.length_append, holds.lengths]
      rfl
    · rw [List.length_set, List.length_set, holds.lengths]
  · exact fun before => insert_rising holds key before
  · exact fun indexed => insert_stands holds key indexed
  · exact fun followed => insert_follows holds key followed

end Insert

theorem Patience.foldl_holds {state : Patience κ} {keys : List κ} (holds : state.Holds keys)
    (more : List κ) : (more.foldl Patience.insert state).Holds (keys ++ more) := by
  induction more generalizing state keys with
  | nil => rwa [List.append_nil]
  | cons key more ih =>
      rw [List.foldl_cons, List.append_cons]
      exact ih (insert_holds holds key)

/-- A chain followed back falls at every step. -/
theorem followBack_isChain {keys : List κ} {previous : List (Option ℕ)}
    (follows : ∀ {index before : ℕ}, previous[index]? = some (some before) →
      Rises keys before index) (fuel : ℕ) (last : Option ℕ) :
    (followBack previous fuel last).IsChain fun first second => Rises keys second first := by
  induction fuel generalizing last with
  | zero => exact .nil
  | succ fuel ih =>
      cases last with
      | none => exact .nil
      | some index =>
          rw [followBack, List.isChain_cons]
          refine ⟨?_, ih _⟩
          intro next begins
          cases fuel with
          | zero => cases begins
          | succ fuel =>
              cases before : previous[index]? with
              | none => rw [before] at begins; cases begins
              | some found =>
                  cases found with
                  | none => rw [before] at begins; cases begins
                  | some earlier =>
                      rw [before] at begins
                      cases begins
                      exact follows before

/-- The places of a rising chain come in order and their keys rise with them. -/
theorem risingChain_rises (keys : List κ) : (risingChain keys).Pairwise (Rises keys) := by
  have holds := Patience.foldl_holds Patience.empty_holds keys
  rw [List.nil_append] at holds
  have chain := followBack_isChain holds.follows keys.length
    (keys.foldl Patience.insert Patience.empty).tailIndex.getLast?
  have trans : IsTrans ℕ fun first second => Rises keys second first :=
    ⟨fun _ _ _ before after => after.trans before⟩
  rw [risingChain, List.pairwise_reverse]
  exact List.isChain_iff_pairwise.mp chain

end Patience

end Verbatus.Library
