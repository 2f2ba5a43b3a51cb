import Verbatus.Corpus.HungarianSearch

namespace Verbatus.Corpus

open Library

namespace Weights

variable {weights : Weights} {count pass : ℕ}

/-- A tree that stands on a matched column leaves a column outside it and its end. -/
theorem Tree.pass_lt {search : Search} (tree : weights.Tree count pass search)
    (filled : search.matchedRow search.j0 ≠ 0) (fewer : count < weights.size) :
    pass + 2 ≤ weights.size + 1 := by
  obtain ⟨j, column, empty⟩ := tree.matched.exists_free fewer
  have other : j ≠ search.j0 := fun same => filled (same ▸ empty)
  have within : insert j (insert search.j0 ((Finset.range (weights.size + 1)).filter fun k =>
      search.used k = true)) ⊆ Finset.range (weights.size + 1) := by
    intro k listed
    rw [Finset.mem_insert, Finset.mem_insert, Finset.mem_filter] at listed
    rcases listed with rfl | rfl | listed
    · exact Finset.mem_range.mpr (Nat.lt_succ_of_le column.2)
    · exact Finset.mem_range.mpr (Nat.lt_succ_of_le tree.column.2)
    · exact listed.1
  have card := Finset.card_le_card within
  rw [Finset.card_insert_of_notMem, Finset.card_insert_of_notMem, tree.passes,
    Finset.card_range] at card
  · exact card
  · rw [Finset.mem_filter, tree.unused]
    simp
  · rw [Finset.mem_insert, Finset.mem_filter]
    rintro (same | ⟨_, used⟩)
    · exact other same
    · exact (tree.usedMatched j used).2 empty

/-- The search ends at a free column. -/
theorem search_ends (passes : ℕ) {state : Search} (tree : weights.Tree count pass state)
    (filled : state.matchedRow state.j0 ≠ 0) (fewer : count < weights.size)
    (enough : weights.size + 1 ≤ passes + pass) :
    ∃ found last, weights.search passes state = some found ∧ weights.Tree count last found ∧
      found.matchedRow found.j0 = 0 := by
  induction passes generalizing state pass with
  | zero =>
      have lower := tree.pass_lt filled fewer
      omega
  | succ passes ih =>
      obtain ⟨_, j1, found, next⟩ := tree.advance filled fewer
      rw [search]
      rw [show weights.advance state = ((weights.advance state).1, some j1) from
        Prod.ext rfl found]
      by_cases empty : (weights.advance state).1.matchedRow j1 = 0
      · exact ⟨_, _, if_pos empty, next, empty⟩
      · obtain ⟨last, passed, ran, grown, ended⟩ := ih next empty (by omega)
        exact ⟨last, passed, (if_neg empty).trans ran, grown, ended⟩

/-- The rows but for one column's, along the way back from it: each column that is left to visit
    is joined to its parent by a tight edge. -/
structure Handing (weights : Weights) (rows : ℕ) (labels : Labels) (joined : ℕ → Prop)
    (rank : ℕ → ℕ) (matchedRow : ℕ → ℕ) (j0 : ℕ) : Prop where
  within : ∀ j, j ≤ weights.size → j ≠ j0 → matchedRow j ≤ rows
  apart : ∀ j k, j ≤ weights.size → k ≤ weights.size → j ≠ j0 → k ≠ j0 → matchedRow j ≠ 0 →
    matchedRow j = matchedRow k → j = k
  covers : ∀ i, 1 ≤ i → i ≤ rows → ∃ j, j ≤ weights.size ∧ j ≠ j0 ∧ matchedRow j = i
  tight : ∀ j, weights.Column j → j ≠ j0 → matchedRow j ≠ 0 →
    labels.u (matchedRow j) + labels.v j = weights.cost (matchedRow j - 1) (j - 1)
  free : ∀ j, weights.Column j → j ≠ j0 → matchedRow j = 0 → labels.v j = 0
  bounded : j0 ≤ weights.size
  here : joined j0
  parent : ∀ j, weights.Column j → joined j → rank j ≤ rank j0 →
    labels.way j ≤ weights.size ∧ joined (labels.way j) ∧ rank (labels.way j) < rank j ∧
      matchedRow (labels.way j) ≠ 0 ∧
        labels.u (matchedRow (labels.way j)) + labels.v j =
          weights.cost (matchedRow (labels.way j) - 1) (j - 1)

/-- One row handed back. -/
theorem Handing.step {rows j0 : ℕ} {labels : Labels} {joined : ℕ → Prop} {rank matchedRow : ℕ → ℕ}
    (handing : weights.Handing rows labels joined rank matchedRow j0) (positive : 1 ≤ j0) :
    rank (labels.way j0) < rank j0 ∧
      weights.Handing rows labels joined rank
        (Function.update matchedRow j0 (matchedRow (labels.way j0))) (labels.way j0) := by
  obtain ⟨wayWithin, wayJoined, falls, wayMatched, joint⟩ :=
    handing.parent j0 ⟨positive, handing.bounded⟩ handing.here le_rfl
  have other : labels.way j0 ≠ j0 := by
    intro same
    rw [same] at falls
    exact lt_irrefl _ falls
  have kept : ∀ j, j ≠ j0 →
      Function.update matchedRow j0 (matchedRow (labels.way j0)) j = matchedRow j :=
    fun j apart => Function.update_of_ne apart _ _
  have handed : Function.update matchedRow j0 (matchedRow (labels.way j0)) j0 =
      matchedRow (labels.way j0) := Function.update_self _ _ _
  refine ⟨falls, ?_⟩
  constructor
  case within =>
    intro j within _
    by_cases same : j = j0
    · rw [same, handed]
      exact handing.within _ wayWithin other
    · rw [kept j same]
      exact handing.within j within same
  case apart =>
    intro j k jWithin kWithin jOther kOther matched same
    by_cases jSame : j = j0
    · by_cases kSame : k = j0
      · rw [jSame, kSame]
      · rw [jSame, handed, kept k kSame] at same
        exact absurd (handing.apart _ k wayWithin kWithin other kSame wayMatched same).symm kOther
    · rw [kept j jSame] at same matched
      by_cases kSame : k = j0
      · rw [kSame, handed] at same
        exact absurd (handing.apart j _ jWithin wayWithin jSame other matched same) jOther
      · rw [kept k kSame] at same
        exact handing.apart j k jWithin kWithin jSame kSame matched same
  case covers =>
    intro i positive within
    obtain ⟨j, jWithin, apart, rfl⟩ := handing.covers i positive within
    by_cases same : j = labels.way j0
    · exact ⟨j0, handing.bounded, other.symm, by rw [handed, same]⟩
    · exact ⟨j, jWithin, same, kept j apart⟩
  case tight =>
    intro j column _ matched
    by_cases same : j = j0
    · rw [same, handed]
      exact joint
    · rw [kept j same] at matched ⊢
      exact handing.tight j column same matched
  case free =>
    intro j column _ empty
    by_cases same : j = j0
    · rw [same, handed] at empty
      exact absurd empty wayMatched
    · rw [kept j same] at empty
      exact handing.free j column same empty
  case bounded => exact wayWithin
  case here => exact wayJoined
  case parent =>
    intro j column isJoined lower
    obtain ⟨within, parentJoined, parentFalls, matched, tight⟩ :=
      handing.parent j column isJoined (lower.trans falls.le)
    have apart : labels.way j ≠ j0 := by
      intro same
      rw [same] at parentFalls
      omega
    rw [kept _ apart]
    exact ⟨within, parentJoined, parentFalls, matched, tight⟩

/-- The rows are handed back to the column before the first. -/
theorem augment_ends {rows : ℕ} {labels : Labels} {joined : ℕ → Prop} {rank : ℕ → ℕ} (steps : ℕ)
    {matchedRow : ℕ → ℕ} {j0 : ℕ}
    (handing : weights.Handing rows labels joined rank matchedRow j0) (enough : rank j0 ≤ steps) :
    ∃ handed, augment labels.way steps matchedRow j0 = some handed ∧
      weights.Handing rows labels joined rank handed 0 := by
  induction steps generalizing matchedRow j0 with
  | zero =>
      cases j0 with
      | zero => exact ⟨matchedRow, rfl, handing⟩
      | succ j0 =>
          have falls := (handing.step (Nat.succ_pos _)).1
          omega
  | succ steps ih =>
      cases j0 with
      | zero => exact ⟨matchedRow, rfl, handing⟩
      | succ j0 =>
          obtain ⟨falls, next⟩ := handing.step (Nat.succ_pos _)
          exact ih next (by omega)

/-- The tree that reached a free column, ready to be handed back along. -/
theorem Tree.handing {search : Search} (tree : weights.Tree count pass search)
    (empty : search.matchedRow search.j0 = 0) :
    ∃ rank : ℕ → ℕ, rank search.j0 ≤ pass ∧
      weights.Handing (count + 1) search.toLabels
        (fun j => j = search.j0 ∨ search.used j = true) rank search.matchedRow search.j0 := by
  obtain ⟨rank, bounded, falls⟩ := tree.ranked
  have apart : ∀ j, search.used j = true → j ≠ search.j0 := by
    rintro j used rfl
    rw [tree.unused] at used
    cases used
  have root : search.j0 ≠ 0 := Nat.pos_iff_ne_zero.mp tree.column.1
  have rowOf : ∀ j, j ≤ weights.size → search.matchedRow j = count + 1 → j = 0 := by
    intro j within row
    by_contra positive
    have bound := tree.matched.within j ⟨Nat.pos_of_ne_zero positive, within⟩
    omega
  refine ⟨Function.update rank search.j0 pass, (Function.update_self _ _ _).le, ?_⟩
  constructor
  case within =>
    intro j within _
    rcases Nat.eq_zero_or_pos j with rfl | positive
    · exact tree.root.le
    · exact (tree.matched.within j ⟨positive, within⟩).trans (Nat.le_succ _)
  case apart =>
    intro j k jWithin kWithin _ _ matched same
    rcases Nat.eq_zero_or_pos j with rfl | jPos
    · exact (rowOf k kWithin (same.symm.trans tree.root)).symm
    · rcases Nat.eq_zero_or_pos k with rfl | kPos
      · exact rowOf j jWithin (same.trans tree.root)
      · exact tree.matched.apart j k ⟨jPos, jWithin⟩ ⟨kPos, kWithin⟩ matched same
  case covers =>
    intro i positive within
    rcases Nat.lt_or_ge count i with last | earlier
    · exact ⟨0, Nat.zero_le _, root.symm, tree.root.trans (by omega)⟩
    · obtain ⟨j, column, row⟩ := tree.matched.covers i positive earlier
      refine ⟨j, column.2, ?_, row⟩
      rintro rfl
      omega
  case tight => exact fun j column _ matched => tree.tight j column matched
  case free => exact fun j column _ unmatched => tree.free j column unmatched
  case bounded => exact tree.column.2
  case here => exact .inl rfl
  case parent =>
    intro j column joined _
    have used := tree.wayUsed j column
    refine ⟨(tree.usedMatched _ used).1, .inr used, ?_, (tree.usedMatched _ used).2, ?_⟩
    · rw [Function.update_of_ne (apart _ used)]
      rcases joined with rfl | taken
      · rw [Function.update_self]
        exact bounded _ used
      · rw [Function.update_of_ne (apart j taken)]
        exact falls j column taken
    · rcases joined with rfl | taken
      · have measured := tree.least _ column tree.unused
        rw [tree.reached] at measured
        linarith
      · exact tree.branch j column taken

/-- The labels balance again once the rows are handed back. -/
theorem Tree.balanced {search : Search} (tree : weights.Tree count pass search)
    (empty : search.matchedRow search.j0 = 0) {joined : ℕ → Prop} {rank handed : ℕ → ℕ}
    (handing : weights.Handing (count + 1) search.toLabels joined rank handed 0) :
    weights.Balanced (count + 1) { search.toLabels with matchedRow := handed } := by
  have untaken := tree.free _ tree.column empty
  have apart : ∀ j, weights.Column j → j ≠ 0 := fun j column => Nat.pos_iff_ne_zero.mp column.1
  have rowNonpos : ∀ i, 1 ≤ i → i ≤ count + 1 → search.u i ≤ 0 := by
    intro i positive within
    have room := tree.feasible i _ positive within tree.column
    have cost := weights.cost_nonpos (i - 1) (search.j0 - 1)
    rw [untaken] at room
    linarith
  constructor
  case matched =>
    refine ⟨fun j column => handing.within j column.2 (apart j column), ?_, ?_⟩
    · intro j k column also matched same
      exact handing.apart j k column.2 also.2 (apart j column) (apart k also) matched same
    · intro i positive within
      obtain ⟨j, bounded, other, row⟩ := handing.covers i positive within
      exact ⟨j, ⟨Nat.pos_of_ne_zero other, bounded⟩, row⟩
  case rowBound => exact tree.rowBound
  case rowNonpos => exact rowNonpos
  case fresh => exact tree.fresh
  case colNonpos => exact tree.colNonpos
  case colBound =>
    intro j column
    have old := tree.colBound j column
    have root := rowNonpos (count + 1) (Nat.succ_pos _) le_rfl
    push_cast
    change -((count : ℚ) + 1) ≤ search.v j
    linarith
  case feasible => exact tree.feasible
  case tight => exact fun j column matched => handing.tight j column (apart j column) matched
  case free => exact fun j column unmatched => handing.free j column (apart j column) unmatched

/-- Matching one more row keeps the labels balanced. -/
theorem Balanced.matchRow {labels : Labels} (balanced : weights.Balanced count labels)
    (fewer : count < weights.size) :
    ∃ next, weights.matchRow labels (count + 1) = some next ∧
      weights.Balanced (count + 1) next := by
  have reached : ∃ found last,
      weights.search (weights.size + 1) (weights.beginRow labels (count + 1)) = some found ∧
        weights.Tree count last found ∧ found.matchedRow found.j0 = 0 := by
    obtain ⟨_, j1, found, tree⟩ := balanced.advance fewer
    rw [search, show weights.advance (weights.beginRow labels (count + 1)) =
      ((weights.advance (weights.beginRow labels (count + 1))).1, some j1) from Prod.ext rfl found]
    by_cases empty :
        (weights.advance (weights.beginRow labels (count + 1))).1.matchedRow j1 = 0
    · exact ⟨_, _, if_pos empty, tree, empty⟩
    · obtain ⟨last, passed, ran, grown, ended⟩ := search_ends weights.size tree empty fewer le_rfl
      exact ⟨last, passed, (if_neg empty).trans ran, grown, ended⟩
  obtain ⟨found, last, ran, tree, empty⟩ := reached
  obtain ⟨rank, bounded, handing⟩ := tree.handing empty
  have passes : last ≤ weights.size + 1 := by
    rw [← tree.passes]
    exact (Finset.card_filter_le _ _).trans (Finset.card_range _).le
  obtain ⟨handed, augmented, ended⟩ :=
    augment_ends (weights.size + 1) handing (bounded.trans passes)
  refine ⟨{ found.toLabels with matchedRow := handed }, ?_, tree.balanced empty ended⟩
  rw [Weights.matchRow, ran]
  change (augment found.way (weights.size + 1) found.matchedRow found.j0 >>= _) = _
  rw [augmented]
  rfl

theorem unlabelled_balanced : weights.Balanced 0 unlabelled where
  matched := ⟨fun _ _ => le_rfl, fun _ _ _ _ matched => absurd rfl matched,
    fun _ positive within => by omega⟩
  rowBound _ := by simp [unlabelled]
  rowNonpos _ _ _ := le_rfl
  fresh _ _ := rfl
  colNonpos _ _ := le_rfl
  colBound _ _ := by simp [unlabelled]
  feasible _ _ positive within _ := by omega
  tight _ _ matched := absurd rfl matched
  free _ _ _ := rfl

/-- Every row is matched in turn. -/
theorem matchRows_balanced (count : ℕ) (within : count ≤ weights.size) :
    ∃ labels, weights.matchRows count = some labels ∧ weights.Balanced count labels := by
  induction count with
  | zero => exact ⟨unlabelled, rfl, unlabelled_balanced⟩
  | succ count ih =>
      obtain ⟨labels, ran, balanced⟩ := ih (by omega)
      obtain ⟨next, stepped, kept⟩ := balanced.matchRow within
      refine ⟨next, ?_, kept⟩
      rw [matchRows, List.range'_concat, List.foldlM_append]
      change (weights.matchRows count >>= _) = _
      rw [ran]
      change (weights.matchRow labels (1 + 1 * count) >>= _) = _
      rw [one_mul, Nat.add_comm, stepped]
      rfl

/-- The heads that the search's loop passes, row by row. -/
inductive Head (weights : Weights) : Search → Prop where
  | begin (count : ℕ) (labels : Labels) : count < weights.size →
    weights.matchRows count = some labels → Head weights (weights.beginRow labels (count + 1))
  | pass (state : Search) (j1 : ℕ) : Head weights state →
    (weights.advance state).2 = some j1 → (weights.advance state).1.matchedRow j1 ≠ 0 →
      Head weights { (weights.advance state).1 with j0 := j1 }

/-- A head is a row's first, or its tree's. -/
theorem Head.known {state : Search} (head : weights.Head state) :
    ∃ count, count < weights.size ∧
      ((∃ labels, weights.Balanced count labels ∧ state = weights.beginRow labels (count + 1)) ∨
        ∃ pass, weights.Tree count pass state ∧ state.matchedRow state.j0 ≠ 0) := by
  induction head with
  | begin count labels fewer ran =>
      obtain ⟨also, same, balanced⟩ := @matchRows_balanced weights count fewer.le
      rw [ran, Option.some.injEq] at same
      exact ⟨count, fewer, .inl ⟨labels, same ▸ balanced, rfl⟩⟩
  | pass state j1 _ found filled ih =>
      obtain ⟨count, fewer, ⟨labels, balanced, rfl⟩ | ⟨pass, tree, matched⟩⟩ := ih
      · obtain ⟨_, next, same, grown⟩ := balanced.advance fewer
        rw [found, Option.some.injEq] at same
        exact ⟨count, fewer, .inr ⟨1, same ▸ grown, filled⟩⟩
      · obtain ⟨_, next, same, grown⟩ := tree.advance matched fewer
        rw [found, Option.some.injEq] at same
        exact ⟨count, fewer, .inr ⟨pass + 1, same ▸ grown, filled⟩⟩

/-- No pass of any row meets the sentinel. -/
theorem Head.belowSentinel {state : Search} (head : weights.Head state) :
    weights.BelowSentinel state := by
  obtain ⟨count, fewer, ⟨labels, balanced, rfl⟩ | ⟨pass, tree, matched⟩⟩ := head.known
  · exact (balanced.advance fewer).1
  · exact (tree.advance matched fewer).1

end Weights

end Verbatus.Corpus
