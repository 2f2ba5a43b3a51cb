import Verbatus.Library.Calls

namespace Verbatus.Library

section Budget

variable {ε : Type}

/-- Steps charged to a budget before they are done. -/
def spend (exhausted : ε) (steps : ℤ) : Call ℤ ε Unit := fun left =>
  (if left - steps < 0 then .error exhausted else .ok (), left - steps)

end Budget

section Loop

variable {ε ι β : Type} (exhausted : ε) (turn : ι → Call ℤ ε (List β × List ι))

/-- A work list under a budget: a turn takes the last item, keeps what it finds and pushes more
    items. Every turn spends a step, so the budget is fuel enough. -/
def workLoop : ℕ → List ι → List β → Call ℤ ε (List β)
  | _, [], found => pure found
  | 0, _ :: _, _ => Call.lift (.error exhausted)
  | fuel + 1, item :: work, found => do
    spend exhausted 1
    let (more, pushed) ← turn item
    workLoop fuel (pushed.reverse ++ work) (found ++ more)

/-- A work list from one item, under the budget as it stands. -/
def work (item : ι) : Call ℤ ε (List β) := do
  let left ← Call.current
  workLoop exhausted turn left.toNat [item] []

variable {exhausted turn}

/-- What every turn keeps holds of what is found when the list is empty. -/
theorem workLoop_keeps {keep : List β → List ι → Prop}
    (step : ∀ item work found more pushed before after, keep found (item :: work) →
      (turn item).on before = (.ok (more, pushed), after) →
      keep (found ++ more) (pushed.reverse ++ work))
    {fuel : ℕ} {items : List ι} {found result : List β} {before after : ℤ}
    (start : keep found items)
    (returned : (workLoop exhausted turn fuel items found).on before = (.ok result, after)) :
    keep result [] := by
  induction fuel generalizing items found before with
  | zero =>
      cases items with
      | nil =>
          rw [workLoop] at returned
          cases returned
          exact start
      | cons item items =>
          rw [workLoop] at returned
          cases returned
  | succ fuel ih =>
      cases items with
      | nil =>
          rw [workLoop] at returned
          cases returned
          exact start
      | cons item items =>
          rw [workLoop, Call.bind_on_ok] at returned
          obtain ⟨_, charged, _, returned⟩ := returned
          rw [Call.bind_on_ok] at returned
          obtain ⟨⟨more, pushed⟩, between, made, returned⟩ := returned
          exact ih (step _ _ _ _ _ _ _ start made) returned

theorem work_keeps (keep : List β → List ι → Prop)
    (step : ∀ item work found more pushed before after, keep found (item :: work) →
      (turn item).on before = (.ok (more, pushed), after) →
      keep (found ++ more) (pushed.reverse ++ work))
    {item : ι} {result : List β} {before after : ℤ} (start : keep [] [item])
    (returned : (work exhausted turn item).on before = (.ok result, after)) :
    keep result [] := by
  rw [work, Call.bind_on_ok] at returned
  obtain ⟨left, between, read, returned⟩ := returned
  exact workLoop_keeps step start returned

end Loop

section Drain

variable {σ ε ι β : Type} (turn : ι → Call σ ε (List β × List ι))

/-- A work list that is drained: a turn takes the last item, keeps what it finds and pushes more
    items. Where every turn pushes less than it takes, fuel for the first items is enough. -/
def drain : ℕ → List ι → List β → Call σ ε (List β)
  | _, [], found => pure found
  | 0, _ :: _, found => pure found
  | fuel + 1, item :: work, found => do
    let (more, pushed) ← turn item
    drain fuel (pushed.reverse ++ work) (found ++ more)

variable {turn}

/-- What every turn keeps holds of what is found when the list is empty, and it is emptied. -/
theorem drain_keeps (keep : List β → List ι → Prop) (weight : ι → ℕ)
    (step : ∀ item work found more pushed before after, keep found (item :: work) →
      (turn item).on before = (.ok (more, pushed), after) →
      keep (found ++ more) (pushed.reverse ++ work) ∧ (pushed.map weight).sum < weight item)
    (positive : ∀ item, 0 < weight item) {fuel : ℕ} {items : List ι}
    (enough : (items.map weight).sum ≤ fuel) {found result : List β} {before after : σ}
    (start : keep found items)
    (returned : (drain turn fuel items found).on before = (.ok result, after)) :
    keep result [] := by
  induction fuel generalizing items found before with
  | zero =>
      cases items with
      | nil =>
          rw [drain] at returned
          cases returned
          exact start
      | cons item items =>
          have pos := positive item
          rw [List.map_cons, List.sum_cons] at enough
          omega
  | succ fuel ih =>
      cases items with
      | nil =>
          rw [drain] at returned
          cases returned
          exact start
      | cons item items =>
          rw [drain, Call.bind_on_ok] at returned
          obtain ⟨⟨more, pushed⟩, between, made, returned⟩ := returned
          obtain ⟨kept, lighter⟩ := step _ _ _ _ _ _ _ start made
          refine ih ?_ kept returned
          rw [List.map_cons, List.sum_cons] at enough
          rw [List.map_append, List.sum_append, List.map_reverse, List.sum_reverse]
          omega

end Drain

/-- What every step of a loop keeps holds at its end. -/
theorem foldlM_keeps {σ ε α β : Type} {step : β → α → Call σ ε β} (keep : β → Prop)
    {elements : List α}
    (kept : ∀ value, ∀ element ∈ elements, ∀ next before after, keep value →
      (step value element).on before = (.ok next, after) → keep next)
    {value result : β} {before after : σ} (start : keep value)
    (returned : (elements.foldlM step value).on before = (.ok result, after)) : keep result := by
  induction elements generalizing value before with
  | nil =>
      rw [List.foldlM_nil] at returned
      cases returned
      exact start
  | cons element elements ih =>
      rw [List.foldlM_cons, Call.bind_on_ok] at returned
      obtain ⟨next, between, made, returned⟩ := returned
      have here := kept value element (.head _) next _ _ start made
      exact ih (fun other later listed => kept other later (.tail _ listed)) here returned

end Verbatus.Library
