import Verbatus.PageEdges.Edges

namespace Verbatus.PageEdges

open Library Library.Checked Refusal

def modeOff : String := "off"

def modeOn : String := "on"

/-- What is asked about one page: its acts, the chains that end on it, and the acts around it. -/
structure Call where
  pageOrdinal : ℤ
  subjects : List String
  chains : List (List String)
  context : List String
  deriving DecidableEq

/-- The call of a page with the update made, opened where the page has none yet. -/
def callWith (calls : List (ℤ × Call)) (ordinal : ℤ) (update : Call → Call) : List (ℤ × Call) :=
  assign calls ordinal (update ((calls.lookup ordinal).getD ⟨ordinal, [], [], []⟩))

/-- The keys of a page's acts that are no piece of a chain. -/
def subjectsOf (pieces : List String) (acts : List Entry) : List String :=
  (acts.map Entry.actKey).filter (· ∉ pieces)

def askPage (pieces : List String) (calls : List (ℤ × Call)) (page : ℤ × List Entry) :
    List (ℤ × Call) :=
  let subjects := subjectsOf pieces page.2
  if subjects = [] then calls else callWith calls page.1 fun call => { call with subjects }

/-- The page that holds a chain's last piece. -/
def lastPage (chain : List Entry) : ℤ := ((chain.getLast?).map Entry.pageOrdinal).getD 0

def joinChain (calls : List (ℤ × Call)) (chain : List Entry) : List (ℤ × Call) :=
  callWith calls (lastPage chain) fun call =>
    { call with chains := call.chains ++ [chain.map Entry.actKey] }

/-- The keys of the last act of the page before and of the first act of the page after. -/
def contextOf (edges : List (ℤ × (Entry × Entry))) (ordinal : ℤ) : List String :=
  ((edges.lookup (ordinal - 1)).map fun before => before.2.actKey).toList ++
  ((edges.lookup (ordinal + 1)).map fun after => after.1.actKey).toList

/-- The chains a plan asks about: none unless the pages are consecutive. -/
def planChains (entries : List Entry) (pagesAreConsecutive : Bool) : List (List Entry) :=
  if pagesAreConsecutive then breakChains (wholePageEntries entries) else []

/-- The calls of each page's subjects, then of the chains. -/
def joinedTable (entries : List Entry) (chains : List (List Entry)) : List (ℤ × Call) :=
  let pieces := chains.flatten.map Entry.actKey
  chains.foldl joinChain ((actEntriesByPage entries).foldl (askPage pieces) [])

def plannedTable (entries : List Entry) (pagesAreConsecutive : Bool) : List (ℤ × Call) :=
  let edges := if pagesAreConsecutive then pageEdges (wholePageEntries entries) else []
  (joinedTable entries (planChains entries pagesAreConsecutive)).map fun (ordinal, call) =>
    (ordinal, { call with context := contextOf edges ordinal })

/-- A re-ask's entry is never a side of a page break, so it may set no continuation flag. -/
def checkedRecovered (entry : Entry) : Except Refusal Unit :=
  require (¬ (entry.readingAttempt = some reaskReading ∧
      (entry.continuesFromPreviousPage = some true ∨ entry.continuesToNextPage = some true)))
    (.contractError (s!"{entry.actKey} was recovered by its page's re-ask yet carries a " ++
      "continuation flag; a re-ask may set none, so it is never a side of a page break"))

def plannedCalls (entries : List Entry) (pagesAreConsecutive : Bool) :
    Except Refusal (List Call) := do
  entries.forM checkedRecovered
  return (sortBy Prod.fst (plannedTable entries pagesAreConsecutive)).map Prod.snd

/-- The calls for one run, one per page with anything to ask, in page order. -/
def reconstructionPlan (entries : List Entry) (mode : String) (pagesAreConsecutive : Bool) :
    Except Refusal (List Call) := do
  require (mode ∈ [modeOff, modeOn])
    (.contractError s!"reconstruction mode {quote mode} is not one of {quote [modeOff, modeOn]}")
  if mode = modeOff then return [] else plannedCalls entries pagesAreConsecutive

section Table

variable {calls : List (ℤ × Call)} {ordinal other : ℤ}

/-- The subjects the calls hold for a page. -/
def subjectsAt (calls : List (ℤ × Call)) (ordinal : ℤ) : List String :=
  ((calls.lookup ordinal).map Call.subjects).getD []

theorem lookup_callWith (update : Call → Call) :
    (callWith calls ordinal update).lookup other =
      if other = ordinal then some (update ((calls.lookup ordinal).getD ⟨ordinal, [], [], []⟩))
      else calls.lookup other :=
  lookup_assign calls ordinal other _

/-- The calls of a plan: one for each page, each under its page's ordinal. -/
structure Tabled (calls : List (ℤ × Call)) : Prop where
  distinct : (calls.map Prod.fst).Nodup
  keyed : ∀ row ∈ calls, row.2.pageOrdinal = row.1

theorem Tabled.callWith (tabled : Tabled calls) {update : Call → Call}
    (same : ∀ call, (update call).pageOrdinal = call.pageOrdinal) :
    Tabled (callWith calls ordinal update) := by
  have distinct : ((PageEdges.callWith calls ordinal update).map Prod.fst).Nodup :=
    keys_assign_nodup _ _ tabled.distinct
  refine ⟨distinct, ?_⟩
  rintro ⟨key, call⟩ member
  have found := (lookup_eq_some_iff_mem distinct).mpr member
  rw [lookup_callWith] at found
  split_ifs at found with here
  · rw [← Option.some.inj found, same, here]
    cases held : calls.lookup ordinal with
    | none => rfl
    | some old => exact tabled.keyed _ (mem_of_lookup held)
  · exact tabled.keyed _ (mem_of_lookup found)

theorem Tabled.askPage (tabled : Tabled calls) (pieces : List String) (page : ℤ × List Entry) :
    Tabled (askPage pieces calls page) := by
  unfold PageEdges.askPage
  dsimp only
  split_ifs
  · exact tabled
  · exact tabled.callWith fun call => rfl

theorem Tabled.foldl {β : Type} {step : List (ℤ × Call) → β → List (ℤ × Call)} {elements : List β}
    (each : ∀ calls element, Tabled calls → Tabled (step calls element)) (tabled : Tabled calls) :
    Tabled (elements.foldl step calls) := by
  induction elements generalizing calls with
  | nil => exact tabled
  | cons element elements ih => exact ih (each calls element tabled)

theorem subjectsAt_askPage (pieces : List String) (page : ℤ × List Entry) :
    subjectsAt (askPage pieces calls page) other =
      if other = page.1 ∧ subjectsOf pieces page.2 ≠ [] then subjectsOf pieces page.2
      else subjectsAt calls other := by
  by_cases empty : subjectsOf pieces page.2 = []
  · simp [askPage, empty]
  · by_cases here : other = page.1
    · simp [askPage, empty, here, subjectsAt, lookup_callWith]
    · simp [askPage, empty, here, subjectsAt, lookup_callWith]

theorem subjectsAt_unasked (pieces : List String) {pages : List (ℤ × List Entry)}
    (absent : ordinal ∉ pages.map Prod.fst) :
    subjectsAt (pages.foldl (askPage pieces) calls) ordinal = subjectsAt calls ordinal := by
  induction pages generalizing calls with
  | nil => rfl
  | cons page pages ih =>
      rw [List.map_cons, List.mem_cons, not_or] at absent
      rw [List.foldl_cons, ih absent.2, subjectsAt_askPage, if_neg fun same => absent.1 same.1]

/-- Asking every page once leaves each page its own subjects. -/
theorem subjectsAt_asked (pieces : List String) {pages : List (ℤ × List Entry)}
    (distinct : (pages.map Prod.fst).Nodup) (fresh : subjectsAt calls ordinal = []) :
    subjectsAt (pages.foldl (askPage pieces) calls) ordinal =
      ((pages.lookup ordinal).map (subjectsOf pieces)).getD [] := by
  induction pages generalizing calls with
  | nil => exact fresh
  | cons page pages ih =>
      obtain ⟨first, distinct⟩ := List.nodup_cons.mp distinct
      rw [List.foldl_cons, List.lookup_cons]
      by_cases here : ordinal = page.1
      · rw [subjectsAt_unasked pieces (here ▸ first), subjectsAt_askPage, here, beq_self_eq_true]
        by_cases empty : subjectsOf pieces page.2 = []
        · rw [if_neg fun asked => asked.2 empty, ← here, fresh]
          exact empty.symm
        · rw [if_pos ⟨rfl, empty⟩]
          rfl
      · rw [beq_eq_false_iff_ne.mpr here]
        apply ih distinct
        rw [subjectsAt_askPage, if_neg fun same => here same.1, fresh]

theorem subjectsAt_joined (chains : List (List Entry)) :
    subjectsAt (chains.foldl joinChain calls) ordinal = subjectsAt calls ordinal := by
  induction chains generalizing calls with
  | nil => rfl
  | cons chain chains ih =>
      rw [List.foldl_cons, ih, subjectsAt, joinChain, lookup_callWith]
      split_ifs with here
      · subst here
        cases held : calls.lookup (lastPage chain) <;> simp [subjectsAt, held]
      · rfl

/-- The chains the calls ask about, page after page. -/
def chainsAsked (calls : List (ℤ × Call)) : List (List String) :=
  calls.flatMap fun row => row.2.chains

/-- A call opened or updated asks about the chains it is given besides those it had. -/
theorem chainsAsked_callWith (tabled : Tabled calls) (ordinal : ℤ) {update : Call → Call}
    (more : List (List String)) (grown : ∀ call, (update call).chains = call.chains ++ more) :
    (chainsAsked (callWith calls ordinal update)).Perm (chainsAsked calls ++ more) := by
  unfold callWith assign
  split_ifs with present
  · obtain ⟨row, listed, same⟩ := List.mem_map.mp present
    have found : calls.lookup ordinal = some row.2 :=
      (lookup_eq_some_iff_mem tabled.distinct).mpr (same ▸ listed)
    rw [found, Option.getD_some]
    exact flatMap_replace_perm tabled.distinct found (grown row.2)
  · have absent : calls.lookup ordinal = none := by
      rw [List.lookup_eq_none_iff]
      intro row listed
      rw [bne_iff_ne]
      exact fun same => present (same ▸ List.mem_map_of_mem listed)
    rw [absent, chainsAsked, List.flatMap_append, List.flatMap_singleton, Option.getD_none, grown]
    exact .refl _

theorem chainsAsked_askPage (tabled : Tabled calls) (pieces : List String)
    (page : ℤ × List Entry) :
    (chainsAsked (askPage pieces calls page)).Perm (chainsAsked calls) := by
  unfold askPage
  dsimp only
  split_ifs
  · exact .refl _
  · have kept (call : Call) : { call with subjects := subjectsOf pieces page.2 }.chains =
        call.chains ++ [] := (List.append_nil _).symm
    have asked := chainsAsked_callWith tabled page.1 [] kept
    rwa [List.append_nil] at asked

theorem chainsAsked_asked (pieces : List String) (pages : List (ℤ × List Entry))
    (tabled : Tabled calls) :
    (chainsAsked (pages.foldl (askPage pieces) calls)).Perm (chainsAsked calls) := by
  induction pages generalizing calls with
  | nil => exact .refl _
  | cons page pages ih =>
      exact (ih (tabled.askPage pieces page)).trans (chainsAsked_askPage tabled pieces page)

theorem Tabled.joinChain (tabled : Tabled calls) (chain : List Entry) :
    Tabled (joinChain calls chain) :=
  tabled.callWith fun _ => rfl

/-- Joining the chains asks about each of them once, on the page of its last piece. -/
theorem chainsAsked_joined (chains : List (List Entry)) (tabled : Tabled calls) :
    (chainsAsked (chains.foldl joinChain calls)).Perm
      (chainsAsked calls ++ chains.map fun chain => chain.map Entry.actKey) := by
  induction chains generalizing calls with
  | nil => simp
  | cons chain chains ih =>
      have rest := ih (tabled.joinChain chain)
      have first : (chainsAsked (joinChain calls chain)).Perm
          (chainsAsked calls ++ [chain.map Entry.actKey]) :=
        chainsAsked_callWith tabled (lastPage chain) [chain.map Entry.actKey] fun _ => rfl
      have both := rest.trans (first.append_right _)
      simpa using both

end Table

section Plan

variable {entries : List Entry} {chains : List (List Entry)}

theorem tabled_nil : Tabled [] := ⟨List.nodup_nil, by simp⟩

theorem tabled_joinedTable : Tabled (joinedTable entries chains) :=
  Tabled.foldl (fun _ chain tabled => tabled.joinChain chain)
    (Tabled.foldl (fun _ page tabled => tabled.askPage _ page) tabled_nil)

/-- The subjects of a page's call are its acts that are no piece of a chain. -/
theorem subjectsAt_joinedTable (entries : List Entry) (chains : List (List Entry)) (ordinal : ℤ) :
    subjectsAt (joinedTable entries chains) ordinal =
      subjectsOf (chains.flatten.map Entry.actKey) (pageActs entries ordinal) := by
  rw [joinedTable, subjectsAt_joined, subjectsAt_asked _ keys_actEntriesByPage_nodup rfl,
    lookup_actEntriesByPage]
  split_ifs with empty
  · rw [empty]
    rfl
  · rfl

theorem chainsAsked_joinedTable :
    (chainsAsked (joinedTable entries chains)).Perm
      (chains.map fun chain => chain.map Entry.actKey) := by
  refine (chainsAsked_joined chains
    (Tabled.foldl (fun _ page tabled => tabled.askPage _ page) tabled_nil)).trans ?_
  exact (chainsAsked_asked _ _ tabled_nil).append_right _

/-- A plan that is made lists the table's calls, each with its page's context. -/
theorem reconstructionPlan_calls {consecutive : Bool} {calls : List Call}
    (planned : reconstructionPlan entries modeOn consecutive = .ok calls) :
    calls.Perm ((plannedTable entries consecutive).map Prod.snd) := by
  rw [reconstructionPlan, require_bind_eq_ok, if_neg (by decide), plannedCalls, bind_eq_ok]
    at planned
  obtain ⟨-, -, -, listed⟩ := planned
  rw [pure_eq_ok] at listed
  rw [← listed]
  exact (sortBy_perm _ _).map _

/-- Every call of a plan asks its own page about its acts that are no piece of a chain. -/
theorem reconstructionPlan_subjects {consecutive : Bool} {calls : List Call}
    (planned : reconstructionPlan entries modeOn consecutive = .ok calls) {call : Call}
    (member : call ∈ calls) :
    call.subjects = subjectsOf ((planChains entries consecutive).flatten.map Entry.actKey)
      (pageActs entries call.pageOrdinal) := by
  rw [(reconstructionPlan_calls planned).mem_iff, plannedTable, List.map_map, List.mem_map] at member
  obtain ⟨row, listed, rfl⟩ := member
  have tabled : Tabled (joinedTable entries (planChains entries consecutive)) := tabled_joinedTable
  have found := (lookup_eq_some_iff_mem tabled.distinct).mpr listed
  have subjects := subjectsAt_joinedTable entries (planChains entries consecutive) row.1
  rw [subjectsAt, found, Option.map_some, Option.getD_some] at subjects
  simpa [tabled.keyed row listed] using subjects

/-- A page with anything to ask has its call. -/
theorem reconstructionPlan_asks {consecutive : Bool} {calls : List Call}
    (planned : reconstructionPlan entries modeOn consecutive = .ok calls) {ordinal : ℤ}
    {key : String} (asked : key ∈ subjectsOf
      ((planChains entries consecutive).flatten.map Entry.actKey) (pageActs entries ordinal)) :
    ∃ call ∈ calls, call.pageOrdinal = ordinal ∧ key ∈ call.subjects := by
  rw [← subjectsAt_joinedTable, subjectsAt] at asked
  cases found : (joinedTable entries (planChains entries consecutive)).lookup ordinal with
  | none => simp [found] at asked
  | some call =>
      rw [found, Option.map_some, Option.getD_some] at asked
      have listed := mem_of_lookup found
      have tabled : Tabled (joinedTable entries (planChains entries consecutive)) :=
        tabled_joinedTable
      have member := (reconstructionPlan_calls planned).mem_iff.mpr
        (List.mem_map_of_mem (f := Prod.snd) (List.mem_map_of_mem listed))
      have keyed : call.pageOrdinal = ordinal := tabled.keyed _ listed
      exact ⟨_, member, keyed, asked⟩

/-- A plan asks about each chain once. -/
theorem reconstructionPlan_chains {consecutive : Bool} {calls : List Call}
    (planned : reconstructionPlan entries modeOn consecutive = .ok calls) :
    (calls.flatMap Call.chains).Perm
      ((planChains entries consecutive).map fun chain => chain.map Entry.actKey) := by
  have listed := (reconstructionPlan_calls planned).flatMap_right Call.chains
  rw [plannedTable, List.map_map, List.flatMap_map] at listed
  exact listed.trans chainsAsked_joinedTable

/-- A plan is made of any entries none of which a re-ask recovered. -/
theorem reconstructionPlan_ok (firstRead : ∀ entry ∈ entries, entry.readingAttempt ≠ some reaskReading)
    (consecutive : Bool) : ∃ calls, reconstructionPlan entries modeOn consecutive = .ok calls := by
  have checked : entries.forM checkedRecovered = .ok () := by
    apply forM_ok_of_forall
    intro entry member
    rw [checkedRecovered, require_eq_ok]
    exact fun recovered => firstRead entry member recovered.1
  rw [reconstructionPlan, require_bind_of (by decide), if_neg (by decide), plannedCalls, checked,
    ok_bind]
  exact ⟨_, rfl⟩

end Plan

end Verbatus.PageEdges
