import Verbatus.PageAccounting.Candidates

namespace Verbatus.PageAccounting

open Library Library.Checked Refusal Python PageReading Ink

section Regions

variable (candidates : Candidates)

/-- The box an id places an entry by; an id the feed does not define places nothing. -/
def placedBox (identifier : String) : Option Bounds := (candidates.get? identifier).join

/-- The boxes of the placing ids among the given ones, each box once, in first-cited order. -/
def regionBoxes (citedIds : List String) : List Bounds :=
  (citedIds.filterMap (placedBox candidates)).eraseDups

variable (policy : PageAccountingPolicy)

/-- A detection range that names no ink its entry did not read, or the problem it stays. -/
def coveredRange (ownUnits : List Bounds) (finding : AnswerFinding) :
    Except Refusal (List String × List AnswerFinding) :=
  match finding with
  | .detectionRange cite => do
    let span ← rangeIds cite
    if (span.head?.toList ++ span.getLast?.toList).any (· ∉ candidates) then .ok ([], [finding])
    else
      let boxes ← span.mapM fun identifier =>
        match candidates.get? identifier with
        | some found => .ok found
        | none => .error (.keyError identifier)
      let blocks := boxes.all Option.isNone
      let linesRead := boxes.all fun found =>
        found.any fun box => ownUnits ≠ [] && isInside box ownUnits policy
      if blocks || linesRead then .ok (span, []) else .ok ([], [finding])
  | other => .ok ([], [other])

/-- The detection ranges of one entry that can name no ink it did not read, read. -/
def coveredDetectionRanges (citedIds : List String) (findings : List AnswerFinding) :
    Except Refusal (List String × List AnswerFinding) := do
  let ownUnits := (citedIds.filter (!isDetectionId ·)).filterMap (placedBox candidates)
  let read ← findings.mapM (coveredRange candidates policy ownUnits)
  .ok ((citedIds ++ read.flatMap Prod.fst).eraseDups, read.flatMap Prod.snd)

/-- Whether an id is a placing witness unit more than one entry of an answer cites. -/
def sharedUnit (cited : List (List String)) (identifier : String) : Bool :=
  !isDetectionId identifier && (placedBox candidates identifier).isSome &&
    1 < cited.countP fun ids => identifier ∈ ids

/-- The cited ids that place an entry: a shared unit it reads a part of places it not. -/
def placingIds (citedIds : List String) (shared : String → Bool)
    (policy : Option PageAccountingPolicy) : List String :=
  match policy with
  | none => citedIds
  | some policy =>
    let own := (citedIds.filter (!shared ·)).filterMap (placedBox candidates)
    if own = [] then citedIds
    else citedIds.filter fun identifier => !shared identifier ||
      !own.all fun box => isInside box (placedBox candidates identifier).toList policy

end Regions

/-- One entry of an answer read against its feed's candidates. -/
structure ReadEntry where
  n : ℤ
  kind : ActClass
  entryKind : EntryKind
  placingShared : List (String × Bounds)
  label : Option String
  cites : List Json
  citedIds : List String
  regionBoxesPx : List Bounds
  unionBoxPx : Option Bounds
  text : String
  continuesFromPreviousPage : Bool
  continuesToNextPage : Bool

structure ReadAnswer where
  entries : List ReadEntry
  setAside : List (String × String)
  problems : List AnswerProblem

section Validate

variable (candidates : Candidates)

/-- The ids of one entry, and what is wrong with its citations. -/
def citedIdsOf (policy : Option PageAccountingPolicy) (raw : AnswerEntry) :
    Except Refusal (List String × List AnswerFinding) := do
  let (citedIds, findings) ← expandCites candidates raw.cites
  match policy with
  | none => .ok (citedIds, findings)
  | some policy => coveredDetectionRanges candidates policy citedIds findings

/-- An entry placed by its citations beside those of the answer's other entries. -/
def placeEntry (policy : Option PageAccountingPolicy) (shared : String → Bool) (raw : AnswerEntry)
    (citedIds : List String) : ReadEntry :=
  let placing := placingIds candidates citedIds shared policy
  let boxes := regionBoxes candidates placing
  { n := raw.n
    kind := actClass raw.kind
    entryKind := raw.kind
    placingShared := (placing.filter shared).filterMap fun identifier =>
      (placedBox candidates identifier).map fun box => (identifier, box)
    label := raw.label
    cites := raw.cites
    citedIds := citedIds
    regionBoxesPx := boxes
    unionBoxPx := unionBox boxes
    text := raw.text
    continuesFromPreviousPage := raw.continuesFromPreviousPage
    continuesToNextPage := raw.continuesToNextPage }

/-- What the reading of the ids set aside has found so far. -/
structure SetAsideState where
  seen : List String
  setAside : List (String × String)
  problems : List AnswerProblem

/-- One id set aside for a reason. -/
def setAsideId (cited : List String) (reason : String) (state : SetAsideState)
    (identifier : String) : SetAsideState :=
  let hasReason := strip reason ≠ ""
  let problem (found : Bool) (finding : AnswerFinding) : List AnswerProblem :=
    if found then [⟨finding, none, none⟩] else []
  { seen := identifier :: state.seen
    setAside :=
      if hasReason ∧ identifier ∉ state.setAside.map Prod.fst then
        state.setAside ++ [(identifier, reason)]
      else state.setAside
    problems := state.problems ++
      problem (identifier ∈ state.seen) (.setAsideTwice identifier) ++
      problem (identifier ∈ cited) (.citedAndSetAside identifier) ++
      problem (¬ hasReason) (.setAsideWithoutReason identifier) }

/-- The set-aside rows of an answer in turn. -/
def readSetAside (cited : List String) :
    List (SetAsideRow × ℕ) → SetAsideState → Except Refusal SetAsideState
  | [], state => .ok state
  | (raw, index) :: rows, state => do
    let (ids, findings) ← expandCites candidates [raw.id]
    let noted := { state with
      problems := state.problems ++ findings.map fun finding => ⟨finding, none, some index⟩ }
    readSetAside cited rows (ids.foldl (setAsideId cited raw.reason) noted)

/-- Read a parsed page answer against its feed's candidates, repairing nothing. -/
def validateAnswer (policy : Option PageAccountingPolicy) (answer : Json) :
    Except Refusal ReadAnswer := do
  if grammarProblems answer ≠ [] then
    .ok ⟨[], [], (grammarProblems answer).map fun problem => ⟨.answerGrammar problem, none, none⟩⟩
  else
    let raws := answerEntries answer
    let read ← raws.mapM (citedIdsOf candidates policy)
    let shared := sharedUnit candidates (read.map Prod.fst)
    let entries := (raws.zip (read.map Prod.fst)).map fun (raw, citedIds) =>
      placeEntry candidates policy shared raw citedIds
    let citeProblems := (raws.zip (read.map Prod.snd)).flatMap fun (raw, findings) =>
      findings.map fun finding => ⟨finding, some raw.n, none⟩
    let setAside ← readSetAside candidates (entries.flatMap ReadEntry.citedIds)
      (answerSetAside answer).zipIdx ⟨[], [], citeProblems⟩
    .ok ⟨entries, setAside.setAside, setAside.problems⟩

/-- The candidates a re-ask may cite: the ids it was asked about, each with a placing box. -/
def namedCandidates (named : List String) : Except Refusal Candidates := do
  require (named ≠ [] ∧ named.Nodup) (.contractError "a re-ask names no id, or one id twice")
  let rows ← named.mapM fun identifier =>
    match placedBox candidates identifier with
    | some box => .ok (identifier, some box)
    | none =>
      .error (.contractError s!"a re-ask names {quote identifier}, which the feed does not place")
  .ok (candidatesOf rows)

/-- The reading of a re-ask's answer: only the named ids are known, and nothing continues. -/
def validateReaskAnswer (answer : Json) (named : List String) : Except Refusal ReadAnswer := do
  let known ← namedCandidates candidates named
  let validated ← validateAnswer known none answer
  let continuations := validated.entries.flatMap fun entry =>
    let problem (flag : Bool) (name : String) : List AnswerProblem :=
      if flag then [⟨.reaskContinuation name, some entry.n, none⟩] else []
    problem entry.continuesFromPreviousPage "continues_from_previous_page" ++
      problem entry.continuesToNextPage "continues_to_next_page"
  .ok { validated with problems := validated.problems ++ continuations }

end Validate

section Duplicates

/-- The shared units placing a row entry; none for any other kind. -/
def rowSharedUnits (entry : ReadEntry) : List (String × Bounds) :=
  if entry.entryKind ∈ rowKinds then entry.placingShared else []

/-- Two entries' regions as the duplicates rule compares them: two rows of one table without its
box. -/
def comparedRegions (entry other : ReadEntry) : List Bounds × List Bounds :=
  let common := (rowSharedUnits entry).filter fun row =>
    row.1 ∈ (rowSharedUnits other).map Prod.fst
  let dropped := common.map Prod.snd
  (entry.regionBoxesPx.filter (· ∉ dropped), other.regionBoxesPx.filter (· ∉ dropped))

/-- Two placed entries that claim mostly the same ink. -/
structure DuplicateRegion where
  ns : ℤ × ℤ
  sharedPx : ℤ
  smallerRegionPx : ℤ

/-- What the rule finds of one pair of entries. -/
def duplicateRegion (policy : PageAccountingPolicy) (pair : ReadEntry × ReadEntry) :
    Option DuplicateRegion :=
  let (region, other) := comparedRegions pair.1 pair.2
  if region = [] ∨ other = [] then none else
  let shared := sharedArea region other
  let smaller := min (regionArea region) (regionArea other)
  if shared * basisPoints > policy.maxSharedShareBp * smaller then
    some ⟨(min pair.1.n pair.2.n, max pair.1.n pair.2.n), shared, smaller⟩
  else none

/-- Every pair of elements, the earlier one first. -/
def pairsOf {α : Type} : List α → List (α × α)
  | [] => []
  | element :: elements => elements.map (element, ·) ++ pairsOf elements

/-- Every two placed entries that claim mostly the same ink. -/
def duplicateRegions (entries : List ReadEntry) (policy : PageAccountingPolicy) :
    List DuplicateRegion :=
  let placed := entries.filter fun entry => entry.regionBoxesPx ≠ []
  sortBy (fun finding => toLex finding.ns) ((pairsOf placed).filterMap (duplicateRegion policy))

end Duplicates

section Reading

variable {candidates : Candidates} {policy : Option PageAccountingPolicy} {answer : Json}
  {read : ReadAnswer}

/-- An answer outside the grammar has no entries; one inside has an entry for each of its own. -/
theorem validateAnswer_entries (validated : validateAnswer candidates policy answer = .ok read) :
    read.entries = [] ∨ grammarProblems answer = [] ∧
      read.entries.map ReadEntry.n = (answerEntries answer).map AnswerEntry.n := by
  unfold validateAnswer at validated
  split_ifs at validated with outside
  · cases validated
    exact .inl rfl
  · rw [not_not] at outside
    obtain ⟨cited, expanded, validated⟩ := bind_eq_ok.mp validated
    obtain ⟨rows, -, validated⟩ := bind_eq_ok.mp validated
    cases validated
    refine .inr ⟨outside, ?_⟩
    have lengths := (mapM_eq_ok.mp expanded).length_eq
    have zipped : ((answerEntries answer).zip (cited.map Prod.fst)).map Prod.fst =
        answerEntries answer := List.map_fst_zip (by simp [lengths])
    calc _ = (((answerEntries answer).zip (cited.map Prod.fst)).map Prod.fst).map
          AnswerEntry.n := by
            rw [List.map_map, List.map_map]
            rfl
      _ = (answerEntries answer).map AnswerEntry.n := by rw [zipped]

/-- The entries of a read answer are numbered from one without a gap. -/
theorem validateAnswer_numbers (validated : validateAnswer candidates policy answer = .ok read) :
    read.entries.map ReadEntry.n =
      (List.range read.entries.length).map fun index : ℕ => (index : ℤ) + 1 := by
  rcases validateAnswer_entries validated with none | ⟨inside, numbers⟩
  · rw [none]
    rfl
  · have lengths := congrArg List.length numbers
    simp only [List.length_map] at lengths
    rw [numbers, lengths, answerEntries_numbers inside]

theorem validateReaskAnswer_numbers {named : List String}
    (validated : validateReaskAnswer candidates answer named = .ok read) :
    read.entries.map ReadEntry.n =
      (List.range read.entries.length).map fun index : ℕ => (index : ℤ) + 1 := by
  obtain ⟨known, -, validated⟩ := bind_eq_ok.mp validated
  obtain ⟨first, answered, validated⟩ := bind_eq_ok.mp validated
  cases validated
  have numbers := validateAnswer_numbers answered
  exact numbers

end Reading

end Verbatus.PageAccounting
