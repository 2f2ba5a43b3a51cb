import Verbatus.Library.Chains
import Verbatus.Library.Checked
import Verbatus.Library.Sorting
import Verbatus.PageReading.PageTypes
import Verbatus.Python.Decimal

namespace Verbatus.PageEdges

open Library Library.Checked PageReading

def firstReading : ℤ := 1

def reaskReading : ℤ := 2

def operatorRereadFirst : ℤ := 3

/-- The key of a page's entry, as the page-read denominator gives it. -/
def entryKey (ordinal n : ℤ) : String := s!"p{ordinal}:{n}"

theorem entryKey_inj {ordinal n ordinal' n' : ℤ} (same : entryKey ordinal n = entryKey ordinal' n') :
    ordinal = ordinal' ∧ n = n' := by
  have digits (value : ℤ) : ':' ∉ Python.decimal value := by
    intro member
    rcases Python.mem_decimal member with digit | sign
    · exact absurd digit (by decide)
    · exact absurd sign (by decide)
  have texts : 'p' :: Python.decimal ordinal ++ ':' :: Python.decimal n =
      'p' :: Python.decimal ordinal' ++ ':' :: Python.decimal n' := by
    have lists := congrArg String.toList same
    simpa [entryKey, Python.toList_repr_int, toString] using lists
  obtain ⟨first, second⟩ := Python.append_separator_inj (digits ordinal) (digits ordinal')
    (List.cons.inj texts).2
  exact ⟨Python.decimal_injective first, Python.decimal_injective second⟩

/-- A row of the denominator: an entry of a reading, or a page that has none. -/
structure Entry where
  actId : Option String
  actKey : String
  pageOrdinal : ℤ
  n : Option ℤ
  kind : Option ActClass
  continuesFromPreviousPage : Option Bool
  continuesToNextPage : Option Bool
  readingAttempt : Option ℤ
  keyed : ∀ number, n = some number → actKey = entryKey pageOrdinal number
  deriving DecidableEq

/-- Every entry not read on a re-ask: the whole-page entries a page's edges are of. -/
def wholePageEntries (entries : List Entry) : List Entry :=
  entries.filter fun entry =>
    entry.readingAttempt ≠ none ∧ entry.readingAttempt ≠ some reaskReading

def isActEntry (entry : Entry) : Bool := entry.n ≠ none ∧ entry.kind = some .act

/-- The act entries of one page in answer order. -/
def pageActs (entries : List Entry) (ordinal : ℤ) : List Entry :=
  sortBy (fun act => act.n.getD 0)
    ((entries.filter isActEntry).filter fun act => act.pageOrdinal = ordinal)

/-- Each page's act entries, the pages in the order they are first met. -/
def actEntriesByPage (entries : List Entry) : List (ℤ × List Entry) :=
  ((entries.filter isActEntry).map Entry.pageOrdinal).eraseDups.map fun ordinal =>
    (ordinal, pageActs entries ordinal)

/-- The first and the last act of one page, or nothing on a page with no act. -/
def edgeActs {α : Type} (isAct : α → Bool) (page : List α) : Option (α × α) := do
  let acts := page.filter isAct
  let first ← acts.head?
  let last ← acts.getLast?
  return (first, last)

/-- Each page that holds an act, with its first and last one. -/
def pageEdges (entries : List Entry) : List (ℤ × (Entry × Entry)) :=
  (actEntriesByPage entries).filterMap fun page =>
    (edgeActs (fun entry => decide (entry.kind = some .act)) page.2).map (page.1, ·)

/-- The break after a page, where both of its sides say that an act crosses it. -/
def agreedBreak (edges : List (ℤ × (Entry × Entry))) (left : ℤ) : Option (Entry × Entry) := do
  let before ← edges.lookup left
  let after ← edges.lookup (left + 1)
  if before.2.continuesToNextPage = some true ∧ after.1.continuesFromPreviousPage = some true
  then some (before.2, after.1) else none

/-- The last act of a page and the first of the next for every break both flag, in page order. -/
def agreedBreaks (entries : List Entry) : List (Entry × Entry) :=
  let edges := pageEdges entries
  (sortBy id (edges.map Prod.fst)).filterMap (agreedBreak edges)

/-- Each act that crosses agreed breaks, as its pieces in page order. -/
def breakChains (entries : List Entry) : List (List Entry) := linkPairs (agreedBreaks entries)

def continuationLinkSchema : String := "recensor-continuation-link.v1"

/-- A page break an answer flags, with both of its sides. -/
structure ContinuationLink where
  subject : String
  schema : String
  fromPageOrdinal : ℤ
  toPageOrdinal : ℤ
  fromActId : Option String
  fromActKey : Option String
  toActId : Option String
  toActKey : Option String
  continuesToNextPage : Bool
  continuesFromPreviousPage : Bool
  agreed : Bool

/-- The break between a page and the next, with what either side says of it. -/
def pageLink (edges : List (ℤ × (Entry × Entry))) (left : ℤ) : ContinuationLink :=
  let right := left + 1
  let last := (edges.lookup left).map Prod.snd
  let first := (edges.lookup right).map Prod.fst
  let toNext := decide (last.bind Entry.continuesToNextPage = some true)
  let fromPrevious := decide (first.bind Entry.continuesFromPreviousPage = some true)
  { subject := s!"page-break:{left}:{right}"
    schema := continuationLinkSchema
    fromPageOrdinal := left
    toPageOrdinal := right
    fromActId := last.bind Entry.actId
    fromActKey := last.map Entry.actKey
    toActId := first.bind Entry.actId
    toActKey := first.map Entry.actKey
    continuesToNextPage := toNext
    continuesFromPreviousPage := fromPrevious
    agreed := toNext && fromPrevious }

/-- A break is recorded where either of its sides flags it. -/
def pageBreak (edges : List (ℤ × (Entry × Entry))) (left : ℤ) : Option ContinuationLink :=
  let link := pageLink edges left
  if link.continuesToNextPage ∨ link.continuesFromPreviousPage then some link else none

theorem pageBreak_eq_some {edges : List (ℤ × (Entry × Entry))} {left : ℤ}
    {link : ContinuationLink} : pageBreak edges left = some link ↔
      pageLink edges left = link ∧
        (link.continuesToNextPage = true ∨ link.continuesFromPreviousPage = true) := by
  rw [pageBreak]
  split_ifs with flagged
  · simp only [Option.some.injEq]
    constructor
    · rintro rfl
      exact ⟨rfl, flagged⟩
    · exact And.left
  · simp only [false_iff]
    rintro ⟨rfl, held⟩
    exact flagged held

/-- The whole numbers from the first up to the stop. -/
def intRange (start stop : ℤ) : List ℤ :=
  (List.range (stop - start).toNat).map fun step : ℕ => start + step

/-- Every page break an answer flags, in page order. -/
def pageBreaks (pages : List ℤ) (acts : List Entry) : Except Refusal (List ContinuationLink) :=
  let edges := pageEdges (wholePageEntries acts)
  let ordinals := sortBy id pages
  match ordinals.head?, ordinals.getLast? with
  | some first, some last =>
    .ok ((intRange (first - 1) (last + 1)).filterMap (pageBreak edges))
  | _, _ => .error (.indexError "list index out of range")

section Edges

variable {entries : List Entry} {ordinal : ℤ}

theorem mem_pageActs {entry : Entry} :
    entry ∈ pageActs entries ordinal ↔
      entry ∈ entries ∧ isActEntry entry = true ∧ entry.pageOrdinal = ordinal := by
  simp [pageActs, and_comm]

theorem isActEntry_kind {entry : Entry} (act : isActEntry entry = true) :
    decide (entry.kind = some .act) = true := by
  simp only [isActEntry, decide_eq_true_eq] at act ⊢
  exact act.2

/-- A page's edges are the ends of its acts in answer order. -/
theorem edgeActs_pageActs :
    edgeActs (fun entry => decide (entry.kind = some .act)) (pageActs entries ordinal) =
      (do
        let first ← (pageActs entries ordinal).head?
        let last ← (pageActs entries ordinal).getLast?
        return (first, last)) := by
  have kept : (pageActs entries ordinal).filter (fun entry => decide (entry.kind = some .act)) =
      pageActs entries ordinal :=
    List.filter_eq_self.mpr fun entry member => isActEntry_kind (mem_pageActs.mp member).2.1
  rw [edgeActs, kept]

theorem lookup_actEntriesByPage : (actEntriesByPage entries).lookup ordinal =
    if pageActs entries ordinal = [] then none else some (pageActs entries ordinal) := by
  have table := lookup_keyed ((entries.filter isActEntry).map Entry.pageOrdinal).eraseDups
    (fun other => some (pageActs entries other)) ordinal
  simp only [Option.map_some, List.filterMap_eq_map'] at table
  rw [actEntriesByPage, table]
  by_cases empty : pageActs entries ordinal = []
  · rw [if_pos empty, if_neg]
    intro listed
    obtain ⟨entry, member, same⟩ := List.mem_map.mp (List.mem_eraseDups.mp listed)
    obtain ⟨inside, act⟩ := List.mem_filter.mp member
    have present := mem_pageActs.mpr ⟨inside, act, same⟩
    rw [empty] at present
    exact List.not_mem_nil present
  · rw [if_neg empty, if_pos]
    obtain ⟨entry, member⟩ := List.exists_mem_of_ne_nil _ empty
    obtain ⟨inside, act, same⟩ := mem_pageActs.mp member
    exact List.mem_eraseDups.mpr (List.mem_map.mpr ⟨entry, List.mem_filter.mpr ⟨inside, act⟩, same⟩)

theorem keys_actEntriesByPage_nodup : ((actEntriesByPage entries).map Prod.fst).Nodup := by
  have keys : (actEntriesByPage entries).map Prod.fst =
      ((entries.filter isActEntry).map Entry.pageOrdinal).eraseDups := by
    rw [actEntriesByPage, List.map_map]
    exact List.map_id _
  rw [keys]
  exact nodup_eraseDups _

/-- The edges of a page that holds an act are found under its ordinal. -/
theorem lookup_pageEdges : (pageEdges entries).lookup ordinal =
    (do
      let first ← (pageActs entries ordinal).head?
      let last ← (pageActs entries ordinal).getLast?
      return (first, last)) := by
  rw [pageEdges, lookup_filterMap keys_actEntriesByPage_nodup
    (fun _ acts => edgeActs (fun entry => decide (entry.kind = some .act)) acts),
    lookup_actEntriesByPage, ← edgeActs_pageActs]
  split_ifs with empty
  · rw [empty]
    rfl
  · rfl

theorem keys_pageEdges_nodup : ((pageEdges entries).map Prod.fst).Nodup := by
  have sublist : ((pageEdges entries).map Prod.fst).Sublist
      ((actEntriesByPage entries).map Prod.fst) := by
    rw [pageEdges, List.map_filterMap]
    generalize actEntriesByPage entries = pages
    induction pages with
    | nil => exact .slnil
    | cons page pages ih =>
        rw [List.filterMap_cons, List.map_cons]
        cases edgeActs (fun entry => decide (entry.kind = some .act)) page.2 with
        | none => exact ih.cons _
        | some edge => exact ih.cons_cons _
  exact keys_actEntriesByPage_nodup.sublist sublist

/-- Both edges of a page are acts of the page. -/
theorem mem_of_lookup_pageEdges {edge : Entry × Entry}
    (found : (pageEdges entries).lookup ordinal = some edge) :
    edge.1 ∈ pageActs entries ordinal ∧ edge.2 ∈ pageActs entries ordinal := by
  rw [lookup_pageEdges] at found
  simp only [Option.bind_eq_bind, Option.bind_eq_some_iff, Option.pure_def, Option.some.injEq]
    at found
  obtain ⟨first, atHead, last, atEnd, rfl⟩ := found
  exact ⟨List.mem_of_head? atHead, List.mem_of_getLast? atEnd⟩

theorem exists_lookup_pageEdges {entry : Entry} (member : entry ∈ pageActs entries ordinal) :
    ∃ edge, (pageEdges entries).lookup ordinal = some edge := by
  rw [lookup_pageEdges]
  cases acts : pageActs entries ordinal with
  | nil =>
      rw [acts] at member
      exact absurd member List.not_mem_nil
  | cons first rest =>
      exact ⟨(first, (first :: rest).getLast (by simp)), by simp [List.getLast?_eq_some_getLast]⟩

/-- The two sides of an agreed break are edges of neighbouring pages, and both flag it. -/
theorem agreedBreak_eq_some {edges : List (ℤ × (Entry × Entry))} {left : ℤ} {pair : Entry × Entry} :
    agreedBreak edges left = some pair ↔
      ∃ before after, edges.lookup left = some before ∧ edges.lookup (left + 1) = some after ∧
        before.2.continuesToNextPage = some true ∧
        after.1.continuesFromPreviousPage = some true ∧ pair = (before.2, after.1) := by
  simp only [agreedBreak, Option.bind_eq_bind, Option.bind_eq_some_iff]
  constructor
  · rintro ⟨before, atLeft, after, atRight, chosen⟩
    split_ifs at chosen with flags
    exact ⟨before, after, atLeft, atRight, flags.1, flags.2, (Option.some.inj chosen).symm⟩
  · rintro ⟨before, after, atLeft, atRight, onward, back, rfl⟩
    exact ⟨before, atLeft, after, atRight, if_pos ⟨onward, back⟩⟩

theorem agreedBreak_pages {left : ℤ} {pair : Entry × Entry}
    (agreed : agreedBreak (pageEdges entries) left = some pair) :
    pair.1 ∈ pageActs entries left ∧ pair.2 ∈ pageActs entries (left + 1) := by
  obtain ⟨before, after, atLeft, atRight, -, -, rfl⟩ := agreedBreak_eq_some.mp agreed
  exact ⟨(mem_of_lookup_pageEdges atLeft).2, (mem_of_lookup_pageEdges atRight).1⟩

end Edges

end Verbatus.PageEdges
