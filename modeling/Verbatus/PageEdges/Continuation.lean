import Verbatus.PageEdges.Agreement
import Verbatus.PageReading.Grammar

namespace Verbatus.PageEdges

open Library Library.Checked PageReading Python

def fromPreviousFlag : String := "continues_from_previous_page"

def toNextFlag : String := "continues_to_next_page"

/-- The text where the condition holds. -/
def flagIf (condition : Prop) [Decidable condition] (flag : String) : List String :=
  if condition then [flag] else []

@[simp] theorem mem_flagIf {condition : Prop} [Decidable condition] {flag other : String} :
    other ∈ flagIf condition flag ↔ condition ∧ other = flag := by
  unfold flagIf
  split_ifs <;> simp_all

/-- The continuation flags an entry sets. -/
def flags (act : Entry) : List String :=
  flagIf (act.continuesFromPreviousPage = some true) fromPreviousFlag ++
  flagIf (act.continuesToNextPage = some true) toNextFlag

/-- An act's flags that are not at its page's act edge. -/
def flagsOffEdge (page : List Entry) (act : Entry) : List String :=
  flagIf (act.continuesFromPreviousPage = some true ∧ some act.n ≠ page.head?.map Entry.n)
    fromPreviousFlag ++
  flagIf (act.continuesToNextPage = some true ∧ some act.n ≠ page.getLast?.map Entry.n) toNextFlag

/-- Each whole-page act with its flags off the edge, page by page. -/
def offEdgeRows (acts : List Entry) : List (Option String × List String) :=
  (actEntriesByPage (wholePageEntries acts)).flatMap fun page =>
    page.2.map fun act => (act.actId, flagsOffEdge page.2 act)

/-- Each act entry whose continuation flag is not at its page's act edge, flags named. -/
def continuationOffEdge (acts : List Entry) : List (Option String × List String) :=
  dictOf ((offEdgeRows acts).filter fun row => row.2 ≠ [])

def continuationOnOther : String := "continuation-flag-on-other"

structure ReviewNote where
  code : String
  flags : List String
  deriving DecidableEq

/-- The notes a unit's review records without holding it: a flag on an `other` entry. -/
def continuationNotes (act : Entry) : List ReviewNote :=
  let flags := if act.n ≠ none ∧ act.kind ≠ some .act then flags act else []
  if flags ≠ [] then [⟨continuationOnOther, flags⟩] else []

/-- Whether a kind as an answer gives it counts as an act; a value with no hash is refused. -/
def isActClass : Json → Except Refusal Bool
  | .str kind => .ok (decide (kind ∈ actClassKinds.map EntryKind.text))
  | .list _ => .error (.typeError "unhashable type: 'list'")
  | .object _ => .error (.typeError "unhashable type: 'dict'")
  | _ => .ok false

/-- An entry of an answer with its place, and whether it is of the act class. -/
structure PlacedEntry where
  place : ℕ
  act : Json
  isAct : Bool

def placedEntry (placed : Json × ℕ) : Except Refusal PlacedEntry := do
  let isAct ← isActClass (placed.1.get "kind")
  return ⟨placed.2, placed.1, isAct⟩

/-- The flags of one entry that stand on no edge of an answer of the given length. -/
def strayFlags (length : ℕ) (edges : Option (PlacedEntry × PlacedEntry)) (entry : PlacedEntry) :
    List String :=
  let stray (flag : String) (edge : Option ℕ) (position : ℕ) :=
    flagIf ((entry.act.get flag).bool? = some true ∧
      ¬ if entry.isAct then some entry.place = edge else entry.place = position) flag
  stray fromPreviousFlag (edges.map fun edge => edge.1.place) 0 ++
  stray toNextFlag (edges.map fun edge => edge.2.place) (length - 1)

/-- Each entry of an answer whose continuation flag is set off its page's edge, by its place. -/
def strayContinuationFlags (acts : List Json) : Except Refusal (List (ℕ × List String)) := do
  let entries ← (acts.zipIdx.filter fun placed => placed.1.isObject).mapM placedEntry
  let edges := edgeActs PlacedEntry.isAct entries
  return (entries.map fun entry => (entry.place, strayFlags acts.length edges entry)).filter
    fun row => !row.2.isEmpty

section OffEdge

variable {acts : List Entry} {act : Entry}

theorem mem_wholePageActs : act ∈ wholePageActs acts ↔
    act ∈ pageActs (wholePageEntries acts) act.pageOrdinal := by
  rw [mem_pageActs, wholePageActs, List.mem_filter]
  simp

theorem mem_offEdgeRows {row : Option String × List String} :
    row ∈ offEdgeRows acts ↔ ∃ other ∈ wholePageActs acts,
      row = (other.actId, flagsOffEdge (pageActs (wholePageEntries acts) other.pageOrdinal) other) := by
  simp only [offEdgeRows, List.mem_flatMap, List.mem_map, actEntriesByPage]
  constructor
  · rintro ⟨page, ⟨ordinal, -, rfl⟩, other, inside, rfl⟩
    have place := (mem_pageActs.mp inside).2.2
    subst place
    exact ⟨other, mem_wholePageActs.mpr inside, rfl⟩
  · rintro ⟨other, inside, rfl⟩
    refine ⟨_, ⟨other.pageOrdinal, ?_, rfl⟩, other, mem_wholePageActs.mp inside, rfl⟩
    exact List.mem_eraseDups.mpr (List.mem_map.mpr ⟨other, inside, rfl⟩)

/-- The flags the run's acts off their page's edge are held for, by the act's id. -/
theorem lookup_continuationOffEdge (apart : ((wholePageActs acts).map Entry.actId).Nodup)
    (member : act ∈ wholePageActs acts) :
    ((continuationOffEdge acts).lookup act.actId).getD [] =
      flagsOffEdge (pageActs (wholePageEntries acts) act.pageOrdinal) act := by
  have agree : ∀ row ∈ (offEdgeRows acts).filter (fun row => row.2 ≠ []), row.1 = act.actId →
      row.2 = flagsOffEdge (pageActs (wholePageEntries acts) act.pageOrdinal) act := by
    intro row kept same
    obtain ⟨other, inside, rfl⟩ := mem_offEdgeRows.mp (List.mem_filter.mp kept).1
    rw [List.inj_on_of_nodup_map apart inside member same]
  have equality : (Option.instBEq : BEq (Option String)) = instBEqOfDecidableEq :=
    lawful_beq_subsingleton _ _
  rw [continuationOffEdge, equality, lookup_dictOf agree]
  by_cases none : flagsOffEdge (pageActs (wholePageEntries acts) act.pageOrdinal) act = []
  · rw [none]
    split_ifs <;> rfl
  · rw [if_pos]
    · rfl
    · have kept : (act.actId,
          flagsOffEdge (pageActs (wholePageEntries acts) act.pageOrdinal) act) ∈
          (offEdgeRows acts).filter fun row => row.2 ≠ [] :=
        List.mem_filter.mpr ⟨mem_offEdgeRows.mpr ⟨act, member, rfl⟩, decide_eq_true none⟩
      exact List.mem_map_of_mem (f := Prod.fst) kept

theorem pageEdge_of_mem (member : act ∈ wholePageActs acts) :
    ∃ first last, (pageActs (wholePageEntries acts) act.pageOrdinal).head? = some first ∧
      (pageActs (wholePageEntries acts) act.pageOrdinal).getLast? = some last ∧
      (pageEdges (wholePageEntries acts)).lookup act.pageOrdinal = some (first, last) := by
  obtain ⟨edge, found⟩ := exists_lookup_pageEdges (mem_wholePageActs.mp member)
  have ends := found
  rw [lookup_pageEdges] at ends
  simp only [Option.bind_eq_bind, Option.bind_eq_some_iff, Option.pure_def, Option.some.injEq]
    at ends
  obtain ⟨first, atHead, last, atEnd, rfl⟩ := ends
  exact ⟨first, last, atHead, atEnd, found⟩

/-- Two acts of one page with one number are one act. -/
theorem eq_of_n_eq (numbered : Numbered acts) {other : Entry} (member : act ∈ wholePageActs acts)
    (inside : other ∈ pageActs (wholePageEntries acts) act.pageOrdinal) (same : act.n = other.n) :
    act = other := by
  have page := (mem_pageActs.mp inside).2.2
  have listed : other ∈ wholePageActs acts := mem_wholePageActs.mpr (page ▸ inside)
  apply List.inj_on_of_nodup_map numbered member listed
  rw [page, same]

end OffEdge

/-- A link that has an act as the side handing over to the next page. -/
def ContinuationLink.HandsOn (link : ContinuationLink) (act : Entry) : Prop :=
  link.continuesToNextPage = true ∧ link.fromActId = act.actId ∧ link.fromActKey = some act.actKey

/-- A link that has an act as the side taking over from the page before. -/
def ContinuationLink.TakesOver (link : ContinuationLink) (act : Entry) : Prop :=
  link.continuesFromPreviousPage = true ∧ link.toActId = act.actId ∧
    link.toActKey = some act.actKey

section Sides

variable {acts : List Entry} {act : Entry} {left : ℤ} {link : ContinuationLink}

/-- The page whose break has an act as its earlier side ends with that act. -/
theorem pageBreak_handsOn (numbered : Numbered acts) (member : act ∈ wholePageActs acts)
    (found : pageBreak (pageEdges (wholePageEntries acts)) left = some link)
    (side : link.HandsOn act) :
    (pageActs (wholePageEntries acts) act.pageOrdinal).getLast? = some act := by
  obtain ⟨rfl, -⟩ := pageBreak_eq_some.mp found
  obtain ⟨-, -, key⟩ := side
  obtain ⟨last, held, same⟩ := Option.map_eq_some_iff.mp key
  obtain ⟨edge, atLeft, rfl⟩ := Option.map_eq_some_iff.mp held
  have inside := (mem_of_lookup_pageEdges atLeft).2
  have page := (mem_pageActs.mp inside).2.2
  have listed : edge.2 ∈ wholePageActs acts := mem_wholePageActs.mpr (page ▸ inside)
  have one := eq_of_actKey_eq numbered listed member same
  rw [lookup_pageEdges] at atLeft
  simp only [Option.bind_eq_bind, Option.bind_eq_some_iff, Option.pure_def, Option.some.injEq]
    at atLeft
  obtain ⟨first, -, last, atEnd, rfl⟩ := atLeft
  rw [← one, page, atEnd]

theorem pageBreak_takesOver (numbered : Numbered acts) (member : act ∈ wholePageActs acts)
    (found : pageBreak (pageEdges (wholePageEntries acts)) left = some link)
    (side : link.TakesOver act) :
    (pageActs (wholePageEntries acts) act.pageOrdinal).head? = some act := by
  obtain ⟨rfl, -⟩ := pageBreak_eq_some.mp found
  obtain ⟨-, -, key⟩ := side
  obtain ⟨first, held, same⟩ := Option.map_eq_some_iff.mp key
  obtain ⟨edge, atRight, rfl⟩ := Option.map_eq_some_iff.mp held
  have inside := (mem_of_lookup_pageEdges atRight).1
  have page := (mem_pageActs.mp inside).2.2
  have listed : edge.1 ∈ wholePageActs acts := mem_wholePageActs.mpr (page ▸ inside)
  have one := eq_of_actKey_eq numbered listed member same
  rw [lookup_pageEdges] at atRight
  simp only [Option.bind_eq_bind, Option.bind_eq_some_iff, Option.pure_def, Option.some.injEq]
    at atRight
  obtain ⟨first, atHead, last, -, rfl⟩ := atRight
  rw [← one, page, atHead]

/-- A flagged last act of a page is the earlier side of the break after the page. -/
theorem exists_handsOn (member : act ∈ wholePageActs acts)
    (flagged : act.continuesToNextPage = some true)
    (last : (pageActs (wholePageEntries acts) act.pageOrdinal).getLast? = some act) :
    ∃ link, pageBreak (pageEdges (wholePageEntries acts)) act.pageOrdinal = some link ∧
      link.HandsOn act := by
  obtain ⟨first, other, -, atEnd, found⟩ := pageEdge_of_mem member
  rw [last, Option.some.injEq] at atEnd
  subst atEnd
  have side : (pageLink (pageEdges (wholePageEntries acts)) act.pageOrdinal).HandsOn act := by
    simp [ContinuationLink.HandsOn, pageLink, found, flagged]
  exact ⟨_, pageBreak_eq_some.mpr ⟨rfl, .inl side.1⟩, side⟩

theorem exists_takesOver (member : act ∈ wholePageActs acts)
    (flagged : act.continuesFromPreviousPage = some true)
    (first : (pageActs (wholePageEntries acts) act.pageOrdinal).head? = some act) :
    ∃ link, pageBreak (pageEdges (wholePageEntries acts)) (act.pageOrdinal - 1) = some link ∧
      link.TakesOver act := by
  obtain ⟨other, last, atHead, -, found⟩ := pageEdge_of_mem member
  rw [first, Option.some.injEq] at atHead
  subst atHead
  have place : act.pageOrdinal - 1 + 1 = act.pageOrdinal := by omega
  have side : (pageLink (pageEdges (wholePageEntries acts)) (act.pageOrdinal - 1)).TakesOver act := by
    simp [ContinuationLink.TakesOver, pageLink, place, found, flagged]
  exact ⟨_, pageBreak_eq_some.mpr ⟨rfl, .inr side.1⟩, side⟩

/-- An act is the last of its page exactly when no other number ends it. -/
theorem eq_getLast_iff (numbered : Numbered acts) (member : act ∈ wholePageActs acts) :
    (pageActs (wholePageEntries acts) act.pageOrdinal).getLast? = some act ↔
      some act.n = (pageActs (wholePageEntries acts) act.pageOrdinal).getLast?.map Entry.n := by
  obtain ⟨first, last, -, atEnd, -⟩ := pageEdge_of_mem member
  rw [atEnd, Option.map_some, Option.some.injEq, Option.some.injEq]
  constructor
  · rintro rfl
    rfl
  · intro same
    exact (eq_of_n_eq numbered member (List.mem_of_getLast? atEnd) same).symm

theorem eq_head_iff (numbered : Numbered acts) (member : act ∈ wholePageActs acts) :
    (pageActs (wholePageEntries acts) act.pageOrdinal).head? = some act ↔
      some act.n = (pageActs (wholePageEntries acts) act.pageOrdinal).head?.map Entry.n := by
  obtain ⟨first, last, atHead, -, -⟩ := pageEdge_of_mem member
  rw [atHead, Option.map_some, Option.some.injEq, Option.some.injEq]
  constructor
  · rintro rfl
    rfl
  · intro same
    exact (eq_of_n_eq numbered member (List.mem_of_head? atHead) same).symm

end Sides

/-- A row of the denominator that counts an entry of an answer. -/
structure CountedFrom (ordinal attempt : ℤ) (entry : AnswerEntry) (row : Entry) : Prop where
  page : row.pageOrdinal = ordinal
  number : row.n = some entry.n
  kind : row.kind = some (actClass entry.kind)
  fromPrevious : row.continuesFromPreviousPage = some entry.continuesFromPreviousPage
  toNext : row.continuesToNextPage = some entry.continuesToNextPage
  attempt : row.readingAttempt = some attempt

/-- An entry with its place, as an answer inside the grammar gives it. -/
def placedOf (placed : Json × ℕ) : PlacedEntry :=
  ⟨placed.2, placed.1, actClass (AnswerEntry.read placed.1).kind = .act⟩

section Stray

variable {elements : List Json} {rows : List Entry} {ordinal attempt : ℤ}

theorem isActClass_text (kind : EntryKind) :
    isActClass (.str kind.text) = .ok (decide (actClass kind = .act)) := by
  cases kind <;> decide

/-- Inside the grammar the stray flags are read of every entry, each at its place. -/
theorem strayContinuationFlags_inside
    (inside : ∀ index act, elements[index]? = some act → actProblems index act = []) :
    strayContinuationFlags elements = .ok (((elements.zipIdx.map placedOf).map fun entry =>
      (entry.place, strayFlags elements.length
        (edgeActs PlacedEntry.isAct (elements.zipIdx.map placedOf)) entry)).filter
      fun row => !row.2.isEmpty) := by
  have clean : ∀ placed ∈ elements.zipIdx, actProblems placed.2 placed.1 = [] := by
    intro placed member
    exact inside placed.2 placed.1 (List.mem_zipIdx_iff_getElem?.mp member)
  have objects : (elements.zipIdx.filter fun placed => placed.1.isObject) = elements.zipIdx :=
    List.filter_eq_self.mpr fun placed member => (actProblems_inside (clean placed member)).object
  have each : ∀ placed ∈ elements.zipIdx, placedEntry placed = .ok (placedOf placed) := by
    intro placed member
    rw [placedEntry, actProblems_kind (clean placed member), isActClass_text, ok_bind]
    rfl
  rw [strayContinuationFlags, objects, mapM_ok_of_forall each, ok_bind]
  rfl

/-- The acts' numbers in the rows are one more than their places in the answer. -/
theorem numbers_eq_places (start : ℕ)
    (counted : List.Forall₂ (fun act row => CountedFrom ordinal attempt (AnswerEntry.read act) row)
      elements rows)
    (numbered : ∀ placed ∈ elements.zipIdx start, (AnswerEntry.read placed.1).n = placed.2 + 1) :
    (rows.filter isActEntry).map Entry.n =
      (((elements.zipIdx start).map placedOf).filter PlacedEntry.isAct).map fun entry =>
        some ((entry.place : ℤ) + 1) := by
  induction counted generalizing start with
  | nil => rfl
  | cons first rest ih =>
      rename_i act row elements rows
      rw [List.zipIdx_cons, List.map_cons, List.filter_cons, List.filter_cons]
      rw [List.zipIdx_cons] at numbered
      have later := ih (start + 1) fun placed member => numbered placed (.tail _ member)
      have number := numbered (act, start) (.head _)
      have same : isActEntry row = (placedOf (act, start)).isAct := by
        simp [isActEntry, placedOf, first.number, first.kind]
      rw [same]
      split_ifs
      · rw [List.map_cons, List.map_cons, later, first.number, number]
        rfl
      · exact later

theorem edgeActs_ends {α : Type} (isAct : α → Bool) (page : List α) :
    (edgeActs isAct page).map Prod.fst = (page.filter isAct).head? ∧
      (edgeActs isAct page).map Prod.snd = (page.filter isAct).getLast? := by
  unfold edgeActs
  cases page.filter isAct with
  | nil => exact ⟨rfl, rfl⟩
  | cons first rest => simp [List.getLast?_eq_some_getLast]

theorem places_pairwise (start : ℕ) :
    ((((elements.zipIdx start).map placedOf).filter PlacedEntry.isAct).map fun entry =>
      some ((entry.place : ℤ) + 1)).Pairwise fun first second => first.getD 0 < second.getD 0 := by
  have places : (elements.zipIdx start).Pairwise fun first second => first.2 < second.2 := by
    have ordered : ((elements.zipIdx start).map Prod.snd).Pairwise (· < ·) := by
      rw [List.zipIdx_map_snd]
      exact List.pairwise_lt_range'
    exact List.pairwise_map.mp ordered
  rw [List.pairwise_map]
  apply List.Pairwise.filter
  rw [List.pairwise_map]
  refine places.imp fun less => ?_
  simp only [placedOf, Option.getD_some]
  omega

variable {acts : List Entry}

/-- A page's acts in the run are the acts counted from its answer, in answer order. -/
theorem pageActs_counted
    (counts : ((wholePageEntries acts).filter fun entry => entry.pageOrdinal = ordinal).Perm rows)
    (ordered : (rows.filter isActEntry).Pairwise fun first second =>
      first.n.getD 0 < second.n.getD 0) :
    pageActs (wholePageEntries acts) ordinal = rows.filter isActEntry := by
  have same : (((wholePageEntries acts).filter isActEntry).filter fun act =>
      act.pageOrdinal = ordinal).Perm (rows.filter isActEntry) := by
    rw [List.filter_comm]
    exact counts.filter _
  have apart : ((rows.filter isActEntry).map fun act => act.n.getD 0).Nodup :=
    List.pairwise_map.mpr (ordered.imp fun less => ne_of_lt less)
  rw [pageActs, sortBy_eq_of_perm same, sortBy_of_pairwise _ (ordered.imp fun less => less.le)]
  intro first inFirst second inSecond equal
  exact List.inj_on_of_nodup_map apart (same.mem_iff.mp inFirst) (same.mem_iff.mp inSecond) equal

/-- The flags an answer's own check calls stray are the ones its counted rows are held for. -/
theorem strayContinuationFlags_offEdge
    (inside : ∀ index act, elements[index]? = some act → actProblems index act = [])
    (counted : List.Forall₂ (fun act row => CountedFrom ordinal attempt (AnswerEntry.read act) row)
      elements rows)
    (counts : ((wholePageEntries acts).filter fun entry => entry.pageOrdinal = ordinal).Perm rows)
    (apart : ((wholePageActs acts).map Entry.actId).Nodup) :
    ∃ stray, strayContinuationFlags elements = .ok stray ∧
      ∀ index row, rows[index]? = some row → row.kind = some .act →
        (stray.lookup index).getD [] = ((continuationOffEdge acts).lookup row.actId).getD [] := by
  refine ⟨_, strayContinuationFlags_inside inside, ?_⟩
  intro index row place isAct
  have numbers := numbers_eq_places 0 counted (by
    intro placed member
    exact actProblems_number (inside placed.2 placed.1 (List.mem_zipIdx_iff_getElem?.mp member)))
  have ordered : ((rows.filter isActEntry).map Entry.n).Pairwise fun first second =>
      first.getD 0 < second.getD 0 := numbers ▸ places_pairwise 0
  have byNumber : (rows.filter isActEntry).Pairwise fun first second =>
      first.n.getD 0 < second.n.getD 0 := by
    rwa [List.pairwise_map] at ordered
  have page := pageActs_counted counts byNumber
  obtain ⟨act, atIndex, count⟩ : ∃ act, elements[index]? = some act ∧
      CountedFrom ordinal attempt (AnswerEntry.read act) row := by
    obtain ⟨within, rfl⟩ := List.getElem?_eq_some_iff.mp place
    have length := counted.length_eq
    refine ⟨elements[index], List.getElem?_eq_getElem (by omega), ?_⟩
    exact (List.forall₂_iff_get.mp counted).2 index (by omega) within
  have clean := inside index act atIndex
  have member : row ∈ wholePageActs acts := by
    have listed := counts.mem_iff.mpr (List.mem_of_getElem? place)
    refine List.mem_filter.mpr ⟨(List.mem_filter.mp listed).1, ?_⟩
    simp [isActEntry, count.number, isAct]
  rw [lookup_continuationOffEdge apart member, count.page, page]
  have keys : ((elements.zipIdx.map placedOf).map fun entry => (entry.place,
      strayFlags elements.length (edgeActs PlacedEntry.isAct (elements.zipIdx.map placedOf))
        entry)).map Prod.fst = List.range' 0 elements.length := by
    rw [List.map_map, List.map_map, ← List.zipIdx_map_snd 0 elements]
    rfl
  have listed : (index, strayFlags elements.length
      (edgeActs PlacedEntry.isAct (elements.zipIdx.map placedOf)) (placedOf (act, index))) ∈
      (elements.zipIdx.map placedOf).map fun entry => (entry.place, strayFlags elements.length
        (edgeActs PlacedEntry.isAct (elements.zipIdx.map placedOf)) entry) :=
    List.mem_map.mpr ⟨placedOf (act, index),
      List.mem_map_of_mem (List.mem_zipIdx_iff_getElem?.mpr atIndex), rfl⟩
  rw [getD_lookup_filter (keys ▸ List.nodup_range') listed]
  -- Both sides test the same flag of the entry, and its place against the same two ends.
  obtain ⟨first, last⟩ := edgeActs_ends PlacedEntry.isAct (elements.zipIdx.map placedOf)
  have actPlace : (placedOf (act, index)).isAct = true := by
    have kinds := count.kind
    rw [isAct, Option.some.injEq] at kinds
    simp [placedOf, ← kinds]
  have head : (rows.filter isActEntry).head?.map Entry.n =
      (edgeActs PlacedEntry.isAct (elements.zipIdx.map placedOf)).map fun edge =>
        some ((edge.1.place : ℤ) + 1) := by
    rw [← List.head?_map, numbers, List.head?_map, ← first, Option.map_map]
    rfl
  have tail : (rows.filter isActEntry).getLast?.map Entry.n =
      (edgeActs PlacedEntry.isAct (elements.zipIdx.map placedOf)).map fun edge =>
        some ((edge.2.place : ℤ) + 1) := by
    rw [← List.getLast?_map, numbers, List.getLast?_map, ← last, Option.map_map]
    rfl
  have number : row.n = some ((index : ℤ) + 1) := by
    rw [count.number, actProblems_number clean]
  have fromFlag := actProblems_flag clean (by decide : fromPreviousFlag ∈ continuationFlags)
  have toFlag := actProblems_flag clean (by decide : toNextFlag ∈ continuationFlags)
  have fromRow : row.continuesFromPreviousPage = some (act.get fromPreviousFlag).flag :=
    count.fromPrevious
  have toRow : row.continuesToNextPage = some (act.get toNextFlag).flag := count.toNext
  rw [flagsOffEdge, head, tail, number, fromRow, toRow]
  have shape : (placedOf (act, index)).act = act ∧ (placedOf (act, index)).place = index :=
    ⟨rfl, rfl⟩
  simp only [strayFlags, actPlace, shape, fromFlag, toFlag, if_true]
  cases edgeActs PlacedEntry.isAct (elements.zipIdx.map placedOf) with
  | none => simp
  | some edge => simp

end Stray

section Kept

variable {acts : List Entry}

/-- A hand-over that an act flags is joined by a link or named as off the edge, never both. -/
theorem toNext_kept (numbered : Numbered acts)
    (apart : ((wholePageActs acts).map Entry.actId).Nodup) {pages : List ℤ} (held : pages ≠ [])
    (within : ∀ act ∈ wholePageActs acts, act.pageOrdinal ∈ pages)
    {links : List ContinuationLink} (derived : pageBreaks pages acts = .ok links) {act : Entry}
    (member : act ∈ wholePageActs acts) (flagged : act.continuesToNextPage = some true) :
    Xor (toNextFlag ∈ ((continuationOffEdge acts).lookup act.actId).getD [])
      (∃ link ∈ links, link.HandsOn act) := by
  obtain ⟨first, last, found, bounds⟩ := pageBreaks_range acts held
  rw [found, Except.ok.injEq] at derived
  subst derived
  have offEdge : toNextFlag ∈ ((continuationOffEdge acts).lookup act.actId).getD [] ↔
      ¬ (pageActs (wholePageEntries acts) act.pageOrdinal).getLast? = some act := by
    rw [lookup_continuationOffEdge apart member, eq_getLast_iff numbered member]
    simp [flagsOffEdge, flagged, toNextFlag, fromPreviousFlag]
  have joined : (∃ link ∈ (intRange (first - 1) (last + 1)).filterMap
      (pageBreak (pageEdges (wholePageEntries acts))), link.HandsOn act) ↔
      (pageActs (wholePageEntries acts) act.pageOrdinal).getLast? = some act := by
    constructor
    · rintro ⟨link, listed, side⟩
      obtain ⟨left, -, made⟩ := List.mem_filterMap.mp listed
      exact pageBreak_handsOn numbered member made side
    · intro ends
      obtain ⟨link, made, side⟩ := exists_handsOn member flagged ends
      have between := bounds _ (within act member)
      refine ⟨link, List.mem_filterMap.mpr ⟨_, mem_intRange.mpr ?_, made⟩, side⟩
      omega
  rw [offEdge, joined, Xor]
  tauto

/-- A take-over that an act flags is joined by a link or named as off the edge, never both. -/
theorem fromPrevious_kept (numbered : Numbered acts)
    (apart : ((wholePageActs acts).map Entry.actId).Nodup) {pages : List ℤ} (held : pages ≠ [])
    (within : ∀ act ∈ wholePageActs acts, act.pageOrdinal ∈ pages)
    {links : List ContinuationLink} (derived : pageBreaks pages acts = .ok links) {act : Entry}
    (member : act ∈ wholePageActs acts) (flagged : act.continuesFromPreviousPage = some true) :
    Xor (fromPreviousFlag ∈ ((continuationOffEdge acts).lookup act.actId).getD [])
      (∃ link ∈ links, link.TakesOver act) := by
  obtain ⟨first, last, found, bounds⟩ := pageBreaks_range acts held
  rw [found, Except.ok.injEq] at derived
  subst derived
  have offEdge : fromPreviousFlag ∈ ((continuationOffEdge acts).lookup act.actId).getD [] ↔
      ¬ (pageActs (wholePageEntries acts) act.pageOrdinal).head? = some act := by
    rw [lookup_continuationOffEdge apart member, eq_head_iff numbered member]
    simp [flagsOffEdge, flagged, toNextFlag, fromPreviousFlag]
  have joined : (∃ link ∈ (intRange (first - 1) (last + 1)).filterMap
      (pageBreak (pageEdges (wholePageEntries acts))), link.TakesOver act) ↔
      (pageActs (wholePageEntries acts) act.pageOrdinal).head? = some act := by
    constructor
    · rintro ⟨link, listed, side⟩
      obtain ⟨left, -, made⟩ := List.mem_filterMap.mp listed
      exact pageBreak_takesOver numbered member made side
    · intro ends
      obtain ⟨link, made, side⟩ := exists_takesOver member flagged ends
      have between := bounds _ (within act member)
      refine ⟨link, List.mem_filterMap.mpr ⟨_, mem_intRange.mpr ?_, made⟩, side⟩
      omega
  rw [offEdge, joined, Xor]
  tauto

/-- A flag on an `other` entry is noted for a reader. -/
theorem continuationNotes_other {act : Entry} (entry : act.n ≠ none) (other : act.kind = some .other)
    {flag : String} (flagged : flag ∈ flags act) :
    continuationNotes act = [⟨continuationOnOther, flags act⟩] := by
  have kind : act.kind ≠ some .act := by
    rw [other]
    decide
  simp [continuationNotes, entry, kind, List.ne_nil_of_mem flagged]

/-- No continuation flag is lost: every whole-page act's flag is on a link or off the edge, every
other entry's is noted, and an answer's stray flags are those its counted acts are held for. -/
theorem continuation_flags_kept (acts : List Entry) (numbered : Numbered acts)
    (apart : ((wholePageActs acts).map Entry.actId).Nodup) (pages : List ℤ) (held : pages ≠ [])
    (within : ∀ act ∈ wholePageActs acts, act.pageOrdinal ∈ pages) :
    ∃ links, pageBreaks pages acts = .ok links ∧
      (∀ act ∈ wholePageActs acts,
        (act.continuesToNextPage = some true →
          Xor (toNextFlag ∈ ((continuationOffEdge acts).lookup act.actId).getD [])
            (∃ link ∈ links, link.HandsOn act)) ∧
        (act.continuesFromPreviousPage = some true →
          Xor (fromPreviousFlag ∈ ((continuationOffEdge acts).lookup act.actId).getD [])
            (∃ link ∈ links, link.TakesOver act))) ∧
      (∀ act ∈ acts, act.n ≠ none → act.kind = some .other → ∀ flag ∈ flags act,
        continuationNotes act = [⟨continuationOnOther, flags act⟩]) ∧
      ∀ (answer : Json) (ordinal attempt : ℤ) (rows : List Entry), grammarProblems answer = [] →
        List.Forall₂ (CountedFrom ordinal attempt) (answerEntries answer) rows →
        ((wholePageEntries acts).filter fun entry => entry.pageOrdinal = ordinal).Perm rows →
        ∃ stray, strayContinuationFlags (answer.get "entries").elements = .ok stray ∧
          ∀ index row, rows[index]? = some row → row.kind = some .act →
            (stray.lookup index).getD [] =
              ((continuationOffEdge acts).lookup row.actId).getD [] := by
  obtain ⟨first, last, found, -⟩ := pageBreaks_range acts held
  refine ⟨_, found, ?_, ?_, ?_⟩
  · intro act member
    exact ⟨toNext_kept numbered apart held within found member,
      fromPrevious_kept numbered apart held within found member⟩
  · intro act _ entry other flag flagged
    exact continuationNotes_other entry other flagged
  · intro answer ordinal attempt rows inside counted counts
    obtain ⟨⟨entries, listed, each⟩, -⟩ := grammarProblems_lists inside
    rw [answerEntries, listed, Json.elements_list, List.forall₂_map_left_iff] at counted
    rw [listed]
    exact strayContinuationFlags_offEdge each counted counts apart

end Kept

theorem continuation_flags_kept_threePages :
    ∃ links, pageBreaks [1, 2, 3] threePages = .ok links ∧
      Xor (toNextFlag ∈ ((continuationOffEdge threePages).lookup (some (entryKey 1 1))).getD [])
        (∃ link ∈ links, link.HandsOn (firstReadAct 1 1 false true)) := by
  obtain ⟨links, derived, kept, -⟩ := continuation_flags_kept threePages (by decide +kernel)
    (by decide +kernel) [1, 2, 3] (by decide) (by decide +kernel)
  exact ⟨links, derived, (kept _ (by decide +kernel)).1 rfl⟩

end Verbatus.PageEdges
