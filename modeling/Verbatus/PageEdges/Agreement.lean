import Verbatus.PageEdges.Plan

namespace Verbatus.PageEdges

open Library

/-- The acts of whole-page readings: the only entries a page break can join. -/
def wholePageActs (entries : List Entry) : List Entry :=
  (wholePageEntries entries).filter isActEntry

/-- No two whole-page acts of one page have the same number. -/
def Numbered (entries : List Entry) : Prop :=
  ((wholePageActs entries).map fun act => (act.pageOrdinal, act.n)).Nodup

instance (entries : List Entry) : Decidable (Numbered entries) :=
  inferInstanceAs (Decidable (List.Nodup _))

/-- The sides of a break: each act's page, id and key. -/
structure BreakSides where
  fromPageOrdinal : ℤ
  toPageOrdinal : ℤ
  fromActId : Option String
  fromActKey : Option String
  toActId : Option String
  toActKey : Option String
  deriving DecidableEq

def ContinuationLink.sides (link : ContinuationLink) : BreakSides :=
  ⟨link.fromPageOrdinal, link.toPageOrdinal, link.fromActId, link.fromActKey, link.toActId,
    link.toActKey⟩

def breakSides (pair : Entry × Entry) : BreakSides :=
  ⟨pair.1.pageOrdinal, pair.2.pageOrdinal, pair.1.actId, some pair.1.actKey, pair.2.actId,
    some pair.2.actKey⟩

section Order

theorem mem_intRange {start stop value : ℤ} :
    value ∈ intRange start stop ↔ start ≤ value ∧ value < stop := by
  simp only [intRange, List.mem_map, List.mem_range]
  constructor
  · rintro ⟨step, inside, rfl⟩
    omega
  · rintro ⟨low, high⟩
    exact ⟨(value - start).toNat, by omega, by omega⟩

theorem intRange_pairwise (start stop : ℤ) : (intRange start stop).Pairwise (· < ·) := by
  rw [intRange, List.pairwise_map]
  exact List.pairwise_lt_range.imp fun less => by omega

/-- Distinct numbers inside a range, in order, are the numbers of the range that are among them. -/
theorem sortBy_eq_filter_intRange {values : List ℤ} (distinct : values.Nodup) {start stop : ℤ}
    (inside : ∀ value ∈ values, start ≤ value ∧ value < stop) :
    sortBy id values = (intRange start stop).filter (· ∈ values) := by
  have ordered : ((intRange start stop).filter (· ∈ values)).Pairwise fun first second =>
      id first ≤ id second :=
    ((intRange_pairwise start stop).filter _).imp fun less => le_of_lt less
  have same : values.Perm ((intRange start stop).filter (· ∈ values)) := by
    have apart : ((intRange start stop).filter (· ∈ values)).Nodup :=
      ((intRange_pairwise start stop).imp fun less => ne_of_lt less).filter _
    rw [List.perm_ext_iff_of_nodup distinct apart]
    intro value
    simp only [List.mem_filter, mem_intRange, decide_eq_true_eq]
    exact ⟨fun member => ⟨inside value member, member⟩, And.right⟩
  rw [sortBy_congr same Function.injective_id, sortBy_of_pairwise id ordered]

end Order

section Agreement

variable {entries : List Entry}

/-- The agreed breaks are found page by page over any range that holds the pages with acts. -/
theorem agreedBreaks_eq_intRange {start stop : ℤ}
    (inside : ∀ left ∈ (pageEdges entries).map Prod.fst, start ≤ left ∧ left < stop) :
    agreedBreaks entries = (intRange start stop).filterMap (agreedBreak (pageEdges entries)) := by
  rw [agreedBreaks, sortBy_eq_filter_intRange keys_pageEdges_nodup inside, List.filterMap_filter]
  apply List.filterMap_congr
  intro left _
  split_ifs with listed
  · rfl
  · have absent : (pageEdges entries).lookup left = none := by
      rw [decide_eq_true_eq, ← isSome_lookup_iff, Option.not_isSome_iff_eq_none] at listed
      exact listed
    simp [agreedBreak, absent]

/-- The link of a page break is agreed exactly where the break is, with the same sides. -/
theorem pageBreak_agreed (left : ℤ) :
    ((pageBreak (pageEdges entries) left).filter ContinuationLink.agreed).map
        ContinuationLink.sides =
      (agreedBreak (pageEdges entries) left).map breakSides := by
  cases agreed : agreedBreak (pageEdges entries) left with
  | some pair =>
      obtain ⟨first, second⟩ := agreedBreak_pages agreed
      obtain ⟨before, after, atLeft, atRight, onward, back, rfl⟩ := agreedBreak_eq_some.mp agreed
      have fromPage : before.2.pageOrdinal = left := (mem_pageActs.mp first).2.2
      have toPage : after.1.pageOrdinal = left + 1 := (mem_pageActs.mp second).2.2
      simp [pageBreak, pageLink, atLeft, atRight, onward, back, ContinuationLink.sides, breakSides,
        fromPage, toPage]
  | none =>
      rw [Option.map_none, Option.map_eq_none_iff, Option.filter_eq_none_iff]
      intro link found both
      obtain ⟨rfl, -⟩ := pageBreak_eq_some.mp found
      simp only [pageLink, Bool.and_eq_true, decide_eq_true_eq, Option.bind_eq_some_iff,
        Option.map_eq_some_iff] at both
      obtain ⟨⟨last, ⟨before, atLeft, rfl⟩, onward⟩, first, ⟨after, atRight, rfl⟩, back⟩ := both
      have joined := agreedBreak_eq_some.mpr ⟨before, after, atLeft, atRight, onward, back, rfl⟩
      rw [agreed] at joined
      cases joined

theorem agreedBreaks_mem {pair : Entry × Entry} (agreed : pair ∈ agreedBreaks entries) :
    ∃ left, pair.1 ∈ pageActs entries left ∧ pair.2 ∈ pageActs entries (left + 1) := by
  obtain ⟨left, -, found⟩ := List.mem_filterMap.mp agreed
  exact ⟨left, agreedBreak_pages found⟩

/-- Every agreed break joins a page to the next. -/
theorem agreedBreaks_consecutive {pair : Entry × Entry} (agreed : pair ∈ agreedBreaks entries) :
    pair.2.pageOrdinal = pair.1.pageOrdinal + 1 := by
  obtain ⟨left, first, second⟩ := agreedBreaks_mem agreed
  rw [(mem_pageActs.mp first).2.2, (mem_pageActs.mp second).2.2]

theorem agreedBreaks_pairwise : (agreedBreaks entries).Pairwise fun pair later =>
    pair.1.pageOrdinal < later.1.pageOrdinal := by
  rw [agreedBreaks, List.pairwise_filterMap]
  have sorted := sortBy_pairwise id ((pageEdges entries).map Prod.fst)
  have apart : (sortBy id ((pageEdges entries).map Prod.fst)).Nodup :=
    (sortBy_perm id _).nodup_iff.mpr keys_pageEdges_nodup
  refine (sorted.and apart).imp ?_
  intro left other before pair found later foundLater
  obtain ⟨first, -⟩ := agreedBreak_pages found
  obtain ⟨second, -⟩ := agreedBreak_pages foundLater
  rw [(mem_pageActs.mp first).2.2, (mem_pageActs.mp second).2.2]
  exact lt_of_le_of_ne before.1 before.2

/-- Each piece of a chain is on the page after the piece before it. -/
theorem breakChains_consecutive : ∀ chain ∈ breakChains entries,
    chain.IsChain fun piece next => next.pageOrdinal = piece.pageOrdinal + 1 :=
  linkPairs_isChain fun _ agreed => agreedBreaks_consecutive agreed

/-- No act is twice a piece, neither in one chain nor in two. -/
theorem breakChains_nodup : (breakChains entries).flatten.Nodup := by
  cases last : (agreedBreaks entries).getLast? with
  | none =>
      rw [breakChains, List.getLast?_eq_none_iff.mp last]
      exact List.nodup_nil
  | some pair =>
      refine (linkPairs_rising Entry.pageOrdinal ?_ ?_ pair last).distinct
      · intro agreed member
        rw [agreedBreaks_consecutive member]
        omega
      · refine agreedBreaks_pairwise.imp_of_mem ?_
        intro agreed later member _ before
        rw [agreedBreaks_consecutive member]
        omega

theorem breakChains_neighbours :
    (breakChains entries).flatMap neighbours = agreedBreaks entries :=
  linkPairs_neighbours _

theorem countP_mem_flatten {α : Type} [DecidableEq α] {lists : List (List α)}
    (distinct : lists.flatten.Nodup) {element : α} (member : element ∈ lists.flatten) :
    lists.countP (element ∈ ·) = 1 := by
  induction lists with
  | nil => exact absurd member List.not_mem_nil
  | cons first lists ih =>
      rw [List.flatten_cons, List.nodup_append] at distinct
      rw [List.countP_cons]
      by_cases inside : element ∈ first
      · have absent : lists.countP (element ∈ ·) = 0 := by
          rw [List.countP_eq_zero]
          intro other listed
          rw [decide_eq_true_eq]
          intro again
          exact distinct.2.2 element inside element (List.mem_flatten.mpr ⟨other, listed, again⟩) rfl
        simp [absent, inside]
      · rw [List.flatten_cons, List.mem_append] at member
        simp [ih distinct.2.1 (member.resolve_left inside), inside]

/-- Every piece of a chain is an act of its page. -/
theorem mem_pageActs_of_piece {piece : Entry} (member : piece ∈ (breakChains entries).flatten) :
    piece ∈ entries ∧ isActEntry piece = true := by
  obtain ⟨chain, listed, inside⟩ := List.mem_flatten.mp member
  obtain ⟨pair, joined, side⟩ :=
    exists_mem_neighbours (linkPairs_length _ chain listed) inside
  have agreed : pair ∈ agreedBreaks entries := by
    rw [← breakChains_neighbours]
    exact List.mem_flatMap_of_mem listed joined
  obtain ⟨left, first, second⟩ := agreedBreaks_mem agreed
  rcases side with rfl | rfl
  · exact ⟨(mem_pageActs.mp first).1, (mem_pageActs.mp first).2.1⟩
  · exact ⟨(mem_pageActs.mp second).1, (mem_pageActs.mp second).2.1⟩

/-- A break lies in exactly one chain. -/
theorem breakChains_unique {pair : Entry × Entry} (agreed : pair ∈ agreedBreaks entries) :
    ∃! chain, chain ∈ breakChains entries ∧ pair ∈ neighbours chain := by
  rw [← breakChains_neighbours] at agreed
  obtain ⟨chain, listed, joined⟩ := List.mem_flatMap.mp agreed
  refine ⟨chain, ⟨listed, joined⟩, ?_⟩
  rintro other ⟨alsoListed, alsoJoined⟩
  by_contra different
  have once : (breakChains entries).flatten.Nodup := breakChains_nodup
  have apart := (List.nodup_flatten.mp once).2
  have symmetric : Std.Symm (@List.Disjoint Entry) := ⟨fun _ _ => List.Disjoint.symm⟩
  have disjoint := apart.forall alsoListed listed different
  exact disjoint (mem_of_mem_neighbours alsoJoined).1 (mem_of_mem_neighbours joined).1

/-- Two whole-page acts with one key are one act. -/
theorem eq_of_actKey_eq (numbered : Numbered entries) {act other : Entry}
    (inside : act ∈ wholePageActs entries) (alsoInside : other ∈ wholePageActs entries)
    (same : act.actKey = other.actKey) : act = other := by
  have numbers (entry : Entry) (member : entry ∈ wholePageActs entries) :
      ∃ number, entry.n = some number := by
    have isAct := (List.mem_filter.mp member).2
    simp only [isActEntry, decide_eq_true_eq] at isAct
    exact Option.ne_none_iff_exists'.mp isAct.1
  obtain ⟨number, held⟩ := numbers act inside
  obtain ⟨otherNumber, otherHeld⟩ := numbers other alsoInside
  rw [act.keyed number held, other.keyed otherNumber otherHeld] at same
  obtain ⟨page, equal⟩ := entryKey_inj same
  apply List.inj_on_of_nodup_map numbered inside alsoInside
  rw [held, otherHeld, page, equal]

/-- A whole-page act that is a piece is no call's subject; any other is its own page's subject. -/
theorem reconstructionPlan_act (numbered : Numbered entries) {calls : List Call}
    (planned : reconstructionPlan entries modeOn true = .ok calls) {act : Entry}
    (member : act ∈ wholePageActs entries) :
    ((∃ call ∈ calls, call.pageOrdinal = act.pageOrdinal ∧ act.actKey ∈ call.subjects) ∧
      ∀ call ∈ calls, ∀ chain ∈ call.chains, act.actKey ∉ chain) ∨
    ((∀ call ∈ calls, act.actKey ∉ call.subjects) ∧
      (calls.flatMap Call.chains).countP (act.actKey ∈ ·) = 1) := by
  have chains : planChains entries true = breakChains (wholePageEntries entries) := rfl
  have asked := reconstructionPlan_chains planned
  rw [chains] at asked
  by_cases piece : act ∈ (breakChains (wholePageEntries entries)).flatten
  · right
    constructor
    · intro call listed subject
      rw [reconstructionPlan_subjects planned listed, chains, subjectsOf, List.mem_filter] at subject
      exact of_decide_eq_true subject.2 (List.mem_map_of_mem piece)
    · rw [asked.countP_eq]
      apply countP_mem_flatten
      · rw [← List.map_flatten]
        refine breakChains_nodup.map_on ?_
        intro first inFirst second inSecond same
        obtain ⟨firstRead, firstAct⟩ := mem_pageActs_of_piece inFirst
        obtain ⟨secondRead, secondAct⟩ := mem_pageActs_of_piece inSecond
        exact eq_of_actKey_eq numbered (List.mem_filter.mpr ⟨firstRead, firstAct⟩)
          (List.mem_filter.mpr ⟨secondRead, secondAct⟩) same
      · rw [← List.map_flatten]
        exact List.mem_map_of_mem piece
  · have apart : act.actKey ∉ (breakChains (wholePageEntries entries)).flatten.map Entry.actKey := by
      intro same
      obtain ⟨other, inside, equal⟩ := List.mem_map.mp same
      obtain ⟨read, isAct⟩ := mem_pageActs_of_piece inside
      have one := eq_of_actKey_eq numbered (List.mem_filter.mpr ⟨read, isAct⟩) member equal
      exact piece (one ▸ inside)
    left
    constructor
    · apply reconstructionPlan_asks planned
      rw [chains, subjectsOf, List.mem_filter]
      refine ⟨List.mem_map_of_mem ?_, decide_eq_true apart⟩
      obtain ⟨read, isAct⟩ := List.mem_filter.mp member
      exact mem_pageActs.mpr ⟨(List.mem_filter.mp read).1, isAct, rfl⟩
    · intro call listed chain joined inside
      have inAll : chain ∈ calls.flatMap Call.chains := List.mem_flatMap_of_mem listed joined
      rw [asked.mem_iff] at inAll
      obtain ⟨pieces, chained, rfl⟩ := List.mem_map.mp inAll
      apply apart
      rw [List.map_flatten]
      exact List.mem_flatten.mpr ⟨_, List.mem_map_of_mem chained, inside⟩

/-- The breaks of some pages are looked for from the page before the first to the last. -/
theorem pageBreaks_range (entries : List Entry) {pages : List ℤ} (held : pages ≠ []) :
    ∃ first last, pageBreaks pages entries = .ok ((intRange (first - 1) (last + 1)).filterMap
        (pageBreak (pageEdges (wholePageEntries entries)))) ∧
      ∀ page ∈ pages, first ≤ page ∧ page ≤ last := by
  have ordered := sortBy_pairwise id pages
  have listed (page : ℤ) : page ∈ sortBy id pages ↔ page ∈ pages := mem_sortBy id
  cases sorted : sortBy id pages with
  | nil =>
      have empty := (sortBy_perm id pages).symm
      rw [sorted] at empty
      exact absurd empty.eq_nil held
  | cons first rest =>
      obtain ⟨last, ends⟩ : ∃ last, (first :: rest).getLast? = some last :=
        ⟨_, List.getLast?_eq_some_getLast (by simp)⟩
      rw [sorted] at ordered listed
      obtain ⟨before, shape⟩ := List.getLast?_eq_some_iff.mp ends
      refine ⟨first, last, by simp only [pageBreaks, sorted, List.head?_cons, ends], ?_⟩
      intro page member
      have inside := (listed page).mpr member
      constructor
      · rcases List.mem_cons.mp inside with rfl | later
        · exact le_rfl
        · exact (List.pairwise_cons.mp ordered).1 page later
      · rw [shape] at ordered inside
        rcases List.mem_append.mp inside with earlier | final
        · exact (List.pairwise_append.mp ordered).2.2 page earlier last (.head _)
        · exact (List.mem_singleton.mp final).le

/-- The agreed links of the pages' breaks are the breaks both sides flag, in page order. -/
theorem pageBreaks_agreed {pages : List ℤ} (held : pages ≠ [])
    (within : ∀ act ∈ wholePageActs entries, act.pageOrdinal ∈ pages) :
    ∃ links, pageBreaks pages entries = .ok links ∧
      (links.filter ContinuationLink.agreed).map ContinuationLink.sides =
        (agreedBreaks (wholePageEntries entries)).map breakSides := by
  obtain ⟨first, last, found, bounds⟩ := pageBreaks_range entries held
  refine ⟨_, found, ?_⟩
  have inside : ∀ left ∈ (pageEdges (wholePageEntries entries)).map Prod.fst,
      first - 1 ≤ left ∧ left < last + 1 := by
    intro left member
    obtain ⟨edge, present⟩ := Option.isSome_iff_exists.mp (isSome_lookup_iff.mpr member)
    obtain ⟨act, isAct, page⟩ := mem_pageActs.mp (mem_of_lookup_pageEdges present).1
    have between := bounds _ (within _ (List.mem_filter.mpr ⟨act, isAct⟩))
    omega
  rw [agreedBreaks_eq_intRange inside, List.filter_filterMap, List.map_filterMap,
    List.map_filterMap]
  exact List.filterMap_congr fun left _ => pageBreak_agreed left

/-- The stages agree on which acts cross a page break: the agreed links are the breaks both sides
flag, the chains join exactly those, and a plan asks about every act once. -/
theorem breaks_agree (entries : List Entry) (numbered : Numbered entries) :
    (∀ pages : List ℤ, pages ≠ [] →
      (∀ act ∈ wholePageActs entries, act.pageOrdinal ∈ pages) →
      ∃ links, pageBreaks pages entries = .ok links ∧
        (links.filter ContinuationLink.agreed).map ContinuationLink.sides =
          (agreedBreaks (wholePageEntries entries)).map breakSides) ∧
    (agreedBreaks (wholePageEntries entries)).Pairwise (fun pair later =>
      pair.1.pageOrdinal < later.1.pageOrdinal) ∧
    (breakChains (wholePageEntries entries)).flatMap neighbours =
      agreedBreaks (wholePageEntries entries) ∧
    (∀ pair ∈ agreedBreaks (wholePageEntries entries), ∃! chain,
      chain ∈ breakChains (wholePageEntries entries) ∧ pair ∈ neighbours chain) ∧
    (∀ chain ∈ breakChains (wholePageEntries entries), 2 ≤ chain.length ∧
      chain.IsChain fun piece next => next.pageOrdinal = piece.pageOrdinal + 1) ∧
    (breakChains (wholePageEntries entries)).flatten.Nodup ∧
    ((∀ entry ∈ entries, entry.readingAttempt ≠ some reaskReading) →
      ∃ calls, reconstructionPlan entries modeOn true = .ok calls) ∧
    ∀ calls, reconstructionPlan entries modeOn true = .ok calls →
      ∀ act ∈ wholePageActs entries,
        ((∃ call ∈ calls, call.pageOrdinal = act.pageOrdinal ∧ act.actKey ∈ call.subjects) ∧
          ∀ call ∈ calls, ∀ chain ∈ call.chains, act.actKey ∉ chain) ∨
        ((∀ call ∈ calls, act.actKey ∉ call.subjects) ∧
          (calls.flatMap Call.chains).countP (act.actKey ∈ ·) = 1) := by
  refine ⟨?_, agreedBreaks_pairwise, breakChains_neighbours, ?_, ?_, breakChains_nodup, ?_, ?_⟩
  · intro pages held within
    exact pageBreaks_agreed held within
  · intro pair agreed
    exact breakChains_unique agreed
  · intro chain listed
    exact ⟨linkPairs_length _ chain listed, breakChains_consecutive chain listed⟩
  · intro firstRead
    exact reconstructionPlan_ok firstRead true
  · intro calls planned act member
    exact reconstructionPlan_act numbered planned member

end Agreement

/-- An act of a page, read on the page's first reading. -/
def firstReadAct (ordinal n : ℤ) (fromPrevious toNext : Bool) : Entry where
  actId := some (entryKey ordinal n)
  actKey := entryKey ordinal n
  pageOrdinal := ordinal
  n := some n
  kind := some .act
  continuesFromPreviousPage := some fromPrevious
  continuesToNextPage := some toNext
  readingAttempt := some firstReading
  keyed := by
    rintro number ⟨⟩
    rfl

/-- An act across three pages, and a second one that starts on the last of them. -/
def threePages : List Entry :=
  [firstReadAct 1 1 false true, firstReadAct 2 1 true true, firstReadAct 3 1 true false,
    firstReadAct 3 2 false true]

theorem breaks_agree_threePages :
    (breakChains (wholePageEntries threePages)).flatMap neighbours =
        agreedBreaks (wholePageEntries threePages) ∧
      (breakChains (wholePageEntries threePages)).map List.length = [3] :=
  ⟨(breaks_agree threePages (by decide +kernel)).2.2.1, by decide +kernel⟩

end Verbatus.PageEdges
