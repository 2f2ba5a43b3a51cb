import Verbatus.PageAccounting.Pixels
import Verbatus.PagePath.ActIdentity

namespace Verbatus.PageAccounting

open Library Library.Checked Ink PageReading

section Pairs

variable {α β : Type}

/-- Elements that make nothing of any pair may be left out of the pairs. -/
theorem filterMap_pairsOf_filter {keep : α → Bool} {find : α × α → Option β} (elements : List α)
    (skips : ∀ pair, keep pair.1 = false ∨ keep pair.2 = false → find pair = none) :
    (pairsOf (elements.filter keep)).filterMap find = (pairsOf elements).filterMap find := by
  induction elements with
  | nil => rfl
  | cons element elements ih =>
      rw [pairsOf, List.filterMap_append, ← ih, List.filterMap_map]
      cases kept : keep element with
      | true =>
          rw [List.filter_cons_of_pos kept, pairsOf, List.filterMap_append, List.filterMap_map,
            List.filterMap_filter]
          congr 1
          apply List.filterMap_congr
          intro other _
          cases second : keep other with
          | true => rfl
          | false => exact (skips (element, other) (.inr second)).symm
      | false =>
          have nothing : (elements.filterMap (find ∘ (element, ·))) = [] := by
            rw [List.filterMap_eq_nil_iff]
            exact fun other _ => skips (element, other) (.inl kept)
          rw [List.filter_cons_of_neg (by simp [kept]), nothing, List.nil_append]

end Pairs

section Compared

/-- The shared units that place an entry have the boxes the candidates give them. -/
def PlacedBy (candidates : Candidates) (entry : ReadEntry) : Prop :=
  ∀ row ∈ entry.placingShared, candidates.get? row.1 = some (some row.2)

variable {candidates : Candidates} {entry other : ReadEntry}

theorem placeEntry_placedBy (policy : Option PageAccountingPolicy) (shared : String → Bool)
    (raw : AnswerEntry) (citedIds : List String) :
    PlacedBy candidates (placeEntry candidates policy shared raw citedIds) := by
  intro row member
  obtain ⟨identifier, -, made⟩ := List.mem_filterMap.mp member
  obtain ⟨box, placed, rfl⟩ := Option.map_eq_some_iff.mp made
  exact Option.join_eq_some_iff.mp placed

/-- The entries of a read answer are placed by its candidates. -/
theorem validateAnswer_placedBy {policy : Option PageAccountingPolicy} {answer : Python.Json}
    {read : ReadAnswer} (validated : validateAnswer candidates policy answer = .ok read) :
    ∀ entry ∈ read.entries, PlacedBy candidates entry := by
  unfold validateAnswer at validated
  split_ifs at validated
  · cases validated
    exact fun _ absent => nomatch absent
  · obtain ⟨cited, -, validated⟩ := bind_eq_ok.mp validated
    obtain ⟨rows, -, validated⟩ := bind_eq_ok.mp validated
    cases validated
    intro entry member
    obtain ⟨pair, -, rfl⟩ := List.mem_map.mp member
    exact placeEntry_placedBy _ _ _ _

theorem rowSharedUnits_placed (placed : PlacedBy candidates entry) :
    ∀ row ∈ rowSharedUnits entry, candidates.get? row.1 = some (some row.2) := by
  intro row member
  rw [rowSharedUnits] at member
  split at member
  · exact placed row member
  · cases member

/-- The boxes dropped from a comparison: those of the units both entries share. -/
theorem mem_dropped (placed : PlacedBy candidates entry) (also : PlacedBy candidates other)
    (box : Bounds) :
    box ∈ ((rowSharedUnits entry).filter fun row =>
        row.1 ∈ (rowSharedUnits other).map Prod.fst).map Prod.snd ↔
      ∃ identifier, (identifier, box) ∈ rowSharedUnits entry ∧
        (identifier, box) ∈ rowSharedUnits other := by
  rw [List.mem_map]
  constructor
  · rintro ⟨⟨identifier, _⟩, member, rfl⟩
    rw [List.mem_filter, decide_eq_true_eq] at member
    obtain ⟨⟨_, given⟩, listed, rfl⟩ := List.mem_map.mp member.2
    have first := rowSharedUnits_placed placed _ member.1
    have second := rowSharedUnits_placed also _ listed
    dsimp only at first second
    rw [first, Option.some.injEq, Option.some.injEq] at second
    subst second
    exact ⟨_, member.1, listed⟩
  · rintro ⟨identifier, first, second⟩
    refine ⟨_, List.mem_filter.mpr ⟨first, decide_eq_true ?_⟩, rfl⟩
    exact List.mem_map_of_mem second

/-- Two entries are compared alike in either order. -/
theorem comparedRegions_swap (placed : PlacedBy candidates entry)
    (also : PlacedBy candidates other) :
    comparedRegions other entry = (comparedRegions entry other).swap := by
  have same (box : Bounds) := (mem_dropped also placed box).trans
    ((exists_congr fun _ => and_comm).trans (mem_dropped placed also box).symm)
  rw [comparedRegions, comparedRegions, Prod.swap]
  simp only [same]

end Compared

section Findings

variable (policy : PageAccountingPolicy)

/-- What the duplicates rule finds of two entries, from the pixels the compared regions cover. -/
theorem duplicateRegion_pixels (entry other : ReadEntry) :
    duplicateRegion policy (entry, other) =
      let region := regionPixels (comparedRegions entry other).1
      let second := regionPixels (comparedRegions entry other).2
      let shared : ℤ := (region ∩ second).card
      let smaller : ℤ := min (region.card : ℤ) second.card
      if shared * basisPoints > policy.maxSharedShareBp * smaller then
        some ⟨(min entry.n other.n, max entry.n other.n), shared, smaller⟩
      else none := by
  rw [duplicateRegion]
  dsimp only
  rw [sharedArea_card, regionArea_card, regionArea_card]
  split
  · next unclaimed =>
    rw [if_neg]
    rcases unclaimed with none | none
    · simp [none, regionPixels, covered]
    · simp [none, regionPixels, covered]
  · rfl

/-- Two pairs of entries that claim the same pixels under the same numbers. -/
def SameClaim (pair other : ReadEntry × ReadEntry) : Prop :=
  pair.1.n = other.1.n ∧ pair.2.n = other.2.n ∧
    regionPixels (comparedRegions pair.1 pair.2).1 =
      regionPixels (comparedRegions other.1 other.2).1 ∧
    regionPixels (comparedRegions pair.1 pair.2).2 =
      regionPixels (comparedRegions other.1 other.2).2

theorem duplicateRegion_congr {pair other : ReadEntry × ReadEntry} (same : SameClaim pair other) :
    duplicateRegion policy pair = duplicateRegion policy other := by
  obtain ⟨first, second, region, claimed⟩ := same
  rw [← Prod.mk.eta (p := pair), ← Prod.mk.eta (p := other), duplicateRegion_pixels,
    duplicateRegion_pixels, first, second, region, claimed]

theorem duplicateRegion_swap {candidates : Candidates} {entry other : ReadEntry}
    (placed : PlacedBy candidates entry) (also : PlacedBy candidates other) :
    duplicateRegion policy (other, entry) = duplicateRegion policy (entry, other) := by
  rw [duplicateRegion_pixels, duplicateRegion_pixels, comparedRegions_swap placed also]
  dsimp only [Prod.swap]
  rw [Finset.inter_comm, min_comm ((regionPixels (comparedRegions entry other).2).card : ℤ),
    min_comm other.n, max_comm other.n]

/-- An entry without a region is no duplicate of any. -/
theorem duplicateRegions_eq (entries : List ReadEntry) : duplicateRegions entries policy =
    sortBy (fun finding => toLex finding.ns)
      ((pairsOf entries).filterMap (duplicateRegion policy)) := by
  rw [duplicateRegions, filterMap_pairsOf_filter]
  rintro ⟨entry, other⟩ unplaced
  rw [duplicateRegion]
  dsimp only
  rw [if_pos]
  simp only [decide_eq_false_iff_not, not_not] at unplaced
  rcases unplaced with none | none
  · exact .inl (by rw [comparedRegions, none]; rfl)
  · exact .inr (by rw [comparedRegions, none]; rfl)

theorem duplicateRegions_congr {entries others : List ReadEntry}
    (same : List.Forall₂ SameClaim (pairsOf entries) (pairsOf others)) :
    duplicateRegions entries policy = duplicateRegions others policy := by
  rw [duplicateRegions_eq, duplicateRegions_eq]
  generalize pairsOf entries = pairs at same
  generalize pairsOf others = changed at same
  congr 1
  induction same with
  | nil => rfl
  | cons first rest ih =>
      rw [List.filterMap_cons, List.filterMap_cons, duplicateRegion_congr policy first, ih]

theorem duplicateRegions_swap {candidates : Candidates} {entry other : ReadEntry}
    (placed : PlacedBy candidates entry) (also : PlacedBy candidates other) :
    duplicateRegions [other, entry] policy = duplicateRegions [entry, other] policy := by
  rw [duplicateRegions_eq, duplicateRegions_eq]
  simp only [pairsOf, List.map_cons, List.map_nil, List.append_nil, List.filterMap_cons,
    List.filterMap_nil, duplicateRegion_swap policy placed also]

end Findings

section Geometry

/-- Regions are measured pixel by pixel, and every verdict on them rests on their pixels. -/
theorem regionGeometry_exact :
    (∀ box regions, areaInside box regions =
      ((pixels (corners box)).filter fun pixel => pixel ∈ regionPixels regions).card) ∧
    (∀ regions, regionArea regions = (regionPixels regions).card) ∧
    (∀ region other, sharedArea region other = (regionPixels region ∩ regionPixels other).card) ∧
    (∀ box regions others policy, regionPixels regions = regionPixels others →
      isInside box regions policy = isInside box others policy) ∧
    (∀ box regions others policy, (∀ region ∈ regions, region ∈ others) →
      isInside box regions policy = true → isInside box others policy = true) ∧
    (∀ policy entries others, List.Forall₂ SameClaim (pairsOf entries) (pairsOf others) →
      duplicateRegions entries policy = duplicateRegions others policy) ∧
    ∀ policy candidates entry other, PlacedBy candidates entry → PlacedBy candidates other →
      duplicateRegions [other, entry] policy = duplicateRegions [entry, other] policy := by
  refine ⟨areaInside_card, regionArea_card, sharedArea_card,
    fun box _ _ policy => isInside_congr box policy, ?_,
    fun policy _ _ => duplicateRegions_congr policy,
    fun policy _ _ _ => duplicateRegions_swap policy⟩
  intro box regions others policy listed
  apply isInside_mono
  intro pixel inside
  obtain ⟨region, member, here⟩ := mem_regionPixels.mp inside
  exact mem_regionPixels.mpr ⟨region, listed region member, here⟩

/-- A row of a table that a witness gave as one unit. -/
def tableRow (n : ℤ) (boxes : List Bounds) : ReadEntry where
  n := n
  kind := .other
  entryKind := .tableRow
  placingShared := [("A1", ⟨0, 0, 10, 10⟩)]
  label := none
  cites := []
  citedIds := ["A1"]
  regionBoxesPx := boxes
  unionBoxPx := unionBox boxes
  text := "row"
  continuesFromPreviousPage := false
  continuesToNextPage := false

def tableCandidates : Candidates := candidatesOf [("A1", some ⟨0, 0, 10, 10⟩)]

theorem tableRow_placedBy (n : ℤ) (boxes : List Bounds) :
    PlacedBy tableCandidates (tableRow n boxes) := by
  intro row member
  rw [List.mem_singleton.mp member]
  rfl

theorem regionGeometry_exact_rows :
    isInside ⟨0, 0, 4, 4⟩ [⟨0, 0, 4, 2⟩, ⟨0, 2, 9, 9⟩] PagePath.leastPolicy = true ∧
      duplicateRegions [tableRow 2 [⟨0, 0, 10, 10⟩, ⟨0, 0, 4, 2⟩], tableRow 1 [⟨0, 0, 4, 2⟩]]
          PagePath.leastPolicy =
        duplicateRegions [tableRow 1 [⟨0, 0, 4, 2⟩], tableRow 2 [⟨0, 0, 10, 10⟩, ⟨0, 0, 4, 2⟩]]
          PagePath.leastPolicy := by
  obtain ⟨-, -, -, -, mono, -, swap⟩ := regionGeometry_exact
  refine ⟨mono _ [⟨0, 0, 4, 2⟩] _ _ (by decide) (by decide +kernel), ?_⟩
  exact swap _ tableCandidates _ _ (tableRow_placedBy 1 _) (tableRow_placedBy 2 _)

/-- Two rows of one table claim one line, or nothing, by boxes that cover the same pixels. -/
theorem duplicateRegions_boxes :
    ¬ ∀ policy entries others, List.Forall₂ (fun entry other : ReadEntry =>
        other = { entry with regionBoxesPx := other.regionBoxesPx } ∧
          regionPixels entry.regionBoxesPx = regionPixels other.regionBoxesPx) entries others →
      duplicateRegions entries policy = duplicateRegions others policy := by
  intro claimed
  have within : regionPixels [⟨0, 0, 10, 10⟩] = regionPixels [⟨0, 0, 10, 10⟩, ⟨0, 0, 4, 2⟩] := by
    ext pixel
    simp only [mem_regionPixels, List.mem_cons, List.not_mem_nil, or_false, exists_eq_or_imp,
      exists_eq_left, mem_pixels, corners]
    omega
  have same := claimed PagePath.leastPolicy
    [{ tableRow 1 [⟨0, 0, 10, 10⟩] with unionBoxPx := some ⟨0, 0, 10, 10⟩ },
      { tableRow 2 [⟨0, 0, 10, 10⟩] with unionBoxPx := some ⟨0, 0, 10, 10⟩ }]
    [{ tableRow 1 [⟨0, 0, 10, 10⟩, ⟨0, 0, 4, 2⟩] with unionBoxPx := some ⟨0, 0, 10, 10⟩ },
      { tableRow 2 [⟨0, 0, 10, 10⟩, ⟨0, 0, 4, 2⟩] with unionBoxPx := some ⟨0, 0, 10, 10⟩ }]
    (.cons ⟨rfl, within⟩ (.cons ⟨rfl, within⟩ .nil))
  have lengths := congrArg List.length same
  exact absurd lengths (by decide +kernel)

end Geometry

end Verbatus.PageAccounting
