import Verbatus.PageFeed.Ids

namespace Verbatus.PageFeed

open Library Library.Checked Refusal Python CodePoint Canonical Ink PageAccounting
open Identities (str)

section Numbered

/-- A box of positive size that starts on the page. -/
abbrev Placed (box : Bounds) : Prop := 0 ≤ box.x ∧ 0 ≤ box.y ∧ 0 < box.w ∧ 0 < box.h

/-- The numbered detections of a letter, each in its box. -/
structure Detected (letter : Char) (detections : List Detection) : Prop where
  ids : detections.map Detection.id = (List.range' 1 detections.length).map (idOf letter)
  small : detections.length ≤ maxLength
  boxes : ∀ detection ∈ detections, Placed detection.boxPx

/-- A row whose units are numbered and in their boxes, and are none where it did not read. -/
structure Row.Numbered (row : Row) : Prop where
  ids : row.units.map ShownUnit.id = (List.range' 1 row.units.length).map (idOf row.letter)
  small : row.units.length ≤ maxLength
  boxes : ∀ unit ∈ row.units, ∀ box, unit.boxPx = some box → Placed box
  silent : row.outcome ≠ readOutcome → row.units = []

/-- A feed whose every id is a letter of its own and a number. -/
structure FeedRecord.Numbered (feed : FeedRecord) : Prop where
  letters : (feed.witnesses.map Row.letter).Nodup
  allowed : ∀ row ∈ feed.witnesses, row.letter ∈ witnessLetters
  rows : ∀ row ∈ feed.witnesses, row.Numbered
  lines : Detected 'L' feed.lines
  blocks : Detected 'S' feed.blocks

theorem detected_nil (letter : Char) : Detected letter [] :=
  ⟨rfl, Nat.zero_le _, fun _ member => nomatch member⟩

theorem checkedBox_placed {value : JsonValue} {size : PageSize} {what : String} {box : Bounds}
    (checked : checkedBox value size what = .ok box) : Placed box := by
  unfold checkedBox at checked
  split at checked
  · obtain ⟨⟨left, top, wide, tall, -, -⟩, checked⟩ := require_bind_eq_ok.mp checked
    cases checked
    exact ⟨left, top, wide, tall⟩
  · cases checked

/-- What a traversal of numbered elements gives has their numbers. -/
theorem numbered_ids {α β : Type} {elements : List α} {results : List β}
    {step : α × ℕ → Except Refusal β} {id : β → String} (letter : Char)
    (made : (elements.zipIdx 1).mapM step = .ok results)
    (named : ∀ entry result, step entry = .ok result → id result = idOf letter entry.2) :
    results.map id = (List.range' 1 results.length).map (idOf letter) ∧
      results.length = elements.length := by
  have count : results.length = elements.length := by
    rw [← (mapM_eq_ok.mp made).length_eq, List.length_zipIdx]
  have ids := mapM_map_eq made named
  refine ⟨?_, count⟩
  rw [ids, count, ← List.zipIdx_map_snd 1 elements, List.map_map]
  rfl

theorem shownUnit_named {letter : Char} {boxes : Bool} {size : PageSize} {entry : JsonValue × ℕ}
    {unit : ShownUnit} (made : shownUnit letter boxes size entry = .ok unit) :
    unit.id = idOf letter entry.2 ∧ ∀ box, unit.boxPx = some box → Placed box := by
  unfold shownUnit at made
  split at made
  · obtain ⟨-, made⟩ := require_bind_eq_ok.mp made
    obtain ⟨ordinal, -, made⟩ := bind_eq_ok.mp made
    obtain ⟨label, -, made⟩ := bind_eq_ok.mp made
    obtain ⟨text, -, made⟩ := bind_eq_ok.mp made
    obtain ⟨given, placed, made⟩ := bind_eq_ok.mp made
    cases made
    refine ⟨rfl, fun box same => ?_⟩
    unfold unitBox at placed
    split at placed
    · cases placed
      cases same
    · obtain ⟨found, checked, image⟩ := map_eq_ok.mp placed
      have equal : found = box := Option.some.inj (image.trans same)
      rw [equal] at checked
      exact checkedBox_placed checked
  · cases made

theorem readList_eq_ok {value : JsonValue} {message : String} {items : List JsonValue}
    (read : readList value message = .ok items) : value = .list items := by
  cases value with
  | list given =>
      cases read
      rfl
  | null | bool | int | float | str | object => cases read

theorem witnessRow_numbered {switches : Switches} {regime : Regime} {size : PageSize}
    {entry : Char × Witness} {row : Row} (made : witnessRow switches regime size entry = .ok row) :
    row.letter = entry.1 ∧ row.label = entry.2.label ∧ row.outcome = entry.2.outcome ∧
      row.Numbered := by
  obtain ⟨units, unitsRead, made⟩ := bind_eq_ok.mp made
  obtain ⟨findings, -, made⟩ := bind_eq_ok.mp made
  obtain ⟨-, made⟩ := require_bind_eq_ok.mp made
  obtain ⟨silent, made⟩ := require_bind_eq_ok.mp made
  obtain ⟨shown, traversed, made⟩ := bind_eq_ok.mp made
  obtain ⟨reference, -, made⟩ := bind_eq_ok.mp made
  split at made
  · cases made
  · cases made
    obtain ⟨ids, count⟩ := numbered_ids entry.1 traversed fun unit result one => (shownUnit_named one).1
    refine ⟨rfl, rfl, rfl, ids, ?_, ?_, ?_⟩
    · exact count ▸ entry.2.sized units (readList_eq_ok unitsRead)
    · intro unit member box given
      obtain ⟨source, -, one⟩ := mapM_mem_right traversed member
      exact (shownUnit_named one).2 box given
    · intro other
      rw [(silent other).1] at traversed
      cases traversed
      rfl

theorem shownLine_named {size : PageSize} {entry : JsonValue × ℕ} {line : Detection}
    (made : shownLine size entry = .ok line) : line.id = idOf 'L' entry.2 ∧ Placed line.boxPx := by
  unfold shownLine at made
  split at made
  · obtain ⟨-, made⟩ := require_bind_eq_ok.mp made
    obtain ⟨box, placed, made⟩ := bind_eq_ok.mp made
    obtain ⟨points, -, made⟩ := bind_eq_ok.mp made
    obtain ⟨reference, -, made⟩ := bind_eq_ok.mp made
    cases made
    exact ⟨rfl, checkedBox_placed placed⟩
  · cases made

theorem shownBlock_named {size : PageSize} {entry : Block × ℕ} {block : Detection}
    (made : shownBlock size entry = .ok block) : block.id = idOf 'S' entry.2 ∧ Placed block.boxPx := by
  obtain ⟨box, placed, made⟩ := bind_eq_ok.mp made
  obtain ⟨points, -, made⟩ := bind_eq_ok.mp made
  obtain ⟨reference, -, made⟩ := bind_eq_ok.mp made
  cases made
  exact ⟨rfl, checkedBox_placed placed⟩

/-- Detections made of numbered rows are numbered. -/
theorem detected_of_made {α : Type} {letter : Char} {elements : List α} {shown : List Detection}
    {step : α × ℕ → Except Refusal Detection} (made : (elements.zipIdx 1).mapM step = .ok shown)
    (small : elements.length ≤ maxLength)
    (named : ∀ entry result, step entry = .ok result →
      result.id = idOf letter entry.2 ∧ Placed result.boxPx) : Detected letter shown := by
  obtain ⟨ids, count⟩ := numbered_ids letter made fun entry result one => (named entry result one).1
  refine ⟨ids, count ▸ small, ?_⟩
  intro detection member
  obtain ⟨entry, -, one⟩ := mapM_mem_right made member
  exact (named entry detection one).2

theorem switched_sized {on : Bool} {value : JsonValue} (sized : Sized value) {message : String}
    {items : List JsonValue} (read : readList (switched on value) message = .ok items) :
    items.length ≤ maxLength := by
  have listed := readList_eq_ok read
  cases on with
  | true => exact sized items listed
  | false =>
      cases listed
      exact Nat.zero_le _

theorem suryaShown_detected {surya : SuryaInput} {switches : Switches} {size : PageSize}
    {shown : Option Surya} (made : suryaShown surya switches size = .ok shown) :
    Detected 'L' ((shown.map Surya.lines).getD []) ∧
      Detected 'S' ((shown.map Surya.blocks).getD []) := by
  unfold suryaShown at made
  split_ifs at made
  · cases made
    exact ⟨detected_nil 'L', detected_nil 'S'⟩
  · cases surya with
    | missing => cases made
    | absent =>
        cases made
        exact ⟨detected_nil 'L', detected_nil 'S'⟩
    | census given =>
        obtain ⟨found, steps, same⟩ := map_eq_ok.mp made
        obtain ⟨⟨head, reason⟩, -, steps⟩ := bind_eq_ok.mp steps
        obtain ⟨lines, linesRead, steps⟩ := bind_eq_ok.mp steps
        obtain ⟨blocks, blocksRead, steps⟩ := bind_eq_ok.mp steps
        obtain ⟨shownLines, linesMade, steps⟩ := bind_eq_ok.mp steps
        obtain ⟨placed, blocksMade, steps⟩ := bind_eq_ok.mp steps
        obtain ⟨reference, -, steps⟩ := bind_eq_ok.mp steps
        rw [← same, ← Except.ok.inj steps]
        refine ⟨detected_of_made linesMade (switched_sized given.sizedLines linesRead)
          fun entry result one => shownLine_named one, ?_⟩
        obtain ⟨parsed, parsedRead, blocksMade⟩ := bind_eq_ok.mp blocksMade
        obtain ⟨-, blocksMade⟩ := require_bind_eq_ok.mp blocksMade
        refine detected_of_made blocksMade ?_ fun entry result one => shownBlock_named one
        have sorted := (sortBy_perm Block.position parsed).length_eq
        have count := (mapM_eq_ok.mp parsedRead).length_eq
        rw [sorted, ← count]
        exact switched_sized given.sizedBlocks blocksRead

variable {rules : FeedRules} {arguments : Arguments} {switches : Switches} {shown : List Str}
  {rows : List Row} {surya : Option Surya} {result : SealedFeed}

/-- A sealed feed is the feed that was assembled, with its overlay. -/
theorem sealFeed_feed {renderBytes : Option ByteArray} {recipe : Option Str} {feed : FeedRecord}
    (made : sealFeed rules renderBytes recipe feed = .ok result) :
    ∃ overlay, result.feed = { feed with overlay := overlay } := by
  obtain ⟨overlay, -, made⟩ := bind_eq_ok.mp made
  obtain ⟨prompt, -, made⟩ := bind_eq_ok.mp made
  obtain ⟨digest, -, made⟩ := bind_eq_ok.mp made
  cases made
  exact ⟨overlay, rfl⟩

theorem witnessLetters_nodup : witnessLetters.Nodup := by decide

theorem map_fst_zip_sublist {α β : Type} (letters : List α) (others : List β) :
    ((letters.zip others).map Prod.fst).Sublist letters := by
  induction letters generalizing others with
  | nil => exact List.Sublist.refl _
  | cons letter letters ih =>
      cases others with
      | nil => exact List.nil_sublist _
      | cons other others => exact (ih others).cons₂ letter

theorem Assembled.numbered (steps : Assembled rules arguments switches shown rows surya)
    (assembled : assemblePageFeed rules arguments = .ok result) : result.feed.Numbered := by
  rw [steps.eq] at assembled
  obtain ⟨overlay, same⟩ := sealFeed_feed assembled
  have letters : rows.map Row.letter =
      (witnessLetters.zip (orderedWitnesses arguments.witnesses shown)).map Prod.fst :=
    mapM_map_eq steps.rowsMade fun entry row one => (witnessRow_numbered one).1
  have among := map_fst_zip_sublist witnessLetters (orderedWitnesses arguments.witnesses shown)
  have detected := suryaShown_detected steps.suryaMade
  rw [same]
  refine ⟨?_, ?_, ?_, detected.1, detected.2⟩
  · change (rows.map Row.letter).Nodup
    rw [letters]
    exact witnessLetters_nodup.sublist among
  · intro row member
    have listed : row.letter ∈ rows.map Row.letter := List.mem_map_of_mem member
    rw [letters] at listed
    exact among.subset listed
  · intro row member
    obtain ⟨entry, -, one⟩ := mapM_mem_right steps.rowsMade member
    exact (witnessRow_numbered one).2.2.2

end Numbered

section Citable

/-- The feed as the page's accounting reads it. -/
def accountingFeed (feed : FeedRecord) : PageReading.Feed where
  pageId := plainText feed.pageId
  pageOrdinal := feed.pageOrdinal
  pageSize := ⟨feed.pageSize.width, feed.pageSize.height⟩
  witnessUnits := if feed.switches.flat then "flat" else "own"
  witnesses := feed.witnesses.map fun row =>
    { letter := String.singleton row.letter, chair := row.chair.map plainText,
      outcome := some (plainText row.outcome),
      units := row.units.map fun unit =>
        { id := unit.id, boxPx := unit.boxPx, text := plainText unit.text,
          label := unit.label.map plainText } }
  surya := feed.surya.map fun surya =>
    { lines := surya.lines.map fun line => ⟨line.id, line.boxPx, line.label.map plainText⟩
      blocks := surya.blocks.map fun block => ⟨block.id, block.boxPx, block.label.map plainText⟩ }

/-- Every id of a feed, in feed order. -/
def FeedRecord.ids (feed : FeedRecord) : List String :=
  (feed.witnesses.flatMap fun row => row.units.map ShownUnit.id) ++
    (feed.lines ++ feed.blocks).map Detection.id

/-- The letters of a feed, and how many ids each has. -/
def FeedRecord.groups (feed : FeedRecord) : List (Char × ℕ) :=
  (feed.witnesses.map fun row => (row.letter, row.units.length)) ++
    [('L', feed.lines.length), ('S', feed.blocks.length)]

variable {feed : FeedRecord}

theorem FeedRecord.Numbered.ids_eq (numbered : feed.Numbered) : feed.ids = numberedIds feed.groups := by
  rw [FeedRecord.ids, FeedRecord.groups, numberedIds, List.flatMap_append, List.map_append,
    numbered.lines.ids, numbered.blocks.ids, List.flatMap_map]
  congr 1
  · apply List.flatMap_congr
    intro row member
    exact (numbered.rows row member).ids
  · simp

theorem FeedRecord.Numbered.groups_nodup (numbered : feed.Numbered) :
    (feed.groups.map Prod.fst).Nodup := by
  have apart : ∀ letter ∈ feed.witnesses.map Row.letter, letter ≠ 'L' ∧ letter ≠ 'S' := by
    intro letter member
    obtain ⟨row, listed, rfl⟩ := List.mem_map.mp member
    have other := (List.mem_filter.mp (numbered.allowed row listed)).2
    simpa [PageFeed.detectionLetters] using other
  rw [FeedRecord.groups, List.map_append, List.map_map, List.nodup_append]
  refine ⟨numbered.letters, by simp, ?_⟩
  intro letter inRows other inDetections same
  simp only [List.map_cons, List.map_nil, List.mem_cons, List.not_mem_nil, or_false] at inDetections
  have differ := apart letter inRows
  rcases inDetections with rfl | rfl
  · exact differ.1 same
  · exact differ.2 same

theorem FeedRecord.Numbered.groups_upper (numbered : feed.Numbered) :
    ∀ group ∈ feed.groups, group.1.isUpper := by
  have upper : "ABCDEFGHIJKLMNOPQRSTUVWXYZ".toList.all Char.isUpper = true := by simp
  have letters : ∀ letter ∈ witnessLetters, letter.isUpper := fun letter member =>
    List.all_eq_true.mp upper letter (List.mem_filter.mp member).1
  intro group member
  rw [FeedRecord.groups, List.mem_append] at member
  rcases member with member | member
  · obtain ⟨row, listed, rfl⟩ := List.mem_map.mp member
    exact letters _ (numbered.allowed row listed)
  · simp only [List.mem_cons, List.not_mem_nil, or_false] at member
    rcases member with rfl | rfl <;> rfl

theorem FeedRecord.Numbered.groups_small (numbered : feed.Numbered) :
    ∀ group ∈ feed.groups, group.2 ≤ maxLength := by
  intro group member
  rw [FeedRecord.groups, List.mem_append] at member
  rcases member with member | member
  · obtain ⟨row, listed, rfl⟩ := List.mem_map.mp member
    exact (numbered.rows row listed).small
  · simp only [List.mem_cons, List.not_mem_nil, or_false] at member
    rcases member with rfl | rfl
    · exact numbered.lines.small
    · exact numbered.blocks.small

theorem feedItems_accountingFeed (feed : FeedRecord) : feedItems (accountingFeed feed) = feed.ids := by
  unfold feedItems FeedRecord.ids FeedRecord.lines FeedRecord.blocks accountingFeed
  cases feed.surya <;> simp [List.flatMap_map, List.map_map, Function.comp_def]

theorem box_of_placed {value : Bounds} (placed : Placed value) (place : String) :
    PageAccounting.box value place = .ok value := by
  rw [PageAccounting.box, require_bind_of placed]

variable (unicode : UnicodeTables) (policy : PageAccountingPolicy)

/-- The units of a numbered feed are placed under their ids. -/
theorem units_placed (numbered : feed.Numbered) : ∃ rows,
    ((accountingFeed feed).witnesses.flatMap PageReading.FeedWitness.units).mapM
      (unitPlacement unicode policy (accountingFeed feed)) = .ok rows ∧
      rows.map Prod.fst = feed.witnesses.flatMap fun row => row.units.map ShownUnit.id := by
  have each : ∀ unit ∈ (accountingFeed feed).witnesses.flatMap PageReading.FeedWitness.units,
      ∃ placed, unitPlacement unicode policy (accountingFeed feed) unit = .ok placed := by
    intro unit member
    obtain ⟨witness, listed, inside⟩ := List.mem_flatMap.mp member
    obtain ⟨row, rowListed, rfl⟩ := List.mem_map.mp listed
    obtain ⟨source, sourceListed, rfl⟩ := List.mem_map.mp inside
    unfold unitPlacement
    cases given : source.boxPx with
    | none => exact ⟨_, rfl⟩
    | some box =>
        have placed := (numbered.rows row rowListed).boxes source sourceListed box given
        dsimp only
        rw [Option.mapM_some, box_of_placed placed]
        exact ⟨_, rfl⟩
  obtain ⟨rows, traversed⟩ := exists_mapM_ok each
  refine ⟨rows, traversed, ?_⟩
  have kept : ∀ unit row, unitPlacement unicode policy (accountingFeed feed) unit = .ok row →
      row.1 = unit.id := by
    intro unit row one
    obtain ⟨given, -, one⟩ := bind_eq_ok.mp one
    cases one
    rfl
  rw [mapM_map_eq traversed kept]
  simp [accountingFeed, List.flatMap_map, List.map_flatMap, Function.comp_def]

/-- Detections in their boxes are placed as their rule places them. -/
theorem detections_placed {detections : List Detection} {letter : Char}
    (detected : Detected letter detections) (rule : Bounds → Option Bounds) :
    (detections.map fun detection =>
      (⟨detection.id, detection.boxPx, detection.label.map plainText⟩ : PageReading.FeedDetection)).mapM
        (fun detection => do
          let placed ← PageAccounting.box detection.boxPx detection.id
          Except.ok (detection.id, rule placed)) =
      .ok (detections.map fun detection => (detection.id, rule detection.boxPx)) := by
  rw [mapM_eq_ok, List.forall₂_map_left_iff, List.forall₂_map_right_iff, List.forall₂_same]
  intro detection member
  rw [box_of_placed (detected.boxes detection member)]
  rfl

/-- The boxes of a numbered feed are placed under its ids. -/
theorem placementBoxes_ok (numbered : feed.Numbered) : ∃ rows : List (String × Option Bounds),
    placementBoxes unicode policy (accountingFeed feed) = .ok (candidatesOf rows) ∧
      rows.map Prod.fst = feed.ids := by
  obtain ⟨units, unitsPlaced, unitIds⟩ := units_placed unicode policy numbered
  have lines : ((accountingFeed feed).surya.map PageReading.FeedSurya.lines).getD [] =
      feed.lines.map fun line => ⟨line.id, line.boxPx, line.label.map plainText⟩ := by
    rw [accountingFeed, FeedRecord.lines]
    cases feed.surya <;> rfl
  have blocks : ((accountingFeed feed).surya.map PageReading.FeedSurya.blocks).getD [] =
      feed.blocks.map fun block => ⟨block.id, block.boxPx, block.label.map plainText⟩ := by
    rw [accountingFeed, FeedRecord.blocks]
    cases feed.surya <;> rfl
  have linesPlaced := detections_placed numbered.lines some
  have blocksPlaced := detections_placed numbered.blocks fun _ => none
  refine ⟨units ++ (feed.lines.map fun line => (line.id, some line.boxPx)) ++
    feed.blocks.map fun block => (block.id, none), ?_, ?_⟩
  · rw [placementBoxes, unitsPlaced, ok_bind, lines, linesPlaced, ok_bind, blocks, blocksPlaced]
    rfl
  · rw [List.map_append, List.map_append, unitIds, FeedRecord.ids, List.map_append, List.map_map,
      List.map_map, List.append_assoc]
    rfl

/-- The accounting takes every id of a numbered feed as a candidate, and no other. -/
theorem feedCandidates_ok (numbered : feed.Numbered) : ∃ candidates,
    feedCandidates unicode policy (accountingFeed feed) = .ok candidates ∧
      candidates.keys = feed.ids := by
  obtain ⟨rows, placed, named⟩ := placementBoxes_ok unicode policy numbered
  have distinct : feed.ids.Nodup := numbered.ids_eq ▸ numberedIds_nodup numbered.groups_nodup
  have keys : (candidatesOf rows).keys = feed.ids := by
    rw [candidatesOf_keys (named ▸ distinct), named]
  have shaped : ∀ id ∈ feed.ids, (idParts? id.toList).isSome = true := by
    intro id member
    rw [numbered.ids_eq] at member
    obtain ⟨group, listed, inside⟩ := List.mem_flatMap.mp member
    obtain ⟨number, ranged, rfl⟩ := List.mem_map.mp inside
    rw [idParts_idOf (numbered.groups_upper group listed) (List.mem_range'_1.mp ranged).1]
    rfl
  have checked := checkFeedIds_ok shaped distinct [] fun id _ => List.not_mem_nil
  have parts : (feed.ids.filterMap fun identifier => idParts? identifier.toList) =
      feed.groups.flatMap groupParts := by
    rw [numbered.ids_eq, parts_numberedIds numbered.groups_upper]
  obtain ⟨numbers, read⟩ := readAll_groups numbered.groups_small
  refine ⟨candidatesOf rows, ?_, keys⟩
  rw [feedCandidates, feedItems_accountingFeed, checked, ok_bind, placed, ok_bind]
  dsimp only
  rw [keys, parts, read, ok_bind, forM_ok_of_forall, ok_bind]
  intro letter member
  obtain ⟨count, found⟩ := numbersOf_groups numbered.groups_nodup numbered.groups_small letter
  rw [found, ok_bind, require_eq_ok]
  exact sortBy_range' count

end Citable

end Verbatus.PageFeed
