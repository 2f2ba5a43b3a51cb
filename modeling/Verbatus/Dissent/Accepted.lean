import Verbatus.Dissent.Row

namespace Verbatus.Dissent

open Library Library.Checked PageAccounting Python

section Views

theorem length_intercalate_cons (space : CodePoint) (word : Str) (words : List Str) :
    ([space].intercalate (word :: words)).length ≤
      word.length + 1 + ([space].intercalate words).length := by
  cases words with
  | nil =>
      rw [List.intercalate_singleton]
      omega
  | cons next words =>
      rw [List.intercalate_cons_cons, List.length_append, List.length_append,
        List.length_singleton]

/-- What is left of the pieces of a text takes no more room than the text, with a separator after
each piece. -/
theorem length_intercalate_kept (space : CodePoint) (pieces : List Str) :
    ([space].intercalate (pieces.filter (· ≠ []))).length ≤ ([space].intercalate pieces).length := by
  induction pieces with
  | nil => exact le_rfl
  | cons piece pieces ih =>
      cases pieces with
      | nil =>
          by_cases empty : piece = []
          · rw [empty]
            exact Nat.zero_le _
          · rw [List.filter_cons_of_pos (by simpa using empty)]
            exact le_rfl
      | cons next pieces =>
          rw [List.intercalate_cons_cons, List.length_append, List.length_append,
            List.length_singleton]
          by_cases empty : piece = []
          · rw [List.filter_cons_of_neg (by simp [empty])]
            omega
          · rw [List.filter_cons_of_pos (by simpa using empty)]
            refine (length_intercalate_cons space piece _).trans ?_
            omega

theorem length_intercalate_modifyHead (space point : CodePoint) (pieces : List Str)
    (some : pieces ≠ []) : ([space].intercalate (pieces.modifyHead (point :: ·))).length =
      ([space].intercalate pieces).length + 1 := by
  match pieces, some with
  | [piece], _ =>
      rw [List.modifyHead_cons, List.intercalate_singleton, List.intercalate_singleton,
        List.length_cons]
  | piece :: next :: pieces, _ =>
      rw [List.modifyHead_cons, List.intercalate_cons_cons, List.intercalate_cons_cons,
        List.cons_append, List.cons_append, List.length_cons]

theorem length_intercalate_splitOnP (space : CodePoint) (splits : CodePoint → Bool) (text : Str) :
    ([space].intercalate (text.splitOnP splits)).length = text.length := by
  induction text with
  | nil => rfl
  | cons point text ih =>
      have some : text.splitOnP splits ≠ [] := List.splitOnP_ne_nil splits text
      rw [List.splitOnP_cons_eq_if_modifyHead]
      split_ifs with split
      · obtain ⟨piece, pieces, made⟩ := List.exists_cons_of_ne_nil some
        rw [made, List.intercalate_cons_cons, List.length_append, List.length_append, ← made, ih,
          List.length_nil, List.length_singleton, List.length_cons]
        omega
      · rw [length_intercalate_modifyHead space point _ some, ih, List.length_cons]

theorem length_intercalate_words (text : Str) :
    ([CodePoint.scalar ' '].intercalate (splitWords text)).length ≤ text.length := by
  have kept := length_intercalate_kept (.scalar ' ') (text.splitOnP CodePoint.isSpace)
  rwa [length_intercalate_splitOnP] at kept

/-- What a comparison view drops is a count. -/
theorem droppedCharacters_nonneg (nfc : Str → Str) (text : Str) :
    0 ≤ (comparisonView nfc text).droppedCharacters := by
  have shorter := length_intercalate_words (nfc text)
  dsimp only [comparisonView]
  omega

end Views

section Spans

variable {reading reported : Str}

/-- The reading with each span of it replaced by its stretch of the report, from a place on. -/
def replacedFrom (reading reported : Str) : ℕ → List DepartureSpan → Str
  | cursor, [] => reading.drop cursor
  | cursor, span :: spans =>
    slice reading cursor span.readingStart ++
      slice reported span.testimoniumStart span.testimoniumEnd ++
        replacedFrom reading reported span.readingEnd spans

/-- One span lies in front of the other on both sides. -/
def DepartureSpan.Before (first second : DepartureSpan) : Prop :=
  first.readingEnd ≤ second.readingStart ∧ first.testimoniumEnd ≤ second.testimoniumStart

/-- A span lies inside both texts, from a place on in each. -/
structure DepartureSpan.Within (reading reported : Str) (i j : ℕ) (span : DepartureSpan) : Prop where
  fromReading : i ≤ span.readingStart
  readingOrder : span.readingStart ≤ span.readingEnd
  inReading : span.readingEnd ≤ reading.length
  fromTestimonium : j ≤ span.testimoniumStart
  testimoniumOrder : span.testimoniumStart ≤ span.testimoniumEnd
  inTestimonium : span.testimoniumEnd ≤ reported.length

theorem departureSpans_cons_equal {opcode : Opcode} (equal : opcode.tag = .equal)
    (rest : List Opcode) : departureSpans (opcode :: rest) = departureSpans rest := by
  rw [departureSpans, List.filter_cons_of_neg (by simp [equal]), ← departureSpans]

theorem departureSpans_cons_other {opcode : Opcode} (other : opcode.tag ≠ .equal)
    (rest : List Opcode) : departureSpans (opcode :: rest) =
      ⟨opcode.i1, opcode.i2, opcode.j1, opcode.j2⟩ :: departureSpans rest := by
  rw [departureSpans, List.filter_cons_of_pos (by simp [other]), List.map_cons, ← departureSpans]

theorem tiles_le {i j : ℕ} {opcodes : List Opcode} (tiles : Tiles reading reported i j opcodes) :
    i ≤ reading.length ∧ j ≤ reported.length := by
  induction opcodes generalizing i j with
  | nil => exact ⟨tiles.1.le, tiles.2.le⟩
  | cons opcode rest ih =>
      obtain ⟨-, -, fromA, fromB, -, later⟩ := tiles
      obtain ⟨inA, inB⟩ := ih later
      exact ⟨fromA.trans inA, fromB.trans inB⟩

theorem slice_append_drop {α : Type} (text : List α) {start stop : ℕ} (ordered : start ≤ stop) :
    slice text start stop ++ text.drop stop = text.drop start := by
  have later : text.drop stop = (text.drop start).drop (stop - start) := by
    rw [List.drop_drop, Nat.add_sub_cancel' ordered]
  rw [slice, List.drop_take, later]
  exact List.take_append_drop (stop - start) (text.drop start)

theorem slice_append_slice {α : Type} (text : List α) {low middle high : ℕ} (first : low ≤ middle)
    (second : middle ≤ high) :
    slice text low middle ++ slice text middle high = slice text low high := by
  have whole := slice_append_drop (text.take high) first
  rwa [slice, List.take_take, min_eq_left second] at whole

/-- Replacing the spans of what tiles both texts gives the report. -/
theorem replacedFrom_tiles {cursor i j : ℕ} {opcodes : List Opcode} (behind : cursor ≤ i)
    (tiles : Tiles reading reported i j opcodes) :
    replacedFrom reading reported cursor (departureSpans opcodes) =
      slice reading cursor i ++ reported.drop j := by
  induction opcodes generalizing cursor i j with
  | nil =>
      obtain ⟨rfl, rfl⟩ := tiles
      rw [departureSpans, List.filter_nil, List.map_nil, replacedFrom, slice, List.take_length,
        List.drop_length, List.append_nil]
  | cons opcode rest ih =>
      obtain ⟨rfl, rfl, fromA, fromB, alike, later⟩ := tiles
      have ended : reported.drop opcode.j1 =
          slice reported opcode.j1 opcode.j2 ++ reported.drop opcode.j2 :=
        (slice_append_drop reported fromB).symm
      by_cases equal : opcode.tag = .equal
      · rw [departureSpans_cons_equal equal, ih (behind.trans fromA) later, ended, ← alike equal,
          ← List.append_assoc, slice_append_slice reading behind fromA]
      · have nothing : slice reading opcode.i2 opcode.i2 = [] := by
          rw [slice, List.drop_take, Nat.sub_self, List.take_zero]
        rw [departureSpans_cons_other equal, replacedFrom, ih le_rfl later, ended, nothing,
          List.nil_append, List.append_assoc]

theorem departureSpans_within {i j : ℕ} {opcodes : List Opcode}
    (tiles : Tiles reading reported i j opcodes) :
    (∀ span ∈ departureSpans opcodes, span.Within reading reported i j) ∧
      (departureSpans opcodes).Pairwise DepartureSpan.Before := by
  induction opcodes generalizing i j with
  | nil => exact ⟨nofun, .nil⟩
  | cons opcode rest ih =>
      obtain ⟨rfl, rfl, fromA, fromB, -, later⟩ := tiles
      obtain ⟨within, order⟩ := ih later
      obtain ⟨inA, inB⟩ := tiles_le later
      have widened : ∀ span ∈ departureSpans rest,
          span.Within reading reported opcode.i1 opcode.j1 := by
        intro span listed
        obtain ⟨fromReading, wide, inReading, fromTestimonium, long, inTestimonium⟩ :=
          within span listed
        exact ⟨fromA.trans fromReading, wide, inReading, fromB.trans fromTestimonium, long,
          inTestimonium⟩
      by_cases equal : opcode.tag = .equal
      · rw [departureSpans_cons_equal equal]
        exact ⟨widened, order⟩
      · rw [departureSpans_cons_other equal]
        refine ⟨List.forall_mem_cons.mpr ⟨⟨le_rfl, fromA, inA, le_rfl, fromB, inB⟩, widened⟩,
          List.pairwise_cons.mpr ⟨fun span listed => ?_, order⟩⟩
        exact ⟨(within span listed).fromReading, (within span listed).fromTestimonium⟩

/-- What the departures of two texts are: in order, apart on both sides, and all there is between
the reading and the report. -/
structure Exact (reading reported : Str) (spans : List DepartureSpan) : Prop where
  within : ∀ span ∈ spans, span.Within reading reported 0 0
  order : spans.Pairwise DepartureSpan.Before
  replaced : replacedFrom reading reported 0 spans = reported
  silent : spans = [] ↔ reading = reported

theorem departures_exact {maxComparisonSteps : ℤ} {spans : List DepartureSpan}
    (found : departures reading reported maxComparisonSteps = .ok spans) :
    Exact reading reported spans := by
  rw [departures] at found
  cases made : (getOpcodes reading reported).on maxComparisonSteps with
  | mk outcome left =>
      rw [made] at found
      cases outcome with
      | error limit => cases found
      | ok opcodes =>
          cases found
          have tiles := getOpcodes_tiles made
          obtain ⟨within, order⟩ := departureSpans_within tiles
          have replaced := replacedFrom_tiles le_rfl tiles
          rw [List.drop_zero] at replaced
          refine ⟨within, order, replaced, ?_, ?_⟩
          · intro none
            rw [none, replacedFrom, List.drop_zero] at replaced
            exact replaced
          · rintro rfl
            rw [departureSpans, List.map_eq_nil_iff, List.filter_eq_nil_iff]
            intro opcode listed
            simp [getOpcodes_self made opcode listed]

end Spans

section Rows

theorem boundsValid_boundsRecord {text : Str} {name : String} {start stop : ℕ}
    (ordered : start ≤ stop) (inside : name = "reading_span" → stop ≤ text.length) :
    boundsValid text name (boundsRecord start stop) = true := by
  have first : (boundsRecord start stop).get "start" = .int start := rfl
  have last : (boundsRecord start stop).get "end" = .int stop := rfl
  rw [boundsValid, first, last, Json.number_int, Json.number_int]
  simp only [Bool.and_eq_true, Bool.or_eq_true, decide_eq_true_eq]
  refine ⟨⟨⟨⟨⟨rfl, rfl⟩, rfl⟩, Int.natCast_nonneg start⟩, Int.ofNat_le.mpr ordered⟩, ?_⟩
  by_cases reading : name = "reading_span"
  · exact .inr (Int.ofNat_le.mpr (inside reading))
  · exact .inl reading

/-- A span inside both texts is recorded as one a reader accepts. -/
theorem validateSpan_record {reading reported : Str} {span : DepartureSpan}
    (within : span.Within reading reported 0 0) (index : ℕ) :
    validateSpan reading span.record index = .ok () := by
  rw [validateSpan, require_bind_of ⟨rfl, rfl⟩]
  refine forM_ok_of_forall fun entry listed => require_eq_ok.mpr ?_
  rcases List.mem_pair.mp listed with rfl | rfl
  · exact boundsValid_boundsRecord within.readingOrder fun _ => within.inReading
  · exact boundsValid_boundsRecord within.testimoniumOrder fun same => absurd same (by simp)

/-- What the comparison views dropped. -/
def lossRecord (nfc : Str → Str) (reading reported : Str) : Json :=
  .object [("reading_dropped_characters", .int (comparisonView nfc reading).droppedCharacters),
    ("witness_dropped_characters", .int (comparisonView nfc reported).droppedCharacters)]

/-- The row of a comparison that ran. -/
def comparedRow (nfc : Str → Str) (reading reported : Str) (spans : List DepartureSpan) : Json :=
  .object [("compared", .bool true),
    ("departed", .bool
      ((comparisonView nfc reported).normalized ≠ (comparisonView nfc reading).normalized)),
    ("departed_raw", .bool (reported ≠ reading)),
    ("departures", .list (spans.map DepartureSpan.record)),
    ("comparison_loss", lossRecord nfc reading reported)]

theorem lossRecord_counted (nfc : Str → Str) (reading reported : Str) :
    (lossRecord nfc reading reported).isObject = true ∧
      keysMatch (lossRecord nfc reading reported).keys lossFields = true ∧
      (entries (lossRecord nfc reading reported)).all (fun entry => isCount entry.2) = true := by
  refine ⟨rfl, rfl, ?_⟩
  simp only [lossRecord, entries, List.all_cons, List.all_nil, isCount, Json.int?, Option.any_some,
    droppedCharacters_nonneg, decide_true, Bool.and_true]

theorem validateCompared_comparedRow (nfc : Str → Str) {reading reported : Str}
    {spans : List DepartureSpan} (exact : Exact reading reported spans) :
    validateCompared nfc (comparedRow nfc reading reported spans) reading = .ok () := by
  have departed : (comparedRow nfc reading reported spans).get "departed" = .bool
    ((comparisonView nfc reported).normalized ≠ (comparisonView nfc reading).normalized) := rfl
  have raw : (comparedRow nfc reading reported spans).get "departed_raw" =
    .bool (reported ≠ reading) := rfl
  have listed : (comparedRow nfc reading reported spans).get "departures" =
    .list (spans.map DepartureSpan.record) := rfl
  have loss : (comparedRow nfc reading reported spans).get "comparison_loss" =
    lossRecord nfc reading reported := rfl
  have dropped : ((lossRecord nfc reading reported).get "reading_dropped_characters").number =
    (comparisonView nfc reading).droppedCharacters := rfl
  have closed : keysMatch (comparedRow nfc reading reported spans).keys comparedFields = true := rfl
  have flags (first second : Bool) :
      (Json.bool first).bool?.isSome = true ∧ (Json.bool second).bool?.isSome = true := ⟨rfl, rfl⟩
  have spanList : (Json.list (spans.map DepartureSpan.record)).list?.isSome = true := rfl
  rw [validateCompared, departed, raw, listed, loss, require_bind_of closed,
    require_bind_of (flags _ _)]
  dsimp only
  rw [require_bind_of (lossRecord_counted nfc reading reported), require_bind_of spanList,
    require_bind_of ?_, require_bind_of dropped]
  · refine forM_ok_of_forall fun entry member => ?_
    obtain ⟨span, found, made⟩ := List.mem_map.mp (List.fst_mem_of_mem_zipIdx member)
    rw [← made]
    exact validateSpan_record (exact.within span found) entry.2
  · have silent := exact.silent
    simp only [Json.elements_list, Json.flag, Json.bool?, Option.getD_some, decide_eq_true_eq, ne_eq,
      List.map_eq_nil_iff, silent]
    refine ⟨not_congr eq_comm, fun ⟨differs, alike⟩ => ?_⟩
    rw [not_not.mp alike] at differs
    exact differs rfl

/-- A row without a comparison is accepted, under the budget it names when it names one. -/
theorem validateUncomputed_ok {reason : String} (given : reason ≠ "") (maxComparisonSteps : ℤ)
    {budget : List (String × Json)}
    (named : budget = [] ∨ budget = [("max_comparison_steps", .int maxComparisonSteps)]) :
    validateUncomputed (.object (("compared", .str "unknown") :: ("reason", .str reason) :: budget))
      maxComparisonSteps = .ok () := by
  have stated : (some reason).any (· ≠ "") = true := by simp [given]
  rcases named with rfl | rfl
  · rw [validateUncomputed, require_bind_of ⟨rfl, stated⟩]
    exact require_eq_ok.mpr fun listed => absurd listed (by simp [Json.keys])
  · rw [validateUncomputed, require_bind_of ⟨rfl, stated⟩]
    exact require_eq_ok.mpr fun _ => rfl

theorem validateRow_unknown (nfc : Str → Str) {reason : String} (given : reason ≠ "")
    (text : Str) (maxComparisonSteps : ℤ) {budget : List (String × Json)}
    (named : budget = [] ∨ budget = [("max_comparison_steps", .int maxComparisonSteps)]) :
    validateRow nfc
      (.object (("compared", .str "unknown") :: ("reason", .str reason) :: budget)) text
      maxComparisonSteps = .ok () := by
  have record (fields : List (String × Json)) : (Json.object fields).isObject = true := rfl
  rw [validateRow, require_bind_of (record _)]
  exact validateUncomputed_ok given maxComparisonSteps named

/-- What a stage computes for two texts: a row that says why it did not compare them, or the row
of their departures. -/
theorem dissentAgainst_cases (nfc : Str → Str) (reading reported : Str) (maxComparisonSteps : ℤ) :
    (∃ reason budget, reason ≠ "" ∧
      (budget = [] ∨ budget = [("max_comparison_steps", .int maxComparisonSteps)]) ∧
      dissentAgainst nfc reading reported maxComparisonSteps =
        .object (("compared", .str "unknown") :: ("reason", .str reason) :: budget)) ∨
    ∃ spans, Exact reading reported spans ∧
      dissentAgainst nfc reading reported maxComparisonSteps =
        comparedRow nfc reading reported spans := by
  rw [dissentAgainst]
  dsimp only
  split_ifs with large
  · exact .inl ⟨_, [], by simp, .inl rfl, rfl⟩
  · cases found : departures reading reported maxComparisonSteps with
    | error limit => exact .inl ⟨_, [_], by simp, .inr rfl, rfl⟩
    | ok spans => exact .inr ⟨spans, departures_exact found, rfl⟩

/-- What a stage computes for two texts is a row its readers accept; a row that compared them
holds all there is between them. -/
theorem dissentAgainst_accepted (nfc : Str → Str) (reading reported : Str)
    (maxComparisonSteps : ℤ) :
    validateRow nfc (dissentAgainst nfc reading reported maxComparisonSteps) reading
        maxComparisonSteps = .ok () ∧
      ((dissentAgainst nfc reading reported maxComparisonSteps).get "compared" = .bool true →
        ∃ spans, (dissentAgainst nfc reading reported maxComparisonSteps).get "departures" =
          .list (spans.map DepartureSpan.record) ∧ Exact reading reported spans) := by
  rcases dissentAgainst_cases nfc reading reported maxComparisonSteps with
    ⟨reason, budget, given, named, row⟩ | ⟨spans, exact, row⟩
  · rw [row]
    exact ⟨validateRow_unknown nfc given reading maxComparisonSteps named, nofun⟩
  · have record : (comparedRow nfc reading reported spans).isObject = true := rfl
    rw [row, validateRow, require_bind_of record]
    exact ⟨validateCompared_comparedRow nfc exact, fun _ => ⟨spans, rfl, exact⟩⟩

end Rows

end Verbatus.Dissent
