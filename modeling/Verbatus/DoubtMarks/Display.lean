import Verbatus.DoubtMarks.Render

namespace Verbatus.DoubtMarks

open Library Library.Checked Refusal Python CodePoint
open Identities (str)

section Displays

def illegibleDisplay : Str := str "[illegible]"

def doubtfulDisplay (reading : Str) : Str := str "[" ++ reading ++ str "?]"

/-- Each mark to be shown, in the order of where it starts and stops. -/
def displayInserts (text : Str) (layer : Layer) : List Insert :=
  (layer.gaps.map fun gap => ⟨gap.start, 0, gap.start, illegibleDisplay⟩) ++
    layer.uncertainSpans.map (spanInsert (fun reading _ => doubtfulDisplay reading) text)

def bracketsOverlap : Refusal :=
  .schemaRefusal "the doubt layer's marks overlap, so no bracketing shows them"

/-- The established text as a reader is shown it, from its layer. -/
def diplomaticDisplay (text : Str) (layer : Layer) : Except Refusal Str :=
  if layer.assessment.state ≠ .assessed then .ok text
  else weave Insert.tie bracketsOverlap text 0 (sortBy Insert.key (displayInserts text layer))

def bracketPiece : Piece CodePoint → Str
  | .plain point => [point]
  | .found found =>
    if bodyOf found = str "?" then illegibleDisplay
    else doubtfulDisplay ((readings found).headD [])

/-- A marked reading as a reader is shown it. -/
def bracketDoubtMarks (raw : Str) : Str := (mark.scan raw).flatMap bracketPiece

end Displays

section Agreement

variable {raw : Str} {tokens : List Token}

theorem bracketPiece_piece (token : Token) : bracketPiece token.piece =
    token.shown illegibleDisplay (fun reading _ => doubtfulDisplay reading) := by
  cases token with
  | plain point => rfl
  | gap =>
      rw [Token.piece, bracketPiece, if_pos bodyOf_illegibleMark]
      rfl
  | doubt marked =>
      change (if bodyOf _ = _ then _ else _) = _
      rw [marked.bodyOf_raw, if_neg marked.body_ne, readings, marked.bodyOf_raw,
        marked.readings_bars]
      rfl

/-- An assessed reading with ink in its text is shown alike from its marks and from its layer. -/
theorem display_eq_bracket (parsed : Parsed raw tokens)
    (ink : ∃ point ∈ textOf tokens, point.isSpace = false) :
    diplomaticDisplay (textOf tokens) (assessedReport tokens).layer =
      .ok (bracketDoubtMarks raw) := by
  have all := recorded_of (.inl ink)
  have woven := @weave_tokens (fun _ offset => offset) illegibleDisplay
    (fun reading _ => doubtfulDisplay reading) Insert.tie bracketsOverlap
    (fun _ _ _ _ => le_rfl) (fun _ _ => rfl) (fun _ _ _ => rfl) tokens
  have shown : bracketDoubtMarks raw = tokens.flatMap
      (Token.shown illegibleDisplay fun reading _ => doubtfulDisplay reading) := by
    rw [bracketDoubtMarks, parsed.scan_eq, List.flatMap_map]
    exact List.flatMap_congr fun token _ => bracketPiece_piece token
  have inserts : displayInserts (textOf tokens) (assessedReport tokens).layer =
      (gapOffsetsFrom 0 tokens).zipIdx.map (gapInsert (fun _ offset => offset) illegibleDisplay) ++
        (spansFrom 0 tokens).map
          (spanInsert (fun reading _ => doubtfulDisplay reading) (textOf tokens)) := by
    rw [displayInserts, assessedReport_eq, all]
    congr 1
    have offsets := List.zipIdx_map_fst 0 (gapOffsetsFrom 0 tokens)
    conv_lhs => rw [← offsets]
    simp only [Report.layer, List.map_map]
    rfl
  rw [diplomaticDisplay, shown, ← woven, ← inserts]
  rfl

end Agreement

section Shown

/-- What a reader is shown of a text: some of it as it is, or a mark in brackets. -/
inductive Shown where
  | kept (text : Str)
  | illegible
  | doubtful (reading : Str)

namespace Shown

def display : Shown → Str
  | kept text => text
  | illegible => illegibleDisplay
  | doubtful reading => doubtfulDisplay reading

/-- What is left when the inserted brackets and marks are deleted. -/
def text : Shown → Str
  | kept text => text
  | illegible => []
  | doubtful reading => reading

/-- Where the marks start and stop in the text that is left. -/
def marksFrom (offset : ℕ) : List Shown → List (ℕ × ℕ)
  | [] => []
  | kept text :: rest => marksFrom (offset + text.length) rest
  | illegible :: rest => (offset, offset) :: marksFrom offset rest
  | doubtful reading :: rest =>
      (offset, offset + reading.length) :: marksFrom (offset + reading.length) rest

end Shown

/-- An insert of a gap, or of a span that is not empty, within the text. -/
inductive Insert.Displayed (text : Str) : Insert → Prop
  | gap {start : ℕ} (within : start ≤ text.length) :
      Displayed text ⟨start, 0, start, illegibleDisplay⟩
  | span {start stop : ℕ} (some : start < stop) (within : stop ≤ text.length) :
      Displayed text ⟨start, 1, stop, doubtfulDisplay (text.slice start stop)⟩

variable {text : Str} {overlap : Refusal}

theorem Insert.Displayed.piece {insert : Insert} (displayed : insert.Displayed text) :
    (insert.start ≤ insert.tie ∧ insert.tie ≤ text.length) ∧
      ∃ piece : Shown, piece.display = insert.shown ∧
        piece.text = text.slice insert.start insert.tie ∧
        ∀ rest, Shown.marksFrom insert.start (piece :: rest) =
          (insert.start, insert.tie) :: Shown.marksFrom insert.tie rest := by
  cases displayed with
  | gap within =>
      refine ⟨⟨le_rfl, within⟩, .illegible, rfl, ?_, fun rest => rfl⟩
      exact (List.drop_eq_nil_of_le (List.length_take_le _ _)).symm
  | span some within =>
      refine ⟨⟨some.le, within⟩, .doubtful _, rfl, rfl, fun rest => ?_⟩
      rw [Shown.marksFrom, Str.length_slice within, Nat.add_sub_cancel' some.le]

/-- Inserts one after another are shown in the text, each at its own place. -/
theorem weave_shown {inserts : List Insert} {cursor : ℕ}
    (displayed : ∀ insert ∈ inserts, insert.Displayed text ∧ cursor ≤ insert.start)
    (chained : inserts.Pairwise fun first second => first.tie ≤ second.start) :
    ∃ pieces, weave Insert.tie overlap text cursor inserts = .ok (pieces.flatMap Shown.display) ∧
      pieces.flatMap Shown.text = text.drop cursor ∧
      Shown.marksFrom cursor pieces = inserts.map fun insert => (insert.start, insert.tie) := by
  induction inserts generalizing cursor with
  | nil =>
      refine ⟨[.kept (text.drop cursor)], ?_, ?_, rfl⟩
      · rw [weave, List.flatMap_singleton]
        rfl
      · rw [List.flatMap_singleton]
        rfl
  | cons insert inserts ih =>
      obtain ⟨after, chained⟩ := List.pairwise_cons.mp chained
      obtain ⟨here, order⟩ := displayed insert (.head _)
      obtain ⟨⟨forward, within⟩, piece, shown, stretch, marks⟩ := here.piece
      have later : ∀ other ∈ inserts, other.Displayed text ∧ insert.tie ≤ other.start :=
        fun other listed => ⟨(displayed other (.tail _ listed)).1, after other listed⟩
      obtain ⟨pieces, woven, left, rest⟩ := ih later chained
      refine ⟨.kept (text.slice cursor insert.start) :: piece :: pieces, ?_, ?_, ?_⟩
      · rw [weave, require_bind_of order, woven, ok_bind, List.flatMap_cons, List.flatMap_cons,
          shown, List.append_assoc]
        rfl
      · rw [List.flatMap_cons, List.flatMap_cons, left, stretch,
          Str.slice_append_drop text forward]
        exact Str.slice_append_drop text order
      · rw [Shown.marksFrom, Str.length_slice (forward.trans within), Nat.add_sub_cancel' order,
          marks, rest]
        rfl

end Shown

section Layers

variable {text : Str} {layer : Layer}

/-- One insert stops before the other starts. -/
def Insert.Apart (first second : Insert) : Prop :=
  first.tie ≤ second.start ∨ second.tie ≤ first.start

/-- Of two inserts that are apart the one that is sorted first comes first in the text. -/
theorem Insert.Apart.chained {first second : Insert} (apart : first.Apart second)
    (former : first.Displayed text) (latter : second.Displayed text)
    (sorted : first.key ≤ second.key) : first.tie ≤ second.start := by
  rcases apart with before | after
  · exact before
  · rw [Insert.key_le_iff] at sorted
    cases former with
    | gap => dsimp only at *; omega
    | span some =>
        cases latter with
        | gap => dsimp only at *; omega
        | span other => dsimp only at *; omega

/-- No two spans of the layer share a character. -/
def SpansDisjoint (layer : Layer) : Prop :=
  layer.uncertainSpans.Pairwise fun first second =>
    first.stop ≤ second.start ∨ second.stop ≤ first.start

/-- No gap of the layer is strictly inside one of its spans. -/
def NoGapInside (layer : Layer) : Prop :=
  ∀ span ∈ layer.uncertainSpans, ∀ gap ∈ layer.gaps,
    ¬ (span.start < gap.start ∧ gap.start < span.stop)

/-- Where the marks of a layer start and stop that a reader is shown. -/
def Layer.marks (layer : Layer) : List (ℕ × ℕ) :=
  if layer.assessment.state = .assessed then
    (layer.gaps.map fun gap => (gap.start, gap.stop)) ++
      layer.uncertainSpans.map fun span => (span.start, span.stop)
  else []

theorem displayInserts_displayed (anchored : Anchored text layer) :
    ∀ insert ∈ displayInserts text layer, insert.Displayed text := by
  intro insert listed
  rcases List.mem_append.mp listed with listed | listed
  · obtain ⟨gap, member, rfl⟩ := List.mem_map.mp listed
    obtain ⟨width, within⟩ := anchored.gaps gap member
    exact .gap (width ▸ within)
  · obtain ⟨span, member, rfl⟩ := List.mem_map.mp listed
    obtain ⟨some, within⟩ := anchored.spans span member
    exact .span some within

theorem displayInserts_apart (disjoint : SpansDisjoint layer) (clear : NoGapInside layer) :
    (displayInserts text layer).Pairwise Insert.Apart := by
  rw [displayInserts, List.pairwise_append, List.pairwise_map, List.pairwise_map]
  refine ⟨?_, disjoint, ?_⟩
  · exact List.pairwise_of_forall_mem_list fun _ _ _ _ => le_total _ _
  · rintro first former second latter
    obtain ⟨gap, member, rfl⟩ := List.mem_map.mp former
    obtain ⟨span, also, rfl⟩ := List.mem_map.mp latter
    have outside := clear span also gap member
    change gap.start ≤ span.start ∨ span.stop ≤ gap.start
    omega

/-- A layer whose spans are disjoint, with no gap inside one, is shown with each mark at its
place. -/
theorem diplomaticDisplay_layer (valid : validate layer text = .ok layer)
    (disjoint : SpansDisjoint layer) (clear : NoGapInside layer) :
    ∃ pieces, diplomaticDisplay text layer = .ok (pieces.flatMap Shown.display) ∧
      pieces.flatMap Shown.text = text ∧ (Shown.marksFrom 0 pieces).Perm layer.marks := by
  by_cases assessed : layer.assessment.state = .assessed
  · have anchored := validate_anchored valid
    have perm := sortBy_perm Insert.key (displayInserts text layer)
    have displayed : ∀ insert ∈ sortBy Insert.key (displayInserts text layer),
        insert.Displayed text := fun insert listed =>
      displayInserts_displayed anchored insert (perm.mem_iff.mp listed)
    have apart : (sortBy Insert.key (displayInserts text layer)).Pairwise Insert.Apart :=
      (perm.pairwise_iff fun apart => apart.symm).mpr (displayInserts_apart disjoint clear)
    have chained : (sortBy Insert.key (displayInserts text layer)).Pairwise
        fun first second => first.tie ≤ second.start := by
      have both := apart.and (sortBy_pairwise Insert.key (displayInserts text layer))
      refine both.imp_of_mem fun former latter related => ?_
      exact related.1.chained (displayed _ former) (displayed _ latter) related.2
    obtain ⟨pieces, woven, left, marks⟩ := @weave_shown text bracketsOverlap _ 0
      (fun insert listed => ⟨displayed insert listed, Nat.zero_le _⟩) chained
    refine ⟨pieces, ?_, left, ?_⟩
    · rw [diplomaticDisplay, if_neg (not_not.mpr assessed), woven]
    · rw [marks]
      refine (perm.map _).trans ?_
      rw [displayInserts, List.map_append, List.map_map, List.map_map, Layer.marks, if_pos assessed]
      refine List.Perm.append_right _ (List.Perm.of_eq ?_)
      exact List.map_congr_left fun gap member => by
        rw [← (anchored.gaps gap member).1]
        rfl
  · refine ⟨[.kept text], ?_, ?_, ?_⟩
    · rw [diplomaticDisplay, if_pos assessed, List.flatMap_singleton]
      rfl
    · rw [List.flatMap_singleton]
      rfl
    · rw [Layer.marks, if_neg assessed]
      exact .nil

/-- The two displays of a doubtful reading agree, and what is shown of a layer is its text with
brackets put in. -/
theorem displays_agree :
    (∀ raw, (readDoubtMarks raw).2.state = .assessed →
      (∃ point ∈ (readDoubtMarks raw).1, point.isSpace = false) →
        diplomaticDisplay (readDoubtMarks raw).1 (readDoubtMarks raw).2.layer =
          .ok (bracketDoubtMarks raw)) ∧
      ∀ text layer, validate layer text = .ok layer → SpansDisjoint layer → NoGapInside layer →
        ∃ pieces, diplomaticDisplay text layer = .ok (pieces.flatMap Shown.display) ∧
          pieces.flatMap Shown.text = text ∧ (Shown.marksFrom 0 pieces).Perm layer.marks := by
  refine ⟨fun raw assessed ink => ?_, fun text layer => diplomaticDisplay_layer⟩
  obtain ⟨tokens, parsed⟩ := state_assessed_iff.mp assessed
  rw [parsed.eq] at ink ⊢
  exact display_eq_bracket parsed ink

end Layers

end Verbatus.DoubtMarks
