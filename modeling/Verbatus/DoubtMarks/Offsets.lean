import Verbatus.DoubtMarks.Reading

namespace Verbatus.DoubtMarks

open Library Python CodePoint
open Identities (str)

section Offsets

/-- How much of a mark stands in the established text. -/
def shownLength (found : Str) : ℕ :=
  if bodyOf found = str "?" then 0 else ((readings found).headD []).length

/-- Where each offset of some pieces lands in a text that is already so long. -/
def rawToCleanFrom (length : ℕ) : List (Piece CodePoint) → List (Option ℕ)
  | [] => [some length]
  | .plain _ :: pieces => some length :: rawToCleanFrom (length + 1) pieces
  | .found found :: pieces =>
      some length :: List.replicate (found.length - 1) none ++
        rawToCleanFrom (length + shownLength found) pieces

/-- Each offset of a text of the size under the first of the entries that maps to it. -/
def cleanToRawFrom (size index : ℕ) : List (Option ℕ) → List (Option ℕ)
  | [] => List.replicate size none
  | none :: entries => cleanToRawFrom size (index + 1) entries
  | some clean :: entries => (cleanToRawFrom size (index + 1) entries).set clean (some index)

/-- Where each offset of a marked reading lands in its text, and each offset of the text in the
marked reading. -/
def doubtMarkOffsets (raw : Str) : List (Option ℕ) × List (Option ℕ) :=
  if (readDoubtMarks raw).2.state ≠ .assessed then
    ((List.range (raw.length + 1)).map some, (List.range (raw.length + 1)).map some)
  else
    let rawToClean := rawToCleanFrom 0 (mark.scan raw)
    (rawToClean, cleanToRawFrom ((readDoubtMarks raw).1.length + 1) 0 rawToClean)

/-- The offset is past the beginning of a mark and before its end. -/
def InsideMark (raw : Str) (offset : ℕ) : Prop :=
  ∃ before found after, mark.scan raw = before ++ .found found :: after ∧
    (before.flatMap Piece.text).length < offset ∧
    offset < (before.flatMap Piece.text).length + found.length

/-- The character at the offset belongs to a mark. -/
def InMark (raw : Str) (offset : ℕ) : Prop :=
  ∃ before found after, mark.scan raw = before ++ .found found :: after ∧
    (before.flatMap Piece.text).length ≤ offset ∧
    offset < (before.flatMap Piece.text).length + found.length

end Offsets

section Cuts

variable {tokens : List Token}

theorem Token.raw_pos (token : Token) : 0 < token.raw.length := by
  cases token with
  | plain point => exact Nat.zero_lt_one
  | gap => decide
  | doubt marked =>
      rw [Token.raw, length_mark]
      omega

theorem shownLength_gap : shownLength illegibleMark = 0 := by decide

theorem shownLength_doubt (marked : Doubt) :
    shownLength (opening ++ marked.body ++ closing) = marked.reading.length := by
  rw [shownLength, readings, marked.bodyOf_raw, if_neg marked.body_ne, marked.readings_bars]
  rfl

/-- The offsets of some tokens: none inside a token, and its text's before the next one. -/
theorem rawToCleanFrom_cons (length : ℕ) (token : Token) (tokens : List Token) :
    rawToCleanFrom length ((token :: tokens).map Token.piece) =
      some length :: List.replicate (token.raw.length - 1) none ++
        rawToCleanFrom (length + token.text.length) (tokens.map Token.piece) := by
  cases token with
  | plain point => rfl
  | gap =>
      rw [List.map_cons, Token.piece, rawToCleanFrom, shownLength_gap]
      rfl
  | doubt marked =>
      rw [List.map_cons, Token.piece, rawToCleanFrom, shownLength_doubt]
      rfl

theorem length_rawToCleanFrom (length : ℕ) (tokens : List Token) :
    (rawToCleanFrom length (tokens.map Token.piece)).length = (rawOf tokens).length + 1 := by
  induction tokens generalizing length with
  | nil => rfl
  | cons token tokens ih =>
      have pos := token.raw_pos
      rw [rawToCleanFrom_cons, List.length_append, ih, rawOf_cons, List.length_append,
        List.length_cons, List.length_replicate]
      omega

theorem rawToCleanFrom_getElem? (length offset : ℕ) (token : Token) (tokens : List Token) :
    (rawToCleanFrom length ((token :: tokens).map Token.piece))[offset]? =
      if offset = 0 then some (some length)
      else if offset < token.raw.length then some none
      else (rawToCleanFrom (length + token.text.length) (tokens.map Token.piece))[
        offset - token.raw.length]? := by
  have pos := token.raw_pos
  rw [rawToCleanFrom_cons]
  cases offset with
  | zero => rfl
  | succ offset =>
      rw [if_neg (Nat.succ_ne_zero _), List.cons_append, List.getElem?_cons_succ,
        List.getElem?_append, List.length_replicate]
      split_ifs with inside inner inner
      · rw [List.getElem?_replicate_of_lt inside]
      · omega
      · omega
      · congr 1
        omega

/-- An offset lands in the text where the tokens can be cut there. -/
theorem rawToCleanFrom_some {length offset clean : ℕ} :
    (rawToCleanFrom length (tokens.map Token.piece))[offset]? = some (some clean) ↔
      ∃ before after, tokens = before ++ after ∧ (rawOf before).length = offset ∧
        length + (textOf before).length = clean := by
  induction tokens generalizing length offset with
  | nil =>
      constructor
      · intro found
        cases offset with
        | zero => exact ⟨[], [], rfl, rfl, Option.some.inj (Option.some.inj found)⟩
        | succ offset => simp [rawToCleanFrom] at found
      · rintro ⟨before, after, none, rfl, rfl⟩
        rw [(List.append_eq_nil_iff.mp none.symm).1]
        rfl
  | cons token tokens ih =>
      have pos := token.raw_pos
      rw [rawToCleanFrom_getElem?]
      constructor
      · intro found
        split_ifs at found with start inside
        · rw [Option.some.injEq, Option.some.injEq] at found
          exact ⟨[], token :: tokens, rfl, start.symm, found⟩
        · cases found
        · obtain ⟨before, after, rfl, size, lands⟩ := ih.mp found
          refine ⟨token :: before, after, rfl, ?_, ?_⟩
          · rw [rawOf_cons, List.length_append, size]
            omega
          · rw [textOf_cons, List.length_append, ← lands]
            omega
      · rintro ⟨before, after, cut, rfl, rfl⟩
        cases before with
        | nil => rfl
        | cons first before =>
            rw [List.cons_append, List.cons.injEq] at cut
            obtain ⟨rfl, rfl⟩ := cut
            rw [rawOf_cons, List.length_append, if_neg (by omega), if_neg (by omega), ih]
            refine ⟨before, after, rfl, by omega, ?_⟩
            rw [textOf_cons, List.length_append]
            omega

/-- An offset lands nowhere exactly when it is inside a token. -/
theorem rawToCleanFrom_none {length offset : ℕ} :
    (rawToCleanFrom length (tokens.map Token.piece))[offset]? = some none ↔
      ∃ before token after, tokens = before ++ token :: after ∧ (rawOf before).length < offset ∧
        offset < (rawOf before).length + token.raw.length := by
  induction tokens generalizing length offset with
  | nil =>
      constructor
      · intro found
        have member := List.mem_of_getElem? found
        simp [rawToCleanFrom] at member
      · rintro ⟨before, token, after, none, -⟩
        simp at none
  | cons token tokens ih =>
      have pos := token.raw_pos
      rw [rawToCleanFrom_getElem?]
      constructor
      · intro found
        split_ifs at found with start inside
        · cases found
        · exact ⟨[], token, tokens, rfl, Nat.pos_of_ne_zero start, by simpa using inside⟩
        · obtain ⟨before, other, after, rfl, past, inner⟩ := ih.mp found
          refine ⟨token :: before, other, after, rfl, ?_, ?_⟩
          · rw [rawOf_cons, List.length_append]
            omega
          · rw [rawOf_cons, List.length_append]
            omega
      · rintro ⟨before, other, after, cut, past, inner⟩
        cases before with
        | nil =>
            rw [List.nil_append, List.cons.injEq] at cut
            rw [rawOf_nil, List.length_nil] at past inner
            rw [if_neg (by omega), if_pos (by rw [cut.1]; omega)]
        | cons first before =>
            rw [List.cons_append, List.cons.injEq] at cut
            obtain ⟨rfl, rfl⟩ := cut
            rw [rawOf_cons, List.length_append] at past inner
            rw [if_neg (by omega), if_neg (by omega), ih]
            exact ⟨before, other, after, rfl, by omega, by omega⟩

/-- Of two cuts of some tokens the one that is not later is at the other or before it. -/
theorem cut_of_le {before after first second : List Token} (same : before ++ after = first ++ second)
    (order : (rawOf before).length ≤ (rawOf first).length) :
    ∃ middle, first = before ++ middle ∧ after = middle ++ second := by
  rcases List.append_eq_append_iff.mp same with ⟨middle, rfl, rfl⟩ | ⟨middle, rfl, rfl⟩
  · exact ⟨middle, rfl, rfl⟩
  · rw [rawOf_append, List.length_append] at order
    cases middle with
    | nil => exact ⟨[], by simp, rfl⟩
    | cons token middle =>
        have pos := token.raw_pos
        rw [rawOf_cons, List.length_append] at order
        omega

end Cuts

section Least

@[simp] theorem length_cleanToRawFrom (size index : ℕ) (entries : List (Option ℕ)) :
    (cleanToRawFrom size index entries).length = size := by
  induction entries generalizing index with
  | nil => exact List.length_replicate
  | cons entry entries ih =>
      cases entry with
      | none => exact ih (index + 1)
      | some clean => rw [cleanToRawFrom, List.length_set, ih]

/-- An offset of the text is under the first entry that maps to it. -/
theorem cleanToRawFrom_getElem? {size clean : ℕ} (index : ℕ) (entries : List (Option ℕ))
    (inside : clean < size) : (cleanToRawFrom size index entries)[clean]? =
      some ((entries.findIdx? (· == some clean)).map (index + ·)) := by
  induction entries generalizing index with
  | nil => rw [cleanToRawFrom, List.getElem?_replicate_of_lt inside, List.findIdx?_nil]; rfl
  | cons entry entries ih =>
      have later : ∀ found : Option ℕ,
          found.map (index + 1 + ·) = (found.map (· + 1)).map (index + ·) := by
        intro found
        rw [Option.map_map]
        congr 1
        funext offset
        change index + 1 + offset = index + (offset + 1)
        omega
      rw [List.findIdx?_cons]
      cases entry with
      | none =>
          rw [cleanToRawFrom, ih, later]
          rfl
      | some first =>
          rw [cleanToRawFrom, List.getElem?_set, length_cleanToRawFrom, ih, later]
          by_cases same : first = clean
          · rw [if_pos same, if_pos (by omega), if_pos (by rw [same]; exact beq_self_eq_true _)]
            rfl
          · have apart : (some first == some clean) = false := by simpa using same
            rw [if_neg same, apart]
            rfl

theorem cleanToRawFrom_some {size clean offset : ℕ} {entries : List (Option ℕ)}
    (inside : clean < size) :
    (cleanToRawFrom size 0 entries)[clean]? = some (some offset) ↔
      entries[offset]? = some (some clean) ∧
        ∀ earlier < offset, entries[earlier]? ≠ some (some clean) := by
  rw [cleanToRawFrom_getElem? 0 entries inside, Option.some.injEq, Option.map_eq_some_iff]
  simp only [Nat.zero_add, exists_eq_right, List.findIdx?_eq_some_iff_getElem, beq_iff_eq]
  constructor
  · rintro ⟨start, same, first⟩
    refine ⟨by rw [List.getElem?_eq_getElem start, same], fun earlier before found => ?_⟩
    obtain ⟨_, also⟩ := List.getElem?_eq_some_iff.mp found
    exact first earlier before also
  · rintro ⟨found, first⟩
    obtain ⟨start, same⟩ := List.getElem?_eq_some_iff.mp found
    refine ⟨start, same, fun earlier before also => first earlier before ?_⟩
    rw [List.getElem?_eq_getElem (before.trans start), also]

theorem cleanToRawFrom_none {size clean : ℕ} {entries : List (Option ℕ)} (inside : clean < size) :
    (cleanToRawFrom size 0 entries)[clean]? = some none ↔ some clean ∉ entries := by
  rw [cleanToRawFrom_getElem? 0 entries inside, Option.some.injEq, Option.map_eq_none_iff,
    List.findIdx?_eq_none_iff]
  constructor
  · intro apart listed
    have same := apart _ listed
    simp at same
  · intro unlisted entry listed
    rw [beq_eq_false_iff_ne]
    rintro rfl
    exact unlisted listed

end Least

section Spans

variable {tokens : List Token}

/-- A span is where a doubtful reading stands among the tokens. -/
theorem mem_spansFrom_iff {span : Span} {offset : ℕ} : span ∈ spansFrom offset tokens ↔
    ∃ before marked after, tokens = before ++ .doubt marked :: after ∧
      span = ⟨offset + (textOf before).length,
        offset + (textOf before).length + marked.reading.length, marked.alternatives, .low⟩ := by
  induction tokens generalizing offset with
  | nil => simp [spansFrom]
  | cons token tokens ih =>
      have later : span ∈ spansFrom (offset + token.text.length) tokens ↔
          ∃ before marked after, token :: tokens = (token :: before) ++ .doubt marked :: after ∧
            span = ⟨offset + (textOf (token :: before)).length,
              offset + (textOf (token :: before)).length + marked.reading.length,
              marked.alternatives, .low⟩ := by
        rw [ih]
        simp only [List.cons_append, List.cons.injEq, true_and, textOf_cons, List.length_append,
          Nat.add_assoc]
      have whole : span ∈ spansFrom offset (token :: tokens) ↔
          (∃ marked, token = .doubt marked ∧ span = ⟨offset, offset + marked.reading.length,
            marked.alternatives, .low⟩) ∨ span ∈ spansFrom (offset + token.text.length) tokens := by
        cases token with
        | plain point => simp [spansFrom, Token.text]
        | gap => simp [spansFrom, Token.text]
        | doubt marked => simp [spansFrom, Token.text]
      rw [whole, later]
      constructor
      · rintro (⟨marked, rfl, rfl⟩ | ⟨before, marked, after, same, rfl⟩)
        · exact ⟨[], marked, tokens, rfl, rfl⟩
        · exact ⟨token :: before, marked, after, same, rfl⟩
      · rintro ⟨before, marked, after, same, rfl⟩
        cases before with
        | nil =>
            rw [List.nil_append, List.cons.injEq] at same
            exact .inl ⟨marked, same.1, rfl⟩
        | cons first before =>
            have head := (List.cons.inj same).1
            subst head
            exact .inr ⟨before, marked, after, same, rfl⟩

/-- An offset of the text is where the tokens can be cut, or inside a doubtful reading. -/
theorem cut_or_span {offset clean : ℕ} (within : offset ≤ clean)
    (inside : clean ≤ offset + (textOf tokens).length) :
    (∃ before after, tokens = before ++ after ∧ offset + (textOf before).length = clean) ∨
      ∃ span ∈ spansFrom offset tokens, span.start < clean ∧ clean < span.stop := by
  induction tokens generalizing offset with
  | nil => exact .inl ⟨[], [], rfl, by simpa using le_antisymm within inside⟩
  | cons token tokens ih =>
      rw [textOf_cons, List.length_append] at inside
      by_cases past : offset + token.text.length ≤ clean
      · rcases ih past (by omega) with ⟨before, after, rfl, lands⟩ | ⟨span, listed, inner⟩
        · refine .inl ⟨token :: before, after, rfl, ?_⟩
          rw [textOf_cons, List.length_append]
          omega
        · refine .inr ⟨span, ?_, inner⟩
          cases token with
          | plain point => exact listed
          | gap => exact listed
          | doubt marked => exact .tail _ listed
      · rcases within.eq_or_lt with same | after
        · exact .inl ⟨[], token :: tokens, rfl, same⟩
        · cases token with
          | plain point => exact absurd after (by simpa [Token.text] using past)
          | gap => exact absurd within (by simpa [Token.text] using past)
          | doubt marked => exact .inr ⟨_, .head _, after, not_le.mp past⟩

/-- No offset inside a doubtful reading is where the tokens can be cut. -/
theorem not_cut_of_span {offset : ℕ} {span : Span} (listed : span ∈ spansFrom offset tokens)
    {before after : List Token} (cut : tokens = before ++ after) :
    offset + (textOf before).length ≤ span.start ∨
      span.stop ≤ offset + (textOf before).length := by
  obtain ⟨first, marked, second, rfl, rfl⟩ := mem_spansFrom_iff.mp listed
  rcases List.append_eq_append_iff.mp cut with ⟨middle, rfl, same⟩ | ⟨middle, rfl, same⟩
  · cases middle with
    | nil => simp
    | cons token middle =>
        rw [List.cons_append, List.cons.injEq] at same
        rw [← same.1]
        refine .inr ?_
        simp only [textOf_append, textOf_cons, List.length_append, Token.text]
        omega
  · refine .inl ?_
    rw [textOf_append, List.length_append]
    dsimp only
    omega

end Spans

section Exact

/-- Two tables are an exact correspondence between a marked reading and its text. -/
structure OffsetsExact (raw text : Str) (spans : List Span)
    (rawToClean cleanToRaw : List (Option ℕ)) : Prop where
  rawSize : rawToClean.length = raw.length + 1
  cleanSize : cleanToRaw.length = text.length + 1
  first : rawToClean[0]? = some (some 0)
  last : rawToClean[raw.length]? = some (some text.length)
  inside : ∀ offset : ℕ, rawToClean[offset]? = some none ↔ InsideMark raw offset
  ordered : ∀ start stop clean later : ℕ, start ≤ stop → rawToClean[start]? = some (some clean) →
    rawToClean[stop]? = some (some later) → clean ≤ later
  kept : ∀ offset < raw.length, ¬ InMark raw offset →
    ∃ clean, rawToClean[offset]? = some (some clean) ∧ text[clean]? = raw[offset]?
  least : ∀ clean offset : ℕ, cleanToRaw[clean]? = some (some offset) ↔
    rawToClean[offset]? = some (some clean) ∧
      ∀ earlier < offset, rawToClean[earlier]? ≠ some (some clean)
  inReading : ∀ clean : ℕ, cleanToRaw[clean]? = some none ↔
    ∃ span ∈ spans, span.start < clean ∧ clean < span.stop
  slices : ∀ start stop : ℕ, start ≤ stop → stop ≤ raw.length → ¬ InsideMark raw start →
    ¬ InsideMark raw stop → ∃ clean later, rawToClean[start]? = some (some clean) ∧
      rawToClean[stop]? = some (some later) ∧
      (readDoubtMarks (raw.slice start stop)).2.state = .assessed ∧
      (readDoubtMarks (raw.slice start stop)).1 = text.slice clean later

variable {raw : Str} {tokens : List Token}

theorem Parsed.offsets_eq (parsed : Parsed raw tokens) : doubtMarkOffsets raw =
    (rawToCleanFrom 0 (tokens.map Token.piece),
      cleanToRawFrom ((textOf tokens).length + 1) 0
        (rawToCleanFrom 0 (tokens.map Token.piece))) := by
  rw [doubtMarkOffsets, if_neg (not_not.mpr (state_assessed_iff.mpr ⟨tokens, parsed⟩)),
    parsed.eq, parsed.scan_eq]

/-- The pieces before a found mark are those of the tokens before one. -/
theorem scan_split (parsed : Parsed raw tokens) {before after : List (Piece CodePoint)}
    {found : Str} (whole : mark.scan raw = before ++ .found found :: after) :
    ∃ first token second, tokens = first ++ token :: second ∧ token.piece = .found found ∧
      (before.flatMap Piece.text) = rawOf first := by
  rw [parsed.scan_eq] at whole
  obtain ⟨first, rest, rfl, same, tail⟩ := List.map_eq_append_iff.mp whole
  obtain ⟨token, second, rfl, piece, -⟩ := List.map_eq_cons_iff.mp tail
  refine ⟨first, token, second, rfl, piece, ?_⟩
  rw [← same, map_piece_text]

theorem length_found {token : Token} {found : Str} (piece : token.piece = .found found) :
    token.raw.length = found.length := by
  rw [← token.raw_eq, piece]
  rfl

theorem insideMark_iff (parsed : Parsed raw tokens) {offset : ℕ} : InsideMark raw offset ↔
    ∃ before token after, tokens = before ++ token :: after ∧ (rawOf before).length < offset ∧
      offset < (rawOf before).length + token.raw.length := by
  constructor
  · rintro ⟨before, found, after, whole, past, inner⟩
    obtain ⟨first, token, second, same, piece, text⟩ := scan_split parsed whole
    rw [text] at past inner
    exact ⟨first, token, second, same, past, by rwa [length_found piece]⟩
  · rintro ⟨first, token, second, rfl, past, inner⟩
    have whole := parsed.scan_eq
    rw [List.map_append, List.map_cons] at whole
    have found : token.piece = .found token.raw := by
      cases token with
      | plain point =>
          change _ < _ + 1 at inner
          omega
      | gap => rfl
      | doubt marked => rfl
    rw [found] at whole
    exact ⟨_, _, _, whole, by rwa [map_piece_text], by rwa [map_piece_text]⟩

theorem exists_token {offset : ℕ} (within : offset < (rawOf tokens).length) :
    ∃ before token after, tokens = before ++ token :: after ∧ (rawOf before).length ≤ offset ∧
      offset < (rawOf before).length + token.raw.length := by
  induction tokens generalizing offset with
  | nil => exact absurd within (Nat.not_lt_zero _)
  | cons token tokens ih =>
      rw [rawOf_cons, List.length_append] at within
      by_cases here : offset < token.raw.length
      · exact ⟨[], token, tokens, rfl, Nat.zero_le _, by simpa using here⟩
      · obtain ⟨before, other, after, rfl, past, inner⟩ :=
          @ih (offset - token.raw.length) (by omega)
        refine ⟨token :: before, other, after, rfl, ?_, ?_⟩
        · rw [rawOf_cons, List.length_append]
          omega
        · rw [rawOf_cons, List.length_append]
          omega

/-- A character of the reading is one of its text, or one of a mark. -/
theorem plain_of_not_inMark (parsed : Parsed raw tokens) {offset : ℕ} (within : offset < raw.length)
    (outside : ¬ InMark raw offset) : ∃ before point after,
      tokens = before ++ .plain point :: after ∧ (rawOf before).length = offset := by
  rw [← parsed.raw_eq] at within
  obtain ⟨before, token, after, rfl, past, inner⟩ := exists_token within
  have marked : ∀ found, token.piece = .found found → InMark raw offset := by
    intro found piece
    have whole := parsed.scan_eq
    rw [List.map_append, List.map_cons, piece] at whole
    rw [length_found piece] at inner
    exact ⟨_, _, _, whole, by rwa [map_piece_text], by rwa [map_piece_text]⟩
  cases token with
  | plain point =>
      change _ < _ + 1 at inner
      exact ⟨before, point, after, rfl, by omega⟩
  | gap => exact absurd (marked _ rfl) outside
  | doubt doubt => exact absurd (marked _ rfl) outside

/-- The stretch of a reading between two cuts is what it says there of its text. -/
theorem read_middle {before middle after : List Token}
    (parsed : Parsed raw (before ++ middle ++ after)) :
    readDoubtMarks (raw.slice (rawOf before).length (rawOf (before ++ middle)).length) =
      (textOf middle, assessedReport middle) := by
  have stretch : raw.slice (rawOf before).length (rawOf (before ++ middle)).length =
      rawOf middle := by
    rw [← parsed.raw_eq, rawOf_append, rawOf_append, List.length_append, List.append_assoc,
      Str.slice_append]
  have inside : textOf middle <:+: textOf (before ++ middle ++ after) := by
    rw [textOf_append, textOf_append]
    exact ⟨_, _, rfl⟩
  rw [stretch]
  exact (parsed_rawOf (fun opened => parsed.unopened (opened.trans inside))
    fun closed => parsed.unclosed (closed.trans inside)).eq

/-- The tables of a reading that was parsed correspond exactly. -/
theorem Parsed.offsetsExact (parsed : Parsed raw tokens) :
    OffsetsExact raw (readDoubtMarks raw).1 (readDoubtMarks raw).2.uncertainSpans
      (doubtMarkOffsets raw).1 (doubtMarkOffsets raw).2 := by
  have whole := parsed.raw_eq
  rw [parsed.eq, parsed.offsets_eq]
  have size := length_rawToCleanFrom 0 tokens
  have lands : ∀ {offset clean : ℕ}, (rawToCleanFrom 0 (tokens.map Token.piece))[offset]? =
      some (some clean) → ∃ before after, tokens = before ++ after ∧
        (rawOf before).length = offset ∧ (textOf before).length = clean := by
    intro offset clean found
    obtain ⟨before, after, same, past, text⟩ := rawToCleanFrom_some.mp found
    exact ⟨before, after, same, past, by omega⟩
  have within : ∀ {offset clean : ℕ}, (rawToCleanFrom 0 (tokens.map Token.piece))[offset]? =
      some (some clean) → clean < (textOf tokens).length + 1 := by
    intro offset clean found
    obtain ⟨before, after, rfl, -, rfl⟩ := lands found
    rw [textOf_append, List.length_append]
    omega
  constructor
  case rawSize => rw [size, whole]
  case cleanSize => exact length_cleanToRawFrom _ _ _
  case first => exact rawToCleanFrom_some.mpr ⟨[], tokens, rfl, rfl, rfl⟩
  case last =>
    refine rawToCleanFrom_some.mpr ⟨tokens, [], by rw [List.append_nil], by rw [whole], ?_⟩
    exact Nat.zero_add _
  case inside =>
    intro offset
    rw [rawToCleanFrom_none, insideMark_iff parsed]
  case ordered =>
    intro start stop clean later order atStart atStop
    obtain ⟨before, after, rfl, rfl, rfl⟩ := lands atStart
    obtain ⟨first, second, same, rfl, rfl⟩ := lands atStop
    obtain ⟨middle, rfl, -⟩ := cut_of_le same order
    rw [textOf_append, List.length_append]
    omega
  case kept =>
    intro offset inner outside
    obtain ⟨before, point, after, rfl, rfl⟩ := plain_of_not_inMark parsed inner outside
    refine ⟨(textOf before).length,
      rawToCleanFrom_some.mpr ⟨before, _, rfl, rfl, Nat.zero_add _⟩, ?_⟩
    rw [← whole, textOf_append, rawOf_append, List.getElem?_append_right le_rfl,
      List.getElem?_append_right le_rfl, Nat.sub_self, Nat.sub_self]
    rfl
  case least =>
    intro clean offset
    by_cases inner : clean < (textOf tokens).length + 1
    · exact cleanToRawFrom_some inner
    · constructor
      · intro found
        obtain ⟨start, -⟩ := List.getElem?_eq_some_iff.mp found
        rw [length_cleanToRawFrom] at start
        exact absurd start inner
      · exact fun found => absurd (within found.1) inner
  case inReading =>
    intro clean
    change _ ↔ ∃ span ∈ spansFrom 0 tokens, _
    constructor
    · intro found
      obtain ⟨start, -⟩ := List.getElem?_eq_some_iff.mp found
      rw [length_cleanToRawFrom] at start
      have unlisted := (cleanToRawFrom_none start).mp found
      rcases @cut_or_span tokens 0 clean (Nat.zero_le clean) (by omega) with
        ⟨before, after, same, text⟩ | inner
      · have mapped := rawToCleanFrom_some.mpr ⟨before, after, same, rfl, text⟩
        exact absurd (List.mem_of_getElem? mapped) unlisted
      · exact inner
    · rintro ⟨span, listed, past, inner⟩
      have bound := (mem_spansFrom listed).2.2
      refine (cleanToRawFrom_none (by omega)).mpr fun mapped => ?_
      obtain ⟨offset, found⟩ := List.mem_iff_getElem?.mp mapped
      obtain ⟨before, after, same, -, rfl⟩ := rawToCleanFrom_some.mp found
      rcases not_cut_of_span listed same with early | late
      · omega
      · omega
  case slices =>
    intro start stop order inner beforeMark afterMark
    have outside : ∀ offset ≤ raw.length, ¬ InsideMark raw offset →
        ∃ clean, (rawToCleanFrom 0 (tokens.map Token.piece))[offset]? = some (some clean) := by
      intro offset bound outside
      rw [insideMark_iff parsed, ← @rawToCleanFrom_none tokens 0] at outside
      rw [List.getElem?_eq_getElem (by rw [size, whole]; omega), Option.some.injEq] at outside
      obtain ⟨clean, same⟩ := Option.ne_none_iff_exists'.mp outside
      exact ⟨clean, by rw [List.getElem?_eq_getElem (by rw [size, whole]; omega), same]⟩
    obtain ⟨clean, atStart⟩ := outside start (order.trans inner) beforeMark
    obtain ⟨later, atStop⟩ := outside stop inner afterMark
    refine ⟨clean, later, atStart, atStop, ?_⟩
    obtain ⟨before, after, same, rfl, rfl⟩ := lands atStart
    obtain ⟨first, second, rfl, rfl, rfl⟩ := lands atStop
    obtain ⟨middle, rfl, -⟩ := cut_of_le same.symm order
    rw [read_middle parsed]
    refine ⟨rfl, ?_⟩
    simp only [textOf_append, List.append_assoc, List.length_append]
    rw [Str.slice_append]

/-- The offsets of an assessed reading are an exact correspondence with its text. -/
theorem doubtMarkOffsets_exact (raw : Str) (assessed : (readDoubtMarks raw).2.state = .assessed) :
    OffsetsExact raw (readDoubtMarks raw).1 (readDoubtMarks raw).2.uncertainSpans
      (doubtMarkOffsets raw).1 (doubtMarkOffsets raw).2 := by
  obtain ⟨tokens, parsed⟩ := state_assessed_iff.mp assessed
  exact parsed.offsetsExact

/-- A reading with a doubt between two letters and a gap at its end. -/
theorem doubtMarkOffsets_exact_sample :
    OffsetsExact (str "a[[b|c]]d[[?]]") (readDoubtMarks (str "a[[b|c]]d[[?]]")).1
      (readDoubtMarks (str "a[[b|c]]d[[?]]")).2.uncertainSpans
      (doubtMarkOffsets (str "a[[b|c]]d[[?]]")).1 (doubtMarkOffsets (str "a[[b|c]]d[[?]]")).2 :=
  doubtMarkOffsets_exact _ (by decide)

end Exact

end Verbatus.DoubtMarks
