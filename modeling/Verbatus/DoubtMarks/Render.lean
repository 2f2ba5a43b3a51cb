import Verbatus.DoubtMarks.Weave

namespace Verbatus.DoubtMarks

open Library Library.Checked Refusal Python CodePoint

section Rendering

/-- The layer a page reading's report makes. -/
def Report.layer (report : Report) : Layer where
  uncertainSpans := report.uncertainSpans
  gaps := report.gaps
  selfRevisions := false
  assessment := ⟨report.state, report.problem⟩
  lectioKind := .pageRead

/-- A doubtful reading as the reader marks it. -/
def markOf (reading : Str) (alternatives : List Str) : Str :=
  opening ++ [bar].intercalate (reading :: alternatives) ++ closing

/-- Each mark to be written, the gaps numbered and the spans by where they stop. -/
def renderInserts (text : Str) (report : Report) : List Insert :=
  (report.gaps.zipIdx.map fun gap => ⟨gap.1.start, 0, gap.2, illegibleMark⟩) ++
    report.uncertainSpans.map (spanInsert markOf text)

/-- Where the text goes on after an insert: a gap takes no text's place. -/
def renderStop (insert : Insert) : ℕ := if insert.kind = 0 then insert.start else insert.tie

def marksOverlap : Refusal :=
  .schemaRefusal "the doubt report's marks overlap, so no marked reading holds them"

/-- The marked reading that `readDoubtMarks` splits into the text and the report. -/
def renderDoubtMarks (text : Str) (report : Report) : Except Refusal Str := do
  let _ ← validate report.layer text
  if report.state ≠ .assessed then .ok text
  else
    let rendered ← weave renderStop marksOverlap text 0
      (sortBy Insert.key (renderInserts text report))
    require (readDoubtMarks rendered = (text, report))
      (.schemaRefusal "the doubt report cannot be written as marks that read back to it")
    .ok rendered

end Rendering

section RoundTrip

variable {raw : Str} {tokens : List Token}

/-- What a reading reports is a page reading's layer over the text it returns. -/
theorem validate_readDoubtMarks (raw : Str) :
    validate (readDoubtMarks raw).2.layer (readDoubtMarks raw).1 =
      .ok (readDoubtMarks raw).2.layer := by
  rcases readDoubtMarks_cases raw with ⟨tokens, parsed⟩ | ⟨problem, named, same⟩
  · rw [parsed.eq, assessedReport_eq]
    have gaps : ∀ gap ∈ (gapOffsetsFrom 0 (recorded tokens)).map (gapAt (textOf tokens)),
        ∃ offset ≤ (textOf tokens).length, gap = gapAt (textOf tokens) offset := by
      intro gap listed
      obtain ⟨offset, place, rfl⟩ := List.mem_map.mp listed
      have within := (mem_gapOffsetsFrom place).2
      rw [textOf_recorded, Nat.zero_add] at within
      exact ⟨offset, within, rfl⟩
    refine validate_of_anchored rfl rfl rfl ⟨?_, ?_⟩ ?_ ?_
    · intro span listed
      obtain ⟨-, some, within⟩ := mem_spansFrom listed
      rw [textOf_recorded, Nat.zero_add] at within
      exact ⟨some, within⟩
    · intro gap listed
      obtain ⟨offset, within, rfl⟩ := gaps gap listed
      exact ⟨rfl, within⟩
    · intro gap listed
      obtain ⟨offset, within, rfl⟩ := gaps gap listed
      refine ⟨rfl, ?_, checkPosition_gapAt within⟩
      rw [gapAt, gapPosition]
      split_ifs <;> simp
    · intro some blank
      refine some ?_
      change (gapOffsetsFrom 0 (recorded tokens)).map _ = []
      rw [recorded, if_pos blank, gapOffsetsFrom_filter]
      rfl
  · rw [same]
    have recordedProblem : validateAssessmentRecord ⟨.malformed, some problem⟩ = .ok () := by
      rw [validateAssessmentRecord, require_bind_eq_ok, require_eq_ok]
      exact ⟨by simpa using named, by simp⟩
    refine validate_of_anchored rfl rfl recordedProblem ⟨?_, ?_⟩ ?_ ?_
    · exact fun span listed => absurd listed List.not_mem_nil
    · exact fun gap listed => absurd listed List.not_mem_nil
    · exact fun gap listed => absurd listed List.not_mem_nil
    · exact fun some => absurd rfl some

theorem shown_markOf : Token.shown illegibleMark markOf = Token.raw := by
  funext token
  cases token <;> rfl

theorem renderInserts_assessed (tokens : List Token) :
    renderInserts (textOf tokens) (assessedReport tokens) =
      (gapOffsetsFrom 0 (recorded tokens)).zipIdx.map (gapInsert (fun index _ => index)
        illegibleMark) ++
        (spansFrom 0 (recorded tokens)).map (spanInsert markOf (textOf (recorded tokens))) := by
  rw [renderInserts, assessedReport_eq, textOf_recorded, List.zipIdx_map, List.map_map]
  rfl

/-- An assessed reading renders as the tokens its report records. -/
theorem Parsed.render_eq (parsed : Parsed raw tokens) :
    renderDoubtMarks (textOf tokens) (assessedReport tokens) = .ok (rawOf (recorded tokens)) := by
  have valid := validate_readDoubtMarks raw
  rw [parsed.eq] at valid
  have woven := @weave_tokens (fun index _ => index) illegibleMark markOf renderStop marksOverlap
    (fun _ _ _ order => order) (fun _ _ => rfl) (fun _ _ _ => rfl) (recorded tokens)
  rw [← renderInserts_assessed, textOf_recorded, shown_markOf] at woven
  have unopened := parsed.unopened
  have unclosed := parsed.unclosed
  rw [← textOf_recorded] at unopened unclosed
  have back := (parsed_rawOf unopened unclosed).eq
  rw [textOf_recorded, assessedReport_recorded] at back
  rw [renderDoubtMarks, valid, ok_bind]
  change (weave _ _ _ _ _ >>= _) = _
  rw [woven, ok_bind]
  exact require_bind_of back

theorem illegible_of_gap (gap : .gap ∈ tokens) : illegibleMark <:+: rawOf tokens := by
  obtain ⟨before, after, rfl⟩ := List.append_of_mem gap
  refine ⟨rawOf before, rawOf after, ?_⟩
  rw [rawOf_append, rawOf_cons, List.append_assoc]
  rfl

/-- Reading a marked text and rendering what was read are inverse. -/
theorem renderDoubtMarks_readDoubtMarks (raw : Str) :
    validate (readDoubtMarks raw).2.layer (readDoubtMarks raw).1 =
        .ok (readDoubtMarks raw).2.layer ∧
      (∃ rendered, renderDoubtMarks (readDoubtMarks raw).1 (readDoubtMarks raw).2 = .ok rendered ∧
        ((readDoubtMarks raw).2.state = .malformed ∨
          (∃ point ∈ (readDoubtMarks raw).1, point.isSpace = false) ∨
          ¬ illegibleMark <:+: raw → rendered = raw)) ∧
      ∀ text report rendered, report.state = .assessed →
        renderDoubtMarks text report = .ok rendered → readDoubtMarks rendered = (text, report) := by
  refine ⟨validate_readDoubtMarks raw, ?_, ?_⟩
  · rcases readDoubtMarks_cases raw with ⟨tokens, parsed⟩ | ⟨problem, named, same⟩
    · rw [parsed.eq]
      refine ⟨_, parsed.render_eq, fun kept => ?_⟩
      have all : recorded tokens = tokens := by
        refine recorded_of ?_
        rcases kept with malformed | ink | none
        · cases malformed
        · exact .inl ink
        · refine .inr fun gap => none ?_
          rw [← parsed.raw_eq]
          exact illegible_of_gap gap
      rw [all, parsed.raw_eq]
    · have valid := validate_readDoubtMarks raw
      rw [same] at valid ⊢
      refine ⟨raw, ?_, fun _ => rfl⟩
      rw [renderDoubtMarks, valid, ok_bind]
      rfl
  · intro text report rendered assessed accepted
    rw [renderDoubtMarks] at accepted
    obtain ⟨_, -, accepted⟩ := bind_eq_ok.mp accepted
    rw [if_neg (not_not.mpr assessed)] at accepted
    obtain ⟨woven, -, accepted⟩ := bind_eq_ok.mp accepted
    obtain ⟨back, same⟩ := require_bind_eq_ok.mp accepted
    rw [Except.ok.injEq] at same
    rwa [← same]

end RoundTrip

end Verbatus.DoubtMarks
