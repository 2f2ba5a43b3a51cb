import Verbatus.Repetition.Judged

namespace Verbatus.Repetition

open Library Python

variable {guard : Guard} {lines : List Str} {scanner : LoopScanner}

/-- The lines of some pieces, each trimmed, without the blank ones. -/
def pieceLines (pieces : List Str) : List Str :=
  (pieces.map Str.strip).filter fun line => line ≠ []

theorem lineEnd_closes : lineEnd.Closes :=
  Pattern.literals_closes (by decide) (by decide) (by decide)

section Stopped

theorem Stopped.append {finding : Finding} (stopped : Stopped guard lines finding)
    (more : List Str) : Stopped guard (lines ++ more) finding where
  within := stopped.within.trans (by simp)
  shown := by
    rw [List.take_append_of_le_length stopped.within]
    exact stopped.shown
  first := by
    intro count below
    rw [List.take_append_of_le_length (below.le.trans stopped.within)]
    exact stopped.first count below

/-- There is one first loop. -/
theorem Stopped.unique {finding other : Finding} (stopped : Stopped guard lines finding)
    (also : Stopped guard lines other) : finding = other := by
  have line : finding.line = other.line := by
    rcases Nat.lt_trichotomy finding.line other.line with below | same | below
    · exact absurd stopped.shown.loops (also.first _ below)
    · exact same
    · exact absurd also.shown.loops (stopped.first _ below)
  have first := stopped.shown.unit
  have second := also.shown.unit
  rw [line] at first
  cases finding
  cases other
  simp only [Finding.mk.injEq] at first second line ⊢
  rcases first with ⟨looped, rfl, rfl, rfl⟩ | ⟨unlooped, rfl, block, least, rfl⟩
  · rcases second with ⟨-, rfl, rfl, rfl⟩ | ⟨unlooped, -⟩
    · exact ⟨rfl, rfl, rfl, line⟩
    · exact absurd looped unlooped
  · rcases second with ⟨looped, -⟩ | ⟨-, rfl, other, smallest, rfl⟩
    · exact absurd looped unlooped
    · refine ⟨rfl, ?_, rfl, line⟩
      exact le_antisymm (not_lt.mp fun below => least _ below other)
        (not_lt.mp fun below => smallest _ below block)

theorem Stopped.not_judged {finding : Finding} (stopped : Stopped guard lines finding) :
    ¬ Judged guard lines scanner :=
  fun judged => judged.sound _ stopped.within stopped.shown.loops

end Stopped

section Pieces

theorem addPieces_pending (scanner : LoopScanner) (pieces : List Str) :
    (LoopScanner.addPieces guard scanner pieces).pending = scanner.pending := by
  induction pieces generalizing scanner with
  | nil => rfl
  | cons piece pieces ih =>
      unfold LoopScanner.addPieces
      dsimp only
      split_ifs
      · exact ih scanner
      · rfl
      · exact ih _

/-- Pieces are judged line by line, up to the first loop. -/
theorem Judged.addPieces (judged : Judged guard lines scanner) (pieces : List Str) :
    Judged guard (lines ++ pieceLines pieces) (LoopScanner.addPieces guard scanner pieces) ∨
      ∃ finding, (LoopScanner.addPieces guard scanner pieces).finding = some finding ∧
        Stopped guard (lines ++ pieceLines pieces) finding := by
  induction pieces generalizing lines scanner with
  | nil => exact .inl (by simpa [pieceLines, LoopScanner.addPieces] using judged)
  | cons piece pieces ih =>
      unfold LoopScanner.addPieces
      dsimp only
      split_ifs with blank stopped
      · have same : pieceLines (piece :: pieces) = pieceLines pieces := by
          rw [pieceLines, List.map_cons, List.filter_cons_of_neg (by simpa using blank)]
          rfl
        rw [same]
        exact ih judged
      all_goals
        have same : pieceLines (piece :: pieces) = piece.strip :: pieceLines pieces := by
          rw [pieceLines, List.map_cons, List.filter_cons_of_pos (by simpa using blank)]
          rfl
        rw [same, List.append_cons]
        rcases judged.add piece.strip with ⟨silent, next⟩ | ⟨finding, found, -, first⟩
      · rw [silent] at stopped
        cases stopped
      · exact .inr ⟨finding, found, first.append _⟩
      · exact ih next
      · rw [found] at stopped
        exact absurd rfl stopped

end Pieces

section Fed

/-- A scanner that was fed a text: it has judged the lines that ended and holds the rest, or it
stopped at their first loop. -/
inductive Fed (guard : Guard) (text : Str) (scanner : LoopScanner) : Prop where
  | judged (lines : Judged guard (completeLines text) scanner)
      (rest : scanner.pending = (lineEnd.split text).getLast (Pattern.split_ne_nil text))
  | stopped (finding : Finding) (found : scanner.finding = some finding)
      (first : Stopped guard (completeLines text) finding)

theorem fed_start : Fed guard [] .start := .judged judged_start rfl

/-- The lines of a longer text are those that had ended, and those that end with the rest. -/
theorem completeLines_append (text piece : Str) : completeLines (text ++ piece) =
    completeLines text ++ pieceLines (lineEnd.split
      ((lineEnd.split text).getLast (Pattern.split_ne_nil text) ++ piece)).dropLast := by
  rw [completeLines, lineEnd_closes.split_append,
    List.dropLast_append_of_ne_nil (Pattern.split_ne_nil _), List.map_append, List.filter_append]
  rfl

/-- One more piece keeps a scanner fed. -/
theorem Fed.feed {text : Str} (fed : Fed guard text scanner) (piece : Str) :
    Fed guard (text ++ piece) (scanner.feed guard piece) := by
  cases fed with
  | judged judged rest =>
      have open_ : scanner.finding.isSome = false := by
        rw [judged.silent]
        rfl
      have fed : scanner.feed guard piece = LoopScanner.addPieces guard
          { scanner with pending := (lineEnd.split (scanner.pending ++ piece)).getLast?.getD [] }
          (lineEnd.split (scanner.pending ++ piece)).dropLast := if_neg (by simp [open_])
      have ready : Judged guard (completeLines text)
          { scanner with pending := (lineEnd.split (scanner.pending ++ piece)).getLast?.getD [] } :=
        ⟨judged.kept, judged.run, judged.silent, judged.sound⟩
      have lines := completeLines_append text piece
      rw [← rest] at lines
      rcases ready.addPieces (lineEnd.split (scanner.pending ++ piece)).dropLast with
        judged | ⟨finding, found, first⟩
      · rw [← lines, ← fed] at judged
        refine .judged judged ?_
        rw [fed, addPieces_pending]
        simp only [lineEnd_closes.split_append text piece, ← rest,
          List.getLast_append_of_ne_nil _ (Pattern.split_ne_nil (scanner.pending ++ piece)),
          List.getLast?_eq_some_getLast (Pattern.split_ne_nil (scanner.pending ++ piece)),
          Option.getD_some]
      · rw [← lines] at first
        rw [← fed] at found
        exact .stopped finding found first
  | stopped finding found first =>
      have kept : scanner.feed guard piece = scanner := if_pos (by rw [found]; rfl)
      refine .stopped finding (by rw [kept, found]) ?_
      rw [completeLines_append]
      exact first.append _

/-- A scanner fed piece by piece was fed the whole text. -/
theorem Fed.foldl {text : Str} (fed : Fed guard text scanner) (pieces : List Str) :
    Fed guard (text ++ pieces.flatten) (pieces.foldl (LoopScanner.feed guard) scanner) := by
  induction pieces generalizing text scanner with
  | nil => rwa [List.flatten_nil, List.append_nil]
  | cons piece pieces ih =>
      rw [List.flatten_cons, ← List.append_assoc, List.foldl_cons]
      exact ih (fed.feed piece)

theorem fed_pieces (guard : Guard) (pieces : List Str) :
    Fed guard pieces.flatten (pieces.foldl (LoopScanner.feed guard) .start) :=
  fed_start.foldl pieces

theorem fed_whole (guard : Guard) (text : Str) :
    Fed guard text (LoopScanner.start.feed guard text) := fed_start.feed text

/-- What a scanner was fed decides what it found. -/
theorem Fed.finding {text : Str} {other : LoopScanner} (fed : Fed guard text scanner)
    (also : Fed guard text other) : scanner.finding = other.finding := by
  cases fed with
  | judged judged _ =>
      cases also with
      | judged judged' _ => rw [judged.silent, judged'.silent]
      | stopped finding _ first => exact absurd judged first.not_judged
  | stopped finding found first =>
      cases also with
      | judged judged _ => exact absurd judged first.not_judged
      | stopped other found' first' => rw [found, found', first.unique first']

/-- A longer text is found to loop where a part of it does, and nowhere before. -/
theorem Fed.finding_append {text more : Str} {other : LoopScanner} (fed : Fed guard text scanner)
    (longer : Fed guard (text ++ more) other) : scanner.finding =
      other.finding.filter fun finding => finding.line ≤ (completeLines text).length := by
  cases fed with
  | judged judged _ =>
      rw [judged.silent]
      cases longer with
      | judged judged' _ =>
          rw [judged'.silent]
          rfl
      | stopped finding found first =>
          rw [found, Option.filter_some, if_neg]
          rw [decide_eq_true_eq]
          intro early
          have shown := first.shown
          rw [completeLines_append, List.take_append_of_le_length early] at shown
          exact judged.sound _ early shown.loops
  | stopped finding found first =>
      have same : Stopped guard (completeLines (text ++ more)) finding := by
        rw [completeLines_append]
        exact first.append _
      cases longer with
      | judged judged _ => exact absurd judged same.not_judged
      | stopped other found' first' =>
          rw [found, found', ← same.unique first', Option.filter_some,
            if_pos (decide_eq_true first.within)]

end Fed

/-- A return and its newline that come in two pieces end one line. -/
example : [Str.ofString "a\r", Str.ofString "\na\\", Str.ofString "nb\n"].map completeLines =
      [[], [], [.ofString "nb"]] ∧
    completeLines (.ofString "a\r\na\\nb\n") = [.ofString "a", .ofString "a", .ofString "b"] := by
  decide

/-- However a text is split into pieces, the scanner finds the first loop of its complete lines, and
first at the piece that completes it. -/
theorem loopScanner_chunking (guard : Guard) (pieces : List Str) :
    (pieces.foldl (LoopScanner.feed guard) .start).finding =
        firstRepetitionLoop guard pieces.flatten ∧
      (∀ count, ((pieces.take count).foldl (LoopScanner.feed guard) .start).finding =
        (firstRepetitionLoop guard pieces.flatten).filter fun finding =>
          finding.line ≤ (completeLines (pieces.take count).flatten).length) ∧
      match firstRepetitionLoop guard pieces.flatten with
      | none => ∀ count ≤ (completeLines pieces.flatten).length,
          ¬ Loops guard ((completeLines pieces.flatten).take count)
      | some finding => Stopped guard (completeLines pieces.flatten) finding := by
  have whole := fed_whole guard pieces.flatten
  refine ⟨(fed_pieces guard pieces).finding whole, fun count => ?_, ?_⟩
  · have parts : pieces.flatten = (pieces.take count).flatten ++ (pieces.drop count).flatten := by
      rw [← List.flatten_append, List.take_append_drop]
    rw [firstRepetitionLoop]
    rw [parts] at whole ⊢
    exact (fed_pieces guard (pieces.take count)).finding_append whole
  · rw [firstRepetitionLoop]
    cases whole with
    | judged judged _ =>
        rw [judged.silent]
        exact judged.sound
    | stopped finding found first =>
        rw [found]
        exact first

end Verbatus.Repetition
