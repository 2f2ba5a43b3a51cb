import Mathlib.Data.List.TakeWhile
import Verbatus.Churro.Escape
import Verbatus.Library.Checked
import Verbatus.Refusal

namespace Verbatus.Churro

open Library Python

/-- `_ASCII_WHITESPACE` -/
def asciiWhitespace : CodePoint → Bool :=
  oneOf fun character => character = ' ' || character = '\t' || character = '\n' ||
    character = '\r' || character = '\x0c' || character = '\x0b'

def visible (point : CodePoint) : Bool := !asciiWhitespace point

def space : CodePoint := .scalar ' '

def newline : CodePoint := .scalar '\n'

/-- The parts of a text between runs of ASCII whitespace that are not empty. -/
def textRuns (text : Str) : List Str := (text.splitOnP asciiWhitespace).filter (· ≠ [])

/-- A mark: which of the marks begun it is, and where the first character inside it stands. -/
structure Mark where
  ident : ℕ
  start : Option ℕ
  deriving DecidableEq, Repr

/-- `_TextBuilder`, its chunks joined and its newest mark first. -/
structure TextBuilder where
  written : Str
  pendingBreak : ℕ
  pendingSpace : Bool
  marks : List Mark
  begun : ℕ
  deriving DecidableEq, Repr

namespace TextBuilder

variable (builder : TextBuilder)

def empty : TextBuilder := ⟨[], 0, false, [], 0⟩

def length : ℕ := builder.written.length

def emit (text : Str) : TextBuilder := { builder with written := builder.written ++ text }

/-- The pending separator is written; before the first character there is none. -/
def flush : TextBuilder :=
  if builder.length = 0 then { builder with pendingBreak := 0, pendingSpace := false }
  else if builder.pendingBreak ≠ 0 then
    { builder.emit (List.replicate builder.pendingBreak newline) with
      pendingBreak := 0, pendingSpace := false }
  else if builder.pendingSpace then { builder.emit [space] with pendingSpace := false }
  else { builder with pendingSpace := false }

def openMark (length : ℕ) (mark : Mark) : Mark :=
  { mark with start := some (mark.start.getD length) }

def openMarks : TextBuilder :=
  { builder with marks := builder.marks.map (openMark builder.length) }

def askSpace : TextBuilder := { builder with pendingSpace := true }

def addRun (run : Str) : TextBuilder := builder.flush.openMarks.emit run

/-- Append a text, every run of its ASCII whitespace as one space. -/
def add (text : Str) : TextBuilder :=
  match textRuns text with
  | [] => if text ≠ [] ∧ builder.length ≠ 0 then builder.askSpace else builder
  | run :: runs =>
    let started := if text.head?.any asciiWhitespace then builder.askSpace else builder
    let ended := runs.foldl (fun builder run => builder.askSpace.addRun run) (started.addRun run)
    if text.getLast?.any asciiWhitespace then ended.askSpace else ended

/-- Ask for newlines before the next character, if any follows. -/
def breakLine (count : ℕ) : TextBuilder :=
  { builder with
    pendingBreak :=
      if builder.length ≠ 0 then max builder.pendingBreak count else builder.pendingBreak
    pendingSpace := false }

def beginMark : ℕ × TextBuilder :=
  (builder.begun,
    { builder with marks := ⟨builder.begun, none⟩ :: builder.marks, begun := builder.begun + 1 })

/-- The mark on top is closed, and no other; one that wrote nothing is a place. -/
def endMark (ident : ℕ) : Except Refusal ((ℕ × ℕ) × TextBuilder) :=
  match builder.marks with
  | mark :: marks =>
    if mark.ident = ident then
      .ok ((mark.start.getD builder.length, builder.length), { builder with marks := marks })
    else .error (.schemaRefusal "a Churro markup span was closed out of order")
  | [] => .error (.schemaRefusal "a Churro markup span was closed out of order")

/-- One character of an added text. -/
def addPoint (point : CodePoint) : TextBuilder :=
  if asciiWhitespace point then if builder.length ≠ 0 then builder.askSpace else builder
  else builder.addRun [point]

end TextBuilder

section Runs

theorem visible_eq_true {point : CodePoint} :
    visible point = true ↔ asciiWhitespace point = false := by
  rw [visible, Bool.not_eq_true']

theorem textRuns_space {point : CodePoint} (space : asciiWhitespace point = true) (rest : Str) :
    textRuns (point :: rest) = textRuns rest := by
  rw [textRuns, List.splitOnP_cons_eq_if_modifyHead, if_pos space, List.filter_cons_of_neg (by simp), textRuns]

theorem textRuns_blank {text : Str} (blank : ∀ point ∈ text, asciiWhitespace point = true) :
    textRuns text = [] := by
  induction text with
  | nil => rfl
  | cons point rest ih =>
      rw [textRuns_space (blank point (.head _))]
      exact ih fun other listed => blank other (.tail _ listed)

/-- A run ends at the end of its text, or before a space. -/
theorem textRuns_run {run rest : Str} (some : run ≠ [])
    (runs : ∀ point ∈ run, asciiWhitespace point = false)
    (ends : ∀ point ∈ rest.head?, asciiWhitespace point = true) :
    textRuns (run ++ rest) = run :: textRuns rest := by
  cases rest with
  | nil =>
      rw [List.append_nil, textRuns, List.splitOnP_eq_singleton runs,
        List.filter_cons_of_pos (by simpa using some)]
      rfl
  | cons point rest =>
      have blank := ends point rfl
      rw [textRuns, List.splitOnP_append_cons_of_forall_mem runs point blank,
        List.filter_cons_of_pos (by simpa using some), textRuns_space blank, textRuns]

/-- The first run of a text, with what stands before it and what stands after it. -/
theorem textRuns_cons {text run : Str} {runs : List Str} (found : textRuns text = run :: runs) :
    ∃ lead rest, text = lead ++ (run ++ rest) ∧
      (∀ point ∈ lead, asciiWhitespace point = true) ∧ run ≠ [] ∧
      (∀ point ∈ run, asciiWhitespace point = false) ∧
      (∀ point ∈ rest.head?, asciiWhitespace point = true) ∧ textRuns rest = runs := by
  induction text with
  | nil => cases found
  | cons point text ih =>
      cases blank : asciiWhitespace point with
      | true =>
          rw [textRuns_space blank] at found
          obtain ⟨lead, rest, same, leading, others⟩ := ih found
          refine ⟨point :: lead, rest, by rw [same, List.cons_append], ?_, others⟩
          exact List.forall_mem_cons.mpr ⟨blank, leading⟩
      | false =>
          have begins : ∀ other ∈ point :: text.takeWhile visible, asciiWhitespace other = false := by
            refine List.forall_mem_cons.mpr ⟨blank, fun other listed => ?_⟩
            exact visible_eq_true.mp (List.mem_takeWhile_imp listed)
          have ends : ∀ other ∈ (text.dropWhile visible).head?, asciiWhitespace other = true := by
            intro other first
            have failed := List.head?_dropWhile_not visible text
            rw [Option.mem_def.mp first] at failed
            simpa [visible] using failed
          have whole : point :: text = (point :: text.takeWhile visible) ++ text.dropWhile visible := by
            rw [List.cons_append, List.takeWhile_append_dropWhile]
          rw [whole, textRuns_run (List.cons_ne_nil _ _) begins ends, List.cons.injEq] at found
          obtain ⟨rfl, rfl⟩ := found
          exact ⟨[], _, by rw [List.nil_append, ← whole], by simp, List.cons_ne_nil _ _, begins, ends,
            rfl⟩

theorem textRuns_eq_nil {text : Str} :
    textRuns text = [] ↔ ∀ point ∈ text, asciiWhitespace point = true := by
  constructor
  · intro none
    induction text with
    | nil => simp
    | cons point text ih =>
        cases blank : asciiWhitespace point with
        | true =>
            rw [textRuns_space blank] at none
            exact List.forall_mem_cons.mpr ⟨blank, ih none⟩
        | false =>
            exfalso
            rw [textRuns, List.splitOnP_cons_eq_if_modifyHead, if_neg (by rw [blank]; exact Bool.false_ne_true)] at none
            obtain ⟨first, others, split⟩ :=
              List.exists_cons_of_ne_nil (List.splitOnP_ne_nil asciiWhitespace text)
            rw [split, List.modifyHead_cons, List.filter_cons_of_pos (by simp)] at none
            cases none
  · exact textRuns_blank

end Runs

namespace TextBuilder

variable {builder : TextBuilder} {text run : Str}

@[simp] theorem length_emit : (builder.emit text).length = builder.length + text.length :=
  List.length_append

@[simp] theorem length_openMarks : builder.openMarks.length = builder.length := rfl

@[simp] theorem length_askSpace : builder.askSpace.length = builder.length := rfl

theorem openMarks_idem : builder.openMarks.openMarks = builder.openMarks := by
  rw [openMarks, openMarks, TextBuilder.mk.injEq]
  refine ⟨rfl, rfl, rfl, ?_, rfl⟩
  rw [List.map_map]
  rfl

/-- What is written right after a run needs no separator and opens no mark. -/
structure Settled (builder : TextBuilder) : Prop where
  written : builder.length ≠ 0
  noBreak : builder.pendingBreak = 0
  noSpace : builder.pendingSpace = false
  opened : ∀ mark ∈ builder.marks, mark.start.isSome

theorem flush_pending : builder.flush.pendingBreak = 0 ∧ builder.flush.pendingSpace = false := by
  rw [flush]
  split_ifs with empty breaks spaces
  · exact ⟨rfl, rfl⟩
  · exact ⟨rfl, rfl⟩
  · exact ⟨not_not.mp breaks, rfl⟩
  · exact ⟨not_not.mp breaks, rfl⟩

theorem flush_marks : builder.flush.marks = builder.marks := by
  rw [flush]
  split_ifs <;> rfl

theorem addRun_settled (some : run ≠ []) : (builder.addRun run).Settled where
  written := by
    have long := List.length_pos_iff.mpr some
    rw [addRun, length_emit]
    omega
  noBreak := flush_pending.1
  noSpace := flush_pending.2
  opened := by
    intro mark listed
    obtain ⟨before, _, rfl⟩ := List.mem_map.mp listed
    rfl

theorem Settled.flush (settled : builder.Settled) : builder.flush = builder := by
  rw [TextBuilder.flush, if_neg settled.written, if_neg (by simp [settled.noBreak]),
    if_neg (by simp [settled.noSpace]), ← settled.noSpace]

theorem Settled.openMarks (settled : builder.Settled) : builder.openMarks = builder := by
  have same : builder.marks.map (openMark builder.length) = builder.marks := by
    refine (List.map_congr_left fun mark listed => ?_).trans (List.map_id _)
    obtain ⟨start, known⟩ := Option.isSome_iff_exists.mp (settled.opened mark listed)
    rw [openMark, known, Option.getD_some, ← known, id]
  rw [TextBuilder.openMarks, same]

theorem Settled.addRun (settled : builder.Settled) : builder.addRun run = builder.emit run := by
  rw [TextBuilder.addRun, settled.flush, settled.openMarks]

theorem Settled.emit (settled : builder.Settled) : (builder.emit text).Settled where
  written := by
    have long := settled.written
    rw [length_emit]
    omega
  noBreak := settled.noBreak
  noSpace := settled.noSpace
  opened := settled.opened

theorem emit_emit (first second : Str) :
    (builder.emit first).emit second = builder.emit (first ++ second) := by
  rw [emit, emit, emit, List.append_assoc]

theorem addPoint_visible {point : CodePoint} (shown : asciiWhitespace point = false) :
    builder.addPoint point = builder.addRun [point] := by
  rw [addPoint, if_neg (by rw [shown]; exact Bool.false_ne_true)]

theorem Settled.foldl_visible (settled : builder.Settled)
    (shown : ∀ point ∈ run, asciiWhitespace point = false) :
    run.foldl addPoint builder = builder.emit run := by
  induction run generalizing builder with
  | nil => rw [List.foldl_nil, TextBuilder.emit, List.append_nil]
  | cons point run ih =>
      rw [List.foldl_cons, addPoint_visible (shown point (.head _)), settled.addRun,
        ih settled.emit fun other listed => shown other (.tail _ listed), emit_emit]
      rfl

/-- A run added at once is a run added character by character. -/
theorem foldl_visible (some : run ≠ []) (shown : ∀ point ∈ run, asciiWhitespace point = false) :
    run.foldl addPoint builder = builder.addRun run := by
  obtain ⟨point, rest, rfl⟩ := List.exists_cons_of_ne_nil some
  rw [List.foldl_cons, addPoint_visible (shown point (.head _)),
    (addRun_settled (List.cons_ne_nil _ _)).foldl_visible fun other listed =>
      shown other (.tail _ listed), addRun, addRun, emit_emit]
  rfl

theorem foldl_blank (blank : ∀ point ∈ text, asciiWhitespace point = true) :
    text.foldl addPoint builder =
      if text ≠ [] ∧ builder.length ≠ 0 then builder.askSpace else builder := by
  induction text generalizing builder with
  | nil => rw [List.foldl_nil, if_neg (by simp)]
  | cons point text ih =>
      rw [List.foldl_cons, addPoint, if_pos (blank point (.head _)),
        ih fun other listed => blank other (.tail _ listed)]
      by_cases begun : builder.length ≠ 0
      · have asked : ¬ (point :: text = []) ∧ builder.length ≠ 0 := ⟨List.cons_ne_nil _ _, begun⟩
        rw [if_pos begun, if_pos asked]
        split_ifs <;> rfl
      · rw [if_neg begun, if_neg fun both => begun both.2, if_neg fun both => begun both.2]

/-- Before the first character a space that is asked for is forgotten. -/
theorem addRun_askSpace (empty : builder.length = 0) :
    builder.askSpace.addRun run = builder.addRun run := by
  have same : builder.askSpace.flush = builder.flush := by
    rw [flush, flush, length_askSpace, if_pos empty, if_pos empty, askSpace]
  rw [addRun, addRun, same]

theorem getLast?_blank {lead : Str} (some : run ≠ [])
    (shown : ∀ point ∈ run, asciiWhitespace point = false) :
    (lead ++ (run ++ text)).getLast?.any asciiWhitespace = text.getLast?.any asciiWhitespace := by
  cases text with
  | nil =>
      rw [List.append_nil, List.getLast?_append_of_ne_nil _ some,
        List.getLast?_eq_some_getLast some]
      exact shown _ (List.getLast_mem some)
  | cons point rest =>
      rw [List.getLast?_append_of_ne_nil _ (by simp),
        List.getLast?_append_of_ne_nil _ (List.cons_ne_nil _ _)]

theorem foldl_after_run (settled : builder.Settled)
    (ends : ∀ point ∈ text.head?, asciiWhitespace point = true) :
    text.foldl addPoint builder =
      let ended := (textRuns text).foldl (fun builder run => builder.askSpace.addRun run) builder
      if text.getLast?.any asciiWhitespace then ended.askSpace else ended := by
  induction found : textRuns text generalizing builder text with
  | nil =>
      have blank := textRuns_eq_nil.mp found
      rw [foldl_blank blank, List.foldl_nil]
      cases text with
      | nil => rfl
      | cons point rest =>
          rw [if_pos ⟨List.cons_ne_nil _ _, settled.written⟩,
            List.getLast?_eq_some_getLast (List.cons_ne_nil _ _), Option.any_some,
            if_pos (blank _ (List.getLast_mem _))]
  | cons run runs ih =>
      obtain ⟨lead, rest, rfl, leading, some, shown, after, others⟩ := textRuns_cons found
      have begun : lead ≠ [] := by
        rintro rfl
        obtain ⟨point, more, rfl⟩ := List.exists_cons_of_ne_nil some
        have hidden := shown point (.head _)
        rw [ends point rfl] at hidden
        cases hidden
      rw [List.foldl_append, foldl_blank leading, if_pos ⟨begun, settled.written⟩,
        List.foldl_append, foldl_visible some shown, ih (addRun_settled some) after others,
        getLast?_blank some shown, List.foldl_cons]

/-- An added text is read character by character. -/
theorem add_eq_foldl (builder : TextBuilder) (text : Str) :
    builder.add text = text.foldl addPoint builder := by
  rw [add]
  split
  · rename_i none
    rw [foldl_blank (textRuns_eq_nil.mp none)]
  · rename_i run runs found
    obtain ⟨lead, rest, rfl, leading, some, shown, after, others⟩ := textRuns_cons found
    have started : (lead.foldl addPoint builder).addRun run =
        (if (lead ++ (run ++ rest)).head?.any asciiWhitespace then builder.askSpace
          else builder).addRun run := by
      rw [foldl_blank leading]
      cases lead with
      | nil =>
          obtain ⟨point, more, rfl⟩ := List.exists_cons_of_ne_nil some
          rw [if_neg fun both => both.1 rfl, if_neg]
          simp [shown point (.head _)]
      | cons point lead =>
          have first : ((point :: lead) ++ (run ++ rest)).head?.any asciiWhitespace = true :=
            leading point (.head _)
          rw [if_pos first]
          by_cases begun : builder.length = 0
          · rw [if_neg fun both => both.2 begun, addRun_askSpace begun]
          · rw [if_pos ⟨List.cons_ne_nil _ _, begun⟩]
    rw [List.foldl_append, List.foldl_append, foldl_visible some shown, started,
      foldl_after_run (addRun_settled some) after, others, getLast?_blank some shown]

/-- A text added in two pieces is the text added at once. -/
theorem add_append (builder : TextBuilder) (first second : Str) :
    builder.add (first ++ second) = (builder.add first).add second := by
  rw [add_eq_foldl, add_eq_foldl, add_eq_foldl, List.foldl_append]

end TextBuilder

end Verbatus.Churro
