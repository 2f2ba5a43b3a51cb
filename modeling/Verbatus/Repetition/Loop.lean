import Verbatus.Library.Checked
import Verbatus.Library.Mapping
import Verbatus.Library.Scan
import Verbatus.Python.StrText
import Verbatus.Refusal

namespace Verbatus.Repetition

open Library Library.Checked Refusal Python

/-- A block is at least two lines; one line repeated is the line rule's. -/
def minBlockLines : ℕ := 2

/-- A checked guard: a loop is at least two repeats, and its largest block a block. -/
structure Guard where
  loopLineRepeats : ℕ
  loopBlockRepeats : ℕ
  loopBlockMaxLines : ℕ
  lines : 2 ≤ loopLineRepeats
  blocks : 2 ≤ loopBlockRepeats
  sizes : minBlockLines ≤ loopBlockMaxLines

def guardFields : List String :=
  ["loop_line_repeats", "loop_block_repeats", "loop_block_max_lines"]

/-- The guard as plain integers: exactly its fields, each sensible. A value that is not a plain
integer is `none`, and so is a guard that is not a mapping. -/
def validateGuard (guard : Option (Mapping String (Option ℤ))) : Except Refusal Guard := do
  let unnamed := Refusal.contractError
    s!"a repetition-loop guard must name exactly {quote guardFields}"
  match guard with
  | none => .error unnamed
  | some values => do
    require ((∀ key ∈ values.keys, key ∈ guardFields) ∧ ∀ key ∈ guardFields, key ∈ values.keys)
      unnamed
    match values.get? "loop_line_repeats", values.get? "loop_block_repeats",
      values.get? "loop_block_max_lines" with
    | some (some line), some (some block), some (some largest) =>
      if repeats : 2 ≤ line ∧ 2 ≤ block then
        if size : (minBlockLines : ℤ) ≤ largest then
          .ok ⟨line.toNat, block.toNat, largest.toNat, by omega, by omega, by omega⟩
        else .error (.contractError
          (s!"a repetition-loop guard's largest block must be at least {minBlockLines} lines"))
      else .error (.contractError
        "a repetition loop is at least two repeats of a line or a block")
    | _, _, _ => .error (.contractError "a repetition-loop guard's values must be integers")

inductive LoopKind where
  | line
  | block
  deriving DecidableEq, Repr

/-- What loops, how many lines the repeated unit has, how many times it ran, and the number of the
non-blank line that reached it. -/
structure Finding where
  kind : LoopKind
  blockLines : ℕ
  repeats : ℕ
  line : ℕ
  deriving DecidableEq

/-- The ends of a line: a newline, or the JSON escape for one, each after an optional return. -/
def lineEnds : List Str :=
  [.ofString "\r\n", .ofString "\n", .ofString "\\r\\n", .ofString "\\n"]

def lineEnd : Pattern CodePoint := .literals lineEnds (by decide) (by decide)

/-- Whether the block is not itself a shorter block repeated. -/
def primitive (block : List Str) : Bool :=
  ¬ (List.range' 1 (block.length - 1)).any fun period =>
    block.length % period = 0 ∧
      block = (List.replicate (block.length / period) (block.take period)).flatten

/-- The last of some lines. -/
def lastLines (count : ℕ) (lines : List Str) : List Str := lines.drop (lines.length - count)

/-- Whether the lines end in their last block, repeated. -/
def endsRepeated (size repeats : ℕ) (lines : List Str) : Bool :=
  (List.range (size * repeats)).all fun index =>
    (lastLines (size * repeats) lines)[index]? = (lastLines size lines)[index % size]?

/-- The loop the last line completes, after how many lines at the tail are the same line. -/
def loopFound (guard : Guard) (lines : List Str) (run : ℕ) : Option Finding :=
  if guard.loopLineRepeats ≤ run then some ⟨.line, 1, run, lines.length⟩ else
  let sizes := List.range' minBlockLines (guard.loopBlockMaxLines + 1 - minBlockLines)
  let spanned := sizes.takeWhile fun size => size * guard.loopBlockRepeats ≤ lines.length
  (spanned.find? fun size => primitive (lastLines size lines) ∧
    endsRepeated size guard.loopBlockRepeats lines).map fun size =>
      ⟨.block, size, guard.loopBlockRepeats, lines.length⟩

/-- A reply's complete lines as they arrive, and the first loop among them. -/
structure LoopScanner where
  pending : Str
  lines : List Str
  run : ℕ
  finding : Option Finding

namespace LoopScanner

def start : LoopScanner := ⟨[], [], 0, none⟩

variable (guard : Guard) (scanner : LoopScanner)

def add (line : Str) : LoopScanner :=
  let run := if scanner.lines.getLast? = some line then scanner.run + 1 else 1
  let lines := scanner.lines ++ [line]
  { scanner with lines, run, finding := loopFound guard lines run }

/-- Each piece as a line, trimmed and not blank, until one completes a loop. -/
def addPieces : LoopScanner → List Str → LoopScanner
  | scanner, [] => scanner
  | scanner, piece :: pieces =>
    let line := piece.strip
    if line = [] then addPieces scanner pieces else
    let next := scanner.add guard line
    if next.finding.isSome then next else addPieces next pieces

/-- Takes the next piece of the reply. The last stretch has no line end yet, so it stays pending,
with what may be the start of one. -/
def feed (text : Str) : LoopScanner :=
  if scanner.finding.isSome then scanner else
  let pieces := lineEnd.split (scanner.pending ++ text)
  addPieces guard { scanner with pending := pieces.getLast?.getD [] } pieces.dropLast

end LoopScanner

/-- The first loop in the whole reply. -/
def firstRepetitionLoop (guard : Guard) (text : Str) : Option Finding :=
  (LoopScanner.start.feed guard text).finding

/-- The non-blank lines of a text that have ended, each trimmed. -/
def completeLines (text : Str) : List Str :=
  ((lineEnd.split text).dropLast.map Str.strip).filter fun line => line ≠ []

end Verbatus.Repetition
