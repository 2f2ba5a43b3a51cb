import Verbatus.Capacity.Resize
import Verbatus.Python.StrText

namespace Verbatus.Capacity

open Library Library.Checked Python

/-- `len(text.encode("utf-8"))`; a lone surrogate has no encoding. -/
def byteLength (text : Str) : Option ℕ :=
  (text.mapM CodePoint.scalar?).map fun characters => (characters.map Char.utf8Size).sum

/-- NFC, with what Unicode says of it that the charge rests on. -/
structure Composition where
  nfc : Str → Str
  /-- White space composes with nothing before it or after it. -/
  nfc_white : ∀ before white after, CodePoint.isSpace white = true →
    nfc (before ++ white :: after) = nfc before ++ nfc [white] ++ nfc after
  /-- No composed character stands for more code points than twice its bytes. -/
  nfc_half : ∀ text bytes, byteLength (nfc text) = some bytes → text.length ≤ 2 * bytes

variable (composition : Composition)

def textBytes (text : Str) : Option ℕ := byteLength (composition.nfc text)

/-- One token a byte, as sent or composed, whichever is more. -/
def reportedBytes (text : Str) : Except Raised ℕ :=
  match byteLength text, textBytes composition text with
  | some sent, some composed => .ok (max sent composed)
  | _, _ => .error .unicodeEncodeError

def rateNumerator : ℕ := 4127

def safetyMargin : ℕ × ℕ := (105, 100)

def rateBoundTokens (characters : ℤ) : ℤ :=
  -(-characters * rateNumerator * safetyMargin.1 / (10000 * safetyMargin.2))

/-- `re.split(r"(\s+)", text)`: the words and the white space between them in turn, first and last
    a word that may be empty. -/
def splitWhite (white : Bool) (run : Str) : Str → List Str
  | [] => if white then [run, []] else [run]
  | character :: rest =>
      if character.isSpace = white then splitWhite white (run ++ [character]) rest
      else run :: splitWhite (!white) [character] rest

def isAsciiDigit (character : CodePoint) : Bool := 48 ≤ character.code && character.code ≤ 57

def hasDigit (run : Str) : Bool := run.any isAsciiDigit

/-- The bytes and the characters charged once one more run is. -/
def chargeRun (charged : ℕ × ℕ) (run : Str) : Except Raised (ℕ × ℕ) :=
  if hasDigit run then do return (charged.1 + (← reportedBytes composition run), charged.2)
  else .ok (charged.1, charged.2 + run.length)

def chargePart (charged : ℕ × ℕ) (part : Str × Bool) : Except Raised (ℕ × ℕ) :=
  if part.2 then do return (charged.1 + (← reportedBytes composition part.1), charged.2)
  else (splitWhite false [] part.1).foldlM (chargeRun composition) charged

/-- `(byte_charged_bytes, rate_charged_characters)` -/
def pagePromptCharge (parts : List (Str × Bool)) : Except Raised (ℕ × ℕ) :=
  parts.foldlM (chargePart composition) (0, 0)

/-- The pieces a prompt is charged by, each by its bytes or at the rate. -/
def pieces (parts : List (Str × Bool)) : List (Str × Bool) :=
  parts.flatMap fun part =>
    if part.2 then [(part.1, true)]
    else (splitWhite false [] part.1).map fun run => (run, hasDigit run)

/-- The bytes of what is charged by its bytes. -/
def byteCharge (charged : List (Str × Bool)) : Except Raised ℕ := do
  return ((← (charged.filter Prod.snd).mapM fun piece => reportedBytes composition piece.1)).sum

/-- The characters of what is charged at the rate. -/
def rateCharge (charged : List (Str × Bool)) : ℕ :=
  ((charged.filter fun piece => !piece.2).map fun piece => piece.1.length).sum

/-- The runs of a text join to it. -/
theorem splitWhite_flatten (white : Bool) (run text : Str) :
    (splitWhite white run text).flatten = run ++ text := by
  induction text generalizing white run with
  | nil =>
      cases white with
      | false => simp [splitWhite]
      | true => simp [splitWhite]
  | cons character rest ih =>
      rw [splitWhite]
      split_ifs
      · rw [ih, List.append_assoc, List.singleton_append]
      · rw [List.flatten_cons, ih, List.singleton_append]

/-- Every character of the parts is in one piece. -/
theorem pieces_flatten (parts : List (Str × Bool)) :
    ((pieces parts).map Prod.fst).flatten = (parts.map Prod.fst).flatten := by
  induction parts with
  | nil => rfl
  | cons part rest ih =>
      obtain ⟨text, reported⟩ := part
      rw [pieces, List.flatMap_cons, List.map_append, List.flatten_append, List.map_cons,
        List.flatten_cons, ← ih]
      congr 1
      cases reported with
      | true => simp
      | false =>
          have runs : ((splitWhite false [] text).map fun run => (run, hasDigit run)).map Prod.fst =
              splitWhite false [] text := by
            rw [List.map_map]
            exact List.map_id _
          rw [if_neg (by simp), runs, splitWhite_flatten, List.nil_append]

/-- One piece charged. -/
def chargePiece (charged : ℕ × ℕ) (piece : Str × Bool) : Except Raised (ℕ × ℕ) :=
  if piece.2 then do return (charged.1 + (← reportedBytes composition piece.1), charged.2)
  else .ok (charged.1, charged.2 + piece.1.length)

/-- A prompt is charged piece by piece. -/
theorem foldlM_chargePart (parts : List (Str × Bool)) (charged : ℕ × ℕ) :
    parts.foldlM (chargePart composition) charged =
      (pieces parts).foldlM (chargePiece composition) charged := by
  induction parts generalizing charged with
  | nil => rfl
  | cons part rest ih =>
      have head : chargePart composition charged part =
          (if part.2 then [(part.1, true)]
            else (splitWhite false [] part.1).map fun run => (run, hasDigit run)).foldlM
              (chargePiece composition) charged := by
        unfold chargePart
        split_ifs
        · simp [List.foldlM_cons, chargePiece]
        · rw [List.foldlM_map]
          rfl
      rw [List.foldlM_cons, head, pieces, List.flatMap_cons, List.foldlM_append]
      congr 1
      funext next
      exact ih next

variable {composition}

theorem foldlM_chargePiece {charged : List (Str × Bool)} {start result : ℕ × ℕ} :
    charged.foldlM (chargePiece composition) start = .ok result ↔
      ∃ bytes, byteCharge composition charged = .ok bytes ∧
        result = (start.1 + bytes, start.2 + rateCharge charged) := by
  induction charged generalizing start with
  | nil =>
      have none : byteCharge composition [] = .ok 0 := rfl
      simp only [List.foldlM_nil, pure_eq_ok, none, Except.ok.injEq, exists_eq_left']
      exact eq_comm
  | cons piece rest ih =>
      obtain ⟨text, byBytes⟩ := piece
      rw [List.foldlM_cons]
      cases byBytes with
      | true =>
          have bytes : ∀ total, byteCharge composition ((text, true) :: rest) = .ok total ↔
              ∃ first, reportedBytes composition text = .ok first ∧
                ∃ later, byteCharge composition rest = .ok later ∧ total = first + later := by
            intro total
            simp only [byteCharge, List.filter_cons_of_pos, List.mapM_cons, bind_eq_ok, pure_eq_ok]
            constructor
            · rintro ⟨_, ⟨first, counted, others, listed, rfl⟩, rfl⟩
              exact ⟨first, counted, _, ⟨others, listed, rfl⟩, List.sum_cons⟩
            · rintro ⟨first, counted, _, ⟨others, listed, rfl⟩, rfl⟩
              exact ⟨_, ⟨first, counted, others, listed, rfl⟩, List.sum_cons⟩
          have rate : rateCharge ((text, true) :: rest) = rateCharge rest := rfl
          rw [bind_eq_ok, rate]
          constructor
          · rintro ⟨next, made, continued⟩
            rw [chargePiece, if_pos rfl] at made
            obtain ⟨first, counted, made⟩ := bind_eq_ok.mp made
            obtain rfl := pure_eq_ok.mp made
            obtain ⟨later, listed, rfl⟩ := ih.mp continued
            exact ⟨first + later, (bytes _).mpr ⟨first, counted, later, listed, rfl⟩,
              by rw [Nat.add_assoc]⟩
          · rintro ⟨total, counted, rfl⟩
            obtain ⟨first, made, later, listed, rfl⟩ := (bytes _).mp counted
            refine ⟨(start.1 + first, start.2), ?_, ih.mpr ⟨later, listed, by rw [Nat.add_assoc]⟩⟩
            rw [chargePiece, if_pos rfl, made]
            rfl
      | false =>
          have bytes : byteCharge composition ((text, false) :: rest) =
              byteCharge composition rest := rfl
          have rate : rateCharge ((text, false) :: rest) = text.length + rateCharge rest := by
            simp [rateCharge]
          rw [bytes, rate]
          change rest.foldlM (chargePiece composition) (start.1, start.2 + text.length) = _ ↔ _
          rw [ih]
          simp only [Nat.add_assoc]

/-- A prompt's charge is that of its pieces. -/
theorem pagePromptCharge_eq_ok {parts : List (Str × Bool)} {result : ℕ × ℕ} :
    pagePromptCharge composition parts = .ok result ↔
      byteCharge composition (pieces parts) = .ok result.1 ∧
        result.2 = rateCharge (pieces parts) := by
  rw [pagePromptCharge, foldlM_chargePart, foldlM_chargePiece]
  constructor
  · rintro ⟨bytes, counted, rfl⟩
    exact ⟨by simpa using counted, by simp⟩
  · rintro ⟨counted, rate⟩
    exact ⟨result.1, counted, by simp [← rate]⟩

end Verbatus.Capacity
