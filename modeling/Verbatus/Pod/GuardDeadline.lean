import Mathlib.Tactic
import Verbatus.Refusal

namespace Verbatus.Pod

/-- A text of single bytes: what the shell holds of a file, or an ASCII file as Python decodes it. -/
abbrev Bytes := List UInt8

section Epochs

def newline : UInt8 := 10

def carriageReturn : UInt8 := 13

def isDigit (byte : UInt8) : Bool := 48 ≤ byte ∧ byte ≤ 57

/-- `is_epoch`, and Python's `isascii` and `isdigit` of a text of single bytes. -/
def isEpoch (text : Bytes) : Bool := text ≠ [] ∧ text.all isDigit

/-- The number that digits write. -/
def epochOf (text : Bytes) : ℕ := text.foldl (fun value digit => 10 * value + (digit.toNat - 48)) 0

/-- `rstrip("\n")`; a command substitution strips the same. -/
def stripNewlines (text : Bytes) : Bytes := (text.reverse.dropWhile (· = newline)).reverse

/-- How far ahead a deadline may lie, in seconds. -/
def guardHorizonSeconds : ℤ := 7 * 86400

end Epochs

/-- The second at which both look at the deadline file, and what is in it if it can be read. -/
structure Observation where
  clock : ℤ
  file : Option Bytes
  deriving DecidableEq, Repr

section Guard

/-- `$(cat "$deadline_file" 2>/dev/null)`: no text for a file that cannot be read, and no NUL. -/
def Observation.latest (observation : Observation) : Bytes :=
  stripNewlines ((observation.file.getD []).filter (· ≠ 0))

/-- `sane_deadline` -/
def saneDeadline (clock : ℤ) (text : Bytes) : Bool :=
  isEpoch text && decide ((epochOf text : ℤ) ≤ clock + guardHorizonSeconds)

/-- What the guard holds between its ticks; a value it ignores is also logged. -/
structure Guard where
  deadline : Bytes
  ignored : Option Bytes
  logged : List Bytes
  deriving DecidableEq, Repr

/-- The deadline part of one tick. -/
def Guard.tick (guard : Guard) (observation : Observation) : Guard :=
  let latest := observation.latest
  if latest ≠ guard.deadline ∧ latest ≠ guard.ignored.getD [] then
    if saneDeadline observation.clock latest then { guard with deadline := latest }
    else { guard with ignored := some latest, logged := guard.logged ++ [latest] }
  else guard

end Guard

section Reader

/-- The text Python reads of a file: each of its three line ends is one newline. -/
def universalNewlines : Bytes → Bytes
  | [] => []
  | [byte] => [if byte = carriageReturn then newline else byte]
  | first :: second :: rest =>
    if first = carriageReturn then
      if second = newline then newline :: universalNewlines rest
      else newline :: universalNewlines (second :: rest)
    else first :: universalNewlines (second :: rest)

/-- `read_text(encoding="ascii").rstrip("\n")`, `None` where it raises. -/
def Observation.text? (observation : Observation) : Option Bytes :=
  match observation.file with
  | some bytes =>
    if bytes.all (· < 128) then some (stripNewlines (universalNewlines bytes)) else none
  | none => none

/-- The most digits `int` converts. -/
def maxStrDigits : ℕ := 4300

/-- The first second of the year 10000, which no datetime holds. -/
def datetimeEnd : ℤ := 253402300800

/-- What pod_run keeps of the deadline file. -/
structure GuardDeadline where
  valid : Option ℕ
  lastText : Option Bytes
  ignored : List Bytes
  deriving DecidableEq, Repr

/-- What one read returns or raises, and what it leaves behind. -/
def GuardDeadline.read (reader : GuardDeadline) (observation : Observation) :
    Except Refusal (Option ℕ) × GuardDeadline :=
  let text := observation.text?.getD []
  let readable := observation.text?.isSome
  if some text = reader.lastText then (.ok reader.valid, reader) else
  let seen := { reader with lastText := some text }
  if isEpoch text ∧ text.length > maxStrDigits then
    (.error (.valueError "Exceeds the limit (4300 digits) for integer string conversion"), seen)
  else if isEpoch text ∧ (epochOf text : ℤ) ≤ observation.clock + guardHorizonSeconds then
    if datetimeEnd ≤ epochOf text then
      (.error (.valueError "year 10000 is out of range"), seen)
    else (.ok (some (epochOf text)), { seen with valid := some (epochOf text) })
  else if (readable ∨ reader.valid.isSome) ∧ text ∉ reader.ignored then
    (.ok reader.valid, { seen with ignored := reader.ignored ++ [text] })
  else (.ok reader.valid, seen)

end Reader

section Watch

/-- A guard as it is armed with a number of hours: its deadline is an epoch. -/
structure Armed where
  deadline : Bytes
  epoch : isEpoch deadline = true

/-- The guard and pod_run's reader of one deadline file. -/
structure Watch where
  guard : Guard
  reader : GuardDeadline

def Armed.watch (armed : Armed) : Watch := ⟨⟨armed.deadline, none, []⟩, ⟨none, none, []⟩⟩

def Watch.next (watch : Watch) (observation : Observation) : Watch :=
  ⟨watch.guard.tick observation, (watch.reader.read observation).2⟩

/-- After every observation the read gave the epoch the guard holds, and what the guard ignored is
named. -/
def Sees : Watch → List Observation → Prop
  | _, [] => True
  | watch, observation :: rest =>
    (watch.reader.read observation).1 =
        .ok (some (epochOf (watch.next observation).guard.deadline)) ∧
      (∀ text ∈ (watch.next observation).guard.logged,
        text ∈ (watch.next observation).reader.ignored) ∧
      Sees (watch.next observation) rest

/-- An observation on which the two agree: one text for both, digits that Python converts, a valid
first value, and no value that the guard ignored last and that has become valid behind another
one. -/
structure Clear (watch : Watch) (observation : Observation) : Prop where
  sameText : observation.text?.getD [] = observation.latest
  short : isEpoch observation.latest → observation.latest.length ≤ maxStrDigits
  inCalendar : saneDeadline observation.clock observation.latest →
    (epochOf observation.latest : ℤ) < datetimeEnd
  begun : watch.reader.valid = none → saneDeadline observation.clock observation.latest
  fresh : saneDeadline observation.clock observation.latest →
    watch.guard.ignored = some observation.latest →
      watch.reader.lastText = some observation.latest ∨
        epochOf watch.guard.deadline = epochOf observation.latest

instance (watch : Watch) (observation : Observation) : Decidable (Clear watch observation) :=
  decidable_of_iff (_ ∧ _ ∧ _ ∧ _ ∧ _)
    ⟨fun ⟨sameText, short, inCalendar, begun, fresh⟩ => ⟨sameText, short, inCalendar, begun, fresh⟩,
      fun ⟨sameText, short, inCalendar, begun, fresh⟩ => ⟨sameText, short, inCalendar, begun, fresh⟩⟩

/-- A run on whose every observation the two agree. -/
def ClearRun : Watch → List Observation → Prop
  | _, [] => True
  | watch, observation :: rest =>
    Clear watch observation ∧ ClearRun (watch.next observation) rest

end Watch

section Texts

variable {observation : Observation} {watch : Watch}

theorem universalNewlines_plain {text : Bytes} (plain : ∀ byte ∈ text, byte ≠ carriageReturn) :
    universalNewlines text = text := by
  induction text using universalNewlines.induct with
  | case1 => rfl
  | case2 byte => rw [universalNewlines, if_neg (plain byte (.head _))]
  | case3 rest ih => exact absurd rfl (plain carriageReturn (.head _))
  | case4 second rest other ih => exact absurd rfl (plain carriageReturn (.head _))
  | case5 first second rest other ih =>
      rw [universalNewlines, if_neg other, ih fun byte listed => plain byte (.tail _ listed)]

/-- Plain bytes are one text for both. -/
theorem text_eq_latest
    (plain : ∀ byte ∈ observation.file.getD [], byte ≠ 0 ∧ byte < 128 ∧ byte ≠ carriageReturn) :
    observation.text?.getD [] = observation.latest := by
  rw [Observation.text?, Observation.latest]
  cases file : observation.file with
  | none => rfl
  | some bytes =>
      rw [file, Option.getD_some] at plain
      have ascii : bytes.all (· < 128) = true := by
        rw [List.all_eq_true]
        exact fun byte listed => decide_eq_true (plain byte listed).2.1
      have kept : bytes.filter (· ≠ 0) = bytes :=
        List.filter_eq_self.mpr fun byte listed => decide_eq_true (plain byte listed).1
      dsimp only
      rw [if_pos ascii, Option.getD_some, Option.getD_some, kept,
        universalNewlines_plain fun byte listed => (plain byte listed).2.2]

theorem saneDeadline_iff {clock : ℤ} {text : Bytes} : saneDeadline clock text ↔
    isEpoch text ∧ (epochOf text : ℤ) ≤ clock + guardHorizonSeconds := by
  rw [saneDeadline, Bool.and_eq_true, decide_eq_true_eq]

theorem ne_nil_of_isEpoch {text : Bytes} (epoch : isEpoch text = true) : text ≠ [] := by
  rw [isEpoch, decide_eq_true_eq] at epoch
  exact epoch.1

end Texts

section Steps

variable {guard : Guard} {reader : GuardDeadline} {observation : Observation}

/-- A valid value becomes the guard's deadline, unless it is the one it ignored last. -/
theorem tick_sane (sane : saneDeadline observation.clock observation.latest)
    (fresh : guard.ignored = some observation.latest →
      epochOf guard.deadline = epochOf observation.latest) :
    epochOf (guard.tick observation).deadline = epochOf observation.latest ∧
      (guard.tick observation).logged = guard.logged ∧
      (observation.latest = (guard.tick observation).deadline ∨
        observation.latest = (guard.tick observation).ignored.getD []) := by
  rw [Guard.tick]
  split_ifs with news
  · exact ⟨rfl, rfl, .inl rfl⟩
  · rw [not_and_or, not_ne_iff, not_ne_iff] at news
    refine ⟨?_, rfl, news⟩
    rcases news with same | same
    · rw [same]
    · refine fresh ?_
      cases ignored : guard.ignored with
      | none =>
          rw [ignored] at same
          exact absurd same (ne_nil_of_isEpoch (saneDeadline_iff.mp sane).1)
      | some text =>
          rw [ignored] at same
          exact congrArg some same.symm

/-- What the guard ignores it logs, and its deadline stays. -/
theorem tick_ignored (guard : Guard) (ignored : ¬ saneDeadline observation.clock observation.latest) :
    (guard.tick observation).deadline = guard.deadline ∧
      (∀ text ∈ (guard.tick observation).logged, text ∈ guard.logged ∨ text = observation.latest) ∧
      (observation.latest = guard.deadline ∨
        observation.latest = (guard.tick observation).ignored.getD []) := by
  rw [Guard.tick]
  split_ifs with news
  · refine ⟨rfl, fun text listed => ?_, .inr rfl⟩
    exact (List.mem_append.mp listed).imp_right List.mem_singleton.mp
  · refine ⟨rfl, fun text listed => .inl listed, ?_⟩
    by_contra neither
    rw [not_or] at neither
    exact news neither

theorem tick_known (known : observation.latest = guard.deadline ∨
    observation.latest = guard.ignored.getD []) : guard.tick observation = guard := by
  rw [Guard.tick]
  rw [if_neg]
  rintro ⟨other, also⟩
  exact known.elim other also

theorem read_known (text : observation.text?.getD [] = observation.latest)
    (seen : reader.lastText = some observation.latest) :
    reader.read observation = (.ok reader.valid, reader) := by
  rw [GuardDeadline.read]
  rw [text, if_pos seen.symm]

theorem read_sane (text : observation.text?.getD [] = observation.latest)
    (news : reader.lastText ≠ some observation.latest)
    (short : observation.latest.length ≤ maxStrDigits)
    (sane : saneDeadline observation.clock observation.latest)
    (inCalendar : (epochOf observation.latest : ℤ) < datetimeEnd) :
    reader.read observation = (.ok (some (epochOf observation.latest)),
      ⟨some (epochOf observation.latest), some observation.latest, reader.ignored⟩) := by
  rw [GuardDeadline.read]
  rw [text, if_neg (Ne.symm news), if_neg (fun long => long.2.not_ge short),
    if_pos (saneDeadline_iff.mp sane), if_neg inCalendar.not_ge]

/-- A value that is not taken is named, once there is a deadline. -/
theorem read_ignored (text : observation.text?.getD [] = observation.latest)
    (news : reader.lastText ≠ some observation.latest)
    (short : isEpoch observation.latest → observation.latest.length ≤ maxStrDigits)
    (ignored : ¬ saneDeadline observation.clock observation.latest)
    (begun : reader.valid.isSome) :
    ∃ named, reader.read observation =
        (.ok reader.valid, ⟨reader.valid, some observation.latest, named⟩) ∧
      observation.latest ∈ named ∧ ∀ other ∈ reader.ignored, other ∈ named := by
  rw [saneDeadline_iff] at ignored
  rw [GuardDeadline.read]
  rw [text, if_neg (Ne.symm news), if_neg (fun long => long.2.not_ge (short long.1)),
    if_neg ignored]
  by_cases named : observation.latest ∈ reader.ignored
  · rw [if_neg (fun unnamed => unnamed.2 named)]
    exact ⟨reader.ignored, rfl, named, fun _ listed => listed⟩
  · rw [if_pos ⟨.inr begun, named⟩]
    exact ⟨_, rfl, List.mem_append_right _ (.head _), fun _ listed => List.mem_append_left _ listed⟩

end Steps

section Runs

variable {watch : Watch} {observation : Observation}

/-- pod_run holds the guard's deadline, and has seen last what the guard has settled. -/
structure Held (watch : Watch) : Prop where
  valid : watch.reader.valid = some (epochOf watch.guard.deadline)
  settled : ∃ last, watch.reader.lastText = some last ∧
    (last = watch.guard.deadline ∨ last = watch.guard.ignored.getD [])
  named : ∀ text ∈ watch.guard.logged, text ∈ watch.reader.ignored

/-- On an observation both take, they hold the same deadline. -/
theorem held_of_sane (clear : Clear watch observation)
    (news : watch.reader.lastText ≠ some observation.latest)
    (sane : saneDeadline observation.clock observation.latest)
    (named : ∀ text ∈ watch.guard.logged, text ∈ watch.reader.ignored) :
    (watch.reader.read observation).1 =
        .ok (some (epochOf (watch.next observation).guard.deadline)) ∧
      Held (watch.next observation) := by
  have epoch := (saneDeadline_iff.mp sane).1
  have read := read_sane clear.sameText news (clear.short epoch) sane (clear.inCalendar sane)
  obtain ⟨deadline, logged, settled⟩ := tick_sane sane fun ignored =>
    (clear.fresh sane ignored).resolve_left news
  rw [Watch.next, read]
  dsimp only
  rw [deadline]
  refine ⟨rfl, ?_, ⟨_, rfl, settled⟩, ?_⟩
  · rw [deadline]
  · rw [logged]
    exact named

theorem held_step (clear : Clear watch observation) (held : Held watch) :
    (watch.reader.read observation).1 =
        .ok (some (epochOf (watch.next observation).guard.deadline)) ∧
      Held (watch.next observation) := by
  have text := clear.sameText
  obtain ⟨valid, ⟨last, seen, known⟩, named⟩ := held
  by_cases news : watch.reader.lastText = some observation.latest
  · have same : last = observation.latest := Option.some.inj (seen.symm.trans news)
    rw [same] at known
    rw [Watch.next, read_known text news, tick_known known]
    dsimp only
    rw [valid]
    exact ⟨rfl, valid, ⟨_, news, known⟩, named⟩
  · by_cases sane : saneDeadline observation.clock observation.latest
    · exact held_of_sane clear news sane named
    · have begun : watch.reader.valid.isSome := by
        rw [valid]
        rfl
      obtain ⟨more, read, here, kept⟩ := read_ignored text news clear.short sane begun
      obtain ⟨deadline, logged, settled⟩ := tick_ignored watch.guard sane
      rw [Watch.next, read]
      dsimp only
      rw [deadline]
      refine ⟨by rw [valid], by rw [valid, deadline], ⟨_, rfl, by rwa [deadline]⟩, ?_⟩
      intro text listed
      rcases logged text listed with earlier | rfl
      · exact kept text (named text earlier)
      · exact here

theorem held_first {armed : Armed} (clear : Clear armed.watch observation) :
    (armed.watch.reader.read observation).1 =
        .ok (some (epochOf (armed.watch.next observation).guard.deadline)) ∧
      Held (armed.watch.next observation) :=
  held_of_sane clear nofun (clear.begun rfl) nofun

theorem sees_of_held {observations : List Observation} (held : Held watch)
    (clear : ClearRun watch observations) : Sees watch observations := by
  induction observations generalizing watch with
  | nil => trivial
  | cons observation rest ih =>
      obtain ⟨read, later⟩ := held_step clear.1 held
      exact ⟨read, later.named, ih later clear.2⟩

/-- On a run whose every observation is clear pod_run sees the deadline the guard acts on. -/
theorem sees_of_clearRun (armed : Armed) (observations : List Observation)
    (clear : ClearRun armed.watch observations) : Sees armed.watch observations := by
  cases observations with
  | nil => trivial
  | cons observation rest =>
      obtain ⟨read, later⟩ := held_first clear.1
      exact ⟨read, later.named, sees_of_held later clear.2⟩

instance decidableClearRun : (watch : Watch) → (observations : List Observation) →
    Decidable (ClearRun watch observations)
  | _, [] => .isTrue trivial
  | watch, observation :: rest =>
    have := decidableClearRun (watch.next observation) rest
    inferInstanceAs (Decidable (_ ∧ _))

instance decidableSees : (watch : Watch) → (observations : List Observation) →
    Decidable (Sees watch observations)
  | _, [] => .isTrue trivial
  | watch, observation :: rest =>
    have := decidableSees (watch.next observation) rest
    inferInstanceAs (Decidable (_ ∧ _ ∧ _))

/-- The bytes of an ASCII text. -/
def asciiBytes (text : String) : Bytes := text.toList.map fun character => character.toNat.toUInt8

/-- A guard armed until half an hour past the second 1700000000. -/
def armedHalfHour : Armed := ⟨asciiBytes "1700001800", by decide⟩

/-- The armed deadline is read, the file is cleared, and a later deadline is written. -/
theorem sees_of_clearRun_armedHalfHour :
    Sees armedHalfHour.watch
      [⟨1700000000, some (asciiBytes "1700001800\n")⟩, ⟨1700000060, none⟩,
        ⟨1700000120, some (asciiBytes "1700009000\n")⟩] :=
  sees_of_clearRun _ _ (by decide +kernel)

/-- A deadline too far ahead is ignored by both, another one is taken, and the first one comes back
within the week: pod_run takes it, the guard does not. -/
theorem not_sees_returned_value :
    ¬ ∀ (armed : Armed) (observations : List Observation), Sees armed.watch observations := by
  intro always
  have seen := always armedHalfHour
    [⟨1700000000, some (asciiBytes "1700001800\n")⟩,
      ⟨1700000060, some (asciiBytes "1700605000\n")⟩,
      ⟨1700000120, some (asciiBytes "1700009000\n")⟩,
      ⟨1700000240, some (asciiBytes "1700605000\n")⟩]
  exact absurd seen (by decide +kernel)

end Runs

end Verbatus.Pod
