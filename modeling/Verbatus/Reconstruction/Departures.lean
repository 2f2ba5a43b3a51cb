import Verbatus.DoubtMarks.Offsets
import Verbatus.Library.Sorting
import Verbatus.PageAccounting.Text

namespace Verbatus.Reconstruction

open Library Library.Checked Refusal Python DoubtMarks
open Identities (str)
open Canonical (plainText fieldOf field?)
open PageAccounting (UnicodeTables normalizedText)

section Records

/-- The reconstruction configuration, as far as an act's departures are bound by it. -/
structure ReconstructionPolicy where
  maxDeparturesPerAct : ℤ
  maxDepartureCharacters : ℤ
  maxChangedShareBp : ℤ
  changedFloorCharacters : ℤ
  maxReasonCharacters : ℤ

def basisPoints : ℤ := 10000

inductive NotMadeCode where
  | departureInvalid
  | departureSpanNotFound
  | departureSpanAmbiguous
  | departureSplitsDoubtMark
  | reconstructionTooLarge
  | reconstructionMarksMalformed
  deriving DecidableEq

/-- Why a reconstruction is not made, and the departure it fails at. -/
structure NotMade where
  code : NotMadeCode
  departure : Option ℕ
  detail : String
  deriving DecidableEq

/-- A well-formed departure of the reconstruction from the diplomatic text. -/
structure Departure where
  diplomatic : Str
  reconstruction : Str
  reason : Option Str
  some : diplomatic ≠ []

/-- A departure that is made, and where it stands in the reading and in its text. -/
structure Applied where
  departure : ℕ
  diplomatic : Str
  reconstruction : Str
  reason : Option Str
  rawStart : ℕ
  rawStop : ℕ
  cleanStart : ℕ
  cleanStop : ℕ
  noChange : Bool
  replacementInContext : Bool
  deriving DecidableEq

end Records

section Applying

def departureRequired : List String := ["diplomatic", "reconstruction"]

def departureOptional : List String := ["reason"]

variable (unicode : UnicodeTables) (policy : ReconstructionPolicy)

/-- A departure, or why its shape is not one. -/
def readDeparture : JsonValue → Except String Departure
  | .object fields => do
    let keys := fields.map Prod.fst
    require ((∀ key ∈ departureRequired, str key ∈ keys) ∧
        ∀ key ∈ keys, key ∈ (departureRequired ++ departureOptional).map str)
      (s!"the departure's keys are {quote ((sortBy id keys).map plainText)}, not " ++
        s!"{quote departureRequired} with an optional reason")
    match fieldOf "diplomatic" fields with
    | .str diplomatic =>
      if some : diplomatic ≠ [] then
        match fieldOf "reconstruction" fields with
        | .str reconstruction =>
          match (field? "reason" fields).getD (.str []) with
          | .str reason =>
            require (reason.length ≤ policy.maxReasonCharacters)
              (s!"reason is {reason.length} characters, above {policy.maxReasonCharacters}")
            .ok ⟨diplomatic, reconstruction, (field? "reason" fields).map fun _ => reason, some⟩
          | _ => .error "reason is not a string"
        | _ => .error "reconstruction is not a string"
      else .error "diplomatic is not a non-empty string"
    | _ => .error "diplomatic is not a non-empty string"
  | _ => .error "the departure is not an object"

/-- Whether the letters and digits of a reconstruction occur in a text that was shown. -/
def replacementInContext (reconstruction : Str) (shown : List Str) : Bool :=
  let needle := normalizedText unicode (plainText reconstruction) false
  needle ≠ [] && shown.any fun text =>
    decide (needle <:+: normalizedText unicode (plainText text) false)

/-- A reason that stands when the condition holds. -/
def noted (condition : Prop) [Decidable condition] (reason : NotMade) : List NotMade :=
  if condition then [reason] else []

@[simp] theorem noted_eq_nil {condition : Prop} [Decidable condition] {reason : NotMade} :
    noted condition reason = [] ↔ ¬ condition := by
  rw [noted]
  split_ifs with holds
  · exact ⟨nofun, fun fails => absurd holds fails⟩
  · exact ⟨fun _ => holds, fun _ => rfl⟩

/-- What has been made of some departures: why they are not made, the rows of those that are, the
reading from where they begin with them made, and how much they change. -/
structure Outcome where
  notMade : List NotMade
  applied : List Applied
  text : Str
  changed : ℕ

def Outcome.refused (outcome : Outcome) (reasons : List NotMade) : Outcome :=
  { outcome with notMade := reasons ++ outcome.notMade }

/-- The longer side of a departure. -/
def Departure.longest (departure : Departure) : ℕ :=
  max departure.diplomatic.length departure.reconstruction.length

/-- The row of a departure made at a start, with where its ends land in the text. -/
def Departure.row (departure : Departure) (shown : List Str) (index start cleanStart cleanStop : ℕ) :
    Applied where
  departure := index
  diplomatic := departure.diplomatic
  reconstruction := departure.reconstruction
  reason := departure.reason
  rawStart := start
  rawStop := start + departure.diplomatic.length
  cleanStart := cleanStart
  cleanStop := cleanStop
  noChange := departure.diplomatic = departure.reconstruction
  replacementInContext := replacementInContext unicode departure.reconstruction shown

/-- How much a departure changes: its longer side, unless it changes nothing. -/
def Applied.changed (row : Applied) : ℕ :=
  if row.noChange then 0 else max row.diplomatic.length row.reconstruction.length

/-- The departures one after another, each found at or after the end of the one before. -/
def applyFrom (baseRaw : Str) (rawToClean : List (Option ℕ)) (shown : List Str) (cursor : ℕ) :
    List (JsonValue × ℕ) → Outcome
  | [] => ⟨[], [], baseRaw.drop cursor, 0⟩
  | (value, index) :: values =>
    match readDeparture policy value with
    | .error detail =>
      (applyFrom baseRaw rawToClean shown cursor values).refused
        [⟨.departureInvalid, index, detail⟩]
    | .ok departure =>
      let oversized := noted (departure.longest > policy.maxDepartureCharacters)
        ⟨.reconstructionTooLarge, index,
          s!"a side is {departure.longest} characters, above {policy.maxDepartureCharacters}"⟩
      let skipped (code : NotMadeCode) (detail : String) : Outcome :=
        (applyFrom baseRaw rawToClean shown cursor values).refused
          (oversized ++ [⟨code, index, detail⟩])
      match baseRaw.find departure.diplomatic cursor with
      | none => skipped .departureSpanNotFound
        (s!"{quote (plainText departure.diplomatic)} is not in the diplomatic text at or after " ++
          s!"offset {cursor}")
      | some start =>
        if (baseRaw.find departure.diplomatic (start + 1)).isSome then
          skipped .departureSpanAmbiguous
            (s!"{quote (plainText departure.diplomatic)} occurs more than once at or after " ++
              s!"offset {cursor}")
        else
          let stop := start + departure.diplomatic.length
          match rawToClean[start]?.join, rawToClean[stop]?.join with
          | some cleanStart, some cleanStop =>
            let row := departure.row unicode shown index start cleanStart cleanStop
            let rest := applyFrom baseRaw rawToClean shown stop values
            { notMade := oversized ++ rest.notMade
              applied := row :: rest.applied
              text := baseRaw.slice cursor start ++ departure.reconstruction ++ rest.text
              changed := row.changed + rest.changed }
          | _, _ => skipped .departureSplitsDoubtMark
            s!"the span {start}..{stop} starts or ends inside a doubt mark"

/-- How many characters the departures of a reading may change. -/
def allowedChange (baseRaw : Str) : ℤ :=
  max policy.changedFloorCharacters (baseRaw.length * policy.maxChangedShareBp / basisPoints)

/-- The reconstruction, the departures applied in it and why none is made, for one act. -/
def applyDepartures (baseRaw : Str) (departures : JsonValue) (shown : List Str) :
    Option Str × List Applied × List NotMade :=
  match departures with
  | .list values =>
    let tooMany := noted (values.length > policy.maxDeparturesPerAct)
      ⟨.reconstructionTooLarge, none,
        s!"{values.length} departures, above {policy.maxDeparturesPerAct}"⟩
    let outcome := applyFrom unicode policy baseRaw (doubtMarkOffsets baseRaw).1 shown 0
      values.zipIdx
    let tooMuch := noted (outcome.changed > allowedChange policy baseRaw)
      ⟨.reconstructionTooLarge, none, s!"departures replace {outcome.changed} characters, " ++
        s!"above {allowedChange policy baseRaw}"⟩
    let malformed := noted ((readDoubtMarks outcome.text).2.state = .malformed)
      ⟨.reconstructionMarksMalformed, none, "the reconstruction's doubt marks do not parse"⟩
    let notMade := tooMany ++ outcome.notMade ++ tooMuch ++ malformed
    if notMade ≠ [] then (none, [], notMade) else (some outcome.text, outcome.applied, [])
  | _ => (none, [], [⟨.departureInvalid, none, "departures is not a list"⟩])

end Applying

section Spans

/-- A row is of its departure, in the order given. -/
def Made (policy : ReconstructionPolicy) (value : JsonValue × ℕ) (row : Applied) : Prop :=
  ∃ departure, readDeparture policy value.1 = .ok departure ∧ row.departure = value.2 ∧
    row.diplomatic = departure.diplomatic ∧ row.reconstruction = departure.reconstruction ∧
    row.reason = departure.reason

/-- Each row's span is in the reading, is its diplomatic text, follows the span before it, and is
the only one from there on. -/
def Placed (baseRaw : Str) (cursor : ℕ) : List Applied → Prop
  | [] => True
  | row :: rows =>
    (cursor ≤ row.rawStart ∧ row.rawStart < row.rawStop ∧ row.rawStop ≤ baseRaw.length) ∧
      baseRaw.slice row.rawStart row.rawStop = row.diplomatic ∧
      (∀ start, cursor ≤ start → row.diplomatic <+: baseRaw.drop start → start = row.rawStart) ∧
      Placed baseRaw row.rawStop rows

/-- The reading from a cursor on with each span replaced by its reconstruction. -/
def replaced (baseRaw : Str) (cursor : ℕ) : List Applied → Str
  | [] => baseRaw.drop cursor
  | row :: rows =>
    baseRaw.slice cursor row.rawStart ++ row.reconstruction ++ replaced baseRaw row.rawStop rows

/-- A reconstruction from where a cursor stood with each replacement undone. -/
def undone (cursor : ℕ) : List Applied → Str → Str
  | [], text => text
  | row :: rows, text =>
    text.take (row.rawStart - cursor) ++ row.diplomatic ++
      undone row.rawStop rows
        (text.drop (row.rawStart - cursor + row.reconstruction.length))

def changedLength (rows : List Applied) : ℕ := (rows.map Applied.changed).sum

variable {baseRaw : Str}

/-- Spans that follow one another are in order and apart. -/
theorem Placed.pairwise {cursor : ℕ} {rows : List Applied} (placed : Placed baseRaw cursor rows) :
    (∀ row ∈ rows, cursor ≤ row.rawStart) ∧
      rows.Pairwise fun first second => first.rawStop ≤ second.rawStart := by
  induction rows generalizing cursor with
  | nil => exact ⟨fun row listed => absurd listed List.not_mem_nil, .nil⟩
  | cons row rows ih =>
      obtain ⟨⟨order, some, -⟩, -, -, later⟩ := placed
      obtain ⟨after, apart⟩ := ih later
      refine ⟨?_, .cons after apart⟩
      intro other listed
      rcases List.mem_cons.mp listed with rfl | listed
      · exact order
      · exact (order.trans some.le).trans (after other listed)

theorem Placed.mem {cursor : ℕ} {rows : List Applied} (placed : Placed baseRaw cursor rows)
    {row : Applied} (listed : row ∈ rows) : row.rawStart < row.rawStop ∧
      row.rawStop ≤ baseRaw.length ∧ baseRaw.slice row.rawStart row.rawStop = row.diplomatic := by
  induction rows generalizing cursor with
  | nil => exact absurd listed List.not_mem_nil
  | cons first rows ih =>
      obtain ⟨⟨-, some, within⟩, same, -, later⟩ := placed
      rcases List.mem_cons.mp listed with rfl | listed
      · exact ⟨some, within, same⟩
      · exact ih later listed

/-- Undoing the replacements gives the reading back. -/
theorem Placed.undone_replaced {cursor : ℕ} {rows : List Applied}
    (placed : Placed baseRaw cursor rows) :
    undone cursor rows (replaced baseRaw cursor rows) = baseRaw.drop cursor := by
  induction rows generalizing cursor with
  | nil => rfl
  | cons row rows ih =>
      obtain ⟨⟨order, some, within⟩, same, -, later⟩ := placed
      have size : (baseRaw.slice cursor row.rawStart).length = row.rawStart - cursor :=
        Str.length_slice (some.le.trans within)
      have before : (baseRaw.slice cursor row.rawStart ++ row.reconstruction ++
          replaced baseRaw row.rawStop rows).take (row.rawStart - cursor) =
          baseRaw.slice cursor row.rawStart := by
        rw [← size, List.append_assoc, List.take_left]
      have after : (baseRaw.slice cursor row.rawStart ++ row.reconstruction ++
          replaced baseRaw row.rawStop rows).drop
            (row.rawStart - cursor + row.reconstruction.length) =
          replaced baseRaw row.rawStop rows := by
        rw [← size, ← List.length_append, List.drop_left]
      rw [undone, replaced, before, after, ih later, ← same, List.append_assoc,
        Str.slice_append_drop baseRaw some.le, Str.slice_append_drop baseRaw order]

end Spans

section Exact

variable {unicode : UnicodeTables} {policy : ReconstructionPolicy} {baseRaw : Str}
  {rawToClean : List (Option ℕ)} {shown : List Str}

theorem refused_notMade {outcome : Outcome} {reasons : List NotMade} (some : reasons ≠ []) :
    (outcome.refused reasons).notMade ≠ [] := by
  intro none
  exact some (List.append_eq_nil_iff.mp none).1

/-- A departure that is made is found once at or after the cursor, and splits no mark. -/
theorem applyFrom_cons_made {cursor index : ℕ} {value : JsonValue} {values : List (JsonValue × ℕ)}
    (made : (applyFrom unicode policy baseRaw rawToClean shown cursor
      ((value, index) :: values)).notMade = []) :
    ∃ departure start cleanStart cleanStop, readDeparture policy value = .ok departure ∧
      baseRaw.find departure.diplomatic cursor = some start ∧
      baseRaw.find departure.diplomatic (start + 1) = none ∧
      rawToClean[start]? = some (some cleanStart) ∧
      rawToClean[start + departure.diplomatic.length]? = some (some cleanStop) ∧
      departure.longest ≤ policy.maxDepartureCharacters ∧
      let row := departure.row unicode shown index start cleanStart cleanStop
      let rest := applyFrom unicode policy baseRaw rawToClean shown row.rawStop values
      rest.notMade = [] ∧ applyFrom unicode policy baseRaw rawToClean shown cursor
        ((value, index) :: values) = ⟨[], row :: rest.applied,
          baseRaw.slice cursor start ++ departure.reconstruction ++ rest.text,
          row.changed + rest.changed⟩ := by
  cases shape : readDeparture policy value with
  | error detail =>
      simp only [applyFrom, shape] at made
      exact absurd made (refused_notMade (List.cons_ne_nil _ _))
  | ok departure =>
      simp only [applyFrom, shape] at made ⊢
      cases found : baseRaw.find departure.diplomatic cursor with
      | none =>
          simp only [found] at made
          exact absurd made (refused_notMade (by simp))
      | some start =>
          simp only [found] at made ⊢
          cases again : baseRaw.find departure.diplomatic (start + 1) with
          | some other =>
              simp only [again, Option.isSome_some, if_true] at made
              exact absurd made (refused_notMade (by simp))
          | none =>
              simp only [again, Option.isSome_none, Bool.false_eq_true, if_false] at made ⊢
              cases first : rawToClean[start]?.join with
              | none =>
                  simp only [first] at made
                  exact absurd made (refused_notMade (by simp))
              | some cleanStart =>
                  cases last : rawToClean[start + departure.diplomatic.length]?.join with
                  | none =>
                      simp only [first, last] at made
                      exact absurd made (refused_notMade (by simp))
                  | some cleanStop =>
                      simp only [first, last] at made ⊢
                      obtain ⟨sized, made⟩ := List.append_eq_nil_iff.mp made
                      have size := not_lt.mp (noted_eq_nil.mp sized)
                      refine ⟨departure, start, cleanStart, cleanStop, rfl, found, again,
                        Option.join_eq_some_iff.mp first, Option.join_eq_some_iff.mp last, size,
                        made, ?_⟩
                      rw [sized, made]
                      rfl

/-- What departures that are all made do to the reading from a cursor on. -/
structure MadeFrom (policy : ReconstructionPolicy) (baseRaw : Str) (rawToClean : List (Option ℕ))
    (cursor : ℕ) (values : List (JsonValue × ℕ)) (outcome : Outcome) : Prop where
  rows : List.Forall₂ (Made policy) values outcome.applied
  placed : Placed baseRaw cursor outcome.applied
  text : outcome.text = replaced baseRaw cursor outcome.applied
  changed : outcome.changed = changedLength outcome.applied
  lands : ∀ row ∈ outcome.applied, rawToClean[row.rawStart]? = some (some row.cleanStart) ∧
    rawToClean[row.rawStop]? = some (some row.cleanStop)

theorem applyFrom_made {cursor : ℕ} {values : List (JsonValue × ℕ)}
    (made : (applyFrom unicode policy baseRaw rawToClean shown cursor values).notMade = []) :
    MadeFrom policy baseRaw rawToClean cursor values
      (applyFrom unicode policy baseRaw rawToClean shown cursor values) := by
  induction values generalizing cursor with
  | nil => exact ⟨.nil, trivial, rfl, rfl, fun row listed => absurd listed List.not_mem_nil⟩
  | cons value values ih =>
      obtain ⟨departure, start, cleanStart, cleanStop, shape, found, again, first, last, -, rest,
        same⟩ := applyFrom_cons_made made
      rw [same]
      have later := ih rest
      obtain ⟨order, here⟩ := Str.find_eq_some found
      have pos := List.length_pos_of_ne_nil departure.some
      have bound := here.length_le
      rw [List.length_drop] at bound
      constructor
      case rows => exact .cons ⟨departure, shape, rfl, rfl, rfl, rfl⟩ later.rows
      case placed =>
        refine ⟨⟨order, ?_, ?_⟩, ?_, ?_, later.placed⟩
        · exact Nat.lt_add_of_pos_right pos
        · change start + _ ≤ _
          omega
        · change baseRaw.slice start (start + departure.diplomatic.length) = departure.diplomatic
          rw [Str.slice, List.drop_take, Nat.add_sub_cancel_left]
          exact (List.prefix_iff_eq_take.mp here).symm
        · exact fun other => Str.find_unique departure.some found again
      case text =>
        change _ = _ ++ _ ++ replaced _ _ _
        rw [← later.text]
        rfl
      case changed =>
        change _ + _ = (List.map _ (_ :: _)).sum
        rw [List.map_cons, List.sum_cons, later.changed]
        rfl
      case lands =>
        intro row listed
        rcases List.mem_cons.mp listed with rfl | listed
        · exact ⟨first, last⟩
        · exact later.lands row listed

/-- A reconstruction replaces exactly what its rows record, and nothing else. -/
structure AppliedExactly (policy : ReconstructionPolicy) (baseRaw : Str) (values : List JsonValue)
    (text : Str) (applied : List Applied) : Prop where
  rows : List.Forall₂ (Made policy) values.zipIdx applied
  placed : Placed baseRaw 0 applied
  ordered : applied.Pairwise fun first second => first.rawStop ≤ second.rawStart
  replaced : text = replaced baseRaw 0 applied
  undone : undone 0 applied text = baseRaw
  unsplit : (readDoubtMarks baseRaw).2.state = .assessed →
    ∀ row ∈ applied, ¬ InsideMark baseRaw row.rawStart ∧ ¬ InsideMark baseRaw row.rawStop
  clean : (readDoubtMarks baseRaw).2.state = .assessed → ∀ row ∈ applied,
    (readDoubtMarks row.diplomatic).2.state = .assessed ∧
      (readDoubtMarks baseRaw).1.slice row.cleanStart row.cleanStop =
        (readDoubtMarks row.diplomatic).1
  assessed : (readDoubtMarks text).2.state = .assessed
  bounded : (changedLength applied : ℤ) ≤ max policy.changedFloorCharacters
    (baseRaw.length * policy.maxChangedShareBp / 10000)

theorem assessed_of_not_malformed {raw : Str}
    (anchored : (readDoubtMarks raw).2.state ≠ .malformed) :
    (readDoubtMarks raw).2.state = .assessed := by
  rcases readDoubtMarks_cases raw with parsed | ⟨problem, -, same⟩
  · exact state_assessed_iff.mpr parsed
  · rw [same] at anchored
    exact absurd rfl anchored

/-- A reading's departures are all made, each as it is recorded, or none is. -/
theorem applyDepartures_exact (unicode : UnicodeTables) (policy : ReconstructionPolicy)
    (baseRaw : Str) (departures : JsonValue) (shown : List Str) :
    (∃ notMade ≠ [], applyDepartures unicode policy baseRaw departures shown =
        (none, [], notMade)) ∨
      ∃ values text applied, departures = .list values ∧
        applyDepartures unicode policy baseRaw departures shown = (some text, applied, []) ∧
        AppliedExactly policy baseRaw values text applied := by
  cases departures with
  | list values =>
      simp only [applyDepartures]
      split_ifs with failed
      · exact .inl ⟨_, failed, rfl⟩
      · refine .inr ⟨values, _, _, rfl, rfl, ?_⟩
        simp only [ne_eq, not_not, List.append_eq_nil_iff, noted_eq_nil, not_lt] at failed
        obtain ⟨⟨⟨-, each⟩, bounded⟩, anchored⟩ := failed
        have made := applyFrom_made each
        have undo := made.placed.undone_replaced
        rw [← made.text] at undo
        constructor
        case rows => exact made.rows
        case placed => exact made.placed
        case ordered => exact made.placed.pairwise.2
        case replaced => exact made.text
        case undone => exact undo
        case unsplit =>
          intro assessed row listed
          obtain ⟨tokens, parsed⟩ := state_assessed_iff.mp assessed
          obtain ⟨first, last⟩ := made.lands row listed
          rw [← parsed.offsetsExact.inside, ← parsed.offsetsExact.inside, first, last]
          exact ⟨nofun, nofun⟩
        case clean =>
          intro assessed row listed
          obtain ⟨tokens, parsed⟩ := state_assessed_iff.mp assessed
          obtain ⟨first, last⟩ := made.lands row listed
          obtain ⟨some, within, same⟩ := made.placed.mem listed
          have exact := parsed.offsetsExact
          have before : ¬ InsideMark baseRaw row.rawStart := by
            rw [← exact.inside, first]
            exact nofun
          have after : ¬ InsideMark baseRaw row.rawStop := by
            rw [← exact.inside, last]
            exact nofun
          obtain ⟨clean, later, atStart, atStop, assessedSlice, text⟩ :=
            exact.slices _ _ some.le within before after
          rw [first, Option.some.injEq, Option.some.injEq] at atStart
          rw [last, Option.some.injEq, Option.some.injEq] at atStop
          rw [same] at assessedSlice text
          rw [atStart, atStop]
          exact ⟨assessedSlice, text.symm⟩
        case assessed => exact assessed_of_not_malformed anchored
        case bounded =>
          rw [← made.changed]
          exact bounded
  | _ => exact .inl ⟨_, List.cons_ne_nil _ _, rfl⟩

/-- A reading whose marks do not parse is cut where it may be: here inside `[[a]]`. -/
theorem applyDepartures_malformed_cut :
    ∃ row, applyDepartures ⟨id, id, Char.isAlphanum, id⟩ ⟨1, 10, 10000, 10, 10⟩ (str "[[a]] [[")
        (.list [.object [(str "diplomatic", .str (str "]] [[")),
          (str "reconstruction", .str (str "]]"))]]) [] = (some (str "[[a]]"), [row], []) ∧
      InsideMark (str "[[a]] [[") row.rawStart := by
  refine ⟨⟨0, str "]] [[", str "]]", none, 3, 8, 3, 8, false, false⟩, by decide, ?_⟩
  refine ⟨[], str "[[a]]", (str " [[").map .plain, by decide, by decide, by decide⟩

end Exact

end Verbatus.Reconstruction
