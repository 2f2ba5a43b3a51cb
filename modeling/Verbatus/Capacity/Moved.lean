import Verbatus.Capacity.Request

namespace Verbatus.Capacity

open Library Library.Checked Python

theorem rateBoundTokens_eq (characters : ℤ) :
    rateBoundTokens characters = -(-(characters * 433335) / 1000000) := by
  simp only [rateBoundTokens, rateNumerator, safetyMargin]
  norm_num
  ring_nf

/-- The rate is carried by no more than the characters it is carried to. -/
theorem rateBoundTokens_add_le (first second : ℤ) :
    rateBoundTokens (first + second) ≤ rateBoundTokens first + rateBoundTokens second := by
  rw [rateBoundTokens_eq, rateBoundTokens_eq, rateBoundTokens_eq]
  omega

theorem rateBoundTokens_mono {fewer more : ℤ} (le : fewer ≤ more) :
    rateBoundTokens fewer ≤ rateBoundTokens more := by
  rw [rateBoundTokens_eq, rateBoundTokens_eq]
  omega

theorem rateBoundTokens_pos {characters : ℤ} (positive : 0 < characters) :
    1 ≤ rateBoundTokens characters := by
  rw [rateBoundTokens_eq]
  omega

/-- Below one token a byte: below half a token a character, rounded up. -/
theorem rateBoundTokens_le_half {characters bytes : ℕ} (half : characters ≤ 2 * bytes) :
    rateBoundTokens characters ≤ bytes := by
  rw [rateBoundTokens_eq]
  omega

/-- The encoded length, nothing where there is no encoding. -/
def bytesOf (text : Str) : ℕ := (byteLength text).getD 0

theorem byteLength_cons (point : CodePoint) (text : Str) :
    byteLength (point :: text) = point.scalar?.bind fun character =>
      (byteLength text).map fun rest => character.utf8Size + rest := by
  cases scalar : point.scalar? with
  | none => simp [byteLength, scalar]
  | some character =>
      cases mapped : text.mapM CodePoint.scalar? with
      | none => simp [byteLength, scalar, mapped]
      | some characters => simp [byteLength, scalar, mapped]

/-- Joined texts have an encoding when both do, as long as theirs together. -/
theorem byteLength_append {first second : Str} {bytes : ℕ} :
    byteLength (first ++ second) = some bytes ↔
      ∃ one two, byteLength first = some one ∧ byteLength second = some two ∧
        bytes = one + two := by
  induction first generalizing bytes with
  | nil =>
      have empty : byteLength [] = some 0 := rfl
      simp [empty]
  | cons point rest ih =>
      rw [List.cons_append, byteLength_cons, byteLength_cons]
      cases point.scalar? with
      | none => simp
      | some character =>
          simp only [Option.bind_some, Option.map_eq_some_iff, ih]
          constructor
          · rintro ⟨_, ⟨one, two, left, right, rfl⟩, rfl⟩
            exact ⟨_, two, ⟨one, left, rfl⟩, right, by omega⟩
          · rintro ⟨_, two, ⟨one, left, rfl⟩, right, rfl⟩
            exact ⟨_, ⟨one, two, left, right, rfl⟩, by omega⟩

theorem byteLength_flatten {runs : List Str} {bytes : ℕ}
    (encoded : byteLength runs.flatten = some bytes) :
    (∀ run ∈ runs, byteLength run = some (bytesOf run)) ∧ bytes = (runs.map bytesOf).sum := by
  induction runs generalizing bytes with
  | nil =>
      have empty : byteLength [] = some 0 := rfl
      rw [List.flatten_nil, empty, Option.some.injEq] at encoded
      exact ⟨fun _ listed => absurd listed List.not_mem_nil, encoded.symm⟩
  | cons run rest ih =>
      obtain ⟨one, two, head, tail, rfl⟩ := byteLength_append.mp encoded
      obtain ⟨each, rfl⟩ := ih tail
      have here : byteLength run = some (bytesOf run) := by rw [bytesOf, head, Option.getD_some]
      refine ⟨fun other listed => ?_, ?_⟩
      · rcases List.mem_cons.mp listed with rfl | later
        · exact here
        · exact each other later
      · rw [List.map_cons, List.sum_cons, bytesOf, head, Option.getD_some]

theorem length_le_bytesOf {text : Str} {bytes : ℕ} (encoded : byteLength text = some bytes) :
    text.length ≤ bytes := by
  induction text generalizing bytes with
  | nil => exact Nat.zero_le _
  | cons point rest ih =>
      rw [byteLength_cons] at encoded
      obtain ⟨character, _, tail⟩ := Option.bind_eq_some_iff.mp encoded
      obtain ⟨later, counted, rfl⟩ := Option.map_eq_some_iff.mp tail
      have shorter := ih counted
      have positive := character.utf8Size_pos
      rw [List.length_cons]
      omega

section Composed

variable (composition : Composition)

theorem nfc_nil : composition.nfc [] = [] := by
  have split := composition.nfc_white [] (.scalar ' ') [] (by decide)
  have lengths := congrArg List.length split
  simp only [List.nil_append, List.length_append] at lengths
  exact List.length_eq_zero_iff.mp (by omega)

theorem nfc_white_append {run : Str} (white : ∀ character ∈ run, character.isSpace = true)
    (after : Str) : composition.nfc (run ++ after) = composition.nfc run ++ composition.nfc after := by
  induction run with
  | nil => rw [nfc_nil, List.nil_append, List.nil_append]
  | cons character rest ih =>
      have head := white character List.mem_cons_self
      have whole := composition.nfc_white [] character (rest ++ after) head
      have part := composition.nfc_white [] character rest head
      rw [nfc_nil, List.nil_append, List.nil_append] at whole part
      rw [List.cons_append, whole, part,
        ih fun other listed => white other (List.mem_cons_of_mem _ listed), List.append_assoc]

theorem nfc_append_white (before : Str) {character : CodePoint}
    (white : character.isSpace = true) (rest : Str) :
    composition.nfc (before ++ character :: rest) =
      composition.nfc before ++ composition.nfc (character :: rest) := by
  have alone := composition.nfc_white [] character rest white
  rw [nfc_nil, List.nil_append, List.nil_append] at alone
  rw [composition.nfc_white before character rest white, alone, List.append_assoc]

/-- The runs of a text are composed apart. -/
theorem nfc_splitWhite (white : Bool) (run text : Str)
    (whites : white = true → ∀ character ∈ run, character.isSpace = true) :
    ((splitWhite white run text).map composition.nfc).flatten = composition.nfc (run ++ text) := by
  induction text generalizing white run with
  | nil =>
      cases white with
      | false => simp [splitWhite]
      | true => simp [splitWhite, nfc_nil]
  | cons character rest ih =>
      rw [splitWhite]
      split_ifs with same
      · rw [ih, List.append_assoc, List.singleton_append]
        intro isWhite other listed
        rcases List.mem_append.mp listed with earlier | last
        · exact whites isWhite other earlier
        · rw [List.mem_singleton.mp last, same, isWhite]
      · rw [List.map_cons, List.flatten_cons, ih, List.singleton_append]
        · cases white with
          | true => exact (nfc_white_append composition (whites rfl) _).symm
          | false =>
              exact (nfc_append_white composition run (by simpa using same) rest).symm
        · intro isWhite other listed
          rw [List.mem_singleton.mp listed]
          cases white with
          | true => cases isWhite
          | false => simpa using same

end Composed

section Moving

variable {composition : Composition}

/-- The composed length, nothing where there is no encoding. -/
def composedBytes (composition : Composition) (text : Str) : ℕ := bytesOf (composition.nfc text)

theorem reportedBytes_eq_ok {text : Str} {bytes : ℕ} :
    reportedBytes composition text = .ok bytes ↔
      byteLength text = some (bytesOf text) ∧
        byteLength (composition.nfc text) = some (composedBytes composition text) ∧
          bytes = max (bytesOf text) (composedBytes composition text) := by
  unfold reportedBytes textBytes composedBytes bytesOf
  cases byteLength text with
  | none => simp
  | some sent =>
      cases byteLength (composition.nfc text) with
      | none => simp
      | some composed => simp [eq_comm]

/-- What a prompt is charged. -/
def promptTokens (composition : Composition) (parts : List (Str × Bool)) : Except Raised ℤ := do
  let charged ← pagePromptCharge composition parts
  return charged.1 + rateBoundTokens charged.2

/-- The runs of a piece that hold a digit. -/
def digitRuns (text : Str) : List Str := (splitWhite false [] text).filter hasDigit

/-- Composition makes one digit-bearing run of the piece longer and another shorter. -/
def MixedRuns (composition : Composition) (text : Str) : Prop :=
  (∃ run ∈ digitRuns text, bytesOf run < composedBytes composition run) ∧
    ∃ run ∈ digitRuns text, composedBytes composition run < bytesOf run

theorem byteCharge_append {first second : List (Str × Bool)} {bytes : ℕ} :
    byteCharge composition (first ++ second) = .ok bytes ↔
      ∃ one two, byteCharge composition first = .ok one ∧
        byteCharge composition second = .ok two ∧ bytes = one + two := by
  simp only [byteCharge, List.filter_append, List.mapM_append, bind_eq_ok, pure_eq_ok]
  constructor
  · rintro ⟨_, ⟨left, one, right, two, rfl⟩, rfl⟩
    exact ⟨_, _, ⟨left, one, rfl⟩, ⟨right, two, rfl⟩, List.sum_append⟩
  · rintro ⟨_, _, ⟨left, one, rfl⟩, ⟨right, two, rfl⟩, rfl⟩
    exact ⟨_, ⟨left, one, right, two, rfl⟩, List.sum_append⟩

theorem rateCharge_append (first second : List (Str × Bool)) :
    rateCharge (first ++ second) = rateCharge first + rateCharge second := by
  simp [rateCharge]

/-- What a list of runs is charged by its bytes. -/
theorem byteCharge_runs {runs : List Str} {bytes : ℕ}
    (charged : byteCharge composition (runs.map fun run => (run, hasDigit run)) = .ok bytes) :
    bytes = ((runs.filter hasDigit).map fun run =>
      max (bytesOf run) (composedBytes composition run)).sum := by
  obtain ⟨counts, counted, total⟩ := bind_eq_ok.mp charged
  rw [← pure_eq_ok.mp total]
  have filtered : (runs.map fun run => (run, hasDigit run)).filter Prod.snd =
      (runs.filter hasDigit).map fun run => (run, hasDigit run) := by
    rw [List.filter_map]
    rfl
  rw [filtered, mapM_eq_ok, List.forall₂_map_left_iff] at counted
  congr 1
  clear total
  generalize runs.filter hasDigit = digits at counted
  induction counted with
  | nil => rfl
  | cons here _ ih => rw [List.map_cons, ih, (reportedBytes_eq_ok.mp here).2.2]

theorem rateCharge_runs (runs : List Str) :
    rateCharge (runs.map fun run => (run, hasDigit run)) =
      ((runs.filter fun run => !hasDigit run).map List.length).sum := by
  rw [rateCharge, List.filter_map, List.map_map]
  rfl

theorem sum_filter_not (runs : List Str) (keep : Str → Bool) (measure : Str → ℕ) :
    (runs.map measure).sum = ((runs.filter keep).map measure).sum +
      ((runs.filter fun run => !keep run).map measure).sum := by
  induction runs with
  | nil => rfl
  | cons run rest ih =>
      cases kept : keep run with
      | true => simp [kept, ih, Nat.add_assoc]
      | false => simp [kept, ih, Nat.add_left_comm]

/-- A piece of the builder's own costs no more than it would as a reported one. -/
theorem ownCharge_le {text : Str} {own reported : ℕ} (unmixed : ¬ MixedRuns composition text)
    (charged : byteCharge composition (pieces [(text, false)]) = .ok own)
    (counted : reportedBytes composition text = .ok reported) :
    (own : ℤ) + rateBoundTokens (rateCharge (pieces [(text, false)])) ≤ reported := by
  have runsOf : pieces [(text, false)] =
      (splitWhite false [] text).map fun run => (run, hasDigit run) := by simp [pieces]
  rw [runsOf] at charged ⊢
  obtain ⟨sent, composed, rfl⟩ := reportedBytes_eq_ok.mp counted
  have joined := splitWhite_flatten false [] text
  have apart := nfc_splitWhite composition false [] text (by simp)
  rw [List.nil_append] at joined apart
  rw [← joined] at sent
  rw [← apart] at composed
  obtain ⟨sentRuns, sentSum⟩ := byteLength_flatten sent
  obtain ⟨composedRuns, composedSum⟩ := byteLength_flatten composed
  rw [List.map_map] at composedSum
  rw [byteCharge_runs charged, rateCharge_runs]
  set runs := splitWhite false [] text
  have sentSplit := sum_filter_not runs hasDigit bytesOf
  have composedSplit := sum_filter_not runs hasDigit (composedBytes composition)
  have kept : ∀ keep : Str → Bool, ∀ run ∈ runs.filter keep, run ∈ runs := fun keep run listed =>
    List.mem_of_mem_filter listed
  by_cases longer : ∃ run ∈ digitRuns text, bytesOf run < composedBytes composition run
  · have unshortened : ∀ run ∈ runs.filter hasDigit,
        bytesOf run ≤ composedBytes composition run := by
      intro run listed
      by_contra shorter
      exact unmixed ⟨longer, run, listed, not_le.mp shorter⟩
    have maxima : ((runs.filter hasDigit).map fun run =>
        max (bytesOf run) (composedBytes composition run)).sum =
          ((runs.filter hasDigit).map (composedBytes composition)).sum :=
      congrArg List.sum (List.map_congr_left fun run listed =>
        max_eq_right (unshortened run listed))
    have half : ((runs.filter fun run => !hasDigit run).map List.length).sum ≤
        2 * ((runs.filter fun run => !hasDigit run).map (composedBytes composition)).sum := by
      rw [← List.sum_map_mul_left]
      refine List.sum_le_sum fun run listed => ?_
      have encoded := composedRuns (composition.nfc run)
        (List.mem_map_of_mem (kept _ run listed))
      exact composition.nfc_half run _ encoded
    have rate := rateBoundTokens_le_half half
    have total : composedBytes composition text =
        (runs.map (composedBytes composition)).sum := composedSum
    have above := le_max_right (bytesOf text) (composedBytes composition text)
    rw [maxima]
    generalize ((runs.filter fun run => !hasDigit run).map List.length).sum = characters at *
    omega
  · push Not at longer
    have maxima : ((runs.filter hasDigit).map fun run =>
        max (bytesOf run) (composedBytes composition run)).sum =
          ((runs.filter hasDigit).map bytesOf).sum :=
      congrArg List.sum (List.map_congr_left fun run listed =>
        max_eq_left (longer run listed))
    have lengths : ((runs.filter fun run => !hasDigit run).map List.length).sum ≤
        ((runs.filter fun run => !hasDigit run).map bytesOf).sum :=
      List.sum_le_sum fun run listed => length_le_bytesOf (sentRuns run (kept _ run listed))
    have rate := rateBoundTokens_le_half
      (lengths.trans (Nat.le_mul_of_pos_left _ two_pos))
    have above := le_max_left (bytesOf text) (composedBytes composition text)
    rw [joined] at sentSum
    rw [maxima]
    generalize ((runs.filter fun run => !hasDigit run).map List.length).sum = characters at *
    omega

theorem promptTokens_eq_ok {parts : List (Str × Bool)} {tokens : ℤ} :
    promptTokens composition parts = .ok tokens ↔
      ∃ bytes, byteCharge composition (pieces parts) = .ok bytes ∧
        tokens = bytes + rateBoundTokens (rateCharge (pieces parts)) := by
  rw [promptTokens, bind_eq_ok]
  constructor
  · rintro ⟨charged, counted, total⟩
    obtain ⟨bytes, rate⟩ := pagePromptCharge_eq_ok.mp counted
    exact ⟨charged.1, bytes, by rw [← pure_eq_ok.mp total, rate]⟩
  · rintro ⟨bytes, counted, rfl⟩
    exact ⟨(bytes, rateCharge (pieces parts)), pagePromptCharge_eq_ok.mpr ⟨counted, rfl⟩, rfl⟩

theorem pieces_append (first second : List (Str × Bool)) :
    pieces (first ++ second) = pieces first ++ pieces second := List.flatMap_append

/-- A prompt costs at least what a stretch of its parts does. -/
theorem promptTokens_stretch {before after : List (Str × Bool)} (middle : List (Str × Bool))
    {tokens : ℤ}
    (charged : promptTokens composition (before ++ (middle ++ after)) = .ok tokens) :
    ∃ charge, promptTokens composition middle = .ok charge ∧ charge ≤ tokens := by
  obtain ⟨bytes, counted, rfl⟩ := promptTokens_eq_ok.mp charged
  rw [pieces_append, pieces_append] at counted ⊢
  obtain ⟨one, rest, first, later, rfl⟩ := byteCharge_append.mp counted
  obtain ⟨two, three, second, third, rfl⟩ := byteCharge_append.mp later
  refine ⟨_, promptTokens_eq_ok.mpr ⟨two, second, rfl⟩, ?_⟩
  rw [rateCharge_append, rateCharge_append]
  have rate := rateBoundTokens_mono (show (rateCharge (pieces middle) : ℤ) ≤
    (rateCharge (pieces before) + (rateCharge (pieces middle) + rateCharge (pieces after)) : ℕ) by
      omega)
  omega

/-- Moved to the reported side, a piece costs no less, unless composition mixes its runs. -/
theorem promptTokens_moved {before after : List (Str × Bool)} {text : Str} {own reported : ℤ}
    (unmixed : ¬ MixedRuns composition text)
    (charged : promptTokens composition (before ++ (text, false) :: after) = .ok own)
    (moved : promptTokens composition (before ++ (text, true) :: after) = .ok reported) :
    own ≤ reported := by
  obtain ⟨ownBytes, ownCounted, rfl⟩ := promptTokens_eq_ok.mp charged
  obtain ⟨bytes, counted, rfl⟩ := promptTokens_eq_ok.mp moved
  rw [← List.singleton_append, pieces_append, pieces_append] at ownCounted counted ⊢
  rw [← List.singleton_append (l := after), pieces_append, pieces_append]
  obtain ⟨one, _, first, later, rfl⟩ := byteCharge_append.mp ownCounted
  obtain ⟨ownMiddle, three, ownSecond, third, rfl⟩ := byteCharge_append.mp later
  obtain ⟨also, _, again, later, rfl⟩ := byteCharge_append.mp counted
  obtain ⟨middle, last, second, fourth, rfl⟩ := byteCharge_append.mp later
  obtain rfl : one = also := Except.ok.inj (first.symm.trans again)
  obtain rfl : three = last := Except.ok.inj (third.symm.trans fourth)
  have whole : reportedBytes composition text = .ok middle := by
    obtain ⟨counts, listed, total⟩ := bind_eq_ok.mp second
    obtain ⟨count, here, rest⟩ := bind_eq_ok.mp (show reportedBytes composition text >>= _ = _ from
      listed)
    obtain rfl := pure_eq_ok.mp rest
    rw [← pure_eq_ok.mp total, here]
    exact congrArg Except.ok (by simp)
  have cheaper := ownCharge_le unmixed ownSecond whole
  have none : rateCharge (pieces [(text, true)]) = 0 := rfl
  have joint := rateBoundTokens_add_le
    (rateCharge (pieces before) + rateCharge (pieces after) : ℕ)
    (rateCharge (pieces [(text, false)]))
  rw [rateCharge_append, rateCharge_append, rateCharge_append, rateCharge_append, none]
  have sums : ((rateCharge (pieces before) +
      (rateCharge (pieces [(text, false)]) + rateCharge (pieces after)) : ℕ) : ℤ) =
        (rateCharge (pieces before) + rateCharge (pieces after) : ℕ) +
          (rateCharge (pieces [(text, false)]) : ℕ) := by
    push_cast
    ring
  rw [sums, Nat.zero_add]
  omega

end Moving

end Verbatus.Capacity
