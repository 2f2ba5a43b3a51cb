import Verbatus.PageFeed.Ids
import Verbatus.PagePath.ActIdentity

namespace Verbatus.PageAccounting

open Library Library.Checked Refusal Python PageFeed

section Numerals

/-- The digits of a positive number as they are written: no zero stands first. -/
def Numeral (digits : List Char) : Prop :=
  (∀ digit ∈ digits, digit.isDigit = true) ∧ ∃ first rest, digits = first :: rest ∧ first ≠ '0'

theorem digitValue {digit : Char} (isDigit : digit.isDigit = true) :
    ∃ value, value < 10 ∧ digit = value.digitChar ∧ (digit ≠ '0' → 0 < value) := by
  rw [Char.isDigit, Bool.and_eq_true, decide_eq_true_eq, decide_eq_true_eq] at isDigit
  have low : 48 ≤ digit.toNat := isDigit.1
  have high : digit.toNat ≤ 57 := isDigit.2
  have same : digit = Char.ofNat digit.toNat := (Char.ofNat_toNat digit).symm
  generalize digit.toNat = code at low high same
  interval_cases code <;> subst same
  exacts [⟨0, by decide, rfl, fun apart => absurd rfl apart⟩, ⟨1, by decide, rfl, by decide⟩,
    ⟨2, by decide, rfl, by decide⟩, ⟨3, by decide, rfl, by decide⟩, ⟨4, by decide, rfl, by decide⟩,
    ⟨5, by decide, rfl, by decide⟩, ⟨6, by decide, rfl, by decide⟩, ⟨7, by decide, rfl, by decide⟩,
    ⟨8, by decide, rfl, by decide⟩, ⟨9, by decide, rfl, by decide⟩]

/-- A number is written back as the digits it was read from. -/
theorem Numeral.toDigits {digits : List Char} (numeral : Numeral digits) :
    0 < Nat.ofDigitChars 10 digits 0 ∧ Nat.toDigits 10 (Nat.ofDigitChars 10 digits 0) = digits := by
  induction digits using List.reverseRecOn with
  | nil => obtain ⟨-, first, rest, same, -⟩ := numeral; cases same
  | append_singleton digits digit ih =>
      obtain ⟨all, first, rest, same, leading⟩ := numeral
      obtain ⟨value, small, rfl, positive⟩ := digitValue (all digit (by simp))
      rw [Nat.ofDigitChars_append, Nat.ofDigitChars_cons_digitChar_of_lt_ten small,
        Nat.ofDigitChars_nil]
      cases digits with
      | nil =>
          rw [List.nil_append, List.cons.injEq] at same
          have above := positive (same.1 ▸ leading)
          rw [Nat.ofDigitChars_nil, Nat.mul_zero, Nat.zero_add]
          exact ⟨above, Nat.toDigits_of_lt_base small⟩
      | cons head tail =>
          rw [List.cons_append, List.cons.injEq] at same
          have before : Numeral (head :: tail) :=
            ⟨fun other member => all other (List.mem_append_left _ member), head, tail, rfl,
              same.1 ▸ leading⟩
          obtain ⟨above, written⟩ := ih before
          refine ⟨by omega, ?_⟩
          rw [← Nat.toDigits_append_toDigits (by decide) above small, written,
            Nat.toDigits_of_lt_base small]

theorem idParts?_eq_some {characters : List Char} {parts : IdParts} :
    idParts? characters = some parts ↔ characters = parts.letter :: parts.digits ∧
      parts.letter.isUpper = true ∧ Numeral parts.digits := by
  obtain ⟨letter, digits⟩ := parts
  constructor
  · intro read
    unfold idParts? at read
    split at read
    · next other first rest =>
      split_ifs at read with shape
      cases read
      refine ⟨rfl, shape.1, ?_, first, rest, rfl, shape.2.2.1⟩
      exact List.forall_mem_cons.mpr ⟨shape.2.1, List.all_eq_true.mp shape.2.2.2⟩
    · cases read
  · rintro ⟨rfl, upper, all, first, rest, same, leading⟩
    dsimp only at same all
    subst same
    rw [List.forall_mem_cons] at all
    rw [idParts?, if_pos ⟨upper, all.1, leading, List.all_eq_true.mpr all.2⟩]

theorem readInteger_eq_ok {digits : List Char} {number : ℕ} : readInteger digits = .ok number ↔
    digits.length ≤ maxIntegerDigits ∧ Nat.ofDigitChars 10 digits 0 = number := by
  rw [readInteger, require_bind_eq_ok, Except.ok.injEq]

/-- An id that is read as its parts is written from their letter and number. -/
theorem idOf_parts {identifier : String} {parts : IdParts} {number : ℕ}
    (shaped : idParts? identifier.toList = some parts) (read : readInteger parts.digits = .ok number) :
    idOf parts.letter number = identifier := by
  obtain ⟨written, -, numeral⟩ := idParts?_eq_some.mp shaped
  obtain ⟨-, rfl⟩ := readInteger_eq_ok.mp read
  rw [← String.toList_inj, idOf_toList, numeral.toDigits.2, written]

end Numerals

section Accepted

variable {unicode : UnicodeTables} {policy : PageAccountingPolicy} {feed : PageReading.Feed}
  {candidates : Candidates}

theorem mem_candidatesOf {rows : List (String × Option Ink.Bounds)} {identifier : String} :
    identifier ∈ candidatesOf rows ↔ identifier ∈ rows.map Prod.fst := by
  induction rows using List.reverseRecOn with
  | nil => exact Iff.rfl
  | append_singleton rows row ih =>
      rw [candidatesOf, List.foldl_append, ← candidatesOf, List.foldl_cons, List.foldl_nil,
        Mapping.mem_set, ih, List.map_append, List.mem_append, List.map_singleton,
        List.mem_singleton, or_comm]

theorem checkFeedIds_shaped {identifiers seen : List String}
    (checked : checkFeedIds seen identifiers = .ok ()) :
    ∀ identifier ∈ identifiers, (idParts? identifier.toList).isSome = true := by
  induction identifiers generalizing seen with
  | nil => exact fun _ absent => nomatch absent
  | cons identifier identifiers ih =>
      rw [checkFeedIds, require_bind_eq_ok, require_bind_eq_ok] at checked
      exact List.forall_mem_cons.mpr ⟨checked.1, ih checked.2.2⟩

/-- Every id placed is one of the feed. -/
theorem placementBoxes_ids (placed : placementBoxes unicode policy feed = .ok candidates) :
    ∀ identifier ∈ candidates, identifier ∈ feedItems feed := by
  unfold placementBoxes at placed
  obtain ⟨units, placedUnits, placed⟩ := bind_eq_ok.mp placed
  obtain ⟨lines, placedLines, placed⟩ := bind_eq_ok.mp placed
  obtain ⟨blocks, placedBlocks, placed⟩ := bind_eq_ok.mp placed
  cases placed
  intro identifier member
  rw [mem_candidatesOf, List.map_append, List.map_append, List.append_assoc, List.mem_append,
    List.mem_append] at member
  rw [feedItems, List.mem_append]
  rcases member with unit | detection
  · left
    obtain ⟨row, listed, rfl⟩ := List.mem_map.mp unit
    obtain ⟨found, inside, made⟩ := mapM_mem_right placedUnits listed
    obtain ⟨given, -, made⟩ := bind_eq_ok.mp made
    cases made
    obtain ⟨witness, among, held⟩ := List.mem_flatMap.mp inside
    exact List.mem_flatMap.mpr ⟨witness, among, List.mem_map_of_mem held⟩
  · right
    cases surya : feed.surya with
    | none =>
        rw [surya] at placedLines placedBlocks
        cases placedLines
        cases placedBlocks
        rcases detection with absent | absent <;> cases absent
    | some detected =>
        rw [surya] at placedLines placedBlocks
        change identifier ∈ (detected.lines ++ detected.blocks).map PageReading.FeedDetection.id
        rw [List.map_append, List.mem_append]
        rcases detection with line | block
        · left
          obtain ⟨row, listed, rfl⟩ := List.mem_map.mp line
          obtain ⟨found, inside, made⟩ := mapM_mem_right placedLines listed
          obtain ⟨given, -, made⟩ := bind_eq_ok.mp made
          cases made
          exact List.mem_map_of_mem inside
        · right
          obtain ⟨row, listed, rfl⟩ := List.mem_map.mp block
          obtain ⟨found, inside, made⟩ := mapM_mem_right placedBlocks listed
          obtain ⟨given, -, made⟩ := bind_eq_ok.mp made
          cases made
          exact List.mem_map_of_mem inside

/-- The ids of one letter that a feed defines are numbered from one without a gap. -/
theorem feedCandidates_gapless (accepted : feedCandidates unicode policy feed = .ok candidates)
    (letter : Char) :
    ∃ count, ∀ number, idOf letter number ∈ candidates ↔ 1 ≤ number ∧ number ≤ count := by
  unfold feedCandidates at accepted
  obtain ⟨_, checked, accepted⟩ := bind_eq_ok.mp accepted
  obtain ⟨boxes, placed, accepted⟩ := bind_eq_ok.mp accepted
  obtain ⟨numbers, readAll, accepted⟩ := bind_eq_ok.mp accepted
  obtain ⟨_, numbered, same⟩ := bind_eq_ok.mp accepted
  cases same
  have shaped : ∀ identifier ∈ candidates, ∃ parts, idParts? identifier.toList = some parts := by
    intro identifier member
    rw [← Option.isSome_iff_exists]
    exact checkFeedIds_shaped checked identifier (placementBoxes_ids placed identifier member)
  generalize known : candidates.keys.filterMap (fun identifier => idParts? identifier.toList) = parts
    at readAll numbered
  have read_of (number : ℕ) : idOf letter number ∈ candidates ↔
      ∃ part ∈ parts, part.letter = letter ∧ readInteger part.digits = .ok number := by
    rw [← known]
    constructor
    · intro member
      obtain ⟨part, read⟩ := shaped _ member
      have listed : part ∈ candidates.keys.filterMap fun identifier => idParts? identifier.toList :=
        List.mem_filterMap.mpr ⟨_, member, read⟩
      obtain ⟨value, -, held⟩ := mapM_mem_left readAll (known ▸ listed)
      obtain ⟨written, -, numeral⟩ := idParts?_eq_some.mp read
      rw [idOf_toList, List.cons.injEq] at written
      refine ⟨part, listed, written.1.symm, ?_⟩
      rw [readInteger_eq_ok] at held ⊢
      refine ⟨held.1, ?_⟩
      rw [← written.2, Nat.ofDigitChars_ten_toDigits]
    · rintro ⟨part, listed, rfl, read⟩
      obtain ⟨identifier, member, shape⟩ := List.mem_filterMap.mp listed
      rw [idOf_parts shape read]
      exact member
  by_cases present : letter ∈ sortedSet (parts.map IdParts.letter)
  · have gapless := forM_eq_ok.mp numbered letter present
    obtain ⟨found, collected, gapless⟩ := bind_eq_ok.mp gapless
    have inOrder := require_eq_ok.mp gapless
    refine ⟨found.length, fun number => ?_⟩
    have listed : number ∈ found ↔ number ∈ (List.range found.length).map (· + 1) := by
      rw [← inOrder, mem_sortBy]
    have gathered : number ∈ found ↔
        ∃ part ∈ parts, part.letter = letter ∧ readInteger part.digits = .ok number := by
      rw [mem_of_mapM collected]
      simp only [List.mem_filter, decide_eq_true_eq, and_assoc]
    rw [read_of, ← gathered, listed, List.mem_map]
    constructor
    · rintro ⟨index, inside, rfl⟩
      have bound := List.mem_range.mp inside
      omega
    · rintro ⟨low, high⟩
      exact ⟨number - 1, List.mem_range.mpr (by omega), by omega⟩
  · refine ⟨0, fun number => ?_⟩
    rw [read_of]
    constructor
    · rintro ⟨part, listed, rfl, -⟩
      exact absurd (mem_sortedSet.mpr (List.mem_map_of_mem listed)) present
    · rintro ⟨low, high⟩
      omega

end Accepted

section Cites

variable {candidates : Candidates}

/-- A range of one letter with an end of more digits than `int` reads. -/
def Overlong (cite : Json) : Prop :=
  ∃ text first last, cite = .str text ∧ rangeParts? text.toList = some (first, last) ∧
    first.letter = last.letter ∧
      (maxIntegerDigits < first.digits.length ∨ maxIntegerDigits < last.digits.length)

/-- A citation names an id, or the ids between the ends of a range. -/
def Names (cite : Json) (ids : List String) : Prop :=
  ∃ text, cite = .str text ∧ (ids = [text] ∨
    ∃ first last low high, rangeParts? text.toList = some (first, last) ∧
      first.letter = last.letter ∧ readInteger first.digits = .ok low ∧
      readInteger last.digits = .ok high ∧ low ≤ high ∧ ids = spanIds first.letter low high)

/-- What a citation gives: known ids it names, or a problem, and never both. -/
def CiteRead (candidates : Candidates) (cite : Json) (given : List String × List AnswerFinding) :
    Prop :=
  given.1 ≠ [] ∧ given.2 = [] ∧ Names cite given.1 ∧ (∀ identifier ∈ given.1, identifier ∈ candidates) ∨
    given.1 = [] ∧ given.2 ≠ []

/-- What is read of a list of citations: the known ids, each once where it is first cited. -/
structure Expansion (candidates : Candidates) (cites : List Json) (ids : List String)
    (problems : List AnswerFinding) : Prop where
  known : ∀ identifier ∈ ids, identifier ∈ candidates
  distinct : ids.Nodup
  read : ∃ given, List.Forall₂ (CiteRead candidates) cites given ∧
    ids = (given.flatMap Prod.fst).eraseDups ∧ problems = given.flatMap Prod.snd

theorem rangeParts?_not_id {characters : List Char} {ends : IdParts × IdParts}
    (range : rangeParts? characters = some ends) : idParts? characters = none := by
  have dash : '-' ∈ characters := by
    rw [rangeParts?] at range
    split at range
    · next first last cut =>
      have parts := List.span_eq_takeWhile_dropWhile (p := (· ≠ '-')) (l := characters)
      rw [cut, Prod.mk.injEq] at parts
      exact List.dropWhile_subset _ (parts.2 ▸ List.mem_cons_self)
    · cases range
  rw [Option.eq_none_iff_forall_ne_some]
  intro parts read
  obtain ⟨written, upper, numeral⟩ := idParts?_eq_some.mp read
  rw [written, List.mem_cons] at dash
  rcases dash with same | inside
  · rw [← same] at upper
    exact absurd upper (by decide)
  · exact absurd (numeral.1 _ inside) (by decide)

theorem idOf_eq (letter : Char) (number : ℕ) : s!"{letter}{number}" = idOf letter number := rfl

/-- A citation with no overlong end gives known ids or problems. -/
theorem expandCite_reads
    (gapless : ∀ letter, ∃ count, ∀ number, idOf letter number ∈ candidates ↔
      1 ≤ number ∧ number ≤ count)
    {cite : Json} (short : ¬ Overlong cite) :
    ∃ given, expandCite candidates cite = .ok given ∧ CiteRead candidates cite given := by
  cases cite with
  | str text =>
      rw [expandCite]
      split_ifs with shaped known
      · refine ⟨_, rfl, .inl ⟨List.cons_ne_nil _ _, rfl, ⟨text, rfl, .inl rfl⟩, ?_⟩⟩
        exact fun identifier member => List.mem_singleton.mp member ▸ known
      · exact ⟨_, rfl, .inr ⟨rfl, List.cons_ne_nil _ _⟩⟩
      · split
        · exact ⟨_, rfl, .inr ⟨rfl, List.cons_ne_nil _ _⟩⟩
        · next first last range =>
          by_cases letters : first.letter = last.letter
          · rw [if_neg (not_not.mpr letters)]
            have bounds : first.digits.length ≤ maxIntegerDigits ∧
                last.digits.length ≤ maxIntegerDigits := by
              by_contra long
              exact short ⟨text, first, last, rfl, range, letters, by omega⟩
            have low := readInteger_eq_ok.mpr ⟨bounds.1, rfl⟩
            have high := readInteger_eq_ok.mpr ⟨bounds.2, rfl⟩
            rw [low, high, ok_bind, ok_bind]
            generalize Nat.ofDigitChars 10 first.digits 0 = from_ at low
            generalize Nat.ofDigitChars 10 last.digits 0 = until_ at high
            split_ifs with reversed detection
            · exact ⟨_, rfl, .inr ⟨rfl, List.cons_ne_nil _ _⟩⟩
            · exact ⟨_, rfl, .inr ⟨rfl, List.cons_ne_nil _ _⟩⟩
            dsimp only
            split_ifs with absent
            · exact ⟨_, rfl, .inr ⟨rfl, mt List.map_eq_nil_iff.mp absent⟩⟩
            · rw [not_not, List.filter_eq_nil_iff] at absent
              have both : idOf first.letter from_ ∈ candidates ∧
                  idOf first.letter until_ ∈ candidates := by
                constructor
                · by_contra unknown
                  exact absent _ (.head _) (decide_eq_true unknown)
                · by_contra unknown
                  exact absent _ (.tail _ (.head _)) (decide_eq_true unknown)
              obtain ⟨count, numbers⟩ := gapless first.letter
              have ends := (numbers from_).mp both.1
              have final := (numbers until_).mp both.2
              refine ⟨_, rfl, .inl ⟨?_, rfl, ?_, ?_⟩⟩
              · rw [spanIds, Ne, List.map_eq_nil_iff, List.range'_eq_nil_iff]
                omega
              · exact ⟨text, rfl, .inr ⟨first, last, from_, until_, range, letters, low, high,
                  by omega, rfl⟩⟩
              · intro identifier member
                obtain ⟨number, inside, rfl⟩ := List.mem_map.mp member
                have place := List.mem_range'_1.mp inside
                exact (numbers number).mpr (by omega)
          · rw [if_pos letters]
            exact ⟨_, rfl, .inr ⟨rfl, List.cons_ne_nil _ _⟩⟩
  | null | bool | int | float | list | object =>
      exact ⟨_, rfl, .inr ⟨rfl, List.cons_ne_nil _ _⟩⟩

/-- A citation with an overlong end raises. -/
theorem expandCite_raises {cite : Json} (long : Overlong cite) :
    ∃ message, expandCite candidates cite = .error (.valueError message) := by
  obtain ⟨text, first, last, rfl, range, letters, long⟩ := long
  rw [expandCite, rangeParts?_not_id range, range]
  simp only [Option.isSome_none, Bool.false_eq_true, if_false, letters, ne_eq, not_true_eq_false]
  by_cases short : first.digits.length ≤ maxIntegerDigits
  · have exceeds : ¬ last.digits.length ≤ maxIntegerDigits := by omega
    rw [readInteger_eq_ok.mpr ⟨short, rfl⟩, ok_bind, readInteger, require, if_neg exceeds]
    exact ⟨_, rfl⟩
  · rw [readInteger, require, if_neg short]
    exact ⟨_, rfl⟩

/-- Where a list of citations is read, none of them has an overlong end. -/
theorem expandCites_short {cites : List Json} {read : List String × List AnswerFinding}
    (made : expandCites candidates cites = .ok read) : ∀ cite ∈ cites, ¬ Overlong cite := by
  intro cite member long
  obtain ⟨given, expanded, -⟩ := bind_eq_ok.mp made
  obtain ⟨one, -, single⟩ := mapM_mem_left expanded member
  obtain ⟨message, raised⟩ := @expandCite_raises candidates cite long
  rw [raised] at single
  cases single

/-- A feed of one witness with two units that place nothing. -/
def pairFeed : PageReading.Feed where
  pageId := "page"
  pageOrdinal := 1
  pageSize := ⟨10, 10⟩
  witnessUnits := "boxes"
  witnesses := [⟨"A", none, some "read", [⟨"A1", none, "a", none⟩, ⟨"A2", none, "b", none⟩]⟩]
  surya := none

def pairCandidates : Candidates := candidatesOf [("A1", none), ("A2", none)]

theorem pairFeed_accepted :
    feedCandidates PagePath.asciiTables PagePath.leastPolicy pairFeed = .ok pairCandidates := by
  rfl

/-- A range that ends in more digits than `int` reads. -/
def overlongCite : Json :=
  .str (String.ofList ("A1-A".toList ++ List.replicate (maxIntegerDigits + 1) '1'))

theorem overlongCite_long : Overlong overlongCite := by
  refine ⟨_, ⟨'A', ['1']⟩, ⟨'A', List.replicate (maxIntegerDigits + 1) '1'⟩, rfl, ?_, rfl, .inr ?_⟩
  · rw [String.toList_ofList]
    have numeral : Numeral (List.replicate (maxIntegerDigits + 1) '1') :=
      ⟨fun digit member => (List.eq_of_mem_replicate member).symm ▸ rfl, '1',
        List.replicate maxIntegerDigits '1', rfl, by decide⟩
    have first : idParts? ['A', '1'] = some ⟨'A', ['1']⟩ := by decide
    have last := (@idParts?_eq_some _ ⟨'A', List.replicate (maxIntegerDigits + 1) '1'⟩).mpr
      ⟨rfl, by decide, numeral⟩
    change (do
      let first ← idParts? ['A', '1']
      let last ← idParts? ('A' :: List.replicate (maxIntegerDigits + 1) '1')
      return (first, last)) = _
    rw [first, last]
    rfl
  · rw [List.length_replicate]
    exact Nat.lt_succ_self _

end Cites

end Verbatus.PageAccounting
