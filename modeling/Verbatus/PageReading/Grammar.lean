import Verbatus.PageReading.PageTypes
import Verbatus.Python.Json
import Verbatus.Python.Text

namespace Verbatus.PageReading

open Library Python Refusal

/-- One way a decoded value departs from the page answer grammar. -/
structure GrammarProblem where
  code : String
  detail : String

def labelMaxCharacters : ℕ := 80

def entriesTopFields : List String := ["page_type", "writing", "entries", "set_aside"]

def reaskEntriesTopFields : List String := ["entries", "set_aside"]

def continuationFlags : List String := ["continues_from_previous_page", "continues_to_next_page"]

def actRequired : List String := ["n", "kind", "cites", "text"] ++ continuationFlags

def actFields : List String := actRequired ++ ["label"]

def setAsideFields : List String := ["id", "reason"]

/-- Whether an object's keys are exactly the given ones. -/
def keysAre (value : Json) (fields : List String) : Bool :=
  value.keys.all (· ∈ fields) && fields.all (· ∈ value.keys)

/-- A problem where the check finds one, and none elsewhere. -/
def problemIf (found : Bool) (code detail : String) : List GrammarProblem :=
  if found then [⟨code, detail⟩] else []

@[simp] theorem problemIf_eq_nil {found : Bool} {code detail : String} :
    problemIf found code detail = [] ↔ found = false := by
  cases found <;> simp [problemIf]

/-- A check of the value under a key, where the object has the key. -/
def fieldProblems (value : Json) (key : String) (check : Json → List GrammarProblem) :
    List GrammarProblem :=
  ((value.get? key).map check).getD []

def numberProblems (label : String) (index : ℕ) (value : Json) : List GrammarProblem :=
  match value.int? with
  | none => [⟨"n-not-integer", label ++ ".n is " ++ value.shown⟩]
  | some n =>
    problemIf (n ≠ index + 1) "n-not-contiguous" s!"{label}.n is {n}, expected {index + 1}"

/-- An entry kind the vocabulary has, as a value names it. -/
def kindOf? (value : Json) : Option EntryKind := value.str?.bind entryKind?

def kindProblems (label : String) (value : Json) : List GrammarProblem :=
  problemIf (kindOf? value).isNone "kind-unknown" (label ++ ".kind is " ++ value.shown)

/-- A label is absent, null, or a short string that is not blank. -/
def labelValid : Json → Bool
  | .null => true
  | .str text => strip text ≠ "" && text.length ≤ labelMaxCharacters
  | _ => false

def citesValid (value : Json) : Bool :=
  match value.list? with
  | none => false
  | some cites => cites.all fun cite => cite.str?.isSome

def actProblems (index : ℕ) (act : Json) : List GrammarProblem :=
  let label := s!"entries[{index}]"
  if ¬ act.isObject then [⟨"act-not-object", label ++ " is not an object"⟩] else
  let missing := sortedSet (actRequired.filter (· ∉ act.keys))
  let extra := sortedSet (act.keys.filter (· ∉ actFields))
  problemIf (missing ≠ []) "act-field-missing" (label ++ " lacks " ++ quote missing) ++
  problemIf (extra ≠ []) "act-field-unknown" (label ++ " carries " ++ quote extra) ++
  fieldProblems act "n" (numberProblems label index) ++
  fieldProblems act "kind" (kindProblems label) ++
  problemIf (¬ labelValid (act.get "label")) "label-invalid"
    (s!"{label}.label is not a non-blank string of at most {labelMaxCharacters} characters") ++
  fieldProblems act "cites" (fun cites =>
    problemIf (¬ citesValid cites) "cites-invalid" (label ++ ".cites is not a list of strings")) ++
  fieldProblems act "text" (fun text =>
    problemIf text.str?.isNone "text-invalid" (label ++ ".text is not a string")) ++
  continuationFlags.flatMap fun flag =>
    fieldProblems act flag fun value =>
      problemIf value.bool?.isNone "flag-invalid" s!"{label}.{flag} is not true or false"

def setAsideProblems (index : ℕ) (entry : Json) : List GrammarProblem :=
  let label := s!"set_aside[{index}]"
  if ¬ (entry.isObject ∧ keysAre entry setAsideFields) then
    [⟨"set-aside-invalid", label ++ " is not exactly \x7bid, reason\x7d"⟩]
  else
    problemIf ((entry.get "id").str?.isNone ∨ (entry.get "reason").str?.isNone)
      "set-aside-invalid" (label ++ " id and reason are not both strings")

/-- The problems of each element of a list, by its place. -/
def elementProblems (value : Json) (notList : GrammarProblem)
    (check : ℕ → Json → List GrammarProblem) : List GrammarProblem :=
  match value.list? with
  | none => [notList]
  | some elements => (elements.mapIdx check).flatten

/-- Every way a decoded value departs from the page answer grammar. -/
def grammarProblems (answer : Json) : List GrammarProblem :=
  if ¬ answer.isObject then [⟨"not-object", "the answer is not a JSON object"⟩] else
  if ¬ (keysAre answer entriesTopFields ∨ keysAre answer reaskEntriesTopFields) then
    [⟨"top-fields", s!"the answer's keys are {quote (sortedSet answer.keys)}, not exactly " ++
      s!"{quote (sortedSet entriesTopFields)} (a re-ask: without page_type and writing)"⟩]
  else
    fieldProblems answer "page_type" (fun value =>
      problemIf (value.str?.bind pageType?).isNone "page-type-unknown"
        ("page_type is " ++ value.shown)) ++
    fieldProblems answer "writing" (fun value =>
      problemIf (value.str?.bind writing?).isNone "writing-unknown"
        ("writing is " ++ value.shown)) ++
    elementProblems (answer.get "entries") ⟨"entries-not-list", "entries is not a list"⟩
      actProblems ++
    elementProblems (answer.get "set_aside") ⟨"set-aside-not-list", "set_aside is not a list"⟩
      setAsideProblems

/-- One entry of an answer inside the grammar. -/
structure AnswerEntry where
  n : ℤ
  kind : EntryKind
  label : Option String
  cites : List Json
  text : String
  continuesFromPreviousPage : Bool
  continuesToNextPage : Bool

def AnswerEntry.read (raw : Json) : AnswerEntry where
  n := (raw.get "n").number
  kind := (kindOf? (raw.get "kind")).getD .other
  label := (raw.get "label").str?
  cites := (raw.get "cites").elements
  text := (raw.get "text").text
  continuesFromPreviousPage := (raw.get "continues_from_previous_page").flag
  continuesToNextPage := (raw.get "continues_to_next_page").flag

/-- One id an answer inside the grammar sets aside. -/
structure SetAsideRow where
  id : Json
  reason : String

def SetAsideRow.read (raw : Json) : SetAsideRow where
  id := raw.get "id"
  reason := (raw.get "reason").text

def answerEntries (answer : Json) : List AnswerEntry :=
  (answer.get "entries").elements.map .read

def answerSetAside (answer : Json) : List SetAsideRow :=
  (answer.get "set_aside").elements.map .read

/-- The type and the writing an answer states, each `None` where it states none. -/
def statedPageType (answer : Option Json) : Option PageType × Option Writing :=
  match answer with
  | none => (none, none)
  | some stated =>
    ((stated.get "page_type").str?.bind pageType?, (stated.get "writing").str?.bind writing?)

section Inside

variable {answer : Json}

/-- The elements of a list that departs nowhere from its check. -/
theorem elementProblems_eq_nil {value : Json} {notList : GrammarProblem}
    {check : ℕ → Json → List GrammarProblem} :
    elementProblems value notList check = [] ↔
      ∃ elements, value = .list elements ∧
        ∀ index element, elements[index]? = some element → check index element = [] := by
  cases found : value.list? with
  | none =>
      have other : ∀ elements, value ≠ .list elements := by
        rintro elements rfl
        simp [Json.list?] at found
      simp [elementProblems, found, other]
  | some elements =>
      obtain rfl := Json.list?_eq_some.mp found
      simp only [elementProblems, Json.list?, List.flatten_eq_nil_iff, List.mem_mapIdx,
        Json.list.injEq, exists_eq_left']
      constructor
      · intro each index element place
        obtain ⟨inside, same⟩ := List.getElem?_eq_some_iff.mp place
        exact each _ ⟨index, inside, by rw [same]⟩
      · rintro each _ ⟨index, inside, rfl⟩
        exact each index _ (List.getElem?_eq_getElem inside)

/-- What a check of a present field found none of. -/
theorem fieldProblems_eq_nil {value : Json} {key : String} {check : Json → List GrammarProblem}
    (clean : fieldProblems value key check = []) {found : Json}
    (present : value.get? key = some found) : check found = [] := by
  simpa [fieldProblems, present] using clean

theorem get?_of_mem_keys {value : Json} {key : String} (present : key ∈ value.keys) :
    ∃ found, value.get? key = some found := by
  cases value <;> simp only [Json.keys, List.not_mem_nil] at present
  rw [← Option.isSome_iff_exists]
  simp only [Json.get?, List.lookup_isSome_iff]
  obtain ⟨field, listed, rfl⟩ := List.mem_map.mp present
  exact ⟨field, listed, beq_self_eq_true _⟩

/-- What an entry inside the grammar has: every required field, each past its check. -/
structure EntryInside (index : ℕ) (act : Json) : Prop where
  object : act.isObject = true
  present : ∀ key ∈ actRequired, ∃ found, act.get? key = some found
  number : fieldProblems act "n" (numberProblems s!"entries[{index}]" index) = []
  kind : fieldProblems act "kind" (kindProblems s!"entries[{index}]") = []
  flags : ∀ flag ∈ continuationFlags, fieldProblems act flag (fun value =>
    let label := s!"entries[{index}]"
    problemIf value.bool?.isNone "flag-invalid" s!"{label}.{flag} is not true or false") = []

theorem actProblems_inside {index : ℕ} {act : Json} (clean : actProblems index act = []) :
    EntryInside index act := by
  unfold actProblems at clean
  split_ifs at clean with shape
  simp only [List.append_eq_nil_iff, problemIf_eq_nil, decide_eq_false_iff_not, not_not,
    sortedSet_eq_nil] at clean
  obtain ⟨⟨⟨⟨⟨⟨⟨complete, -⟩, number⟩, kind⟩, -⟩, -⟩, -⟩, flags⟩ := clean
  refine ⟨shape, ?_, number, kind, List.flatMap_eq_nil_iff.mp flags⟩
  intro key required
  apply get?_of_mem_keys
  by_contra absent
  have listed : key ∈ actRequired.filter (· ∉ act.keys) :=
    List.mem_filter.mpr ⟨required, decide_eq_true absent⟩
  rw [complete] at listed
  exact List.not_mem_nil listed

/-- An entry inside the grammar is numbered by its place. -/
theorem actProblems_number {index : ℕ} {act : Json} (clean : actProblems index act = []) :
    (AnswerEntry.read act).n = index + 1 := by
  have inside := actProblems_inside clean
  obtain ⟨found, held⟩ := inside.present "n" (by decide)
  have checked := fieldProblems_eq_nil inside.number held
  simp only [AnswerEntry.read, Json.get, held, Option.getD_some]
  cases number : found.int? with
  | none => simp [numberProblems, number] at checked
  | some n =>
      simp only [numberProblems, number, problemIf_eq_nil, decide_eq_false_iff_not, not_not]
        at checked
      rw [Json.number, number, Option.getD_some, checked]

/-- An entry inside the grammar names its kind by a word of the vocabulary. -/
theorem actProblems_kind {index : ℕ} {act : Json} (clean : actProblems index act = []) :
    act.get "kind" = .str (AnswerEntry.read act).kind.text := by
  have inside := actProblems_inside clean
  obtain ⟨found, held⟩ := inside.present "kind" (by decide)
  have checked := fieldProblems_eq_nil inside.kind held
  rw [kindProblems, problemIf_eq_nil, Option.isNone_eq_false_iff, Option.isSome_iff_exists] at checked
  obtain ⟨kind, named⟩ := checked
  obtain ⟨text, isText, listed⟩ := Option.bind_eq_some_iff.mp named
  have word := List.find?_some listed
  rw [decide_eq_true_eq] at word
  simp only [AnswerEntry.read, Json.get, held, Option.getD_some, named, word]
  exact Json.str?_eq_some.mp isText

/-- An entry inside the grammar has each continuation flag, true or false. -/
theorem actProblems_flag {index : ℕ} {act : Json} (clean : actProblems index act = [])
    {flag : String} (listed : flag ∈ continuationFlags) :
    (act.get flag).bool? = some (act.get flag).flag := by
  have inside := actProblems_inside clean
  have required : flag ∈ actRequired := List.mem_append_right _ listed
  obtain ⟨found, held⟩ := inside.present flag required
  have checked := fieldProblems_eq_nil (inside.flags flag listed) held
  rw [problemIf_eq_nil, Option.isNone_eq_false_iff, Option.isSome_iff_exists] at checked
  obtain ⟨value, isBool⟩ := checked
  simp [Json.get, held, Json.flag, isBool]

/-- What an answer inside the grammar holds. -/
theorem grammarProblems_lists (inside : grammarProblems answer = []) :
    (∃ entries, answer.get "entries" = .list entries ∧
      ∀ index act, entries[index]? = some act → actProblems index act = []) ∧
    ∃ rows, answer.get "set_aside" = .list rows ∧
      ∀ index row, rows[index]? = some row → setAsideProblems index row = [] := by
  unfold grammarProblems at inside
  split_ifs at inside
  rw [List.append_eq_nil_iff, List.append_eq_nil_iff] at inside
  exact ⟨elementProblems_eq_nil.mp inside.1.2, elementProblems_eq_nil.mp inside.2⟩

/-- The entries of an answer inside the grammar are numbered from one without a gap. -/
theorem answerEntries_numbers (inside : grammarProblems answer = []) :
    (answerEntries answer).map AnswerEntry.n =
      (List.range (answerEntries answer).length).map fun index : ℕ => (index : ℤ) + 1 := by
  obtain ⟨⟨entries, listed, each⟩, -⟩ := grammarProblems_lists inside
  apply List.ext_getElem
  · simp
  · intro index inList inRange
    simp only [List.length_map, answerEntries, listed, Json.elements_list] at inList
    simp only [answerEntries, listed, Json.elements_list, List.getElem_map, List.getElem_range]
    exact actProblems_number (each index _ (List.getElem?_eq_getElem inList))

end Inside

end Verbatus.PageReading
