import Verbatus.Contracts.Records
import Verbatus.Python.Text

namespace Verbatus.Canonical

open Python CodePoint Library Library.Checked Refusal
open Identities (str str_injective)

section Dicts

/-- Whether there is nothing but white space in a text. -/
def isBlank (text : Str) : Bool := text.all fun point => point.scalar?.any Python.isSpace

/-- The text a decoded string holds; a lone surrogate has no place in one. -/
def plainText (text : Str) : String := String.ofList (text.filterMap scalar?)

/-- The fields of a record under their names. -/
def named (fields : List (String × JsonValue)) : List (Str × JsonValue) :=
  fields.map fun field => (str field.1, field.2)

/-- Whether a dict has these keys and no others. -/
def hasExactly (names : List String) (fields : List (Str × JsonValue)) : Bool :=
  (fields.all fun field => decide (field.1 ∈ names.map str)) &&
    names.all fun name => (field? name fields).isSome

/-- The value under a key that is known to be there. -/
def fieldOf (name : String) (fields : List (Str × JsonValue)) : JsonValue :=
  (field? name fields).getD .null

/-- `is_sha256` -/
def isSha256 (text : Str) : Bool := text.length = 64 && text.all Identities.isLowerHex

/-- A text with something in it. -/
def isText : JsonValue → Bool
  | .str text => !text.isEmpty
  | _ => false

end Dicts

section Lemmas

variable {fields : List (String × JsonValue)}

@[simp] theorem plainText_str (text : String) : plainText (str text) = text := by
  rw [plainText, str, Str.ofChars, List.filterMap_map]
  simp [Function.comp_def, scalar?]

theorem named_keys : (named fields).map Prod.fst = (fields.map Prod.fst).map str := by
  rw [named, List.map_map, List.map_map]
  rfl

theorem named_distinct (distinct : (fields.map Prod.fst).Nodup) :
    ((named fields).map Prod.fst).Nodup := by
  rw [named_keys]
  exact distinct.map str_injective

/-- A named field is found under its name. -/
theorem field?_named (distinct : (fields.map Prod.fst).Nodup) {name : String} {value : JsonValue}
    (member : (name, value) ∈ fields) : field? name (named fields) = some value := by
  rw [field?_eq_some (named_distinct distinct)]
  exact List.mem_map.mpr ⟨(name, value), member, rfl⟩

/-- A dict that was written and read back, its keys in order. -/
def readBack (fields : List (Str × JsonValue)) : List (Str × JsonValue) :=
  sortBy Prod.fst (fields.map fun field => (field.1, field.2.sorted))

theorem object_sorted (fields : List (Str × JsonValue)) :
    (JsonValue.object fields).sorted = .object (readBack fields) := by
  rw [JsonValue.sorted, JsonValue.sortedFields_eq, readBack]

theorem readBack_keys (fields : List (Str × JsonValue)) :
    ((readBack fields).map Prod.fst).Perm (fields.map Prod.fst) := by
  have keys := (sortBy_perm Prod.fst (fields.map fun field => (field.1, field.2.sorted))).map Prod.fst
  rwa [List.map_map] at keys

theorem field?_readBack (distinct : (fields.map Prod.fst).Nodup) {name : String}
    {value : JsonValue} (member : (name, value) ∈ fields) :
    field? name (readBack (named fields)) = some value.sorted := by
  rw [readBack, field?_sorted (named_distinct distinct), field?_named distinct member]
  rfl

theorem field?_isSome {found : List (Str × JsonValue)} {name : String}
    (listed : str name ∈ found.map Prod.fst) : (field? name found).isSome = true := by
  obtain ⟨field, member, same⟩ := List.mem_map.mp listed
  rw [field?, Option.isSome_map, List.find?_isSome]
  exact ⟨field, member, decide_eq_true same⟩

theorem hasExactly_of_keys {found : List (Str × JsonValue)} {names : List String}
    (same : (found.map Prod.fst).Perm (names.map str)) : hasExactly names found = true := by
  rw [hasExactly, Bool.and_eq_true, List.all_eq_true, List.all_eq_true]
  constructor
  · intro field member
    exact decide_eq_true (same.subset (List.mem_map_of_mem member))
  · intro name listed
    exact field?_isSome (same.symm.subset (List.mem_map_of_mem listed))

theorem hasExactly_named {names : List String} (same : (fields.map Prod.fst).Perm names) :
    hasExactly names (named fields) = true :=
  hasExactly_of_keys (named_keys ▸ same.map str)

/-- A dict read back has the keys it was written with. -/
theorem hasExactly_readBack {names : List String} (same : (fields.map Prod.fst).Perm names) :
    hasExactly names (readBack (named fields)) = true :=
  hasExactly_of_keys ((readBack_keys (named fields)).trans (named_keys ▸ same.map str))

theorem fieldOf_named (distinct : (fields.map Prod.fst).Nodup) {name : String} {value : JsonValue}
    (member : (name, value) ∈ fields) : fieldOf name (named fields) = value := by
  rw [fieldOf, field?_named distinct member]
  rfl

end Lemmas

end Verbatus.Canonical
