import Verbatus.Contracts.CanonicalExact
import Verbatus.Contracts.Identities

namespace Verbatus.Canonical

open Python CodePoint Library Library.Checked Refusal
open Identities (str str_injective)

section Records

/-- A part of a JSON tree the canonical encoding takes. -/
def plainJson : JsonValue → Bool
  | .int value => decide (|value| < maxIntegerMagnitude)
  | .float _ => false
  | _ => true

/-- `canonical_bytes` of a tree of dicts under strings, lists and scalars. -/
def recordBytes (record : JsonValue) : Except Refusal ByteArray := do
  require (jsonDepth record ≤ maxCanonicalDepth)
    (.typeError "structure is recursive or nests too deeply for canonical JSON")
  require (record.parts.all plainJson)
    (.typeError "canonical artifacts carry integers of at most 640 decimal digits, not floats")
  match record.sorted.write.encode with
  | some data => .ok data
  | none => .error (.typeError "a lone surrogate survives a JSON read but has no UTF-8 form")

theorem recordBytes_eq_ok {record : JsonValue} {data : ByteArray} :
    recordBytes record = .ok data ↔ jsonDepth record ≤ maxCanonicalDepth ∧
      record.parts.all plainJson = true ∧ record.sorted.write.encode = some data := by
  unfold recordBytes
  rw [require_bind_eq_ok, require_bind_eq_ok]
  cases record.sorted.write.encode <;> simp

theorem encode_size_le {text : Str} {data : ByteArray} (encoded : text.encode = some data) :
    data.size ≤ 4 * text.length := by
  obtain ⟨characters, form, rfl⟩ := Option.map_eq_some_iff.mp encoded
  rw [Str.eq_ofChars_of_mapM form, Str.ofChars, List.length_map]
  clear form encoded
  have size : (String.ofList characters).toUTF8.size =
      (characters.flatMap String.utf8EncodeChar).length := by
    simp [String.toUTF8, List.utf8Encode]
  rw [size]
  clear size
  induction characters with
  | nil => simp
  | cons character characters ih =>
      have one := character.utf8Size_le_four
      rw [List.flatMap_cons, List.length_append, String.length_utf8EncodeChar, List.length_cons]
      omega

theorem recordBytes_size_le {record : JsonValue} {data : ByteArray}
    (written : recordBytes record = .ok data) : data.size ≤ 4 * record.sorted.write.length :=
  encode_size_le (recordBytes_eq_ok.mp written).2.2

/-- On a tree under string keys the canonical encoding is the one of its JSON value. -/
theorem canonicalBytes_record {isPrintable : CodePoint → Bool} {limit : ℕ} {value : Value}
    (formed : WellFormed value) (host : 640 ≤ limit) (keyed : StringKeyed value) {data : ByteArray} :
    canonicalBytes isPrintable limit value = .ok data ↔ recordBytes value.json = .ok data := by
  have plain : (∀ part ∈ value.parts, part.Plain) ↔ value.json.parts.all plainJson = true := by
    rw [List.all_eq_true, json_parts, List.forall_mem_map]
    refine forall₂_congr fun part member => ?_
    cases part with
    | dict identity items =>
        simpa [Value.Plain, Value.json, plainJson] using keyed identity items member
    | none | bool | int | float | str | list | tuple => simp [Value.Plain, Value.json, plainJson]
  rw [canonicalBytes_eq_ok formed host, recordBytes_eq_ok, Accepted, plain, json_depth, and_assoc]

/-- A tree in which no dict holds one key twice, as no Python dict does. -/
def Keyed (record : JsonValue) : Prop :=
  ∀ part ∈ record.parts, ∀ fields, part = .object fields → (fields.map Prod.fst).Nodup

def distinctKeys : JsonValue → Bool
  | .object fields => decide (fields.map Prod.fst).Nodup
  | _ => true

instance (record : JsonValue) : Decidable (Keyed record) :=
  decidable_of_iff (record.parts.all distinctKeys = true) (by
    rw [List.all_eq_true]
    constructor
    · rintro all part member fields rfl
      exact of_decide_eq_true (all _ member)
    · intro keyed part member
      cases part with
      | object fields => exact decide_eq_true (keyed _ member fields rfl)
      | null | bool | int | float | str | list => rfl)

theorem keyed_scalar {value : JsonValue} (scalar : value.parts = [value])
    (notObject : ∀ fields, value ≠ .object fields) : Keyed value := by
  intro part member fields same
  rw [scalar, List.mem_singleton] at member
  exact absurd (member.symm.trans same) (notObject fields)

theorem keyed_list {items : List JsonValue} (each : ∀ item ∈ items, Keyed item) :
    Keyed (.list items) := by
  intro part member fields same
  rw [JsonValue.parts, JsonValue.itemParts_eq] at member
  rcases List.mem_cons.mp member with rfl | below
  · cases same
  · obtain ⟨item, listed, inside⟩ := List.mem_flatMap.mp below
    exact each item listed part inside fields same

theorem keyed_object {fields : List (Str × JsonValue)} (distinct : (fields.map Prod.fst).Nodup)
    (each : ∀ field ∈ fields, Keyed field.2) : Keyed (.object fields) := by
  intro part member others same
  rw [JsonValue.parts, JsonValue.fieldParts_eq] at member
  rcases List.mem_cons.mp member with rfl | below
  · cases same
    exact distinct
  · obtain ⟨field, listed, inside⟩ := List.mem_flatMap.mp below
    exact each field listed part inside others same

theorem plain_readable {limit : ℕ} (host : 640 ≤ limit) {record : JsonValue} (keyed : Keyed record)
    (plain : record.parts.all plainJson = true) :
    ∀ part ∈ record.sorted.parts, Readable limit part := by
  rw [List.all_eq_true] at plain
  apply sorted_readable
  intro part member
  have own := plain part member
  cases part with
  | int value =>
      have small : |value| < maxIntegerMagnitude := of_decide_eq_true own
      have bound : value.natAbs < 10 ^ 640 := by
        have within : |value| < 10 ^ 640 := small
        rw [Int.abs_eq_natAbs] at within
        exact_mod_cast within
      exact ((Nat.length_toDigits_le_iff (by decide) (by decide)).mpr bound).trans host
  | float printed => cases own
  | object fields => exact keyed _ member fields rfl
  | null | bool | str | list => trivial

instance : (part : JsonValue) → Decidable part.Textual
  | .str text => inferInstanceAs (Decidable text.Encodable)
  | .object fields => inferInstanceAs (Decidable (∀ field ∈ fields, field.1.Encodable))
  | .null | .bool _ | .int _ | .float _ | .list _ => .isTrue trivial

/-- A tree of plain values is written where every text in it has a UTF-8 form. -/
theorem exists_recordBytes {record : JsonValue} (shallow : jsonDepth record ≤ maxCanonicalDepth)
    (keyed : Keyed record) (plain : record.parts.all plainJson = true)
    (textual : ∀ part ∈ record.parts, part.Textual) : ∃ data, recordBytes record = .ok data := by
  have encodable : record.sorted.write.Encodable := by
    rw [write_encodable (plain_readable (le_refl 640) keyed plain)]
    intro part member
    obtain ⟨given, inside, rfl⟩ := mem_sorted_parts.mp member
    exact (textual_sorted given).mpr (textual given inside)
  obtain ⟨data, encoded⟩ := Option.ne_none_iff_exists'.mp
    (mt Str.encode_eq_none.mp (not_not.mpr encodable))
  exact ⟨data, recordBytes_eq_ok.mpr ⟨shallow, plain, encoded⟩⟩

theorem exists_recordBytes_of {record : JsonValue} (checks : jsonDepth record ≤ maxCanonicalDepth ∧
    Keyed record ∧ record.parts.all plainJson = true ∧ ∀ part ∈ record.parts, part.Textual) :
    ∃ data, recordBytes record = .ok data :=
  exists_recordBytes checks.1 checks.2.1 checks.2.2.1 checks.2.2.2

/-- What is written of a tree is read back as the tree, its keys in order. -/
theorem loadsBytes_recordBytes {limit : ℕ} (host : 640 ≤ limit) {record : JsonValue}
    (keyed : Keyed record) {data : ByteArray} (written : recordBytes record = .ok data) :
    loadsBytes limit data = some record.sorted := by
  obtain ⟨-, plain, encoded⟩ := recordBytes_eq_ok.mp written
  have readable := plain_readable host keyed plain
  rw [loadsBytes, Str.decode_of_encode encoded, Option.bind_some]
  exact loads_write readable

end Records

section Equality

/-- Whether two trees are one tree, their keys in one order. -/
def alike : JsonValue → JsonValue → Bool
  | .null, .null => true
  | .bool value, .bool other => value == other
  | .int value, .int other => value == other
  | .float printed, .float other => decide (printed = other)
  | .str text, .str other => decide (text = other)
  | .list items, .list others => alikeItems items others
  | .object fields, .object others => alikeFields fields others
  | _, _ => false
where
  alikeItems : List JsonValue → List JsonValue → Bool
    | [], [] => true
    | item :: items, other :: others => alike item other && alikeItems items others
    | _, _ => false
  alikeFields : List (Str × JsonValue) → List (Str × JsonValue) → Bool
    | [], [] => true
    | (key, item) :: fields, (name, other) :: others =>
      decide (key = name) && alike item other && alikeFields fields others
    | _, _ => false

theorem alike_iff {first second : JsonValue} : alike first second = true ↔ first = second := by
  induction first using JsonValue.induct generalizing second with
  | null | bool | int | float | str => cases second <;> simp [alike]
  | list items ih =>
      cases second with
      | list others =>
          rw [alike, JsonValue.list.injEq]
          induction items generalizing others with
          | nil => cases others <;> simp [alike.alikeItems]
          | cons item items rest =>
              cases others with
              | nil => simp [alike.alikeItems]
              | cons other others =>
                  rw [alike.alikeItems, Bool.and_eq_true, ih item (.head _), List.cons.injEq,
                    rest (fun item member => ih item (.tail _ member)) others]
      | null | bool | int | float | str | object => simp [alike]
  | object fields ih =>
      cases second with
      | object others =>
          rw [alike, JsonValue.object.injEq]
          induction fields generalizing others with
          | nil => cases others <;> simp [alike.alikeFields]
          | cons field fields rest =>
              cases others with
              | nil => simp [alike.alikeFields]
              | cons other others =>
                  obtain ⟨key, item⟩ := field
                  obtain ⟨name, value⟩ := other
                  rw [alike.alikeFields, Bool.and_eq_true, Bool.and_eq_true, decide_eq_true_eq,
                    ih (key, item) (.head _), List.cons.injEq, Prod.mk.injEq,
                    rest (fun field member => ih field (.tail _ member)) others]
      | null | bool | int | float | str | list => simp [alike]

instance : DecidableEq JsonValue := fun _ _ => decidable_of_iff _ alike_iff

/-- A tree as `==` reads it: `True` is one and `False` is zero. -/
def folded : JsonValue → JsonValue
  | .bool value => .int (if value then 1 else 0)
  | .list items => .list (foldedItems items)
  | .object fields => .object (foldedFields fields)
  | value => value
where
  foldedItems : List JsonValue → List JsonValue
    | [] => []
    | item :: items => folded item :: foldedItems items
  foldedFields : List (Str × JsonValue) → List (Str × JsonValue)
    | [] => []
    | (key, item) :: fields => (key, folded item) :: foldedFields fields

/-- `first == second` -/
def pythonEqual (first second : JsonValue) : Bool := decide (folded first.sorted = folded second.sorted)

/-- The value a dict holds under a key. -/
def field? (key : String) (fields : List (Str × JsonValue)) : Option JsonValue :=
  (fields.find? fun field => field.1 = str key).map Prod.snd

variable {fields others : List (Str × JsonValue)}

theorem mem_of_field? {key : String} {value : JsonValue} (found : field? key fields = some value) :
    (str key, value) ∈ fields := by
  obtain ⟨field, atKey, rfl⟩ := Option.map_eq_some_iff.mp found
  have same := List.find?_some atKey
  rw [decide_eq_true_eq] at same
  rw [← same]
  exact List.mem_of_find?_eq_some atKey

theorem field?_eq_some (distinct : (fields.map Prod.fst).Nodup) {key : String} {value : JsonValue} :
    field? key fields = some value ↔ (str key, value) ∈ fields := by
  refine ⟨mem_of_field?, fun member => ?_⟩
  cases found : field? key fields with
  | none =>
      rw [field?, Option.map_eq_none_iff, List.find?_eq_none] at found
      exact absurd (decide_eq_true rfl) (found _ member)
  | some other =>
      have listed := mem_of_field? found
      rw [Option.some.injEq]
      exact congrArg Prod.snd (List.inj_on_of_nodup_map distinct listed member rfl)

/-- A dict read back holds under each key what the written one holds. -/
theorem field?_sorted (distinct : (fields.map Prod.fst).Nodup) (key : String) :
    field? key (sortBy Prod.fst (fields.map fun field => (field.1, field.2.sorted))) =
      (field? key fields).map JsonValue.sorted := by
  have same := sortBy_perm Prod.fst (fields.map fun field => (field.1, field.2.sorted))
  have keys : ((fields.map fun field => (field.1, field.2.sorted)).map Prod.fst).Nodup := by
    rwa [List.map_map]
  have sortedKeys := (same.map Prod.fst).nodup_iff.mpr keys
  ext value
  rw [field?_eq_some sortedKeys, same.mem_iff, Option.map_eq_some_iff, List.mem_map]
  constructor
  · rintro ⟨⟨name, given⟩, member, equal⟩
    rw [Prod.mk.injEq] at equal
    obtain ⟨rfl, rfl⟩ := equal
    exact ⟨given, (field?_eq_some distinct).mpr member, rfl⟩
  · rintro ⟨given, found, rfl⟩
    exact ⟨(str key, given), mem_of_field? found, rfl⟩

theorem pythonEqual_sorted (first second : JsonValue) :
    pythonEqual first.sorted second = pythonEqual first second := by
  rw [pythonEqual, pythonEqual, sorted_sorted]

end Equality

section SelfHash

variable (sha256 : ByteArray → Str)

/-- A dict without one of its keys. -/
def withoutKey (key : String) (fields : List (Str × JsonValue)) : List (Str × JsonValue) :=
  fields.filter fun field => field.1 ≠ str key

/-- `self_hash` -/
def recordHash (fields : List (Str × JsonValue)) : Except Refusal Str :=
  (recordBytes (.object (withoutKey "self_hash" fields))).map sha256

/-- `verify_self_hash` -/
def recordVerifies (fields : List (Str × JsonValue)) : Bool :=
  match field? "self_hash" fields with
  | some (.str hash) =>
    match recordHash sha256 fields with
    | .ok actual => decide (hash = actual)
    | .error _ => false
  | _ => false

/-- A dict with the digest of its other fields under `self_hash`. -/
def sealRecord (fields : List (Str × JsonValue)) : Except Refusal (List (Str × JsonValue)) := do
  let hash ← recordHash sha256 fields
  .ok (fields ++ [(str "self_hash", .str hash)])

theorem recordBytes_sorted (record : JsonValue) : recordBytes record.sorted = recordBytes record := by
  have plain : record.sorted.parts.all plainJson = record.parts.all plainJson := by
    rw [Bool.eq_iff_iff, List.all_eq_true, List.all_eq_true]
    have own (part : JsonValue) : plainJson part.sorted = plainJson part := by cases part <;> rfl
    constructor
    · intro all part member
      rw [← own]
      exact all _ (mem_sorted_parts.mpr ⟨part, member, rfl⟩)
    · intro all part member
      obtain ⟨given, inside, rfl⟩ := mem_sorted_parts.mp member
      rw [own]
      exact all given inside
  rw [recordBytes, recordBytes, sorted_depth, plain, sorted_sorted]

variable {sha256} {fields whole : List (Str × JsonValue)}

/-- A sealed dict read back has the digest it was sealed under. -/
theorem recordVerifies_sealed (distinct : (fields.map Prod.fst).Nodup)
    (fresh : str "self_hash" ∉ fields.map Prod.fst) (made : sealRecord sha256 fields = .ok whole) :
    recordVerifies sha256 (sortBy Prod.fst (whole.map fun field => (field.1, field.2.sorted))) =
      true := by
  obtain ⟨hash, hashed, made⟩ := bind_eq_ok.mp made
  cases made
  set sortedField : Str × JsonValue → Str × JsonValue := fun field => (field.1, field.2.sorted)
  set whole := fields ++ [(str "self_hash", JsonValue.str hash)]
  have wholeDistinct : (whole.map Prod.fst).Nodup := by
    rw [List.map_append, List.nodup_append]
    refine ⟨distinct, List.nodup_singleton _, ?_⟩
    rintro key inside other last rfl
    rw [List.map_singleton, List.mem_singleton] at last
    rw [last] at inside
    exact fresh inside
  have stored : field? "self_hash" (sortBy Prod.fst (whole.map sortedField)) = some (.str hash) := by
    have own : field? "self_hash" whole = some (.str hash) :=
      (field?_eq_some wholeDistinct).mpr (List.mem_append_right _ (List.mem_singleton_self _))
    rw [field?_sorted wholeDistinct, own]
    rfl
  have kept : withoutKey "self_hash" (sortBy Prod.fst (whole.map sortedField)) =
      sortBy Prod.fst (fields.map sortedField) := by
    have others : withoutKey "self_hash" (whole.map sortedField) = fields.map sortedField := by
      rw [withoutKey, List.map_append, List.filter_append, List.filter_eq_self.mpr]
      · simp [sortedField]
      · rw [List.forall_mem_map]
        intro field member
        apply decide_eq_true
        intro same
        exact fresh (List.mem_map.mpr ⟨field, member, same⟩)
    have reordered : (withoutKey "self_hash" (sortBy Prod.fst (whole.map sortedField))).Perm
        (fields.map sortedField) := by
      rw [← others]
      exact (sortBy_perm _ _).filter _
    have ordered := (sortBy_pairwise Prod.fst (whole.map sortedField)).filter
      fun field => decide (field.1 ≠ str "self_hash")
    have already := sortBy_of_pairwise Prod.fst ordered
    change sortBy Prod.fst (withoutKey "self_hash" _) = withoutKey "self_hash" _ at already
    rw [← already]
    apply sortBy_eq_of_perm reordered
    intro first inside second otherInside same
    have keys : ((fields.map sortedField).map Prod.fst).Nodup := by
      rwa [List.map_map]
    exact List.inj_on_of_nodup_map keys (reordered.mem_iff.mp inside)
      (reordered.mem_iff.mp otherInside) same
  have actual : recordHash sha256 (sortBy Prod.fst (whole.map sortedField)) = .ok hash := by
    have same : JsonValue.object (sortBy Prod.fst (fields.map sortedField)) =
        (JsonValue.object fields).sorted := by
      rw [JsonValue.sorted, JsonValue.sortedFields_eq]
    rw [recordHash, kept, same, recordBytes_sorted]
    rw [recordHash] at hashed
    have plain : withoutKey "self_hash" fields = fields := by
      rw [withoutKey, List.filter_eq_self]
      intro field member
      exact decide_eq_true fun same => fresh (same ▸ List.mem_map_of_mem member)
    rwa [plain] at hashed
  rw [recordVerifies, stored]
  simp [actual]

end SelfHash

end Verbatus.Canonical
