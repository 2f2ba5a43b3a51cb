import Verbatus.Contracts.CanonicalWalk
import Verbatus.Python.JsonRoundTrip

namespace Verbatus.Canonical

open Python CodePoint Library

section Json

/-- The values a JSON value holds. -/
def jsonChildren : JsonValue → List JsonValue
  | .list items => items
  | .object fields => fields.map Prod.snd
  | _ => []

theorem itemsJson_eq (items : List Value) : Value.json.itemsJson items = items.map Value.json := by
  induction items with
  | nil => rfl
  | cons item items ih => rw [Value.json.itemsJson, ih, List.map_cons]

theorem fieldsJson_eq (items : List (Key × Value)) :
    Value.json.fieldsJson items = items.map fun item => (item.1.name, item.2.json) := by
  induction items with
  | nil => rfl
  | cons item items ih => rw [Value.json.fieldsJson, ih, List.map_cons]

/-- The JSON value has the parts of the value it is of. -/
theorem json_parts (value : Value) : value.json.parts = value.parts.map Value.json := by
  induction value using Value.induct with
  | none | bool | int | float | str => rfl
  | list identity items ih | tuple identity items ih =>
      simp only [Value.json, itemsJson_eq, JsonValue.parts, JsonValue.itemParts_eq, Value.parts,
        Value.itemParts_eq, List.map_cons, List.map_flatMap, List.flatMap_map]
      rw [List.flatMap_congr ih]
  | dict identity items ih =>
      simp only [Value.json, fieldsJson_eq, JsonValue.parts, JsonValue.fieldParts_eq, Value.parts,
        Value.fieldParts_eq, List.map_cons, List.map_flatMap, List.flatMap_map]
      rw [List.flatMap_congr ih]

/-- How many containers are open at the deepest place of a JSON value. -/
def jsonDepth : JsonValue → ℕ
  | .list items => 1 + itemDepth items
  | .object fields => 1 + fieldDepth fields
  | _ => 0
where
  itemDepth : List JsonValue → ℕ
    | [] => 0
    | item :: items => max (jsonDepth item) (itemDepth items)
  fieldDepth : List (Str × JsonValue) → ℕ
    | [] => 0
    | (_, item) :: fields => max (jsonDepth item) (fieldDepth fields)

theorem json_depth (value : Value) : jsonDepth value.json = value.depth := by
  induction value using Value.induct with
  | none | bool | int | float | str => rfl
  | list identity items ih | tuple identity items ih =>
      rw [Value.json, jsonDepth, Value.depth, itemsJson_eq]
      congr 1
      induction items with
      | nil => rfl
      | cons item items rest =>
          rw [List.map_cons, jsonDepth.itemDepth, Value.depth.itemDepth, ih item (.head _),
            rest fun item member => ih item (.tail _ member)]
  | dict identity items ih =>
      rw [Value.json, jsonDepth, Value.depth, fieldsJson_eq]
      congr 1
      induction items with
      | nil => rfl
      | cons item items rest =>
          rw [List.map_cons, jsonDepth.fieldDepth, Value.depth.fieldDepth, ih item (.head _),
            rest fun item member => ih item (.tail _ member)]

theorem fieldDepth_le (fields : List (Str × JsonValue)) (bound : ℕ) :
    jsonDepth.fieldDepth fields ≤ bound ↔ ∀ field ∈ fields, jsonDepth field.2 ≤ bound := by
  induction fields with
  | nil => simp [jsonDepth.fieldDepth]
  | cons field fields ih => rw [jsonDepth.fieldDepth, max_le_iff, ih, List.forall_mem_cons]

theorem sorted_depth (value : JsonValue) : jsonDepth value.sorted = jsonDepth value := by
  induction value using JsonValue.induct with
  | null | bool | int | float | str => rfl
  | list items ih =>
      rw [JsonValue.sorted, JsonValue.sortedItems_eq, jsonDepth, jsonDepth]
      congr 1
      induction items with
      | nil => rfl
      | cons item items rest =>
          rw [List.map_cons, jsonDepth.itemDepth, jsonDepth.itemDepth, ih item (.head _),
            rest fun item member => ih item (.tail _ member)]
  | object fields ih =>
      rw [JsonValue.sorted, JsonValue.sortedFields_eq, jsonDepth, jsonDepth]
      congr 1
      refine eq_of_forall_ge_iff fun bound => ?_
      rw [fieldDepth_le, fieldDepth_le]
      simp only [mem_sortBy, List.forall_mem_map]
      exact forall₂_congr fun field member => by rw [ih field member]

end Json

section Accepted

/-- A value whose identities name its objects and whose dicts hold each string once, as every
Python value does. -/
structure WellFormed (value : Value) : Prop where
  objects : value.SameObjects
  keys : ∀ identity items, .dict identity items ∈ value.parts →
    ((textFields items).map Prod.fst).Nodup

variable {isPrintable : CodePoint → Bool} {limit : ℕ} {value : Value}

theorem textFields_keys {items : List (Key × Value)}
    (texts : ∀ item ∈ items, item.1.isText = true) :
    (textFields items).map Prod.fst = items.map fun item => item.1.name := by
  induction items with
  | nil => rfl
  | cons item items ih =>
      have later := ih fun item member => texts item (.tail _ member)
      have own := texts item (.head _)
      obtain ⟨key, value⟩ := item
      cases key with
      | text key => simp [textFields, Key.name, later]
      | other typeName written => cases own

/-- What an accepting walk leaves is readable whatever the host's digit limit is. -/
theorem readable_of_plain (host : 640 ≤ limit) {part : Value} (plain : part.Plain)
    (keys : ∀ identity items, part = .dict identity items →
      ((textFields items).map Prod.fst).Nodup) : Readable limit part.json := by
  cases part with
  | float printed => exact plain.elim
  | int value =>
      change (Nat.toDigits 10 value.natAbs).length ≤ limit
      have small : value.natAbs < 10 ^ 640 := by
        have within : |value| < 10 ^ 640 := plain
        rw [Int.abs_eq_natAbs] at within
        exact_mod_cast within
      exact ((Nat.length_toDigits_le_iff (by decide) (by decide)).mpr small).trans host
  | dict identity items =>
      rw [Value.json, fieldsJson_eq, Readable, List.map_map]
      have distinct := keys identity items rfl
      rwa [textFields_keys plain] at distinct
  | none | bool | str | list | tuple => trivial

/-- What the walk asks of a whole value. -/
def Accepted (value : Value) : Prop :=
  value.depth ≤ maxCanonicalDepth ∧ ∀ part ∈ value.parts, part.Plain

theorem WellFormed.readable (formed : WellFormed value) (host : 640 ≤ limit)
    (accepted : Accepted value) : ∀ part ∈ value.json.parts, Readable limit part := by
  rw [json_parts, List.forall_mem_map]
  intro part member
  refine readable_of_plain host (accepted.2 part member) ?_
  rintro identity items rfl
  exact formed.keys identity items member

theorem sorted_readable {json : JsonValue} (readable : ∀ part ∈ json.parts, Readable limit part) :
    ∀ part ∈ json.sorted.parts, Readable limit part := by
  intro part member
  obtain ⟨given, inside, rfl⟩ := mem_sorted_parts.mp member
  exact readable_sorted (readable given inside)

theorem dumps_readable {json : JsonValue} (readable : ∀ part ∈ json.parts, Readable limit part) :
    dumps limit json = .ok json.sorted.write := by
  have none : json.sorted.parts.findSome? (unwritable limit) = none := by
    rw [List.findSome?_eq_none_iff]
    intro part member
    have own := sorted_readable readable part member
    cases part with
    | float printed => exact own.elim
    | int value =>
        have short : (Nat.toDigits 10 value.natAbs).length ≤ limit := own
        rw [unwritable, if_neg (by omega)]
    | null | bool | str | list | object => rfl
  rw [dumps, none]

/-- `canonical_bytes` returns the encoded text of an accepted value, where that has one. -/
theorem canonicalBytes_eq_ok (formed : WellFormed value) (host : 640 ≤ limit) {data : ByteArray} :
    canonicalBytes isPrintable limit value = .ok data ↔
      Accepted value ∧ value.json.sorted.write.encode = some data := by
  have walk : refuseFloats isPrintable [] [.value value [.root]] = .ok () ↔ Accepted value :=
    refuseFloats_eq_ok formed.objects [.root]
  unfold canonicalBytes
  cases walked : refuseFloats isPrintable [] [.value value [.root]] with
  | error raised =>
      have refused : ¬ Accepted value := by
        intro accepted
        rw [walk.mpr accepted] at walked
        cases walked
      simp [refused, Bind.bind, Except.bind]
  | ok done =>
      have accepted : Accepted value := walk.mp walked
      rw [dumps_readable (formed.readable host accepted)]
      cases encoded : value.json.sorted.write.encode with
      | none => simp [Bind.bind, Except.bind, encoded]
      | some bytes => simp [Bind.bind, Except.bind, encoded, accepted]

/-- Whatever `canonical_bytes` raises is a `TypeError`: the encoder has nothing to refuse. -/
theorem canonicalBytes_error (formed : WellFormed value) (host : 640 ≤ limit) {raised : Refusal}
    (refused : canonicalBytes isPrintable limit value = .error raised) :
    ∃ message, raised = .typeError message := by
  have walk : refuseFloats isPrintable [] [.value value [.root]] = .ok () ↔ Accepted value :=
    refuseFloats_eq_ok formed.objects [.root]
  unfold canonicalBytes at refused
  cases walked : refuseFloats isPrintable [] [.value value [.root]] with
  | error first =>
      rw [walked] at refused
      cases refused
      exact refuseFloats_error _ _ walked
  | ok done =>
      have accepted : Accepted value := walk.mp walked
      rw [walked, dumps_readable (formed.readable host accepted)] at refused
      simp only [Bind.bind, Except.bind] at refused
      split at refused
      · cases refused
      · cases refused
        exact ⟨_, rfl⟩

end Accepted

section Exact

variable {isPrintable : CodePoint → Bool} {limit : ℕ} {value : Value}

/-- What makes `canonical_bytes` refuse a value for one part of it: an integer of 641 digits or
more, a float, a key that is no string, or a text with no UTF-8 form. -/
def Offends : Value → Prop
  | .int value => maxIntegerMagnitude ≤ |value|
  | .float _ => True
  | .str text => ¬ text.Encodable
  | .dict _ items => ∃ item ∈ items, ∀ key, item.1 = .text key → ¬ key.Encodable
  | _ => False

theorem not_offends (part : Value) : ¬ Offends part ↔ part.Plain ∧ part.json.Textual := by
  cases part with
  | none | bool | float | list | tuple => simp [Offends, Value.Plain, Value.json, JsonValue.Textual]
  | int value => simp [Offends, Value.Plain, Value.json, JsonValue.Textual]
  | str text => simp [Offends, Value.Plain, Value.json, JsonValue.Textual]
  | dict identity items =>
      rw [Offends, Value.Plain, Value.json, fieldsJson_eq, JsonValue.Textual, List.forall_mem_map]
      push Not
      constructor
      · intro fine
        refine ⟨fun item member => ?_, fun item member => ?_⟩ <;>
          obtain ⟨key, same, encodable⟩ := fine item member <;> rw [same]
        · rfl
        · exact encodable
      · rintro ⟨texts, encodable⟩ item member
        have own := texts item member
        have form := encodable item member
        obtain ⟨key, value⟩ := item
        cases key with
        | text key => exact ⟨key, rfl, form⟩
        | other typeName written => cases own

/-- The text of an accepted value has a UTF-8 form when each text in the value has one. -/
theorem encode_isSome (formed : WellFormed value) (host : 640 ≤ limit) (accepted : Accepted value) :
    (∃ data, value.json.sorted.write.encode = some data) ↔
      ∀ part ∈ value.parts, part.json.Textual := by
  have readable := sorted_readable (formed.readable host accepted)
  rw [← Option.ne_none_iff_exists', ne_eq, Str.encode_eq_none, not_not, write_encodable readable]
  constructor
  · intro all part member
    have inside : part.json.sorted ∈ value.json.sorted.parts :=
      mem_sorted_parts.mpr ⟨part.json, json_parts value ▸ List.mem_map_of_mem member, rfl⟩
    exact (textual_sorted part.json).mp (all _ inside)
  · intro all part member
    obtain ⟨given, inside, rfl⟩ := mem_sorted_parts.mp member
    rw [json_parts, List.mem_map] at inside
    obtain ⟨inner, here, rfl⟩ := inside
    exact (textual_sorted inner.json).mpr (all inner here)

theorem canonicalBytes_refuses_iff (formed : WellFormed value) (host : 640 ≤ limit) :
    (∃ raised, canonicalBytes isPrintable limit value = .error raised) ↔
      maxCanonicalDepth < value.depth ∨ ∃ part ∈ value.parts, Offends part := by
  have returns : (∃ raised, canonicalBytes isPrintable limit value = .error raised) ↔
      ¬ ∃ data, canonicalBytes isPrintable limit value = .ok data := by
    cases canonicalBytes isPrintable limit value <;> simp
  rw [returns, ← not_iff_not, not_not]
  push Not
  simp only [canonicalBytes_eq_ok formed host, not_offends]
  constructor
  · rintro ⟨data, accepted, encoded⟩
    have texts := (encode_isSome formed host accepted).mp ⟨data, encoded⟩
    exact ⟨accepted.1, fun part member => ⟨accepted.2 part member, texts part member⟩⟩
  · rintro ⟨shallow, fine⟩
    have accepted : Accepted value := ⟨shallow, fun part member => (fine part member).1⟩
    obtain ⟨data, encoded⟩ :=
      (encode_isSome formed host accepted).mpr fun part member => (fine part member).2
    exact ⟨data, accepted, encoded⟩

/-- What `canonical_bytes` returns parses to the value with its keys in order. -/
theorem loadsBytes_canonicalBytes (formed : WellFormed value) (host : 640 ≤ limit)
    {data : ByteArray} (returned : canonicalBytes isPrintable limit value = .ok data) :
    loadsBytes limit data = some value.json.sorted := by
  obtain ⟨accepted, encoded⟩ := (canonicalBytes_eq_ok formed host).mp returned
  rw [loadsBytes, Str.decode_of_encode encoded, Option.bind_some]
  exact loads_write (sorted_readable (formed.readable host accepted))

theorem sorted_sorted (json : JsonValue) : json.sorted.sorted = json.sorted := by
  induction json using JsonValue.induct with
  | null | bool | int | float | str => rfl
  | list items ih =>
      simp only [JsonValue.sorted, JsonValue.sortedItems_eq, List.map_map, JsonValue.list.injEq]
      exact List.map_congr_left ih
  | object fields ih =>
      simp only [JsonValue.sorted, JsonValue.sortedFields_eq, JsonValue.object.injEq]
      have same : (sortBy Prod.fst (fields.map fun field => (field.1, field.2.sorted))).map
          (fun field => (field.1, field.2.sorted)) =
            sortBy Prod.fst (fields.map fun field => (field.1, field.2.sorted)) := by
        refine List.map_congr_left (fun field member => ?_) |>.trans (List.map_id _)
        rw [mem_sortBy, List.mem_map] at member
        obtain ⟨given, inside, rfl⟩ := member
        simp only [ih given inside, id]
      rw [same]
      exact sortBy_of_pairwise Prod.fst (sortBy_pairwise Prod.fst _)

/-- Every dict inside has strings for keys, as in what `json.loads` returns. -/
def StringKeyed (value : Value) : Prop :=
  ∀ identity items, .dict identity items ∈ value.parts → ∀ item ∈ items, item.1.isText = true

theorem plain_of_json {part given : Value} (same : given.json.sorted = part.json)
    (plain : given.Plain)
    (keys : ∀ identity items, part = .dict identity items → ∀ item ∈ items, item.1.isText = true) :
    part.Plain := by
  cases part with
  | int value =>
      cases given with
      | int other =>
          cases same
          exact plain
      | none | bool | float | str | list | tuple | dict => cases same
  | float printed =>
      cases given with
      | float other => exact plain.elim
      | none | bool | int | str | list | tuple | dict => cases same
  | dict identity items => exact keys identity items rfl
  | none | bool | str | list | tuple => trivial

/-- A value of the same JSON, keys aside, is accepted alike. -/
theorem accepted_of_json {other : Value} (same : other.json = value.json.sorted)
    (keyed : StringKeyed other) (accepted : Accepted value) : Accepted other := by
  constructor
  · rw [← json_depth, same, sorted_depth, json_depth]
    exact accepted.1
  · intro part member
    have inside : part.json ∈ value.json.sorted.parts :=
      same ▸ json_parts other ▸ List.mem_map_of_mem member
    obtain ⟨json, here, sorted⟩ := mem_sorted_parts.mp inside
    rw [json_parts, List.mem_map] at here
    obtain ⟨given, member', rfl⟩ := here
    refine plain_of_json sorted (accepted.2 given member') ?_
    rintro identity items rfl
    exact keyed identity items member

/-- The objects a parse builds give the same bytes again. -/
theorem canonicalBytes_parsed (formed : WellFormed value) (host : 640 ≤ limit) {data : ByteArray}
    (returned : canonicalBytes isPrintable limit value = .ok data) {other : Value}
    (otherFormed : WellFormed other) (keyed : StringKeyed other)
    (same : other.json = value.json.sorted) :
    canonicalBytes isPrintable limit other = .ok data := by
  obtain ⟨accepted, encoded⟩ := (canonicalBytes_eq_ok formed host).mp returned
  refine (canonicalBytes_eq_ok otherFormed host).mpr ⟨accepted_of_json same keyed accepted, ?_⟩
  rw [same, sorted_sorted]
  exact encoded

/-- Equal bytes are of equal JSON values, the order of keys aside. -/
theorem canonicalBytes_injective (formed : WellFormed value) (host : 640 ≤ limit) {other : Value}
    (otherFormed : WellFormed other) {data : ByteArray}
    (first : canonicalBytes isPrintable limit value = .ok data)
    (second : canonicalBytes isPrintable limit other = .ok data) :
    value.json.sorted = other.json.sorted := by
  have one := loadsBytes_canonicalBytes formed host first
  have two := loadsBytes_canonicalBytes otherFormed host second
  rw [one] at two
  exact Option.some.inj two

theorem textFields_without (field : Str) (record : List (Key × Value)) :
    (textFields (without field record)).Sublist (textFields record) := by
  induction record with
  | nil => exact .slnil
  | cons item record ih =>
      obtain ⟨key, value⟩ := item
      cases key with
      | text key =>
          by_cases same : key = field
          · simpa [without, textFields, same] using ih.cons (key, value)
          · simpa [without, textFields, same] using ih
      | other typeName written => simpa [without, textFields] using ih

/-- The copy of a record without a field is a well-formed object when its identity is new. -/
theorem without_wellFormed {identity copy : ℕ} {record : List (Key × Value)}
    (formed : WellFormed (.dict identity record))
    (fresh : ∀ part ∈ (Value.dict identity record).parts, part.identity? ≠ some copy)
    (field : Str) : WellFormed (.dict copy (without field record)) := by
  have inside {part : Value} (member : part ∈ (Value.dict copy (without field record)).parts) :
      part = .dict copy (without field record) ∨ part ∈ (Value.dict identity record).parts := by
    rw [Value.parts_eq] at member
    rcases List.mem_cons.mp member with same | below
    · exact .inl same
    · obtain ⟨child, given, here⟩ := List.mem_flatMap.mp below
      have kept : child ∈ (Value.dict identity record).children := by
        obtain ⟨item, listed, rfl⟩ := List.mem_map.mp given
        exact List.mem_map_of_mem (List.mem_of_mem_filter listed)
      exact .inr (Value.child_parts kept here)
  constructor
  · intro one first other second container same
    rcases inside first with rfl | old
    · rcases inside second with rfl | older
      · rfl
      · exact absurd same.symm (fresh other older)
    · rcases inside second with rfl | older
      · exact absurd same (fresh one old)
      · exact formed.objects one old other older container same
  · intro opened items member
    rcases inside member with same | old
    · cases same
      have keys := formed.keys identity record (Value.self_mem_parts _)
      exact keys.sublist ((textFields_without field record).map Prod.fst)
    · exact formed.keys opened items old

theorem selfHash_eq_ok {sha256 : ByteArray → Str} {copy : ℕ} {record : List (Key × Value)}
    {field hash : Str} (hashed : selfHash isPrintable sha256 limit copy record field = .ok hash) :
    ∃ data, canonicalBytes isPrintable limit (.dict copy (without field record)) = .ok data ∧
      sha256 data = hash := by
  unfold selfHash digestOf at hashed
  cases bytes : canonicalBytes isPrintable limit (.dict copy (without field record)) with
  | error raised =>
      rw [bytes] at hashed
      cases hashed
  | ok data =>
      rw [bytes] at hashed
      exact ⟨data, rfl, Except.ok.inj hashed⟩

/-- `verify_self_hash` answers for every record, as all it can meet is a `TypeError`. -/
theorem verifySelfHash_total (sha256 : ByteArray → Str) (host : 640 ≤ limit) {copy : ℕ}
    {record : List (Key × Value)} {field : Str}
    (formed : WellFormed (.dict copy (without field record))) :
    ∃ answer, verifySelfHash isPrintable sha256 limit copy record field = .ok answer := by
  unfold verifySelfHash
  split
  · next text =>
      cases hashed : selfHash isPrintable sha256 limit copy record field with
      | ok hash => exact ⟨_, rfl⟩
      | error raised =>
          unfold selfHash digestOf at hashed
          cases bytes : canonicalBytes isPrintable limit (.dict copy (without field record)) with
          | ok data =>
              rw [bytes] at hashed
              cases hashed
          | error first =>
              rw [bytes] at hashed
              cases hashed
              obtain ⟨message, rfl⟩ := canonicalBytes_error formed host bytes
              exact ⟨_, rfl⟩
  · exact ⟨_, rfl⟩

/-- Canonical bytes are refused for exactly the stated reasons, are read back as the value, are
given again for what is read back, and tell values apart; so equal self hashes are of equal records
where SHA-256 does not collide, and a self hash can be verified for every record. -/
theorem canonicalBytes_exact (isPrintable : CodePoint → Bool) (sha256 : ByteArray → Str)
    (limit : ℕ) (host : 640 ≤ limit) :
    (∀ value, WellFormed value →
      ((∃ raised, canonicalBytes isPrintable limit value = .error raised) ↔
        maxCanonicalDepth < value.depth ∨ ∃ part ∈ value.parts, Offends part) ∧
      (∀ data, canonicalBytes isPrintable limit value = .ok data →
        loadsBytes limit data = some value.json.sorted ∧
        ∀ parsed, WellFormed parsed → StringKeyed parsed → parsed.json = value.json.sorted →
          canonicalBytes isPrintable limit parsed = .ok data) ∧
      ∀ other data, WellFormed other → canonicalBytes isPrintable limit value = .ok data →
        canonicalBytes isPrintable limit other = .ok data →
          value.json.sorted = other.json.sorted) ∧
    (∀ identity record copy, WellFormed (.dict identity record) →
      (∀ part ∈ (Value.dict identity record).parts, part.identity? ≠ some copy) → ∀ field,
      (∀ identity' other copy' hash, WellFormed (.dict identity' other) →
        (∀ part ∈ (Value.dict identity' other).parts, part.identity? ≠ some copy') →
        selfHash isPrintable sha256 limit copy record field = .ok hash →
        selfHash isPrintable sha256 limit copy' other field = .ok hash →
        (∀ first second,
          canonicalBytes isPrintable limit (.dict copy (without field record)) = .ok first →
          canonicalBytes isPrintable limit (.dict copy' (without field other)) = .ok second →
          sha256 first = sha256 second → first = second) →
        (Value.dict copy (without field record)).json.sorted =
          (Value.dict copy' (without field other)).json.sorted) ∧
      ∃ answer, verifySelfHash isPrintable sha256 limit copy record field = .ok answer) := by
  refine ⟨fun value formed => ⟨canonicalBytes_refuses_iff formed host, ?_, ?_⟩, ?_⟩
  · intro data returned
    exact ⟨loadsBytes_canonicalBytes formed host returned,
      fun parsed otherFormed keyed same =>
        canonicalBytes_parsed formed host returned otherFormed keyed same⟩
  · exact fun other data otherFormed first second =>
      canonicalBytes_injective formed host otherFormed first second
  · intro identity record copy formed fresh field
    have copied := without_wellFormed formed fresh field
    refine ⟨?_, verifySelfHash_total sha256 host copied⟩
    intro identity' other copy' hash otherFormed otherFresh first second apart
    have otherCopied := without_wellFormed otherFormed otherFresh field
    obtain ⟨data, returned, hashed⟩ := selfHash_eq_ok first
    obtain ⟨others, otherReturned, otherHashed⟩ := selfHash_eq_ok second
    have same := apart data others returned otherReturned (hashed.trans otherHashed.symm)
    rw [← same] at otherReturned
    exact canonicalBytes_injective copied host otherCopied returned otherReturned

/-- A list that holds one tuple twice. -/
def sharedPair : Value := .list 1 [.tuple 2 [.int 7], .tuple 2 [.int 7]]

theorem sharedPair_wellFormed : WellFormed sharedPair := by
  constructor
  · intro one first other second container same
    simp only [sharedPair, Value.parts, Value.parts.itemParts, List.append_nil, List.cons_append,
      List.nil_append, List.mem_cons, List.not_mem_nil, or_false] at first second
    rcases first with rfl | rfl | rfl | rfl | rfl <;>
      rcases second with rfl | rfl | rfl | rfl | rfl <;>
        first
          | rfl
          | cases same
  · intro identity items member
    simp [sharedPair, Value.parts, Value.parts.itemParts] at member

theorem canonicalBytes_exact_sharedPair :
    ∃ data, canonicalBytes (fun _ => true) 4300 sharedPair = .ok data ∧
      loadsBytes 4300 data = some sharedPair.json.sorted := by
  obtain ⟨refuses, reads, -⟩ := (canonicalBytes_exact (fun _ => true) (fun _ => []) 4300
    (by decide)).1 sharedPair sharedPair_wellFormed
  cases bytes : canonicalBytes (fun _ => true) 4300 sharedPair with
  | ok data => exact ⟨data, rfl, (reads data bytes).1⟩
  | error raised =>
      rcases refuses.mp ⟨raised, bytes⟩ with deep | ⟨part, member, offends⟩
      · exact absurd deep (by decide)
      · simp only [sharedPair, Value.parts, Value.parts.itemParts, List.append_nil,
          List.cons_append, List.nil_append, List.mem_cons, List.not_mem_nil, or_false] at member
        have small : ¬ maxIntegerMagnitude ≤ |(7 : ℤ)| := by decide +kernel
        rcases member with rfl | rfl | rfl | rfl | rfl <;>
          first
            | exact offends.elim
            | exact absurd offends small

end Exact

end Verbatus.Canonical
