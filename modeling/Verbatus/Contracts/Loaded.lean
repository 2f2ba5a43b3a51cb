import Verbatus.Contracts.Dicts

namespace Verbatus.Canonical

open Python CodePoint Library Library.Checked Refusal
open Identities (str)

section Loads

theorem keyed_atom {value : JsonValue} (list : ∀ items, value ≠ .list items)
    (object : ∀ fields, value ≠ .object fields) : Keyed value := by
  refine keyed_scalar ?_ object
  cases value with
  | list items => exact absurd rfl (list items)
  | object fields => exact absurd rfl (object fields)
  | null | bool | int | float | str => rfl

theorem readWord_keyed {text rest : Str} {value : JsonValue}
    (read : readWord text = some (value, rest)) : Keyed value := by
  simp only [readWord, Option.orElse_eq_some, Option.orElse_eq_none, Option.map_eq_some_iff,
    Prod.mk.injEq] at read
  rcases read with ⟨_, -, rfl, -⟩ | ⟨-, read⟩
  · exact keyed_atom (by simp) (by simp)
  rcases read with ⟨_, -, rfl, -⟩ | ⟨-, read⟩
  · exact keyed_atom (by simp) (by simp)
  rcases read with ⟨_, -, rfl, -⟩ | ⟨-, read⟩
  · exact keyed_atom (by simp) (by simp)
  rcases read with ⟨_, -, rfl, -⟩ | ⟨-, read⟩
  · exact keyed_atom (by simp) (by simp)
  rcases read with ⟨_, -, rfl, -⟩ | ⟨-, read⟩
  · exact keyed_atom (by simp) (by simp)
  obtain ⟨_, -, rfl, -⟩ := read
  exact keyed_atom (by simp) (by simp)

theorem readUnsigned_keyed {limit : ℕ} {negative : Bool} {text rest : Str} {value : JsonValue}
    (read : readUnsigned limit negative text = some (value, rest)) : Keyed value := by
  obtain ⟨whole, -, read⟩ := Option.bind_eq_some_iff.mp read
  simp only at read
  split_ifs at read <;> cases read <;> exact keyed_atom nofun nofun

theorem readNumber_keyed {limit : ℕ} {text rest : Str} {value : JsonValue}
    (read : readNumber limit text = some (value, rest)) : Keyed value := by
  rw [readNumber] at read
  split_ifs at read <;> exact readUnsigned_keyed read

/-- What is read of a text holds no key twice in one dict. -/
theorem reads_keyed (limit fuel : ℕ) :
    (∀ text value rest, readValue limit fuel text = some (value, rest) → Keyed value) ∧
    (∀ text items rest, readItems limit fuel text = some (items, rest) →
      ∀ item ∈ items, Keyed item) ∧
    (∀ text fields rest, readFields limit fuel text = some (fields, rest) →
      ∀ field ∈ fields, Keyed field.2) := by
  induction fuel with
  | zero => simp [readValue, readItems, readFields]
  | succ fuel ih =>
      obtain ⟨values, lists, objects⟩ := ih
      refine ⟨?_, ?_, ?_⟩
      · intro text value rest read
        cases text with
        | nil => cases read
        | cons first more =>
            rw [readValue] at read
            split_ifs at read
            · obtain ⟨found, -, same⟩ := Option.map_eq_some_iff.mp read
              cases same
              exact keyed_atom (by simp) (by simp)
            · split at read
              · cases read
                exact keyed_list fun _ absent => absurd absent List.not_mem_nil
              · obtain ⟨found, listed, same⟩ := Option.map_eq_some_iff.mp read
                cases same
                exact keyed_list (lists _ _ _ listed)
            · split at read
              · cases read
                exact keyed_object List.nodup_nil fun _ absent => absurd absent List.not_mem_nil
              · obtain ⟨found, listed, same⟩ := Option.map_eq_some_iff.mp read
                cases same
                obtain ⟨distinct, among⟩ := dictOf_rows found.1
                exact keyed_object distinct fun field member =>
                  objects _ _ _ listed field (among member)
            · rw [Option.orElse_eq_orElse, Option.orElse_eq_or, Option.or_eq_some_iff] at read
              rcases read with word | ⟨-, number⟩
              · exact readWord_keyed word
              · exact readNumber_keyed number
      · intro text items rest read
        rw [readItems] at read
        obtain ⟨⟨item, after⟩, first, read⟩ := Option.bind_eq_some_iff.mp read
        have own := values _ _ _ first
        simp only at read
        split at read
        · cases read
          exact List.forall_mem_singleton.mpr own
        · obtain ⟨_, -, read⟩ := Option.bind_eq_some_iff.mp read
          obtain ⟨⟨others, _⟩, listed, read⟩ := Option.bind_eq_some_iff.mp read
          cases read
          exact List.forall_mem_cons.mpr ⟨own, lists _ _ _ listed⟩
      · intro text fields rest read
        rw [readFields] at read
        obtain ⟨_, -, read⟩ := Option.bind_eq_some_iff.mp read
        obtain ⟨⟨key, _⟩, -, read⟩ := Option.bind_eq_some_iff.mp read
        obtain ⟨_, -, read⟩ := Option.bind_eq_some_iff.mp read
        obtain ⟨⟨item, after⟩, first, read⟩ := Option.bind_eq_some_iff.mp read
        have own := values _ _ _ first
        simp only at read
        split at read
        · cases read
          exact List.forall_mem_singleton.mpr own
        · obtain ⟨_, -, read⟩ := Option.bind_eq_some_iff.mp read
          obtain ⟨⟨others, _⟩, listed, read⟩ := Option.bind_eq_some_iff.mp read
          cases read
          exact List.forall_mem_cons.mpr ⟨own, objects _ _ _ listed⟩

theorem loadsBytes_keyed {limit : ℕ} {data : ByteArray} {value : JsonValue}
    (loaded : loadsBytes limit data = some value) : Keyed value := by
  obtain ⟨text, -, loaded⟩ := Option.bind_eq_some_iff.mp loaded
  rw [loads] at loaded
  split_ifs at loaded
  obtain ⟨⟨found, rest⟩, read, loaded⟩ := Option.bind_eq_some_iff.mp loaded
  simp only at loaded
  split_ifs at loaded
  cases loaded
  exact (reads_keyed limit _).1 _ _ _ read

/-- What is read of canonical bytes has its keys in order. -/
theorem sorted_of_canonical {limit : ℕ} (host : 640 ≤ limit) {data : ByteArray} {value : JsonValue}
    (loaded : loadsBytes limit data = some value) (canonical : recordBytes value = .ok data) :
    value.sorted = value := by
  have back := loadsBytes_recordBytes host (loadsBytes_keyed loaded) canonical
  exact Option.some.inj (back.symm.trans loaded)

end Loads

section Shapes

/-- A dict with exactly these keys holds under each the value found there. -/
theorem perm_of_hasExactly {names : List String} {fields : List (Str × JsonValue)}
    (keyed : (fields.map Prod.fst).Nodup) (distinct : names.Nodup)
    (exact : hasExactly names fields = true) :
    fields.Perm (named (names.map fun name => (name, fieldOf name fields))) := by
  rw [hasExactly, Bool.and_eq_true, List.all_eq_true, List.all_eq_true] at exact
  have listed : ((names.map fun name => (name, fieldOf name fields)).map Prod.fst).Nodup := by
    rw [List.map_map]
    exact (List.map_id names).symm ▸ distinct
  rw [List.perm_ext_iff_of_nodup keyed.of_map (named_distinct listed).of_map]
  rintro ⟨key, value⟩
  rw [named, List.mem_map]
  constructor
  · intro member
    obtain ⟨name, known, same⟩ := List.mem_map.mp (of_decide_eq_true (exact.1 _ member))
    obtain rfl : str name = key := same
    have held : fieldOf name fields = value := by
      rw [fieldOf, (field?_eq_some keyed).mpr member]
      rfl
    exact ⟨_, List.mem_map.mpr ⟨name, known, rfl⟩, Prod.ext rfl held⟩
  · rintro ⟨field, listed, same⟩
    obtain ⟨name, known, rfl⟩ := List.mem_map.mp listed
    obtain ⟨found, held⟩ := Option.isSome_iff_exists.mp (exact.2 name known)
    have value : fieldOf name fields = found := by rw [fieldOf, held]; rfl
    rw [← same, value]
    exact mem_of_field? held

/-- Dicts that hold the same fields are one dict, their keys in order. -/
theorem sorted_perm {fields others : List (Str × JsonValue)} (keyed : (fields.map Prod.fst).Nodup)
    (same : fields.Perm others) : (JsonValue.object fields).sorted = (JsonValue.object others).sorted := by
  rw [object_sorted, object_sorted, readBack, readBack]
  congr 1
  apply sortBy_eq_of_perm (same.map _)
  have keys : ((fields.map fun field => (field.1, field.2.sorted)).map Prod.fst).Nodup := by
    rwa [List.map_map]
  exact fun first member second other equal => List.inj_on_of_nodup_map keys member other equal

end Shapes

section Sizes

/-- The bytes of a text in UTF-8. -/
def utf8Size (text : Str) : ℕ := (text.map fun point => (point.scalar?.map Char.utf8Size).getD 0).sum

theorem encode_size {text : Str} {data : ByteArray} (encoded : text.encode = some data) :
    data.size = utf8Size text := by
  obtain ⟨characters, form, rfl⟩ := Option.map_eq_some_iff.mp encoded
  rw [Str.eq_ofChars_of_mapM form, utf8Size, Str.ofChars, List.map_map]
  clear form encoded
  have size : (String.ofList characters).toUTF8.size =
      (characters.flatMap String.utf8EncodeChar).length := by
    simp [String.toUTF8, List.utf8Encode]
  rw [size]
  clear size
  induction characters with
  | nil => rfl
  | cons character characters ih =>
      rw [List.flatMap_cons, List.length_append, String.length_utf8EncodeChar, ih, List.map_cons,
        List.sum_cons]
      rfl

theorem utf8Size_append (first second : Str) :
    utf8Size (first ++ second) = utf8Size first + utf8Size second := by
  rw [utf8Size, List.map_append, List.sum_append, utf8Size, utf8Size]

theorem separated_prefix (first second : List Str) :
    ∃ rest, separated (first ++ second) = separated first ++ rest := by
  cases first with
  | nil => exact ⟨separated second, rfl⟩
  | cons text first =>
      refine ⟨second.flatMap (scalar ',' :: ·), ?_⟩
      rw [List.cons_append, separated, separated, List.flatMap_append, List.append_assoc]

theorem utf8Size_separated (first second : List Str) :
    utf8Size (separated first) ≤ utf8Size (separated (first ++ second)) := by
  obtain ⟨rest, same⟩ := separated_prefix first second
  rw [same, utf8Size_append]
  exact Nat.le_add_right _ _

end Sizes

end Verbatus.Canonical
