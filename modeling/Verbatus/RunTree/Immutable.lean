import Verbatus.RunTree.Files

namespace Verbatus.RunTree

open Library Library.Checked Refusal Python CodePoint Canonical
open Identities (str str_injective)

section Trees

theorem keyed_jsonText (text : String) : Keyed (jsonText text) :=
  keyed_scalar rfl fun _ => nofun

theorem keyed_jsonTexts {items : List (String × String)} (distinct : (items.map Prod.fst).Nodup) :
    Keyed (jsonTexts items) := by
  apply keyed_object
  · rw [List.map_map]
    have := distinct.map str_injective
    rwa [List.map_map] at this
  · rw [List.forall_mem_map]
    exact fun item _ => keyed_jsonText item.2

theorem sortBy_distinct {items : List (String × String)} (distinct : (items.map Prod.fst).Nodup) :
    ((sortBy Prod.fst items).map Prod.fst).Nodup :=
  ((sortBy_perm Prod.fst items).map Prod.fst).nodup_iff.mpr distinct

end Trees

section Authority

variable {rules : StoreRules} {runId : String} {arguments : CreateArguments}

theorem settingsField_eq_ok {given : Option Dict} {fields : List (String × JsonValue)}
    (made : settingsField given = .ok fields) :
    (fields.map Prod.fst).Sublist ["render_settings"] ∧ ∀ field ∈ fields, Keyed field.2 := by
  cases given with
  | none =>
      cases made
      simp
  | some dict =>
      obtain ⟨-, made⟩ := require_bind_eq_ok.mp made
      cases made
      simpa using dict.keyed

theorem digestFields_eq_ok {given : Option TextDict} {fields : List (String × JsonValue)}
    (made : digestFields given = .ok fields) :
    (fields.map Prod.fst).Sublist ["sealed_config_digests", sealMethodField] ∧
      (∀ field ∈ fields, Keyed field.2) ∧
      ("sealed_config_digests" ∈ fields.map Prod.fst →
        (sealMethodField, jsonText sealMethod) ∈ fields) := by
  cases given with
  | none =>
      cases made
      simp
  | some dict =>
      obtain ⟨-, made⟩ := require_bind_eq_ok.mp made
      obtain ⟨-, made⟩ := require_bind_eq_ok.mp made
      cases made
      simp [keyed_jsonText, keyed_jsonTexts (sortBy_distinct dict.distinct)]

theorem commitField_eq_ok {given : Option String} {fields : List (String × JsonValue)}
    (made : commitField given = .ok fields) :
    (fields.map Prod.fst).Sublist ["repository_commit"] ∧ ∀ field ∈ fields, Keyed field.2 := by
  cases given with
  | none =>
      cases made
      simp
  | some text =>
      obtain ⟨-, made⟩ := require_bind_eq_ok.mp made
      cases made
      simp [keyed_jsonText]

theorem ingressField_keys (given : Option Record) :
    ((ingressField given).map Prod.fst).Sublist ["ingress"] ∧
      ∀ field ∈ ingressField given, Keyed field.2 := by
  cases given with
  | none => simp [ingressField]
  | some record => simpa [ingressField] using record.keyed

/-- The optional fields: which names there are, and that sealed digests name their method. -/
theorem optionalFields_eq_ok {fields : List (String × JsonValue)}
    (made : optionalFields arguments = .ok fields) :
    (fields.map Prod.fst).Sublist ["ingress", "render_settings", "sealed_config_digests",
      sealMethodField, "repository_commit"] ∧
    (∀ field ∈ fields, Keyed field.2) ∧
    ("sealed_config_digests" ∈ fields.map Prod.fst →
      (sealMethodField, jsonText sealMethod) ∈ fields) := by
  obtain ⟨settings, settled, made⟩ := bind_eq_ok.mp made
  obtain ⟨digests, digested, made⟩ := bind_eq_ok.mp made
  obtain ⟨commit, committed, made⟩ := bind_eq_ok.mp made
  cases made
  have ingressKeys := ingressField_keys arguments.ingress
  have settingsKeys := settingsField_eq_ok settled
  have digestsKeys := digestFields_eq_ok digested
  have commitKeys := commitField_eq_ok committed
  refine ⟨?_, ?_, ?_⟩
  · simp only [List.map_append]
    exact ((ingressKeys.1.append settingsKeys.1).append digestsKeys.1).append commitKeys.1
  · simp only [List.mem_append]
    rintro field (((member | member) | member) | member)
    · exact ingressKeys.2 field member
    · exact settingsKeys.2 field member
    · exact digestsKeys.2.1 field member
    · exact commitKeys.2 field member
  · intro named
    have inDigests : "sealed_config_digests" ∈ digests.map Prod.fst := by
      simp only [List.map_append, List.mem_append] at named
      rcases named with ((member | member) | member) | member
      · exact absurd (ingressKeys.1.subset member) (by decide)
      · exact absurd (settingsKeys.1.subset member) (by decide)
      · exact member
      · exact absurd (commitKeys.1.subset member) (by decide)
    exact List.mem_append_left _ (List.mem_append_right _ (digestsKeys.2.2 inDigests))

/-- The base names of an authority and the optional ones: no two are one. -/
def authorityNames : List String := ["schema", "run_id", "source_manifest", "config_digest",
  "adapter_recipes", "witness_chairs", "corpus_frame_membership", "register_digest",
  "register_required", "ingress", "render_settings", "sealed_config_digests", sealMethodField,
  "repository_commit"]

/-- What the fields of an accepted authority are. -/
structure AuthorityShape (rules : StoreRules) (runId : String) (arguments : CreateArguments)
    (fields : List (String × JsonValue)) : Prop where
  names : (fields.map Prod.fst).Sublist authorityNames
  keyed : ∀ field ∈ fields, Keyed field.2
  label : ("schema", jsonText schemaLabel) ∈ fields
  run : ("run_id", jsonText runId) ∈ fields
  config : ("config_digest", jsonText arguments.configDigest) ∈ fields
  digest : isSha256 arguments.configDigest = true
  register : ("register_digest", jsonText (rules.digestBytes (snapshotOf rules arguments))) ∈ fields
  method : "sealed_config_digests" ∈ fields.map Prod.fst →
    (sealMethodField, jsonText sealMethod) ∈ fields
  small : (snapshotOf rules arguments).size ≤ maxRegisterBytes

theorem frameRow_keyed {page : Dict} {row : JsonValue} (made : frameRow page = .ok row) :
    Keyed row := by
  unfold frameRow at made
  dsimp only at made
  split at made
  · obtain ⟨-, made⟩ := require_bind_eq_ok.mp made
    cases made
    apply keyed_object
    · have apart : str "ordinal" ≠ str "sha256" := fun same => absurd (str_injective same) (by decide)
      simpa using apart
    · simp only [List.forall_mem_cons, List.not_mem_nil, false_implies, implies_true, and_true]
      refine ⟨?_, keyed_scalar rfl fun _ => by simp⟩
      cases ordinal? page with
      | none => exact keyed_scalar rfl fun _ => by simp
      | some ordinal => exact keyed_scalar rfl fun _ => by simp
  · cases made

theorem frameMembership_keyed {manifest : List Dict} {membership : JsonValue}
    (made : frameMembership rules manifest = .ok membership) : Keyed membership := by
  obtain ⟨rows, -, made⟩ := bind_eq_ok.mp made
  obtain ⟨pageDigest, -, made⟩ := bind_eq_ok.mp made
  obtain ⟨frameDigest, -, made⟩ := bind_eq_ok.mp made
  obtain ⟨drawn, -, made⟩ := bind_eq_ok.mp made
  obtain ⟨-, made⟩ := require_bind_eq_ok.mp made
  cases made
  exact keyed_jsonTexts (by simp)

theorem authorityFields_shape {fields : List (String × JsonValue)}
    (made : authorityFields rules runId arguments = .ok fields) :
    AuthorityShape rules runId arguments fields := by
  obtain ⟨digest, made⟩ := require_bind_eq_ok.mp made
  obtain ⟨⟨⟩, -, made⟩ := bind_eq_ok.mp made
  obtain ⟨-, made⟩ := require_bind_eq_ok.mp made
  obtain ⟨small, made⟩ := require_bind_eq_ok.mp made
  obtain ⟨⟨⟩, -, made⟩ := bind_eq_ok.mp made
  obtain ⟨⟨⟩, -, made⟩ := bind_eq_ok.mp made
  obtain ⟨membership, framed, made⟩ := bind_eq_ok.mp made
  obtain ⟨optional, chosen, made⟩ := bind_eq_ok.mp made
  cases made
  obtain ⟨names, keyed, method⟩ := optionalFields_eq_ok chosen
  refine ⟨?_, ?_, by simp, by simp, by simp, digest, by simp, fun named => ?_, small⟩
  · rw [List.map_append]
    exact (List.Sublist.refl _).append names
  · intro field member
    rcases List.mem_append.mp member with base | later
    · simp only [List.mem_cons, List.not_mem_nil, or_false] at base
      rcases base with rfl | rfl | rfl | rfl | rfl | rfl | rfl | rfl | rfl
      · exact keyed_jsonText _
      · exact keyed_jsonText _
      · exact keyed_list (List.forall_mem_map.mpr fun page _ => page.keyed)
      · exact keyed_jsonText _
      · exact keyed_jsonTexts (sortBy_distinct arguments.adapterRecipes.distinct)
      · exact keyed_list (List.forall_mem_map.mpr fun chair _ => keyed_jsonText chair)
      · exact frameMembership_keyed framed
      · exact keyed_jsonText _
      · exact keyed_scalar rfl fun _ => by simp
    · exact keyed field later
  · rw [List.map_append, List.mem_append] at named
    rcases named with base | later
    · simp at base
    · exact List.mem_append_right _ (method later)

/-- The fields of an authority as they are read back. -/
def readBack (authority : List (Str × JsonValue)) : List (Str × JsonValue) :=
  sortBy Prod.fst (authority.map fun field => (field.1, field.2.sorted))

/-- An accepted authority: the shape of its fields, and that its keys are apart. -/
theorem authorityOf_eq_ok {authority : List (Str × JsonValue)}
    (made : authorityOf rules runId arguments = .ok authority) :
    ∃ fields hash, AuthorityShape rules runId arguments fields ∧
      authority = (fields.map fun field => (str field.1, field.2)) ++ [(str "self_hash", .str hash)] ∧
      sealRecord (hashText rules) (fields.map fun field => (str field.1, field.2)) = .ok authority ∧
      ((fields.map fun field => (str field.1, field.2)).map Prod.fst).Nodup ∧
      str "self_hash" ∉ (fields.map fun field => (str field.1, field.2)).map Prod.fst := by
  obtain ⟨fields, given, made⟩ := bind_eq_ok.mp made
  have shape := authorityFields_shape given
  have names : (fields.map fun field => (str field.1, field.2)).map Prod.fst =
      (fields.map Prod.fst).map str := by
    rw [List.map_map, List.map_map]
    rfl
  have distinct : (fields.map Prod.fst).Nodup := shape.names.nodup (by decide)
  obtain ⟨hash, hashed, same⟩ := bind_eq_ok.mp made
  cases same
  refine ⟨fields, hash, shape, rfl, made, ?_, ?_⟩
  · rw [names]
    exact distinct.map str_injective
  · rw [names]
    intro member
    obtain ⟨name, listed, same⟩ := List.mem_map.mp member
    have known := shape.names.subset listed
    rw [str_injective same] at known
    exact absurd known (by decide)

theorem authority_distinct {authority : List (Str × JsonValue)}
    (made : authorityOf rules runId arguments = .ok authority) : (authority.map Prod.fst).Nodup := by
  obtain ⟨fields, hash, -, rfl, -, distinct, fresh⟩ := authorityOf_eq_ok made
  rw [List.map_append, List.nodup_append]
  refine ⟨distinct, List.nodup_singleton _, ?_⟩
  rintro key inside other last rfl
  rw [List.map_singleton, List.mem_singleton] at last
  rw [last] at inside
  exact fresh inside

theorem authority_keyed {authority : List (Str × JsonValue)}
    (made : authorityOf rules runId arguments = .ok authority) : Keyed (.object authority) := by
  apply keyed_object (authority_distinct made)
  obtain ⟨fields, hash, shape, rfl, -, -, -⟩ := authorityOf_eq_ok made
  intro field member
  rcases List.mem_append.mp member with own | last
  · obtain ⟨given, listed, rfl⟩ := List.mem_map.mp own
    exact shape.keyed given listed
  · rw [List.mem_singleton] at last
    rw [last]
    exact keyed_scalar rfl fun _ => nofun

/-- What an accepted authority holds under a name of its fields. -/
theorem authority_field {authority : List (Str × JsonValue)}
    (made : authorityOf rules runId arguments = .ok authority) {fields : List (String × JsonValue)}
    {hash : Str} (shape : authority = (fields.map fun field => (str field.1, field.2)) ++
      [(str "self_hash", .str hash)]) {name : String} {value : JsonValue}
    (member : (name, value) ∈ fields) : field? name authority = some value := by
  rw [field?_eq_some (authority_distinct made), shape]
  exact List.mem_append_left _ (List.mem_map.mpr ⟨(name, value), member, rfl⟩)

/-- A stored authority is read back, and each field of it is the one it was stored with. -/
theorem readRun_stored {authority : List (Str × JsonValue)}
    (made : authorityOf rules runId arguments = .ok authority) {data : ByteArray}
    (written : recordBytes (.object authority) = .ok data) (small : data.size ≤ maxRecordReadBytes)
    {files : Files} (stored : files.get? runFile = some data) :
    readRun rules runId files = .ok (readBack authority) := by
  have loaded := loadsBytes_recordBytes rules.digitsFloor (authority_keyed made) written
  have object : (JsonValue.object authority).sorted = .object (readBack authority) := by
    rw [JsonValue.sorted, JsonValue.sortedFields_eq, readBack]
  rw [object] at loaded
  obtain ⟨fields, hash, shape, same, whole, distinct, fresh⟩ := authorityOf_eq_ok made
  have verified : recordVerifies (hashText rules) (readBack authority) = true :=
    recordVerifies_sealed distinct fresh whole
  have label : field? "schema" (readBack authority) = some (jsonText schemaLabel) := by
    rw [readBack, field?_sorted (authority_distinct made), authority_field made same shape.label]
    rfl
  have run : field? "run_id" (readBack authority) = some (jsonText runId) := by
    rw [readBack, field?_sorted (authority_distinct made), authority_field made same shape.run]
    rfl
  rw [readRun, stored]
  dsimp only
  rw [require_bind_of small, loaded]
  dsimp only
  rw [require_bind_of verified, require_bind_of label, require_bind_of run]

theorem isLowerHexText_str {digest : String} (shape : isSha256 digest = true) :
    isLowerHexText 64 (str digest) = true := by
  rw [isSha256, Bool.and_eq_true, decide_eq_true_eq, List.all_eq_true] at shape
  rw [isLowerHexText, str, Str.ofChars, List.length_map, String.length_toList, Bool.and_eq_true,
    decide_eq_true_eq, List.all_map, List.all_eq_true]
  exact ⟨shape.1, shape.2⟩

theorem scalars_str (text : String) : String.ofList ((str text).filterMap scalar?) = text := by
  rw [str, Str.ofChars, List.filterMap_map]
  simp [Function.comp_def, scalar?]

/-- The configuration digest of a stored authority is the one its run was opened with. -/
theorem runAuthority_stored {authority : List (Str × JsonValue)}
    (made : authorityOf rules runId arguments = .ok authority) {data : ByteArray}
    (written : recordBytes (.object authority) = .ok data) (small : data.size ≤ maxRecordReadBytes)
    {files : Files} (stored : files.get? runFile = some data) :
    runAuthority rules runId files = .ok arguments.configDigest := by
  obtain ⟨fields, hash, shape, same, -, -, -⟩ := authorityOf_eq_ok made
  have bound : field? "config_digest" (readBack authority) =
      some (.str (str arguments.configDigest)) := by
    rw [readBack, field?_sorted (authority_distinct made), authority_field made same shape.config]
    rfl
  rw [runAuthority, readRun_stored made written small stored, ok_bind, bound]
  dsimp only
  rw [require_bind_of (isLowerHexText_str shape.digest), scalars_str]

end Authority

section Steps

variable {rules : StoreRules} {runId : String} {files changed : Files} {reused : Bool}

/-- What a publication does to the files: nothing where they have the bytes, else it adds them. -/
theorem publishBytes_eq_ok {relative : String} {data : ByteArray} :
    publishBytes files relative data = .ok (changed, reused) ↔
      requireInventoryPath relative = .ok () ∧
        ((files.get? relative = none ∧ changed = files.set relative data ∧ reused = false) ∨
          (files.get? relative = some data ∧ changed = files ∧ reused = true)) := by
  rw [publishBytes, bind_eq_ok]
  constructor
  · rintro ⟨⟨⟩, inScope, published⟩
    refine ⟨inScope, ?_⟩
    cases found : files.get? relative with
    | none =>
        rw [found] at published
        cases published
        exact .inl ⟨rfl, rfl, rfl⟩
    | some existing =>
        rw [found] at published
        obtain ⟨same, reusing⟩ := require_bind_eq_ok.mp published
        cases reusing
        exact .inr ⟨same ▸ rfl, rfl, rfl⟩
  · rintro ⟨inScope, ⟨absent, rfl, rfl⟩ | ⟨present, rfl, rfl⟩⟩
    · exact ⟨(), inScope, by rw [absent]⟩
    · refine ⟨(), inScope, ?_⟩
      rw [present]
      exact require_bind_of rfl

/-- A publication leaves every file that was there. -/
theorem publishBytes_keeps {relative : String} {data : ByteArray}
    (published : publishBytes files relative data = .ok (changed, reused)) {path : String}
    {held : ByteArray} (present : files.get? path = some held) : changed.get? path = some held := by
  obtain ⟨-, ⟨absent, rfl, -⟩ | ⟨-, rfl, -⟩⟩ := publishBytes_eq_ok.mp published
  · have other : path ≠ relative := by
      rintro rfl
      rw [absent] at present
      cases present
    rw [Mapping.get?_set, if_neg other]
    exact present
  · exact present

theorem publishBytes_stored {relative : String} {data : ByteArray}
    (published : publishBytes files relative data = .ok (changed, reused)) :
    changed.get? relative = some data := by
  obtain ⟨-, ⟨-, rfl, -⟩ | ⟨present, rfl, -⟩⟩ := publishBytes_eq_ok.mp published
  · rw [Mapping.get?_set, if_pos rfl]
  · exact present

theorem publish_eq_ok {publication : Publication} :
    publish rules runId files publication = .ok (changed, reused) ↔
      checkPublication rules runId files publication = .ok () ∧
        ∃ relative data, target rules publication = .ok (relative, data) ∧
          publishBytes files relative data = .ok (changed, reused) := by
  rw [publish, bind_eq_ok]
  constructor
  · rintro ⟨⟨⟩, checked, published⟩
    obtain ⟨⟨relative, data⟩, aimed, published⟩ := bind_eq_ok.mp published
    exact ⟨checked, relative, data, aimed, published⟩
  · rintro ⟨checked, relative, data, aimed, published⟩
    exact ⟨(), checked, bind_eq_ok.mpr ⟨(relative, data), aimed, published⟩⟩

/-- A new run's two writes: the register snapshot, then the authority. -/
structure Opened (rules : StoreRules) (runId : String) (files : Files) (arguments : CreateArguments)
    (changed : Files) : Prop where
  absent : files.get? runFile = none
  stored : ∃ authority relative between known data,
    authorityOf rules runId arguments = .ok authority ∧
    blobPath .door (rules.digestBytes (snapshotOf rules arguments)) = .ok relative ∧
    publishBytes files relative (snapshotOf rules arguments) = .ok (between, known) ∧
    recordBytes (.object authority) = .ok data ∧ changed = between.set runFile data

theorem create_eq_ok {arguments : CreateArguments}
    (created : create rules runId files arguments = .ok (changed, reused)) :
    (reused = true ∧ changed = files) ∨
      (reused = false ∧ Opened rules runId files arguments changed) := by
  obtain ⟨authority, made, created⟩ := bind_eq_ok.mp created
  dsimp only at created
  split_ifs at created with present
  · obtain ⟨⟨⟩, -, created⟩ := bind_eq_ok.mp created
    obtain ⟨⟨⟩, -, created⟩ := bind_eq_ok.mp created
    cases created
    exact .inl ⟨rfl, rfl⟩
  · obtain ⟨relative, placed, created⟩ := bind_eq_ok.mp created
    obtain ⟨⟨between, known⟩, published, created⟩ := bind_eq_ok.mp created
    obtain ⟨data, written, created⟩ := bind_eq_ok.mp created
    cases created
    rw [Bool.not_eq_true, Option.isSome_eq_false_iff, Option.isNone_iff_eq_none] at present
    exact .inr ⟨rfl, present, authority, relative, between, known, data, made, placed, published,
      written, rfl⟩

theorem writeDerived_eq_ok {derived : Derived} {record : Record}
    (written : writeDerived rules runId files derived record = .ok (changed, reused)) :
    changed = files ∨ ∃ data, changed = files.set derived.path data := by
  obtain ⟨authority, -, written⟩ := bind_eq_ok.mp written
  obtain ⟨⟨⟩, -, written⟩ := bind_eq_ok.mp written
  obtain ⟨data, -, written⟩ := bind_eq_ok.mp written
  split_ifs at written
  · cases written
    exact .inl rfl
  · obtain ⟨⟨⟩, -, written⟩ := bind_eq_ok.mp written
    cases written
    exact .inr ⟨data, rfl⟩

/-- An operation leaves every file that is not replaced in place. -/
theorem perform_keeps {operation : Operation}
    (performed : perform rules runId files operation = .ok (changed, reused)) {path : String}
    (lasting : ∀ derived : Derived, derived.path ≠ path) {held : ByteArray}
    (present : files.get? path = some held) : changed.get? path = some held := by
  cases operation with
  | create arguments =>
      rcases create_eq_ok performed with ⟨-, rfl⟩ | ⟨-, opened⟩
      · exact present
      · obtain ⟨authority, relative, between, known, data, -, -, published, -, rfl⟩ := opened.stored
        have other : path ≠ runFile := by
          rintro rfl
          rw [opened.absent] at present
          cases present
        rw [Mapping.get?_set, if_neg other]
        exact publishBytes_keeps published present
  | publish publication =>
      obtain ⟨-, relative, data, -, published⟩ := publish_eq_ok.mp performed
      exact publishBytes_keeps published present
  | writeDerived derived record =>
      rcases writeDerived_eq_ok performed with rfl | ⟨data, rfl⟩
      · exact present
      · rw [Mapping.get?_set, if_neg (lasting derived).symm]
        exact present

end Steps

end Verbatus.RunTree
