import Verbatus.Contracts.Loaded
import Verbatus.Register.Replay

namespace Verbatus.Register

open Library Library.Checked Refusal Python CodePoint Canonical
open Identities (str)

variable {rules : RegisterRules} {data : ByteArray} {records : List JsonValue} {reading : Reading}

section Preference

theorem mem_walkDicts {value : JsonValue} {fields : List (Str × JsonValue)} :
    fields ∈ walkDicts value ↔ .object fields ∈ value.parts := by
  induction value using JsonValue.induct with
  | null | bool | int | float | str => simp [walkDicts, JsonValue.parts]
  | list items ih =>
      rw [walkDicts, JsonValue.parts, JsonValue.itemParts_eq, List.mem_cons]
      have apart : JsonValue.object fields ≠ .list items := by simp
      rw [or_iff_right apart]
      clear apart
      induction items with
      | nil => simp [walkDicts.walkItems]
      | cons item items rest =>
          have below := rest fun other member => ih other (.tail _ member)
          simp only [walkDicts.walkItems, List.mem_append, List.flatMap_cons, below,
            ih item (.head _)]
          exact or_comm
  | object others ih =>
      rw [walkDicts, JsonValue.parts, JsonValue.fieldParts_eq, List.mem_cons, List.mem_cons,
        JsonValue.object.injEq]
      congr! 1
      clear * - ih
      induction others with
      | nil => simp [walkDicts.walkFields]
      | cons field others rest =>
          obtain ⟨key, item⟩ := field
          have below := rest fun other member => ih other (.tail _ member)
          rw [walkDicts.walkFields, List.mem_append, List.flatMap_cons, List.mem_append, below,
            ih (key, item) (.head _), or_comm]

/-- No dict of a value claims a preference. -/
theorem refuseCapturePreference_eq_ok {value : JsonValue} :
    refuseCapturePreference value = .ok () ↔
      ∀ fields, .object fields ∈ value.parts → preferences fields = [] := by
  rw [refuseCapturePreference]
  cases claimed : (walkDicts value).find? fun fields => !(preferences fields).isEmpty with
  | none =>
      refine iff_of_true rfl fun fields inside => ?_
      have nothing := List.find?_eq_none.mp claimed fields (mem_walkDicts.mpr inside)
      simpa using nothing
  | some fields =>
      refine iff_of_false nofun fun free => ?_
      have some := List.find?_some claimed
      have none := free fields (mem_walkDicts.mp (List.mem_of_find?_eq_some claimed))
      rw [none] at some
      cases some

end Preference

section Values

theorem registerValue_sorted (records : List JsonValue) :
    (registerValue records).sorted = .object (named [("records", .list (records.map JsonValue.sorted)),
      ("schema", .str (str registerSchema))]) := by
  have keyed : ((named [("schema", .str (str registerSchema)), ("records", .list records)]).map
      Prod.fst).Nodup := named_distinct (by simp)
  rw [registerValue, sorted_perm keyed (List.Perm.swap _ _ []), object_sorted, readBack]
  have ordered : sortBy Prod.fst (named [("records", .list (records.map JsonValue.sorted)),
      ("schema", .str (str registerSchema))]) = named [("records", .list (records.map
        JsonValue.sorted)), ("schema", .str (str registerSchema))] := by
    apply sortBy_of_pairwise
    rw [named, List.map_cons, List.map_singleton, List.pairwise_pair]
    dsimp only
    decide
  rw [← ordered]
  congr 2
  simp [named, JsonValue.sorted]

theorem registerValue_parts (records : List JsonValue) :
    (registerValue records).parts = registerValue records :: .str (str registerSchema) ::
      .list records :: records.flatMap JsonValue.parts := by
  simp [registerValue, named, JsonValue.parts]

theorem registerValue_keyed (each : ∀ record ∈ records, Keyed record) :
    Keyed (registerValue records) := by
  apply keyed_object (named_distinct (by simp))
  rw [named, List.map_cons, List.map_singleton, List.forall_mem_cons, List.forall_mem_singleton]
  exact ⟨keyed_atom (by simp) (by simp), keyed_list each⟩

/-- What a register that validates is. -/
structure Valid (rules : RegisterRules) (data : ByteArray) (records : List JsonValue)
    (reading : Reading) : Prop where
  size : data.size ≤ maxRegisterBytes
  written : recordBytes (registerValue records) = .ok data
  keyed : ∀ record ∈ records, Keyed record
  ordered : records.map JsonValue.sorted = records
  few : records.length ≤ maxRegisterRecords
  impartial : ∀ record ∈ records, ∀ fields, .object fields ∈ record.parts → preferences fields = []
  replayed : replay rules records = .ok reading

theorem recordsOf_eq_ok {value : JsonValue} (found : recordsOf value = .ok records) :
    ∃ fields, value = .object fields ∧ hasExactly ["schema", "records"] fields = true ∧
      fieldOf "schema" fields = .str (str registerSchema) ∧
      fieldOf "records" fields = .list records := by
  cases value with
  | object fields =>
      obtain ⟨exact, found⟩ := require_bind_eq_ok.mp found
      obtain ⟨schema, found⟩ := require_bind_eq_ok.mp found
      cases held : fieldOf "records" fields with
      | list items =>
          rw [held] at found
          cases found
          exact ⟨fields, rfl, exact, schema, held⟩
      | null | bool | int | float | str | object => rw [held] at found; cases found
  | null | bool | int | float | str | list => cases found

theorem recordsOf_registerValue (records : List JsonValue) :
    recordsOf (registerValue records).sorted = .ok (records.map JsonValue.sorted) := by
  have distinct : (([("records", .list (records.map JsonValue.sorted)),
      ("schema", .str (str registerSchema))] : List (String × JsonValue)).map Prod.fst).Nodup := by
    simp
  have exactKeys : hasExactly ["schema", "records"] (named [("records", .list (records.map
      JsonValue.sorted)), ("schema", .str (str registerSchema))]) = true := by
    apply hasExactly_named
    exact .swap _ _ []
  rw [registerValue_sorted, recordsOf, require_bind_of exactKeys,
    require_bind_of (fieldOf_named distinct (by simp)), fieldOf_named distinct (.head _)]

/-- A register validates when it is the canonical form of records that replay. -/
theorem readRegister_eq_ok : readRegister rules data = .ok (records, reading) ↔
    Valid rules data records reading := by
  constructor
  · intro read
    obtain ⟨size, read⟩ := require_bind_eq_ok.mp read
    obtain ⟨value, loaded, read⟩ := bind_eq_ok.mp read
    obtain ⟨listed, found, read⟩ := bind_eq_ok.mp read
    obtain ⟨few, read⟩ := require_bind_eq_ok.mp read
    obtain ⟨_, impartial, read⟩ := bind_eq_ok.mp read
    obtain ⟨replayed, done, read⟩ := bind_eq_ok.mp read
    obtain ⟨bytes, written, read⟩ := bind_eq_ok.mp read
    obtain ⟨canonical, read⟩ := require_bind_eq_ok.mp read
    cases read
    subst canonical
    have loaded : loadsBytes rules.limit bytes = some value := by
      rw [parsed] at loaded
      split at loaded
      · next found => exact Except.ok.inj loaded ▸ found
      · cases loaded
    have keyed := loadsBytes_keyed loaded
    have ordered := sorted_of_canonical rules.host loaded written
    obtain ⟨fields, rfl, exact, schema, held⟩ := recordsOf_eq_ok found
    have keys := keyed _ (self_mem_parts _) fields rfl
    have same : (JsonValue.object fields).sorted = (registerValue records).sorted := by
      rw [sorted_perm keys (perm_of_hasExactly keys (by decide) exact), List.map_cons,
        List.map_singleton, schema, held]
      rfl
    have whole : JsonValue.object fields = (registerValue records).sorted := ordered.symm.trans same
    have sorted : records.map JsonValue.sorted = records := by
      have again := recordsOf_registerValue records
      rw [← whole, found] at again
      exact (Except.ok.inj again).symm
    have below {record part : JsonValue} (member : record ∈ records) (inside : part ∈ record.parts) :
        part ∈ (JsonValue.object fields).parts := by
      rw [whole, mem_sorted_parts]
      rw [← sorted] at member
      obtain ⟨given, listed, rfl⟩ := List.mem_map.mp member
      obtain ⟨original, deep, rfl⟩ := mem_sorted_parts.mp inside
      refine ⟨original, ?_, rfl⟩
      rw [registerValue_parts]
      exact .tail _ (.tail _ (.tail _ (List.mem_flatMap.mpr ⟨given, listed, deep⟩)))
    rw [refuseCapturePreference_eq_ok] at impartial
    exact {
      size := size
      written := by rw [← written, ← recordBytes_sorted, ← whole]
      keyed := fun record member part inside => keyed part (below member inside)
      ordered := sorted
      few := few
      impartial := fun record member fields inside => impartial fields (below member inside)
      replayed := done }
  · intro valid
    have loaded := loadsBytes_recordBytes rules.host (registerValue_keyed valid.keyed) valid.written
    have impartial : refuseCapturePreference (registerValue records).sorted = .ok () := by
      rw [refuseCapturePreference_eq_ok, registerValue_sorted, valid.ordered]
      intro fields inside
      simp only [named, List.map_cons, List.map_nil, JsonValue.parts, JsonValue.fieldParts_eq,
        JsonValue.itemParts_eq, List.flatMap_cons, List.flatMap_nil, List.mem_cons,
        List.mem_append, List.mem_flatMap, List.not_mem_nil, JsonValue.object.injEq, reduceCtorEq,
        or_false, false_or] at inside
      rcases inside with rfl | ⟨record, member, deep⟩
      · rfl
      · exact valid.impartial record member fields deep
    rw [readRegister, require_bind_of valid.size, parsed, loaded, ok_bind, recordsOf_registerValue,
      ok_bind, valid.ordered, require_bind_of valid.few, impartial, ok_bind, valid.replayed, ok_bind,
      recordBytes_sorted, valid.written, ok_bind, require_bind_of rfl]

end Values

section Prefixes

/-- A register is written as its records between what is the same of every register. -/
theorem registerValue_write : ∃ opening closing : Str, ∀ records : List JsonValue,
    (registerValue records).sorted.write =
      opening ++ separated (records.map fun record => record.sorted.write) ++ closing := by
  refine ⟨scalar '{' :: (quoted (str "records") ++ [scalar ':', scalar '[']),
    scalar ']' :: scalar ',' :: (quoted (str "schema") ++ scalar ':' ::
      (quoted (str registerSchema) ++ [scalar '}'])), fun records => ?_⟩
  rw [registerValue_sorted, JsonValue.write, JsonValue.writeFields_eq]
  simp [named, separated, JsonValue.write, Function.comp_def]

theorem itemDepth_append (earlier later : List JsonValue) :
    jsonDepth.itemDepth earlier ≤ jsonDepth.itemDepth (earlier ++ later) := by
  induction earlier with
  | nil => exact Nat.zero_le _
  | cons item earlier ih =>
      rw [List.cons_append, jsonDepth.itemDepth, jsonDepth.itemDepth]
      exact max_le_max (le_refl _) ih

/-- Every prefix of a valid register's records is a valid register. -/
theorem Valid.take {earlier later : List JsonValue} (valid : Valid rules data (earlier ++ later) reading) :
    ∃ bytes prior, Valid rules bytes earlier prior := by
  obtain ⟨shallow, plain, encoded⟩ := recordBytes_eq_ok.mp valid.written
  obtain ⟨opening, closing, text⟩ := registerValue_write
  obtain ⟨rest, longer⟩ := separated_prefix (earlier.map fun record => record.sorted.write)
    (later.map fun record => record.sorted.write)
  have whole : (registerValue (earlier ++ later)).sorted.write = opening ++
      (separated (earlier.map fun record => record.sorted.write) ++ rest) ++ closing := by
    rw [text, List.map_append, longer]
  have encodable : (registerValue earlier).sorted.write.Encodable := by
    have all : (registerValue (earlier ++ later)).sorted.write.Encodable := by
      by_contra lone
      rw [Str.encode_eq_none.mpr lone] at encoded
      cases encoded
    rw [whole] at all
    rw [text]
    simp only [Str.encodable_append] at all ⊢
    exact ⟨⟨all.1.1, all.1.2.1⟩, all.2⟩
  obtain ⟨bytes, written⟩ := Option.ne_none_iff_exists'.mp
    (mt Str.encode_eq_none.mp (not_not.mpr encodable))
  have size : bytes.size ≤ data.size := by
    rw [encode_size written, encode_size encoded, whole, text]
    simp only [utf8Size_append]
    omega
  have depth : jsonDepth (registerValue earlier) ≤ jsonDepth (registerValue (earlier ++ later)) := by
    have items := itemDepth_append earlier later
    simp only [registerValue, named, List.map_cons, List.map_nil, jsonDepth, jsonDepth.fieldDepth]
    omega
  have plainPart : (registerValue earlier).parts.all plainJson = true := by
    rw [registerValue_parts, List.all_eq_true] at plain ⊢
    intro part member
    rcases List.mem_cons.mp member with rfl | member
    · rfl
    rcases List.mem_cons.mp member with rfl | member
    · rfl
    rcases List.mem_cons.mp member with rfl | member
    · rfl
    refine plain part (.tail _ (.tail _ (.tail _ ?_)))
    rw [List.flatMap_append]
    exact List.mem_append_left _ member
  have replayed := valid.replayed
  rw [replay, List.foldlM_append] at replayed
  obtain ⟨prior, done, -⟩ := bind_eq_ok.mp replayed
  have ordered := valid.ordered
  rw [List.map_append] at ordered
  exact ⟨bytes, prior, {
    size := size.trans valid.size
    written := recordBytes_eq_ok.mpr ⟨depth.trans shallow, plainPart, written⟩
    keyed := fun record member => valid.keyed record (List.mem_append_left _ member)
    ordered := (List.append_inj ordered (List.length_map _)).1
    few := by
      have few := valid.few
      rw [List.length_append] at few
      omega
    impartial := fun record member => valid.impartial record (List.mem_append_left _ member)
    replayed := done }⟩

end Prefixes

section Chains

theorem replay_append {earlier later : List JsonValue}
    (done : replay rules (earlier ++ later) = .ok reading) :
    ∃ prior, replay rules earlier = .ok prior ∧ later.foldlM (validateRecord rules) prior = .ok reading := by
  rw [replay, List.foldlM_append] at done
  exact bind_eq_ok.mp done

/-- The records after a prefix move its live links; what they push, they declare. -/
theorem replay_moves {earlier later : List JsonValue}
    (done : replay rules (earlier ++ later) = .ok reading) :
    ∃ moves, StackRun (fun page => liveLinks rules page earlier) moves
        (fun page => liveLinks rules page (earlier ++ later)) ∧
      ∀ page declared, .push page declared ∈ moves → declared ∈ later.filterMap (declaredOf rules) := by
  induction later using List.reverseRecOn generalizing reading with
  | nil =>
      rw [List.append_nil]
      exact ⟨[], .start _, fun _ _ absent => nomatch absent⟩
  | append_singleton later record ih =>
      rw [← List.append_assoc] at done ⊢
      obtain ⟨prior, first, last⟩ := replay_append done
      obtain ⟨moves, run, pushes⟩ := ih first
      rw [List.foldlM_cons] at last
      obtain ⟨next, step, -⟩ := bind_eq_ok.mp last
      obtain ⟨move, makes, pushed, -, -⟩ := liveLinks_moves (replay_sound first) step
      refine ⟨moves ++ [move], run.step makes, fun page declared member => ?_⟩
      rw [List.filterMap_append, List.mem_append]
      rcases List.mem_append.mp member with inside | own
      · exact .inl (pushes page declared inside)
      · obtain ⟨-, declares⟩ := pushed page declared (List.mem_singleton.mp own).symm
        exact .inr (List.mem_filterMap.mpr ⟨record, .head _, declares⟩)

/-- Taking back a link restores the chain of its page as it was before the link. -/
theorem liveLinks_restored {before between : List JsonValue} {link retraction : JsonValue}
    {declared : Declared}
    (done : replay rules (before ++ link :: (between ++ [retraction])) = .ok reading)
    (declares : declaredOf rules link = some declared)
    (takes : withdrawnLink retraction = some declared.link.digest) :
    liveLinks rules declared.page (before ++ link :: (between ++ [retraction])) =
      liveLinks rules declared.page before := by
  have shape : before ++ link :: (between ++ [retraction]) =
      (before ++ [link] ++ between) ++ [retraction] := by simp
  rw [shape] at done ⊢
  obtain ⟨prior, first, last⟩ := replay_append done
  rw [List.foldlM_cons] at last
  obtain ⟨next, retracts, -⟩ := bind_eq_ok.mp last
  obtain ⟨linked, second, -⟩ := replay_append first
  obtain ⟨start, third, begun⟩ := replay_append second
  rw [List.foldlM_cons] at begun
  obtain ⟨grown, links, -⟩ := bind_eq_ok.mp begun
  have sound := replay_sound first
  obtain ⟨pushMove, pushes, -, own, -⟩ := liveLinks_moves (replay_sound third) links
  rw [own declared declares] at pushes
  obtain ⟨moves, run, later⟩ := replay_moves first
  obtain ⟨popMove, pops, -, -, taken⟩ := liveLinks_moves sound retracts
  obtain ⟨page, popped, rfl, digest⟩ := taken _ takes
  have listed : (before ++ [link] ++ between).filterMap (declaredOf rules) =
      before.filterMap (declaredOf rules) ++ declared :: between.filterMap (declaredOf rules) := by
    rw [List.filterMap_append, List.filterMap_append, List.filterMap_cons, declares]
    simp
  have once := sound.distinct.of_map
  rw [listed, List.nodup_append, List.nodup_cons] at once
  have live : popped ∈ liveLinks rules page (before ++ [link] ++ between) := by
    have held := pops.1
    beta_reduce at held
    rw [held]
    exact List.mem_append_right _ (.head _)
  have known : declared ∈ (before ++ [link] ++ between).filterMap (declaredOf rules) := by
    rw [listed]
    exact List.mem_append_right _ (.head _)
  obtain rfl := sound.declared_unique (declared_of_live live) known digest
  obtain rfl := page_of_live live
  refine StackRun.restores pushes run pops (fun inside => ?_) fun again => ?_
  · exact once.2.2 _ (declared_of_live inside) _ (.head _) rfl
  · exact once.2.1.1 (later _ _ again)

theorem digests_sorted {value : JsonValue} {what : String} {members : List Str}
    (read : digests value what = .ok members) : members = sortedSet members := by
  rw [digests] at read
  split at read
  · obtain ⟨shape, read⟩ := require_bind_eq_ok.mp read
    cases read
    exact shape.2.1
  · cases read

theorem declared_sorted {record : JsonValue} {declared : Declared}
    (declares : declaredOf rules record = some declared) :
    sortedSet declared.link.members = declared.link.members := by
  cases record with
  | object fields =>
      rw [declaredOf] at declares
      split at declares
      · split at declares
        · next members _ _ read _ =>
          cases declares
          exact (digests_sorted read).symm
        · cases declares
      · cases declares
  | null | bool | int | float | str | list => cases declares

variable (rules) in
/-- The members of the newest link of a page that was not taken back. -/
def currentMembers (records : List JsonValue) (page : Str) : List Str :=
  match (liveLinks rules page records).getLast? with
  | some newest => newest.link.members
  | none => []

/-- The members of a page are those of its newest link that was not taken back. -/
theorem membersOf_eq (valid : Valid rules data records reading) (page : Str) :
    membersOf rules data page = (requireIdentity (.str page) .physicalPage
      "membership lookup physical page").map fun _ => currentMembers rules records page := by
  have sound := replay_sound valid.replayed
  rw [membersOf, readRegister_eq_ok.mpr valid, ok_bind, sound.head, sound.chain, List.getLast?_map,
    currentMembers]
  cases newest : (liveLinks rules page records).getLast? with
  | none => rfl
  | some declared =>
      have member := declared_of_live (List.mem_of_getLast? newest)
      obtain ⟨record, -, declares⟩ := List.mem_filterMap.mp member
      rw [Option.map_some]
      dsimp only
      rw [declared_sorted declares]
      rfl

end Chains

section Calls

theorem emptyRegister_written : recordBytes (registerValue []) = .ok emptyRegister := by
  obtain ⟨data, written⟩ : ∃ data, recordBytes (registerValue []) = .ok data :=
    exists_recordBytes (by decide) (registerValue_keyed fun _ absent => nomatch absent)
      (by decide +kernel) (by decide +kernel)
  rw [emptyRegister, written]
  rfl

theorem emptyRegister_valid : Valid rules emptyRegister [] .start where
  size := by
    have small : 4 * (registerValue []).sorted.write.length ≤ maxRegisterBytes := by decide +kernel
    exact (recordBytes_size_le emptyRegister_written).trans small
  written := emptyRegister_written
  keyed := fun _ absent => nomatch absent
  ordered := rfl
  few := Nat.zero_le _
  impartial := fun _ absent => nomatch absent
  replayed := rfl

/-- The records a register was written from are those it is read as. -/
theorem Valid.records_eq (valid : Valid rules data records reading) {given : List JsonValue}
    (keyed : ∀ record ∈ given, Keyed record) (written : recordBytes (registerValue given) = .ok data) :
    records = given.map JsonValue.sorted := by
  have one := loadsBytes_recordBytes rules.host (registerValue_keyed valid.keyed) valid.written
  have other := loadsBytes_recordBytes rules.host (registerValue_keyed keyed) written
  have same := congrArg recordsOf (Option.some.inj (one.symm.trans other))
  rw [recordsOf_registerValue, recordsOf_registerValue, valid.ordered] at same
  exact Except.ok.inj same

/-- An append leaves the file as it was, or puts in its place the records it read and its own. -/
theorem appendRecords_on {file last : RegisterFile} {added : List RecordDict} {expected : Str}
    {replacement : Replacement} {outcome : Except Refusal Str}
    (called : (appendRecords rules added expected replacement).on file = (outcome, last)) :
    last = file ∨ ∃ old reading data successor, added ≠ [] ∧
      expected = rules.sha256 (file.getD emptyRegister) ∧
      readRegister rules (file.getD emptyRegister) = .ok (old, reading) ∧ last = some data ∧
      readRegister rules data =
        .ok (old ++ added.map fun record => (JsonValue.object record.1).sorted, successor) := by
  rw [appendRecords] at called
  rcases Call.lift_bind_cases called with ⟨_, -, same⟩ | ⟨_, -, called⟩
  · exact .inl (congrArg Prod.snd same)
  rcases Call.lift_bind_cases called with ⟨_, -, same⟩ | ⟨_, some, called⟩
  · exact .inl (congrArg Prod.snd same)
  rcases Call.lift_bind_cases called with ⟨_, -, same⟩ | ⟨_, -, called⟩
  · exact .inl (congrArg Prod.snd same)
  rw [Call.bind_on] at called
  change ((Call.lift (requireObservedHead rules (file.getD emptyRegister) expected)) >>= _).on file =
    _ at called
  rcases Call.lift_bind_cases called with ⟨_, -, same⟩ | ⟨observed, head, called⟩
  · exact .inl (congrArg Prod.snd same)
  rcases Call.lift_bind_cases called with ⟨_, -, same⟩ | ⟨⟨old, reading⟩, read, called⟩
  · exact .inl (congrArg Prod.snd same)
  rcases Call.lift_bind_cases called with ⟨_, -, same⟩ | ⟨data, written, called⟩
  · exact .inl (congrArg Prod.snd same)
  rcases Call.lift_bind_cases called with ⟨_, -, same⟩ | ⟨digest, valid, called⟩
  · exact .inl (congrArg Prod.snd same)
  have changed : last = file ∨ last = .some data := by
    cases replacement with
    | settled | unsettled => exact .inr (congrArg Prod.snd called).symm
    | failed | moved => exact .inl (congrArg Prod.snd called).symm
  rcases changed with same | replaced
  · exact .inl same
  obtain ⟨_, observedDigest, agreed⟩ := bind_eq_ok.mp head
  obtain ⟨agreed, -⟩ := require_bind_eq_ok.mp agreed
  obtain ⟨_, -, observedDigest⟩ := bind_eq_ok.mp observedDigest
  cases observedDigest
  obtain ⟨⟨records, successor⟩, accepted, -⟩ := bind_eq_ok.mp valid
  refine .inr ⟨old, reading, data, successor, require_eq_ok.mp some, agreed.symm, read, replaced, ?_⟩
  have earlier := readRegister_eq_ok.mp read
  have keyed : ∀ record ∈ old ++ added.map fun record => JsonValue.object record.1, Keyed record := by
    rw [List.forall_mem_append, List.forall_mem_map]
    exact ⟨earlier.keyed, fun record _ => record.2⟩
  have same := (readRegister_eq_ok.mp accepted).records_eq keyed written
  rw [accepted, same, List.map_append, earlier.ordered, List.map_map]
  rfl

theorem confirmUnchangedHead_reads (expected : Str) : (confirmUnchangedHead rules expected).Reads :=
  .bind (Call.reads_lift _) fun _ => .bind (.bind (fun _ => rfl) fun _ _ => rfl)
    fun _ => Call.reads_lift _

variable (rules) in
/-- What a call may make of the register's file: nothing, or the records it had and more. -/
def Grows (call : RegisterCall) (file last : RegisterFile) : Prop :=
  last = file ∨ ∃ added expected replacement old reading data successor,
    call = .append added expected replacement ∧ added ≠ [] ∧
    expected = rules.sha256 (file.getD emptyRegister) ∧
    readRegister rules (file.getD emptyRegister) = .ok (old, reading) ∧ last = some data ∧
    readRegister rules data =
      .ok (old ++ added.map fun record => (JsonValue.object record.1).sorted, successor)

theorem call_grows (call : RegisterCall) (file : RegisterFile) :
    Grows rules call file ((call.run rules).on file).2 := by
  cases call with
  | append added expected replacement =>
      rcases @appendRecords_on rules _ _ _ _ _ _ rfl with same | ⟨old, reading, data, successor, rest⟩
      · exact .inl same
      · exact .inr ⟨added, expected, replacement, old, reading, data, successor, rfl, rest⟩
  | confirm expected => exact .inl (confirmUnchangedHead_reads expected file)

/-- Later calls only add to the records of a register that validates. -/
theorem afterCalls_grows {file : RegisterFile} {old : List JsonValue}
    (read : readRegister rules (file.getD emptyRegister) = .ok (old, reading))
    (calls : List RegisterCall) :
    ∃ added later, readRegister rules ((afterCalls rules file calls).getD emptyRegister) =
      .ok (old ++ added, later) := by
  induction calls using List.reverseRecOn with
  | nil => exact ⟨[], reading, by rw [List.append_nil]; exact read⟩
  | append_singleton calls call ih =>
      obtain ⟨added, later, before⟩ := ih
      have last : afterCalls rules file (calls ++ [call]) =
          ((call.run rules).on (afterCalls rules file calls)).2 := List.foldl_append ..
      rw [last]
      rcases @call_grows rules call (afterCalls rules file calls) with same | ⟨_, _, _, records, _, data,
        successor, -, -, -, held, stored, grown⟩
      · rw [same]
        exact ⟨added, later, before⟩
      · rw [before] at held
        cases held
        rw [stored, Option.getD_some]
        exact ⟨_, successor, grown.trans (by rw [List.append_assoc])⟩

/-- The register only grows, and its replay is exact. Every call leaves the file or puts in its place
the old records and its own, on the digest of what it replaces; a register that validates stays a
prefix of every later one; and of every register that validates every prefix validates, each page's
chain is one, the members of a page are those of the newest link not taken back, taking back a link
restores what was read before it, no link is taken back twice, and a correspondence is held exactly
when it is declared after it was last taken back. -/
theorem register_appendOnly :
    (∀ call file, Grows rules call file ((call.run rules).on file).2) ∧
    (∀ file old reading, readRegister rules (file.getD emptyRegister) = .ok (old, reading) →
      ∀ calls, ∃ added later, readRegister rules
        ((afterCalls rules file calls).getD emptyRegister) = .ok (old ++ added, later)) ∧
    ∀ data records reading, readRegister rules data = .ok (records, reading) →
      (∀ earlier later, records = earlier ++ later → ∃ bytes prior,
        recordBytes (registerValue earlier) = .ok bytes ∧
        readRegister rules bytes = .ok (earlier, prior)) ∧
      (∀ page, Chained (liveLinks rules page records)) ∧
      (∀ page, membersOf rules data page = (requireIdentity (.str page) .physicalPage
        "membership lookup physical page").map fun _ => currentMembers rules records page) ∧
      (∀ before link between retraction later declared, records = before ++ link :: (between ++
          [retraction]) ++ later → declaredOf rules link = some declared →
        withdrawnLink retraction = some declared.link.digest → ∀ bytes restored,
        recordBytes (registerValue before) = .ok bytes →
        recordBytes (registerValue (before ++ link :: (between ++ [retraction]))) = .ok restored →
        membersOf rules restored declared.page = membersOf rules bytes declared.page) ∧
      (records.filterMap withdrawnLink).Nodup ∧
      (∀ identity, identity ∈ reading.correspondenceRecords ↔
        LiveCorrespondence identity records) := by
  refine ⟨call_grows, fun file old reading read calls => afterCalls_grows read calls, ?_⟩
  intro data records reading read
  have valid := readRegister_eq_ok.mp read
  have sound := replay_sound valid.replayed
  have prefixes (earlier later : List JsonValue) (same : records = earlier ++ later) :
      ∃ bytes prior, recordBytes (registerValue earlier) = .ok bytes ∧ Valid rules bytes earlier prior := by
    subst same
    obtain ⟨bytes, prior, earlier⟩ := valid.take
    exact ⟨bytes, prior, earlier.written, earlier⟩
  refine ⟨?_, sound.chained, membersOf_eq valid, ?_, sound.once, sound.corresponds⟩
  · intro earlier later same
    obtain ⟨bytes, prior, written, shorter⟩ := prefixes earlier later same
    exact ⟨bytes, prior, written, readRegister_eq_ok.mpr shorter⟩
  · intro before link between retraction later declared same declares takes bytes restored first second
    obtain ⟨firstBytes, prior, written, earlier⟩ :=
      prefixes before (link :: (between ++ [retraction]) ++ later) (by rw [same, List.append_assoc])
    obtain ⟨secondBytes, next, rewritten, whole⟩ := prefixes _ later same
    obtain rfl := Except.ok.inj (first.symm.trans written)
    obtain rfl := Except.ok.inj (second.symm.trans rewritten)
    rw [membersOf_eq whole, membersOf_eq earlier, currentMembers, currentMembers,
      liveLinks_restored whole.replayed declares takes]

end Calls

end Verbatus.Register
