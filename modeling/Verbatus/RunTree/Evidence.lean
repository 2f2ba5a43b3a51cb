import Verbatus.RunTree.Immutable

namespace Verbatus.RunTree

open Library Library.Checked Refusal Python CodePoint Canonical
open Identities (str str_injective)

section Segments

theorem segments_plain {text : List Char} (plain : '/' ∉ text) : segments text = [text] := by
  induction text with
  | nil => rfl
  | cons character characters ih =>
      rw [List.mem_cons, not_or] at plain
      rw [segments, if_neg (Ne.symm plain.1), ih plain.2]

theorem segments_append {first : List Char} (plain : '/' ∉ first) (second : List Char) :
    segments (first ++ '/' :: second) = first :: segments second := by
  induction first with
  | nil => simp [segments]
  | cons character characters ih =>
      rw [List.mem_cons, not_or] at plain
      rw [List.cons_append, segments, if_neg (Ne.symm plain.1), ih plain.2]

/-- A blob's path is one inside the tree. -/
theorem blobPath_staysInside {digest relative : String}
    (placed : blobPath .door digest = .ok relative) : staysInside relative = true := by
  obtain ⟨⟨⟩, plain, placed⟩ := bind_eq_ok.mp placed
  cases placed
  obtain ⟨-, plain⟩ := require_bind_eq_ok.mp plain
  obtain ⟨noSlash, -, noDot⟩ := require_eq_ok.mp plain
  have text : (toString Stage.door.writingDirectory ++ toString "/blobs/sha256/" ++
      toString digest).toList =
      "1_exemplar".toList ++ '/' :: ("blobs".toList ++ '/' :: ("sha256".toList ++ '/' ::
        digest.toList)) := by
    simp only [String.toList_append, toString]
    rfl
  rw [staysInside, text, segments_append (by decide), segments_append (by decide),
    segments_append (by decide), segments_plain noSlash, Bool.and_eq_true, List.all_eq_true]
  refine ⟨rfl, ?_⟩
  intro segment member
  simp only [List.mem_cons, List.not_mem_nil, or_false] at member
  rcases member with rfl | rfl | rfl | rfl
  · decide
  · decide
  · decide
  · apply decide_eq_true
    intro dots
    rw [dots] at noDot
    exact noDot rfl

end Segments

section Runs

variable {rules : StoreRules} {runId : String} {files changed : Files} {reused : Bool}

/-- The files after operations in turn, each done or refused. -/
def run (rules : StoreRules) (runId : String) (files : Files) (operations : List Operation) : Files :=
  operations.foldl (after rules runId) files

theorem run_append (operations later : List Operation) :
    run rules runId files (operations ++ later) =
      run rules runId (run rules runId files operations) later :=
  List.foldl_append

theorem after_eq {operation : Operation}
    (performed : perform rules runId files operation = .ok (changed, reused)) :
    after rules runId files operation = changed := by
  rw [after, performed]

theorem after_keeps {operation : Operation} {path : String}
    (lasting : ∀ derived : Derived, derived.path ≠ path) {held : ByteArray}
    (present : files.get? path = some held) :
    (after rules runId files operation).get? path = some held := by
  unfold after
  cases performed : perform rules runId files operation with
  | error raised => exact present
  | ok result => exact perform_keeps performed lasting present

/-- A file that is not replaced in place keeps its bytes through every run. -/
theorem run_keeps {operations : List Operation} {path : String}
    (lasting : ∀ derived : Derived, derived.path ≠ path) {held : ByteArray}
    (present : files.get? path = some held) :
    (run rules runId files operations).get? path = some held := by
  induction operations generalizing files with
  | nil => exact present
  | cons operation operations ih => exact ih (after_keeps lasting present)

theorem runFile_lasting (derived : Derived) : derived.path ≠ runFile :=
  ImmutablePath.run.not_derived derived

theorem target_immutable {publication : Publication} {relative : String} {data : ByteArray}
    (aimed : target rules publication = .ok (relative, data)) :
    ImmutablePath relative ∧ relative ≠ runFile := by
  have depth {path : String} (deep : 2 ≤ slashes path) : path ≠ runFile := by
    rintro rfl
    exact absurd deep (by decide)
  cases publication with
  | artifact envelope =>
      obtain ⟨fields, -, aimed⟩ := bind_eq_ok.mp aimed
      obtain ⟨path, placed, aimed⟩ := bind_eq_ok.mp aimed
      obtain ⟨bytes, -, aimed⟩ := bind_eq_ok.mp aimed
      cases aimed
      exact ⟨.artifact placed, depth (by rw [artifactPath_slashes placed]; omega)⟩
  | blob stage data =>
      obtain ⟨path, placed, aimed⟩ := bind_eq_ok.mp aimed
      cases aimed
      exact ⟨.blob placed, depth (by rw [blobPath_slashes placed]; omega)⟩
  | runReceipt receipt | approval record =>
      obtain ⟨checked, -, aimed⟩ := bind_eq_ok.mp aimed
      obtain ⟨bytes, -, aimed⟩ := bind_eq_ok.mp aimed
      obtain ⟨path, placed, aimed⟩ := bind_eq_ok.mp aimed
      cases aimed
      exact ⟨.receipt placed, depth (by rw [receiptPath_slashes placed])⟩
  | auditNote stage digest =>
      obtain ⟨path, placed, aimed⟩ := bind_eq_ok.mp aimed
      cases aimed
      exact ⟨.auditNote placed, depth (by rw [auditNotePath_slashes placed])⟩

/-- The run authority is what some accepted arguments made, and their register is kept beside it. -/
def AuthorityKept (rules : StoreRules) (runId : String) (files : Files) : Prop :=
  ∀ data, files.get? runFile = some data → ∃ arguments authority relative,
    authorityOf rules runId arguments = .ok authority ∧
    recordBytes (.object authority) = .ok data ∧
    blobPath .door (rules.digestBytes (snapshotOf rules arguments)) = .ok relative ∧
    files.get? relative = some (snapshotOf rules arguments)

theorem perform_authorityKept {operation : Operation}
    (performed : perform rules runId files operation = .ok (changed, reused))
    (kept : AuthorityKept rules runId files) : AuthorityKept rules runId changed := by
  have same (unchanged : changed.get? runFile = files.get? runFile) :
      AuthorityKept rules runId changed := by
    intro data stored
    rw [unchanged] at stored
    obtain ⟨arguments, authority, relative, made, written, placed, held⟩ := kept data stored
    exact ⟨arguments, authority, relative, made, written, placed, perform_keeps performed
      (fun derived => (ImmutablePath.blob placed).not_derived derived) held⟩
  cases operation with
  | create arguments =>
      rcases create_eq_ok performed with ⟨-, rfl⟩ | ⟨-, opened⟩
      · exact kept
      · obtain ⟨authority, relative, between, known, bytes, made, placed, published, written, rfl⟩ :=
          opened.stored
        intro data stored
        rw [Mapping.get?_set, if_pos rfl, Option.some.injEq] at stored
        subst stored
        refine ⟨arguments, authority, relative, made, written, placed, ?_⟩
        have other : relative ≠ runFile := by
          rintro rfl
          exact absurd (blobPath_slashes placed) (by decide)
        rw [Mapping.get?_set, if_neg other]
        exact publishBytes_stored published
  | publish publication =>
      obtain ⟨-, relative, data, aimed, published⟩ := publish_eq_ok.mp performed
      apply same
      obtain ⟨-, ⟨-, rfl, -⟩ | ⟨-, rfl, -⟩⟩ := publishBytes_eq_ok.mp published
      · rw [Mapping.get?_set, if_neg (target_immutable aimed).2.symm]
      · rfl
  | writeDerived derived record =>
      apply same
      rcases writeDerived_eq_ok performed with rfl | ⟨data, rfl⟩
      · rfl
      · rw [Mapping.get?_set, if_neg (runFile_lasting derived).symm]

theorem run_authorityKept {operations : List Operation} (kept : AuthorityKept rules runId files) :
    AuthorityKept rules runId (run rules runId files operations) := by
  induction operations generalizing files with
  | nil => exact kept
  | cons operation operations ih =>
      apply ih
      unfold after
      cases performed : perform rules runId files operation with
      | error raised => exact kept
      | ok result => exact perform_authorityKept performed kept

theorem empty_authorityKept : AuthorityKept rules runId .empty := by
  intro data stored
  cases stored

end Runs

section Again

variable {rules : StoreRules} {runId : String} {files later : Files}

theorem readRun_congr (same : files.get? runFile = later.get? runFile) :
    readRun rules runId files = readRun rules runId later := by
  rw [readRun, readRun, same]

theorem runAuthority_congr (same : files.get? runFile = later.get? runFile) :
    runAuthority rules runId files = runAuthority rules runId later := by
  rw [runAuthority, runAuthority, readRun_congr same]

theorem verifyArtifactRun_congr (same : files.get? runFile = later.get? runFile)
    (envelope : EnvelopeFields) :
    verifyArtifactRun rules runId files envelope = verifyArtifactRun rules runId later envelope := by
  rw [verifyArtifactRun, verifyArtifactRun, runAuthority_congr same, holdsRunId, holdsRunId,
    readRun_congr same]

theorem runAuthority_present {digest : String}
    (read : runAuthority rules runId files = .ok digest) : ∃ data, files.get? runFile = some data := by
  obtain ⟨fields, read, -⟩ := bind_eq_ok.mp read
  unfold readRun at read
  cases stored : files.get? runFile with
  | none =>
      rw [stored] at read
      cases read
  | some data => exact ⟨data, rfl⟩

theorem readVerified_eq_ok {relative sha256 what : String} {data : ByteArray} :
    readVerified rules files relative sha256 what = .ok data ↔
      staysInside relative = true ∧ files.get? relative = some data ∧
        data.size ≤ maxTreeReadBytes ∧ rules.digestBytes data = sha256 := by
  rw [readVerified, require_bind_eq_ok]
  cases files.get? relative with
  | none => simp
  | some held =>
      dsimp only
      rw [require_bind_eq_ok, require_bind_eq_ok, Except.ok.injEq, Option.some.injEq]
      constructor
      · rintro ⟨inside, small, digest, rfl⟩
        exact ⟨inside, rfl, small, digest⟩
      · rintro ⟨inside, rfl, small, digest⟩
        exact ⟨inside, small, digest, rfl⟩

/-- A publication that cites no file that is replaced in place. -/
def Publication.Lasting (rules : StoreRules) : Publication → Prop
  | .artifact envelope => ∀ fields, rules.envelopeFields envelope = .ok fields →
    ∀ input ∈ fields.inputs, ∀ derived : Derived, derived.path ≠ input.relativePath
  | _ => True

/-- What a publication's checks found, they find in every later state. -/
theorem checkPublication_later {publication : Publication} (lasting : publication.Lasting rules)
    (grows : ∀ path held, (∀ derived : Derived, derived.path ≠ path) →
      files.get? path = some held → later.get? path = some held)
    (checked : checkPublication rules runId files publication = .ok ()) :
    checkPublication rules runId later publication = .ok () := by
  cases publication with
  | artifact envelope =>
      obtain ⟨fields, read, checked⟩ := bind_eq_ok.mp checked
      obtain ⟨⟨⟩, ours, cited⟩ := bind_eq_ok.mp checked
      obtain ⟨held, -, bound⟩ := bind_eq_ok.mp ours
      obtain ⟨-, bound⟩ := require_bind_eq_ok.mp bound
      obtain ⟨digest, authority, -⟩ := bind_eq_ok.mp bound
      obtain ⟨data, stored⟩ := runAuthority_present authority
      have same : files.get? runFile = later.get? runFile := by
        rw [stored, grows runFile data runFile_lasting stored]
      refine bind_eq_ok.mpr ⟨fields, read, bind_eq_ok.mpr ⟨(), ?_, ?_⟩⟩
      · rw [← verifyArtifactRun_congr same]
        exact ours
      · unfold verifyArtifactInputs at cited ⊢
        refine forM_eq_ok.mpr fun input member => ?_
        obtain ⟨bytes, verified, -⟩ := bind_eq_ok.mp (forM_eq_ok.mp cited input member)
        obtain ⟨inside, present, small, digest⟩ := readVerified_eq_ok.mp verified
        have kept := grows _ _ (lasting fields read input member) present
        exact bind_eq_ok.mpr ⟨bytes, readVerified_eq_ok.mpr ⟨inside, kept, small, digest⟩, rfl⟩
  | blob | runReceipt | approval | auditNote => rfl

/-- What was published is published again by reuse, in every later state. -/
theorem publish_again {publication : Publication} (lasting : publication.Lasting rules)
    {changed : Files} {reused : Bool}
    (published : publish rules runId files publication = .ok (changed, reused))
    (operations : List Operation) :
    publish rules runId (run rules runId changed operations) publication =
      .ok (run rules runId changed operations, true) := by
  obtain ⟨checked, relative, data, aimed, stored⟩ := publish_eq_ok.mp published
  have performed : perform rules runId files (.publish publication) = .ok (changed, reused) :=
    published
  refine publish_eq_ok.mpr ⟨?_, relative, data, aimed, publishBytes_eq_ok.mpr ⟨?_, .inr ⟨?_, rfl,
    rfl⟩⟩⟩
  · exact checkPublication_later lasting (fun path held clear present =>
      run_keeps clear (perform_keeps performed clear present)) checked
  · exact (publishBytes_eq_ok.mp stored).1
  · exact run_keeps (fun derived => (target_immutable aimed).1.not_derived derived)
      (publishBytes_stored stored)

/-- Other bytes at a taken identity are refused, and every file stays as it was. -/
theorem publish_other {publication : Publication} {relative : String} {data held : ByteArray}
    (aimed : target rules publication = .ok (relative, data))
    (present : files.get? relative = some held) (other : held ≠ data) :
    (∃ raised, publish rules runId files publication = .error raised) ∧
      after rules runId files (.publish publication) = files := by
  have refused : ∀ result, publish rules runId files publication ≠ .ok result := by
    rintro ⟨changed, reused⟩ published
    obtain ⟨-, path, bytes, same, stored⟩ := publish_eq_ok.mp published
    rw [aimed, Except.ok.injEq, Prod.mk.injEq] at same
    obtain ⟨rfl, rfl⟩ := same
    obtain ⟨-, ⟨absent, -, -⟩ | ⟨also, -, -⟩⟩ := publishBytes_eq_ok.mp stored
    · rw [present] at absent
      cases absent
    · rw [present, Option.some.injEq] at also
      exact other also
  cases attempt : publish rules runId files publication with
  | ok result => exact absurd attempt (refused result)
  | error raised =>
      refine ⟨⟨raised, rfl⟩, ?_⟩
      rw [after, perform, attempt]

/-- An artifact is refused where a file it cites has other bytes than those it cites. -/
theorem publish_citedChanged {envelope : Record} {fields : EnvelopeFields}
    (read : rules.envelopeFields envelope = .ok fields) {input : CitedInput}
    (cited : input ∈ fields.inputs) {held : ByteArray}
    (present : files.get? input.relativePath = some held)
    (other : rules.digestBytes held ≠ input.sha256) (result : Files × Bool) :
    publish rules runId files (.artifact envelope) ≠ .ok result := by
  intro published
  obtain ⟨checked, -⟩ := publish_eq_ok.mp published
  obtain ⟨found, reading, checked⟩ := bind_eq_ok.mp checked
  rw [read, Except.ok.injEq] at reading
  subst reading
  obtain ⟨⟨⟩, -, inputs⟩ := bind_eq_ok.mp checked
  obtain ⟨bytes, verified, -⟩ := bind_eq_ok.mp (forM_eq_ok.mp inputs input cited)
  obtain ⟨-, stored, -, digest⟩ := readVerified_eq_ok.mp verified
  rw [present, Option.some.injEq] at stored
  rw [stored] at other
  exact other digest

end Again

section Existing

variable {rules : StoreRules} {runId : String} {files : Files}

/-- The facts in which a stored authority and a caller's are to agree. -/
def Bound (existing authority : List (Str × JsonValue)) (field : String) : Prop :=
  field ∈ boundFields ∨
    (field ∈ optionalBoundFields ∧ (field? field authority ≠ none ∨ field? field existing ≠ none))

theorem differingFields_eq_nil {existing authority : List (Str × JsonValue)} :
    differingFields existing authority = [] ↔
      ∀ field, Bound existing authority field → agrees existing authority field = true := by
  rw [differingFields, List.filter_eq_nil_iff]
  simp only [List.mem_append, List.mem_filter, Bool.or_eq_true, Bound, ne_eq,
    ← Option.isSome_iff_ne_none, Bool.not_eq_true', Bool.not_eq_false]

/-- Two authorities that agree on their register's digest name one register. -/
theorem register_agrees {first second : CreateArguments} {kept authority : List (Str × JsonValue)}
    (made : authorityOf rules runId first = .ok kept)
    (given : authorityOf rules runId second = .ok authority)
    (agree : agrees (readBack kept) authority "register_digest" = true) :
    rules.digestBytes (snapshotOf rules second) = rules.digestBytes (snapshotOf rules first) := by
  obtain ⟨_, _, shape, same, -, -, -⟩ := authorityOf_eq_ok made
  obtain ⟨_, _, other, also, -, -, -⟩ := authorityOf_eq_ok given
  rw [agrees, readBack, field?_sorted (authority_distinct made),
    authority_field made same shape.register, authority_field given also other.register] at agree
  simp only [Option.map_some, Option.getD_some, pythonEqual_sorted] at agree
  have equal := of_decide_eq_true agree
  simp only [jsonText, JsonValue.sorted, folded, JsonValue.str.injEq] at equal
  exact (str_injective equal).symm

theorem create_refused {arguments : CreateArguments}
    (refused : (authorityOf rules runId arguments).toOption.isNone) (result : Files × Bool) :
    create rules runId files arguments ≠ .ok result := by
  intro created
  obtain ⟨authority, made, -⟩ := bind_eq_ok.mp created
  rw [made] at refused
  cases refused

theorem readRun_readable {data : ByteArray} (stored : files.get? runFile = some data)
    {existing : List (Str × JsonValue)} (read : readRun rules runId files = .ok existing) :
    data.size ≤ maxRecordReadBytes := by
  rw [readRun, stored] at read
  exact (require_bind_eq_ok.mp read).1

/-- A run that stands is opened again exactly where every bound fact is the recorded one. -/
theorem create_existing (kept : AuthorityKept rules runId files) {data : ByteArray}
    (stored : files.get? runFile = some data) (arguments : CreateArguments) (result : Files × Bool) :
    create rules runId files arguments = .ok result ↔ result = (files, true) ∧
      ∃ existing authority, readRun rules runId files = .ok existing ∧
        authorityOf rules runId arguments = .ok authority ∧
        ∀ field, Bound existing authority field → agrees existing authority field = true := by
  obtain ⟨opening, recorded, relative, made, written, placed, snapshot⟩ := kept data stored
  obtain ⟨fields, hash, shape, same, -, -, -⟩ := authorityOf_eq_ok made
  rw [create, bind_eq_ok]
  simp only [stored, Option.isSome_some, if_true]
  constructor
  · rintro ⟨authority, given, created⟩
    obtain ⟨⟨⟩, compatible, created⟩ := bind_eq_ok.mp created
    obtain ⟨⟨⟩, -, created⟩ := bind_eq_ok.mp created
    cases created
    obtain ⟨existing, reading, compatible⟩ := bind_eq_ok.mp compatible
    obtain ⟨-, compatible⟩ := require_bind_eq_ok.mp compatible
    exact ⟨rfl, existing, authority, reading, given,
      differingFields_eq_nil.mp (require_eq_ok.mp compatible)⟩
  · rintro ⟨rfl, existing, authority, reading, given, agree⟩
    have read := readRun_stored made written (readRun_readable stored reading) stored
    rw [read, Except.ok.injEq] at reading
    subst reading
    refine ⟨authority, given, bind_eq_ok.mpr ⟨(), ?_, bind_eq_ok.mpr ⟨(), ?_, rfl⟩⟩⟩
    · refine bind_eq_ok.mpr ⟨_, read, require_bind_eq_ok.mpr ⟨fun sealedDigests => ?_, ?_⟩⟩
      · rw [readBack, field?_sorted (authority_distinct made), Option.isSome_map] at sealedDigests
        obtain ⟨value, found⟩ := Option.isSome_iff_exists.mp sealedDigests
        have named := mem_of_field? found
        rw [same] at named
        have listed : "sealed_config_digests" ∈ fields.map Prod.fst := by
          rcases List.mem_append.mp named with own | last
          · obtain ⟨field, member, equal⟩ := List.mem_map.mp own
            rw [Prod.mk.injEq] at equal
            exact str_injective equal.1 ▸ List.mem_map_of_mem member
          · rw [List.mem_singleton, Prod.mk.injEq] at last
            exact absurd (str_injective last.1) (by decide)
        rw [readBack, field?_sorted (authority_distinct made),
          authority_field made same (shape.method listed)]
        rfl
      · exact require_eq_ok.mpr (differingFields_eq_nil.mpr agree)
    · have digest := register_agrees made given (agree "register_digest" (.inl (by decide)))
      rw [verifySnapshotPresent, digest]
      refine bind_eq_ok.mpr ⟨relative, placed, bind_eq_ok.mpr ⟨_, readVerified_eq_ok.mpr
        ⟨blobPath_staysInside placed, snapshot, ?_, rfl⟩, rfl⟩⟩
      exact shape.small.trans (by decide)

end Existing

/-- Published evidence never changes: its bytes last through every run, the same bytes are reused,
other bytes are refused, a run is opened again under its own facts only, and no file that is
replaced in place stands at an immutable path. -/
theorem evidence_immutable (rules : StoreRules) (runId : String) (operations : List Operation) :
    (∀ (path : String) (held : ByteArray) (later : List Operation), ImmutablePath path →
      (run rules runId .empty operations).get? path = some held →
      (run rules runId .empty (operations ++ later)).get? path = some held) ∧
    (∀ (publication : Publication) (changed : Files) (reused : Bool) (later : List Operation),
      publication.Lasting rules →
      publish rules runId (run rules runId .empty operations) publication = .ok (changed, reused) →
      publish rules runId (run rules runId changed later) publication =
        .ok (run rules runId changed later, true)) ∧
    (∀ (publication : Publication) (relative : String) (data held : ByteArray),
      target rules publication = .ok (relative, data) →
      (run rules runId .empty operations).get? relative = some held → held ≠ data →
      (∃ raised, publish rules runId (run rules runId .empty operations) publication =
        .error raised) ∧
      run rules runId .empty (operations ++ [.publish publication]) =
        run rules runId .empty operations) ∧
    (∀ (arguments : CreateArguments) (result : Files × Bool) (data : ByteArray),
      (run rules runId .empty operations).get? runFile = some data →
      (create rules runId (run rules runId .empty operations) arguments = .ok result ↔
        result = (run rules runId .empty operations, true) ∧
        ∃ existing authority,
          readRun rules runId (run rules runId .empty operations) = .ok existing ∧
          authorityOf rules runId arguments = .ok authority ∧
          ∀ field, Bound existing authority field → agrees existing authority field = true)) ∧
    ∀ (derived : Derived) (path : String), ImmutablePath path → derived.path ≠ path := by
  refine ⟨?_, ?_, ?_, ?_, ?_⟩
  · intro path held later immutable present
    rw [run_append]
    exact run_keeps (fun derived => immutable.not_derived derived) present
  · intro publication changed reused later lasting published
    exact publish_again lasting published later
  · intro publication relative data held aimed present other
    rw [run_append]
    exact publish_other aimed present other
  · intro arguments result data stored
    exact create_existing (run_authorityKept empty_authorityKept) stored arguments result
  · intro derived path immutable
    exact immutable.not_derived derived

section Sample

def textField (name : String) (fields : List (Str × JsonValue)) : Except Refusal String :=
  match field? name fields with
  | some (.str text) => .ok (String.ofList (text.filterMap scalar?))
  | _ => .error (.schemaRefusal (name ++ " is not a text"))

def citedInput : JsonValue → Except Refusal CitedInput
  | .object fields => do
    let path ← textField "relative_path" fields
    let digest ← textField "sha256" fields
    .ok ⟨path, digest⟩
  | _ => .error (.schemaRefusal "an input is not an object")

def citedInputs : Option JsonValue → Except Refusal (List CitedInput)
  | some (.list inputs) => inputs.mapM citedInput
  | _ => .error (.schemaRefusal "inputs is not a list")

def sampleEnvelopeFields (envelope : Record) : Except Refusal EnvelopeFields :=
  match envelope.json with
  | .object fields => do
    let kind ← textField "kind" fields
    let artifactId ← textField "artifact_id" fields
    let runId ← textField "run_id" fields
    let configDigest ← textField "config_digest" fields
    let inputs ← citedInputs (field? "inputs" fields)
    .ok ⟨.designator, kind, artifactId, runId, configDigest, inputs⟩
  | _ => .error (.schemaRefusal "artifact is not an object")

def firstByte (data : ByteArray) : ℕ := (data.data.toList.head?.getD 0).toNat

/-- A store whose digests tell bytes apart by the first of them. -/
def sampleRules : StoreRules where
  digestBytes data := String.ofList (List.replicate 64 (Nat.digitChar (firstByte data % 10)))
  integerDigits := 4300
  digitsFloor := by decide
  parseIngress _ := .ok ()
  readRegister _ := .ok ()
  emptyRegister := .empty
  envelopeFields := sampleEnvelopeFields
  receiptRecord := .ok
  approvalRecord := .ok
  importsOf _ := .ok (none, [])
  derivedBytes _ _ record := recordBytes record.json

def sampleDigest (digit : Char) : String := String.ofList (List.replicate 64 digit)

def sampleArguments (commit : Option String) : CreateArguments where
  sourceManifest := []
  configDigest := sampleDigest '0'
  adapterRecipes := ⟨[], by decide⟩
  witnessChairs := ["first"]
  registerBytes := none
  ingress := none
  renderSettings := none
  sealedConfigDigests := none
  repositoryCommit := commit

/-- An artifact made from a stage's manifest, which a later manifest replaces. -/
def sampleArtifact : Record where
  json := .object [(str "artifact_id", jsonText "art-1"),
    (str "config_digest", jsonText (sampleDigest '0')), (str "inputs", .list [.object
      [(str "relative_path", jsonText (manifestPath .exemplar)),
        (str "sha256", jsonText (sampleDigest '9'))]]), (str "kind", jsonText "act"), (str "run_id", jsonText "run-1")]
  keyed := by decide +kernel

def sampleManifest (rows : ℤ) : Record where
  json := .int rows
  keyed := keyed_scalar rfl fun _ => nofun

def sampleFields : EnvelopeFields where
  stage := .designator
  kind := "act"
  artifactId := "art-1"
  runId := "run-1"
  configDigest := sampleDigest '0'
  inputs := [⟨manifestPath .exemplar, sampleDigest '9'⟩]

def samplePath : String := "2_designator/artifacts/act/art-1.json"

def sampleSnapshotPath : String := "1_exemplar/blobs/sha256/" ++ sampleDigest '0'

def digestText (digit : Char) : JsonValue := .str (List.replicate 64 (.scalar digit))

def sampleMembership : JsonValue :=
  .object [(str "frame_digest", digestText '3'), (str "page_digest", digestText '1'),
    (str "seed", digestText '3')]

def sampleBase : List (Str × JsonValue) :=
  [(str "schema", jsonText schemaLabel), (str "run_id", jsonText "run-1"),
    (str "source_manifest", .list []), (str "config_digest", digestText '0'),
    (str "adapter_recipes", .object []), (str "witness_chairs", .list [jsonText "first"]),
    (str "corpus_frame_membership", sampleMembership), (str "register_digest", digestText '0'),
    (str "register_required", .bool false)]

def sampleAuthority : List (Str × JsonValue) := sampleBase ++ [(str "self_hash", digestText '3')]

/-- What the kernel is to evaluate of the sample, once. -/
theorem sample_checks :
    ((sampleEnvelopeFields sampleArtifact).toOption.any fun fields =>
      decide (fields = sampleFields)) = true ∧
    ((recordBytes (sampleManifest 1).json).toOption.any fun data =>
      decide (sampleRules.digestBytes data = sampleDigest '9' ∧
        data.size ≤ maxTreeReadBytes)) = true ∧
    ((recordBytes (sampleManifest 2).json).toOption.any fun data =>
      decide (sampleRules.digestBytes data ≠ sampleDigest '9')) = true ∧
    ((target sampleRules (.artifact sampleArtifact)).toOption.any fun result =>
      decide (result.1 = samplePath)) = true ∧
    ((blobPath .door (sampleRules.digestBytes .empty)).toOption.any fun path =>
      decide (path = sampleSnapshotPath)) = true ∧
    (∀ path ∈ [sampleSnapshotPath, manifestPath .exemplar, samplePath],
      ((requireInventoryPath path).toOption.any fun _ => true) = true) ∧
    ((recordBytes (.list [])).toOption.any fun data => decide (firstByte data = 91)) = true ∧
    (∀ record ∈ [.object [(str "pages", .list [])], .object [(str "page_digest", digestText '1'),
        (str "purpose", jsonText "frame")], .object sampleBase, .object sampleAuthority],
      jsonDepth record ≤ maxCanonicalDepth ∧ Keyed record ∧ record.parts.all plainJson = true ∧
        ∀ part ∈ record.parts, part.Textual) ∧
    withoutKey "self_hash" sampleBase = sampleBase ∧
    4 * (JsonValue.object sampleAuthority).sorted.write.length ≤ maxRecordReadBytes ∧
    samplePath ≠ sampleSnapshotPath ∧
    (authorityOf sampleRules "run-1" (sampleArguments (some "main"))).toOption.isNone = true := by
  decide +kernel

theorem sample_inScope {path : String}
    (listed : path ∈ [sampleSnapshotPath, manifestPath .exemplar, samplePath]) :
    requireInventoryPath path = .ok () := by
  obtain ⟨-, -, -, -, -, inScope, -⟩ := sample_checks
  obtain ⟨⟨⟩, checked, -⟩ := exists_ok_of_any _ _ (inScope path listed)
  exact checked

theorem sample_writes {record : JsonValue}
    (listed : record ∈ [.object [(str "pages", .list [])], .object [(str "page_digest",
      digestText '1'), (str "purpose", jsonText "frame")], .object sampleBase,
      .object sampleAuthority]) : ∃ data, recordBytes record = .ok data := by
  obtain ⟨-, -, -, -, -, -, -, writes, -⟩ := sample_checks
  exact exists_recordBytes_of (writes record listed)

theorem sampleArtifact_read : sampleEnvelopeFields sampleArtifact = .ok sampleFields := by
  obtain ⟨fields, read, same⟩ := exists_ok_of_any _ _ sample_checks.1
  rw [read, of_decide_eq_true same]

theorem sampleManifest_bytes : ∃ first second,
    recordBytes (sampleManifest 1).json = .ok first ∧
    sampleRules.digestBytes first = sampleDigest '9' ∧ first.size ≤ maxTreeReadBytes ∧
    recordBytes (sampleManifest 2).json = .ok second ∧
    sampleRules.digestBytes second ≠ sampleDigest '9' := by
  obtain ⟨first, wroteFirst, checks⟩ := exists_ok_of_any _ _ sample_checks.2.1
  obtain ⟨second, wroteSecond, other⟩ := exists_ok_of_any _ _ sample_checks.2.2.1
  obtain ⟨digest, small⟩ := of_decide_eq_true checks
  exact ⟨first, second, wroteFirst, digest, small, wroteSecond, of_decide_eq_true other⟩

theorem sampleArtifact_target : ∃ data,
    target sampleRules (.artifact sampleArtifact) = .ok (samplePath, data) := by
  obtain ⟨⟨path, data⟩, aimed, same⟩ := exists_ok_of_any _ _ sample_checks.2.2.2.1
  have path : path = samplePath := of_decide_eq_true same
  exact ⟨data, path ▸ aimed⟩

theorem sampleSnapshot_path :
    blobPath .door (sampleRules.digestBytes .empty) = .ok sampleSnapshotPath := by
  obtain ⟨path, placed, same⟩ := exists_ok_of_any _ _ sample_checks.2.2.2.2.1
  have path : path = sampleSnapshotPath := of_decide_eq_true same
  exact path ▸ placed

theorem firstByte_toUTF8 (character : Char) (rest : List Char) :
    firstByte (String.ofList (character :: rest)).toUTF8 =
      ((String.utf8EncodeChar character).headD 0).toNat := by
  have encoded : (String.ofList (character :: rest)).toUTF8 =
      [character].utf8Encode ++ rest.utf8Encode := List.utf8Encode_cons ..
  have first : [character].utf8Encode = (String.utf8EncodeChar character).toByteArray :=
    List.utf8Encode_singleton ..
  obtain ⟨byte, more, spelt⟩ := List.exists_cons_of_ne_nil
    (String.utf8EncodeChar_ne_nil (c := character))
  rw [encoded, firstByte, first, spelt]
  simp

/-- What an object is written as begins with a brace. -/
theorem firstByte_object {fields : List (Str × JsonValue)} {data : ByteArray}
    (written : recordBytes (.object fields) = .ok data) : firstByte data = 123 := by
  obtain ⟨-, -, encoded⟩ := recordBytes_eq_ok.mp written
  obtain ⟨characters, form, same⟩ := Option.map_eq_some_iff.mp encoded
  have begins : ∃ rest, (JsonValue.object fields).sorted.write = .scalar '\x7b' :: rest := ⟨_, rfl⟩
  obtain ⟨rest, spelt⟩ := begins
  rw [Str.eq_ofChars_of_mapM form] at spelt
  cases characters with
  | nil => cases spelt
  | cons first more =>
      obtain rfl := CodePoint.scalar.inj (List.cons.inj spelt).1
      rw [← same]
      exact firstByte_toUTF8 _ _

theorem digest_object {fields : List (Str × JsonValue)} {data : ByteArray}
    (written : recordBytes (.object fields) = .ok data) :
    sampleRules.digestBytes data = sampleDigest '3' := by
  change String.ofList (List.replicate 64 (Nat.digitChar (firstByte data % 10))) = _
  rw [firstByte_object written]
  rfl

theorem isSha256_sampleDigest {digit : Char} (hex : isLowerHexDigit digit = true) :
    isSha256 (sampleDigest digit) = true := by
  rw [isSha256, sampleDigest, String.length_ofList, String.toList_ofList, List.length_replicate]
  simp [hex]

theorem jsonText_sampleDigest (digit : Char) : jsonText (sampleDigest digit) = digestText digit := by
  rw [jsonText, str, sampleDigest, String.toList_ofList, Str.ofChars, List.map_replicate, digestText]

theorem recordDigest_object {fields : List (Str × JsonValue)}
    (writes : ∃ data, recordBytes (.object fields) = .ok data) :
    recordDigest sampleRules (.object fields) = .ok (sampleDigest '3') := by
  obtain ⟨data, written⟩ := writes
  rw [recordDigest, written, Except.map, digest_object written]

theorem sampleFrame : frameMembership sampleRules [] = .ok sampleMembership := by
  obtain ⟨-, -, -, -, -, -, list, -⟩ := sample_checks
  obtain ⟨data, written, same⟩ := exists_ok_of_any _ _ list
  have pages : recordDigest sampleRules (.list []) = .ok (sampleDigest '1') := by
    rw [recordDigest, written, Except.map]
    change Except.ok (String.ofList (List.replicate 64 (Nat.digitChar (firstByte data % 10)))) = _
    rw [of_decide_eq_true same]
    rfl
  have frame := recordDigest_object (sample_writes (.head _))
  have drawn := recordDigest_object (sample_writes (.tail _ (.head _)))
  rw [← jsonText_sampleDigest] at drawn
  refine bind_eq_ok.mpr ⟨[], rfl, bind_eq_ok.mpr ⟨_, pages, bind_eq_ok.mpr ⟨_, frame,
    bind_eq_ok.mpr ⟨_, drawn, ?_⟩⟩⟩⟩
  rw [require_bind_of ⟨isSha256_sampleDigest rfl, isSha256_sampleDigest rfl,
    isSha256_sampleDigest rfl⟩]
  rw [sampleMembership, ← jsonText_sampleDigest, ← jsonText_sampleDigest]
  rfl

theorem sampleFields_made : ∃ fields,
    authorityFields sampleRules "run-1" (sampleArguments none) = .ok fields ∧
      (fields.map fun field => (str field.1, field.2)) = sampleBase := by
  have ordinals : checkOrdinals [] = .ok () := rfl
  refine ⟨_, require_bind_eq_ok.mpr ⟨isSha256_sampleDigest rfl, bind_eq_ok.mpr ⟨(), rfl,
    require_bind_eq_ok.mpr ⟨by decide, require_bind_eq_ok.mpr ⟨by decide, bind_eq_ok.mpr ⟨(), rfl,
      bind_eq_ok.mpr ⟨(), ordinals, bind_eq_ok.mpr ⟨_, sampleFrame,
        bind_eq_ok.mpr ⟨[], rfl, rfl⟩⟩⟩⟩⟩⟩⟩⟩, ?_⟩
  rw [sampleBase, ← jsonText_sampleDigest]
  rfl

theorem sampleAuthority_made :
    authorityOf sampleRules "run-1" (sampleArguments none) = .ok sampleAuthority := by
  obtain ⟨fields, made, same⟩ := sampleFields_made
  obtain ⟨-, -, -, -, -, -, -, -, base, -⟩ := sample_checks
  obtain ⟨data, written⟩ := sample_writes (.tail _ (.tail _ (.head _)))
  refine bind_eq_ok.mpr ⟨fields, made, ?_⟩
  rw [same]
  refine bind_eq_ok.mpr ⟨str (sampleDigest '3'), ?_, ?_⟩
  · rw [recordHash, base, written, Except.map, hashText, digest_object written]
  · rw [sampleAuthority, ← jsonText_sampleDigest]
    rfl

theorem sampleAuthority_written : ∃ data, recordBytes (.object sampleAuthority) = .ok data ∧
    data.size ≤ maxRecordReadBytes := by
  obtain ⟨-, -, -, -, -, -, -, -, -, small, -⟩ := sample_checks
  obtain ⟨data, written⟩ := sample_writes (.tail _ (.tail _ (.tail _ (.head _))))
  exact ⟨data, written, (recordBytes_size_le written).trans small⟩

/-- The sample run is opened, and its artifacts are bound to its configuration. -/
theorem sampleRun_opened : ∃ opened,
    create sampleRules "run-1" .empty (sampleArguments none) = .ok (opened, false) ∧
    runAuthority sampleRules "run-1" opened = .ok (sampleDigest '0') ∧
    opened.get? samplePath = none := by
  obtain ⟨data, written, small⟩ := sampleAuthority_written
  refine ⟨(Mapping.empty.set sampleSnapshotPath .empty).set runFile data, ?_, ?_, ?_⟩
  · refine bind_eq_ok.mpr ⟨_, sampleAuthority_made, bind_eq_ok.mpr ⟨_, sampleSnapshot_path,
      bind_eq_ok.mpr ⟨_, publishBytes_eq_ok.mpr ⟨sample_inScope (.head _), .inl ⟨rfl, rfl, rfl⟩⟩,
      bind_eq_ok.mpr ⟨data, written, rfl⟩⟩⟩⟩
  · refine runAuthority_stored sampleAuthority_made written small ?_
    rw [Mapping.get?_set, if_pos rfl]
  · obtain ⟨-, -, -, -, -, -, -, -, -, -, apart, -⟩ := sample_checks
    rw [Mapping.get?_set, if_neg (by decide), Mapping.get?_set, if_neg apart]
    rfl

theorem sampleManifest_written {files : Files} {digest : String} {rows : ℤ} {data : ByteArray}
    (authority : runAuthority sampleRules "run-1" files = .ok digest)
    (written : recordBytes (sampleManifest rows).json = .ok data) :
    writeDerived sampleRules "run-1" files (.manifest .exemplar) (sampleManifest rows) =
      .ok (files.set (manifestPath .exemplar) data, false) := by
  have inScope : requireInventoryPath (manifestPath .exemplar) = .ok () :=
    sample_inScope (.tail _ (.head _))
  refine bind_eq_ok.mpr ⟨digest, authority, bind_eq_ok.mpr ⟨(), rfl, bind_eq_ok.mpr ⟨data, written,
    ?_⟩⟩⟩
  rw [if_neg (by simp)]
  exact bind_eq_ok.mpr ⟨(), inScope, rfl⟩

/-- An artifact that was published is refused once the manifest it cites was replaced, and a run is
not opened again with a commit that is not one, though that is no fact it is bound to. -/
theorem publish_citedManifestReplaced :
    (∃ operations changed, publish sampleRules "run-1" (run sampleRules "run-1" .empty operations)
        (.artifact sampleArtifact) = .ok (changed, false) ∧
      ∃ later, ∀ result, publish sampleRules "run-1" (run sampleRules "run-1" changed later)
        (.artifact sampleArtifact) ≠ .ok result) ∧
    (∃ opened, create sampleRules "run-1" .empty (sampleArguments none) = .ok (opened, false) ∧
      ∀ result, create sampleRules "run-1" opened (sampleArguments (some "main")) ≠ .ok result) ∧
    "repository_commit" ∉ boundFields ++ optionalBoundFields := by
  obtain ⟨opened, created, authority, absent⟩ := sampleRun_opened
  obtain ⟨artifact, aimed⟩ := sampleArtifact_target
  obtain ⟨first, second, wroteFirst, digest, small, wroteSecond, other⟩ := sampleManifest_bytes
  refine ⟨?_, ⟨opened, created, ?_⟩, by decide⟩
  · set listed := opened.set (manifestPath .exemplar) first
    have bound : runAuthority sampleRules "run-1" listed = .ok (sampleDigest '0') := by
      rw [← authority]
      exact runAuthority_congr (by rw [Mapping.get?_set, if_neg (by decide)])
    have reached : run sampleRules "run-1" .empty [.create (sampleArguments none),
        .writeDerived (.manifest .exemplar) (sampleManifest 1)] = listed := by
      have first : after sampleRules "run-1" .empty (.create (sampleArguments none)) = opened :=
        after_eq created
      rw [run, List.foldl_cons, first]
      exact after_eq (sampleManifest_written authority wroteFirst)
    have checked : checkPublication sampleRules "run-1" listed (.artifact sampleArtifact) = .ok () := by
      refine bind_eq_ok.mpr ⟨sampleFields, sampleArtifact_read, bind_eq_ok.mpr ⟨(), ?_, ?_⟩⟩
      · refine bind_eq_ok.mpr ⟨true, rfl, require_bind_eq_ok.mpr ⟨rfl, ?_⟩⟩
        exact bind_eq_ok.mpr ⟨_, bound, require_eq_ok.mpr rfl⟩
      · refine forM_eq_ok.mpr fun input member => ?_
        rw [sampleFields, List.mem_singleton] at member
        subst member
        refine bind_eq_ok.mpr ⟨first, readVerified_eq_ok.mpr ⟨by decide, ?_, ?_, ?_⟩, rfl⟩
        · rw [Mapping.get?_set, if_pos rfl]
        · exact small
        · exact digest
    have published : publish sampleRules "run-1" listed (.artifact sampleArtifact) =
        .ok (listed.set samplePath artifact, false) := by
      refine publish_eq_ok.mpr ⟨checked, samplePath, artifact, aimed, publishBytes_eq_ok.mpr ⟨?_,
        .inl ⟨?_, rfl, rfl⟩⟩⟩
      · exact sample_inScope (.tail _ (.tail _ (.head _)))
      · rw [Mapping.get?_set, if_neg (by decide)]
        exact absent
    refine ⟨_, _, by rw [reached, published], [.writeDerived (.manifest .exemplar)
      (sampleManifest 2)], ?_⟩
    have still : runAuthority sampleRules "run-1" (listed.set samplePath artifact) =
        .ok (sampleDigest '0') := by
      rw [← bound]
      exact runAuthority_congr (by rw [Mapping.get?_set, if_neg (by decide)])
    have replaced : (run sampleRules "run-1" (listed.set samplePath artifact) [.writeDerived
        (.manifest .exemplar) (sampleManifest 2)]).get? (manifestPath .exemplar) = some second := by
      have rewritten : after sampleRules "run-1" (listed.set samplePath artifact) (.writeDerived
          (.manifest .exemplar) (sampleManifest 2)) = _ :=
        after_eq (sampleManifest_written still wroteSecond)
      rw [run, List.foldl_cons, rewritten, List.foldl_nil, Mapping.get?_set, if_pos rfl]
    exact publish_citedChanged sampleArtifact_read (List.mem_singleton_self _) replaced other
  · obtain ⟨-, -, -, -, -, -, -, -, -, -, -, refused⟩ := sample_checks
    exact create_refused refused

end Sample

end Verbatus.RunTree
