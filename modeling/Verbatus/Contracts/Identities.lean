import Mathlib
import Verbatus.Contracts.CanonicalExact
import Verbatus.Ink.Background

namespace Verbatus.Identities

open Python CodePoint Library Library.Checked Canonical Refusal Ink

/-- What an identity is of. -/
inductive IdentityKind where
  | page
  | act
  | physicalPage
  | physicalAct
  | region
  | attempt
  | artifact
  | lot
  deriving DecidableEq, Repr

def IdentityKind.name : IdentityKind → String
  | page => "page"
  | act => "act"
  | physicalPage => "physical-page"
  | physicalAct => "physical-act"
  | region => "region"
  | attempt => "attempt"
  | artifact => "artifact"
  | lot => "lot"

/-- `_PREFIXES` -/
def IdentityKind.mark : IdentityKind → String
  | page => "pg"
  | act => "act"
  | physicalPage => "ppg"
  | physicalAct => "pac"
  | region => "rgn"
  | attempt => "att"
  | artifact => "art"
  | lot => "lot"

def identityKinds : List IdentityKind :=
  [.page, .act, .physicalPage, .physicalAct, .region, .attempt, .artifact, .lot]

/-- `_DIGEST_CHARS` -/
def digestChars : ℕ := 16

def str (text : String) : Str := Str.ofChars text.toList

theorem str_injective : Function.Injective str := by
  intro first second same
  have characters : first.toList = second.toList :=
    List.map_injective_iff.mpr (fun _ _ => CodePoint.scalar.inj) same
  exact String.toList_injective characters

/-- A dict of the given fields, each under a string. -/
def record (identity : ℕ) (fields : List (String × Value)) : Value :=
  .dict identity (fields.map fun field => (.text (str field.1), field.2))

/-- What an identity's digest is of: the kind beside the bindings. -/
def payload (kind : IdentityKind) (bindings : Value) : Value :=
  record 0 [("kind", .str (str kind.name)), ("bindings", bindings)]

section Records

/-- One identity names one object where no two containers of the value have one identity. -/
theorem sameObjects_of_nodup {parts : List Value} (distinct : (parts.filterMap Value.identity?).Nodup)
    {one other : Value} (first : one ∈ parts) (second : other ∈ parts)
    (container : one.identity?.isSome) (same : one.identity? = other.identity?) : one = other := by
  induction parts with
  | nil => cases first
  | cons part parts ih =>
      obtain ⟨identity, named⟩ := Option.isSome_iff_exists.mp container
      have alike : other.identity? = some identity := same.symm.trans named
      have later {value : Value} (member : value ∈ parts) (found : value.identity? = some identity) :
          identity ∈ parts.filterMap Value.identity? := List.mem_filterMap.mpr ⟨value, member, found⟩
      cases shape : part.identity? with
      | none =>
          rw [List.filterMap_cons_none shape] at distinct
          have below {value : Value} (member : value ∈ part :: parts)
              (found : value.identity? = some identity) : value ∈ parts := by
            rcases List.mem_cons.mp member with rfl | member
            · rw [shape] at found
              cases found
            · exact member
          exact ih distinct (below first named) (below second alike)
      | some own =>
          rw [List.filterMap_cons_some shape, List.nodup_cons] at distinct
          have head {value : Value} (member : value ∈ parts)
              (found : value.identity? = some identity) : part.identity? ≠ some identity := by
            intro equal
            rw [shape, Option.some.injEq] at equal
            exact distinct.1 (equal ▸ later member found)
          rcases List.mem_cons.mp first with rfl | oneBelow
          · rcases List.mem_cons.mp second with rfl | otherBelow
            · rfl
            · exact absurd named (head otherBelow alike)
          · rcases List.mem_cons.mp second with rfl | otherBelow
            · exact absurd alike (head oneBelow named)
            · exact ih distinct.2 oneBelow otherBelow

theorem record_sorted (identity : ℕ) (fields : List (String × Value)) :
    (record identity fields).json.sorted = .object (sortBy Prod.fst
      ((fields.map fun field => (field.1, field.2.json.sorted)).map (Prod.map str id))) := by
  rw [record, Value.json, fieldsJson_eq, JsonValue.sorted, JsonValue.sortedFields_eq, List.map_map,
    List.map_map, List.map_map]
  rfl

/-- Records that are one JSON value hold one value under each key. -/
theorem record_field {identity other : ℕ} {fields others : List (String × Value)}
    (distinct : (fields.map Prod.fst).Nodup)
    (same : (record identity fields).json.sorted = (record other others).json.sorted) (key : String) :
    ((fields.lookup key).map fun value => value.json.sorted) =
      (others.lookup key).map fun value => value.json.sorted := by
  rw [record_sorted, record_sorted, JsonValue.object.injEq] at same
  have reordered := (sortBy_perm Prod.fst _).symm.trans
    ((List.Perm.of_eq same).trans (sortBy_perm Prod.fst _))
  have rows := (List.map_perm_map_iff (str_injective.prodMap Function.injective_id)).mp reordered
  have keys : ((fields.map fun field => (field.1, field.2.json.sorted)).map Prod.fst).Nodup := by
    rwa [List.map_map]
  have found := lookup_perm rows keys key
  rwa [lookup_map fields fun _ value => value.json.sorted,
    lookup_map others fun _ value => value.json.sorted] at found

theorem wellFormed_atom {value : Value} (atom : value.parts = [value])
    (notDict : ∀ identity items, value ≠ .dict identity items) : WellFormed value where
  objects one first other second _ _ := by
    rw [atom, List.mem_singleton] at first second
    rw [first, second]
  keys identity items member := by
    rw [atom, List.mem_singleton] at member
    exact absurd member.symm (notDict identity items)

theorem wellFormed_str (text : Str) : WellFormed (.str text) :=
  wellFormed_atom rfl fun _ _ => nofun

theorem wellFormed_int (value : ℤ) : WellFormed (.int value) :=
  wellFormed_atom rfl fun _ _ => nofun

theorem wellFormed_none : WellFormed .none := wellFormed_atom rfl fun _ _ => nofun

/-- A record of values that are well formed, of containers with identities of their own. -/
theorem wellFormed_record {identity : ℕ} {fields : List (String × Value)}
    (distinct : (fields.map Prod.fst).Nodup) (each : ∀ field ∈ fields, WellFormed field.2)
    (apart : ((record identity fields).parts.filterMap Value.identity?).Nodup) :
    WellFormed (record identity fields) where
  objects _ first _ second := sameObjects_of_nodup apart first second
  keys other items member := by
    rw [record, Value.parts_eq] at member
    rcases List.mem_cons.mp member with same | below
    · cases same
      have keys (rows : List (String × Value)) : (textFields (rows.map fun field =>
          (.text (str field.1), field.2))).map Prod.fst = (rows.map Prod.fst).map str := by
        induction rows with
        | nil => rfl
        | cons row rows ih => rw [List.map_cons, textFields, List.map_cons, ih]; rfl
      rw [keys]
      exact distinct.map str_injective
    · obtain ⟨child, given, inside⟩ := List.mem_flatMap.mp below
      rw [Value.children, List.map_map] at given
      obtain ⟨field, listed, rfl⟩ := List.mem_map.mp given
      exact (each field listed).keys other items inside

end Records

section Derive

variable (isPrintable : CodePoint → Bool) (sha256 : ByteArray → Str) (limit : ℕ)

/-- What an identity keeps of the digest of some bytes. -/
def shortDigest (data : ByteArray) : Str := (sha256 data).take digestChars

/-- The identity of a kind bound to exactly the bindings. -/
def derive (kind : IdentityKind) (bindings : Value) : Except Refusal Str := do
  let digest ← digestOf isPrintable sha256 limit (payload kind bindings)
  .ok (str (kind.mark ++ "_") ++ digest.take digestChars)

/-- No two of the values that are hashed share what an identity keeps of their digests. -/
def Apart (hashed : Set Value) : Prop :=
  ∀ first ∈ hashed, ∀ second ∈ hashed, ∀ data others,
    canonicalBytes isPrintable limit first = .ok data →
    canonicalBytes isPrintable limit second = .ok others →
    shortDigest sha256 data = shortDigest sha256 others → data = others

variable {isPrintable sha256 limit}

theorem derive_eq_ok {kind : IdentityKind} {bindings : Value} {identity : Str} :
    derive isPrintable sha256 limit kind bindings = .ok identity ↔
      ∃ data, canonicalBytes isPrintable limit (payload kind bindings) = .ok data ∧
        identity = str (kind.mark ++ "_") ++ shortDigest sha256 data := by
  rw [derive, digestOf]
  cases hashed : canonicalBytes isPrintable limit (payload kind bindings) with
  | error raised => simp [Except.map, Bind.bind, Except.bind]
  | ok data => simp [Except.map, Bind.bind, Except.bind, shortDigest, eq_comm]

/-- One identity binds one JSON value, where no two of the values hashed share a digest. -/
theorem derive_injective (host : 640 ≤ limit) {hashed : Set Value}
    (apart : Apart isPrintable sha256 limit hashed) {kind : IdentityKind} {bindings others : Value}
    (formed : WellFormed (payload kind bindings)) (otherFormed : WellFormed (payload kind others))
    (member : payload kind bindings ∈ hashed) (otherMember : payload kind others ∈ hashed)
    {identity : Str} (first : derive isPrintable sha256 limit kind bindings = .ok identity)
    (second : derive isPrintable sha256 limit kind others = .ok identity) :
    bindings.json.sorted = others.json.sorted := by
  obtain ⟨data, written, rfl⟩ := derive_eq_ok.mp first
  obtain ⟨bytes, otherWritten, same⟩ := derive_eq_ok.mp second
  have digests := List.append_cancel_left same
  have equal := apart _ member _ otherMember data bytes written otherWritten digests
  subst equal
  have payloads := canonicalBytes_injective formed host otherFormed written otherWritten
  have field := record_field (by simp) payloads "bindings"
  simpa [List.lookup] using field

end Derive

section Shapes

def isLowerHex (point : CodePoint) : Bool :=
  point.scalar?.any fun character => character.isDigit || ('a' ≤ character && character ≤ 'f')

/-- A mark and the digits of a short digest after it. -/
def hasShape (kind : IdentityKind) (identity : Str) : Bool :=
  let mark := str (kind.mark ++ "_")
  let digest := identity.drop mark.length
  mark.isPrefixOf identity && digest.length = digestChars && digest.all isLowerHex

/-- `_ID_PATTERN.match`; the `$` of a pattern also matches before a last line feed. -/
def isWellFormed (identity : Str) : Bool :=
  let body := if identity.getLast? = some (scalar '\n') then identity.dropLast else identity
  identityKinds.any fun kind => hasShape kind body

/-- `_identity` -/
def checkIdentity (value : Str) (kind : IdentityKind) (what : String) : Except Refusal Unit :=
  require (isWellFormed value ∧ (str (kind.mark ++ "_")).isPrefixOf value)
    (.identityRefusal s!"{what} must be a well-formed {kind.mark}_ identity")

/-- `_bounds` -/
def checkBounds (bounds : Bounds) (what : String) : Except Refusal Unit :=
  require (0 ≤ bounds.x ∧ 0 ≤ bounds.y ∧ 0 < bounds.w ∧ 0 < bounds.h)
    (.identityRefusal
      (what ++ " must have non-negative integer x/y and positive integer w/h"))

end Shapes

section Acts

/-- The classes of an act bound to a rectangle. -/
def actClasses : List String := ["proposal", "residual", "page-fallback", "page-residual"]

/-- The classes of an entry of a page reading. -/
def readingActClasses : List String := ["reading", "reading-unplaced"]

/-- The classes of a page that stands for itself. -/
def pageReadingRowClasses : List String := ["page-unread", "page-blank"]

/-- A page-reading entry's binding: its reading's attempt, its number and its union box. -/
structure ReadingBinding where
  pageReading : Str
  n : ℤ
  unionBoxPx : Option Bounds

/-- What an act is bound to beside its page and class. -/
inductive ActBounds where
  | rectangle (bounds : Bounds)
  | reading (binding : ReadingBinding)

def boundsValue (identity : ℕ) (bounds : Bounds) : Value :=
  record identity [("x", .int bounds.x), ("y", .int bounds.y), ("w", .int bounds.w),
    ("h", .int bounds.h)]

def ReadingBinding.value (binding : ReadingBinding) : Value :=
  record 2 [("page_reading", .str binding.pageReading), ("n", .int binding.n),
    ("union_box_px", match binding.unionBoxPx with
      | some box => boundsValue 3 box
      | none => .none)]

def ActBounds.value : ActBounds → Value
  | rectangle bounds => boundsValue 2 bounds
  | reading binding => binding.value

/-- `_reading_binding` -/
def checkReadingBinding (bounds : ActBounds) (actClass : String) : Except Refusal Unit :=
  match bounds with
  | .rectangle _ => .error (.identityRefusal ("a page-reading act binding must be the closed " ++
      "record ['n', 'page_reading', 'union_box_px']"))
  | .reading binding => do
    checkIdentity binding.pageReading .attempt "the page reading attempt"
    require (1 ≤ binding.n) (.identityRefusal "a page-reading act's n must be a positive integer")
    match binding.unionBoxPx with
    | some box =>
      if actClass = "reading" then checkBounds box "a page-reading act's union box"
      else .error (.identityRefusal "an unplaced page-reading act binds no box")
    | none =>
      require (actClass ≠ "reading") (.identityRefusal
        "a page-reading act's union box must be the closed record ['h', 'w', 'x', 'y']")

def actRecord (page : Str) (actClass : String) (bounds : ActBounds) : Value :=
  record 1 [("page_id", .str page), ("class", .str (str actClass)), ("bounds", bounds.value)]

/-- An act binds its page, its class and its originally minted bounds. -/
def actBindings (page : Str) (actClass : String) (bounds : ActBounds) : Except Refusal Value :=
  if actClass ∈ readingActClasses then do
    checkIdentity page .page "act page"
    checkReadingBinding bounds actClass
    .ok (actRecord page actClass bounds)
  else if actClass ∉ actClasses ++ pageReadingRowClasses then
    .error (.identityRefusal ("act class must be one of " ++ ", ".intercalate
      ((sortedSet (actClasses ++ readingActClasses ++ pageReadingRowClasses)).map quote)))
  else do
    checkIdentity page .page "act page"
    match bounds with
    | .rectangle box => checkBounds box "act bounds"
    | .reading _ =>
      .error (.identityRefusal "act bounds must be the closed record ['h', 'w', 'x', 'y']")
    .ok (actRecord page actClass bounds)

/-- An attempt is the nth time one operation was tried on one subject. -/
def attemptBindings (subject : Str) (operation : String) (ordinal : ℤ) : Value :=
  record 1 [("subject_id", .str subject), ("operation", .str (str operation)),
    ("ordinal", .int ordinal)]

theorem boundsValue_wellFormed (identity : ℕ) (bounds : Bounds) :
    WellFormed (boundsValue identity bounds) := by
  apply wellFormed_record (by simp)
  · simp [wellFormed_int]
  · simp [record, Value.parts, Value.parts.fieldParts, Value.identity?, List.filterMap]

theorem readingBinding_wellFormed (binding : ReadingBinding) : WellFormed binding.value := by
  obtain ⟨pageReading, n, unionBox⟩ := binding
  cases unionBox with
  | none =>
      apply wellFormed_record (by simp)
      · simp [wellFormed_int, wellFormed_str, wellFormed_none]
      · simp [record, Value.parts, Value.parts.fieldParts, Value.identity?, List.filterMap]
  | some box =>
      apply wellFormed_record (by simp)
      · simp [wellFormed_int, wellFormed_str, boundsValue_wellFormed]
      · simp [record, boundsValue, Value.parts, Value.parts.fieldParts, Value.identity?,
          List.filterMap]

theorem actPayload_wellFormed (page : Str) (actClass : String) (binding : ReadingBinding) :
    WellFormed (payload .act (actRecord page actClass (.reading binding))) := by
  have bound : WellFormed (actRecord page actClass (.reading binding)) := by
    apply wellFormed_record (by simp)
    · simp [wellFormed_str, ActBounds.value, readingBinding_wellFormed]
    · obtain ⟨pageReading, n, unionBox⟩ := binding
      cases unionBox <;> simp [record, ActBounds.value, ReadingBinding.value, boundsValue,
        Value.parts, Value.parts.fieldParts, Value.identity?, List.filterMap]
  apply wellFormed_record (by simp)
  · simp [wellFormed_str, bound]
  · obtain ⟨pageReading, n, unionBox⟩ := binding
    cases unionBox <;> simp [actRecord, record, ActBounds.value, ReadingBinding.value, boundsValue,
      Value.parts, Value.parts.fieldParts, Value.identity?, List.filterMap]

theorem attemptPayload_wellFormed (subject : Str) (operation : String) (ordinal : ℤ) :
    WellFormed (payload .attempt (attemptBindings subject operation ordinal)) := by
  have bound : WellFormed (attemptBindings subject operation ordinal) := by
    apply wellFormed_record (by simp)
    · simp [wellFormed_int, wellFormed_str]
    · simp [record, Value.parts, Value.parts.fieldParts, Value.identity?, List.filterMap]
  apply wellFormed_record (by simp)
  · simp [wellFormed_str, bound]
  · simp [attemptBindings, record, Value.parts, Value.parts.fieldParts, Value.identity?,
      List.filterMap]

variable (isPrintable : CodePoint → Bool) (sha256 : ByteArray → Str) (limit : ℕ)

def actId (page : Str) (actClass : String) (bounds : ActBounds) : Except Refusal Str := do
  let bindings ← actBindings page actClass bounds
  derive isPrintable sha256 limit .act bindings

def attemptId (subject : Str) (operation : String) (ordinal : ℤ) : Except Refusal Str :=
  derive isPrintable sha256 limit .attempt (attemptBindings subject operation ordinal)

/-- A value no part of which makes the canonical encoding refuse it. -/
def Harmless (value : Value) : Prop := ∀ part ∈ value.parts, ¬ Offends part

theorem harmless_str {text : Str} (encodable : text.Encodable) : Harmless (.str text) := by
  simpa [Harmless, Value.parts, Offends] using encodable

theorem harmless_int {value : ℤ} (small : |value| < maxIntegerMagnitude) : Harmless (.int value) := by
  simpa [Harmless, Value.parts, Offends] using small

theorem harmless_none : Harmless .none := by simp [Harmless, Value.parts, Offends]

theorem harmless_record {identity : ℕ} {fields : List (String × Value)}
    (each : ∀ field ∈ fields, Harmless field.2) : Harmless (record identity fields) := by
  intro part member
  rw [record, Value.parts_eq] at member
  rcases List.mem_cons.mp member with rfl | below
  · rintro ⟨item, listed, offending⟩
    obtain ⟨field, -, rfl⟩ := List.mem_map.mp listed
    exact offending _ rfl (Str.encodable_ofChars _)
  · obtain ⟨child, given, inside⟩ := List.mem_flatMap.mp below
    rw [Value.children, List.map_map] at given
    obtain ⟨field, listed, rfl⟩ := List.mem_map.mp given
    exact each field listed part inside

/-- What is hashed for an identity is written, where no part of the bindings is refused. -/
theorem canonicalBytes_returns (host : 640 ≤ limit) {kind : IdentityKind} {bindings : Value}
    (formed : WellFormed (payload kind bindings)) (harmless : Harmless bindings)
    (shallow : (payload kind bindings).depth ≤ maxCanonicalDepth) :
    ∃ data, canonicalBytes isPrintable limit (payload kind bindings) = .ok data := by
  have whole : Harmless (payload kind bindings) := by
    apply harmless_record
    simp [harmless, harmless_str (Str.encodable_ofChars _), str]
  cases written : canonicalBytes isPrintable limit (payload kind bindings) with
  | ok data => exact ⟨data, rfl⟩
  | error raised =>
      rcases (canonicalBytes_refuses_iff formed host).mp ⟨raised, written⟩ with
        deep | ⟨part, member, offends⟩
      · exact absurd deep (Nat.not_lt.mpr shallow)
      · exact absurd offends (whole part member)

variable {isPrintable sha256 limit}

/-- One attempt identity is of one subject and one ordinal. -/
theorem attemptId_injective (host : 640 ≤ limit) {hashed : Set Value}
    (apart : Apart isPrintable sha256 limit hashed) {subject other : Str} {operation : String}
    {ordinal number : ℤ} (member : payload .attempt (attemptBindings subject operation ordinal) ∈ hashed)
    (otherMember : payload .attempt (attemptBindings other operation number) ∈ hashed) {identity : Str}
    (first : attemptId isPrintable sha256 limit subject operation ordinal = .ok identity)
    (second : attemptId isPrintable sha256 limit other operation number = .ok identity) :
    subject = other ∧ ordinal = number := by
  have same := derive_injective host apart (attemptPayload_wellFormed ..)
    (attemptPayload_wellFormed ..) member otherMember first second
  have subjects := record_field (by simp) same "subject_id"
  have ordinals := record_field (by simp) same "ordinal"
  simp [List.lookup, Value.json, JsonValue.sorted] at subjects ordinals
  exact ⟨subjects, ordinals⟩

/-- One act identity of a page reading's entry is of one page, one reading and one number. -/
theorem actId_injective (host : 640 ≤ limit) {hashed : Set Value}
    (apart : Apart isPrintable sha256 limit hashed) {page other : Str} {actClass otherClass : String}
    {binding others : ReadingBinding}
    (member : payload .act (actRecord page actClass (.reading binding)) ∈ hashed)
    (otherMember : payload .act (actRecord other otherClass (.reading others)) ∈ hashed)
    {identity : Str}
    (first : derive isPrintable sha256 limit .act (actRecord page actClass (.reading binding)) =
      .ok identity)
    (second : derive isPrintable sha256 limit .act (actRecord other otherClass (.reading others)) =
      .ok identity) :
    page = other ∧ binding.pageReading = others.pageReading ∧ binding.n = others.n := by
  have same := derive_injective host apart (actPayload_wellFormed ..) (actPayload_wellFormed ..)
    member otherMember first second
  have pages := record_field (by simp) same "page_id"
  have bounds := record_field (by simp) same "bounds"
  simp only [List.lookup, ActBounds.value] at pages bounds
  simp [Value.json, JsonValue.sorted] at pages
  simp only [beq_self_eq_true, String.reduceBEq, Option.map_some, Option.some.injEq] at bounds
  have readings := record_field (by simp) bounds "page_reading"
  have numbers := record_field (by simp) bounds "n"
  simp [List.lookup, Value.json, JsonValue.sorted] at readings numbers
  exact ⟨pages, readings, numbers⟩

end Acts

end Verbatus.Identities
