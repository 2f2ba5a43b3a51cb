import Verbatus.Refusal
import Verbatus.Python.JsonText

namespace Verbatus.Canonical

open Python CodePoint Library

/-- A key of a dict. The encoder writes some keys that are no strings as strings. -/
inductive Key where
  | text (key : Str)
  | other (typeName : String) (written : Str)

/-- A JSON-shaped value. A container has an identity, the same wherever it is shared. -/
inductive Value where
  | none
  | bool (value : Bool)
  | int (value : ℤ)
  | float (printed : Str)
  | str (text : Str)
  | list (identity : ℕ) (items : List Value)
  | tuple (identity : ℕ) (items : List Value)
  | dict (identity : ℕ) (items : List (Key × Value))

def Key.name : Key → Str
  | text key => key
  | other _ written => written

def Key.isText : Key → Bool
  | text _ => true
  | other _ _ => false

/-- The JSON value the encoder writes; a tuple is written as a list. -/
def Value.json : Value → JsonValue
  | none => .null
  | bool value => .bool value
  | int value => .int value
  | float printed => .float printed
  | str text => .str text
  | list _ items => .list (itemsJson items)
  | tuple _ items => .list (itemsJson items)
  | dict _ items => .object (fieldsJson items)
where
  itemsJson : List Value → List JsonValue
    | [] => []
    | item :: items => item.json :: itemsJson items
  fieldsJson : List (Key × Value) → List (Str × JsonValue)
    | [] => []
    | (key, item) :: items => (key.name, item.json) :: fieldsJson items

/-- How much of a value a walk goes over. -/
def Value.size : Value → ℕ
  | list _ items => 1 + itemsSize items
  | tuple _ items => 1 + itemsSize items
  | dict _ items => 1 + fieldsSize items
  | _ => 1
where
  itemsSize : List Value → ℕ
    | [] => 0
    | item :: items => 1 + item.size + itemsSize items
  fieldsSize : List (Key × Value) → ℕ
    | [] => 0
    | (_, item) :: items => 1 + item.size + fieldsSize items

section Places

/-- A character inside `ascii(text)`. -/
def asciiPoint (mark : Char) (point : CodePoint) : String :=
  let code := point.code
  let hex (width : ℕ) := String.ofList
    (List.replicate (width - (Nat.toDigits 16 code).length) '0' ++ Nat.toDigits 16 code)
  if point = scalar mark ∨ point = scalar '\\' then
    String.ofList ('\\' :: point.scalar?.toList)
  else if point = scalar '\n' then "\\n"
  else if point = scalar '\r' then "\\r"
  else if point = scalar '\t' then "\\t"
  else if 0x20 ≤ code ∧ code < 0x7F then String.ofList point.scalar?.toList
  else if code ≤ 0xFF then "\\x" ++ hex 2
  else if code ≤ 0xFFFF then "\\u" ++ hex 4
  else "\\U" ++ hex 8

/-- `ascii(text)` -/
def ascii (text : Str) : String :=
  let mark := if scalar '\'' ∈ text ∧ scalar '"' ∉ text then '"' else '\''
  String.singleton mark ++ String.join (text.map (asciiPoint mark)) ++ String.singleton mark

variable (isPrintable : CodePoint → Bool)

/-- `_segment`: ordinary text as it is, any other safe to print. -/
def segment (key : Str) : String :=
  if key.all isPrintable then String.ofList (key.filterMap scalar?) else ascii key

inductive Crumb where
  | root
  | key (name : Str)
  | index (position : ℕ)

def Crumb.render : Crumb → String
  | root => "$"
  | key name => "." ++ segment isPrintable name
  | index position => s!"[{position}]"

/-- A deep position is rendered as its top, its bottom and the gap between. -/
def maxRenderedCrumbs : ℕ := 32

/-- `_at`: a walk position, whose crumbs are kept from the bottom up. -/
def position (trail : List Crumb) : String :=
  let crumbs := (trail.reverse).map (Crumb.render isPrintable)
  if 2 * maxRenderedCrumbs < crumbs.length then
    let gap := crumbs.length - 2 * maxRenderedCrumbs
    String.join (crumbs.take maxRenderedCrumbs) ++ s!"...({gap} more levels)..." ++
      String.join (crumbs.drop (crumbs.length - maxRenderedCrumbs))
  else String.join crumbs

end Places

/-- `_MAX_INTEGER_MAGNITUDE` -/
def maxIntegerMagnitude : ℤ := 10 ^ 640

/-- `_MAX_CANONICAL_DEPTH` -/
def maxCanonicalDepth : ℕ := 256

section Walk

variable (isPrintable : CodePoint → Bool)

/-- `_enter_container`: refuse a cycle, refuse excessive depth, mark the container open. -/
def enterContainer (container : ℕ) (openPath : List ℕ) (trail : List Crumb) :
    Except Refusal (List ℕ) :=
  if container ∈ openPath then
    .error (.typeError ("structure is recursive or nests too deeply for canonical JSON: " ++
      position isPrintable trail ++
      " contains itself; no canonical artifact can carry it or be hashed against it"))
  else if maxCanonicalDepth < (container :: openPath).length then
    .error (.typeError ("structure is recursive or nests too deeply for canonical JSON: " ++
      position isPrintable trail ++ s!" is past the {maxCanonicalDepth}-level limit; no canonical " ++
      "artifact can carry it or be hashed against it"))
  else .ok (container :: openPath)

inductive Task where
  | value (item : Value) (trail : List Crumb)
  | key (typeName : String) (trail : List Crumb)
  | exit (container : ℕ)

def Task.weight : Task → ℕ
  | value item _ => 2 * item.size
  | key _ _ => 1
  | exit _ => 1

/-- The tasks of a dict's items, in their order; a key that is no string is refused in its turn. -/
def fieldTasks (trail : List Crumb) : List (Key × Value) → List Task
  | [] => []
  | (.text key, item) :: items => .value item (.key key :: trail) :: fieldTasks trail items
  | (.other typeName _, _) :: items => .key typeName trail :: fieldTasks trail items

def itemTasks (trail : List Crumb) : ℕ → List Value → List Task
  | _, [] => []
  | index, item :: items => .value item (.index index :: trail) :: itemTasks trail (index + 1) items

theorem fieldTasks_weight (trail : List Crumb) (items : List (Key × Value)) :
    ((fieldTasks trail items).map Task.weight).sum ≤ 2 * Value.size.fieldsSize items := by
  induction items with
  | nil => exact le_rfl
  | cons item items ih =>
      obtain ⟨key, value⟩ := item
      cases key <;> simp only [fieldTasks, List.map_cons, List.sum_cons, Task.weight,
        Value.size.fieldsSize] <;> omega

theorem itemTasks_weight (trail : List Crumb) (index : ℕ) (items : List Value) :
    ((itemTasks trail index items).map Task.weight).sum ≤ 2 * Value.size.itemsSize items := by
  induction items generalizing index with
  | nil => exact le_rfl
  | cons item items ih =>
      have later := ih (index + 1)
      simp only [itemTasks, List.map_cons, List.sum_cons, Task.weight, Value.size.itemsSize]
      omega

/-- `open_path.discard(container)` -/
def discard (container : ℕ) (openPath : List ℕ) : List ℕ := openPath.filter (· ≠ container)

/-- The loop of `_refuse_floats`; the last pending task of the source is the first one here. -/
def refuseFloats (openPath : List ℕ) (pending : List Task) : Except Refusal Unit :=
  match pending with
  | [] => .ok ()
  | .exit container :: pending => refuseFloats (discard container openPath) pending
  | .key typeName trail :: _ =>
    .error (.typeError s!"non-string key of type {typeName} at {position isPrintable trail}")
  | .value .none _ :: pending | .value (.bool _) _ :: pending | .value (.str _) _ :: pending =>
    refuseFloats openPath pending
  | .value (.float _) trail :: _ =>
    .error (.typeError ("float at " ++ position isPrintable trail ++
      ": canonical artifacts carry integers, not floats — " ++
      "a float's JSON form is not stable enough to hash against"))
  | .value (.int value) trail :: pending =>
    if -maxIntegerMagnitude < value ∧ value < maxIntegerMagnitude then
      refuseFloats openPath pending
    else
      .error (.typeError ("integer at " ++ position isPrintable trail ++
        " exceeds 640 decimal digits: canonical artifacts " ++
        "refuse magnitudes whose JSON conversion depends on the host's " ++
        "integer-string safety limit"))
  | .value (.dict container items) trail :: pending => do
    let openPath ← enterContainer isPrintable container openPath trail
    refuseFloats openPath (fieldTasks trail items ++ .exit container :: pending)
  | .value (.list container items) trail :: pending
  | .value (.tuple container items) trail :: pending => do
    let openPath ← enterContainer isPrintable container openPath trail
    refuseFloats openPath (itemTasks trail 0 items ++ .exit container :: pending)
termination_by (pending.map Task.weight).sum
decreasing_by
  all_goals
    simp only [List.map_cons, List.map_append, List.sum_append, List.sum_cons, Task.weight,
      Value.size]
    try have fields := fieldTasks_weight trail items
    try have listed := itemTasks_weight trail 0 items
    omega

end Walk

section Bytes

variable (isPrintable : CodePoint → Bool)

/-- A position to look at for a text with no UTF-8 form. -/
inductive Probe where
  | value (item : Value) (trail : List Crumb)
  | key (name : Str) (trail : List Crumb)

def Probe.weight : Probe → ℕ
  | value item _ => 2 * item.size
  | key _ _ => 1

/-- The items of a dict under a string. -/
def textFields : List (Key × Value) → List (Str × Value)
  | [] => []
  | (.text key, item) :: items => (key, item) :: textFields items
  | (.other _ _, _) :: items => textFields items

def fieldProbes (trail : List Crumb) (fields : List (Str × Value)) : List Probe :=
  fields.flatMap fun field => [.key field.1 trail, .value field.2 (.key field.1 :: trail)]

def itemProbes (trail : List Crumb) (items : List Value) : List Probe :=
  items.zipIdx.map fun item => .value item.1 (.index item.2 :: trail)

theorem fieldProbes_weight (trail : List Crumb) (items : List (Key × Value)) :
    ((fieldProbes trail (sortBy Prod.fst (textFields items))).map Probe.weight).sum ≤
      2 * Value.size.fieldsSize items := by
  have reordered : (fieldProbes trail (sortBy Prod.fst (textFields items))).Perm
      (fieldProbes trail (textFields items)) := (sortBy_perm _ _).flatMap_right _
  rw [(reordered.map Probe.weight).sum_eq]
  induction items with
  | nil => exact le_rfl
  | cons item items ih =>
      obtain ⟨key, value⟩ := item
      have later := ih ((sortBy_perm _ _).flatMap_right _)
      cases key <;> simp only [textFields, fieldProbes, List.flatMap_cons, List.map_append,
        List.sum_append, List.map_cons, List.map_nil, List.sum_cons, List.sum_nil, Probe.weight,
        Value.size.fieldsSize] at later ⊢ <;> omega

theorem itemProbes_weight (trail : List Crumb) (items : List Value) :
    ((itemProbes trail items).map Probe.weight).sum ≤ 2 * Value.size.itemsSize items := by
  suffices each : ∀ first, ((items.zipIdx first).map fun item =>
      Probe.weight (.value item.1 (.index item.2 :: trail))).sum ≤
        2 * Value.size.itemsSize items by
    rw [itemProbes, List.map_map]
    exact each 0
  induction items with
  | nil => exact fun _ => le_rfl
  | cons item items ih =>
      intro first
      have later := ih (first + 1)
      simp only [List.zipIdx_cons, List.map_cons, List.sum_cons, Probe.weight,
        Value.size.itemsSize] at later ⊢
      omega

/-- The loop of `_unencodable_path`: the first UTF-8 failure in canonical order. -/
def unencodablePath (pending : List Probe) : Option String :=
  match pending with
  | [] => none
  | .key name trail :: pending =>
    if name.Encodable then unencodablePath pending
    else some (position isPrintable trail ++ ", in the key " ++ ascii name)
  | .value (.str text) trail :: pending =>
    if text.Encodable then unencodablePath pending else some (position isPrintable trail)
  | .value (.dict _ items) trail :: pending =>
    unencodablePath (fieldProbes trail (sortBy Prod.fst (textFields items)) ++ pending)
  | .value (.list _ items) trail :: pending | .value (.tuple _ items) trail :: pending =>
    unencodablePath (itemProbes trail items ++ pending)
  | .value .none _ :: pending | .value (.bool _) _ :: pending | .value (.int _) _ :: pending
  | .value (.float _) _ :: pending => unencodablePath pending
termination_by (pending.map Probe.weight).sum
decreasing_by
  all_goals
    simp only [List.map_cons, List.map_append, List.sum_append, List.sum_cons, Probe.weight,
      Value.size]
    try have fields := fieldProbes_weight trail items
    try have listed := itemProbes_weight trail items
    omega

/-- What the encoder raises for one value: an integer over the host's digit limit, or a float
that is not JSON. -/
def unwritable (limit : ℕ) : JsonValue → Option String
  | .int value =>
    if limit < (Nat.toDigits 10 value.natAbs).length then
      some s!"Exceeds the limit ({limit} digits) for integer string conversion"
    else none
  | .float printed =>
    if printed ∈ ["nan", "inf", "-inf"].map fun word => Str.ofChars word.toList then
      some "Out of range float values are not JSON compliant"
    else none
  | _ => none

/-- `json.dumps` with sorted keys and no white space, `ensure_ascii` and `allow_nan` off. -/
def dumps (limit : ℕ) (value : JsonValue) : Except Refusal Str :=
  match value.sorted.parts.findSome? (unwritable limit) with
  | some message => .error (.valueError message)
  | none => .ok value.sorted.write

/-- The first run of surrogates, which the encoding error names. -/
def offender (text : Str) : Str :=
  (text.dropWhile fun point => !point.isSurrogate).takeWhile CodePoint.isSurrogate

/-- `canonical_bytes`; `limit` is the host's integer-to-decimal limit. -/
def canonicalBytes (limit : ℕ) (value : Value) : Except Refusal ByteArray := do
  refuseFloats isPrintable [] [.value value [.root]]
  let text ← dumps limit value.json
  match text.encode with
  | some data => .ok data
  | none =>
    .error (.typeError ("unencodable character " ++ ascii (offender text) ++ " at " ++
      (unencodablePath isPrintable [.value value [.root]]).getD "$" ++
      ": a lone surrogate survives a JSON read but has no UTF-8 form, so no " ++
      "canonical artifact can carry it or be hashed against it"))

variable (sha256 : ByteArray → Str)

def digestOf (limit : ℕ) (value : Value) : Except Refusal Str :=
  (canonicalBytes isPrintable limit value).map sha256

/-- A record without one of its fields. -/
def without (field : Str) (record : List (Key × Value)) : List (Key × Value) :=
  record.filter fun item => match item.1 with
    | .text key => key ≠ field
    | .other _ _ => true

/-- `self_hash`; the copy it makes of the record is an object of its own. -/
def selfHash (limit copy : ℕ) (record : List (Key × Value)) (field : Str) : Except Refusal Str :=
  digestOf isPrintable sha256 limit (.dict copy (without field record))

def stored (field : Str) : List (Key × Value) → Option Value
  | [] => none
  | (.text key, item) :: record => if key = field then some item else stored field record
  | (.other _ _, _) :: record => stored field record

/-- `verify_self_hash`, which catches what `canonical_bytes` raises as a `TypeError`. -/
def verifySelfHash (limit copy : ℕ) (record : List (Key × Value)) (field : Str) :
    Except Refusal Bool :=
  match stored field record with
  | some (.str text) =>
    match selfHash isPrintable sha256 limit copy record field with
    | .ok hash => .ok (text = hash)
    | .error (.typeError _) => .ok false
    | .error raised => .error raised
  | _ => .ok false

end Bytes

end Verbatus.Canonical
