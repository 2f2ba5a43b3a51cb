import Verbatus.Pod.Provider

namespace Verbatus.Pod

open Library Library.Checked Refusal Python CodePoint Canonical
open Identities (str)

/-- The facts a create is recovered from. -/
structure IntentFields where
  name : String
  gpuType : String
  image : String
  volumeId : String
  volumeMountPath : String
  dockerStartCmd : List String
  hardDeadline : Instant
  repositoryCommit : String
  launchToken : String
  podHourlyUsd : Decimal
  volumeHourlyUsd : Decimal
  billingCutoffMarginSeconds : ℤ
  template : Option String
  deriving DecidableEq

/-- What the lease records are told by the host: its clock texts, its decimal texts, its digest,
and the checks of a pod request. -/
structure LeaseRules where
  digestText : ByteArray → Str
  stamp : Instant → String
  readStamp : Str → Option Instant
  readStamp_stamp : ∀ time, readStamp (str (stamp time)) = some time
  stamp_ne_empty : ∀ time, stamp time ≠ ""
  printDecimal : Decimal → String
  readDecimal : Str → Option Decimal
  readDecimal_print : ∀ amount, amount.isMoney = true →
    readDecimal (str (printDecimal amount)) = some amount
  repr : JsonValue → String
  lower : Str → Str
  checkRequest : IntentFields → Except Refusal Unit

section Intent

variable (rules : LeaseRules)

def maxBillingCutoffMarginSeconds : ℤ := 3600

/-- `require_billing_cutoff_margin_seconds` -/
def requireMargin (value : ℤ) (label : String) : Except Refusal Unit :=
  require (0 ≤ value ∧ value ≤ maxBillingCutoffMarginSeconds) (.valueError
    s!"{label} must be between 0 and {maxBillingCutoffMarginSeconds} seconds")

def checkIntent (fields : IntentFields) : Except Refusal Unit := do
  let _ ← asDecimal fields.podHourlyUsd "pending create pod rate"
  let _ ← asDecimal fields.volumeHourlyUsd "pending create volume rate"
  requireMargin fields.billingCutoffMarginSeconds "pending create billing cutoff margin"
  rules.checkRequest fields

/-- Facts a create can be recovered from. -/
structure PendingCreateIntent where
  fields : IntentFields
  accepted : checkIntent rules fields = .ok ()

def optionalText : Option String → JsonValue
  | none => .null
  | some text => .str (str text)

def text (value : String) : JsonValue := .str (str value)

/-- `PendingCreateIntent.to_record` -/
def intentRecord (fields : IntentFields) : List (String × JsonValue) :=
  [("name", text fields.name), ("gpu_type", text fields.gpuType), ("image", text fields.image),
    ("volume_id", text fields.volumeId), ("volume_mount_path", text fields.volumeMountPath),
    ("docker_start_cmd", .list (fields.dockerStartCmd.map text)),
    ("hard_deadline", text (rules.stamp fields.hardDeadline)),
    ("repository_commit", text fields.repositoryCommit),
    ("launch_token", text fields.launchToken),
    ("pod_hourly_usd", text (rules.printDecimal fields.podHourlyUsd)),
    ("volume_hourly_usd", text (rules.printDecimal fields.volumeHourlyUsd)),
    ("billing_cutoff_margin_seconds", .int fields.billingCutoffMarginSeconds),
    ("template", optionalText fields.template)]

def intentNames : List String := ["name", "gpu_type", "image", "volume_id", "volume_mount_path",
  "docker_start_cmd", "hard_deadline", "repository_commit", "launch_token", "pod_hourly_usd",
  "volume_hourly_usd", "billing_cutoff_margin_seconds", "template"]

/-- A text where the constructor takes one. -/
def readText (what : String) : JsonValue → Except Refusal String
  | .str value => .ok (plainText value)
  | _ => .error (.leaseFormat s!"pending create intent is invalid: {what} is no string")

def readOptionalText (what : String) : JsonValue → Except Refusal (Option String)
  | .null => .ok none
  | value => (readText what value).map some

def readTexts : JsonValue → Except Refusal (List String)
  | .list items => items.mapM (readText "docker_start_cmd")
  | _ => .error (.leaseFormat "pending create command must be a string list")

def readInteger (what : String) : JsonValue → Except Refusal ℤ
  | .int value => .ok value
  | _ => .error (.leaseFormat (what ++ " must be integer"))

/-- `str(value)` -/
def textOf : JsonValue → Str
  | .str value => value
  | value => str (rules.repr value)

/-- `Decimal(str(value))` -/
def readDecimal (what : String) (value : JsonValue) : Except Refusal Decimal :=
  match rules.readDecimal (textOf rules value) with
  | some amount => .ok amount
  | none => .error (.arithmeticError (what ++ " is not decimal money"))

/-- `_parse_stamp` -/
def parseStamp (label : String) : JsonValue → Except Refusal Instant
  | .str value =>
    match rules.readStamp value with
    | some time => .ok time
    | none => .error (.leaseFormat (label ++ " is not RFC3339 UTC"))
  | _ => .error (.leaseFormat (label ++ " is not an RFC3339 string"))

/-- A record whose constructor refuses it is no lease record. -/
def invalid {α : Type} (what : String) : Except Refusal α → Except Refusal α
  | .ok value => .ok value
  | .error (.valueError message) => .error (.leaseFormat (what ++ message))
  | .error (.typeError message) => .error (.leaseFormat (what ++ message))
  | .error raised => .error raised

def buildIntent (fields : IntentFields) : Except Refusal (PendingCreateIntent rules) :=
  match accepted : checkIntent rules fields with
  | .ok () => .ok ⟨fields, accepted⟩
  | .error raised => .error raised

/-- `PendingCreateIntent.from_record` -/
def intentFromRecord (record : List (Str × JsonValue)) :
    Except Refusal (PendingCreateIntent rules) := do
  require (hasExactly intentNames record = true)
    (.leaseFormat "pending create intent has missing or unknown fields")
  let command ← readTexts (fieldOf "docker_start_cmd" record)
  let deadline ← parseStamp rules "pending create hard_deadline" (fieldOf "hard_deadline" record)
  let name ← readText "name" (fieldOf "name" record)
  let gpuType ← readText "gpu_type" (fieldOf "gpu_type" record)
  let image ← readText "image" (fieldOf "image" record)
  let volumeId ← readText "volume_id" (fieldOf "volume_id" record)
  let mountPath ← readText "volume_mount_path" (fieldOf "volume_mount_path" record)
  let commit ← readText "repository_commit" (fieldOf "repository_commit" record)
  let token ← readText "launch_token" (fieldOf "launch_token" record)
  let podRate ← readDecimal rules "pending create pod rate" (fieldOf "pod_hourly_usd" record)
  let volumeRate ← readDecimal rules "pending create volume rate"
    (fieldOf "volume_hourly_usd" record)
  let margin ← readInteger "pending create billing cutoff margin"
    (fieldOf "billing_cutoff_margin_seconds" record)
  let template ← readOptionalText "template" (fieldOf "template" record)
  invalid "pending create intent is invalid: " (buildIntent rules
    ⟨name, gpuType, image, volumeId, mountPath, command, deadline, commit, token, podRate,
      volumeRate, margin, template⟩)

end Intent

/-- How far a lease has come. -/
inductive Phase where
  | pendingCreate
  | active
  | closeUnverified
  | closedVerified
  deriving DecidableEq

def Phase.text : Phase → String
  | pendingCreate => "pending-create"
  | active => "active"
  | closeUnverified => "close-unverified"
  | closedVerified => "closed-verified"

def phases : List Phase := [.pendingCreate, .active, .closeUnverified, .closedVerified]

/-- The values of a lease. -/
structure LeaseFields (rules : LeaseRules) where
  leaseId : String
  launchToken : String
  providerName : String
  podId : Option String
  volumeId : String
  podHourlyUsd : Decimal
  volumeHourlyUsd : Decimal
  createdAt : Instant
  startedAt : Option Instant
  hardDeadline : Instant
  ownerToken : String
  heartbeatAt : Instant
  generation : ℤ
  phase : Phase
  closeRecord : Option Payload
  pendingCreate : Option (PendingCreateIntent rules)
  controllerRecord : Option Payload
  pendingRecoveryAttempts : ℤ

section Validation

variable (rules : LeaseRules)

def credentialMarkers : List String := ["key", "secret", "password", "credential", "bearer", "token"]

/-- `looks_like_credential_field` -/
def looksLikeCredentialField (name : Str) : Bool :=
  let normalized := (rules.lower name).map fun point =>
    if point = scalar '-' then scalar '_' else point
  credentialMarkers.any fun marker => decide (str marker <:+: normalized)

/-- `assert_nonsecret_receipt` -/
def secretFree : JsonValue → Bool
  | .object fields => freeFields fields
  | .list items => freeItems items
  | _ => true
where
  freeItems : List JsonValue → Bool
    | [] => true
    | item :: items => secretFree item && freeItems items
  freeFields : List (Str × JsonValue) → Bool
    | [] => true
    | (key, item) :: fields =>
      !looksLikeCredentialField rules key && secretFree item && freeFields fields

def controllerNames : List String :=
  ["laptop_supervisor_started", "pod_timer_acknowledged", "observed_at", "detail", "receipt"]

def receiptNames : List String :=
  ["lease_id", "pod_id", "hard_deadline", "laptop_supervisor", "pod_timer"]

/-- A text that is not blank. -/
def isNamed : JsonValue → Bool
  | .str value => !isBlank value
  | _ => false

/-- `PurePosixPath(value).is_absolute()` of a text. -/
def isAbsolutePath : JsonValue → Bool
  | .str value => decide (value.head? = some (scalar '/'))
  | _ => false

/-- The dict under a key, or nothing where there is no dict. -/
def dictUnder (name : String) (fields : List (Str × JsonValue)) : Option (List (Str × JsonValue)) :=
  match field? name fields with
  | some (.object inner) => some inner
  | _ => none

/-- A controller's observation lies in the lease's lifetime. -/
def checkLifetime (label : String) (time createdAt hardDeadline : Instant) : Except Refusal Unit :=
  require (createdAt ≤ time ∧ time ≤ hardDeadline)
    (.valueError (label ++ " lies outside this lease's lifetime"))

/-- The dict under a key, with these keys and no others. -/
def exactDict (name : String) (names : List String) (fields : List (Str × JsonValue))
    (message : String) : Except Refusal (List (Str × JsonValue)) :=
  match dictUnder name fields with
  | some inner =>
    if hasExactly names inner then .ok inner else .error (.valueError message)
  | none => .error (.valueError message)

/-- The laptop supervisor's and the pod timer's part of a receipt. -/
def checkComponents (receipt : List (Str × JsonValue)) (observedAt createdAt hardDeadline : Instant) :
    Except Refusal Unit := do
  let supervisor ← exactDict "laptop_supervisor" ["identity", "started_at"] receipt
    "controller receipt lacks a bound laptop-supervisor observation"
  let timer ← exactDict "pod_timer" ["report_path", "acknowledged_at"] receipt
    "controller receipt lacks a bound pod-timer acknowledgement"
  require (isNamed (fieldOf "identity" supervisor) = true)
    (.valueError "controller receipt laptop-supervisor identity must be non-blank")
  let started ← parseStamp rules "controller receipt laptop supervisor start"
    (fieldOf "started_at" supervisor)
  require (isAbsolutePath (fieldOf "report_path" timer) = true)
    (.valueError "controller receipt pod timer report path must be absolute")
  let acknowledged ← parseStamp rules "controller receipt pod timer acknowledgement"
    (fieldOf "acknowledged_at" timer)
  checkLifetime "controller receipt observed_at" observedAt createdAt hardDeadline
  checkLifetime "controller receipt laptop supervisor start" started createdAt hardDeadline
  checkLifetime "controller receipt pod timer acknowledgement" acknowledged createdAt hardDeadline
  require (started ≤ observedAt ∧ acknowledged ≤ observedAt)
    (.valueError "controller component observation cannot occur after its receipt")

/-- What a receipt is bound to. -/
def checkReceipt (receipt : List (Str × JsonValue)) (leaseId podId : String)
    (observedAt createdAt hardDeadline : Instant) : Except Refusal Unit := do
  require (secretFree rules (.object receipt) = true)
    (.valueError "controller receipt must not retain credential or token material")
  require (hasExactly receiptNames receipt = true)
    (.valueError "controller receipt must contain only complete lease/pod/deadline bindings")
  require (field? "lease_id" receipt = some (text leaseId) ∧
      field? "pod_id" receipt = some (text podId))
    (.valueError "controller receipt is not bound to this exact lease and pod")
  require (field? "hard_deadline" receipt = some (text (rules.stamp hardDeadline)))
    (.valueError "controller receipt is not bound to this immutable hard deadline")
  checkComponents rules receipt observedAt createdAt hardDeadline

/-- `_validate_controller_record` -/
def validateControllerRecord (value : List (Str × JsonValue)) (leaseId : String)
    (podId : Option String) (createdAt hardDeadline : Instant) : Except Refusal Unit := do
  require (hasExactly controllerNames value = true)
    (.valueError "controller receipt has missing or unknown fields")
  require (field? "laptop_supervisor_started" value = some (.bool true) ∧
      field? "pod_timer_acknowledged" value = some (.bool true))
    (.valueError "controller receipt must prove both laptop supervisor and pod timer")
  let observedAt ← parseStamp rules "controller receipt observed_at" (fieldOf "observed_at" value)
  require (isNamed (fieldOf "detail" value) = true)
    (.valueError "controller receipt detail must be non-blank")
  match dictUnder "receipt" value, podId with
  | none, _ => .error (.valueError "controller receipt payload must be an object")
  | some _, none => .error (.valueError
      "controller receipt cannot prove a pod before exact pod binding")
  | some receipt, some podId =>
    checkReceipt rules receipt leaseId podId observedAt createdAt hardDeadline

/-- Whether a close record proves a verified close. -/
def closeVerified (value : List (Str × JsonValue)) : Bool :=
  match dictUnder "cost_capture" value with
  | none => false
  | some capture =>
    decide (field? "state" value = some (text "verified")) &&
    decide (field? "pod_get_absent" value = some (.bool true)) &&
    decide (field? "pod_list_absent" value = some (.bool true)) &&
    decide (field? "state" capture = some (text "captured")) &&
    (match field? "lines" capture with
      | some (.list lines) => !lines.isEmpty
      | _ => false) &&
    pythonEqual (fieldOf "cutoff_at" capture) (fieldOf "cutoff_at" value) &&
    decide (fieldOf "manual_action" value = .null)

/-- The pod a close record is about. -/
def checkBound (value : List (Str × JsonValue)) (podId : Option String) (verified bindPod : Bool) :
    Except Refusal Unit :=
  match podId with
  | none =>
    require (¬ (bindPod = true ∧ verified = true))
      (.valueError "verified close evidence must name the exact pod it observed absent")
  | some podId =>
    require (field? "pod_id" value = some (text podId))
      (.valueError "close record is not bound to this exact pod")

/-- `_validate_close_record` of a record that is there. -/
def validateCloseRecord (value : List (Str × JsonValue)) (podId : Option String)
    (verified bindPod : Bool) : Except Refusal Unit := do
  checkBound value podId verified bindPod
  if verified then
    require (closeVerified value = true)
      (.valueError "verified lease phase requires complete verified close evidence")
  else
    require (field? "state" value ≠ some (text "verified"))
      (.valueError "unverified lease phase cannot carry verified close evidence")

def checkNamed (label value : String) : Except Refusal Unit :=
  require (isBlank (str value) = false) (.valueError s!"lease {label} must be non-blank")

/-- Thirty-two lowercase hexadecimal characters. -/
def isToken (value : String) : Bool :=
  value.length = 32 && value.toList.all fun character =>
    character.isDigit || ('a' ≤ character && character ≤ 'f')

def checkController (fields : LeaseFields rules) : Except Refusal Unit :=
  match fields.controllerRecord with
  | none => .ok ()
  | some record => validateControllerRecord rules record.fields fields.leaseId fields.podId
      fields.createdAt fields.hardDeadline

def checkClose (fields : LeaseFields rules) : Except Refusal Unit :=
  match fields.phase, fields.closeRecord with
  | .closeUnverified, some record => validateCloseRecord record.fields fields.podId false true
  | .closedVerified, some record => validateCloseRecord record.fields fields.podId true true
  | .closeUnverified, none | .closedVerified, none =>
    .error (.valueError "terminal lease must carry a close record")
  | _, close => require (close.isNone = true)
      (.valueError "non-terminal lease cannot carry a close record")

/-- `PodLease.__post_init__` -/
def checkLease (fields : LeaseFields rules) : Except Refusal Unit := do
  checkNamed "lease_id" fields.leaseId
  checkNamed "launch_token" fields.launchToken
  checkNamed "provider_name" fields.providerName
  checkNamed "volume_id" fields.volumeId
  checkNamed "owner_token" fields.ownerToken
  require (isToken fields.leaseId = true)
    (.valueError "lease_id must be 32 lowercase random hexadecimal characters")
  require (isToken fields.launchToken = true)
    (.valueError "launch_token must be 32 lowercase random hexadecimal characters")
  require (∀ podId ∈ fields.podId, isBlank (str podId) = false)
    (.valueError "lease pod_id must be non-blank when present")
  let _ ← asDecimal fields.podHourlyUsd "lease pod rate"
  let _ ← asDecimal fields.volumeHourlyUsd "lease volume rate"
  require (fields.createdAt < fields.hardDeadline)
    (.valueError "lease hard deadline must be after creation")
  require (1 ≤ fields.generation) (.valueError "lease generation must be positive")
  require (0 ≤ fields.pendingRecoveryAttempts)
    (.valueError "pending recovery attempts must be a non-negative integer")
  require (fields.phase = .pendingCreate → fields.pendingCreate.isSome = true)
    (.valueError "pending-create lease must retain its non-secret recovery intent")
  require (fields.phase = .active → fields.podId.isSome = true)
    (.valueError "non-pending active lease must name an exact pod id")
  checkController rules fields
  checkClose rules fields

end Validation

/-- What exists, who owns its reconciliation, and when it ends. -/
structure PodLease (rules : LeaseRules) where
  fields : LeaseFields rules
  accepted : checkLease rules fields = .ok ()

end Verbatus.Pod
