import Verbatus.Library.Calls
import Verbatus.Pod.Lease

namespace Verbatus.Pod

open Library Library.Checked Refusal Python CodePoint Canonical
open Identities (str)

/-- What a lease file holds: nothing, or what `json.loads` makes of its bytes. -/
abbrev LeaseFile := Option JsonValue

def leaseSchema : String := "pod-lease.v1"

/-- The fields of a lease record beside its schema and its digest. -/
def leaseNames : List String := ["lease_id", "launch_token", "provider_name", "pod_id", "volume_id",
  "pod_hourly_usd", "volume_hourly_usd", "created_at", "started_at", "hard_deadline",
  "owner_token", "heartbeat_at", "generation", "phase", "close_record", "pending_create",
  "controller_record", "pending_recovery_attempts"]

section Records

variable (rules : LeaseRules)

def payloadValue : Option Payload → JsonValue
  | none => .null
  | some payload => .object payload.fields

def intentValue : Option (PendingCreateIntent rules) → JsonValue
  | none => .null
  | some intent => .object (named (intentRecord rules intent.fields))

def stampValue : Option Instant → JsonValue
  | none => .null
  | some time => text (rules.stamp time)

/-- `_unsealed_record` -/
def unsealedRecord (fields : LeaseFields rules) : List (String × JsonValue) :=
  [("schema", text leaseSchema), ("lease_id", text fields.leaseId),
    ("launch_token", text fields.launchToken), ("provider_name", text fields.providerName),
    ("pod_id", optionalText fields.podId), ("volume_id", text fields.volumeId),
    ("pod_hourly_usd", text (rules.printDecimal fields.podHourlyUsd)),
    ("volume_hourly_usd", text (rules.printDecimal fields.volumeHourlyUsd)),
    ("created_at", text (rules.stamp fields.createdAt)),
    ("started_at", stampValue rules fields.startedAt),
    ("hard_deadline", text (rules.stamp fields.hardDeadline)),
    ("owner_token", text fields.ownerToken),
    ("heartbeat_at", text (rules.stamp fields.heartbeatAt)),
    ("generation", .int fields.generation), ("phase", text fields.phase.text),
    ("close_record", payloadValue fields.closeRecord),
    ("pending_create", intentValue rules fields.pendingCreate),
    ("controller_record", payloadValue fields.controllerRecord),
    ("pending_recovery_attempts", .int fields.pendingRecoveryAttempts)]

/-- `PodLease.to_record` -/
def toRecord (lease : PodLease rules) : Except Refusal (List (Str × JsonValue)) :=
  match sealRecord rules.digestText (named (unsealedRecord rules lease.fields)) with
  | .ok record => .ok record
  | .error raised => .error (.leaseFormat ("lease record cannot be sealed: " ++ raised.message))

def readPayload (what : String) (value : JsonValue) : Except Refusal (Option Payload) :=
  match value with
  | .null => .ok none
  | .object fields =>
    if formed : Keyed (.object fields) ∧ (JsonValue.object fields).sorted = .object fields then
      .ok (some ⟨fields, formed.1, formed.2⟩)
    else .error (.leaseFormat s!"lease {what} must be object or null")
  | _ => .error (.leaseFormat s!"lease {what} must be object or null")

def readIntent : JsonValue → Except Refusal (Option (PendingCreateIntent rules))
  | .null => .ok none
  | .object fields => (intentFromRecord rules fields).map some
  | _ => .error (.leaseFormat "lease pending_create must be object or null")

/-- An empty text stands for no time, as no text at all does. -/
def readStarted : JsonValue → Except Refusal (Option Instant)
  | .null => .ok none
  | .str value => if value = [] then .ok none else
      (parseStamp rules "started_at" (.str value)).map some
  | _ => .error (.leaseFormat "lease started_at must be string or null")

def readPodId : JsonValue → Except Refusal (Option String)
  | .null => .ok none
  | .str value => .ok (some (plainText value))
  | _ => .error (.leaseFormat "lease pod_id must be string or null")

def readPhase (value : JsonValue) : Except Refusal Phase :=
  match phases.find? fun phase => decide (str phase.text = textOf rules value) with
  | some phase => .ok phase
  | none => .error (.leaseFormat "lease fields are invalid: lease phase is unsupported")

def buildLease (fields : LeaseFields rules) : Except Refusal (PodLease rules) :=
  match accepted : checkLease rules fields with
  | .ok () => .ok ⟨fields, accepted⟩
  | .error raised => .error raised

/-- Whether the digest of a record recomputes. -/
def checkSealed (record : List (Str × JsonValue)) : Except Refusal Unit := do
  require ((field? "self_hash" record).isSome = true)
    (.leaseFormat "lease carries no self_hash; it cannot be trusted as evidence")
  match recordHash rules.digestText record with
  | .error raised => .error (.leaseFormat ("lease record cannot be verified: " ++ raised.message))
  | .ok _ =>
    require (recordVerifies rules.digestText record = true)
      (.leaseFormat "lease self_hash does not recompute; refusing to act on an altered lease")

/-- The values of a record with the fields of a lease. -/
def readFields (record : List (Str × JsonValue)) : Except Refusal (LeaseFields rules) := do
  let closeRecord ← readPayload "close_record" (fieldOf "close_record" record)
  let controllerRecord ← readPayload "controller_record" (fieldOf "controller_record" record)
  let generation ← readInteger "lease generation" (fieldOf "generation" record)
  let attempts ← readInteger "lease pending_recovery_attempts"
    (fieldOf "pending_recovery_attempts" record)
  let podId ← readPodId (fieldOf "pod_id" record)
  let podRate ← readDecimal rules "lease pod rate" (fieldOf "pod_hourly_usd" record)
  let volumeRate ← readDecimal rules "lease volume rate" (fieldOf "volume_hourly_usd" record)
  let createdAt ← parseStamp rules "created_at" (fieldOf "created_at" record)
  let startedAt ← readStarted rules (fieldOf "started_at" record)
  let hardDeadline ← parseStamp rules "hard_deadline" (fieldOf "hard_deadline" record)
  let heartbeatAt ← parseStamp rules "heartbeat_at" (fieldOf "heartbeat_at" record)
  let phase ← readPhase rules (fieldOf "phase" record)
  let pendingCreate ← readIntent rules (fieldOf "pending_create" record)
  .ok {
    leaseId := plainText (textOf rules (fieldOf "lease_id" record))
    launchToken := plainText (textOf rules (fieldOf "launch_token" record))
    providerName := plainText (textOf rules (fieldOf "provider_name" record))
    podId := podId
    volumeId := plainText (textOf rules (fieldOf "volume_id" record))
    podHourlyUsd := podRate
    volumeHourlyUsd := volumeRate
    createdAt := createdAt
    startedAt := startedAt
    hardDeadline := hardDeadline
    ownerToken := plainText (textOf rules (fieldOf "owner_token" record))
    heartbeatAt := heartbeatAt
    generation := generation
    phase := phase
    closeRecord := closeRecord
    pendingCreate := pendingCreate
    controllerRecord := controllerRecord
    pendingRecoveryAttempts := attempts }

/-- `PodLease.from_record` -/
def fromRecord (value : JsonValue) : Except Refusal (PodLease rules) :=
  match value with
  | .object record => do
    require (field? "schema" record = some (text leaseSchema))
      (.leaseFormat "lease schema is absent or unsupported")
    checkSealed rules record
    require (hasExactly (["schema", "self_hash"] ++ leaseNames) record = true)
      (.leaseFormat "lease has unknown or missing fields")
    let fields ← readFields rules record
    invalid "lease fields are invalid: " (buildLease rules fields)
  | _ => .error (.leaseFormat "lease schema is absent or unsupported")

end Records

section Store

variable (rules : LeaseRules)

/-- A call under the lock of a lease file. -/
abbrev LeaseCall := Call LeaseFile Refusal

/-- What `json.loads` and `from_record` make of a lease file. -/
def loaded (file : LeaseFile) : Except Refusal (Option (PodLease rules)) :=
  match file with
  | none => .ok none
  | some value => (fromRecord rules value).map some

/-- `_read_unlocked` -/
def readUnlocked : LeaseCall (Option (PodLease rules)) := do
  let file ← Call.current
  Call.lift (loaded rules file)

/-- The lease a call may change, where it is there and its owner's. -/
def ownLease (ownerToken : String) : Option (PodLease rules) → Except Refusal (PodLease rules)
  | none => .error (.leaseOwnership "lease does not exist")
  | some lease => do
    require (lease.fields.ownerToken = ownerToken)
      (.leaseOwnership "lease belongs to a different controller")
    .ok lease

/-- `_require_owner_unlocked` -/
def requireOwner (ownerToken : String) : LeaseCall (PodLease rules) := do
  let lease ← readUnlocked rules
  Call.lift (ownLease rules ownerToken lease)

/-- `_write_unlocked`; the file is kept as it is read back. -/
def writeUnlocked (lease : PodLease rules) : LeaseCall Unit := do
  let record ← Call.lift (toRecord rules lease)
  Call.replace (some (JsonValue.object record).sorted)

/-- `exclusive_write` -/
def exclusiveWrite (record : List (Str × JsonValue)) : LeaseCall Unit := do
  let file ← Call.current
  Call.lift (require (file.isNone = true) (.leaseOwnership "lease already exists at its path"))
  Call.replace (some (JsonValue.object record).sorted)

def create (lease : PodLease rules) : LeaseCall (PodLease rules) := do
  let record ← Call.lift (toRecord rules lease)
  exclusiveWrite record
  pure lease

/-- A lease with some of its values replaced, written in its place. -/
def rewrite (fields : LeaseFields rules) : LeaseCall (PodLease rules) := do
  let lease ← Call.lift (buildLease rules fields)
  writeUnlocked rules lease
  pure lease

def bindPod (ownerToken : String) (record : PodRecord) (now : Instant) :
    LeaseCall (PodLease rules) := do
  let lease ← requireOwner rules ownerToken
  Call.lift (require (lease.fields.phase = .pendingCreate) (.leaseOwnership
    s!"cannot bind pod while lease phase is {quote lease.fields.phase.text}"))
  rewrite rules { lease.fields with
    podId := some record.podId
    startedAt := some record.createdAt
    podHourlyUsd := record.estimate.podHourlyUsd
    volumeHourlyUsd := record.estimate.volumeHourlyUsd
    heartbeatAt := now
    phase := .active
    pendingCreate := none }

def recordControllerArming (ownerToken : String) (record : Payload) (now : Instant) :
    LeaseCall (PodLease rules) := do
  let lease ← requireOwner rules ownerToken
  Call.lift (require (lease.fields.phase = .active ∧ lease.fields.podId.isSome = true)
    (.leaseOwnership "cannot arm controllers for a non-active exact-pod lease"))
  rewrite rules { lease.fields with heartbeatAt := now, controllerRecord := some record }

def notePendingRecoveryAttempt (ownerToken : String) (now : Instant) :
    LeaseCall (PodLease rules) := do
  let lease ← requireOwner rules ownerToken
  Call.lift (require (lease.fields.phase = .pendingCreate ∧ lease.fields.pendingCreate.isSome = true)
    (.leaseOwnership "only a pending-create lease can record recovery attempts"))
  rewrite rules { lease.fields with
    heartbeatAt := now
    pendingRecoveryAttempts := lease.fields.pendingRecoveryAttempts + 1 }

/-- `PodLease.active` -/
def Phase.isActive : Phase → Bool
  | pendingCreate | active => true
  | closeUnverified | closedVerified => false

def heartbeat (ownerToken : String) (now : Instant) : LeaseCall (PodLease rules) := do
  let lease ← requireOwner rules ownerToken
  Call.lift (require (lease.fields.phase.isActive = true) (.leaseOwnership
    s!"cannot heartbeat non-active lease phase {quote lease.fields.phase.text}"))
  rewrite rules { lease.fields with heartbeatAt := now }

/-- What a claim makes of the lease it finds. -/
def claim (ownerToken : String) (now : Instant) (staleAfter : ℤ) :
    Option (PodLease rules) → LeaseCall (PodLease rules)
  | none => Call.lift (.error (.leaseOwnership "no lease exists to reconcile"))
  | some lease =>
    if lease.fields.phase.isActive then do
      Call.lift (require (lease.fields.ownerToken = ownerToken ∨
          staleAfter ≤ now.since lease.fields.heartbeatAt)
        (.leaseOwnership "lease owner heartbeat is still fresh"))
      rewrite rules { lease.fields with
        ownerToken := ownerToken
        heartbeatAt := now
        generation := lease.fields.generation +
          if lease.fields.ownerToken = ownerToken then 0 else 1 }
    else pure lease

def claimIfOrphan (ownerToken : String) (now : Instant) (staleAfter : ℤ) :
    LeaseCall (PodLease rules) := do
  Call.lift (require (0 < staleAfter) (.valueError "stale_after must be positive"))
  let lease ← readUnlocked rules
  claim rules ownerToken now staleAfter lease

/-- `_close_record_pod_id` -/
def closeRecordPodId (record : List (Str × JsonValue)) : Option String :=
  match field? "pod_id" record with
  | some (.str value) => if value = [] then none else some (plainText value)
  | _ => none

/-- The pod a close is recorded for: the lease's own, or else the one the record names. -/
def closePodId (podId : Option String) (record : List (Str × JsonValue)) : Option String :=
  match podId with
  | some podId => some podId
  | none => closeRecordPodId record

def recordClose (ownerToken : String) (record : Payload) (verified : Bool) (now : Instant) :
    LeaseCall (PodLease rules) := do
  Call.lift (validateCloseRecord record.fields none verified false)
  let lease ← requireOwner rules ownerToken
  Call.lift (require (lease.fields.phase ≠ .closedVerified) (.leaseOwnership
    "lease already carries a verified close record; refusing to replace verified close evidence"))
  Call.lift (validateCloseRecord record.fields (closePodId lease.fields.podId record.fields)
    verified true)
  rewrite rules { lease.fields with
    podId := closePodId lease.fields.podId record.fields
    heartbeatAt := now
    phase := if verified then .closedVerified else .closeUnverified
    closeRecord := some record
    pendingCreate := none }

/-- One call of the store, with the clock reading it is given. -/
inductive LeaseOperation where
  | create (lease : PodLease rules)
  | bindPod (ownerToken : String) (record : PodRecord) (now : Instant)
  | recordControllerArming (ownerToken : String) (record : Payload) (now : Instant)
  | notePendingRecoveryAttempt (ownerToken : String) (now : Instant)
  | heartbeat (ownerToken : String) (now : Instant)
  | claimIfOrphan (ownerToken : String) (now : Instant) (staleAfter : ℤ)
  | recordClose (ownerToken : String) (record : Payload) (verified : Bool) (now : Instant)

def LeaseOperation.call : LeaseOperation rules → LeaseCall (PodLease rules)
  | create lease => Pod.create rules lease
  | bindPod ownerToken record now => Pod.bindPod rules ownerToken record now
  | recordControllerArming ownerToken record now =>
    Pod.recordControllerArming rules ownerToken record now
  | notePendingRecoveryAttempt ownerToken now =>
    Pod.notePendingRecoveryAttempt rules ownerToken now
  | heartbeat ownerToken now => Pod.heartbeat rules ownerToken now
  | claimIfOrphan ownerToken now staleAfter => Pod.claimIfOrphan rules ownerToken now staleAfter
  | recordClose ownerToken record verified now =>
    Pod.recordClose rules ownerToken record verified now

/-- A lease file after one call after another. -/
def afterCalls (file : LeaseFile) (operations : List (LeaseOperation rules)) : LeaseFile :=
  operations.foldl (fun file operation => ((operation.call rules).on file).2) file

end Store

end Verbatus.Pod
