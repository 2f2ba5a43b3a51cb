import Verbatus.Pod.LeaseStore

namespace Verbatus.Pod

open Library Library.Checked Refusal Python CodePoint Canonical
open Identities (str str_injective)

variable {rules : LeaseRules}

section Readers

theorem fieldOf_readBack {fields : List (String × JsonValue)}
    (distinct : (fields.map Prod.fst).Nodup) {name : String} {value : JsonValue}
    (member : (name, value) ∈ fields) : fieldOf name (readBack (named fields)) = value.sorted := by
  rw [fieldOf, field?_readBack distinct member]
  rfl

@[simp] theorem text_sorted (value : String) : (text value).sorted = text value := rfl

@[simp] theorem optionalText_sorted (value : Option String) :
    (optionalText value).sorted = optionalText value := by
  cases value <;> rfl

theorem texts_sorted (values : List String) :
    (JsonValue.list (values.map text)).sorted = .list (values.map text) := by
  rw [JsonValue.sorted, JsonValue.sortedItems_eq, List.map_map]
  rfl

@[simp] theorem readText_text (what value : String) : readText what (text value) = .ok value := by
  rw [text, readText, plainText_str]

@[simp] theorem readOptionalText_optionalText (what : String) (value : Option String) :
    readOptionalText what (optionalText value) = .ok value := by
  cases value with
  | none => rfl
  | some value =>
      have read := readText_text what value
      rw [text] at read
      rw [optionalText, readOptionalText, read]
      · rfl
      · simp

@[simp] theorem readTexts_texts (values : List String) :
    readTexts (.list (values.map text)) = .ok values := by
  rw [readTexts, mapM_eq_ok]
  induction values with
  | nil => exact .nil
  | cons value values ih => exact .cons (readText_text _ value) ih

@[simp] theorem parseStamp_stamp (label : String) (time : Instant) :
    parseStamp rules label (text (rules.stamp time)) = .ok time := by
  rw [text, parseStamp, rules.readStamp_stamp]

theorem readDecimal_print {amount : Decimal} (money : amount.isMoney = true) (what : String) :
    readDecimal rules what (text (rules.printDecimal amount)) = .ok amount := by
  rw [readDecimal, text, textOf, rules.readDecimal_print amount money]

@[simp] theorem plainText_textOf (value : String) : plainText (textOf rules (text value)) = value :=
  plainText_str value

theorem asDecimal_eq_ok {amount result : Decimal} {label : String} :
    asDecimal amount label = .ok result ↔ amount.isMoney = true ∧ amount = result := by
  rw [asDecimal, require_bind_eq_ok, Except.ok.injEq]

end Readers

section Intents

theorem buildIntent_fields (intent : PendingCreateIntent rules) :
    buildIntent rules intent.fields = .ok intent := by
  have accepted := intent.accepted
  unfold buildIntent
  split
  · rfl
  · next refused => exact absurd (accepted.symm.trans refused) (by simp)

theorem intent_money (intent : PendingCreateIntent rules) :
    intent.fields.podHourlyUsd.isMoney = true ∧ intent.fields.volumeHourlyUsd.isMoney = true := by
  obtain ⟨pod, priced, rest⟩ := bind_eq_ok.mp intent.accepted
  obtain ⟨volume, attached, -⟩ := bind_eq_ok.mp rest
  exact ⟨(asDecimal_eq_ok.mp priced).1, (asDecimal_eq_ok.mp attached).1⟩

theorem intentRecord_distinct (fields : IntentFields) :
    ((intentRecord rules fields).map Prod.fst).Nodup := by
  change intentNames.Nodup
  decide

section Fields

variable (intent : PendingCreateIntent rules)

theorem intentField {name : String} {value : JsonValue}
    (member : (name, value) ∈ intentRecord rules intent.fields) :
    fieldOf name (readBack (named (intentRecord rules intent.fields))) = value.sorted :=
  fieldOf_readBack (intentRecord_distinct intent.fields) member

/-- A recovery intent is read back from its record. -/
theorem intentFromRecord_readBack :
    intentFromRecord rules (readBack (named (intentRecord rules intent.fields))) = .ok intent := by
  obtain ⟨pod, volume⟩ := intent_money intent
  have exactKeys : hasExactly intentNames (readBack (named (intentRecord rules intent.fields))) =
      true := hasExactly_readBack (.refl _)
  have name := @intentField rules intent "name" _ (.head _)
  have gpuType := @intentField rules intent "gpu_type" _ (.tail _ (.head _))
  have image := @intentField rules intent "image" _ (.tail _ (.tail _ (.head _)))
  have volumeId := @intentField rules intent "volume_id" (text intent.fields.volumeId)
    (by simp [intentRecord])
  have mountPath := @intentField rules intent "volume_mount_path"
    (text intent.fields.volumeMountPath) (by simp [intentRecord])
  have command := @intentField rules intent "docker_start_cmd"
    (.list (intent.fields.dockerStartCmd.map text)) (by simp [intentRecord])
  have deadline := @intentField rules intent "hard_deadline"
    (text (rules.stamp intent.fields.hardDeadline)) (by simp [intentRecord])
  have commit := @intentField rules intent "repository_commit"
    (text intent.fields.repositoryCommit) (by simp [intentRecord])
  have token := @intentField rules intent "launch_token" (text intent.fields.launchToken)
    (by simp [intentRecord])
  have podRate := @intentField rules intent "pod_hourly_usd"
    (text (rules.printDecimal intent.fields.podHourlyUsd)) (by simp [intentRecord])
  have volumeRate := @intentField rules intent "volume_hourly_usd"
    (text (rules.printDecimal intent.fields.volumeHourlyUsd)) (by simp [intentRecord])
  have margin := @intentField rules intent "billing_cutoff_margin_seconds"
    (.int intent.fields.billingCutoffMarginSeconds) (by simp [intentRecord])
  have template := @intentField rules intent "template" (optionalText intent.fields.template)
    (by simp [intentRecord])
  rw [intentFromRecord, require_bind_of exactKeys, name, gpuType, image, volumeId, mountPath,
    command, deadline, commit, token, podRate, volumeRate, margin, template, texts_sorted]
  simp only [text_sorted, readTexts_texts, parseStamp_stamp, readText_text,
    readDecimal_print pod, readDecimal_print volume, JsonValue.sorted, readInteger,
    optionalText_sorted, readOptionalText_optionalText, ok_bind]
  rw [buildIntent_fields]
  rfl

end Fields

end Intents

section Leases

variable (lease : PodLease rules) {record : List (Str × JsonValue)}

theorem buildLease_fields : buildLease rules lease.fields = .ok lease := by
  have accepted := lease.accepted
  unfold buildLease
  split
  · rfl
  · next refused => exact absurd (accepted.symm.trans refused) (by simp)

/-- A lease that was built has the fields it was built from. -/
theorem buildLease_eq_ok {fields : LeaseFields rules} {built : PodLease rules} :
    buildLease rules fields = .ok built ↔ built.fields = fields := by
  constructor
  · intro made
    unfold buildLease at made
    split at made
    · cases made
      rfl
    · cases made
  · rintro rfl
    exact buildLease_fields built

theorem lease_money :
    lease.fields.podHourlyUsd.isMoney = true ∧ lease.fields.volumeHourlyUsd.isMoney = true := by
  have accepted := lease.accepted
  simp only [checkLease, checkNamed, require_bind_eq_ok] at accepted
  obtain ⟨-, -, -, -, -, -, -, -, accepted⟩ := accepted
  obtain ⟨pod, priced, accepted⟩ := bind_eq_ok.mp accepted
  obtain ⟨volume, attached, -⟩ := bind_eq_ok.mp accepted
  exact ⟨(asDecimal_eq_ok.mp priced).1, (asDecimal_eq_ok.mp attached).1⟩

theorem unsealedRecord_distinct (fields : LeaseFields rules) :
    ((unsealedRecord rules fields).map Prod.fst).Nodup := by
  change ("schema" :: leaseNames).Nodup
  decide

theorem toRecord_eq_ok :
    toRecord rules lease = .ok record ↔
      sealRecord rules.digestText (named (unsealedRecord rules lease.fields)) = .ok record := by
  delta toRecord
  split <;> simp_all

/-- The fields of a lease record, its digest among them. -/
def sealedFields (hash : Str) : List (String × JsonValue) :=
  unsealedRecord rules lease.fields ++ [("self_hash", .str hash)]

theorem toRecord_fields (made : toRecord rules lease = .ok record) :
    ∃ hash : Str, record = named (sealedFields lease hash) := by
  obtain ⟨hash, -, made⟩ := bind_eq_ok.mp ((toRecord_eq_ok lease).mp made)
  refine ⟨hash, (Except.ok.inj made).symm.trans ?_⟩
  rw [sealedFields, named, named, List.map_append]
  rfl

theorem sealedFields_distinct (hash : Str) : ((sealedFields lease hash).map Prod.fst).Nodup := by
  change ("schema" :: leaseNames ++ ["self_hash"]).Nodup
  decide

theorem sealedFields_names (hash : Str) :
    ((sealedFields lease hash).map Prod.fst).Perm (["schema", "self_hash"] ++ leaseNames) := by
  change ("schema" :: leaseNames ++ ["self_hash"]).Perm _
  decide

/-- A written lease carries a digest that recomputes. -/
theorem checkSealed_readBack (made : toRecord rules lease = .ok record) :
    checkSealed rules (readBack record) = .ok () := by
  have verifies : recordVerifies rules.digestText (readBack record) = true := by
    apply recordVerifies_sealed (named_distinct (unsealedRecord_distinct lease.fields)) _
      ((toRecord_eq_ok lease).mp made)
    rw [named_keys]
    intro inside
    obtain ⟨name, listed, same⟩ := List.mem_map.mp inside
    rw [str_injective same] at listed
    change "self_hash" ∈ "schema" :: leaseNames at listed
    exact absurd listed (by decide)
  rw [checkSealed]
  cases stored : field? "self_hash" (readBack record) with
  | none => rw [recordVerifies, stored] at verifies; cases verifies
  | some hash =>
      rw [require_bind_of (by rfl)]
      cases hashed : recordHash rules.digestText (readBack record) with
      | ok actual => exact require_eq_ok.mpr verifies
      | error raised =>
          rw [recordVerifies, stored, hashed] at verifies
          split at verifies <;> cases verifies

theorem leaseField (hash : Str) {name : String} {value : JsonValue}
    (member : (name, value) ∈ sealedFields lease hash) :
    fieldOf name (readBack (named (sealedFields lease hash))) = value.sorted :=
  fieldOf_readBack (sealedFields_distinct lease hash) member

@[simp] theorem payloadValue_sorted (payload : Option Payload) :
    (payloadValue payload).sorted = payloadValue payload := by
  cases payload with
  | none => rfl
  | some payload => exact payload.ordered

@[simp] theorem readPayload_payloadValue (what : String) (payload : Option Payload) :
    readPayload what (payloadValue payload) = .ok payload := by
  cases payload with
  | none => rfl
  | some payload => exact dif_pos ⟨payload.keyed, payload.ordered⟩

@[simp] theorem readIntent_intentValue (intent : Option (PendingCreateIntent rules)) :
    readIntent rules (intentValue rules intent).sorted = .ok intent := by
  cases intent with
  | none => rfl
  | some intent =>
      rw [intentValue, object_sorted, readIntent, intentFromRecord_readBack]
      rfl

@[simp] theorem readStarted_stampValue (time : Option Instant) :
    readStarted rules (stampValue rules time).sorted = .ok time := by
  cases time with
  | none => rfl
  | some time =>
      have blank : str (rules.stamp time) ≠ [] := by
        intro empty
        exact rules.stamp_ne_empty time (str_injective (empty.trans (by rfl)))
      rw [stampValue, text_sorted, text, readStarted, if_neg blank, ← text, parseStamp_stamp]
      rfl

@[simp] theorem readPodId_optionalText (podId : Option String) :
    readPodId (optionalText podId) = .ok podId := by
  cases podId with
  | none => rfl
  | some podId => rw [optionalText, readPodId, plainText_str]

@[simp] theorem readPhase_text (phase : Phase) : readPhase rules (text phase.text) = .ok phase := by
  cases phase <;> rfl

end Leases

section File

variable (lease : PodLease rules) {record : List (Str × JsonValue)}

/-- The values of a lease are read back from its record. -/
theorem readFields_readBack (hash : Str) :
    readFields rules (readBack (named (sealedFields lease hash))) = .ok lease.fields := by
  obtain ⟨pod, volume⟩ := lease_money lease
  have found {name : String} (value : JsonValue) (member : (name, value) ∈ sealedFields lease hash) :=
    leaseField lease hash member
  have closeRecord := @found "close_record" (payloadValue lease.fields.closeRecord)
    (by simp [sealedFields, unsealedRecord])
  have controller := @found "controller_record" (payloadValue lease.fields.controllerRecord)
    (by simp [sealedFields, unsealedRecord])
  have generation := @found "generation" (.int lease.fields.generation)
    (by simp [sealedFields, unsealedRecord])
  have attempts := @found "pending_recovery_attempts" (.int lease.fields.pendingRecoveryAttempts)
    (by simp [sealedFields, unsealedRecord])
  have podId := @found "pod_id" (optionalText lease.fields.podId)
    (by simp [sealedFields, unsealedRecord])
  have podRate := @found "pod_hourly_usd" (text (rules.printDecimal lease.fields.podHourlyUsd))
    (by simp [sealedFields, unsealedRecord])
  have volumeRate := @found "volume_hourly_usd"
    (text (rules.printDecimal lease.fields.volumeHourlyUsd))
    (by simp [sealedFields, unsealedRecord])
  have createdAt := @found "created_at" (text (rules.stamp lease.fields.createdAt))
    (by simp [sealedFields, unsealedRecord])
  have startedAt := @found "started_at" (stampValue rules lease.fields.startedAt)
    (by simp [sealedFields, unsealedRecord])
  have deadline := @found "hard_deadline" (text (rules.stamp lease.fields.hardDeadline))
    (by simp [sealedFields, unsealedRecord])
  have heartbeatAt := @found "heartbeat_at" (text (rules.stamp lease.fields.heartbeatAt))
    (by simp [sealedFields, unsealedRecord])
  have phase := @found "phase" (text lease.fields.phase.text)
    (by simp [sealedFields, unsealedRecord])
  have intent := @found "pending_create" (intentValue rules lease.fields.pendingCreate)
    (by simp [sealedFields, unsealedRecord])
  have leaseId := @found "lease_id" (text lease.fields.leaseId)
    (by simp [sealedFields, unsealedRecord])
  have token := @found "launch_token" (text lease.fields.launchToken)
    (by simp [sealedFields, unsealedRecord])
  have provider := @found "provider_name" (text lease.fields.providerName)
    (by simp [sealedFields, unsealedRecord])
  have volumeId := @found "volume_id" (text lease.fields.volumeId)
    (by simp [sealedFields, unsealedRecord])
  have owner := @found "owner_token" (text lease.fields.ownerToken)
    (by simp [sealedFields, unsealedRecord])
  rw [readFields, closeRecord, controller, generation, attempts, podId, podRate, volumeRate,
    createdAt, startedAt, deadline, heartbeatAt, phase, intent, leaseId, token, provider, volumeId,
    owner]
  simp only [payloadValue_sorted, readPayload_payloadValue, JsonValue.sorted, readInteger,
    optionalText_sorted, readPodId_optionalText, text_sorted, readDecimal_print pod,
    readDecimal_print volume, parseStamp_stamp, readStarted_stampValue, readPhase_text,
    readIntent_intentValue, plainText_textOf, ok_bind]

/-- A lease reads back as the lease that was written. -/
theorem fromRecord_readBack (made : toRecord rules lease = .ok record) :
    fromRecord rules (JsonValue.object record).sorted = .ok lease := by
  have trusted := checkSealed_readBack lease made
  obtain ⟨hash, rfl⟩ := toRecord_fields lease made
  have schema : field? "schema" (readBack (named (sealedFields lease hash))) =
      some (text leaseSchema) :=
    field?_readBack (sealedFields_distinct lease hash) (.head _)
  have exactKeys := hasExactly_readBack (sealedFields_names lease hash)
  rw [object_sorted, fromRecord, require_bind_of schema, trusted, ok_bind,
    require_bind_of exactKeys, readFields_readBack, ok_bind, buildLease_fields]
  rfl

end File

end Verbatus.Pod
