import Verbatus.Pod.LeaseReadBack

namespace Verbatus.Pod

open Library Library.Checked Refusal Python CodePoint Canonical
open Identities (str)

variable {rules : LeaseRules} {file last : LeaseFile} {lease before after : PodLease rules}

/-- A lease file holds this lease. -/
def Holds (file : LeaseFile) (lease : PodLease rules) : Prop := loaded rules file = .ok (some lease)

section Calls

theorem requireOwner_on_ok {ownerToken : String} :
    (requireOwner rules ownerToken).on file = (.ok lease, last) ↔
      Holds file lease ∧ lease.fields.ownerToken = ownerToken ∧ last = file := by
  simp only [requireOwner, readUnlocked, Call.bind_on_ok, Call.current_on, Call.lift_on,
    Prod.mk.injEq, Except.ok.injEq, Holds]
  constructor
  · rintro ⟨_ | found, _, ⟨_, _, ⟨rfl, rfl⟩, read, rfl⟩, owned, rfl⟩
    · cases owned
    · obtain ⟨same, found⟩ := require_bind_eq_ok.mp owned
      cases found
      exact ⟨read, same, rfl⟩
  · rintro ⟨read, same, rfl⟩
    exact ⟨some lease, _, ⟨_, _, ⟨rfl, rfl⟩, read, rfl⟩, require_bind_eq_ok.mpr ⟨same, rfl⟩, rfl⟩

/-- A rewritten lease is the lease with these values, and the file holds it. -/
theorem rewrite_on_ok {fields : LeaseFields rules}
    (done : (rewrite rules fields).on file = (.ok lease, last)) :
    lease.fields = fields ∧ Holds last lease := by
  obtain ⟨built, made, done⟩ := Call.lift_bind_on_ok.mp done
  obtain ⟨_, between, stored, done⟩ := Call.bind_on_ok.mp done
  obtain ⟨record, sealed, stored⟩ := Call.lift_bind_on_ok.mp stored
  cases stored
  cases done
  refine ⟨buildLease_eq_ok.mp made, ?_⟩
  rw [Holds, loaded, fromRecord_readBack lease sealed]
  rfl

theorem create_on_ok (done : (create rules before).on file = (.ok lease, last)) :
    file = none ∧ lease = before ∧ Holds last lease := by
  obtain ⟨record, sealed, done⟩ := Call.lift_bind_on_ok.mp done
  obtain ⟨_, between, stored, done⟩ := Call.bind_on_ok.mp done
  cases done
  obtain ⟨_, _, found, stored⟩ := Call.bind_on_ok.mp stored
  cases found
  obtain ⟨_, fresh, stored⟩ := Call.lift_bind_on_ok.mp stored
  cases stored
  refine ⟨Option.isNone_iff_eq_none.mp (require_eq_ok.mp fresh), rfl, ?_⟩
  rw [Holds, loaded, fromRecord_readBack lease sealed]
  rfl

theorem writeUnlocked_keeps : (writeUnlocked rules lease).KeepsOnRefusal :=
  .bind (Call.reads_lift _) fun _ _ _ _ refused => nomatch refused

theorem rewrite_keeps (fields : LeaseFields rules) : (rewrite rules fields).KeepsOnRefusal := by
  refine .bind (Call.reads_lift _) fun lease file raised last refused => ?_
  rw [Call.bind_on] at refused
  cases stored : (writeUnlocked rules lease).on file with
  | mk outcome between =>
      rw [stored] at refused
      cases outcome with
      | ok _ => cases refused
      | error other =>
          cases refused
          exact writeUnlocked_keeps _ _ _ stored

theorem readUnlocked_reads : (readUnlocked rules).Reads :=
  .bind (fun _ => rfl) fun _ => Call.reads_lift _

theorem requireOwner_reads (ownerToken : String) : (requireOwner rules ownerToken).Reads :=
  readUnlocked_reads.bind fun _ => Call.reads_lift _

theorem claim_keeps (ownerToken : String) (now : Instant) (staleAfter : ℤ)
    (found : Option (PodLease rules)) : (claim rules ownerToken now staleAfter found).KeepsOnRefusal := by
  cases found with
  | none => exact (Call.reads_lift _).keepsOnRefusal
  | some lease =>
      rw [claim]
      split
      · exact .bind (Call.reads_lift _) fun _ => rewrite_keeps _
      · exact Call.Reads.keepsOnRefusal fun _ => rfl

theorem create_keeps : (create rules lease).KeepsOnRefusal := by
  refine .bind (Call.reads_lift _) fun record file raised last refused => ?_
  cases file with
  | none => cases refused
  | some value =>
      cases refused
      rfl

/-- A call that is refused leaves the file as it was. -/
theorem call_keeps (operation : LeaseOperation rules) : (operation.call rules).KeepsOnRefusal := by
  cases operation with
  | create => exact create_keeps
  | bindPod | recordControllerArming | notePendingRecoveryAttempt | heartbeat =>
      exact .bind (requireOwner_reads _) fun _ => .bind (Call.reads_lift _) fun _ => rewrite_keeps _
  | claimIfOrphan =>
      exact .bind (Call.reads_lift _) fun _ => .bind readUnlocked_reads fun _ => claim_keeps _ _ _ _
  | recordClose =>
      exact .bind (Call.reads_lift _) fun _ => .bind (requireOwner_reads _) fun _ =>
        .bind (Call.reads_lift _) fun _ => .bind (Call.reads_lift _) fun _ => rewrite_keeps _

end Calls

section Steps

/-- The phases a lease may be in after a phase. -/
def Phase.mayBecome : Phase → Phase → Bool
  | pendingCreate, _ => true
  | active, next => next ≠ pendingCreate
  | closeUnverified, next => next = closeUnverified || next = closedVerified
  | closedVerified, next => next = closedVerified

/-- The call that gives a lease its pod. -/
def LeaseOperation.bindsPod : LeaseOperation rules → Bool
  | bindPod .. => true
  | _ => false

/-- The values of a lease no call changes. -/
structure SameLease (before after : LeaseFields rules) : Prop where
  leaseId : after.leaseId = before.leaseId
  launchToken : after.launchToken = before.launchToken
  providerName : after.providerName = before.providerName
  volumeId : after.volumeId = before.volumeId
  createdAt : after.createdAt = before.createdAt
  hardDeadline : after.hardDeadline = before.hardDeadline

/-- What one call may make of a lease. -/
structure Evolved (operation : LeaseOperation rules) (before after : LeaseFields rules) : Prop where
  same : SameLease before after
  podId : before.podId.isSome = true → after.podId = before.podId ∨
    (operation.bindsPod = true ∧ before.phase = .pendingCreate)
  phase : before.phase.mayBecome after.phase = true
  generation : after.generation =
    before.generation + if after.ownerToken = before.ownerToken then 0 else 1
  owner : after.ownerToken ≠ before.ownerToken → ∃ ownerToken now staleAfter,
    operation = .claimIfOrphan ownerToken now staleAfter ∧
      staleAfter ≤ now.since before.heartbeatAt

theorem SameLease.refl (fields : LeaseFields rules) : SameLease fields fields :=
  ⟨rfl, rfl, rfl, rfl, rfl, rfl⟩

theorem Evolved.refl (operation : LeaseOperation rules) (fields : LeaseFields rules) :
    Evolved operation fields fields where
  same := .refl fields
  podId := fun _ => .inl rfl
  phase := by cases fields.phase <;> rfl
  generation := by simp
  owner := fun changed => absurd rfl changed

theorem Holds.unique {other : PodLease rules} (first : Holds file lease) (second : Holds file other) :
    lease = other :=
  Option.some.inj (Except.ok.inj (first.symm.trans second))

/-- A call that changes its owner's lease where a check lets it. -/
theorem changed_on_ok {ownerToken : String} {check : PodLease rules → Except Refusal Unit}
    {change : PodLease rules → LeaseFields rules}
    (done : (requireOwner rules ownerToken >>= fun lease => Call.lift (check lease) >>= fun _ =>
      rewrite rules (change lease)).on file = (.ok after, last)) (held : Holds file before) :
    before.fields.ownerToken = ownerToken ∧ check before = .ok () ∧
      after.fields = change before ∧ Holds last after := by
  obtain ⟨lease, between, owned, done⟩ := Call.bind_on_ok.mp done
  obtain ⟨_, checked, done⟩ := Call.lift_bind_on_ok.mp done
  obtain ⟨found, same, rfl⟩ := requireOwner_on_ok.mp owned
  obtain rfl := held.unique found
  obtain ⟨made, kept⟩ := rewrite_on_ok done
  exact ⟨same, checked, made, kept⟩

/-- What a claim of a stored lease makes of it. -/
theorem claim_on_ok {ownerToken : String} {now : Instant} {staleAfter : ℤ}
    (done : (claim rules ownerToken now staleAfter (some before)).on file = (.ok after, last))
    (held : Holds file before) :
    Holds last after ∧ (after = before ∧ last = file ∨ before.fields.phase.isActive = true ∧
      (before.fields.ownerToken = ownerToken ∨ staleAfter ≤ now.since before.fields.heartbeatAt) ∧
      after.fields = { before.fields with
        ownerToken := ownerToken
        heartbeatAt := now
        generation := before.fields.generation +
          if before.fields.ownerToken = ownerToken then 0 else 1 }) := by
  rw [claim] at done
  split at done
  · next active =>
    obtain ⟨_, free, done⟩ := Call.lift_bind_on_ok.mp done
    obtain ⟨made, kept⟩ := rewrite_on_ok done
    exact ⟨kept, .inr ⟨active, require_eq_ok.mp free, made⟩⟩
  · cases done
    exact ⟨held, .inl ⟨rfl, rfl⟩⟩

theorem claimIfOrphan_on_ok {ownerToken : String} {now : Instant} {staleAfter : ℤ}
    (done : (claimIfOrphan rules ownerToken now staleAfter).on file = (.ok after, last))
    (held : Holds file before) :
    (claim rules ownerToken now staleAfter (some before)).on file = (.ok after, last) := by
  obtain ⟨_, -, done⟩ := Call.lift_bind_on_ok.mp done
  obtain ⟨found, between, read, done⟩ := Call.bind_on_ok.mp done
  obtain ⟨_, _, seen, read⟩ := Call.bind_on_ok.mp read
  cases seen
  rw [Call.lift_on, Prod.mk.injEq] at read
  obtain ⟨same, rfl⟩ := read
  rw [held] at same
  cases same
  exact done

theorem recordClose_on_ok {ownerToken : String} {record : Payload} {verified : Bool} {now : Instant}
    (done : (recordClose rules ownerToken record verified now).on file = (.ok after, last))
    (held : Holds file before) :
    before.fields.ownerToken = ownerToken ∧ before.fields.phase ≠ .closedVerified ∧
      after.fields = { before.fields with
        podId := closePodId before.fields.podId record.fields
        heartbeatAt := now
        phase := if verified then .closedVerified else .closeUnverified
        closeRecord := some record
        pendingCreate := none } ∧ Holds last after := by
  obtain ⟨_, -, done⟩ := Call.lift_bind_on_ok.mp done
  obtain ⟨lease, between, owned, done⟩ := Call.bind_on_ok.mp done
  obtain ⟨_, opened, done⟩ := Call.lift_bind_on_ok.mp done
  obtain ⟨_, -, done⟩ := Call.lift_bind_on_ok.mp done
  obtain ⟨found, same, rfl⟩ := requireOwner_on_ok.mp owned
  obtain rfl := held.unique found
  obtain ⟨made, kept⟩ := rewrite_on_ok done
  exact ⟨same, require_eq_ok.mp opened, made, kept⟩

theorem closePodId_of_isSome {podId : Option String} {record : List (Str × JsonValue)}
    (bound : podId.isSome = true) : closePodId podId record = podId := by
  cases podId with
  | none => cases bound
  | some podId => rfl

/-- Values that differ in none a step may not change. -/
theorem Evolved.of_kept {operation : LeaseOperation rules} {before after : LeaseFields rules}
    (same : SameLease before after) (podId : after.podId = before.podId)
    (phase : after.phase = before.phase) (generation : after.generation = before.generation)
    (owner : after.ownerToken = before.ownerToken) : Evolved operation before after where
  same := same
  podId := fun _ => .inl podId
  phase := by rw [phase]; cases before.phase <;> rfl
  generation := by rw [generation, if_pos owner, add_zero]
  owner := fun changed => absurd owner changed

/-- What a call that returns makes of a stored lease. -/
theorem call_evolved {operation : LeaseOperation rules}
    (done : (operation.call rules).on file = (.ok after, last)) (held : Holds file before) :
    Evolved operation before.fields after.fields ∧ Holds last after := by
  cases operation with
  | create lease =>
      obtain ⟨rfl, -⟩ := create_on_ok done
      cases held
  | bindPod ownerToken record now =>
      obtain ⟨-, pending, made, kept⟩ := changed_on_ok done held
      refine ⟨?_, kept⟩
      rw [made]
      have pending := require_eq_ok.mp pending
      exact {
        same := ⟨rfl, rfl, rfl, rfl, rfl, rfl⟩
        podId := fun _ => .inr ⟨rfl, pending⟩
        phase := by rw [pending]; rfl
        generation := by simp
        owner := fun changed => absurd rfl changed }
  | recordControllerArming ownerToken record now =>
      obtain ⟨-, -, made, kept⟩ := changed_on_ok done held
      exact ⟨made ▸ .of_kept ⟨rfl, rfl, rfl, rfl, rfl, rfl⟩ rfl rfl rfl rfl, kept⟩
  | notePendingRecoveryAttempt ownerToken now =>
      obtain ⟨-, -, made, kept⟩ := changed_on_ok done held
      exact ⟨made ▸ .of_kept ⟨rfl, rfl, rfl, rfl, rfl, rfl⟩ rfl rfl rfl rfl, kept⟩
  | heartbeat ownerToken now =>
      obtain ⟨-, -, made, kept⟩ := changed_on_ok done held
      exact ⟨made ▸ .of_kept ⟨rfl, rfl, rfl, rfl, rfl, rfl⟩ rfl rfl rfl rfl, kept⟩
  | claimIfOrphan ownerToken now staleAfter =>
      obtain ⟨kept, ⟨rfl, -⟩ | ⟨active, free, made⟩⟩ :=
        claim_on_ok (claimIfOrphan_on_ok done held) held
      · exact ⟨.refl _ _, kept⟩
      · refine ⟨?_, kept⟩
        rw [made]
        exact {
          same := ⟨rfl, rfl, rfl, rfl, rfl, rfl⟩
          podId := fun _ => .inl rfl
          phase := by change before.fields.phase.mayBecome before.fields.phase = true
                      cases before.fields.phase <;> rfl
          generation := by simp only [eq_comm]
          owner := fun changed =>
            ⟨ownerToken, now, staleAfter, rfl, free.resolve_left (Ne.symm changed)⟩ }
  | recordClose ownerToken record verified now =>
      obtain ⟨-, opened, made, kept⟩ := recordClose_on_ok done held
      refine ⟨?_, kept⟩
      rw [made]
      exact {
        same := ⟨rfl, rfl, rfl, rfl, rfl, rfl⟩
        podId := fun bound => .inl (closePodId_of_isSome bound)
        phase := by
          change before.fields.phase.mayBecome (if verified then _ else _) = true
          cases phase : before.fields.phase <;> cases verified <;> simp_all [Phase.mayBecome]
        generation := by simp
        owner := fun changed => absurd rfl changed }

/-- What a call makes of an empty file. -/
theorem call_created {operation : LeaseOperation rules}
    (done : (operation.call rules).on none = (.ok after, last)) : Holds last after := by
  cases operation with
  | create lease =>
      obtain ⟨-, rfl, kept⟩ := create_on_ok done
      exact kept
  | bindPod | recordControllerArming | notePendingRecoveryAttempt | heartbeat =>
      obtain ⟨_, _, owned, -⟩ := Call.bind_on_ok.mp done
      exact nomatch (requireOwner_on_ok.mp owned).1
  | claimIfOrphan =>
      obtain ⟨_, -, done⟩ := Call.lift_bind_on_ok.mp done
      obtain ⟨found, between, read, done⟩ := Call.bind_on_ok.mp done
      cases read
      cases done
  | recordClose =>
      obtain ⟨_, -, done⟩ := Call.lift_bind_on_ok.mp done
      obtain ⟨_, _, owned, -⟩ := Call.bind_on_ok.mp done
      exact nomatch (requireOwner_on_ok.mp owned).1

end Steps

section Runs

/-- A closed lease names the pod that its close record proved absent. -/
def ClosedHonestly (fields : LeaseFields rules) : Prop :=
  fields.phase = .closedVerified → ∃ podId record, fields.podId = some podId ∧
    fields.closeRecord = some record ∧ field? "pod_id" record.fields = some (text podId) ∧
    field? "pod_get_absent" record.fields = some (.bool true) ∧
    field? "pod_list_absent" record.fields = some (.bool true)

theorem closeVerified_absent {value : List (Str × JsonValue)} (verified : closeVerified value = true) :
    field? "pod_get_absent" value = some (.bool true) ∧
      field? "pod_list_absent" value = some (.bool true) := by
  rw [closeVerified] at verified
  split at verified
  · cases verified
  · simp only [Bool.and_eq_true, decide_eq_true_eq] at verified
    exact ⟨verified.1.1.1.1.1.2, verified.1.1.1.1.2⟩

theorem lease_closedHonestly (lease : PodLease rules) : ClosedHonestly lease.fields := by
  intro closed
  have accepted := lease.accepted
  simp only [checkLease, checkNamed, require_bind_eq_ok] at accepted
  obtain ⟨-, -, -, -, -, -, -, -, accepted⟩ := accepted
  obtain ⟨_, -, accepted⟩ := bind_eq_ok.mp accepted
  obtain ⟨_, -, accepted⟩ := bind_eq_ok.mp accepted
  simp only [require_bind_eq_ok] at accepted
  obtain ⟨-, -, -, -, -, accepted⟩ := accepted
  obtain ⟨_, -, accepted⟩ := bind_eq_ok.mp accepted
  rw [checkClose, closed] at accepted
  cases carried : lease.fields.closeRecord with
  | none => rw [carried] at accepted; cases accepted
  | some record =>
      rw [carried] at accepted
      obtain ⟨_, bound, proved⟩ := bind_eq_ok.mp accepted
      rw [if_pos rfl, require_eq_ok] at proved
      obtain ⟨fetched, listed⟩ := closeVerified_absent proved
      cases named : lease.fields.podId with
      | none =>
          rw [named, checkBound, require_eq_ok] at bound
          exact absurd ⟨rfl, rfl⟩ bound
      | some podId =>
          rw [named, checkBound, require_eq_ok] at bound
          exact ⟨podId, record, rfl, rfl, bound, fetched, listed⟩

/-- What later calls leave of a lease, whatever they are. -/
structure Kept (before after : LeaseFields rules) : Prop where
  same : SameLease before after
  podId : before.phase ≠ .pendingCreate → before.podId.isSome = true → after.podId = before.podId
  phase : before.phase.mayBecome after.phase = true
  generation : before.generation ≤ after.generation

theorem Phase.mayBecome_trans {first second third : Phase} (left : first.mayBecome second = true)
    (right : second.mayBecome third = true) : first.mayBecome third = true := by
  cases first <;> cases second <;> cases third <;> simp_all [mayBecome]

theorem Phase.mayBecome_pendingCreate {phase : Phase} (moved : phase.mayBecome .pendingCreate = true) :
    phase = .pendingCreate := by
  cases phase <;> first | rfl | cases moved

theorem SameLease.trans {first second third : LeaseFields rules} (left : SameLease first second)
    (right : SameLease second third) : SameLease first third where
  leaseId := right.leaseId.trans left.leaseId
  launchToken := right.launchToken.trans left.launchToken
  providerName := right.providerName.trans left.providerName
  volumeId := right.volumeId.trans left.volumeId
  createdAt := right.createdAt.trans left.createdAt
  hardDeadline := right.hardDeadline.trans left.hardDeadline

theorem Kept.trans_evolved {operation : LeaseOperation rules} {first second third : LeaseFields rules}
    (kept : Kept first second) (evolved : Evolved operation second third) : Kept first third where
  same := kept.same.trans evolved.same
  podId := by
    intro opened bound
    have earlier := kept.podId opened bound
    rcases evolved.podId (earlier ▸ bound) with same | ⟨-, pending⟩
    · exact same.trans earlier
    · exact absurd (Phase.mayBecome_pendingCreate (pending ▸ kept.phase)) opened
  phase := Phase.mayBecome_trans kept.phase evolved.phase
  generation := by
    have grown := evolved.generation
    have earlier := kept.generation
    split at grown <;> omega

theorem afterCalls_append (earlier later : List (LeaseOperation rules)) :
    afterCalls rules file (earlier ++ later) =
      afterCalls rules (afterCalls rules file earlier) later :=
  List.foldl_append ..

theorem afterCalls_one (operation : LeaseOperation rules) :
    afterCalls rules file [operation] = ((operation.call rules).on file).2 := rfl

/-- A stored lease is there after every call, and no call undoes it. -/
theorem afterCalls_kept (held : Holds file before) (operations : List (LeaseOperation rules)) :
    ∃ after, Holds (afterCalls rules file operations) after ∧ Kept before.fields after.fields := by
  induction operations using List.reverseRecOn with
  | nil =>
      refine ⟨before, held, .refl _, fun _ _ => rfl, ?_, le_refl _⟩
      cases before.fields.phase <;> rfl
  | append_singleton operations operation ih =>
      obtain ⟨lease, stored, kept⟩ := ih
      rw [afterCalls_append, afterCalls_one]
      generalize afterCalls rules file operations = current at stored ⊢
      cases called : (operation.call rules).on current with
      | mk outcome last =>
          cases outcome with
          | error raised =>
              rw [call_keeps operation current raised last called]
              exact ⟨lease, stored, kept⟩
          | ok after =>
              obtain ⟨evolved, held⟩ := call_evolved called stored
              exact ⟨after, held, kept.trans_evolved evolved⟩

/-- A closed lease's file is never written again. -/
theorem call_closed {operation : LeaseOperation rules} (held : Holds file before)
    (closed : before.fields.phase = .closedVerified) : ((operation.call rules).on file).2 = file := by
  cases called : (operation.call rules).on file with
  | mk outcome last =>
      cases outcome with
      | error raised => exact call_keeps operation file raised last called
      | ok after =>
          cases operation with
          | create lease =>
              obtain ⟨rfl, -⟩ := create_on_ok called
              cases held
          | bindPod ownerToken record now =>
              have pending := require_eq_ok.mp (changed_on_ok called held).2.1
              rw [closed] at pending
              cases pending
          | recordControllerArming ownerToken record now =>
              have active := require_eq_ok.mp (changed_on_ok called held).2.1
              rw [closed] at active
              exact nomatch active.1
          | notePendingRecoveryAttempt ownerToken now =>
              have pending := require_eq_ok.mp (changed_on_ok called held).2.1
              rw [closed] at pending
              exact nomatch pending.1
          | heartbeat ownerToken now =>
              have active := require_eq_ok.mp (changed_on_ok called held).2.1
              rw [closed] at active
              cases active
          | claimIfOrphan ownerToken now staleAfter =>
              obtain ⟨-, ⟨-, same⟩ | ⟨active, -⟩⟩ :=
                claim_on_ok (claimIfOrphan_on_ok called held) held
              · exact same
              · rw [closed] at active
                cases active
          | recordClose ownerToken record verified now =>
              exact absurd closed (recordClose_on_ok called held).2.1

theorem afterCalls_closed (held : Holds file before)
    (closed : before.fields.phase = .closedVerified) (operations : List (LeaseOperation rules)) :
    afterCalls rules file operations = file := by
  induction operations with
  | nil => rfl
  | cons operation operations ih =>
      rw [afterCalls, List.foldl_cons, call_closed held closed, ← afterCalls, ih]

/-- A lease file of a run holds nothing, or one lease. -/
theorem afterCalls_holds (operations : List (LeaseOperation rules)) :
    afterCalls rules none operations = none ∨
      ∃ lease : PodLease rules, Holds (afterCalls rules none operations) lease := by
  induction operations using List.reverseRecOn with
  | nil => exact .inl rfl
  | append_singleton operations operation ih =>
      rcases ih with empty | ⟨lease, held⟩
      · rw [afterCalls_append, empty, afterCalls_one]
        cases called : (operation.call rules).on none with
        | mk outcome last =>
            cases outcome with
            | error raised => exact .inl (call_keeps operation none raised last called)
            | ok after => exact .inr ⟨after, call_created called⟩
      · obtain ⟨after, stored, -⟩ := afterCalls_kept held [operation]
        rw [afterCalls_append]
        exact .inr ⟨after, stored⟩

end Runs

section Sample

/-- A number written in digits. -/
def sampleDigits (number : ℕ) : String := String.ofList (Nat.toDigits 10 number)

def sampleNumber (text : Str) : ℕ := Nat.ofDigitChars 10 (plainText text).toList 0

theorem sampleNumber_digits (number : ℕ) : sampleNumber (str (sampleDigits number)) = number := by
  rw [sampleNumber, plainText_str, sampleDigits, String.toList_ofList, Nat.ofDigitChars_ten_toDigits]

def samplePrint : Decimal → String
  | .finite negative coefficient exponent =>
    sampleDigits (Encodable.encode (negative, coefficient, exponent))
  | .special printed => printed

def sampleRead (text : Str) : Option Decimal :=
  (Encodable.decode (sampleNumber text) : Option (Bool × ℕ × ℤ)).map fun parts =>
    .finite parts.1 parts.2.1 parts.2.2

def instantOf (number : ℕ) : Option Instant :=
  if inRange : number ≤ lastMicros then some ⟨number, inRange⟩ else none

theorem instantOf_val (time : Instant) : instantOf time.1 = some time := dif_pos time.2

def sampleReadStamp (text : Str) : Option Instant := instantOf (sampleNumber text)

theorem sampleReadStamp_digits (time : Instant) :
    sampleReadStamp (str (sampleDigits time.1)) = some time := by
  rw [sampleReadStamp, sampleNumber_digits, instantOf_val]

theorem sampleDigits_ne_empty (number : ℕ) : sampleDigits number ≠ "" := by
  intro empty
  have digits := congrArg String.toList empty
  rw [sampleDigits, String.toList_ofList] at digits
  exact Nat.toDigits_ne_nil digits

theorem sampleRead_print (amount : Decimal) (money : amount.isMoney = true) :
    sampleRead (str (samplePrint amount)) = some amount := by
  cases amount with
  | finite negative coefficient exponent =>
      rw [samplePrint, sampleRead, sampleNumber_digits, Encodable.encodek]
      rfl
  | special printed => cases money

def sampleRules : LeaseRules where
  digestText := fun _ => str "digest"
  stamp := fun time => sampleDigits time.1
  readStamp := sampleReadStamp
  readStamp_stamp := sampleReadStamp_digits
  stamp_ne_empty := fun time => sampleDigits_ne_empty time.1
  printDecimal := samplePrint
  readDecimal := sampleRead
  readDecimal_print := sampleRead_print
  repr := fun _ => ""
  lower := id
  checkRequest := fun _ => .ok ()

def sampleStart : Instant := ⟨0, by decide⟩

def sampleDeadline : Instant := ⟨1000000, by decide⟩

def sampleToken : String := "00000000000000000000000000000000"

def sampleRate : Decimal := .finite false 0 0

def sampleIntent : PendingCreateIntent sampleRules where
  fields := ⟨"reader", "gpu", "image", "volume-1", "/workspace", [], sampleDeadline, "commit",
    sampleToken, sampleRate, sampleRate, 0, none⟩
  accepted := by rfl

/-- A lease that awaits its create and already names a pod. -/
def sampleFields (podId : String) (phase : Phase)
    (pendingCreate : Option (PendingCreateIntent sampleRules)) (startedAt : Option Instant) :
    LeaseFields sampleRules :=
  ⟨sampleToken, sampleToken, "provider", some podId, "volume-1", sampleRate, sampleRate, sampleStart,
    startedAt, sampleDeadline, "owner", sampleStart, 1, phase, none, pendingCreate, none, 0⟩

def samplePending : PodLease sampleRules where
  fields := sampleFields "pod-a" .pendingCreate (some sampleIntent) none
  accepted := by decide +kernel

def sampleBound : PodLease sampleRules where
  fields := sampleFields "pod-b" .active none (some sampleStart)
  accepted := by decide +kernel

def samplePod : PodRecord where
  podId := "pod-b"
  name := "reader"
  estimate := ⟨sampleRate, sampleRate, "listing", sampleStart, by decide, by decide +kernel⟩
  volumeId := "volume-1"
  createdAt := sampleStart
  state := "RUNNING"
  runtimeContract := none
  contractRefusal := none
  named := by decide +kernel

theorem exists_toRecord {lease : PodLease rules} {record : JsonValue}
    (unsealed : .object (withoutKey "self_hash" (named (unsealedRecord rules lease.fields))) = record)
    (checks : jsonDepth record ≤ maxCanonicalDepth ∧ Keyed record ∧
      record.parts.all plainJson = true ∧ ∀ part ∈ record.parts, part.Textual) :
    ∃ record, toRecord rules lease = .ok record := by
  obtain ⟨data, written⟩ := exists_recordBytes_of checks
  refine ⟨_, (toRecord_eq_ok lease).mpr (bind_eq_ok.mpr ⟨rules.digestText data, ?_, rfl⟩)⟩
  rw [recordHash, unsealed, written]
  rfl

theorem samplePending_record : ∃ record, toRecord sampleRules samplePending = .ok record :=
  exists_toRecord rfl (by decide +kernel)

theorem sampleBound_record : ∃ record, toRecord sampleRules sampleBound = .ok record :=
  exists_toRecord rfl (by decide +kernel)

end Sample

end Verbatus.Pod
