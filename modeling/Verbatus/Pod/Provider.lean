import Verbatus.Pod.Values

namespace Verbatus.Pod

open Canonical (isBlank)
open Identities (str)

section Observations

/-- A price observation. -/
structure PodEstimate where
  podHourlyUsd : Decimal
  volumeHourlyUsd : Decimal
  source : String
  observedAt : Instant
  priced : podHourlyUsd.isMoney = true ∧ volumeHourlyUsd.isMoney = true
  sourced : isBlank (str source) = false

/-- The runtime facts of a pod that its provider observed; an interruptible pod has none. -/
structure PodRuntimeContract where
  gpuType : String
  image : String
  volumeId : String
  volumeMountPath : String
  dockerStartCmd : List String
  billingCutoffMarginSeconds : ℤ
  template : Option String
  deriving DecidableEq

/-- The pod a provider created or exposed for adoption. -/
structure PodRecord where
  podId : String
  name : String
  estimate : PodEstimate
  volumeId : String
  createdAt : Instant
  state : String
  runtimeContract : Option PodRuntimeContract
  contractRefusal : Option String
  named : isBlank (str podId) = false ∧ isBlank (str name) = false ∧ isBlank (str volumeId) = false

inductive Presence where
  | present
  | absent
  | unknown
  deriving DecidableEq

/-- The answer of the exact-pod observation. -/
structure ProviderStatus where
  podId : String
  presence : Presence
  observedAt : Instant
  detail : String
  httpStatus : Option ℤ
  providerState : Option String
  startedAt : Option Instant
  deriving DecidableEq

/-- The answer of the pod-list observation. -/
structure AbsenceObservation where
  podId : String
  presence : Presence
  observedAt : Instant
  detail : String
  deriving DecidableEq

inductive BillingState where
  | captured
  | pendingReconciliation
  | unavailable
  deriving DecidableEq

def BillingState.text : BillingState → String
  | captured => "captured"
  | pendingReconciliation => "pending-reconciliation"
  | unavailable => "unavailable"

/-- One billing record of the provider. -/
structure CostLine where
  amountUsd : Decimal
  description : String
  recordedAt : Option Instant
  billed : amountUsd.isMoney = true
  described : isBlank (str description) = false
  deriving DecidableEq

/-- Billing records captured through a cutoff. -/
structure CostCapture where
  podId : String
  state : BillingState
  cutoffAt : Instant
  lines : List CostLine
  reason : String
  source : String
  windowStartAt : Option Instant
  windowed : ∀ start ∈ windowStartAt, start < cutoffAt
  recorded : state = .captured ↔ lines ≠ []

end Observations

end Verbatus.Pod
