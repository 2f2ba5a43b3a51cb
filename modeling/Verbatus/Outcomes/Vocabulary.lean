import Mathlib.Data.String.Basic
import Mathlib.Tactic
import Verbatus.Library.Checked
import Verbatus.Library.Mapping
import Verbatus.Refusal

namespace Verbatus.Outcomes

open Library Library.Checked Refusal

/-- The three terminal sets; every unit is in exactly one. -/
inductive OutcomeClass where
  | completed
  | unresolved
  | failed
  deriving DecidableEq, Repr

def OutcomeClass.text : OutcomeClass → String
  | completed => "completed"
  | unresolved => "unresolved"
  | failed => "failed"

/-- The five terminal categories an act can end in. -/
inductive ArmariumCategory where
  | delivered
  | heldForReview
  | excludedWithApproval
  | confirmedBlank
  | refusedWithReason
  deriving DecidableEq, Repr

def ArmariumCategory.text : ArmariumCategory → String
  | delivered => "delivered"
  | heldForReview => "held-for-review"
  | excludedWithApproval => "excluded-with-approval"
  | confirmedBlank => "confirmed-blank"
  | refusedWithReason => "refused-with-reason"

/-- A category's class in the Armarium's own vocabulary. -/
def ArmariumCategory.outcomeClass : ArmariumCategory → OutcomeClass
  | delivered => .completed
  | heldForReview => .unresolved
  | excludedWithApproval => .completed
  | confirmedBlank => .completed
  | refusedWithReason => .failed

/-- The Exemplar's own outcomes, and the boundary outcomes every stage's vocabulary holds. -/
def exemplarVocabulary : List (String × OutcomeClass) :=
  [("sealed", .completed), ("refused", .failed), ("recorded", .completed)]

/-- The class of an Exemplar outcome; one outside its vocabulary is a fatal imbalance. -/
def classifyExemplar (outcome : Option String) : Except Refusal OutcomeClass :=
  match outcome.bind fun word => exemplarVocabulary.lookup word with
  | some klass => .ok klass
  | none => .error (.fatalAccounting
      (s!"exemplar produced outcome {quote outcome}, which is in no terminal set; " ++
      s!"its closed vocabulary is {quote (sortedSet (exemplarVocabulary.map Prod.fst))}. " ++
      "A unit in no set is a fatal accounting imbalance, never a warning"))

end Verbatus.Outcomes
