import Verbatus.PageAccounting.Policy

namespace Verbatus.PageAccounting

/-- The rules a page's readings are accounted by. -/
inductive RuleName where
  | a | b | c | d | e | f | g | h | i | j
  deriving DecidableEq, Repr

def RuleName.text : RuleName → String
  | a => "a" | b => "b" | c => "c" | d => "d" | e => "e"
  | f => "f" | g => "g" | h => "h" | i => "i" | j => "j"

def rules : List RuleName := [.a, .b, .c, .d, .e, .f, .g, .h, .i, .j]

/-- What a rule's measurement comes to. -/
inductive Status where
  | pass
  | hold
  | flag
  | notMeasured
  | notApplicable
  deriving DecidableEq, Repr

def Status.text : Status → String
  | pass => "pass"
  | hold => "hold"
  | flag => "flag"
  | notMeasured => "not-measured"
  | notApplicable => "not-applicable"

end Verbatus.PageAccounting
