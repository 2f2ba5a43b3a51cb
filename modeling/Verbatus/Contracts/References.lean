import Verbatus.Contracts.Dicts

namespace Verbatus.Canonical

open Library Library.Checked Refusal Python CodePoint
open Identities (str)

section Values

/-- A plain integer that is not below zero. -/
def count? : JsonValue → Option ℤ
  | .int value => if 0 ≤ value then some value else none
  | _ => none

def textOf? : JsonValue → Option Str
  | .str text => some text
  | _ => none

def textsOf? : JsonValue → Option (List Str)
  | .list items => items.mapM textOf?
  | _ => none

/-- `_is_run_relative` -/
def isRunRelative (path : Str) : Bool :=
  !path.contains (ofCode 0) &&
    (path.splitOn (scalar '/')).all fun segment => decide (segment ∉ ["", ".", ".."].map str)

/-- A reference to a file of the run. -/
structure Reference where
  path : Str
  sha256 : Str
  deriving DecidableEq

def Reference.json (reference : Reference) : JsonValue :=
  .object (named [("relative_path", .str reference.path), ("sha256", .str reference.sha256)])

/-- `digest_ref` -/
def digestRef (value : JsonValue) (what : String) : Except Refusal Reference :=
  match value with
  | .object fields => do
    require (hasExactly ["relative_path", "sha256"] fields = true)
      (.schemaRefusal (what ++ " is not a closed relative_path, sha256 reference"))
    match fieldOf "relative_path" fields, fieldOf "sha256" fields with
    | .str path, digest => do
      require (isBlank path = false) (.schemaRefusal (what ++ " has no relative_path"))
      require (isRunRelative path = true)
        (.schemaRefusal s!"{what} relative_path {quote (plainText path)} is not a canonical run-relative path")
      match digest with
      | .str sha256 => do
        require (isSha256 sha256 = true)
          (.schemaRefusal (what ++ " sha256 is not a lowercase sha256"))
        .ok ⟨path, sha256⟩
      | _ => .error (.schemaRefusal (what ++ " sha256 is not a lowercase sha256"))
    | _, _ => .error (.schemaRefusal (what ++ " has no relative_path"))
  | _ => .error (.schemaRefusal (what ++ " is not a closed relative_path, sha256 reference"))

end Values

end Verbatus.Canonical
