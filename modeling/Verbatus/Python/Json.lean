import Mathlib.Tactic
import Verbatus.Refusal

namespace Verbatus.Python

open Refusal

/-- A decoded JSON value; a fractional number is kept as it prints. -/
inductive Json where
  | null
  | bool (value : Bool)
  | int (value : ℤ)
  | float (printed : String)
  | str (text : String)
  | list (elements : List Json)
  | object (fields : List (String × Json))

namespace Json

/-- The keys of an object, and no key of any other value. -/
def keys : Json → List String
  | object fields => fields.map Prod.fst
  | _ => []

/-- The value an object holds under a key. -/
def get? (key : String) : Json → Option Json
  | object fields => fields.lookup key
  | _ => none

/-- The value an object holds under a key, `None` where it holds none. -/
def get (key : String) (value : Json) : Json := (value.get? key).getD null

def isObject : Json → Bool
  | object _ => true
  | _ => false

def isNull : Json → Bool
  | null => true
  | _ => false

def str? : Json → Option String
  | str text => some text
  | _ => none

/-- A Boolean is no integer here, as it is one to Python's `isinstance`. -/
def int? : Json → Option ℤ
  | int value => some value
  | _ => none

def bool? : Json → Option Bool
  | bool value => some value
  | _ => none

def list? : Json → Option (List Json)
  | list elements => some elements
  | _ => none

/-- A value of the type the grammar gives a field; an answer inside the grammar has no other. -/
def text (value : Json) : String := value.str?.getD ""

def number (value : Json) : ℤ := value.int?.getD 0

def flag (value : Json) : Bool := value.bool?.getD false

def elements (value : Json) : List Json := value.list?.getD []

@[simp] theorem text_str (text : String) : (str text).text = text := rfl
@[simp] theorem number_int (value : ℤ) : (int value).number = value := rfl
@[simp] theorem elements_list (elements : List Json) : (list elements).elements = elements := rfl

theorem str?_eq_some {value : Json} {text : String} : value.str? = some text ↔ value = str text := by
  cases value <;> simp [str?]

theorem int?_eq_some {value : Json} {number : ℤ} : value.int? = some number ↔ value = int number := by
  cases value <;> simp [int?]

theorem list?_eq_some {value : Json} {elements : List Json} :
    value.list? = some elements ↔ value = list elements := by
  cases value <;> simp [list?]

def quoteBool (value : Bool) : String := if value then "True" else "False"

mutual

/-- The value as Python's `repr` writes it. -/
def repr : Json → String
  | null => "None"
  | bool value => quoteBool value
  | int value => toString value
  | float printed => printed
  | str text => quote text
  | list elements => "[" ++ ", ".intercalate (reprElements elements) ++ "]"
  | object fields => "\x7b" ++ ", ".intercalate (reprFields fields) ++ "\x7d"

def reprElements : List Json → List String
  | [] => []
  | element :: elements => element.repr :: reprElements elements

def reprFields : List (String × Json) → List String
  | [] => []
  | (key, value) :: fields => (quote key ++ ": " ++ value.repr) :: reprFields fields

end

def quotedMaxCharacters : ℕ := 40

/-- A found value for a problem's detail: a short scalar quoted, anything else its type. -/
def shown : Json → String
  | str text =>
    let quoted := quote (String.ofList (text.toList.take quotedMaxCharacters))
    if text.length ≤ quotedMaxCharacters then quoted else quoted ++ "..."
  | null => "null"
  | bool value => if value then "true" else "false"
  | int value => String.ofList ((toString value).toList.take quotedMaxCharacters)
  | float printed => String.ofList (printed.toList.take quotedMaxCharacters)
  | list _ => "a list"
  | object _ => "an object"

end Json

end Verbatus.Python
