import Lox.Number.Format
import Lox.Text.Quoted
/-!
# `Value` — what expressions evaluate to

Numbers, strings, truth values and `nil`. Only `nil` and `false` count as false. Values of
different sorts are never equal; numbers compare as doubles do, so that a number that is
none differs from itself.
-/
namespace Lox

/-- A value. -/
inductive Value where
  | number (v : Float)
  | string (s : String)
  | bool (b : Bool)
  | nil
  deriving DecidableEq

namespace Value

/-- What a message calls the sort of a value. -/
def sortName : Value → String
  | number _ => "number"
  | string _ => "string"
  | bool _ => "bool"
  | nil => "nil"

/-- A value as `print` shows it. -/
def text : Value → String
  | number v => Number.text v
  | string s => s
  | bool true => "true"
  | bool false => "false"
  | nil => "nil"

/-- A value as a message shows it: on one line, strings quoted. -/
def display : Value → String
  | string s => Text.quote s
  | v => v.text

/-- Does the value count as true? -/
def isTruthy : Value → Bool
  | bool b => b
  | nil => false
  | _ => true

/-- Are the values equal, as the language has it? -/
def equals : Value → Value → Bool
  | number a, number b => a == b
  | string a, string b => a == b
  | bool a, bool b => a == b
  | nil, nil => true
  | _, _ => false

end Value
end Lox
