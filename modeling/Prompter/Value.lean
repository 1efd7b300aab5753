import Prompter.Number.Writing

/-!
# Prompter.Value

Values of script variables: truth values, single precision numbers and texts.

`display` is how a value reads in running text. `equals` compares as scripts do: numbers by
magnitude, so zero has one value whatever its sign and a NaN equals nothing, and values of two kinds
never. `=` on the type itself tells all of these apart.
-/

namespace Prompter

inductive Value
  | bool (b : Bool)
  | number (x : Float32)
  | text (s : String)
deriving DecidableEq

namespace Value

def number? : Value → Option Float32
  | number x => some x
  | _ => none

def bool? : Value → Option Bool
  | bool b => some b
  | _ => none

def text? : Value → Option String
  | text s => some s
  | _ => none

/-- The value in running text. -/
def display : Value → String
  | bool b => if b then "true" else "false"
  | number x => Number.displaySingle x
  | text s => s

/-- Whether two values are equal to a script. -/
def equals : Value → Value → Bool
  | bool a, bool b => a = b
  | number x, number y => x == y
  | text s, text t => s = t
  | _, _ => false

end Value

end Prompter
