import Prompter.Error
import Prompter.Table
import Prompter.Value

/-!
# Prompter.Library.Variables

Storage for the variables of scripts. The name of a variable starts with a dollar sign; a value
under any other name is refused.
-/

namespace Prompter

/-- Values by variable name. -/
structure Variables where
  values : Table Value := .empty
deriving DecidableEq

namespace Variables

/-- The value of a variable. -/
def find? (vs : Variables) (name : String) : Option Value := vs.values.find? name

/-- Whether a text is the name of a variable. -/
def isName (name : String) : Bool := name.toList.head? = some '$'

/-- Stores a value. -/
def set (vs : Variables) (name : String) (value : Value) : Except DialogueError Variables :=
  if isName name then .ok ⟨vs.values.insert name value⟩ else .error (.variableName name)

/-- Every variable with its value, in the order of the names. -/
def entries (vs : Variables) : List (String × Value) := vs.values.entries

end Variables

end Prompter
