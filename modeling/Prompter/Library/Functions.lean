import Prompter.Error
import Prompter.HostKey
import Prompter.Remark
import Prompter.Table
import Prompter.Value

/-!
# Prompter.Library.Functions

The functions that scripts may call. A name is bound at most once; a call with another number of
arguments than declared does not reach the function.
-/

namespace Prompter

/-- A function of the host, with the number of its arguments. -/
structure ScriptFunction where
  arity : Nat
  key : HostKey
deriving DecidableEq

/-- Functions by name. -/
structure FunctionTable where
  functions : Table ScriptFunction := .empty
deriving DecidableEq

namespace FunctionTable

/-- Binds a name that is not bound yet. -/
def register (l : FunctionTable) (name : String) (f : ScriptFunction) :
    Except CommandError FunctionTable × List Remark :=
  if l.functions.contains name then
    let e := CommandError.duplicate name
    (.error e, [⟨.error, .functions, s!"cannot register function: {e.message}"⟩])
  else (.ok ⟨l.functions.insert name f⟩, [])

def unregister (l : FunctionTable) (name : String) : FunctionTable :=
  ⟨l.functions.erase name⟩

/-- The function of a name that takes the given number of arguments. -/
def find? (l : FunctionTable) (name : String) (count : Nat) :
    Option ScriptFunction × List Remark :=
  match l.functions.find? name with
  | none => (none, [])
  | some f =>
    if count = f.arity then (some f, [])
    else
      (none, [⟨.error, .functions,
        s!"function '{name}' expects {f.arity} argument(s), got {count}"⟩])

/-- What is found under a name is the function there, if it takes as many arguments. -/
theorem find?_eq_some {l : FunctionTable} {name : String} {count : Nat} {f : ScriptFunction} :
    (l.find? name count).1 = some f ↔ l.functions.find? name = some f ∧ f.arity = count := by
  unfold find?
  cases l.functions.find? name with
  | none => simp
  | some g =>
    by_cases fits : count = g.arity
    · simp only [if_pos fits, Option.some.injEq]
      exact ⟨fun same => ⟨same, same ▸ fits.symm⟩, And.left⟩
    · simp only [if_neg fits, Option.some.injEq]
      refine ⟨nofun, ?_⟩
      rintro ⟨rfl, other⟩
      exact absurd other.symm fits

end FunctionTable

end Prompter
