import Prompter.Command.Parameter
import Prompter.HostKey

/-!
# Prompter.Command.Binding

The two name tables of commands. Handlers are registered by name and may be unregistered; methods
are declared by component types, in a table that is built once. In both the first binding of a name
stays.

What a handler or a method does is the host's: a binding holds only the key by which the host knows
it.
-/

namespace Prompter

/-- A registered handler. A pausing one is given a resume handle, and the script waits until the
handle is used. -/
structure Handler where
  params : List Parameter
  pausing : Bool
  key : HostKey
deriving DecidableEq

def Handler.shown (h : Handler) : String :=
  Text.record (if h.pausing then "Pausing" else "NonPausing") [("params", showParameters h.params)]

structure HandlerTable where
  handlers : Table Handler := .empty
deriving DecidableEq

namespace HandlerTable

/-- Binds a name that is not bound yet. -/
def register (r : HandlerTable) (name : String) (h : Handler) :
    Except CommandError HandlerTable × List Remark :=
  if r.handlers.contains name then
    let e := CommandError.duplicate name
    (.error e, [⟨.error, .handlers, s!"cannot register command: {e.message}"⟩])
  else
    (.ok ⟨r.handlers.insert name h⟩,
      [⟨.debug, .handlers, s!"registered command '{name}' ({h.shown})"⟩])

def unregister (r : HandlerTable) (name : String) : HandlerTable × List Remark :=
  if r.handlers.contains name then
    (⟨r.handlers.erase name⟩, [⟨.debug, .handlers, s!"unregistered command '{name}'"⟩])
  else (r, [])

def find? (r : HandlerTable) (name : String) : Option Handler := r.handlers.find? name

end HandlerTable

/-- How a method runs. -/
inductive MethodKind
  /-- It is done when it returns. -/
  | immediate
  /-- It goes on after it returned, and resumes the script through its handle. -/
  | suspending
  /-- It returns a task; the script is resumed when the task ends. -/
  | task
deriving DecidableEq

/-- A command method of a component type. -/
structure Method where
  name : String
  type : ComponentType
  params : List Parameter
  kind : MethodKind
  key : HostKey
deriving DecidableEq

namespace Method

/-- Whether the script may have to wait for the method. -/
def mayPause (m : Method) : Bool := m.kind ≠ .immediate

def shown (m : Method) : String :=
  Text.record "MethodDescriptor"
    [("name", Text.quoted m.name), ("declaring_type", m.type.name),
      ("params", showParameters m.params),
      ("suspending", if m.mayPause then "true" else "false")]

end Method

/-- Methods by command name, and the collisions found while they were gathered, in order. -/
structure MethodTable where
  methods : Table Method := .empty
  collisions : List CommandError := []
deriving DecidableEq

namespace MethodTable

/-- Adds a method unless its name is taken. -/
def add (t : MethodTable) (m : Method) : MethodTable × List Remark :=
  match t.methods.find? m.name with
  | some kept =>
    let e := CommandError.collision m.name kept.type.name m.type.name
    ({ t with collisions := t.collisions ++ [e] }, [⟨.error, .methods, e.message⟩])
  | none =>
    ({ t with methods := t.methods.insert m.name m },
      [⟨.trace, .methods, s!"command method {m.shown}"⟩])

/-- Adds methods one after the other. -/
def addAll (t : MethodTable) : List Method → MethodTable × List Remark
  | [] => (t, [])
  | m :: ms =>
    let (t, remarks) := t.add m
    let (t, more) := addAll t ms
    (t, remarks ++ more)

/-- The table of a list of methods. -/
def build (ms : List Method) : MethodTable × List Remark :=
  let (t, remarks) := addAll {} ms
  (t, remarks ++
    [⟨.debug, .methods, s!"command method table built with {t.methods.size} method(s)"⟩])

def find? (t : MethodTable) (name : String) : Option Method := t.methods.find? name

end MethodTable

end Prompter
