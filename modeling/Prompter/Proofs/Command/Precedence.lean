import Mathlib.Data.List.DropRight
import Mathlib.Data.List.Induction
import Prompter.Session.Call

/-!
# Prompter.Proofs.Command.Precedence

The first binding of a name stays.

Handlers and functions are bound and released one after the other. Their two tables differ in what
they log; what they do to a name is the same, and is said once for both (`KeepsFirst.Law`). Whatever
operations a table has gone through, a name is bound there as it was first bound after it was
released for the last time (`KeepsFirst.found`).

Methods are only added. The same policy then makes a table of the first method of each name, and a
list of the others (`Gathers`).
-/

namespace Prompter

variable {β τ : Type}

/-! ### Histories of a name -/

/-- An operation on a table that binds names. -/
inductive Naming (β : Type)
  | bind (name : String) (entry : β)
  | release (name : String)

namespace Naming

/-- The name that an operation is about. -/
def name : Naming β → String
  | bind name _ | release name => name

/-- What an operation would bind a name to. -/
def binds? (name : String) : Naming β → Option β
  | bind other entry => if other = name then some entry else none
  | release _ => none

def releases (name : String) : Naming β → Bool
  | bind _ _ => false
  | release other => other = name

end Naming

/-- The first binding of a name after its latest release, if there is one. Operations are listed in
their order. -/
def firstBinding (name : String) (ops : List (Naming β)) : Option β :=
  (ops.rtakeWhile fun op => !op.releases name).findSome? (·.binds? name)

@[simp] theorem firstBinding_nil (name : String) :
    firstBinding name ([] : List (Naming β)) = none :=
  rfl

/-- A binding counts only if the name was free. -/
theorem firstBinding_bind (ops : List (Naming β)) (bound name : String) (entry : β) :
    firstBinding name (ops ++ [.bind bound entry]) =
      (firstBinding name ops).or (if bound = name then some entry else none) := by
  rw [firstBinding, List.rtakeWhile_concat_pos _ _ _ rfl, List.findSome?_append]
  congr 1
  by_cases same : bound = name <;> simp [Naming.binds?, same]

theorem firstBinding_release (ops : List (Naming β)) (released name : String) :
    firstBinding name (ops ++ [.release released]) =
      if released = name then none else firstBinding name ops := by
  by_cases same : released = name
  · rw [firstBinding, List.rtakeWhile_concat_neg _ _ _ (by simp [Naming.releases, same]),
      if_pos same]
    rfl
  · rw [firstBinding, List.rtakeWhile_concat_pos _ _ _ (by simp [Naming.releases, same]),
      List.findSome?_append, if_neg same]
    simp [Naming.binds?, firstBinding]

/-! ### Tables that keep the first binding -/

/-- A table after the operations of a list, one after the other. -/
def performAll (perform : τ → Naming β → τ × Option CommandError) (t : τ) (ops : List (Naming β)) :
    τ :=
  ops.foldl (fun t op => (perform t op).1) t

/-- A kind of table that keeps the first binding of every name: what is found in it after any
operations, and how it answers to the next one. An operation is answered to with an error, or with
none. -/
structure KeepsFirst (find? : τ → String → Option β)
    (perform : τ → Naming β → τ × Option CommandError) (start : τ) : Prop where
  /-- What a name is bound to. -/
  found (ops : List (Naming β)) (name : String) :
    find? (performAll perform start ops) name = firstBinding name ops
  /-- A name that is free can be bound. -/
  accepts (ops : List (Naming β)) (name : String) (entry : β)
    (free : firstBinding name ops = none) :
    (perform (performAll perform start ops) (.bind name entry)).2 = none
  /-- A name that is taken cannot, and nothing changes then. -/
  refuses (ops : List (Naming β)) (name : String) (entry : β)
    (taken : firstBinding name ops ≠ none) :
    perform (performAll perform start ops) (.bind name entry) =
      (performAll perform start ops, some (.duplicate name))
  /-- A release is never refused. -/
  releases (ops : List (Naming β)) (name : String) :
    (perform (performAll perform start ops) (.release name)).2 = none
  /-- Other names are not affected. -/
  others (ops : List (Naming β)) (op : Naming β) (name : String) (other : op.name ≠ name) :
    find? (perform (performAll perform start ops) op).1 name =
      find? (performAll perform start ops) name

/-- What one operation does in a table that keeps the first binding of every name. -/
structure KeepsFirst.Law (find? : τ → String → Option β)
    (perform : τ → Naming β → τ × Option CommandError) : Prop where
  /-- Binds a free name, and no other. -/
  free {t : τ} {bound : String} (free : find? t bound = none) (entry : β) (name : String) :
    find? (perform t (.bind bound entry)).1 name =
        (if bound = name then some entry else find? t name) ∧
      (perform t (.bind bound entry)).2 = none
  /-- Leaves everything as it is if the name is taken. -/
  taken {t : τ} {bound : String} (taken : find? t bound ≠ none) (entry : β) :
    perform t (.bind bound entry) = (t, some (.duplicate bound))
  /-- Releases the name, and no other. -/
  release (t : τ) (released name : String) :
    find? (perform t (.release released)).1 name =
        (if released = name then none else find? t name) ∧
      (perform t (.release released)).2 = none

namespace KeepsFirst.Law

variable {find? : τ → String → Option β} {perform : τ → Naming β → τ × Option CommandError}

/-- A name that is not bound, or is not the name of the operation, is found as before. -/
theorem find?_bind (law : Law find? perform) (t : τ) (bound : String) (entry : β) (name : String) :
    find? (perform t (.bind bound entry)).1 name =
      (find? t name).or (if bound = name then some entry else none) := by
  cases free : find? t bound with
  | none =>
    rw [(law.free free entry name).1]
    by_cases same : bound = name
    · simp [same, same ▸ free]
    · simp [same]
  | some kept =>
    rw [law.taken (by simp [free]) entry]
    by_cases same : bound = name
    · simp [← same, free]
    · simp [same]

/-- The induction over the operations, for every kind of table. -/
theorem found (law : Law find? perform) {start : τ} (empty : ∀ name, find? start name = none)
    (ops : List (Naming β)) (name : String) :
    find? (performAll perform start ops) name = firstBinding name ops := by
  induction ops using List.reverseRecOn with
  | nil => exact empty name
  | append_singleton ops op ih =>
    rw [performAll, List.foldl_append, List.foldl_cons, List.foldl_nil, ← performAll]
    cases op with
    | bind bound entry => rw [law.find?_bind, ih, firstBinding_bind]
    | release released => rw [(law.release _ released name).1, ih, firstBinding_release]

theorem keepsFirst (law : Law find? perform) {start : τ}
    (empty : ∀ name, find? start name = none) : KeepsFirst find? perform start where
  found := law.found empty
  accepts ops name entry free := (law.free ((law.found empty ops name).trans free) entry name).2
  refuses ops name entry taken := law.taken (law.found empty ops name ▸ taken) entry
  releases ops name := (law.release _ name name).2
  others ops op name other := by
    cases op with
    | bind bound entry => simp [law.find?_bind, show bound ≠ name from other]
    | release released =>
      rw [(law.release _ released name).1, if_neg (show released ≠ name from other)]

end KeepsFirst.Law

/-! ### Handlers and functions -/

/-- The table that an operation on handlers leaves, and the error that it ends with. -/
def HandlerTable.perform (r : HandlerTable) :
    Naming Handler → HandlerTable × Option CommandError
  | .bind name h =>
    match (r.register name h).1 with
    | .ok r => (r, none)
    | .error e => (r, some e)
  | .release name => ((r.unregister name).1, none)

/-- What an operation on functions leaves, and the error that it ends with. -/
def FunctionTable.perform (l : FunctionTable) :
    Naming ScriptFunction → FunctionTable × Option CommandError
  | .bind name f =>
    match (l.register name f).1 with
    | .ok l => (l, none)
    | .error e => (l, some e)
  | .release name => (l.unregister name, none)

theorem HandlerTable.law : KeepsFirst.Law HandlerTable.find? HandlerTable.perform where
  free {r bound} free h name := by
    have free : r.handlers.find? bound = none := free
    simp [HandlerTable.perform, register, Table.contains, free, find?, Table.find?_insert, eq_comm]
  taken {r bound} taken h := by
    have taken : (r.handlers.find? bound).isSome = true := Option.isSome_iff_ne_none.2 taken
    simp [HandlerTable.perform, register, Table.contains, taken]
  release r released name := by
    refine ⟨?_, rfl⟩
    simp only [HandlerTable.perform, unregister]
    by_cases bound : r.handlers.contains released = true
    · simp [bound, find?, Table.find?_erase, eq_comm]
    · have free : r.handlers.find? released = none := by simpa [Table.contains] using bound
      by_cases same : released = name
      · simp [bound, find?, ← same, free]
      · simp [bound, same]

/-- The function of a name, whatever the number of its arguments. -/
def FunctionTable.bound? (l : FunctionTable) (name : String) : Option ScriptFunction :=
  l.functions.find? name

theorem FunctionTable.law : KeepsFirst.Law FunctionTable.bound? FunctionTable.perform where
  free {l bound} free f name := by
    have free : l.functions.find? bound = none := free
    simp [FunctionTable.perform, register, Table.contains, free, bound?, Table.find?_insert,
      eq_comm]
  taken {l bound} taken f := by
    have taken : (l.functions.find? bound).isSome = true := Option.isSome_iff_ne_none.2 taken
    simp [FunctionTable.perform, register, Table.contains, taken]
  release l released name := by
    simp [FunctionTable.perform, unregister, bound?, Table.find?_erase, eq_comm]

/-! ### Requests -/

/-- How a session replies to an operation. -/
def CommandError.verdict : Option CommandError → Reply
  | none => .done
  | some e => .refused e

namespace Session

/-- The request for an operation on handlers. -/
def handlerRequest : Naming Handler → Call
  | .bind name h => .register name h
  | .release name => .unregister name

/-- The request for an operation on functions. -/
def functionRequest : Naming ScriptFunction → Call
  | .bind name f => .addFunction name f
  | .release name => .removeFunction name

/-- A request on handlers does to the handlers what the operation does, touches nothing else, and
the last that is heard of it is how the operation ended. -/
theorem call_handlerRequest (s : Session) (op : Naming Handler) :
    (s.call (handlerRequest op)).1 =
        { s with commands.handlers := (s.commands.handlers.perform op).1 } ∧
      (s.call (handlerRequest op)).2.getLast? =
        some (.reply (CommandError.verdict (s.commands.handlers.perform op).2)) := by
  cases op with
  | bind name h =>
    simp only [handlerRequest, call, HandlerTable.perform]
    rcases s.commands.handlers.register name h with ⟨e | r, rs⟩ <;> simp [CommandError.verdict]
  | release name => simp [handlerRequest, call, HandlerTable.perform, CommandError.verdict]

theorem call_functionRequest (s : Session) (op : Naming ScriptFunction) :
    (s.call (functionRequest op)).1 = { s with functions := (s.functions.perform op).1 } ∧
      (s.call (functionRequest op)).2.getLast? =
        some (.reply (CommandError.verdict (s.functions.perform op).2)) := by
  cases op with
  | bind name f =>
    simp only [functionRequest, call, FunctionTable.perform]
    rcases s.functions.register name f with ⟨e | l, rs⟩ <;> simp [CommandError.verdict]
  | release name => simp [functionRequest, call, FunctionTable.perform, CommandError.verdict]

end Session

/-! ### Methods -/

/-- The collision of a method with the first of its name among earlier ones. -/
def Method.collision? (earlier : List Method) (m : Method) : Option CommandError :=
  (earlier.find? (·.name = m.name)).map fun kept =>
    .collision m.name kept.type.name m.type.name

/-- The collisions of a list of methods: one for each that has an earlier one of its name. -/
def collisions (ms : List Method) : List CommandError :=
  (List.range ms.length).filterMap fun i => ms[i]?.bind (Method.collision? (ms.take i))

/-- A table holds the first method of each name of a list, and has noted the collisions. -/
structure Gathers (ms : List Method) (t : MethodTable) : Prop where
  found (name : String) : t.find? name = ms.find? (·.name = name)
  collisions : t.collisions = collisions ms
  /-- Every method is in the table or collides. -/
  complete : t.methods.size + t.collisions.length = ms.length

theorem collisions_concat (ms : List Method) (m : Method) :
    collisions (ms ++ [m]) = collisions ms ++ (m.collision? ms).toList := by
  have before : ∀ i ∈ List.range ms.length,
      (ms ++ [m])[i]?.bind (Method.collision? ((ms ++ [m]).take i)) =
        ms[i]?.bind (Method.collision? (ms.take i)) := by
    intro i mem
    have lt := List.mem_range.1 mem
    rw [List.getElem?_append_left lt, List.take_append_of_le_length lt.le]
  rw [collisions, List.length_append, List.length_singleton, List.range_succ,
    List.filterMap_append, List.filterMap_congr before, ← collisions]
  cases clash : m.collision? ms <;> simp [clash]

namespace Table

/-- A new name makes a table larger by one. -/
theorem size_insert {t : Table β} {name : String} (free : t.find? name = none) (value : β) :
    (t.insert name value).size = t.size + 1 := by
  obtain ⟨es, sorted⟩ := t
  simp only [find?, insert, size] at free ⊢
  clear sorted
  induction es with
  | nil => rfl
  | cons e es ih =>
    rw [lookup] at free
    have other : name ≠ e.1 := by
      intro same
      simp [same] at free
    rw [if_neg other] at free
    rw [insertEntry]
    split
    · rfl
    · simp [ih free]

end Table

/-- What one more method does. -/
theorem Gathers.add {ms : List Method} {t : MethodTable} (gathers : Gathers ms t) (m : Method) :
    Gathers (ms ++ [m]) (t.add m).1 := by
  have found : t.methods.find? m.name = ms.find? (·.name = m.name) := gathers.found m.name
  unfold MethodTable.add
  cases taken : t.methods.find? m.name with
  | none =>
    have free : ms.find? (·.name = m.name) = none := found ▸ taken
    refine ⟨fun name => ?_, ?_, ?_⟩
    · rw [MethodTable.find?, Table.find?_insert, List.find?_append, ← gathers.found name]
      by_cases same : name = m.name
      · subst same
        simp [MethodTable.find?, taken]
      · simp [MethodTable.find?, same, Ne.symm same]
    · simp [collisions_concat, Method.collision?, free, gathers.collisions]
    · simp [Table.size_insert taken, ← gathers.complete]
      omega
  | some kept =>
    have first : ms.find? (·.name = m.name) = some kept := found ▸ taken
    refine ⟨fun name => ?_, ?_, ?_⟩
    · rw [List.find?_append, ← gathers.found name]
      by_cases same : m.name = name
      · subst same
        simp [MethodTable.find?, taken]
      · simp [MethodTable.find?, same]
    · simp [collisions_concat, Method.collision?, first, gathers.collisions]
    · simp [← gathers.complete]
      omega

theorem Gathers.addAll {done : List Method} {t : MethodTable} (gathers : Gathers done t)
    (ms : List Method) : Gathers (done ++ ms) (t.addAll ms).1 := by
  induction ms generalizing done t with
  | nil => simpa [MethodTable.addAll] using gathers
  | cons m ms ih => simpa [MethodTable.addAll] using ih (gathers.add m)

theorem gathers_build (ms : List Method) : Gathers ms (MethodTable.build ms).1 := by
  have empty : Gathers [] {} := ⟨fun _ => rfl, rfl, rfl⟩
  exact empty.addAll ms

/-! ### All three tables -/

/-- The first binding of a name stays, in all three tables. -/
structure FirstBindingStays : Prop where
  /-- Handlers of both kinds share their names. -/
  handlers : KeepsFirst HandlerTable.find? HandlerTable.perform {}
  functions : KeepsFirst FunctionTable.bound? FunctionTable.perform {}
  /-- A function is called with as many arguments as its first registration says. -/
  called (ops : List (Naming ScriptFunction)) (name : String) (count : Nat) (f : ScriptFunction) :
    ((performAll FunctionTable.perform {} ops).find? name count).1 = some f ↔
      firstBinding name ops = some f ∧ f.arity = count
  /-- The host makes these operations by its requests, which do nothing else. -/
  handlerRequests (s : Session) (op : Naming Handler) :
    (s.call (Session.handlerRequest op)).1 =
        { s with commands.handlers := (s.commands.handlers.perform op).1 } ∧
      (s.call (Session.handlerRequest op)).2.getLast? =
        some (.reply (CommandError.verdict (s.commands.handlers.perform op).2))
  functionRequests (s : Session) (op : Naming ScriptFunction) :
    (s.call (Session.functionRequest op)).1 = { s with functions := (s.functions.perform op).1 } ∧
      (s.call (Session.functionRequest op)).2.getLast? =
        some (.reply (CommandError.verdict (s.functions.perform op).2))
  methods (ms : List Method) : Gathers ms (MethodTable.build ms).1

/-- Whatever is registered and unregistered, a name is bound as it was first bound after its latest
release, and another registration of it is refused and changes nothing. A table of methods holds the
first method of each name, and lists every other with the type that was kept. -/
theorem first_binding_stays : FirstBindingStays where
  handlers := HandlerTable.law.keepsFirst fun _ => rfl
  functions := FunctionTable.law.keepsFirst fun _ => rfl
  called ops name count f := by
    have found : (performAll FunctionTable.perform {} ops).functions.find? name =
        firstBinding name ops := FunctionTable.law.found (fun _ => rfl) ops name
    rw [FunctionTable.find?_eq_some, found]
  handlerRequests := Session.call_handlerRequest
  functionRequests := Session.call_functionRequest
  methods := gathers_build

end Prompter
