import Prompter.Command.Resolution

/-!
# Prompter.Proofs.Command.Meaning

What a command means, without the order in which its meaning is searched for.

`Means` has one constructor for each of the four meanings, each with all that has to hold for it.
They exclude each other and leave nothing out: a command has exactly one meaning, and it is the one
that is found (`means_iff`).
-/

namespace Prompter.CommandTables

variable {t : CommandTables} {c : Command}

/-- The words of a command address a method: the first names it and is no handler's name, the second
names an entity with a component that is of the type the method is declared by, and the others read
as its parameters. -/
structure Addresses (t : CommandTables) (c : Command) (m : Method) (target : Component)
    (args : List Argument) : Prop where
  intro ::
  exists_words : ∃ name entityName words entity, c.words = name :: entityName :: words ∧
    t.handlers.find? name = none ∧ t.methods.find? name = some m ∧
    t.resolver.bind (·.entity? entityName) = some entity ∧
    t.resolver.bind (·.component? entity m.type) = some target ∧ target.type = m.type ∧
    (readArguments t.resolver m.params words).1 = .ok args

/-- What a command means. -/
inductive Means (t : CommandTables) (c : Command) : Resolution → Prop
  /-- The first word is a handler's name, and the others read as its parameters. -/
  | handler {name : String} {words : List String} {h : Handler} {args : List Argument}
      (spelled : c.words = name :: words) (registered : t.handlers.find? name = some h)
      (read : (readArguments t.resolver h.params words).1 = .ok args) :
      Means t c (.handler name h args)
  /-- The first word is a handler's name, and the others do not read as its parameters. -/
  | refused {name : String} {words : List String} {h : Handler} {e : CommandError}
      (spelled : c.words = name :: words) (registered : t.handlers.find? name = some h)
      (unread : (readArguments t.resolver h.params words).1 = .error e) :
      Means t c (.refused (e.inCommand name))
  /-- The words address a method. -/
  | method {m : Method} {target : Component} {args : List Argument}
      (addresses : t.Addresses c m target args) : Means t c (.method m target args)
  /-- The first word, if there is one, is no handler's name, and no method is addressed. -/
  | unhandled (unregistered : ∀ name words, c.words = name :: words → t.handlers.find? name = none)
      (unaddressed : ∀ m target args, ¬ t.Addresses c m target args) : Means t c .unhandled

/-- A method is found only if it is addressed. -/
theorem addresses_of_resolveMethod {name entityName : String} {words : List String} {m m' : Method}
    {target : Component} {args : List Argument} (spelled : c.words = name :: entityName :: words)
    (free : t.handlers.find? name = none) (found : t.methods.find? name = some m)
    (resolved : (t.resolveMethod m entityName words).1 = .method m' target args) :
    t.Addresses c m' target args := by
  unfold resolveMethod at resolved
  split at resolved
  · cases resolved
  · next entity he =>
    dsimp only at resolved
    split at resolved
    · cases resolved
    · next component hc =>
      split at resolved
      · cases resolved
      · next read =>
        split at resolved
        · next same =>
          cases resolved
          exact ⟨name, entityName, words, entity, spelled, free, found, he, hc, same,
            congrArg Prod.fst read⟩
        · cases resolved

theorem resolveMethod_cases (m : Method) (entityName : String) (words : List String) :
    (∃ target args, (t.resolveMethod m entityName words).1 = .method m target args) ∨
      (t.resolveMethod m entityName words).1 = .unhandled := by
  unfold resolveMethod
  split
  · exact .inr rfl
  · dsimp only
    split
    · exact .inr rfl
    · split
      · exact .inr rfl
      · split
        · exact .inl ⟨_, _, rfl⟩
        · exact .inr rfl

/-- A method that is addressed is found. -/
theorem Addresses.resolve {m : Method} {target : Component} {args : List Argument}
    (addresses : t.Addresses c m target args) : (t.resolve c).1 = .method m target args := by
  obtain ⟨name, entityName, words, entity, spelled, free, found, he, hc, same, read⟩ := addresses
  rcases hr : readArguments t.resolver m.params words with ⟨result, rs⟩
  rw [hr] at read
  obtain rfl : result = .ok args := read
  simp [CommandTables.resolve, spelled, free, found, resolveMethod, he, hc, same, hr]

/-- The meaning that is found is one of the four. -/
theorem means_resolve (t : CommandTables) (c : Command) : t.Means c (t.resolve c).1 := by
  cases spelled : c.words with
  | nil =>
    have none : (t.resolve c).1 = .unhandled := by simp [resolve, spelled]
    rw [none]
    refine .unhandled (fun name words other => ?_) fun m target args addresses => ?_
    · rw [spelled] at other
      cases other
    · rw [addresses.resolve] at none
      cases none
  | cons name words =>
    cases registered : t.handlers.find? name with
    | some h =>
      simp only [resolve, spelled, registered, resolveHandler]
      split
      · next read => exact .handler spelled registered (congrArg Prod.fst read)
      · next unread => exact .refused spelled registered (congrArg Prod.fst unread)
    | none =>
      have unregistered : ∀ name' words', c.words = name' :: words' →
          t.handlers.find? name' = none := by
        intro name' words' other
        rw [spelled] at other
        obtain ⟨rfl, -⟩ := List.cons.inj other
        exact registered
      -- either a method is found, which is then addressed, or none is addressed
      suffices found : (∃ m target args, (t.resolve c).1 = .method m target args ∧
          t.Addresses c m target args) ∨ (t.resolve c).1 = .unhandled by
        rcases found with ⟨m, target, args, found, addresses⟩ | none
        · rw [found]
          exact .method addresses
        · refine none ▸ .unhandled unregistered fun m target args addresses => ?_
          rw [addresses.resolve] at none
          cases none
      simp only [resolve, spelled, registered]
      split
      · exact .inr rfl
      · exact .inr rfl
      · next m entityName rest found =>
        rcases t.resolveMethod_cases m entityName rest with ⟨target, args, resolved⟩ | none
        · exact .inl ⟨m, target, args, resolved,
            addresses_of_resolveMethod spelled registered found resolved⟩
        · exact .inr none

/-- A command has one meaning, and it is found. -/
theorem means_iff {r : Resolution} : t.Means c r ↔ (t.resolve c).1 = r := by
  refine ⟨fun means => ?_, fun found => found ▸ means_resolve t c⟩
  cases means with
  | @handler name words h args spelled registered read
  | @refused name words h args spelled registered read =>
    rcases hr : readArguments t.resolver h.params words with ⟨result, rs⟩
    rw [hr] at read
    obtain rfl : result = _ := read
    simp [resolve, spelled, registered, resolveHandler, hr]
  | method addresses => exact addresses.resolve
  | unhandled unregistered unaddressed =>
    have means := means_resolve t c
    generalize (t.resolve c).1 = r at means
    cases means with
    | handler spelled registered | refused spelled registered =>
      rw [unregistered _ _ spelled] at registered
      cases registered
    | method addresses => exact absurd addresses (unaddressed _ _ _)
    | unhandled => rfl

end Prompter.CommandTables
