import Prompter.Table

/-!
# Prompter.Entity

The things of the game that commands address by name, and their components.

A dialogue knows them through a resolver only: two lookups that the host answers. The lookups need
not agree with each other, so a component that was asked for by type is checked again before a
method runs on it. `EntityTable` is a resolver that tells the truth.
-/

namespace Prompter

/-- A type of components. -/
structure ComponentType where
  name : String
deriving DecidableEq

/-- A component of an entity; the label tells components of one type apart. -/
structure Component where
  type : ComponentType
  label : String
deriving DecidableEq

/-- How a dialogue finds entities and their components. -/
structure EntityResolver where
  /-- The name of the entity that a word addresses, if there is one. -/
  entity? : String → Option String
  /-- The component of a type that an entity has. -/
  component? : String → ComponentType → Option Component

/-- Entities by name, each with its components. -/
structure EntityTable where
  entities : Table (List Component) := .empty
deriving DecidableEq

namespace EntityTable

/-- Adds a component to components; one of the same type gives way. -/
def addComponent (c : Component) (cs : List Component) : List Component :=
  cs.filter (·.type ≠ c.type) ++ [c]

/-- Attaches a component to an entity, which comes into being with its first one. -/
def insert (t : EntityTable) (name : String) (c : Component) : EntityTable :=
  ⟨t.entities.insert name (addComponent c ((t.entities.find? name).getD []))⟩

/-- Removes an entity; the flag says whether there was one. -/
def remove (t : EntityTable) (name : String) : EntityTable × Bool :=
  (⟨t.entities.erase name⟩, t.entities.contains name)

/-- The component of a type that an entity has. -/
def component? (t : EntityTable) (name : String) (type : ComponentType) : Option Component :=
  (t.entities.find? name).bind fun cs => cs.find? (·.type = type)

/-- The table as a resolver. -/
def resolver (t : EntityTable) : EntityResolver :=
  ⟨fun name => if t.entities.contains name then some name else none, t.component?⟩

end EntityTable

end Prompter
