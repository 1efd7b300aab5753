/-!
# Prompter.Table

Finite tables keyed by names, kept in the order of their names: script nodes, variables, handlers,
functions, string tables and entities are all tables.

The entries are strictly sorted, so two tables with the same content are equal and a listing of a
table needs no further sorting. `find?_insert` and `find?_erase` say what the two updates do to
every name.
-/

namespace Prompter

/-- A finite map from names to values, its entries strictly sorted by name. -/
structure Table (β : Type) where
  entries : List (String × β)
  sorted : entries.Pairwise fun a b => a.1 < b.1
deriving DecidableEq

namespace Table

variable {β : Type}

/-- The table without entries. -/
def empty : Table β := ⟨[], .nil⟩

instance : Inhabited (Table β) := ⟨empty⟩

/-- The names that have an entry, in order. -/
def names (t : Table β) : List String := t.entries.map (·.1)

/-- The value of the first entry of a name. -/
def lookup (name : String) : List (String × β) → Option β
  | [] => none
  | e :: es => if name = e.1 then some e.2 else lookup name es

/-- The value stored under a name. -/
def find? (t : Table β) (name : String) : Option β := lookup name t.entries

def contains (t : Table β) (name : String) : Bool := (t.find? name).isSome

def size (t : Table β) : Nat := t.entries.length

/-- Puts an entry at its place among sorted entries; an entry of the same name gives way. -/
def insertEntry (name : String) (value : β) : List (String × β) → List (String × β)
  | [] => [(name, value)]
  | e :: es =>
    if name < e.1 then (name, value) :: e :: es
    else if name = e.1 then (name, value) :: es
    else e :: insertEntry name value es

theorem mem_insertEntry {name : String} {value : β} {es : List (String × β)} {e : String × β}
    (h : e ∈ insertEntry name value es) : e = (name, value) ∨ e ∈ es := by
  induction es with
  | nil => simpa [insertEntry] using h
  | cons e' es ih =>
    simp only [insertEntry] at h
    split at h
    · simpa using h
    · split at h
      · rcases List.mem_cons.1 h with h | h
        · exact .inl h
        · exact .inr (List.mem_cons_of_mem _ h)
      · rcases List.mem_cons.1 h with h | h
        · exact .inr (h ▸ List.mem_cons_self)
        · exact (ih h).imp id (List.mem_cons_of_mem _)

/-- Of two names, one comes first unless they are equal. -/
theorem lt_of_not_lt_of_ne {a b : String} (h : ¬ a < b) (hne : a ≠ b) : b < a := by
  rcases String.le_total a b with hab | hba
  · exact absurd (Std.lt_of_le_of_ne hab hne) h
  · exact Std.lt_of_le_of_ne hba hne.symm

theorem pairwise_insertEntry {name : String} {value : β} {es : List (String × β)}
    (h : es.Pairwise fun a b => a.1 < b.1) :
    (insertEntry name value es).Pairwise fun a b => a.1 < b.1 := by
  induction es with
  | nil => exact List.pairwise_singleton _ _
  | cons e es ih =>
    obtain ⟨hhead, htail⟩ := List.pairwise_cons.1 h
    simp only [insertEntry]
    split
    · rename_i hlt
      refine List.pairwise_cons.2 ⟨fun x hx => ?_, h⟩
      rcases List.mem_cons.1 hx with rfl | hx
      · exact hlt
      · exact String.lt_trans hlt (hhead x hx)
    · split
      · rename_i heq
        exact List.pairwise_cons.2 ⟨fun x hx => heq ▸ hhead x hx, htail⟩
      · rename_i hlt hne
        refine List.pairwise_cons.2 ⟨fun x hx => ?_, ih htail⟩
        rcases mem_insertEntry hx with rfl | hx
        · exact lt_of_not_lt_of_ne hlt hne
        · exact hhead x hx

/-- Stores a value under a name, in place of any value stored there before. -/
def insert (t : Table β) (name : String) (value : β) : Table β :=
  ⟨insertEntry name value t.entries, pairwise_insertEntry t.sorted⟩

/-- Removes the entry of a name. -/
def erase (t : Table β) (name : String) : Table β :=
  ⟨t.entries.filter (·.1 ≠ name), t.sorted.filter _⟩

/-- The table of a list of entries; of two with one name the later stays. -/
def ofList (es : List (String × β)) : Table β :=
  es.foldl (fun t e => t.insert e.1 e.2) empty

@[simp] theorem find?_empty (name : String) : (empty : Table β).find? name = none := rfl

theorem lookup_eq_some {es : List (String × β)} {name : String} {value : β}
    (found : lookup name es = some value) : (name, value) ∈ es := by
  induction es with
  | nil => cases found
  | cons e es ih =>
    rw [lookup] at found
    split at found
    · next same =>
      cases found
      exact same ▸ List.mem_cons_self
    · exact List.mem_cons_of_mem e (ih found)

theorem lookup_of_mem {es : List (String × β)} (sorted : es.Pairwise fun a b => a.1 < b.1)
    {name : String} {value : β} (stored : (name, value) ∈ es) : lookup name es = some value := by
  induction es with
  | nil => cases stored
  | cons e es ih =>
    obtain ⟨first, sorted⟩ := List.pairwise_cons.1 sorted
    rw [lookup]
    rcases List.mem_cons.1 stored with rfl | stored
    · exact if_pos rfl
    · have later : name ≠ e.1 := by
        rintro rfl
        exact absurd (first _ stored) (String.lt_irrefl _)
      rw [if_neg later, ih sorted stored]

/-- What is found under a name is what stands in the table. -/
theorem find?_eq_some {t : Table β} {name : String} {value : β} :
    t.find? name = some value ↔ (name, value) ∈ t.entries :=
  ⟨lookup_eq_some, lookup_of_mem t.sorted⟩

/-- A table has every name once. -/
theorem nodup_names (t : Table β) : t.names.Nodup := by
  refine List.pairwise_map.2 (t.sorted.imp fun lt same => ?_)
  rw [same] at lt
  exact String.lt_irrefl _ lt

/-- What is found after an insertion: the new value under its name, the old ones elsewhere. -/
theorem find?_insert (t : Table β) (name : String) (value : β) (other : String) :
    (t.insert name value).find? other = if other = name then some value else t.find? other := by
  obtain ⟨es, hs⟩ := t
  simp only [find?, insert]
  clear hs
  induction es with
  | nil => simp [insertEntry, lookup]
  | cons e es ih =>
    simp only [insertEntry]
    split
    · simp [lookup]
    · split
      · rename_i heq
        by_cases h : other = name <;> simp [lookup, h, ← heq]
      · rename_i hne
        by_cases h : other = name
        · subst h
          simp [lookup, hne, ih]
        · simp [lookup, h, ih]

/-- What is found after a removal: nothing under the name, the same elsewhere. -/
theorem find?_erase (t : Table β) (name other : String) :
    (t.erase name).find? other = if other = name then none else t.find? other := by
  obtain ⟨es, hs⟩ := t
  simp only [find?, erase]
  clear hs
  induction es with
  | nil => simp [lookup]
  | cons e es ih =>
    by_cases he : e.1 = name
    · rw [List.filter_cons_of_neg (by simpa using he), ih]
      by_cases h : other = name <;> simp [lookup, h, he]
    · rw [List.filter_cons_of_pos (by simpa using he)]
      by_cases h : other = name
      · have hne : ¬ name = e.1 := fun h' => he h'.symm
        simpa [lookup, h, hne] using ih
      · simp only [lookup, ih, if_neg h]

end Table

end Prompter
