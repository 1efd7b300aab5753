import Prompter.Json.Reader
import Prompter.Table

/-!
# Prompter.Json.Decoder

Reading typed values straight from JSON text.

A decoder gets the depth that is left for brackets and braces and the text. What does not have the
wanted shape is mismatched as soon as that shows; a scalar is read to its end first, so that a
fault inside it comes before.

* A record is an object, or an array of its fields in their order. Unknown members are passed over,
  a known one given twice is mismatched, and what a missing one means is up to the record.
* A choice among names is a string, or an object with that one name and `null`.
-/

namespace Prompter.Json

abbrev Decoder (α : Type) := Nat → List Char → Parse α

namespace Decoder

variable {α β σ : Type}

/-- Applies a function to what a decoder reads. -/
def map (f : α → β) (d : Decoder α) : Decoder β := fun depth cs =>
  (d depth cs).map fun (a, rest) => (f a, rest)

/-- The fault of a value of another shape than the wanted one. -/
def mismatch (cs : List Char) : Fault :=
  match skipSpaces cs with
  | [] => .truncated
  | c :: rest =>
    let scalar : Except Fault Unit :=
      if c = 'n' then (readWord "ull".toList rest).map fun _ => ()
      else if c = 't' then (readWord "rue".toList rest).map fun _ => ()
      else if c = 'f' then (readWord "alse".toList rest).map fun _ => ()
      else if c = '"' then (decode rest).map fun _ => ()
      else if c = '-' || c.isDigit then (readNumeral (c :: rest)).map fun _ => ()
      else if c = '[' || c = '{' then .ok ()
      else .error .malformed
    match scalar with
    | .ok () => .mismatched
    | .error fault => fault

/-- A string. -/
def text : Decoder String := fun _ cs =>
  match skipSpaces cs with
  | '"' :: rest => (decode rest).map fun (s, rest) => (String.ofList s, rest)
  | cs => .error (mismatch cs)

/-- A truth value. -/
def flag : Decoder Bool := fun _ cs =>
  match skipSpaces cs with
  | 't' :: rest => (readWord "rue".toList rest).map fun rest => (true, rest)
  | 'f' :: rest => (readWord "alse".toList rest).map fun rest => (false, rest)
  | cs => .error (mismatch cs)

/-- An unsigned 64-bit word. -/
def count : Decoder Nat := fun _ cs =>
  match skipSpaces cs with
  | [] => .error .truncated
  | c :: rest =>
    if c = '-' || c.isDigit then
      match readNumeral (c :: rest) with
      | .error fault => .error fault
      | .ok (n, rest) =>
        match n.toNat? with
        | some k => .ok (k, rest)
        | none => .error .mismatched
    else .error (mismatch (c :: rest))

/-- Any value, read whole before it is looked at. -/
def whole (read : Json → Option α) : Decoder α := fun depth cs =>
  match readValue depth cs with
  | .error fault => .error fault
  | .ok (v, rest) =>
    match read v with
    | some a => .ok (a, rest)
    | none => .error .mismatched

/-- A value or `null`. -/
def optional (d : Decoder α) : Decoder (Option α) := fun depth cs =>
  match skipSpaces cs with
  | 'n' :: rest => (readWord "ull".toList rest).map fun rest => (none, rest)
  | cs => d.map some depth cs

/-- An array of values of one type. -/
def list (d : Decoder α) : Decoder (List α) := fun depth cs =>
  match skipSpaces cs with
  | '[' :: rest =>
    match depth with
    | 0 => .error .malformed
    | depth + 1 =>
      (foldItems (fun (items : List α) cs => (d depth cs).map fun (a, cs) => (a :: items, cs))
        (rest.length + 1) true [] rest).map fun (items, rest) => (items.reverse, rest)
  | cs => .error (mismatch cs)

/-- An object with values of one type under any names; of values under one name the last stays. -/
def table (d : Decoder α) : Decoder (Table α) := fun depth cs =>
  match skipSpaces cs with
  | '{' :: rest =>
    match depth with
    | 0 => .error .malformed
    | depth + 1 =>
      foldMembers
        (fun (t : Table α) name cs =>
          match passColon cs with
          | .error fault => .error fault
          | .ok cs => (d depth cs).map fun (a, cs) => (t.insert name a, cs))
        (rest.length + 1) true .empty rest
  | cs => .error (mismatch cs)

/-- A name that is looked up as soon as it is read. -/
def name (lookup : String → Option α) : Decoder α := fun depth cs =>
  match text depth cs with
  | .error fault => .error fault
  | .ok (s, rest) =>
    match lookup s with
    | some a => .ok (a, rest)
    | none => .error .mismatched

/-- The end of an object that holds one name only, from the colon after that name: the value is
`null`. -/
def closeName (cs : List Char) : Except Fault (List Char) :=
  match passColon cs with
  | .error fault => .error fault
  | .ok cs =>
    match skipSpaces cs with
    | 'n' :: rest =>
      match readWord "ull".toList rest with
      | .error fault => .error fault
      | .ok rest =>
        match skipSpaces rest with
        | [] => .error .truncated
        | '}' :: rest => .ok rest
        | _ :: _ => .error .malformed
    | cs => .error (mismatch cs)

/-- One of several names, as a string or as the only member of an object, with the value `null`.
What else stands in the place of the name is no name at all, hence malformed. -/
def choice (lookup : String → Option α) : Decoder α := fun depth cs =>
  match skipSpaces cs with
  | [] => .error .truncated
  | '"' :: rest => name lookup depth ('"' :: rest)
  | '{' :: rest =>
    match depth with
    | 0 => .error .malformed
    | depth + 1 =>
      match skipSpaces rest with
      | [] => .error .truncated
      | '"' :: rest =>
        match name lookup depth ('"' :: rest) with
        | .error fault => .error fault
        | .ok (a, rest) => (closeName rest).map fun rest => (a, rest)
      | _ :: _ => .error .malformed
  | _ :: _ => .error .malformed

/-- A field of a record that is being read into a state. -/
structure Field (σ : Type) where
  name : String
  /-- Whether the field has been read already. -/
  given : σ → Bool
  read : Decoder (σ → σ)

/-- Reads the fields of a record by position, up to the closing bracket. -/
def positions (depth : Nat) : List (Field σ) → Bool → σ → List Char → Parse σ
  | [], _, state, cs =>
    match skipSpaces cs with
    | [] => .error .truncated
    | ']' :: rest => .ok (state, rest)
    | _ :: _ => .error .malformed
  | field :: fields, first, state, cs =>
    match nextItem first cs with
    | .error fault => .error fault
    | .ok (.close rest) => .ok (state, rest)
    | .ok (.more cs) =>
      match field.read depth cs with
      | .error fault => .error fault
      | .ok (update, cs) => positions depth fields false (update state) cs

/-- Reads one member of a record given by names. -/
def member (depth : Nat) (fields : List (Field σ)) (state : σ) (name : String) (cs : List Char) :
    Parse σ :=
  match fields.find? (·.name = name) with
  | none =>
    match passColon cs with
    | .error fault => .error fault
    | .ok cs => (skipValue cs).map fun cs => (state, cs)
  | some field =>
    if field.given state then .error .mismatched
    else
      match passColon cs with
      | .error fault => .error fault
      | .ok cs => (field.read depth cs).map fun (update, cs) => (update state, cs)

/-- A record: the state before any field is read, its fields, and what the state means in the
end. -/
def record (start : σ) (fields : List (Field σ)) (finish : σ → Option α) : Decoder α :=
  fun depth cs =>
    let close : Parse σ → Parse α
      | .error fault => .error fault
      | .ok (state, rest) =>
        match finish state with
        | some a => .ok (a, rest)
        | none => .error .mismatched
    match skipSpaces cs with
    | '[' :: rest =>
      match depth with
      | 0 => .error .malformed
      | depth + 1 => close (positions depth fields true start rest)
    | '{' :: rest =>
      match depth with
      | 0 => .error .malformed
      | depth + 1 =>
        close (foldMembers (member depth fields) (rest.length + 1) true start rest)
    | cs => .error (mismatch cs)

def run (d : Decoder α) (source : String) : Except Fault α :=
  match d maxDepth source.toList with
  | .error fault => .error fault
  | .ok (a, rest) => if (skipSpaces rest).isEmpty then .ok a else .error .malformed

end Decoder

end Prompter.Json
