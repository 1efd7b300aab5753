import Prompter.Json.Quoted

/-!
# Prompter.Json.Reader

Reading JSON from a text, character by character from the left, so that the first problem in the
text decides the fault.

* `readValue` reads a whole value. Brackets and braces may nest as deep as its budget says.
* `skipValue` passes over a value that nobody wants: it knows no limit of depth or of number range.
* `nextItem` and `nextMember` walk through an array or an object whose parts are read by others.
-/

namespace Prompter.Json

/-- The outcome of reading: a result and the rest of the text, or a fault. -/
abbrev Parse (α : Type) := Except Fault (α × List Char)

/-- How deep brackets and braces may nest. -/
def maxDepth : Nat := 127

/-- The blanks between tokens. -/
def isSpace (c : Char) : Bool := c = ' ' || c = '\n' || c = '\t' || c = '\r'

/-- Drops the blanks in front. -/
def skipSpaces (cs : List Char) : List Char := cs.dropWhile isSpace

/-- Reads the given characters. -/
def readWord : List Char → List Char → Except Fault (List Char)
  | [], cs => .ok cs
  | _ :: _, [] => .error .truncated
  | w :: ws, c :: cs => if w = c then readWord ws cs else .error .malformed

/-- The fault of a digit that is missing: in a value that is skipped the end of the text is no
excuse. -/
def missingDigit (skipped : Bool) (rest : List Char) : Fault :=
  if rest.isEmpty && !skipped then .truncated else .malformed

/-- The digits before the point: a lone zero or digits that do not start with zero. -/
def readWhole (skipped : Bool) (cs : List Char) : Parse (List Char) :=
  match Number.spanDigits cs with
  | ([], rest) => .error (missingDigit skipped rest)
  | ('0' :: _ :: _, _) => .error .malformed
  | (digits, rest) => .ok (digits, rest)

/-- The point and the digits after it, if there is a point. -/
def readFraction (skipped : Bool) : List Char → Parse (Option (List Char))
  | '.' :: cs =>
    match Number.spanDigits cs with
    | ([], rest) => .error (missingDigit skipped rest)
    | (digits, rest) => .ok (some digits, rest)
  | cs => .ok (none, cs)

/-- The exponent part, if there is one. -/
def readPower (skipped : Bool) (cs : List Char) : Parse (Option (Bool × List Char)) :=
  match cs with
  | c :: rest =>
    if c = 'e' || c = 'E' then
      let (negative, rest) := Number.readSign rest
      match Number.spanDigits rest with
      | ([], rest) => .error (missingDigit skipped rest)
      | (digits, rest) => .ok (some (negative, digits), rest)
    else .ok (none, cs)
  | [] => .ok (none, cs)

/-- Reads the spelling of a number, in or out of range. -/
def readSpelling (skipped : Bool) (cs : List Char) : Parse Numeral :=
  let (negative, cs) := match cs with
    | '-' :: rest => (true, rest)
    | _ => (false, cs)
  match readWhole skipped cs with
  | .error fault => .error fault
  | .ok (whole, cs) =>
    match readFraction skipped cs with
    | .error fault => .error fault
    | .ok (fraction, cs) =>
      match readPower skipped cs with
      | .error fault => .error fault
      | .ok (exponent, cs) => .ok (⟨negative, whole, fraction, exponent⟩, cs)

/-- Reads a number; one out of range is malformed. -/
def readNumeral (cs : List Char) : Parse Numeral :=
  match readSpelling false cs with
  | .error fault => .error fault
  | .ok (n, rest) => if n.amount?.isSome then .ok (n, rest) else .error .malformed

/-- Where to go on in an array or an object. -/
inductive Next
  /-- The closing bracket or brace has been passed. -/
  | close (rest : List Char)
  /-- Another part begins. -/
  | more (rest : List Char)

/-- Goes to the next part before `close`, past the comma that separates it from an earlier one. -/
def nextPart (close : Char) (first : Bool) (cs : List Char) : Except Fault Next :=
  match skipSpaces cs with
  | [] => .error .truncated
  | c :: rest =>
    if c = close then .ok (.close rest)
    else if first then .ok (.more (c :: rest))
    else if c = ',' then
      match skipSpaces rest with
      | [] => .error .truncated
      | d :: rest => if d = close then .error .malformed else .ok (.more (d :: rest))
    else .error .malformed

/-- Goes to the next item of an array. -/
def nextItem (first : Bool) (cs : List Char) : Except Fault Next := nextPart ']' first cs

/-- Goes to the name of the next member of an object, past its opening quote. -/
def nextMember (first : Bool) (cs : List Char) : Except Fault Next :=
  match nextPart '}' first cs with
  | .ok (.more ('"' :: rest)) => .ok (.more rest)
  | .ok (.more _) => .error .malformed
  | other => other

/-- Passes the colon after a name. -/
def passColon (cs : List Char) : Except Fault (List Char) :=
  match skipSpaces cs with
  | [] => .error .truncated
  | ':' :: rest => .ok rest
  | _ :: _ => .error .malformed

/-- Walks through the items of an array after its opening bracket; each step reads one item into
the state. -/
def foldItems {σ : Type} (step : σ → List Char → Parse σ) :
    Nat → Bool → σ → List Char → Parse σ
  | 0, _, _, _ => .error .truncated
  | fuel + 1, first, state, cs =>
    match nextItem first cs with
    | .error fault => .error fault
    | .ok (.close rest) => .ok (state, rest)
    | .ok (.more cs) =>
      match step state cs with
      | .error fault => .error fault
      | .ok (state, cs) => foldItems step fuel false state cs

/-- Walks through the members of an object after its opening brace; each step gets the name and the
text after it and reads one member into the state. -/
def foldMembers {σ : Type} (step : σ → String → List Char → Parse σ) :
    Nat → Bool → σ → List Char → Parse σ
  | 0, _, _, _ => .error .truncated
  | fuel + 1, first, state, cs =>
    match nextMember first cs with
    | .error fault => .error fault
    | .ok (.close rest) => .ok (state, rest)
    | .ok (.more cs) =>
      match decode cs with
      | .error fault => .error fault
      | .ok (name, cs) =>
        match step state (String.ofList name) cs with
        | .error fault => .error fault
        | .ok (state, cs) => foldMembers step fuel false state cs

def readValue (depth : Nat) (cs : List Char) : Parse Json :=
  match skipSpaces cs with
  | [] => .error .truncated
  | c :: rest =>
    if c = 'n' then (readWord "ull".toList rest).map fun rest => (.null, rest)
    else if c = 't' then (readWord "rue".toList rest).map fun rest => (.bool true, rest)
    else if c = 'f' then (readWord "alse".toList rest).map fun rest => (.bool false, rest)
    else if c = '"' then (decode rest).map fun (s, rest) => (.string (String.ofList s), rest)
    else if c = '-' || c.isDigit then
      (readNumeral (c :: rest)).map fun (n, rest) => (.number n, rest)
    else if c = '[' then
      match depth with
      | 0 => .error .malformed
      | depth + 1 =>
        (foldItems
          (fun (items : List Json) cs => (readValue depth cs).map fun (v, cs) => (v :: items, cs))
          (rest.length + 1) true [] rest).map fun (items, rest) => (.array items.reverse, rest)
    else if c = '{' then
      match depth with
      | 0 => .error .malformed
      | depth + 1 =>
        (foldMembers
          (fun (members : List (String × Json)) name cs =>
            match passColon cs with
            | .error fault => .error fault
            | .ok cs => (readValue depth cs).map fun (v, cs) => ((name, v) :: members, cs))
          (rest.length + 1) true [] rest).map fun (members, rest) =>
            (.object members.reverse, rest)
    else .error .malformed

/-- What is expected next while passing over a value. -/
inductive Expecting
  | value
  /-- A comma or the closing of the innermost open bracket or brace. -/
  | afterValue
  /-- The first part or the closing of the innermost open bracket or brace. -/
  | afterOpen

/-- Passes over a scalar. -/
def skipScalar (cs : List Char) : Except Fault (List Char) :=
  match cs with
  | [] => .error .truncated
  | c :: rest =>
    if c = 'n' then readWord "ull".toList rest
    else if c = 't' then readWord "rue".toList rest
    else if c = 'f' then readWord "alse".toList rest
    else if c = '"' then skipString rest
    else if c = '-' || c.isDigit then (readSpelling true cs).map (·.2)
    else .error .malformed

/-- Passes over the name of a member, from its opening quote to its colon. -/
def skipName (cs : List Char) : Except Fault (List Char) :=
  match skipSpaces cs with
  | [] => .error .truncated
  | '"' :: rest => (skipString rest).bind passColon
  | _ :: _ => .error .malformed

/-- Passes over values until nothing is open; `opened` holds the open brackets (`false`) and braces
(`true`), innermost first. -/
def skipLoop : Nat → Expecting → List Bool → List Char → Except Fault (List Char)
  | 0, _, _, _ => .error .truncated
  | fuel + 1, .value, opened, cs =>
    match skipSpaces cs with
    | [] => .error .truncated
    | '[' :: rest => skipLoop fuel .afterOpen (false :: opened) rest
    | '{' :: rest => skipLoop fuel .afterOpen (true :: opened) rest
    | cs => (skipScalar cs).bind (skipLoop fuel .afterValue opened)
  | _ + 1, .afterValue, [], cs => .ok cs
  | _ + 1, .afterOpen, [], cs => .ok cs
  | fuel + 1, .afterValue, inObject :: opened, cs =>
    match skipSpaces cs with
    | [] => .error .truncated
    | c :: rest =>
      if c = (if inObject then '}' else ']') then skipLoop fuel .afterValue opened rest
      else if c = ',' then
        if inObject then (skipName rest).bind (skipLoop fuel .value (inObject :: opened))
        else skipLoop fuel .value (inObject :: opened) rest
      else .error .malformed
  | fuel + 1, .afterOpen, inObject :: opened, cs =>
    match skipSpaces cs with
    | [] => .error .truncated
    | c :: rest =>
      if c = (if inObject then '}' else ']') then skipLoop fuel .afterValue opened rest
      else if inObject then (skipName (c :: rest)).bind (skipLoop fuel .value (inObject :: opened))
      else skipLoop fuel .value (inObject :: opened) (c :: rest)

/-- Passes over one value; every second step consumes a character. -/
def skipValue (cs : List Char) : Except Fault (List Char) :=
  skipLoop (2 * cs.length + 2) .value [] cs

end Prompter.Json
