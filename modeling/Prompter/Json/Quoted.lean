import Prompter.Json.Basic

/-!
# Prompter.Json.Quoted

JSON strings between their quotes.

* `encode` escapes the quote, the backslash and the control characters below U+0020, and nothing
  else.
* `decode` reads up to the closing quote. It refuses bare control characters and unknown escapes,
  and a surrogate escape that is not paired. Text that is only skipped may hold unpaired ones
  (`paired := false` in `scan`).
-/

namespace Prompter.Json

/-- The lower-case hexadecimal digit of a value below 16. -/
def hexDigit (n : Nat) : Char := (Nat.digitChar n)

/-- The value of a hexadecimal digit in either case. -/
def hexValue? (c : Char) : Option Nat :=
  if '0' ≤ c ∧ c ≤ '9' then some (c.toNat - '0'.toNat)
  else if 'a' ≤ c ∧ c ≤ 'f' then some (c.toNat - 'a'.toNat + 10)
  else if 'A' ≤ c ∧ c ≤ 'F' then some (c.toNat - 'A'.toNat + 10)
  else none

/-- The text that stands for a character inside a string. -/
def encodeChar (c : Char) : List Char :=
  if c = '"' then ['\\', '"']
  else if c = '\\' then ['\\', '\\']
  else if c = '\n' then ['\\', 'n']
  else if c = '\r' then ['\\', 'r']
  else if c = '\t' then ['\\', 't']
  else if c.toNat = 8 then ['\\', 'b']
  else if c.toNat = 12 then ['\\', 'f']
  else if c.toNat < 32 then ['\\', 'u', '0', '0', hexDigit (c.toNat / 16), hexDigit (c.toNat % 16)]
  else [c]

/-- The text that stands for a string, without its quotes. -/
def encode (cs : List Char) : List Char := cs.flatMap encodeChar

/-- Where reading stands inside a string. -/
inductive Place
  /-- Between characters. -/
  | plain
  /-- After a backslash. -/
  | escape
  /-- Inside a four-digit escape: digits still to come, value so far, a first surrogate before. -/
  | hex (left : Nat) (value : Nat) (first : Option Nat)
  /-- After a first surrogate. -/
  | surrogate (first : Nat)
  /-- After a first surrogate and a backslash. -/
  | surrogateEscape (first : Nat)

/-- The character of a short escape. -/
def shortEscape? (c : Char) : Option Char :=
  if c = '"' ∨ c = '\\' ∨ c = '/' then some c
  else if c = 'b' then some (Char.ofNat 8)
  else if c = 'f' then some (Char.ofNat 12)
  else if c = 'n' then some '\n'
  else if c = 'r' then some '\r'
  else if c = 't' then some '\t'
  else none

/-- Whether at least `n` bytes of text follow. -/
def hasBytes : Nat → List Char → Bool
  | 0, _ => true
  | _ + 1, [] => false
  | n + 1, c :: cs => hasBytes (n + 1 - c.utf8Size) cs

/-- What a completed four-digit escape yields: where to go on, and a character if one is done. -/
def closeHex (paired : Bool) (value : Nat) : Option Nat → Except Fault (Place × Option Char)
  | none =>
    if !paired then .ok (.plain, none)
    else if 0xDC00 ≤ value ∧ value ≤ 0xDFFF then .error .malformed
    else if 0xD800 ≤ value ∧ value ≤ 0xDBFF then .ok (.surrogate value, none)
    else .ok (.plain, some (Char.ofNat value))
  | some first =>
    if 0xDC00 ≤ value ∧ value ≤ 0xDFFF then
      .ok (.plain, some (Char.ofNat (0x10000 + (first - 0xD800) * 0x400 + (value - 0xDC00))))
    else .error .malformed

/-- Reads from a place inside a string to its closing quote; `read` holds the characters so far, the
last one first. A four-digit escape with fewer than four bytes of text left is cut short, whatever
those bytes are. -/
def scan (paired : Bool) (place : Place) (read : List Char) :
    List Char → Except Fault (List Char × List Char)
  | [] => .error .truncated
  | c :: cs =>
    match place with
    | .plain =>
      if c = '"' then .ok (read.reverse, cs)
      else if c = '\\' then scan paired .escape read cs
      else if c.toNat < 32 then .error .malformed
      else scan paired .plain (c :: read) cs
    | .escape =>
      if c = 'u' then
        if hasBytes 4 cs then scan paired (.hex 4 0 none) read cs else .error .truncated
      else
        match shortEscape? c with
        | some e => scan paired .plain (e :: read) cs
        | none => .error .malformed
    | .hex left value first =>
      match hexValue? c with
      | none => .error .malformed
      | some d =>
        if left ≤ 1 then
          match closeHex paired (16 * value + d) first with
          | .error fault => .error fault
          | .ok (next, none) => scan paired next read cs
          | .ok (next, some e) => scan paired next (e :: read) cs
        else scan paired (.hex (left - 1) (16 * value + d) first) read cs
    | .surrogate first =>
      if c = '\\' then scan paired (.surrogateEscape first) read cs else .error .malformed
    | .surrogateEscape first =>
      if c = 'u' then
        if hasBytes 4 cs then scan paired (.hex 4 0 (some first)) read cs else .error .truncated
      else .error .malformed

def decode (cs : List Char) : Except Fault (List Char × List Char) := scan true .plain [] cs

/-- Passes over a string after its opening quote. -/
def skipString (cs : List Char) : Except Fault (List Char) :=
  (scan false .plain [] cs).map (·.2)

end Prompter.Json
