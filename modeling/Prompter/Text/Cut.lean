/-!
# Prompter.Text.Cut

Cutting a text at separators.

* `segments` are the pieces between separators, empty ones included.
* `words` are the pieces between spaces (U+0020 only), empty pieces left out.
* `cutAt?` cuts at the first occurrence of a separator.
* `between?` is what stands between two brackets at the ends of a text.
-/

namespace Prompter.Text

/-- The segments between the characters with property `p`, empty ones included. -/
def segments (p : Char → Bool) : List Char → List (List Char)
  | [] => [[]]
  | c :: cs =>
    if p c then [] :: segments p cs
    else
      match segments p cs with
      | [] => [[c]]
      | front :: rest => (c :: front) :: rest

/-- The pieces between the characters with property `p`, of which empty ones are left out;
`current` is the piece being read, last character first. -/
def piecesFrom (p : Char → Bool) (current : List Char) : List Char → List (List Char)
  | [] => if current.isEmpty then [] else [current.reverse]
  | c :: cs =>
    if p c then
      if current.isEmpty then piecesFrom p [] cs else current.reverse :: piecesFrom p [] cs
    else piecesFrom p (c :: current) cs

/-- The words of a text: runs of characters other than the space U+0020. -/
def words (cs : List Char) : List (List Char) := piecesFrom (· == ' ') [] cs

/-- The text without `sep` in front, if it starts with `sep`. -/
def dropFront? : List Char → List Char → Option (List Char)
  | [], cs => some cs
  | _ :: _, [] => none
  | s :: sep, c :: cs => if s = c then dropFront? sep cs else none

/-- The text without `sep` at its end, if it ends with `sep`. -/
def dropBack? (sep cs : List Char) : Option (List Char) :=
  (dropFront? sep.reverse cs.reverse).map List.reverse

/-- What stands between `left` at the start of the text and `right` at its end; the two may not
overlap. -/
def between? (left right cs : List Char) : Option (List Char) :=
  (dropFront? left cs).bind (dropBack? right)

/-- The text before the first occurrence of `sep` and the text after that occurrence. -/
def cutAt? (sep : List Char) : List Char → Option (List Char × List Char)
  | [] => (dropFront? sep []).map fun rest => ([], rest)
  | c :: cs =>
    match dropFront? sep (c :: cs) with
    | some rest => some ([], rest)
    | none => (cutAt? sep cs).map fun (front, rest) => (c :: front, rest)

@[simp] theorem words_nil : words [] = [] := rfl

@[simp] theorem dropFront?_nil (cs : List Char) : dropFront? [] cs = some cs := rfl

/-- Removing `sep` from the front undoes putting it there. -/
@[simp] theorem dropFront?_append (sep cs : List Char) : dropFront? sep (sep ++ cs) = some cs := by
  induction sep with
  | nil => rfl
  | cons s sep ih => simp [dropFront?, ih]

end Prompter.Text
