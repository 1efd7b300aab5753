import Prompter.Text.Blank
import Prompter.Text.Cut

/-!
# Prompter.Command.Basic

Commands: a line of words that a script addresses to the game. A script may write a command between
`<<` and `>>`; the delimiters and the blanks around them are not part of it. Words are separated by
spaces (U+0020) alone, so a tab is part of a word.
-/

namespace Prompter

/-- A command, without delimiters. -/
structure Command where
  text : String
deriving DecidableEq

namespace Command

/-- The text of a command without outer blanks and delimiters. -/
def strip (source : List Char) : List Char :=
  let text := Text.trim source
  match Text.between? ['<', '<'] ['>', '>'] text with
  | some inner => Text.trim inner
  | none => text

/-- The command that a script writes. -/
def ofScript (source : String) : Command := ⟨String.ofList (strip source.toList)⟩

def words (c : Command) : List String := (Text.words c.text.toList).map String.ofList

/-- The first word, found without the others. -/
def name? (c : Command) : Option String :=
  ((Text.segments (· == ' ') c.text.toList).find? (!·.isEmpty)).map String.ofList

end Command

end Prompter
