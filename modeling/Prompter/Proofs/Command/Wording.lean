import Mathlib.Data.List.Basic
import Prompter.Command.Basic
import Prompter.Proofs.Text.Cutting

/-!
# Prompter.Proofs.Command.Wording

The words of a command.

A text has certain words exactly if it writes them: with spaces between them and blanks around, and
all that between delimiters, which may be left out where the text would not be taken for a delimited
one (`words_ofScript_iff`). Blanks of every kind are trimmed at the ends, but spaces alone separate
words, so a word may contain other blanks, and start or end with them where another word stands
before or behind it.
-/

namespace Prompter

namespace Text

/-! ### Words with spaces between them -/

/-- A word is not empty, and there is no space in it. -/
structure IsWord (w : List Char) : Prop where
  nonempty : w ≠ []
  solid : ' ' ∉ w

/-- A text that consists of words with one space or more between them. -/
inductive Spaced : List (List Char) → List Char → Prop
  | none : Spaced [] []
  | last (w : List Char) : Spaced [w] w
  | more (w : List Char) (gap : Nat) {v : List Char} {ws : List (List Char)} {cs : List Char}
      (others : Spaced (v :: ws) cs) :
      Spaced (w :: v :: ws) (w ++ List.replicate (gap + 1) ' ' ++ cs)

/-- Words a command can consist of: a blank stands at neither end. -/
structure IsPhrase (ws : List (List Char)) : Prop where
  words : ∀ w ∈ ws, IsWord w
  front : ∀ w ∈ ws.head?, ∀ c ∈ w.head?, isBlank c = false
  back : ∀ w ∈ ws.getLast?, ∀ c ∈ w.getLast?, isBlank c = false

section

variable {p : Char → Bool} {w cs current front : List Char} {ws rest : List (List Char)} {c : Char}

/-! ### Reading words -/

/-- Up to a separator, everything belongs to the piece being read. -/
theorem piecesFrom_append (inside : ∀ c ∈ w, p c = false) (current cs : List Char) :
    piecesFrom p current (w ++ cs) = piecesFrom p (w.reverse ++ current) cs := by
  induction w generalizing current with
  | nil => rfl
  | cons c w ih =>
    obtain ⟨other, inside⟩ := List.forall_mem_cons.1 inside
    rw [List.cons_append, piecesFrom, if_neg (by simp [other]), ih inside, List.reverse_cons,
      List.append_assoc]
    rfl

theorem IsWord.inside (word : IsWord w) : ∀ c ∈ w, (c == ' ') = false := by
  intro c hc
  rw [beq_eq_false_iff_ne]
  rintro rfl
  exact word.solid hc

theorem IsWord.words_eq (word : IsWord w) : words w = [w] := by
  have read := piecesFrom_append word.inside [] []
  rw [List.append_nil, List.append_nil] at read
  rw [words, read, piecesFrom, if_neg (by simp [word.nonempty]), List.reverse_reverse]

theorem IsWord.words_append_space (word : IsWord w) (cs : List Char) :
    words (w ++ ' ' :: cs) = w :: words cs := by
  rw [words, piecesFrom_append word.inside, piecesFrom, if_pos (by rfl), List.append_nil,
    if_neg (by simp [word.nonempty]), List.reverse_reverse]
  rfl

theorem words_spaces_append (gap : Nat) (cs : List Char) :
    words (List.replicate gap ' ' ++ cs) = words cs := by
  induction gap with
  | zero => rfl
  | succ gap ih => exact ih

/-- The words that a text consists of are those that are read. -/
theorem Spaced.words_eq (spaced : Spaced ws cs) (proper : ∀ w ∈ ws, IsWord w) : words cs = ws := by
  induction spaced with
  | none => rfl
  | last w => exact (proper w List.mem_cons_self).words_eq
  | more w gap others ih =>
    obtain ⟨word, proper⟩ := List.forall_mem_cons.1 proper
    rw [List.replicate_succ, List.append_assoc, List.cons_append, word.words_append_space,
      words_spaces_append, ih proper]

/-! ### What words are read from -/

theorem Spaced.cons (spaced : Spaced (w :: ws) cs) (c : Char) :
    Spaced ((c :: w) :: ws) (c :: cs) := by
  cases spaced with
  | last => exact .last (c :: w)
  | more _ gap others => exact .more (c :: w) gap others

theorem IsWord.cons (word : IsWord w) (other : c ≠ ' ') : IsWord (c :: w) := by
  refine ⟨List.cons_ne_nil c w, fun space => ?_⟩
  rcases List.mem_cons.1 space with same | inside
  · exact other same.symm
  · exact word.solid inside

theorem isWord_singleton (other : c ≠ ' ') : IsWord [c] :=
  ⟨List.cons_ne_nil c [], fun space => other (List.mem_singleton.1 space).symm⟩

/-- A character in front of words with spaces between them lengthens the first word, or, if spaces
stand before that, is a word of its own. -/
theorem Spaced.exists_cons {gap : Nat} {joined : List Char} (spaced : Spaced ws joined)
    (proper : ∀ w ∈ ws, IsWord w) (filled : joined = [] → gap = 0) (other : c ≠ ' ') :
    ∃ ws', Spaced ws' (c :: (List.replicate gap ' ' ++ joined)) ∧ ∀ w ∈ ws', IsWord w := by
  cases ws with
  | nil =>
    cases spaced
    obtain rfl := filled rfl
    exact ⟨[[c]], .last [c], List.forall_mem_singleton.2 (isWord_singleton other)⟩
  | cons w ws =>
    obtain ⟨word, others⟩ := List.forall_mem_cons.1 proper
    cases gap with
    | zero =>
      exact ⟨(c :: w) :: ws, spaced.cons c, List.forall_mem_cons.2 ⟨word.cons other, others⟩⟩
    | succ gap =>
      exact ⟨[c] :: w :: ws, .more [c] gap spaced,
        List.forall_mem_cons.2 ⟨isWord_singleton other, proper⟩⟩

/-- A text that does not end with a space consists of spaces and of words with spaces between
them. -/
theorem exists_spaced (cs : List Char) (back : ∀ c ∈ cs.getLast?, c ≠ ' ') :
    ∃ gap ws joined, cs = List.replicate gap ' ' ++ joined ∧ Spaced ws joined ∧
      ∀ w ∈ ws, IsWord w := by
  induction cs with
  | nil => exact ⟨0, [], [], rfl, .none, nofun⟩
  | cons c cs ih =>
    have ends : ∀ d ∈ cs.getLast?, d ≠ ' ' := by
      intro d hd
      refine back d ?_
      rw [List.getLast?_cons, Option.mem_def.1 hd]
      rfl
    obtain ⟨gap, ws, joined, rfl, spaced, proper⟩ := ih ends
    by_cases space : c = ' '
    · subst space
      exact ⟨gap + 1, ws, joined, rfl, spaced, proper⟩
    · have filled : joined = [] → gap = 0 := by
        rintro rfl
        by_contra gaps
        exact ends ' ' (by simp [List.getLast?_replicate, gaps]) rfl
      obtain ⟨ws', spaced', proper'⟩ := spaced.exists_cons proper filled space
      exact ⟨0, ws', _, rfl, spaced', proper'⟩

/-! ### The ends of a text -/

theorem Spaced.ne_nil (spaced : Spaced (w :: ws) cs) (word : IsWord w) : cs ≠ [] := by
  cases spaced with
  | last => exact word.nonempty
  | more => simp [word.nonempty]

/-- A text starts as its first word does. -/
theorem Spaced.head?_eq (spaced : Spaced ws cs) (proper : ∀ w ∈ ws, IsWord w) :
    cs.head? = ws.head?.bind List.head? := by
  cases spaced with
  | none => rfl
  | last w => rfl
  | more w gap others =>
    rw [List.append_assoc, List.head?_append_of_ne_nil w (proper w List.mem_cons_self).nonempty]
    rfl

/-- A text ends as its last word does. -/
theorem Spaced.getLast?_eq (spaced : Spaced ws cs) (proper : ∀ w ∈ ws, IsWord w) :
    cs.getLast? = ws.getLast?.bind List.getLast? := by
  induction spaced with
  | none => rfl
  | last w => rfl
  | more w gap others ih =>
    obtain ⟨-, proper⟩ := List.forall_mem_cons.1 proper
    have more := others.ne_nil (proper _ List.mem_cons_self)
    rw [List.getLast?_append_of_ne_nil _ more, ih proper, List.getLast?_cons_cons]

theorem IsPhrase.trimmed (phrase : IsPhrase ws) (spaced : Spaced ws cs) : Trimmed cs := by
  constructor
  · intro c hc
    rw [spaced.head?_eq phrase.words] at hc
    obtain ⟨w, first, start⟩ := Option.bind_eq_some_iff.1 hc
    exact phrase.front w first c start
  · intro c hc
    rw [spaced.getLast?_eq phrase.words] at hc
    obtain ⟨w, last, stop⟩ := Option.bind_eq_some_iff.1 hc
    exact phrase.back w last c stop

theorem isPhrase_of_trimmed (trimmed : Trimmed cs) (spaced : Spaced ws cs)
    (proper : ∀ w ∈ ws, IsWord w) : IsPhrase ws := by
  refine ⟨proper, fun w first c start => trimmed.front c ?_,
    fun w last c stop => trimmed.back c ?_⟩
  · rw [spaced.head?_eq proper]
    exact Option.bind_eq_some_iff.2 ⟨w, first, start⟩
  · rw [spaced.getLast?_eq proper]
    exact Option.bind_eq_some_iff.2 ⟨w, last, stop⟩

theorem ne_space_of_solid (solid : isBlank c = false) : c ≠ ' ' := by
  rintro rfl
  cases solid

/-- A trimmed text consists of its words. -/
theorem Trimmed.spaced_words (trimmed : Trimmed cs) :
    IsPhrase (words cs) ∧ Spaced (words cs) cs := by
  obtain ⟨gap, ws, joined, parts, spaced, proper⟩ :=
    exists_spaced cs fun c hc => ne_space_of_solid (trimmed.back c hc)
  cases gap with
  | zero =>
    obtain rfl : cs = joined := parts
    rw [spaced.words_eq proper]
    exact ⟨isPhrase_of_trimmed trimmed spaced proper, spaced⟩
  | succ gap =>
    have blank : ' ' ∈ cs.head? := by rw [parts]; rfl
    exact absurd rfl (ne_space_of_solid (trimmed.front ' ' blank))

/-! ### The first word -/

theorem exists_segments (p : Char → Bool) (cs : List Char) :
    ∃ front rest, segments p cs = front :: rest := by
  induction cs with
  | nil => exact ⟨[], [], rfl⟩
  | cons c cs ih =>
    obtain ⟨front, rest, read⟩ := ih
    by_cases cut : p c = true
    · exact ⟨[], front :: rest, by rw [segments, if_pos cut, read]⟩
    · exact ⟨c :: front, rest, by rw [segments, if_neg cut, read]⟩

/-- Pieces are the segments that are not empty. The piece being read is completed by the first. -/
theorem piecesFrom_of_segments (read : segments p cs = front :: rest) (current : List Char) :
    piecesFrom p current cs = ((current.reverse ++ front) :: rest).filter (!·.isEmpty) := by
  induction cs generalizing front rest current with
  | nil =>
    obtain ⟨rfl, rfl⟩ := List.cons.inj read
    cases current <;> simp [piecesFrom]
  | cons c cs ih =>
    obtain ⟨front', rest', later⟩ := exists_segments p cs
    by_cases cut : p c = true
    · rw [segments, if_pos cut, later] at read
      obtain ⟨rfl, rfl⟩ := List.cons.inj read
      rw [piecesFrom, if_pos cut, ih later []]
      cases current <;> simp
    · rw [segments, if_neg cut, later] at read
      obtain ⟨rfl, rfl⟩ := List.cons.inj read
      rw [piecesFrom, if_neg cut, ih later]
      simp

theorem words_eq_filter (cs : List Char) :
    words cs = (segments (· == ' ') cs).filter (!·.isEmpty) := by
  obtain ⟨front, rest, read⟩ := exists_segments (· == ' ') cs
  rw [words, piecesFrom_of_segments read, read]
  rfl

end

end Text

namespace Command

open Text

/-- The name is the first of the words, though it is looked for apart. -/
theorem name?_eq_head?_words (c : Command) : c.name? = c.words.head? := by
  rw [name?, words, words_eq_filter, List.head?_map, List.head?_filter]

/-! ### Delimiters -/

/-- A text that begins with `<<` and ends with `>>`. -/
def Delimited (cs : List Char) : Prop := ['<', '<'] <+: cs ∧ ['>', '>'] <:+ cs

/-- A script text that writes the words `ws`. -/
inductive Writes (ws : List (List Char)) : List Char → Prop
  /-- Between delimiters, with any blanks inside and outside of them. -/
  | delimited {joined inner text : List Char} (phrase : IsPhrase ws) (spaced : Spaced ws joined)
      (inside : Padded joined inner) (outside : Padded (['<', '<'] ++ inner ++ ['>', '>']) text) :
      Writes ws text
  /-- Without delimiters, unless the text would seem to have them. -/
  | bare {joined text : List Char} (phrase : IsPhrase ws) (spaced : Spaced ws joined)
      (outside : Padded joined text) (undelimited : ¬ Delimited (trim text)) : Writes ws text

section

variable {cs inner text joined : List Char} {ws : List (List Char)}

/-- The two delimiters do not overlap. -/
theorem delimited_iff : Delimited cs ↔ ∃ inner, cs = ['<', '<'] ++ inner ++ ['>', '>'] := by
  constructor
  · rintro ⟨⟨behind, rfl⟩, closes⟩
    have closes' : ['>', '>'] <:+ behind := by
      rcases List.suffix_cons_iff.1 closes with same | closes
      · cases same
      · rcases List.suffix_cons_iff.1 closes with same | closes
        · cases same
        · exact closes
    obtain ⟨inner, rfl⟩ := closes'
    exact ⟨inner, by simp⟩
  · rintro ⟨inner, rfl⟩
    exact ⟨⟨inner ++ ['>', '>'], by simp⟩, List.suffix_append _ _⟩

theorem trimmed_delimiters (inner : List Char) : Trimmed (['<', '<'] ++ inner ++ ['>', '>']) := by
  constructor
  · intro c hc
    obtain rfl : '<' = c := Option.some.inj hc
    rfl
  · intro c hc
    rw [List.getLast?_append_of_ne_nil _ (List.cons_ne_nil _ _)] at hc
    obtain rfl : '>' = c := Option.some.inj hc
    rfl

theorem strip_of_delimited (outside : Padded (['<', '<'] ++ inner ++ ['>', '>']) text) :
    strip text = trim inner := by
  simp only [strip, outside.trim_eq (trimmed_delimiters inner), between?_eq_some_iff.2 rfl]

theorem strip_of_not_delimited (undelimited : ¬ Delimited (trim text)) :
    strip text = trim text := by
  unfold strip
  dsimp only
  cases found : between? ['<', '<'] ['>', '>'] (trim text) with
  | none => rfl
  | some inner => exact absurd (delimited_iff.2 ⟨inner, between?_eq_some_iff.1 found⟩) undelimited

/-- Stripping leaves a trimmed text. -/
theorem trimmed_strip (text : List Char) : Trimmed (strip text) := by
  unfold strip
  dsimp only
  split
  · exact trimmed_trim _
  · exact trimmed_trim _

/-- A text writes the words that are left when it is stripped. -/
theorem writes_words_strip (text : List Char) : Writes (Text.words (strip text)) text := by
  obtain ⟨phrase, spaced⟩ := (trimmed_strip text).spaced_words
  by_cases delimited : Delimited (trim text)
  · obtain ⟨inner, parts⟩ := delimited_iff.1 delimited
    have outside : Padded (['<', '<'] ++ inner ++ ['>', '>']) text := parts ▸ padded_trim text
    refine .delimited phrase spaced ?_ outside
    rw [strip_of_delimited outside]
    exact padded_trim inner
  · refine .bare phrase spaced ?_ delimited
    rw [strip_of_not_delimited delimited]
    exact padded_trim text

/-- The words that a text writes are left when it is stripped. -/
theorem Writes.words_strip (writes : Writes ws text) : Text.words (strip text) = ws := by
  cases writes with
  | delimited phrase spaced inside outside =>
    rw [strip_of_delimited outside, inside.trim_eq (phrase.trimmed spaced)]
    exact spaced.words_eq phrase.words
  | bare phrase spaced outside undelimited =>
    rw [strip_of_not_delimited undelimited, outside.trim_eq (phrase.trimmed spaced)]
    exact spaced.words_eq phrase.words

theorem words_ofScript (text : String) :
    (ofScript text).words = (Text.words (strip text.toList)).map String.ofList := by
  rw [words, ofScript, String.toList_ofList]

end

/-- The words of a script text are exactly those it writes: words without spaces in them, a blank
neither at the start of the first nor at the end of the last, with any number of spaces between
them and any blanks around, between delimiters or, if the text does not seem to have any, without.
The name is the first of the words, if there is one. -/
theorem words_ofScript_iff (text : String) (ws : List String) :
    ((ofScript text).words = ws ↔ Writes (ws.map String.toList) text.toList) ∧
    (ofScript text).name? = (ofScript text).words.head? := by
  refine ⟨?_, name?_eq_head?_words _⟩
  rw [words_ofScript]
  constructor
  · rintro rfl
    have same : ((Text.words (strip text.toList)).map String.ofList).map String.toList =
        Text.words (strip text.toList) := by
      simp
    rw [same]
    exact writes_words_strip text.toList
  · intro writes
    rw [writes.words_strip]
    simp

/-- A tab is part of a word, and delimiters are stripped only once. -/
example : (ofScript " <<  <<say\thello   world>>>>\t").words = ["<<say\thello", "world>>"] := by
  decide +kernel

end Command

end Prompter
