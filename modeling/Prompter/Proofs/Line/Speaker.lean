import Prompter.Line.Basic
import Prompter.Proofs.Text.Cutting

/-!
# Prompter.Proofs.Line.Speaker

The speaker and the body of a line.

A text ascribes its body to a name if, before the first colon that a space follows, there is nothing
but the name and blanks around it. A line has the speaker and the body that its text says, and no
speaker exactly if the text does not ascribe anything to anyone (`speaker_body_iff`). So a single
word, a colon, a space and any text are read as that speaker and that body: a name has no space in
it, and a colon at its end is followed by another one.
-/

namespace Prompter

namespace Text

/-- A name is not empty, and there is no blank in it. -/
structure IsName (cs : List Char) : Prop where
  nonempty : cs ≠ []
  solid : ∀ c ∈ cs, isBlank c = false

/-- A text in which `name` says `rest`: before the first colon that a space follows stands the name,
with blanks around it or without, and behind it the rest. -/
inductive Ascribes (name rest text : List Char) : Prop
  | intro {front : List Char} (isName : IsName name) (padded : Padded name front)
      (cut : FirstCut [':', ' '] text front rest)

section

variable {name front rest text : List Char}

theorem IsName.trimmed (isName : IsName name) : Trimmed name :=
  ⟨fun c hc => isName.solid c (List.mem_of_mem_head? hc),
    fun c hc => isName.solid c (List.mem_of_mem_getLast? hc)⟩

/-- Whether a text can be a name is computed. -/
theorem isName_iff_not : IsName name ↔ ¬ (name.isEmpty || name.any isBlank) = true := by
  rw [Bool.or_eq_true, not_or, List.isEmpty_iff, List.any_eq_true]
  constructor
  · rintro ⟨nonempty, solid⟩
    refine ⟨nonempty, ?_⟩
    rintro ⟨c, hc, blank⟩
    rw [solid c hc] at blank
    cases blank
  · rintro ⟨nonempty, never⟩
    refine ⟨nonempty, fun c hc => ?_⟩
    rw [← Bool.not_eq_true]
    intro blank
    exact never ⟨c, hc, blank⟩

/-- What a text ascribes is found by a cut and a trim. -/
theorem ascribes_iff : Ascribes name rest text ↔
    ∃ front, cutAt? [':', ' '] text = some (front, rest) ∧ trim front = name ∧ IsName name := by
  constructor
  · rintro ⟨isName, padded, cut⟩
    exact ⟨_, cutAt?_eq_some_iff.2 cut, padded.trim_eq isName.trimmed, isName⟩
  · rintro ⟨front, cut, rfl, isName⟩
    exact ⟨isName, padded_trim front, cutAt?_eq_some_iff.1 cut⟩

/-- The first colon that a space follows is the one behind the name. -/
theorem IsName.firstCut (isName : IsName name) (rest : List Char) :
    FirstCut [':', ' '] (name ++ [':', ' '] ++ rest) name rest := by
  refine ⟨rfl, fun front' rest' parts => ?_⟩
  -- an earlier one would have its space inside the name, or in the place of the colon
  by_contra early
  have space : (name ++ [':', ' '] ++ rest)[front'.length + 1]? = some ' ' := by
    rw [parts]
    simp
  rcases Nat.lt_or_ge (front'.length + 1) name.length with inside | behind
  · rw [List.append_assoc, List.getElem?_append_left inside] at space
    have solid := isName.solid ' ' (List.mem_of_getElem? space)
    cases solid
  · have here : front'.length + 1 = name.length := by omega
    rw [here] at space
    simp at space

theorem IsName.ascribes (isName : IsName name) (rest : List Char) :
    Ascribes name rest (name ++ [':', ' '] ++ rest) :=
  ⟨isName, ⟨[], [], nofun, nofun, by simp⟩, isName.firstCut rest⟩

theorem Ascribes.isName (ascribes : Ascribes name rest text) : IsName name := by
  obtain ⟨isName, -, -⟩ := ascribes
  exact isName

end

end Text

namespace LocalizedLine

open Text

section

variable {l : LocalizedLine} {name rest : String}

theorem speaker?_eq_some_iff : l.speaker? = some name ↔
    ∃ front rest, cutAt? [':', ' '] l.text.toList = some (front, rest) ∧
      trim front = name.toList ∧ IsName name.toList := by
  unfold speaker?
  cases found : cutAt? [':', ' '] l.text.toList with
  | none => simp
  | some cut =>
    obtain ⟨front, rest⟩ := cut
    dsimp only
    constructor
    · intro speaks
      split at speaks
      · cases speaks
      · next proper =>
        obtain rfl := Option.some.inj speaks
        rw [String.toList_ofList]
        exact ⟨front, rest, rfl, rfl, isName_iff_not.2 proper⟩
    · rintro ⟨front', rest', same, trimmed, isName⟩
      obtain ⟨rfl, rfl⟩ := Prod.mk.inj (Option.some.inj same)
      rw [trimmed, if_neg (isName_iff_not.1 isName), String.ofList_toList]

theorem body_of_speaker? {front rest : List Char} (speaks : l.speaker? = some name)
    (cut : cutAt? [':', ' '] l.text.toList = some (front, rest)) :
    l.body = String.ofList rest := by
  simp only [body, speaks, cut]

theorem body_of_speaker?_eq_none (silent : l.speaker? = none) : l.body = l.text := by
  simp only [body, silent]

/-- The speaker and the body are what the text says. -/
theorem speaks_iff : l.speaker? = some name ∧ l.body = rest ↔
    Ascribes name.toList rest.toList l.text.toList := by
  rw [ascribes_iff]
  constructor
  · rintro ⟨speaks, rfl⟩
    obtain ⟨front, rest, cut, trimmed, isName⟩ := speaker?_eq_some_iff.1 speaks
    rw [body_of_speaker? speaks cut, String.toList_ofList]
    exact ⟨front, cut, trimmed, isName⟩
  · rintro ⟨front, cut, trimmed, isName⟩
    have speaks := speaker?_eq_some_iff.2 ⟨front, rest.toList, cut, trimmed, isName⟩
    refine ⟨speaks, ?_⟩
    rw [body_of_speaker? speaks cut, String.ofList_toList]

end

/-- A line has a speaker and a body exactly if its text ascribes the body to the speaker, and
without a speaker its body is the whole text. So a text that is put together of a name, a colon, a
space and a rest is taken apart into the name and the rest, exactly if the name is one: not empty
and without blanks. Colons are allowed in it. -/
theorem speaker_body_iff (l : LocalizedLine) :
    (∀ name, l.speaker? = some name ↔ ∃ rest, Ascribes name.toList rest l.text.toList) ∧
    (∀ name rest : String, l.speaker? = some name ∧ l.body = rest ↔
      Ascribes name.toList rest.toList l.text.toList) ∧
    (l.speaker? = none → l.body = l.text) ∧
    ∀ name rest : String, l.text = name ++ ": " ++ rest →
      (l.speaker? = some name ∧ l.body = rest ↔ IsName name.toList) := by
  refine ⟨fun name => ⟨fun speaks => ?_, ?_⟩, fun name rest => speaks_iff,
    body_of_speaker?_eq_none, fun name rest parts => ?_⟩
  · exact ⟨l.body.toList, speaks_iff.1 ⟨speaks, rfl⟩⟩
  · rintro ⟨rest, ascribes⟩
    rw [← String.toList_ofList (l := rest)] at ascribes
    exact (speaks_iff.2 ascribes).1
  · rw [speaks_iff, parts, String.toList_append, String.toList_append]
    exact ⟨Ascribes.isName, fun isName => isName.ascribes rest.toList⟩

/-- A line that shows its raw text. -/
def plain (text : String) : LocalizedLine := ⟨⟨"line:1", text, []⟩, text, .running⟩

/-- Two words are no name, and a name may end with colons. -/
theorem speaker_body_of_droid :
    ((plain "The droid: R2: D2").speaker? = none ∧
      (plain "The droid: R2: D2").body = "The droid: R2: D2") ∧
    (plain "R2:D2:: a: b").text = "R2:D2:" ++ ": " ++ "a: b" ∧ IsName "R2:D2:".toList ∧
    (plain "R2:D2:: a: b").speaker? = some "R2:D2:" ∧ (plain "R2:D2:: a: b").body = "a: b" := by
  have silent : (plain "The droid: R2: D2").speaker? = none := by decide +kernel
  have parts : (plain "R2:D2:: a: b").text = "R2:D2:" ++ ": " ++ "a: b" := by decide +kernel
  have isName : IsName "R2:D2:".toList := isName_iff_not.2 (by decide +kernel)
  obtain ⟨-, -, whole, -⟩ := speaker_body_iff (plain "The droid: R2: D2")
  obtain ⟨-, -, -, apart⟩ := speaker_body_iff (plain "R2:D2:: a: b")
  exact ⟨⟨silent, whole silent⟩, parts, isName, (apart "R2:D2:" "a: b" parts).2 isName⟩

end LocalizedLine

end Prompter
