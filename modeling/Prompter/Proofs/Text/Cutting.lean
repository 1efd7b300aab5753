import Mathlib.Data.List.TakeWhile
import Prompter.Text.Blank
import Prompter.Text.Cut

/-!
# Prompter.Proofs.Text.Cutting

Where texts are cut.

* Trimming takes the blanks at both ends away and nothing else (`padded_trim`). What is left neither
  starts nor ends with a blank (`trimmed_trim`), and there is one such text (`Padded.trim_eq`).
* What stands between two brackets is all of the text but the brackets (`between?_eq_some_iff`).
* A separator cuts at its first occurrence, if it occurs at all (`cutAt?_eq_some_iff`).
-/

namespace Prompter.Text

/-! ### Trimming -/

/-- A text of blanks only. -/
def AllBlank (cs : List Char) : Prop := ∀ c ∈ cs, isBlank c = true

/-- A text that neither starts nor ends with a blank. -/
structure Trimmed (cs : List Char) : Prop where
  front : ∀ c ∈ cs.head?, isBlank c = false
  back : ∀ c ∈ cs.getLast?, isBlank c = false

/-- A text that is `core` with blanks around it, or without. -/
def Padded (core text : List Char) : Prop :=
  ∃ before after, AllBlank before ∧ AllBlank after ∧ text = before ++ core ++ after

section

variable {cs core text before after : List Char}

theorem trimStart_append (blank : AllBlank before) (cs : List Char) :
    trimStart (before ++ cs) = trimStart cs :=
  List.dropWhile_append_of_pos blank

theorem trimStart_of_allBlank (blank : AllBlank cs) : trimStart cs = [] := by
  have := trimStart_append blank []
  rwa [List.append_nil] at this

theorem trimStart_of_front (front : ∀ c ∈ cs.head?, isBlank c = false) : trimStart cs = cs := by
  cases cs with
  | nil => rfl
  | cons c cs =>
    have solid : isBlank c = false := front c rfl
    exact List.dropWhile_cons_of_neg (by simp [solid])

theorem front_trimStart (cs : List Char) : ∀ c ∈ (trimStart cs).head?, isBlank c = false := by
  intro c hc
  have stops := List.head?_dropWhile_not isBlank cs
  rw [trimStart, Option.mem_def] at hc
  rwa [hc] at stops

/-- The text starts with blanks that trimming takes away. -/
theorem exists_trimStart (cs : List Char) :
    ∃ before, AllBlank before ∧ cs = before ++ trimStart cs :=
  ⟨cs.takeWhile isBlank, fun _ hc => List.mem_takeWhile_imp hc,
    List.takeWhile_append_dropWhile.symm⟩

theorem AllBlank.reverse (blank : AllBlank cs) : AllBlank cs.reverse :=
  fun c hc => blank c (List.mem_reverse.1 hc)

/-- The end is the start of the text read backwards. -/
theorem trimEnd_eq (cs : List Char) : trimEnd cs = (trimStart cs.reverse).reverse := rfl

theorem trimEnd_append (cs : List Char) (blank : AllBlank after) :
    trimEnd (cs ++ after) = trimEnd cs := by
  rw [trimEnd_eq, List.reverse_append, trimStart_append blank.reverse, trimEnd_eq]

theorem trimEnd_of_back (back : ∀ c ∈ cs.getLast?, isBlank c = false) : trimEnd cs = cs := by
  rw [trimEnd_eq, trimStart_of_front, List.reverse_reverse]
  rwa [List.head?_reverse]

theorem exists_trimEnd (cs : List Char) : ∃ after, AllBlank after ∧ cs = trimEnd cs ++ after := by
  obtain ⟨before, blank, parts⟩ := exists_trimStart cs.reverse
  refine ⟨before.reverse, blank.reverse, ?_⟩
  rw [trimEnd_eq, ← List.reverse_append, ← parts, List.reverse_reverse]

/-- Trimming leaves a trimmed text. -/
theorem trimmed_trim (cs : List Char) : Trimmed (trim cs) := by
  constructor
  · intro c hc
    obtain ⟨after, -, parts⟩ := exists_trimEnd (trimStart cs)
    have first : c ∈ (trimStart cs).head? := by
      rw [parts, List.head?_append, Option.mem_def]
      exact Option.or_eq_some_iff.2 (.inl hc)
    exact front_trimStart cs c first
  · intro c hc
    rw [trim, trimEnd_eq, List.getLast?_reverse] at hc
    exact front_trimStart _ c hc

/-- Trimming takes blanks away. -/
theorem padded_trim (cs : List Char) : Padded (trim cs) cs := by
  obtain ⟨before, front, start⟩ := exists_trimStart cs
  obtain ⟨after, back, stop⟩ := exists_trimEnd (trimStart cs)
  refine ⟨before, after, front, back, ?_⟩
  rw [trim, List.append_assoc, ← stop]
  exact start

/-- Of a trimmed text with blanks around it, trimming leaves the text. -/
theorem Padded.trim_eq (padded : Padded core text) (trimmed : Trimmed core) : trim text = core := by
  obtain ⟨before, after, front, back, rfl⟩ := padded
  rw [trim, List.append_assoc, trimStart_append front]
  cases core with
  | nil => rw [List.nil_append, trimStart_of_allBlank back, trimEnd_nil]
  | cons c core =>
    have stays : trimStart (c :: core ++ after) = c :: core ++ after :=
      trimStart_of_front trimmed.front
    rw [stays, trimEnd_append _ back, trimEnd_of_back trimmed.back]

end

/-! ### Brackets -/

section

variable {sep cs rest left right inner : List Char}

theorem dropFront?_eq_some_iff : dropFront? sep cs = some rest ↔ cs = sep ++ rest := by
  constructor
  · intro dropped
    induction sep generalizing cs with
    | nil => exact Option.some.inj dropped
    | cons s sep ih =>
      cases cs with
      | nil => cases dropped
      | cons c cs =>
        rw [dropFront?] at dropped
        split at dropped
        · next same => rw [same, ih dropped, List.cons_append]
        · cases dropped
  · rintro rfl
    exact dropFront?_append sep rest

theorem ne_of_dropFront?_eq_none (kept : dropFront? sep cs = none) (rest : List Char) :
    cs ≠ sep ++ rest := by
  intro parts
  rw [dropFront?_eq_some_iff.2 parts] at kept
  cases kept

theorem dropBack?_eq_some_iff : dropBack? sep cs = some rest ↔ cs = rest ++ sep := by
  rw [dropBack?, Option.map_eq_some_iff]
  constructor
  · rintro ⟨back, dropped, rfl⟩
    have parts := congrArg List.reverse (dropFront?_eq_some_iff.1 dropped)
    simpa using parts
  · rintro rfl
    exact ⟨rest.reverse, dropFront?_eq_some_iff.2 (List.reverse_append ..), rest.reverse_reverse⟩

/-- What stands between two brackets. -/
theorem between?_eq_some_iff :
    between? left right cs = some inner ↔ cs = left ++ inner ++ right := by
  rw [between?, Option.bind_eq_some_iff]
  constructor
  · rintro ⟨rest, front, back⟩
    rw [dropFront?_eq_some_iff.1 front, dropBack?_eq_some_iff.1 back, List.append_assoc]
  · rintro rfl
    rw [List.append_assoc]
    exact ⟨inner ++ right, dropFront?_append left _, dropBack?_eq_some_iff.2 rfl⟩

end

/-! ### The first occurrence of a separator -/

/-- `front` and `rest` are what stands before and behind the first occurrence of `sep`. -/
structure FirstCut (sep cs front rest : List Char) : Prop where
  parts : cs = front ++ sep ++ rest
  first : ∀ front' rest', cs = front' ++ sep ++ rest' → front.length ≤ front'.length

section

variable {sep cs front front' rest rest' : List Char}

theorem FirstCut.unique (cut : FirstCut sep cs front rest) (cut' : FirstCut sep cs front' rest') :
    front = front' ∧ rest = rest' := by
  have same := cut.parts.symm.trans cut'.parts
  have long : front.length = front'.length :=
    le_antisymm (cut.first _ _ cut'.parts) (cut'.first _ _ cut.parts)
  obtain ⟨front_eq, rest_eq⟩ := List.append_inj same (by simp [long])
  exact ⟨List.append_inj_left front_eq long, rest_eq⟩

theorem ne_of_cutAt?_eq_none (uncut : cutAt? sep cs = none) (front rest : List Char) :
    cs ≠ front ++ sep ++ rest := by
  induction cs generalizing front with
  | nil =>
    intro parts
    have here : dropFront? sep [] = none := by simpa [cutAt?] using uncut
    obtain rfl : sep = [] := (List.append_eq_nil_iff.1 (List.append_eq_nil_iff.1 parts.symm).1).2
    cases here
  | cons c cs ih =>
    intro parts
    rw [cutAt?] at uncut
    split at uncut
    · cases uncut
    · next here =>
      cases front with
      | nil => exact ne_of_dropFront?_eq_none here rest parts
      | cons d front => exact ih (Option.map_eq_none_iff.1 uncut) front (List.cons.inj parts).2

theorem firstCut_of_cutAt? (cut : cutAt? sep cs = some (front, rest)) :
    FirstCut sep cs front rest := by
  induction cs generalizing front with
  | nil =>
    obtain ⟨rest', here, same⟩ := Option.map_eq_some_iff.1 cut
    obtain ⟨rfl, rfl⟩ := Prod.mk.inj same
    exact ⟨dropFront?_eq_some_iff.1 here, fun _ _ _ => Nat.zero_le _⟩
  | cons c cs ih =>
    rw [cutAt?] at cut
    split at cut
    · next here =>
      obtain ⟨rfl, rfl⟩ := Prod.mk.inj (Option.some.inj cut)
      exact ⟨dropFront?_eq_some_iff.1 here, fun _ _ _ => Nat.zero_le _⟩
    · next here =>
      obtain ⟨⟨front', rest'⟩, later, same⟩ := Option.map_eq_some_iff.1 cut
      obtain ⟨rfl, rfl⟩ := Prod.mk.inj same
      have ih := ih later
      refine ⟨by rw [ih.parts]; rfl, fun other behind parts => ?_⟩
      cases other with
      | nil => exact absurd parts (ne_of_dropFront?_eq_none here behind)
      | cons d other => exact Nat.succ_le_succ (ih.first other behind (List.cons.inj parts).2)

/-- A text is cut at the first occurrence of the separator. -/
theorem cutAt?_eq_some_iff : cutAt? sep cs = some (front, rest) ↔ FirstCut sep cs front rest := by
  constructor
  · exact firstCut_of_cutAt?
  · intro cut
    cases found : cutAt? sep cs with
    | none => exact absurd cut.parts (ne_of_cutAt?_eq_none found front rest)
    | some split =>
      obtain ⟨rfl, rfl⟩ := (firstCut_of_cutAt? found).unique cut
      rfl

end

end Prompter.Text
