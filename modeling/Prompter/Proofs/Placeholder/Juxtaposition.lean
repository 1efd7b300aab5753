import Mathlib.Data.List.Induction
import Prompter.Proofs.Placeholder.Splitting

/-!
# Prompter.Proofs.Placeholder.Juxtaposition

Texts that are put together.

The pieces of a text and of one that follows it are the pieces of both, if no brace of the first is
left open at its end (`Splits.append`). So a placeholder that stands between two texts is replaced,
and the texts as if each stood alone, exactly if every opening brace before it is closed before it,
too (`substitute_marker`). An open one takes the placeholder for a part of its own key.
-/

namespace Prompter.StringTable

open Number (digitsValue maxWord readDigits? readIndex?)

/-! ### Braces that are closed -/

/-- Behind every opening brace there is a closing one. -/
def ClosesBraces (cs : List Char) : Prop := ∀ behind, '{' :: behind <:+ cs → '}' ∈ behind

section

variable {n : Nat} {c : Char} {cs cs' behind key rest : List Char} {pieces pieces' : List (Piece n)}

theorem closesBraces_nil : ClosesBraces [] := fun _ suffix => by
  cases List.suffix_nil.1 suffix

theorem closesBraces_cons :
    ClosesBraces (c :: cs) ↔ (c = '{' → '}' ∈ cs) ∧ ClosesBraces cs := by
  constructor
  · refine fun closed => ⟨?_, fun behind suffix => closed behind (suffix.trans (cs.suffix_cons c))⟩
    rintro rfl
    exact closed cs List.suffix_rfl
  · rintro ⟨here, closed⟩ behind suffix
    rcases List.suffix_cons_iff.1 suffix with same | suffix
    · obtain ⟨rfl, rfl⟩ := List.cons.inj same
      exact here rfl
    · exact closed behind suffix

/-- Whether all braces are closed can be computed. -/
instance decidableClosesBraces : (cs : List Char) → Decidable (ClosesBraces cs)
  | [] => .isTrue closesBraces_nil
  | _ :: cs =>
    have := decidableClosesBraces cs
    decidable_of_iff' _ closesBraces_cons

theorem ClosesBraces.of_closes (closed : ClosesBraces ('{' :: behind))
    (closes : Closes behind key rest) : ClosesBraces rest := by
  intro behind' suffix
  refine closed behind' (suffix.trans ⟨'{' :: key ++ ['}'], ?_⟩)
  rw [closes.parts]
  simp

theorem closesBraces_concat :
    ClosesBraces (cs ++ [c]) ↔ c = '}' ∨ c ≠ '{' ∧ ClosesBraces cs := by
  constructor
  · intro closed
    by_cases closing : c = '}'
    · exact .inl closing
    · refine .inr ⟨?_, fun behind suffix => ?_⟩
      · rintro rfl
        cases closed [] (List.suffix_append cs ['{'])
      · obtain ⟨before, rfl⟩ := suffix
        have later := closed (behind ++ [c]) ⟨before, by simp⟩
        rcases List.mem_append.1 later with inside | last
        · exact inside
        · exact absurd (List.mem_singleton.1 last).symm closing
  · intro closed behind suffix
    rcases List.suffix_concat_iff.1 suffix with none | ⟨part, same, suffix⟩
    · cases none
    · cases part with
      | nil =>
        obtain ⟨rfl, rfl⟩ := List.cons.inj same
        rcases closed with closing | ⟨other, -⟩
        · cases closing
        · exact absurd rfl other
      | cons d part =>
        obtain ⟨rfl, parts⟩ := List.cons.inj same
        rw [parts]
        rcases closed with rfl | ⟨-, closed⟩
        · exact List.mem_append_right part (List.mem_singleton_self _)
        · exact List.mem_append_left _ (closed part suffix)

/-- Either all braces are closed, or there is a first one that is not. -/
theorem closesBraces_or (cs : List Char) : ClosesBraces cs ∨
    ∃ before behind, ClosesBraces before ∧ '}' ∉ behind ∧ cs = before ++ '{' :: behind := by
  induction cs using List.reverseRecOn with
  | nil => exact .inl closesBraces_nil
  | append_singleton cs c ih =>
    by_cases closing : c = '}'
    · exact .inl (closesBraces_concat.2 (.inl closing))
    · rcases ih with closed | ⟨before, behind, closed, never, rfl⟩
      · by_cases opening : c = '{'
        · exact .inr ⟨cs, [], closed, List.not_mem_nil, by rw [opening]⟩
        · exact .inl (closesBraces_concat.2 (.inr ⟨opening, closed⟩))
      · refine .inr ⟨before, behind ++ [c], closed, ?_, by simp⟩
        simp [never, Ne.symm closing]

/-! ### Two texts -/

theorem Closes.append (closes : Closes behind key rest) (cs' : List Char) :
    Closes (behind ++ cs') key (rest ++ cs') := by
  refine ⟨?_, closes.first⟩
  rw [closes.parts, List.append_assoc, List.cons_append]

/-- The pieces of two texts are those of the first and those of the second. -/
theorem Splits.append (splits : Splits cs pieces) (closed : ClosesBraces cs)
    (splits' : Splits cs' pieces') : Splits (cs ++ cs') (pieces ++ pieces') := by
  induction splits with
  | nil => exact splits'
  | outside other others ih => exact .outside other (ih (closesBraces_cons.1 closed).2)
  | placeholder closes writes others ih =>
    exact .placeholder (closes.append cs') writes (ih (closed.of_closes closes))
  | braces closes foreign others ih =>
    exact .braces (closes.append cs') foreign (ih (closed.of_closes closes))
  | unclosed never => exact absurd ((closesBraces_cons.1 closed).1 rfl) never

variable (values : Vector String n)

theorem substituteFrom_append_of_closesBraces (closed : ClosesBraces cs) (cs' : List Char) :
    substituteFrom values.toList none (cs ++ cs') =
      substituteFrom values.toList none cs ++ substituteFrom values.toList none cs' := by
  obtain ⟨pieces, splits⟩ := exists_splits n cs
  obtain ⟨pieces', splits'⟩ := exists_splits n cs'
  rw [(splits.append closed splits').substituteFrom_eq, splits.substituteFrom_eq,
    splits'.substituteFrom_eq, List.flatMap_append]

end

/-! ### A placeholder between two texts -/

/-- The placeholder that writes an index in decimal. -/
def marker (i : Nat) : String := "\x7b" ++ toString i ++ "\x7d"

theorem toList_marker (i : Nat) : (marker i).toList = '{' :: Nat.toDigits 10 i ++ ['}'] := by
  have digits : (toString i).toList = Nat.toDigits 10 i := Nat.toList_repr
  rw [marker, String.toList_append, String.toList_append, digits]
  rfl

section

variable {n : Nat} {key : List Char}

theorem isDigit_of_mem_decimal {i : Nat} {c : Char} (hc : c ∈ Nat.toDigits 10 i) :
    c.isDigit = true :=
  Nat.isDigit_of_mem_toDigits (by decide) (by decide) hc

theorem not_mem_decimal {i : Nat} {c : Char} (other : c.isDigit = false) :
    c ∉ Nat.toDigits 10 i := fun hc => by
  rw [isDigit_of_mem_decimal hc] at other
  cases other

theorem readDigits?_decimal (i : Nat) : readDigits? (Nat.toDigits 10 i) = some i := by
  have all : (Nat.toDigits 10 i).all (·.isDigit) = true :=
    List.all_eq_true.2 fun c hc => isDigit_of_mem_decimal hc
  have nonempty : (Nat.toDigits 10 i).isEmpty = false := by simp
  have value : digitsValue (Nat.toDigits 10 i) = i :=
    Nat.ofDigitChars_toDigits (by decide) (by decide)
  simp [readDigits?, all, nonempty, value]

/-- An index is read from its decimal writing, unless it is too large. -/
theorem readIndex?_decimal (i : Nat) :
    readIndex? (Nat.toDigits 10 i) = if i ≤ maxWord then some i else none := by
  unfold readIndex?
  split
  · next plus =>
    have sign : '+' ∈ Nat.toDigits 10 i := plus ▸ List.mem_cons_self
    exact absurd sign (not_mem_decimal rfl)
  · dsimp only
    rw [readDigits?_decimal, Option.filter_some]
    simp

theorem readDigits?_of_mem {c : Char} (hc : c ∈ key) (other : c.isDigit = false) :
    readDigits? key = none := by
  have foreign : ¬ key.all (·.isDigit) = true := fun all => by
    rw [List.all_eq_true.1 all c hc] at other
    cases other
  simp [readDigits?, foreign]

/-- A key with a brace in it writes no index. -/
theorem readIndex?_of_brace (brace : '{' ∈ key) : readIndex? key = none := by
  unfold readIndex?
  split
  · next digits =>
    have later := (List.mem_cons.1 brace).resolve_left (by decide)
    dsimp only
    rw [readDigits?_of_mem later rfl, Option.filter_none]
  · dsimp only
    rw [readDigits?_of_mem brace rfl, Option.filter_none]

theorem fill_decimal (values : Vector String n) (i : Fin n) :
    fill (Nat.toDigits 10 i) values.toList =
      if i.val ≤ maxWord then (values.get i).toList else (marker i).toList := by
  by_cases small : i.val ≤ maxWord
  · rw [if_pos small]
    exact fill_of_writes (by rw [readIndex?_decimal, if_pos small])
  · rw [if_neg small, toList_marker]
    refine fill_of_foreign fun index => ?_
    rw [readIndex?_decimal, if_neg small]
    nofun

variable (values : Vector String n) (i : Fin n) (cs : List Char)

theorem closes_marker (before : List Char) (never : '}' ∉ before) :
    Closes (before ++ Nat.toDigits 10 i ++ '}' :: cs) (before ++ Nat.toDigits 10 i) cs := by
  refine ⟨rfl, fun closing => ?_⟩
  rcases List.mem_append.1 closing with earlier | digit
  · exact never earlier
  · exact not_mem_decimal rfl digit

/-- A placeholder is replaced where no brace is open. -/
theorem substituteFrom_marker :
    substituteFrom values.toList none ((marker i).toList ++ cs) =
      (if i.val ≤ maxWord then (values.get i).toList else (marker i).toList) ++
        substituteFrom values.toList none cs := by
  have closes : Closes (Nat.toDigits 10 i ++ '}' :: cs) (Nat.toDigits 10 i) cs :=
    closes_marker i cs [] List.not_mem_nil
  have parts : (marker i).toList ++ cs = '{' :: (Nat.toDigits 10 i ++ '}' :: cs) := by
    simp [toList_marker]
  rw [parts, substituteFrom_closes closes, fill_decimal]

/-- A placeholder stays where a brace is open, which is closed by it. -/
theorem substituteFrom_marker_of_open {behind : List Char} (never : '}' ∉ behind) :
    substituteFrom values.toList none ('{' :: behind ++ (marker i).toList ++ cs) =
      '{' :: behind ++ (marker i).toList ++ substituteFrom values.toList none cs := by
  have closes := closes_marker i cs (behind ++ ['{']) (by simp [never])
  have foreign : fill (behind ++ ['{'] ++ Nat.toDigits 10 i) values.toList = _ :=
    fill_of_foreign fun index => by simp [readIndex?_of_brace]
  have parts : '{' :: behind ++ (marker i).toList ++ cs =
      '{' :: (behind ++ ['{'] ++ Nat.toDigits 10 i ++ '}' :: cs) := by
    simp [toList_marker]
  rw [parts, substituteFrom_closes closes, foreign]
  simp [toList_marker]

/-- What comes of a placeholder between two texts. -/
theorem substituteFrom_between (cs cs' : List Char) :
    substituteFrom values.toList none (cs ++ (marker i).toList ++ cs') =
      substituteFrom values.toList none cs ++
        (if ClosesBraces cs ∧ i.val ≤ maxWord then values.get i else marker i).toList ++
          substituteFrom values.toList none cs' := by
  rcases closesBraces_or cs with closed | ⟨before, behind, closed, never, rfl⟩
  · rw [List.append_assoc, substituteFrom_append_of_closesBraces values closed,
      substituteFrom_marker, List.append_assoc]
    by_cases small : i.val ≤ maxWord <;> simp [closed, small]
  · have open_ : ¬ ClosesBraces (before ++ '{' :: behind) :=
      fun closed => never (closed behind (List.suffix_append before _))
    rw [if_neg (fun both => open_ both.1), substituteFrom_append_of_closesBraces values closed,
      substituteFrom_unclosed never]
    have alone := substituteFrom_marker_of_open values i cs' never
    rw [List.append_assoc, List.append_assoc] at alone ⊢
    rw [substituteFrom_append_of_closesBraces values closed, alone]
    simp

end

/-- A placeholder between two texts is replaced, and the texts as if they stood alone, exactly if
every brace that is opened before it is closed before it and its index is not too large, unless the
value happens to be the text of the placeholder. Otherwise the placeholder stays, and the texts are
treated as before. -/
theorem substitute_marker {n : Nat} (a b : String) (values : Vector String n) (i : Fin n) :
    (substitute (a ++ marker i ++ b) values.toList =
        substitute a values.toList ++ values.get i ++ substitute b values.toList ↔
      ClosesBraces a.toList ∧ i.val ≤ maxWord ∨ values.get i = marker i) ∧
    substitute (a ++ marker i ++ b) values.toList =
      substitute a values.toList ++
        (if ClosesBraces a.toList ∧ i.val ≤ maxWord then values.get i else marker i) ++
          substitute b values.toList := by
  have between : substitute (a ++ marker i ++ b) values.toList =
      substitute a values.toList ++
        (if ClosesBraces a.toList ∧ i.val ≤ maxWord then values.get i else marker i) ++
          substitute b values.toList := by
    apply String.toList_inj.1
    simp only [substitute_eq, String.toList_append, String.toList_ofList]
    exact substituteFrom_between values i a.toList b.toList
  refine ⟨?_, between⟩
  rw [between]
  have cancel (s t : String) : substitute a values.toList ++ s ++ substitute b values.toList =
      substitute a values.toList ++ t ++ substitute b values.toList ↔ s = t := by
    simp only [← String.toList_inj, String.toList_append, List.append_cancel_right_eq,
      List.append_cancel_left_eq]
  rw [cancel]
  by_cases closed : ClosesBraces a.toList ∧ i.val ≤ maxWord
  · simp [closed]
  · simp [closed, eq_comm]

/-- A stray brace keeps a placeholder from being replaced. -/
theorem exists_disabled_marker : ∃ (a b : String) (values : Vector String 1),
    substitute (a ++ marker 0 ++ b) values.toList ≠
      substitute a values.toList ++ values.get 0 ++ substitute b values.toList :=
  ⟨"\x7b ", "", #v["x"], by decide +kernel⟩

end Prompter.StringTable
