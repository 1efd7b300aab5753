import Prompter.Proofs.Command.Omission

/-!
# Prompter.Proofs.Command.Arguments

What comes of reading words as parameters, without the order in which they are looked at.

`ReadsAs` has one constructor for each of the three outcomes, each with all that has to hold for it:
the number of words does not fit, some word does not read as the kind of its parameter and this is
the first such word, or every parameter gets the argument that its own word makes. They exclude each
other and leave nothing out, so the words are read in one of these ways and it is the one that is
found (`readArguments_iff`).
-/

namespace Prompter

variable {resolver : Option EntityResolver} {p : Parameter} {ps : List Parameter} {word : String}
  {words : List String} {args : List Argument} {e : CommandError}
  {r r' : Except CommandError (List Argument)}

/-! ### Outcomes -/

/-- How many parameters are optional. -/
def optionalCount (params : List Parameter) : Nat := params.countP (·.isOptional)

theorem requiredCount_add_optionalCount (ps : List Parameter) :
    requiredCount ps + optionalCount ps = ps.length := by
  rw [requiredCount, optionalCount, ← List.countP_eq_length_filter, Nat.add_comm]
  simpa using (List.length_eq_countP_add_countP (·.isOptional) (l := ps)).symm

/-- There is a word for every required parameter, and a parameter for every word. -/
def CountFits (ps : List Parameter) (words : List String) : Prop :=
  requiredCount ps ≤ words.length ∧ words.length ≤ requiredCount ps + optionalCount ps

/-- What comes of reading words as parameters. -/
inductive ReadsAs (resolver : Option EntityResolver) (ps : List Parameter) (words : List String) :
    Except CommandError (List Argument) → Prop
  /-- There are too few or too many words. -/
  | miscounted (count : ¬ CountFits ps words) :
      ReadsAs resolver ps words
        (.error (.arity "" (requiredCount ps) (requiredCount ps + optionalCount ps) words.length))
  /-- A word cannot be read, and all before it can. -/
  | misread {i : Nat} {p : Parameter} {word : String} (fits : CountFits ps words)
      (param : ps[i]? = some p) (own : words[i]? = some word)
      (unread : (p.kind.convert resolver word).1 = none)
      (first : ∀ j < i, ∀ (q : Parameter) (w : String), ps[j]? = some q → words[j]? = some w →
        (q.kind.convert resolver w).1.isSome = true) :
      ReadsAs resolver ps words (.error (.conversion "" i word p.kind.describe))
  /-- Every parameter gets an argument: the one that its own word makes, or none if it has none. -/
  | read {args : List Argument} (fits : CountFits ps words) (length : args.length = ps.length)
      (given : ∀ (i : Nat) (p : Parameter) (word : String), ps[i]? = some p →
        words[i]? = some word → args[i]? = (p.kind.convert resolver word).1)
      (omitted : ∀ (i : Nat) (p : Parameter), ps[i]? = some p → words.length ≤ i →
        args[i]? = some .default) :
      ReadsAs resolver ps words (.ok args)

/-! ### The outcome that is found -/

theorem length_of_convertAll {index : Nat}
    (ok : (convertAll resolver index ps words).1 = .ok args) : args.length = ps.length := by
  induction ps generalizing index words args with
  | nil =>
    cases ok
    rfl
  | cons p ps ih =>
    obtain ⟨a, others, -, rest, rfl⟩ := convertAll_cons_eq_ok.1 ok
    rw [List.length_cons, List.length_cons, ih rest]

/-- If words cannot be read, it is because of the first that cannot. -/
theorem exists_of_convertAll_eq_error {index : Nat}
    (failed : (convertAll resolver index ps words).1 = .error e) :
    ∃ i p word, ps[i]? = some p ∧ words[i]? = some word ∧
      (p.kind.convert resolver word).1 = none ∧
      e = .conversion "" (index + i) word p.kind.describe ∧
      ∀ j < i, ∀ q w, ps[j]? = some q → words[j]? = some w →
        (q.kind.convert resolver w).1.isSome = true := by
  have map_error {x : Except CommandError (List Argument)} {a : Argument}
      (failed : x.map (a :: ·) = .error e) : x = .error e := by
    cases x with
    | error => exact failed
    | ok => cases failed
  induction ps generalizing index words with
  | nil => cases failed
  | cons p ps ih =>
    cases words with
    | nil =>
      obtain ⟨i, -, word, -, own, -⟩ := ih (map_error failed)
      cases own
    | cons word words =>
      rcases made : p.kind.convert resolver word with ⟨a | a, remarks⟩
      · rw [convertAll, made] at failed
        cases failed
        exact ⟨0, p, word, rfl, rfl, congrArg Prod.fst made, rfl, by simp⟩
      · rw [convertAll, made] at failed
        obtain ⟨i, q, w, param, own, unread, rfl, first⟩ := ih (map_error failed)
        refine ⟨i + 1, q, w, param, own, unread, ?_, fun j before q' w' param' own' => ?_⟩
        · rw [Nat.add_assoc, Nat.add_comm 1 i]
        · cases j with
          | zero =>
            cases param'
            cases own'
            rw [made]
            rfl
          | succ j => exact first j (Nat.lt_of_succ_lt_succ before) q' w' param' own'

theorem readArguments_of_not_fits (count : ¬ CountFits ps words) :
    (readArguments resolver ps words).1 =
      .error (.arity "" (requiredCount ps) (requiredCount ps + optionalCount ps) words.length) := by
  have total := requiredCount_add_optionalCount ps
  have outside : words.length < requiredCount ps ∨ ps.length < words.length := by
    unfold CountFits at count
    omega
  rw [readArguments, total, if_pos (by simpa using outside)]

theorem readArguments_of_fits (fits : CountFits ps words) :
    readArguments resolver ps words = convertAll resolver 0 ps words := by
  have total := requiredCount_add_optionalCount ps
  obtain ⟨few, many⟩ := fits
  have inside : ¬ (words.length < requiredCount ps ∨ ps.length < words.length) := by omega
  rw [readArguments, if_neg (by simpa using inside)]

/-- What is found is one of the three outcomes. -/
theorem readsAs_readArguments (resolver : Option EntityResolver) (ps : List Parameter)
    (words : List String) : ReadsAs resolver ps words (readArguments resolver ps words).1 := by
  by_cases fits : CountFits ps words
  · rw [readArguments_of_fits fits]
    cases found : (convertAll resolver 0 ps words).1 with
    | error e =>
      obtain ⟨i, p, word, param, own, unread, rfl, first⟩ := exists_of_convertAll_eq_error found
      rw [Nat.zero_add]
      exact .misread fits param own unread first
    | ok args =>
      refine .read fits (length_of_convertAll found) (fun i p word param own => ?_)
        fun i p param behind => ?_
      · rw [getElem?_of_convertAll found, param, own]
        rfl
      · rw [getElem?_of_convertAll found, param, List.getElem?_eq_none behind]
        rfl
  · rw [readArguments_of_not_fits fits]
    exact .miscounted fits

/-! ### There is one outcome -/

/-- Where every parameter gets its argument, every word can be read. -/
theorem ne_none_of_given (length : args.length = ps.length)
    (given : ∀ (i : Nat) (p : Parameter) (word : String), ps[i]? = some p →
      words[i]? = some word → args[i]? = (p.kind.convert resolver word).1)
    {i : Nat} (param : ps[i]? = some p) (own : words[i]? = some word) :
    (p.kind.convert resolver word).1 ≠ none := by
  have inside : i < args.length := length ▸ (List.getElem?_eq_some_iff.1 param).1
  rw [← given i p word param own, List.getElem?_eq_getElem inside]
  exact Option.some_ne_none _

theorem ReadsAs.unique (reads : ReadsAs resolver ps words r)
    (reads' : ReadsAs resolver ps words r') : r = r' := by
  cases reads with
  | miscounted count =>
    cases reads' with
    | miscounted => rfl
    | misread fits | read fits => exact absurd fits count
  | @misread i p word fits param own unread first =>
    cases reads' with
    | miscounted count => exact absurd fits count
    | @misread i' p' word' _ param' own' unread' first' =>
      -- neither of two first words that cannot be read stands before the other
      obtain before | rfl | behind := Nat.lt_trichotomy i i'
      · have read := first' i before p word param own
        rw [unread] at read
        cases read
      · rw [param] at param'
        rw [own] at own'
        cases param'
        cases own'
        rfl
      · have read := first i' behind p' word' param' own'
        rw [unread'] at read
        cases read
    | read _ length given => exact absurd unread (ne_none_of_given length given param own)
  | @read args fits length given omitted =>
    cases reads' with
    | miscounted count => exact absurd fits count
    | misread _ param own unread => exact absurd unread (ne_none_of_given length given param own)
    | @read args' _ length' given' omitted' =>
      refine congrArg Except.ok (List.ext_getElem? fun i => ?_)
      cases param : ps[i]? with
      | none =>
        have out := List.getElem?_eq_none_iff.1 param
        rw [List.getElem?_eq_none (length ▸ out), List.getElem?_eq_none (length' ▸ out)]
      | some p =>
        cases own : words[i]? with
        | none =>
          have behind := List.getElem?_eq_none_iff.1 own
          rw [omitted i p param behind, omitted' i p param behind]
        | some word => rw [given i p word param own, given' i p word param own]

/-! ### Words that can always be read -/

theorem convert_entity (resolver : Option EntityResolver) (word : String) :
    (ParameterKind.entity.convert resolver word).1 =
      some (.entity (resolver.bind (·.entity? word))) := by
  unfold ParameterKind.convert resolveEntity
  cases resolver.bind (·.entity? word) <;> rfl

theorem convert_component (resolver : Option EntityResolver) (type : ComponentType)
    (word : String) :
    ((ParameterKind.component type).convert resolver word).1 =
      some (.component (resolver.bind fun r => (r.entity? word).bind (r.component? · type))) := by
  unfold ParameterKind.convert resolveEntity
  cases resolver with
  | none => rfl
  | some r =>
    cases found : r.entity? word with
    | none => simp [found]
    | some name => cases has : r.component? name type <;> simp [found, has]

/-- Words are read as parameters all or not at all: the number of words decides first, then the
first word that cannot be read, and otherwise every parameter gets the argument of its own word. A
word always reads as a text, an entity or a component; what is not found is passed as none. -/
theorem readArguments_iff (resolver : Option EntityResolver) (ps : List Parameter)
    (words : List String) :
    (∀ r, (readArguments resolver ps words).1 = r ↔ ReadsAs resolver ps words r) ∧
      ∀ word,
        (ParameterKind.text.convert resolver word).1 = some (.text word) ∧
        (ParameterKind.entity.convert resolver word).1 =
          some (.entity (resolver.bind (·.entity? word))) ∧
        ∀ type, ((ParameterKind.component type).convert resolver word).1 =
          some (.component
            (resolver.bind fun r => (r.entity? word).bind (r.component? · type))) := by
  refine ⟨fun r => ⟨?_, fun reads => ?_⟩, fun word => ⟨rfl, ?_, fun type => ?_⟩⟩
  · rintro rfl
    exact readsAs_readArguments resolver ps words
  · exact (readsAs_readArguments resolver ps words).unique reads
  · exact convert_entity resolver word
  · exact convert_component resolver type word

/-- Of two words that cannot be read the first is reported. -/
example : (readArguments none [⟨.text, false⟩, ⟨.integer, false⟩, ⟨.bool, true⟩]
    ["door", "1,5", "maybe"]).1 = .error (.conversion "" 1 "1,5" "integer") := rfl

end Prompter
