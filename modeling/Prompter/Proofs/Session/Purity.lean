import Prompter.Proofs.Session.Play

/-!
# Prompter.Proofs.Session.Purity

Sessions whose host has nothing to decide.

While a session works, and while it waits for a function that does nothing but answer, there is only
one way in which it can go on. `GetsTo` says that a state is reached in this way, whatever the host
would do at other times; such ways can be put together (`GetsTo.trans`).
-/

namespace Prompter.Session

variable {w : World} {P Q : Session → Prop}
  {s₀ s t u : Session} {h newer older : History} {m : Mark}

theorem computes_nil : Computes w s₀ [] := fun newer older v key args none => by simp at none

theorem computes_append : Computes w s₀ (newer ++ older) ↔
    Computes w (after s₀ older) newer ∧ Computes w s₀ older := by
  induction newer with
  | nil => exact ⟨fun computes => ⟨computes_nil, computes⟩, And.right⟩
  | cons m newer ih =>
    rw [List.cons_append, computes_cons, computes_cons, ih, after_append, and_assoc]

/-! ### The one way to go on -/

/-- The host makes no requests while the engine calls a function. -/
def Undisturbed (s : Session) (_ : History) (_ : Call) : Prop :=
  ∀ key args, s.agenda.head? ≠ some (.invoke key args .engine)

/-- If functions do nothing but answer, a session gets to a state, whatever else happens. Until
then `P` holds. -/
def GetsTo (w : World) (P : Session → Prop) (s t : Session) : Prop :=
  ∃ way, Run Undisturbed s t way ∧ Computes w s way ∧
    ∀ s' h, Run Undisturbed s s' h → Computes w s h → way <:+ h ∨ h <:+ way ∧ P s'

namespace GetsTo

theorem refl (w : World) (P : Session → Prop) (s : Session) : GetsTo w P s s :=
  ⟨[], .refl, computes_nil, fun _ h _ _ => .inl h.nil_suffix⟩

theorem mono (gets : GetsTo w P s t) (weaker : ∀ s, P s → Q s) : GetsTo w Q s t := by
  obtain ⟨way, r, computes, only⟩ := gets
  exact ⟨way, r, computes, fun s' h r' computes' =>
    (only s' h r' computes').imp_right (.imp_right (weaker s'))⟩

theorem trans (gets : GetsTo w P s t) (gets' : GetsTo w P t u) : GetsTo w P s u := by
  obtain ⟨way, r, computes, only⟩ := gets
  obtain ⟨way', r', computes', only'⟩ := gets'
  refine ⟨way' ++ way, r.append r', computes_append.2 ⟨r.after_eq ▸ computes', computes⟩, ?_⟩
  intro s' h r'' computes''
  rcases only s' h r'' computes'' with ⟨newer, rfl⟩ | ⟨before, holds⟩
  · obtain ⟨s₁, reached, later⟩ := r''.later
    obtain rfl := reached.unique r
    have computes₁ := (computes_append.1 computes'').1
    rw [r.after_eq] at computes₁
    rcases only' s' newer later computes₁ with ⟨more, rfl⟩ | ⟨⟨more, rfl⟩, holds⟩
    · exact .inl ⟨more, (List.append_assoc ..).symm⟩
    · exact .inr ⟨⟨more, (List.append_assoc ..).symm⟩, holds⟩
  · exact .inr ⟨before.trans (List.suffix_append way' way), holds⟩

/-- Where only one thing can happen next, it leads to one state. -/
theorem of_next (holds : P s) (first : Run Undisturbed s t [m]) (computes : Computes w s [m])
    (only : ∀ m' s', Run Undisturbed s s' [m'] → Computes w s [m'] → m' = m) :
    GetsTo w P s t := by
  refine ⟨[m], first, computes, fun s' h r computes' => ?_⟩
  rcases List.eq_nil_or_concat h with rfl | ⟨newer, m', rfl⟩
  · cases r
    exact .inr ⟨List.nil_suffix, holds⟩
  · rw [List.concat_eq_append] at r computes' ⊢
    obtain ⟨s₁, r₁, -⟩ := r.later
    obtain rfl := only m' s₁ r₁ (computes_append.1 computes').2
    exact .inl (List.suffix_append newer _)

/-- A session that is busy does what is first on its agenda. -/
theorem work (holds : P s) (busy : s.awaitsHost = false) {i : Item} {rest : List Item}
    (top : s.agenda = i :: rest) : GetsTo w P s s.step.1 := by
  refine of_next holds (.work .refl busy top) (computes_cons.2 ⟨rfl, computes_nil⟩) ?_
  intro m' s' r _
  exact (Run.refl.next_did busy top r).1

/-- A function that is called answers. -/
theorem answer (holds : P s) {key : HostKey} {args : List Value} {rest : List Item}
    (top : s.agenda = .invoke key args .engine :: rest) :
    GetsTo w P s (s.answer (.value (w.answer key args))).1 := by
  have fits : s.accepts (.value (w.answer key args)) = true := by simp [accepts, top]
  refine of_next holds (.answer .refl _ fits) ?_ ?_
  · refine computes_cons.2 ⟨Mark.fits_value.2 fun key' args' top' => ?_, computes_nil⟩
    rw [after, top] at top'
    cases top'
    rfl
  · intro m' s' r computes
    cases r with
    | work r busy =>
      cases r
      simp [awaitsHost, top] at busy
    | call r _ c undisturbed =>
      cases r
      exact absurd (by rw [top]; rfl) (undisturbed key args)
    | answer r x fits' =>
      cases r
      have value : ∃ v, x = .value v := by
        cases x with
        | value v => exact ⟨v, rfl⟩
        | heard | action => simp [accepts, top] at fits'
      obtain ⟨v, rfl⟩ := value
      rw [Mark.fits_value.1 (computes_cons.1 computes).1 key args (by rw [after, top]; rfl)]

end GetsTo

end Prompter.Session
