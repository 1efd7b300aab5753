import Prompter.Session.Call

/-!
# Prompter.Proofs.Session.Run

What can happen to a session, and what a history of it tells.

A history lists the requests and the answers of the host and the items of the agenda that the
session has done, the newest first. Items name what they are for, so that a history says which line
was presented when, which view was told what with which token, and what has asked the engine to go
on.

`Run` relates the states that a session can get to with what has happened on the way. The host may
make a request whenever it has the word, also while a view, a handler, a listener or a function of
its own is being called; which requests it makes is left to a parameter.
-/

namespace Prompter.Session

/-! ### Histories -/

/-- Something that happens to a session. -/
inductive Mark
  /-- The host makes a request. -/
  | call (c : Call)
  /-- The host answers a call. -/
  | answer (x : Answer)
  /-- The session takes an item off its agenda and does it. -/
  | did (i : Item)

/-- What has happened, the newest first. -/
abbrev History := List Mark

/-- Whether a mark is that of a line being presented. -/
def Mark.presents : Mark → Bool
  | .did (.present _ _) => true
  | _ => false

/-- How many lines have been presented. It is also the serial number of the last of them. -/
def presented (h : History) : Nat := h.countP Mark.presents

/-- The offer whose chosen option was presented as the line with a serial number. -/
def echoOf : History → Nat → Option Nat
  | [], _ => none
  | .did (.present _ offer) :: h, n => if n = presented h + 1 then offer else echoOf h n
  | _ :: h, n => echoOf h n

/-- The view of a token has been given it, in a broadcast of the line with a serial number. -/
def Told (b : LineBroadcast) (serial : Nat) (t : Token) (h : History) : Prop :=
  ∃ line, .did (.tell (.view t.slot (b.notice serial line t))) ∈ h

/-- A token has been given to its view, and completed after that. -/
def Completed (b : LineBroadcast) (serial : Nat) (t : Token) (h : History) : Prop :=
  ∃ newer older, h = newer ++ .call (.complete t) :: older ∧ Told b serial t older

/-- Nobody can complete a token that no view has been given. -/
def Owned (c : Call) (h : History) : Prop :=
  ∀ t, c = .complete t → ∃ b serial, Told b serial t h

theorem Told.mono {b : LineBroadcast} {serial : Nat} {t : Token} {h : History}
    (told : Told b serial t h) (newer : History) : Told b serial t (newer ++ h) := by
  obtain ⟨line, hm⟩ := told
  exact ⟨line, List.mem_append_right newer hm⟩

theorem Completed.mono {b : LineBroadcast} {serial : Nat} {t : Token} {h : History}
    (done : Completed b serial t h) (newer : History) : Completed b serial t (newer ++ h) := by
  obtain ⟨newer', older, rfl, told⟩ := done
  exact ⟨newer ++ newer', older, (List.append_assoc ..).symm, told⟩

theorem Completed.told {b : LineBroadcast} {serial : Nat} {t : Token} {h : History}
    (done : Completed b serial t h) : Told b serial t h := by
  obtain ⟨newer, older, rfl, told⟩ := done
  exact (told.mono [.call (.complete t)]).mono newer

/-! ### Runs -/

/-- Whether an answer fits the call that the host is in. -/
def accepts (s : Session) (x : Answer) : Bool :=
  match s.agenda, x with
  | .telling _ :: _, .heard | .ask _ _ :: _, .action _ | .invoke _ _ _ :: _, .value _ => true
  | _, _ => false

theorem awaitsHost_of_accepts {s : Session} {x : Answer} (fits : s.accepts x = true) :
    s.awaitsHost = true := by
  unfold accepts at fits
  unfold awaitsHost
  split at fits <;> simp_all

/-- What comes of an answer that fits. -/
inductive Answered (s : Session) : Answer → Session → Prop
  /-- Whoever was told something has heard it. -/
  | heard (n : Notice) (rest : List Item) (top : s.agenda = .telling n :: rest) :
      Answered s .heard { s with agenda := rest }
  /-- A listener says how the engine goes on. -/
  | action (key : HostKey) (event : Event) (rest : List Item) (x : NextAction)
      (top : s.agenda = .ask key event :: rest) :
      Answered s (.action x) ({ s with agenda := rest }.conclude .engine x).1
  /-- The engine gets the value of a function that it has called. -/
  | received (key : HostKey) (args : List Value) (rest : List Item) (v : Value)
      (top : s.agenda = .invoke key args .engine :: rest) :
      Answered s (.value v) ({ s with agenda := .turn :: rest }.mapEngine fun e => e.receive v)
  /-- The host gets the value of a function that it has called. -/
  | replied (key : HostKey) (args : List Value) (rest : List Item) (v : Value)
      (top : s.agenda = .invoke key args .host :: rest) :
      Answered s (.value v) { s with agenda := rest }

theorem answered_of_accepts {s : Session} {x : Answer} (fits : s.accepts x = true) :
    Answered s x (s.answer x).1 := by
  unfold accepts at fits
  split at fits
  · next n rest top =>
    simp only [answer, top]
    exact .heard n rest top
  · next key event rest x top =>
    simp only [answer, top]
    exact .action key event rest x top
  · next key args caller rest v top =>
    cases caller with
    | engine =>
      simp only [answer, top]
      exact .received key args rest v top
    | host =>
      simp only [answer, top]
      exact .replied key args rest v top
  · cases fits

variable {allowed : Session → History → Call → Prop} {s₀ s : Session} {h : History}

/-- The states that a session can get to, with what has happened on the way, if the host makes none
but allowed requests. -/
inductive Run (allowed : Session → History → Call → Prop) (s₀ : Session) :
    Session → History → Prop
  | refl : Run allowed s₀ s₀ []
  | work {s : Session} {h : History} (r : Run allowed s₀ s h) (busy : s.awaitsHost = false)
      {i : Item} {rest : List Item} (top : s.agenda = i :: rest) :
      Run allowed s₀ s.step.1 (.did i :: h)
  | call {s : Session} {h : History} (r : Run allowed s₀ s h) (word : s.awaitsHost = true)
      (c : Call) (ok : allowed s h c) : Run allowed s₀ (s.call c).1 (.call c :: h)
  | answer {s : Session} {h : History} (r : Run allowed s₀ s h) (x : Answer)
      (fits : s.accepts x = true) : Run allowed s₀ (s.answer x).1 (.answer x :: h)

/-- Lets a session work until the host has the word, for a number of items at most. -/
def works : Nat → Session → History → Session × History
  | 0, s, h => (s, h)
  | n + 1, s, h =>
    if s.awaitsHost then (s, h)
    else
      match s.agenda with
      | [] => (s, h)
      | i :: _ => works n s.step.1 (.did i :: h)

theorem works_succ {n : Nat} (busy : s.awaitsHost = false) {i : Item} {rest : List Item}
    (top : s.agenda = i :: rest) : works (n + 1) s h = works n s.step.1 (.did i :: h) := by
  rw [works]
  simp [busy, top]

/-- The state that a history leads to. What the session does is up to the session. -/
def after (s₀ : Session) : History → Session
  | [] => s₀
  | .call c :: h => ((after s₀ h).call c).1
  | .answer x :: h => ((after s₀ h).answer x).1
  | .did _ :: h => (after s₀ h).step.1

namespace Run

/-- A session may work at any time. -/
theorem works (r : Run allowed s₀ s h) (n : Nat) :
    Run allowed s₀ (Session.works n s h).1 (Session.works n s h).2 := by
  induction n generalizing s h with
  | zero => exact r
  | succ n ih =>
    unfold Session.works
    cases busy : s.awaitsHost with
    | true => exact r
    | false =>
      cases top : s.agenda with
      | nil => exact r
      | cons i rest => exact ih (r.work busy top)

/-- What has happened determines the state. -/
theorem unique (r : Run allowed s₀ s h) {s' : Session} (r' : Run allowed s₀ s' h) : s = s' := by
  induction r generalizing s' with
  | refl =>
    cases r'
    rfl
  | work _ _ _ ih =>
    cases r' with
    | work r' _ _ => rw [ih r']
  | call _ _ c _ ih =>
    cases r' with
    | call r' _ _ _ => rw [ih r']
  | answer _ x _ ih =>
    cases r' with
    | answer r' _ _ => rw [ih r']

theorem after_eq (r : Run allowed s₀ s h) : after s₀ h = s := by
  induction r with
  | refl => rfl
  | work _ _ _ ih | call _ _ _ _ ih | answer _ _ _ ih => rw [after, ih]

/-- A session that is busy does the item that is first on its agenda, whatever happens next. -/
theorem next_did (r : Run allowed s₀ s h) (busy : s.awaitsHost = false) {i : Item}
    {rest : List Item} (top : s.agenda = i :: rest) {m : Mark} {s' : Session}
    (r' : Run allowed s₀ s' (m :: h)) : m = .did i ∧ s' = s.step.1 := by
  cases r' with
  | work r' _ top' =>
    obtain rfl := r.unique r'
    rw [top] at top'
    cases top'
    exact ⟨rfl, rfl⟩
  | call r' word =>
    obtain rfl := r.unique r'
    exact Bool.noConfusion (word.symm.trans busy)
  | answer r' x fits =>
    obtain rfl := r.unique r'
    exact Bool.noConfusion ((awaitsHost_of_accepts fits).symm.trans busy)

theorem allowed_of_call (r : Run allowed s₀ s h) {c : Call} {s' : Session}
    (r' : Run allowed s₀ s' (.call c :: h)) : allowed s h c := by
  cases r' with
  | call r' _ _ ok =>
    obtain rfl := r.unique r'
    exact ok

/-- Every part of a history that reaches back to its beginning is the history of a run. -/
theorem earlier {newer older : History} (r : Run allowed s₀ s (newer ++ older)) :
    ∃ s', Run allowed s₀ s' older := by
  induction newer generalizing s with
  | nil => exact ⟨s, r⟩
  | cons m newer ih =>
    cases r with
    | work r _ _ => exact ih r
    | call r _ _ _ => exact ih r
    | answer r _ _ => exact ih r

/-- A run goes on from every state that it has been in. -/
theorem later {newer older : History} (r : Run allowed s₀ s (newer ++ older)) :
    ∃ s', Run allowed s₀ s' older ∧
      Run (fun s h c => allowed s (h ++ older) c) s' s newer := by
  induction newer generalizing s with
  | nil => exact ⟨s, r, .refl⟩
  | cons m newer ih =>
    cases r with
    | work r busy top =>
      obtain ⟨s', earlier, later⟩ := ih r
      exact ⟨s', earlier, later.work busy top⟩
    | call r word c ok =>
      obtain ⟨s', earlier, later⟩ := ih r
      exact ⟨s', earlier, later.call word c ok⟩
    | answer r x fits =>
      obtain ⟨s', earlier, later⟩ := ih r
      exact ⟨s', earlier, later.answer x fits⟩

/-- A host that makes none but allowed requests makes none that are not allowed by a weaker rule. -/
theorem weaken {allowed' : Session → History → Call → Prop}
    (weaker : ∀ s h c, allowed s h c → allowed' s h c) (r : Run allowed s₀ s h) :
    Run allowed' s₀ s h := by
  induction r with
  | refl => exact .refl
  | work _ busy top ih => exact ih.work busy top
  | @call s h _ word c ok ih => exact ih.call word c (weaker s h c ok)
  | answer _ x fits ih => exact ih.answer x fits

/-- A run goes on to every state that a later one leads to. -/
theorem append {s' : Session} {newer older : History} (r : Run allowed s₀ s' older)
    (later : Run (fun s h c => allowed s (h ++ older) c) s' s newer) :
    Run allowed s₀ s (newer ++ older) := by
  induction later with
  | refl => exact r
  | work _ busy top ih => exact ih.work busy top
  | call _ word c ok ih => exact ih.call word c ok
  | answer _ x fits ih => exact ih.answer x fits

theorem at_mark (r : Run allowed s₀ s h) (k : Nat) {m : Mark} (hk : h[k]? = some m) :
    Run allowed s₀ s (h.take k ++ m :: h.drop (k + 1)) := by
  obtain ⟨hl, rfl⟩ := List.getElem?_eq_some_iff.1 hk
  rwa [← List.drop_eq_getElem_cons hl, List.take_append_drop]

/-- Whatever was done was first on the agenda. -/
theorem before_did {newer older : History} {i : Item}
    (r : Run allowed s₀ s (newer ++ .did i :: older)) :
    ∃ s' rest, Run allowed s₀ s' older ∧ s'.agenda = i :: rest := by
  obtain ⟨s', r'⟩ := r.earlier
  cases r' with
  | work r' _ top => exact ⟨_, _, r', top⟩

/-- A run in which an item is done is one that leads to it, and one that goes on from there. -/
theorem at_did {newer older : History} {i : Item}
    (r : Run allowed s₀ s (newer ++ .did i :: older)) :
    ∃ s' rest, Run allowed s₀ s' older ∧ s'.awaitsHost = false ∧ s'.agenda = i :: rest ∧
      Run (fun s h c => allowed s (h ++ .did i :: older) c) s'.step.1 s newer := by
  obtain ⟨_, r', later⟩ := r.later
  cases r' with
  | work r' busy top => exact ⟨_, _, r', busy, top, later⟩

end Run

end Prompter.Session
