import Prompter.Proofs.Session.Agenda

/-!
# Prompter.Proofs.Session.Handles

What happens to the handle of a command, mark by mark.

A handle is resumed by a request of the host, or by the library where the task of a method cannot be
run (`isResume`). A resume gives the handle its next phase, and puts the continuation on top of the
agenda if it is forwarded (`Happens.resumed`). Apart from that a handle changes only when its
command has returned (`Happens.keeps`).
-/

namespace Prompter

/-- The handle of the command that an item is about, once the command has been called. -/
def Item.handle? : Item → Option Nat
  | .afterCall _ k _ => some k
  | .outcome handle _ _ => handle
  | _ => none

namespace Session

/-- Something happens to a session. -/
inductive Happens (s : Session) : Mark → Session → Prop
  | work (busy : s.awaitsHost = false) {i : Item} {rest : List Item} (top : s.agenda = i :: rest) :
      Happens s (.did i) s.step.1
  | call (word : s.awaitsHost = true) (c : Call) : Happens s (.call c) (s.call c).1
  | answer (x : Answer) (fits : s.accepts x = true) : Happens s (.answer x) (s.answer x).1

/-- Whether a mark is that of a handle being resumed. `tasks` says whether the host runs tasks. -/
def isResume (tasks : Bool) (k : Nat) : Mark → Bool
  | .call (.resume k') => k' == k
  | .call (.resumeWhenDone k') | .did (.resumeWhenDone k') => !tasks && k' == k
  | _ => false

/-- What is left to be done after a mark that puts nothing else on the agenda. -/
def through (m : Mark) (a : List Item) : List Item :=
  match m with
  | .call _ => .reply .done :: a
  | .did _ | .answer _ => a.tail

variable {allowed : Session → History → Call → Prop} {s₀ s s' : Session} {h : History} {m : Mark}

/-! ### One mark after the other -/

/-- A run that is not at its beginning has come there by something that happened. -/
theorem Run.last (r : Run allowed s₀ s' (m :: h)) : ∃ s, Run allowed s₀ s h ∧ Happens s m s' := by
  cases r with
  | work r busy top => exact ⟨_, r, .work busy top⟩
  | call r word c => exact ⟨_, r, .call word c⟩
  | answer r x fits => exact ⟨_, r, .answer x fits⟩

theorem after_append (newer older : History) :
    after s₀ (newer ++ older) = after (after s₀ older) newer := by
  induction newer with
  | nil => rfl
  | cons m newer ih => cases m <;> simp only [List.cons_append, after, ih]

namespace Happens

theorem posts (happens : Happens s m s') : Posts s.dialogue s.handles s.agenda m s' := by
  cases happens with
  | work busy top => exact step_posts busy top
  | call word c => exact call_posts c (.call c _ (callsHost_of_awaitsHost word))
  | answer x fits => exact answer_posts x fits

/-- What is done is what was first on the agenda. -/
theorem top {i : Item} (happens : Happens s (.did i) s') :
    ∃ rest, s.agenda = i :: rest ∧ s' = ({ s with agenda := rest }.work i).1 := by
  cases happens with
  | work busy top => exact ⟨_, top, by rw [step_eq_work busy top]⟩

/-- A session that is busy does the item that is first on its agenda. -/
theorem of_busy {i : Item} (happens : Happens s m s') (own : i.callsHost = false)
    (top : s.agenda.head? = some i) : m = .did i := by
  have busy : s.awaitsHost = false := by
    cases word : s.awaitsHost with
    | false => rfl
    | true =>
      rw [callsHost_of_awaitsHost word i top] at own
      cases own
  cases happens with
  | @work _ j rest top' =>
    rw [top'] at top
    cases top
    rfl
  | call word => exact Bool.noConfusion (word.symm.trans busy)
  | answer x fits => exact Bool.noConfusion ((awaitsHost_of_accepts fits).symm.trans busy)

/-- What waits on the agenda stays there, with everything below it, until it is done. -/
theorem stays {i : Item} {base : List Item} (happens : Happens s m s') (own : i.callsHost = false)
    (waits : i :: base <:+ s.agenda) :
    i :: base <:+ s'.agenda ∨ m = .did i ∧ s.agenda = i :: base := by
  obtain ⟨items, rest, takes, -, agenda⟩ := happens.posts
  have above (below : i :: base <:+ rest) : i :: base <:+ s'.agenda :=
    agenda ▸ below.trans (List.suffix_append items rest)
  clear agenda
  generalize s.agenda = a at takes waits
  cases takes with
  | call c => exact .inl (above waits)
  | did j rest =>
    rcases List.suffix_cons_iff.1 waits with top | below
    · obtain ⟨rfl, rfl⟩ := List.cons.inj top
      exact .inr ⟨rfl, rfl⟩
    · exact .inl (above below)
  | answer x j rest called =>
    rcases List.suffix_cons_iff.1 waits with top | below
    · obtain ⟨rfl, -⟩ := List.cons.inj top
      rw [own] at called
      cases called
    · exact .inl (above below)

end Happens

/-! ### Handles -/

section

variable {k : Nat} {x : ResumeHandle Continuation}

variable {p : Progress} {i : Item} {c : Call}

/-- What comes of resuming a handle that there is. -/
theorem Unpauses.eq (unpauses : Unpauses s k p) (hx : s.handles[k]? = some x) :
    p.1 = { s with
      handles := s.handles.set k x.resume.1, agenda := resumption x.resume.2.1 ++ s.agenda } := by
  cases unpauses with
  | unknown no => cases hx.symm.trans no
  | resumed hx' =>
    obtain rfl := Option.some.inj (hx.symm.trans hx')
    rfl

theorem Spawns.eq (spawns : Spawns s k p) (idle : s.runsTasks = false)
    (hx : s.handles[k]? = some x) :
    p.1 = { s with
      handles := s.handles.set k x.resume.1, agenda := resumption x.resume.2.1 ++ s.agenda } := by
  cases spawns with
  | spawned runs => cases idle.symm.trans runs
  | resumes _ unpauses => exact unpauses.eq hx

/-- A resume runs the continuation of the handle, if anything, and does nothing else. -/
theorem Happens.resumed (happens : Happens s m s') (resumes : isResume s.runsTasks k m = true)
    (hx : s.handles[k]? = some x) :
    s' = { s with
      handles := s.handles.set k x.resume.1
      agenda := resumption x.resume.2.1 ++ through m s.agenda } := by
  cases happens with
  | answer => cases resumes
  | call word c =>
    cases c with
    | resume k' =>
      obtain rfl : k' = k := by simpa [isResume] using resumes
      exact (resumeHandle_unpauses (s.push [.reply .done]) k').eq hx
    | resumeWhenDone k' =>
      obtain ⟨idle, rfl⟩ : s.runsTasks = false ∧ k' = k := by simpa [isResume] using resumes
      exact (resumeWhenDone_spawns (s.push [.reply .done]) k').eq idle hx
    | _ => cases resumes
  | @work busy i rest top =>
    cases i with
    | resumeWhenDone k' =>
      obtain ⟨idle, rfl⟩ : s.runsTasks = false ∧ k' = k := by simpa [isResume] using resumes
      rw [step_eq_work busy top]
      simp only [through, top, List.tail_cons]
      exact (resumeWhenDone_spawns { s with agenda := rest } k').eq idle hx
    | _ => cases resumes

theorem Unpauses.keeps {k' : Nat} (unpauses : Unpauses s k' p) (other : k' ≠ k) :
    p.1.handles[k]? = s.handles[k]? := by
  cases unpauses with
  | unknown => rfl
  | resumed => simp [push, other]

theorem Spawns.keeps {k' : Nat} (spawns : Spawns s k' p) (other : s.runsTasks = true ∨ k' ≠ k) :
    p.1.handles[k]? = s.handles[k]? := by
  cases spawns with
  | spawned => rfl
  | resumes idle unpauses => exact unpauses.keeps (other.resolve_left (by simp [idle]))

theorem Dispatches.keeps {command : Command} {kont : Nat → Continuation} {use : OutcomeUse}
    (dispatches : Dispatches s command kont use p) (hk : k < s.handles.length) :
    p.1.handles[k]? = s.handles[k]? := by
  cases dispatches with
  | pausingHandler | pausingMethod => exact List.getElem?_append_left hk
  | _ => rfl

theorem Concludes.handles {r : Reporter} {y : NextAction} (concludes : Concludes s r y p) :
    p.1.handles = s.handles := by
  cases concludes <;> rfl

theorem runs_or_ne_of_not_isResume {tasks : Bool} {k' : Nat}
    (quiet : isResume tasks k (.call (.resumeWhenDone k')) = false) :
    tasks = true ∨ k' ≠ k := by
  cases tasks with
  | true => exact .inl rfl
  | false => exact .inr (by simpa [isResume] using quiet)

/-- What an item does to a handle, unless it resumes it or its command has just returned. -/
theorem Works.keeps (works : Works s i p) (hk : k < s.handles.length)
    (quiet : isResume s.runsTasks k (.did i) = false)
    (called : ∀ name use, i ≠ .afterCall name k use) : p.1.handles[k]? = s.handles[k]? := by
  cases works with
  | chooseOption n chooses => cases chooses <;> rfl
  | command dispatches => exact dispatches.keeps hk
  | conclude concludes | outcomeOf _ concludes => rw [concludes.handles]
  | @afterCall name k' use =>
    have other : k' ≠ k := fun same => called name use (same ▸ rfl)
    simp [push, other]
  | resumeWhenDone spawns => exact spawns.keeps (runs_or_ne_of_not_isResume quiet)
  | _ => rfl

/-- What a request does to a handle, unless it resumes it. -/
theorem Requests.keeps (requests : Requests s c p) (hk : k < s.handles.length)
    (quiet : isResume s.runsTasks k (.call c) = false) : p.1.handles[k]? = s.handles[k]? := by
  cases requests with
  | resume unpauses => exact unpauses.keeps (by simpa [isResume] using quiet)
  | resumeWhenDone spawns => exact spawns.keeps (runs_or_ne_of_not_isResume quiet)
  | dispatch dispatches => exact dispatches.keeps hk
  | chooseOption chooses => cases chooses <;> rfl
  | _ => rfl

theorem answer_handles (s : Session) (x : Answer) : (s.answer x).1.handles = s.handles := by
  unfold answer
  split
  · rfl
  · next rest x _ => exact (conclude_concludes { s with agenda := rest } .engine x).handles
  · exact congrArg Ledger.handles (mapEngine_ledger _)
  · rfl
  · rfl

/-- A handle stays as it is unless it is resumed or its command has just returned. -/
theorem Happens.keeps (happens : Happens s m s') (hk : k < s.handles.length)
    (quiet : isResume s.runsTasks k m = false)
    (called : ∀ name use, m ≠ .did (.afterCall name k use)) :
    s'.handles[k]? = s.handles[k]? := by
  cases happens with
  | @work busy i rest top =>
    rw [step_eq_work busy top]
    exact (work_works { s with agenda := rest } i).keeps hk quiet
      fun name use hi => called name use (congrArg _ hi)
  | call word c => exact (call_requests s c).keeps hk quiet
  | answer x => rw [s.answer_handles x]

end

/-! ### What a session is equipped with -/

/-- What a session keeps for the engine. -/
def library (s : Session) : Option Variables × FunctionTable := (s.storage, s.functions)

/-- The equipment of a session is left alone. -/
structure Retains (s s' : Session) : Prop where
  runsTasks : s'.runsTasks = s.runsTasks
  library : s'.library = s.library

section

variable {p : Progress} {i : Item} {c : Call}

theorem Unpauses.retains {k : Nat} (unpauses : Unpauses s k p) : Retains s p.1 := by
  cases unpauses <;> exact ⟨rfl, rfl⟩

theorem Spawns.retains {k : Nat} (spawns : Spawns s k p) : Retains s p.1 := by
  cases spawns with
  | spawned => exact ⟨rfl, rfl⟩
  | resumes _ unpauses => exact unpauses.retains

theorem Concludes.retains {r : Reporter} {x : NextAction} (concludes : Concludes s r x p) :
    Retains s p.1 := by
  cases concludes <;> exact ⟨rfl, rfl⟩

/-- Only a turn of the engine touches the equipment, to store a variable. -/
theorem Works.retains (works : Works s i p) (unturned : i ≠ .turn) : Retains s p.1 := by
  cases works with
  | turn => exact absurd rfl unturned
  | chooseOption n chooses => cases chooses <;> exact ⟨rfl, rfl⟩
  | command dispatches => cases dispatches <;> exact ⟨rfl, rfl⟩
  | conclude concludes | outcomeOf k concludes => exact concludes.retains
  | resumeWhenDone spawns => exact spawns.retains
  | _ => exact ⟨rfl, rfl⟩

theorem Works.runsTasks (works : Works s i p) : p.1.runsTasks = s.runsTasks := by
  by_cases turned : i = .turn
  · subst turned
    cases works <;> rfl
  · exact (works.retains turned).runsTasks

theorem Requests.runsTasks (requests : Requests s c p) : p.1.runsTasks = s.runsTasks := by
  cases requests with
  | resume unpauses => exact unpauses.retains.runsTasks
  | resumeWhenDone spawns => exact spawns.retains.runsTasks
  | dispatch dispatches => cases dispatches <;> rfl
  | chooseOption chooses => cases chooses <;> rfl
  | _ => rfl

theorem mapEngine_retains (s : Session) (f : Engine → Engine) : Retains s (s.mapEngine f) := by
  unfold mapEngine
  split <;> exact ⟨rfl, rfl⟩

theorem answer_retains (s : Session) (x : Answer) : Retains s (s.answer x).1 := by
  unfold answer
  split
  · exact ⟨rfl, rfl⟩
  · next rest x _ =>
    have kept := (conclude_concludes { s with agenda := rest } .engine x).retains
    exact ⟨kept.runsTasks, kept.library⟩
  · exact ⟨(mapEngine_retains _ _).runsTasks, (mapEngine_retains _ _).library⟩
  · exact ⟨rfl, rfl⟩
  · exact ⟨rfl, rfl⟩

end

/-- Whether tasks are run does not change. -/
theorem Happens.runsTasks (happens : Happens s m s') : s'.runsTasks = s.runsTasks := by
  cases happens with
  | work busy top =>
    rw [step_eq_work busy top]
    exact (work_works _ _).runsTasks
  | call word c => exact (call_requests s c).runsTasks
  | answer x => exact (s.answer_retains x).runsTasks

/-! ### The items of a command that may pause -/

theorem Happens.move (happens : Happens s m s') : Move s.ledger m s'.ledger := by
  cases happens with
  | @work busy i rest top =>
    rw [step_eq_work busy top, ledger, top]
    exact (work_works { s with agenda := rest } i).move
  | call word c => exact (call_requests _ c).move (.call c _ (callsHost_of_awaitsHost word))
  | answer x fits => exact answer_move x fits

theorem not_plain_of_handle {i : Item} {k : Nat} (hi : i.handle? = some k) : i.isPlain = false := by
  cases i with
  | afterCall => rfl
  | outcome handle o use =>
    cases hi
    rfl
  | _ => cases hi

/-- The items of a command are put on the agenda with its handle, or when it returns. -/
theorem Happens.puts (happens : Happens s m s') :
    ∃ items rest, Takes m s.agenda rest ∧ s'.agenda = items ++ rest ∧
      ∀ i ∈ items, ∀ k, i.handle? = some k →
        (k = s.handles.length ∧ k < s'.handles.length) ∨
        (k < s.handles.length ∧ ∃ name use, m = .did (.afterCall name k use)) := by
  obtain ⟨rest, special, takes, change, ⟨items, rfl, agenda⟩, -⟩ := happens.move
  refine ⟨items, rest, takes, agenda, fun i on k hi => ?_⟩
  have new : i ∈ items.filter (!·.isPlain) :=
    List.mem_filter.2 ⟨on, by rw [not_plain_of_handle hi]; rfl⟩
  have handles : s'.ledger.handles = s'.handles := rfl
  generalize s'.ledger.handles = hs' at change handles
  generalize s'.ledger.dialogue = d' at change
  generalize items.filter (!·.isPlain) = special at change new
  cases change with
  | newHandle quiet name c use own =>
    obtain rfl := List.mem_singleton.1 new
    cases hi
    exact .inl ⟨rfl, by rw [← handles]; simp [ledger]⟩
  | armed name j use x hx =>
    obtain rfl := List.mem_singleton.1 new
    cases hi
    exact .inr ⟨(List.getElem?_eq_some_iff.1 hx).1, name, use, rfl⟩
  | last | resumed =>
    obtain ⟨c, -, rfl⟩ := mem_resumption.1 new
    cases hi
  | choose | echo | callNext =>
    simp only [List.mem_cons, List.not_mem_nil, or_false] at new
    rcases new with rfl | rfl <;> cases hi
  | present | immediate | waiting | dismiss | lineGone | commandDone =>
    obtain rfl := List.mem_singleton.1 new
    cases hi
  | plain | opened | lineShown | interrupt | finish | offer | owed => cases new

theorem Happens.length_le (happens : Happens s m s') : s.handles.length ≤ s'.handles.length :=
  happens.move.length_le

/-- The commands whose items are on the agenda have handles. -/
theorem Run.handles (idle : s₀.agenda = []) (r : Run allowed s₀ s h) :
    ∀ i ∈ s.agenda, ∀ k, i.handle? = some k → k < s.handles.length := by
  induction h generalizing s with
  | nil =>
    cases r
    simp [idle]
  | cons m h ih =>
    obtain ⟨s', r', happens⟩ := r.last
    obtain ⟨items, rest, takes, agenda, new⟩ := happens.puts
    intro i on k hi
    rw [agenda] at on
    rcases List.mem_append.1 on with on | on
    · rcases new i on k hi with ⟨-, lt⟩ | ⟨lt, -⟩
      · exact lt
      · exact Nat.lt_of_lt_of_le lt happens.length_le
    · exact Nat.lt_of_lt_of_le (ih r' i (takes.mem on) k hi) happens.length_le

end Session

end Prompter
