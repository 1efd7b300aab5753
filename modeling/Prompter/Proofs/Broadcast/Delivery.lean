import Prompter.Proofs.Broadcast.Exactness

/-!
# Prompter.Proofs.Broadcast.Delivery

Whom a broadcast gets to.

While a consumer is being called its host may do anything, so the work of other broadcasts comes and
goes on top of the agenda. Seen from one broadcast (`callsFor`) the agenda is much simpler: it holds
the consumers still to be called, with at most one call in front of them (`Stage`). That call is
made at once, under the generation it was decided on (`Orderly`). So a broadcast calls its consumers
in order until it has called all of them, or until a newer one has begun.
-/

namespace Prompter

/-- Slots are numbered in their order. -/
theorem pairwise_presentFrom (n : Nat) (slots : List Bool) :
    (presentFrom n slots).Pairwise (· < ·) := by
  induction slots generalizing n with
  | nil => exact .nil
  | cons present slots ih =>
    cases present with
    | false => exact ih (n + 1)
    | true => exact List.pairwise_cons.2 ⟨fun _ => le_of_mem_presentFrom, ih (n + 1)⟩

namespace Broadcasts

variable {κ : Type} {b : Broadcasts κ} {h newer older : History κ} {g : Nat} {present : List Nat}

/-! ### Calls in a history -/

/-- Whether a mark is that of a broadcast or a cancellation, and so of a new generation. -/
def Mark.begins : Mark κ → Bool
  | .started _ _ | .cancelled => true
  | _ => false

/-- The slot whose consumer is called, if it is called for the broadcast of a generation. -/
def Mark.slotCalled? (g : Nat) : Mark κ → Option Nat
  | .did (.consume t) => if t.generation = g then some t.slot else none
  | _ => none

/-- The slots whose consumers have been called for the broadcast of a generation, in the order of
the calls. -/
def called (g : Nat) (h : History κ) : List Nat := (h.filterMap (Mark.slotCalled? g)).reverse

/-- A newer broadcast or a cancellation has begun before all of those present had been called. -/
def Superseded (g : Nat) (present : List Nat) (h : History κ) : Prop :=
  ∃ late m early, h = late ++ m :: early ∧ m.begins = true ∧ called g early ≠ present

/-- A host that completes no token before it has been given it. -/
def Honest (h : History κ) : Prop :=
  ∀ t older, .completed t :: older <:+ h → .did (.consume t) ∈ older

@[simp] theorem called_cons (g : Nat) (m : Mark κ) (h : History κ) :
    called g (m :: h) = called g h ++ (m.slotCalled? g).toList := by
  cases hm : m.slotCalled? g <;> simp [called, hm]

theorem called_append (g : Nat) (newer older : History κ) :
    called g (newer ++ older) = called g older ++ called g newer := by
  simp [called]

theorem mem_called {v : Nat} : v ∈ called g h ↔ .did (.consume ⟨g, v⟩) ∈ h := by
  simp only [called, List.mem_reverse, List.mem_filterMap]
  constructor
  · rintro ⟨m, mem, calls⟩
    unfold Mark.slotCalled? at calls
    split at calls
    · next t =>
      split at calls
      · next same =>
        cases calls
        exact same ▸ mem
      · cases calls
    · cases calls
  · exact fun mem => ⟨_, mem, by simp [Mark.slotCalled?]⟩

/-- Generations are counted by the marks that begin one. -/
theorem generation_append (newer older : History κ) :
    generation (newer ++ older) = generation older + newer.countP Mark.begins := by
  induction newer with
  | nil => rfl
  | cons m newer ih =>
    cases m <;> simp [generation, Mark.begins, ih, List.countP_cons, Nat.add_assoc]

theorem generation_append_eq :
    generation (newer ++ older) = generation older ↔ ∀ m ∈ newer, m.begins = false := by
  rw [generation_append, Nat.add_eq_left, List.countP_eq_zero]
  simp

theorem Superseded.cons (superseded : Superseded g present h) (m : Mark κ) :
    Superseded g present (m :: h) := by
  obtain ⟨late, m', early, rfl, begins, open'⟩ := superseded
  exact ⟨m :: late, m', early, rfl, begins, open'⟩

/-- A slot counts as completed only if a token of the current generation was completed for it. -/
theorem completed_of_mem_completions {v : Nat} (mem : v ∈ completions h) :
    .completed ⟨generation h, v⟩ ∈ h := by
  induction h with
  | nil => cases mem
  | cons m h ih =>
    cases m with
    | started | cancelled => cases mem
    | completed t =>
      rw [completions] at mem
      split at mem
      · next same =>
        rcases List.mem_cons.1 mem with rfl | mem
        · exact List.mem_cons.2 (.inl (congrArg (Mark.completed ⟨·, t.slot⟩) same.symm))
        · exact List.mem_cons_of_mem _ (ih mem)
      · exact List.mem_cons_of_mem _ (ih mem)
    | answered | did => exact List.mem_cons_of_mem _ (ih mem)

/-- The broadcast under way stays the same until a new generation begins. -/
theorem current_append (quiet : ∀ m ∈ newer, m.begins = false) :
    current (newer ++ older) = current older := by
  induction newer with
  | nil => rfl
  | cons m newer ih =>
    obtain ⟨first, quiet⟩ := List.forall_mem_cons.1 quiet
    cases m with
    | started | cancelled => cases first
    | completed | answered | did => exact ih ‹_›

/-! ### Calls on the agenda -/

/-- Whether an item is there to call consumers for the broadcast of a generation. -/
def callsFor (g : Nat) : BroadcastItem κ → Bool
  | .rest g' _ => g' = g
  | .consume t => t.generation = g
  | _ => false

/-- What a step does: a broadcast decides on a call, or is through; then the host is called. -/
inductive Steps (b : Broadcasts κ) :
    BroadcastItem κ → List (BroadcastItem κ) → List (BroadcastItem κ) → Prop
  | call {v : Nat} {vs : List Nat} {rest : List (BroadcastItem κ)} :
      Steps b (.rest b.barrier.generation (v :: vs)) rest
        (.consume ⟨b.barrier.generation, v⟩ :: .rest b.barrier.generation vs :: rest)
  | through {g : Nat} {vs : List Nat} {rest : List (BroadcastItem κ)}
      (why : vs = [] ∨ b.barrier.generation ≠ g) : Steps b (.rest g vs) rest rest
  | consume {t : Token} {rest : List (BroadcastItem κ)} :
      Steps b (.consume t) rest (.consuming t :: rest)
  | resume {g : Nat} {k : κ} {rest : List (BroadcastItem κ)} :
      Steps b (.resume g k) rest (.resuming k :: rest)

theorem steps_step {i : BroadcastItem κ} {rest : List (BroadcastItem κ)}
    (busy : b.awaitsHost = false) (top : b.agenda = i :: rest) :
    Steps b i rest b.step.1.agenda := by
  cases i with
  | rest g vs =>
    simp only [step, top]
    cases vs with
    | nil => exact .through (.inl rfl)
    | cons v vs =>
      by_cases now : b.barrier.generation = g
      · subst now
        simpa [Barrier.nextCall, Barrier.isCurrent] using .call
      · simpa [Barrier.nextCall, Barrier.isCurrent, now] using Steps.through (.inr now)
  | consume t => simpa [step, top] using .consume
  | resume g k => simpa [step, top] using .resume
  | consuming | resuming => simp [awaitsHost, top] at busy

/-- What holds of the agenda throughout every run. -/
structure Orderly (agenda : List (BroadcastItem κ)) (h : History κ) : Prop where
  /-- Nobody is called for a broadcast that has not begun, -/
  begun {i : BroadcastItem κ} {g : Nat} (mem : i ∈ agenda) (calls : callsFor g i = true) :
    g ≤ generation h
  /-- and nobody has been. -/
  future {g : Nat} (future : generation h < g) : called g h = []
  /-- Whoever is to be called next is called for the current broadcast, -/
  first {t : Token} (next : agenda.head? = some (.consume t)) : t.generation = generation h
  /-- and nobody else is about to be called. -/
  single {t : Token} : .consume t ∉ agenda.tail

namespace Orderly

variable {agenda agenda' : List (BroadcastItem κ)}

/-- Whatever happens leaves the agenda in order, if it leaves nobody on it who is about to be
called. -/
theorem of_silent (o : Orderly agenda h) {m : Mark κ}
    (now : ∀ g, generation h < g → m.slotCalled? g = none)
    (silent : ∀ t, .consume t ∉ agenda')
    (begun : ∀ i ∈ agenda', ∀ g, callsFor g i = true → i ∈ agenda ∨ g ≤ generation (m :: h)) :
    Orderly agenda' (m :: h) := by
  have grows : generation h ≤ generation (m :: h) := by
    cases m <;> simp [generation]
  exact
    { begun := fun mem calls => (begun _ mem _ calls).elim
        (fun old => Nat.le_trans (o.begun old calls) grows) id
      future := fun future => by
        have past := Nat.lt_of_le_of_lt grows future
        simp [o.future past, now _ past]
      first := fun next => absurd (List.mem_of_mem_head? next) (silent _)
      single := fun mem => silent _ (List.mem_of_mem_tail mem) }

/-- While the host has the word nobody is about to be called. -/
theorem silent (o : Orderly b.agenda h) (word : b.awaitsHost = true) (t : Token) :
    .consume t ∉ b.agenda := by
  intro mem
  cases top : b.agenda with
  | nil => simp [top] at mem
  | cons i rest =>
    rcases List.mem_cons.1 (top ▸ mem) with rfl | mem
    · simp [awaitsHost, top] at word
    · exact o.single (t := t) (by simpa [top] using mem)

theorem start (o : Orderly b.agenda h) (f : Faithful b h) (word : b.awaitsHost = true)
    (slots : List Bool) (k : κ) : Orderly (b.start slots k).1.agenda (.started slots k :: h) := by
  rw [start_agenda, f.generation]
  refine o.of_silent (fun _ _ => rfl) (fun t mem => ?_) fun i mem g calls => ?_
  · rcases List.mem_cons.1 mem with new | mem
    · split at new <;> cases new
    · exact o.silent word t mem
  · rcases List.mem_cons.1 mem with rfl | mem
    · right
      split at calls <;> simp_all [callsFor, Broadcasts.generation]
    · exact .inl mem

theorem complete (o : Orderly b.agenda h) (word : b.awaitsHost = true) (t : Token) :
    Orderly (b.complete t).1.agenda (.completed t :: h) := by
  rw [complete_agenda]
  refine o.of_silent (fun _ _ => rfl) (fun t' mem => ?_) fun i mem g calls => ?_
  · rcases List.mem_append.1 mem with new | mem
    · simp at new
    · exact o.silent word t' mem
  · rcases List.mem_append.1 mem with new | mem
    · obtain ⟨k, -, rfl⟩ : ∃ k, (b.barrier.complete t).2.1 = some k ∧
          .resume t.generation k = i := by simpa using new
      cases calls
    · exact .inl mem

theorem answer (o : Orderly b.agenda h) (word : b.awaitsHost = true) (busy : b.agenda ≠ []) :
    Orderly b.answer.agenda (.answered :: h) := by
  obtain ⟨i, rest, top⟩ := List.exists_cons_of_ne_nil busy
  have fewer {j : BroadcastItem κ} (mem : j ∈ b.answer.agenda) : j ∈ b.agenda := by
    rw [(answer_agenda word top).2] at mem
    exact top ▸ List.mem_cons_of_mem _ mem
  exact o.of_silent (fun _ _ => rfl) (fun t mem => o.silent word t (fewer mem))
    fun i mem g _ => .inl (fewer mem)

theorem step {i : BroadcastItem κ} {rest : List (BroadcastItem κ)}
    (o : Orderly (i :: rest) h) (f : Faithful b h) (steps : Steps b i rest agenda') :
    Orderly agenda' (.did i :: h) := by
  have single (t : Token) : .consume t ∉ rest := o.single
  cases steps with
  | @call v vs =>
    have now : b.barrier.generation = generation h := f.generation
    refine ⟨fun {j g} mem calls => ?_, fun future => ?_, fun next => ?_, fun {t} mem => ?_⟩
    · rcases List.mem_cons.1 mem with rfl | mem
      · exact o.begun (.head _) calls
      · rcases List.mem_cons.1 mem with rfl | mem
        · exact o.begun (.head _) calls
        · exact o.begun (.tail _ mem) calls
    · simpa [Mark.slotCalled?] using o.future future
    · cases next
      exact now
    · rcases List.mem_cons.1 mem with same | mem
      · cases same
      · exact single t mem
  | through => exact o.of_silent (fun _ _ => rfl) single fun j mem g _ => .inl (.tail _ mem)
  | @consume t =>
    have now : t.generation = generation h := o.first rfl
    refine o.of_silent (fun g past => ?_) (by simpa using single) fun j mem g calls => ?_
    · simp [Mark.slotCalled?, now, Nat.ne_of_lt past]
    · rcases List.mem_cons.1 mem with rfl | mem
      · cases calls
      · exact .inl (.tail _ mem)
  | resume =>
    refine o.of_silent (fun _ _ => rfl) (by simpa using single) fun j mem g calls => ?_
    rcases List.mem_cons.1 mem with rfl | mem
    · cases calls
    · exact .inl (.tail _ mem)

end Orderly

/-- A history leads to one state. -/
theorem Run.unique {b' : Broadcasts κ} (r : Run b h) (r' : Run b' h) : b = b' := by
  induction r generalizing b' with
  | fresh => cases r'; rfl
  | start _ _ slots k ih => cases r' with | start r' => rw [ih r']
  | cancel _ _ ih => cases r' with | cancel r' => rw [ih r']
  | complete _ _ t ih => cases r' with | complete r' => rw [ih r']
  | answer _ _ _ ih => cases r' with | answer r' => rw [ih r']
  | step _ _ _ ih => cases r' with | step r' => rw [ih r']

theorem Run.orderly (r : Run b h) : Orderly b.agenda h := by
  induction r with
  | fresh => exact ⟨fun mem => by simp at mem, fun _ => rfl, fun next => by simp at next, by simp⟩
  | start r word slots k ih => exact ih.start r.faithful word slots k
  | cancel _ word ih =>
    exact ih.of_silent (fun _ _ => rfl) (ih.silent word) fun _ mem _ _ => .inl mem
  | complete _ word t ih => exact ih.complete word t
  | answer _ word busy ih => exact ih.answer word busy
  | step r busy top ih => exact (top ▸ ih).step r.faithful (steps_step busy top)

/-! ### One broadcast -/

/-- How far a broadcast has got: what of it stands on the agenda, by the slots that have been
called. -/
inductive Stage (g : Nat) (present : List Nat) (newer : History κ) (reached : List Nat) :
    List (BroadcastItem κ) → Prop
  /-- It goes on with the slots that are left. -/
  | between {vs : List Nat} (all : reached ++ vs = present) :
      Stage g present newer reached [.rest g vs]
  /-- The next one is about to be called. -/
  | calling {v : Nat} {vs : List Nat} (all : reached ++ v :: vs = present) :
      Stage g present newer reached [.consume ⟨g, v⟩, .rest g vs]
  /-- It calls nobody any more. -/
  | spent (part : reached <+: present) (why : reached = present ∨ Superseded g present newer) :
      Stage g present newer reached []

namespace Stage

variable {reached : List Nat} {items : List (BroadcastItem κ)}

theorem isPrefix (stage : Stage g present newer reached items) : reached <+: present := by
  cases stage with
  | between all | calling all => exact ⟨_, all⟩
  | spent part _ => exact part

/-- Nothing changes for a broadcast when something else happens. -/
theorem cons (stage : Stage g present newer reached items) (m : Mark κ) :
    Stage g present (m :: newer) reached items := by
  cases stage with
  | between all => exact .between all
  | calling all => exact .calling all
  | spent part why => exact .spent part (why.imp_right (·.cons m))

end Stage

/-- A new generation that begins while some have not been called supersedes the broadcast. -/
theorem superseded_of_begun (begun : ∃ m ∈ newer, m.begins = true)
    (part : called g newer <+: present) (proper : called g newer ≠ present) :
    Superseded g present newer := by
  obtain ⟨m, mem, begins⟩ := begun
  obtain ⟨late, early, rfl⟩ := List.append_of_mem mem
  refine ⟨late, m, early, rfl, begins, fun all => proper ?_⟩
  -- what has been called since can only be more
  have grown : called g early <+: called g (late ++ m :: early) := by
    rw [called_append, called_cons, List.append_assoc]
    exact List.prefix_append _ _
  exact part.eq_of_length (Nat.le_antisymm part.length_le (all ▸ grown.length_le))

/-- The generations since the start of a broadcast. -/
theorem generation_since (newer older : History κ) (slots : List Bool) (k : κ) :
    generation (newer ++ .started slots k :: older) =
      generation older + 1 + newer.countP Mark.begins :=
  generation_append newer _

/-- As long as no newer generation has begun the broadcast's own is the current one. -/
theorem generation_since_eq {slots : List Bool} {k : κ} :
    generation (newer ++ .started slots k :: older) = generation older + 1 ↔
      ∀ m ∈ newer, m.begins = false :=
  generation_append_eq

variable {slots : List Bool} {k : κ}

/-- What a step of the whole does to one broadcast. -/
theorem Stage.step {i : BroadcastItem κ} {rest agenda : List (BroadcastItem κ)}
    (stage : Stage g present newer (called g newer) ((i :: rest).filter (callsFor g)))
    (steps : Steps b i rest agenda)
    (begun : b.barrier.generation ≠ g → ∃ m ∈ newer, m.begins = true) :
    Stage g present (.did i :: newer) (called g (.did i :: newer))
      (agenda.filter (callsFor g)) := by
  cases steps with
  | @call v vs =>
    by_cases own : b.barrier.generation = g
    · -- the broadcast decides on its next call
      subst own
      simp only [List.filter_cons, callsFor, decide_true, if_true] at stage ⊢
      cases h : rest.filter (callsFor b.barrier.generation) with
      | nil =>
        rw [h] at stage
        cases stage with
        | between all => exact .calling (by simpa [Mark.slotCalled?] using all)
      | cons j js =>
        rw [h] at stage
        cases stage
    · simpa [callsFor, own, Mark.slotCalled?] using stage.cons _
  | @through g' vs _ why =>
    by_cases own : g' = g
    · -- the broadcast is through, or gives up
      subst own
      simp only [List.filter_cons, callsFor, decide_true, if_true] at stage
      have reached : called g' (.did (.rest g' vs) :: newer) = called g' newer := by
        simp [Mark.slotCalled?]
      rw [reached]
      cases h : rest.filter (callsFor g') with
      | nil =>
        rw [h] at stage
        refine .spent stage.isPrefix ?_
        cases stage with
        | between all =>
          rcases why with rfl | other
          · exact .inl (by simpa using all)
          · by_cases done : vs = []
            · exact .inl (by simpa [done] using all)
            · refine .inr (Superseded.cons (superseded_of_begun (begun other) ⟨vs, all⟩ ?_) _)
              intro same
              rw [← same] at all
              exact done (List.append_right_eq_self.1 all)
      | cons j js =>
        rw [h] at stage
        cases stage
    · simpa [callsFor, own, Mark.slotCalled?] using stage.cons _
  | @consume t =>
    by_cases own : t.generation = g
    · -- the call is made
      simp only [List.filter_cons, callsFor, own, decide_true, if_true] at stage ⊢
      rw [called_cons]
      generalize h : rest.filter (callsFor g) = items at stage ⊢
      obtain ⟨g', v⟩ := t
      cases own
      cases stage with
      | calling all => exact .between (by simpa [Mark.slotCalled?] using all)
    · simpa [callsFor, own, Mark.slotCalled?] using stage.cons _
  | resume => simpa [callsFor, Mark.slotCalled?] using stage.cons _

/-- A broadcast from its start on. -/
theorem Run.stage (r : Run b (newer ++ .started slots k :: older))
    (own : g = generation older + 1) :
    Stage g (presentFrom 0 slots) newer (called g newer) (b.agenda.filter (callsFor g)) := by
  induction newer generalizing b with
  | nil =>
    cases r with
    | @start b' _ r _ _ _ =>
      have none : b'.agenda.filter (callsFor g) = [] := by
        rw [List.filter_eq_nil_iff]
        intro i mem calls
        have := r.orderly.begun mem calls
        omega
      have now : b'.barrier.generation + 1 = g := by rw [r.faithful.generation, own]
      rw [start_agenda, now]
      by_cases nobody : presentFrom 0 slots = []
      · rw [if_pos nobody, List.filter_cons_of_neg (by simp [callsFor]), none, nobody]
        exact .spent List.nil_prefix (.inl rfl)
      · rw [if_neg nobody, List.filter_cons_of_pos (by simp [callsFor]), none]
        exact .between rfl
  | cons m newer ih =>
    have since := generation_since newer older slots k
    cases r with
    | @start b' _ r _ slots' k' =>
      have later : ¬ b'.barrier.generation + 1 = g := by
        have now : b'.barrier.generation = _ := r.faithful.generation.trans since
        omega
      have same : (b'.start slots' k').1.agenda.filter (callsFor g) =
          b'.agenda.filter (callsFor g) := by
        rw [start_agenda]
        split <;> simp [callsFor, later]
      rw [same]
      simpa [Mark.slotCalled?] using (ih r).cons _
    | cancel r => simpa [Mark.slotCalled?] using (ih r).cons _
    | @complete b' _ r _ t =>
      have same : (b'.complete t).1.agenda.filter (callsFor g) =
          b'.agenda.filter (callsFor g) := by
        rw [complete_agenda]
        cases (b'.barrier.complete t).2.1 <;> simp [callsFor]
      rw [same]
      simpa [Mark.slotCalled?] using (ih r).cons _
    | @answer b' _ r word busy =>
      obtain ⟨i, rest, top⟩ := List.exists_cons_of_ne_nil busy
      have silent : callsFor g i = false := by
        cases i <;> simp [awaitsHost, top] at word <;> rfl
      have same : b'.answer.agenda.filter (callsFor g) = b'.agenda.filter (callsFor g) := by
        rw [(answer_agenda word top).2, top, List.filter_cons_of_neg (by simp [silent])]
      rw [same]
      simpa [Mark.slotCalled?] using (ih r).cons _
    | @step b' _ r busy i rest top =>
      refine Stage.step (top ▸ ih r) (steps_step busy top) fun other => ?_
      have now : b'.barrier.generation = _ := r.faithful.generation.trans since
      exact List.countP_pos_iff.1 (by omega)

/-! ### Delivery -/

/-- Whom a broadcast has got to, by what has happened since its start, `newer`, and before it,
`older`. -/
structure Delivers (b : Broadcasts κ) (newer : History κ) (slots : List Bool) (k : κ)
    (older : History κ) : Prop where
  /-- The consumers called with its tokens are the first ones present, in the order of their slots,
  each called once. -/
  inOrder : called (generation older + 1) (newer ++ .started slots k :: older) <+:
    presentFrom 0 slots
  /-- If it has nobody to call any more, then it has called all of them, unless a newer broadcast or
  a cancellation has begun before that. -/
  complete : (∀ vs, .rest (generation older + 1) vs ∉ b.agenda) →
    (called (generation older + 1) newer = presentFrom 0 slots ↔
      ¬ Superseded (generation older + 1) (presentFrom 0 slots) newer)
  /-- When it gets to its next consumer, that one is called, -/
  goesOn : ∀ v vs rest, b.agenda = .rest (generation older + 1) (v :: vs) :: rest →
    (∀ m ∈ newer, m.begins = false) →
      b.step.1.step.1.agenda =
        .consuming ⟨generation older + 1, v⟩ :: .rest (generation older + 1) vs :: rest
  /-- unless there is none, or a newer generation has begun; then it ends. -/
  ends : ∀ vs rest, b.agenda = .rest (generation older + 1) vs :: rest →
    (vs = [] ∨ ∃ m ∈ newer, m.begins = true) → b.step.1.agenda = rest
  /-- Nobody is called after a newer broadcast or a cancellation has begun. -/
  current : ∀ late early t, newer = late ++ .did (.consume t) :: early →
    t.generation = generation older + 1 → ∀ m ∈ early, m.begins = false
  /-- When one is called, it and all who are present behind it are pending, unless the host has
  completed tokens that it had not been given. -/
  pending : Honest (newer ++ .started slots k :: older) →
    ∀ late early t, newer = late ++ .did (.consume t) :: early →
      t.generation = generation older + 1 →
        ∀ b', Run b' (early ++ .started slots k :: older) →
          ∀ w ∈ presentFrom 0 slots, t.slot ≤ w → w ∈ b'.barrier.pending

/-- Who is called when nothing newer has begun, of all who are present, and not before. -/
theorem Run.called_at (r : Run b (newer ++ .started slots k :: older)) {t : Token}
    {rest : List (BroadcastItem κ)} (top : b.agenda = .consume t :: rest)
    (own : t.generation = generation older + 1) :
    (∀ m ∈ newer, m.begins = false) ∧
      ∃ vs, called t.generation newer ++ t.slot :: vs = presentFrom 0 slots := by
  have now := r.orderly.first (t := t) (by rw [top, List.head?_cons])
  refine ⟨generation_since_eq.1 (now.symm.trans own), ?_⟩
  have stage := r.stage own
  rw [top, List.filter_cons_of_pos (by simp [callsFor])] at stage
  generalize rest.filter (callsFor t.generation) = items at stage
  obtain ⟨g, v⟩ := t
  cases stage with
  | calling all => exact ⟨_, all⟩

/-- Nobody is called for a broadcast before it starts. -/
theorem Run.called_since (r : Run b (newer ++ .started slots k :: older)) :
    called (generation older + 1) (newer ++ .started slots k :: older) =
      called (generation older + 1) newer := by
  obtain ⟨b', r'⟩ := r.earlier
  cases r' with
  | start r' _ _ _ =>
    have before : called (generation older + 1) older = [] :=
      r'.orderly.future (Nat.lt_succ_self _)
    simp [called_append, before, Mark.slotCalled?]

/-- Whoever is present and comes later is still pending when a consumer is called. -/
theorem Run.pending_at (r : Run b (newer ++ .started slots k :: older))
    (honest : Honest (newer ++ .started slots k :: older)) {t : Token}
    {rest : List (BroadcastItem κ)} (top : b.agenda = .consume t :: rest)
    (own : t.generation = generation older + 1) {w : Nat} (mem : w ∈ presentFrom 0 slots)
    (later : t.slot ≤ w) : w ∈ b.barrier.pending := by
  obtain ⟨quiet, vs, all⟩ := r.called_at top own
  have now : generation (newer ++ .started slots k :: older) = generation older + 1 :=
    generation_since_eq.2 quiet
  have under : Broadcasts.current (newer ++ .started slots k :: older) =
      some (presentFrom 0 slots, k) := current_append quiet
  rw [r.faithful.pending, outstanding, under]
  refine List.mem_filter.2 ⟨mem, decide_eq_true fun completed => ?_⟩
  -- it has completed its token, so it had been given it
  obtain ⟨newer', older', split⟩ := List.append_of_mem (completed_of_mem_completions completed)
  have given : w ∈ called t.generation newer := by
    rw [own, ← r.called_since, mem_called, split, ← now]
    exact List.mem_append_right _ (.tail _ (honest _ _ ⟨_, split.symm⟩))
  -- but only those before it have been
  have sorted := pairwise_presentFrom 0 slots
  rw [← all] at sorted
  have earlier := (List.pairwise_append.1 sorted).2.2 w given t.slot (.head _)
  exact Nat.lt_irrefl _ (Nat.lt_of_lt_of_le earlier later)

/-- A superseded broadcast calls nobody any more, so it never gets to the last. -/
theorem called_ne_of_superseded
    (current : ∀ late early t, newer = late ++ .did (.consume t) :: early →
      t.generation = g → ∀ m ∈ early, m.begins = false)
    (superseded : Superseded g present newer) : called g newer ≠ present := by
  obtain ⟨late, m, early, rfl, begins, proper⟩ := superseded
  have since : called g late = [] := by
    refine List.eq_nil_iff_forall_not_mem.2 fun v mem => ?_
    obtain ⟨late', late'', rfl⟩ := List.append_of_mem (mem_called.1 mem)
    have quiet := current late' (late'' ++ m :: early) ⟨g, v⟩ (by simp) rfl m (by simp)
    rw [begins] at quiet
    cases quiet
  have silent : m.slotCalled? g = none := by
    cases m with
    | started | cancelled => rfl
    | completed | answered | did => cases begins
  simpa [called_append, since, silent] using proper

/-- A broadcast gets to those who are present, in order, all of them unless it is superseded, and to
nobody after that; and it ends. This holds whatever the host does while one of its consumers is
being called. -/
theorem run_delivers (r : Run b (newer ++ .started slots k :: older)) :
    Delivers b newer slots k older := by
  have at_call {late early : History κ} {t : Token}
      (split : newer = late ++ .did (.consume t) :: early) : ∃ b' rest,
        Run b' (early ++ .started slots k :: older) ∧ b'.agenda = .consume t :: rest := by
    rw [split, List.append_assoc, List.cons_append] at r
    exact r.before_did
  have current : ∀ late early t, newer = late ++ .did (.consume t) :: early →
      t.generation = generation older + 1 → ∀ m ∈ early, m.begins = false := by
    intro late early t split own
    obtain ⟨b', rest, r', top⟩ := at_call split
    exact (r'.called_at top own).1
  refine ⟨?_, fun idle => ⟨?_, ?_⟩, ?_, ?_, current, ?_⟩
  · rw [r.called_since]
    exact (r.stage rfl).isPrefix
  · exact fun all superseded => called_ne_of_superseded current superseded all
  · intro undisturbed
    have stage := r.stage rfl
    generalize items : b.agenda.filter (callsFor (generation older + 1)) = left at stage
    have on {vs : List Nat} (mem : .rest (generation older + 1) vs ∈ left) : False :=
      idle vs (List.mem_filter.1 (items ▸ mem)).1
    cases stage with
    | between => exact (on (.head _)).elim
    | calling => exact (on (.tail _ (.head _))).elim
    | spent _ why => exact why.resolve_right undisturbed
  · intro v vs rest top quiet
    have now : b.barrier.generation = generation older + 1 :=
      r.faithful.generation.trans (generation_since_eq.2 quiet)
    simp [Broadcasts.step, top, Barrier.nextCall, Barrier.isCurrent, now]
  · intro vs rest top why
    cases vs with
    | nil => simp [Broadcasts.step, top, Barrier.nextCall]
    | cons v vs =>
      obtain ⟨m, mem, begins⟩ := why.resolve_left (List.cons_ne_nil v vs)
      have other : b.barrier.generation ≠ generation older + 1 := by
        rw [r.faithful.generation]
        intro now
        have quiet := generation_since_eq.1 now m mem
        rw [begins] at quiet
        cases quiet
      simp [Broadcasts.step, top, Barrier.nextCall, Barrier.isCurrent, other]
  · intro honest late early t split own b' r' w mem later
    obtain ⟨b'', rest, r'', top⟩ := at_call split
    obtain rfl := r'.unique r''
    have past : early ++ .started slots k :: older <:+ newer ++ .started slots k :: older :=
      ⟨late ++ [.did (.consume t)], by simp [split]⟩
    exact r'.pending_at (fun t' older' made => honest t' older' (made.trans past)) top own mem later

/-- The second of three consumers starts another broadcast, which is for one that is not present in
the first. So the third one is not called. -/
def diverted : History String :=
  [.did (.rest 1 [3]), .answered, .did (.rest 2 []), .answered, .did (.consume ⟨2, 1⟩),
    .did (.rest 2 [1]), .started [false, true] "inner", .did (.consume ⟨1, 2⟩),
    .did (.rest 1 [2, 3]), .answered, .completed ⟨1, 0⟩, .did (.consume ⟨1, 0⟩),
    .did (.rest 1 [0, 2, 3])]

theorem delivers_diverted : ∃ b : Broadcasts String,
    Run b (diverted ++ [.started [true, false, true, true] "outer"]) ∧
      Honest (diverted ++ [.started [true, false, true, true] "outer"]) ∧
      b.agenda = [] ∧ called 1 diverted = [0, 2] ∧ called 2 diverted = [1] ∧
      Delivers b diverted [true, false, true, true] "outer" [] := by
  have r := Run.fresh.start rfl [true, false, true, true] "outer"
  have r := (((r.step rfl rfl).step rfl rfl).complete rfl ⟨1, 0⟩).answer rfl (by decide)
  have r := ((r.step rfl rfl).step rfl rfl).start rfl [false, true] "inner"
  have r := (((r.step rfl rfl).step rfl rfl).answer rfl (by decide)).step rfl rfl
  have r := (r.answer rfl (by decide)).step rfl rfl
  refine ⟨_, r, ?_, rfl, rfl, rfl, run_delivers r⟩
  simp [Honest, diverted, List.suffix_cons_iff]

end Broadcasts

end Prompter
