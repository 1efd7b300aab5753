import Prompter.Proofs.Session.Ballot

/-!
# Prompter.Proofs.Session.Selection

The engine leaves options only by a choice that the player may make.

Of the choices from an offer at most one is accepted, because an offer is closed by it for good
(`Spent`). It is of an option that was found to be available when the options were offered
(`Eligible`), and the engine goes next to where that option leads. Everybody else is refused.
`run_electsByRight` says so of every run whose host is `Considerate`.
-/

namespace Prompter.Session

variable {allowed : Session → History → Call → Prop} {script : Script} {s₀ s s' : Session}
  {e e' : Engine} {h newer older : History} {m : Mark} {n : Nat} {id : OptionId}

/-! ### Leaving options -/

/-- The options that wait for a choice: where the script goes on after them, and where each of them
leads. -/
def waits? (s : Session) : Option (Place × List (Option String)) :=
  match s.engine with
  | .script e => e.stands?.bind fun next => e.choices.map (next, ·)
  | _ => none

theorem waits?_eq_some (he : s.engine = .script e) {next : Place}
    {destinations : List (Option String)} : s.waits? = some (next, destinations) ↔
      e.choices = some destinations ∧ e.stands? = some next := by
  simp only [waits?, he]
  cases e.stands? <;> cases e.choices <;> simp [and_comm]

/-- Options wait until the dialogue is stopped or started, or a turn of the engine finds that one
has been chosen. -/
theorem Drive.waits {a a' : List Item} {destinations : List (Option String)}
    {selected : Option OptionId} {next : Place} (d : Drive e m a e' a')
    (p : e.Poised destinations selected next) :
    e'.choices = some destinations ∧ e'.stands? = some next ∨ m = .call .stop ∨
      (∃ n, m = .call (.start n)) ∨ m = .did .turn ∧ ∃ id, selected = some id := by
  have kept {found : Option Finding} (n : e.Nudged e' found) :
      e'.choices = some destinations ∧ e'.stands? = some next :=
    ⟨n.choices.trans p.waiting, n.stands?.trans p.stands⟩
  cases d with
  | quiet | answering => exact .inl ⟨p.waiting, p.stands⟩
  | turn around hl =>
    rcases (Engine.turn_of_poised hl p).2 with stays | ⟨id, same, -⟩
    · exact .inl ⟨stays.waiting, stays.stands⟩
    · exact .inr (.inr (.inr ⟨rfl, id, same⟩))
  | continue_ => exact .inl (kept .continued)
  | choose n id =>
    obtain ⟨choice, same⟩ := e.choose_eq id
    rw [same]
    exact .inl ⟨p.waiting, p.stands⟩
  | heard i x => exact .inl (kept (.heard x))
  | place | bind => exact .inr (.inr (.inl ⟨_, rfl⟩))
  | stop => exact .inr (.inl rfl)
  | receive v =>
    left
    unfold Engine.receive
    split
    · exact ⟨p.waiting, p.stands⟩
    · exact ⟨p.waiting, p.stands⟩

/-- Options that wait are those of a menu. Where one is selected, it has been chosen of the offer
of that menu. -/
theorem Passage.poised (p : Passage script s₀ s e h) {destinations : List (Option String)}
    (waiting : e.choices = some destinations) : ∃ q selected,
      q.destinations = destinations ∧ e.Poised destinations selected q.next ∧
      ∀ id, selected = some id →
        (∃ ds, Offered script s₀ q ds (offers h) h) ∧ Chosen s₀ h id := by
  have free (none : e.choices = none) : False := by
    cases none.symm.trans waiting
  have same {q : Menu} {selected : Option OptionId}
      (p : e.Poised q.destinations selected q.next) : q.destinations = destinations :=
    Option.some.inj (p.waiting.symm.trans waiting)
  cases p with
  | off calm => exact (free calm.free).elim
  | polling _ _ _ _ _ none => exact (free none).elim
  | posed q _ _ _ _ _ poised | pending q _ _ _ poised =>
    exact ⟨q, none, same poised, same poised ▸ poised, nofun⟩
  | chosen q ds id offered chosen departing =>
    cases departing with
    | picked _ _ _ poised => exact ⟨q, none, same poised, same poised ▸ poised, nofun⟩
    | told poised =>
      refine ⟨q, some id, same poised, same poised ▸ poised, fun id' now => ?_⟩
      cases now
      exact ⟨⟨ds, offered⟩, chosen⟩
    | heads heads => exact (free heads.1).elim
  | ending _ _ calm => exact (free calm.free).elim

/-! ### An offer is closed for good -/

/-- No choice of the offer with a serial number can be made any more. -/
def Spent (s : Session) (n : Nat) : Prop :=
  n ≤ s.dialogue.offerSerial ∧ ∀ o, s.dialogue.offer = some o → n < o.serial

theorem Spent.not_accepts (spent : s.Spent n) (id : OptionId) : ¬ Accepts s n id := by
  refine not_accepts_of_cannotChoose (.inr fun o opened serial => ?_)
  have later := spent.2 o opened
  omega

theorem Happens.spent (happens : Happens s m s') (spent : s.Spent n) : s'.Spent n := by
  obtain ⟨known, closed⟩ := spent
  obtain ⟨rest, special, takes, change, -⟩ := happens.move
  replace change : Change s.dialogue s.handles m s'.dialogue s'.handles special := change
  unfold Spent
  generalize s'.dialogue = d' at change ⊢
  generalize s'.handles = hs' at change
  cases change with
  | offer r set options =>
    refine ⟨Nat.le_succ_of_le known, fun o opened => ?_⟩
    cases opened
    exact Nat.lt_succ_of_le known
  | finish | choose | echo => exact ⟨known, nofun⟩
  | _ => exact ⟨known, closed⟩

theorem Run.spent (r : Run allowed s₀ s h) (spent : s₀.Spent n) : s.Spent n := by
  induction h generalizing s with
  | nil =>
    cases r
    exact spent
  | cons m h ih =>
    obtain ⟨s', r', happens⟩ := r.last
    exact happens.spent (ih r')

/-- An accepted choice closes its offer for good. -/
theorem spent_of_accepts (known : s.dialogue.offerSerial = n) (accepts : Accepts s n id) :
    (s.call (.select n id)).1.Spent n := by
  rcases s.select_cases n id with cannot | ⟨_, _, _, selects⟩
  · exact absurd accepts (not_accepts_of_cannotChoose cannot)
  · rw [selects.chosen]
    exact ⟨Nat.le_of_eq known.symm, nofun⟩

/-- Where options are not repeated as lines, an accepted choice asks the engine to go on. -/
theorem asks_of_accepts (silent : s.dialogue.settings.echoChoice = false)
    (accepts : Accepts s n id) :
    .continueEngine (.offer n) ∈ (s.call (.select n id)).1.agenda := by
  rcases s.select_cases n id with cannot | ⟨_, _, next, selects⟩
  · exact absurd accepts (not_accepts_of_cannotChoose cannot)
  · rw [selects.chosen, selects.leads, silent]
    exact List.mem_cons_of_mem _ List.mem_cons_self

/-! ### Where a choice leads -/

/-- An option of a menu could be chosen from the offer with a serial number: by what the engine had
found out when the options were offered, it was available. -/
def Eligible (script : Script) (s₀ : Session) (q : Menu) (n : Nat) (id : OptionId)
    (o : ScriptOption) (h : History) : Prop :=
  ∃ newer older ds before judging rest,
    h = newer ++ .did (.hear .engine (.options ds)) :: older ∧ n = offers older + 1 ∧
      Begun script s₀ q older (before ++ judging ++ rest) ∧ q.options[id]? = some o ∧
      o.Granted judging

theorem Offered.eligible {q : Menu} {ds : List DialogueOption}
    (offered : Offered script s₀ q ds n h) {d : DialogueOption} (hd : d ∈ ds)
    (available : d.available = true) :
    ∃ o, Eligible script s₀ q n d.id o h := by
  obtain ⟨newer, older, fs, same, serial, begun, polled⟩ := offered
  obtain ⟨o, before, judging, rest, ho, rfl, granted⟩ := polled.granted hd available
  exact ⟨o, newer, older, ⟨ds⟩, before, judging, rest, same, serial, begun, ho, granted⟩

/-- What a choice was of that has been accepted, and how it goes on. -/
theorem Run.accepted {e₀ : Engine} (at₀ : s₀.IsAttached) (engine : s₀.engine = .script e₀)
    (r : Run Considerate s₀ s (newer ++ .call (.select n id) :: older))
    (accepts : Accepts (after s₀ older) n id) :
    (after s₀ older).dialogue.offerSerial = n ∧ ∃ q o, Eligible e₀.script s₀ q n id o older ∧
      ∃ e, (after s₀ (.call (.select n id) :: older)).engine = .script e ∧
        Departing q.destinations q.next id False (after s₀ (.call (.select n id) :: older)) e := by
  obtain ⟨s₂, r₂⟩ := r.earlier
  obtain ⟨s₁, r₁, happens⟩ := r₂.last
  obtain ⟨e₁, b⟩ := r₁.ballot at₀ engine
  rw [r₁.after_eq] at accepts
  simp only [after, r₁.after_eq]
  cases happens with
  | call word =>
    obtain ⟨rfl, q, ds, offered, ⟨d, hd, rfl, available⟩, departing⟩ :=
      b.passage.accepted (b.passage.unvoted_of_word word) word b.attended accepts
    obtain ⟨o, eligible⟩ := offered.eligible hd available
    exact ⟨b.serial, q, o, eligible, departing⟩

/-- An engine has been asked to go on. -/
def Asked (h : History) : Prop := ∃ c, .did (.continueEngine c) ∈ h

/-- Unless the dialogue is stopped, the engine departs until it takes a step of the script, and then
it is where the chosen option leads. -/
theorem Run.departing {e₀ : Engine} (at₀ : s₀.IsAttached) (engine : s₀.engine = .script e₀)
    (r : Run Considerate s₀ s (newer ++ m :: older)) {destinations : List (Option String)}
    {next : Place} (start : ∃ e, (after s₀ (m :: older)).engine = .script e ∧
      Departing destinations next id False (after s₀ (m :: older)) e)
    (unstopped : .call .stop ∉ newer) :
    (steps (after s₀ (m :: older)) newer).head? = some (next.orGoTo destinations[id]?.join) ∨
      steps (after s₀ (m :: older)) newer = [] ∧
        ∃ e, s.engine = .script e ∧ Departing destinations next id (Asked newer) s e := by
  induction newer generalizing s with
  | nil =>
    obtain ⟨e, engine, departing⟩ := start
    obtain rfl := r.after_eq
    exact .inr ⟨rfl, e, engine, departing.mono fun ⟨_, asked⟩ => by cases asked⟩
  | cons m' newer ih =>
    obtain ⟨s₁, r₁, happens⟩ := r.last
    have now : after (after s₀ (m :: older)) newer = s₁ := by
      rw [← after_append, ← r₁.after_eq]
      rfl
    rw [steps, now]
    rcases ih r₁ fun stopped => unstopped (List.mem_cons_of_mem _ stopped) with
      arrived | ⟨still, e, he, departing⟩
    · left
      rw [List.head?_append, arrived]
      rfl
    · obtain ⟨e', b⟩ := r₁.ballot at₀ engine
      obtain rfl : e' = e := by
        have same := b.attended.engine.symm.trans he
        cases same
        rfl
      rw [still, List.nil_append]
      have considerate (c : Call) (same : m' = .call c) :
          Considerate s₁ (newer ++ m :: older) c := by
        subst same
        exact r₁.allowed_of_call r
      have more (asked : Asked (m' :: newer)) :
          Asked newer ∨ ∃ c, m' = .did (.continueEngine c) := by
        obtain ⟨c, asked⟩ := asked
        rcases List.mem_cons.1 asked with rfl | asked
        · exact .inr ⟨c, rfl⟩
        · exact .inl ⟨c, asked⟩
      have course := departing.next b.attended b.outside happens considerate
        (r₁.known at₀.toIsFresh) more
      rcases course with rfl | arrives | ⟨waits, e'', he', departing⟩
      · exact absurd List.mem_cons_self unstopped
      · left
        rw [arrives]
        rfl
      · right
        rw [waits]
        exact ⟨rfl, e'', he', departing⟩

/-! ### Every run -/

/-- A choice that has been accepted was of an option that could be chosen, and `newer` shows where
it has led. -/
structure Elected (script : Script) (s₀ s : Session) (newer older : History) (n : Nat)
    (id : OptionId) (q : Menu) (o : ScriptOption) : Prop where
  eligible : Eligible script s₀ q n id o older
  /-- Unless the dialogue is stopped, the engine goes next to where the option leads. -/
  goes : .call .stop ∉ newer →
    ∀ p ∈ (steps (after s₀ (.call (.select n id) :: older)) newer).head?,
      p = q.next.orGoTo o.destination
  /-- It has got there when nothing is left to do and it was asked to go on, as it is at once where
  options are not repeated as lines. -/
  arrives : .call .stop ∉ newer → s.agenda = [] →
    (after s₀ older).dialogue.settings.echoChoice = false ∨ Asked newer →
      steps (after s₀ (.call (.select n id) :: older)) newer ≠ []

/-- What has been proved of choices along a history. -/
structure ElectsByRight (script : Script) (s₀ s : Session) (h : History) : Prop where
  /-- Unless the dialogue is stopped, the engine leaves options only when one has been chosen of
  their own offer. -/
  leaves : ∀ m s' next destinations, Run Considerate s₀ s' (m :: h) →
    s.waits? = some (next, destinations) → s'.waits? ≠ some (next, destinations) →
      m = .call .stop ∨ m = .did .turn ∧ ∃ q ds id, q.next = next ∧
        q.destinations = destinations ∧ Offered script s₀ q ds (offers h) h ∧ Chosen s₀ h id
  /-- At most one choice is accepted of an offer. -/
  once : ∀ newest newer older n id id',
    h = newest ++ .call (.select n id') :: (newer ++ .call (.select n id) :: older) →
      Accepts (after s₀ older) n id →
        ¬ Accepts (after s₀ (newer ++ .call (.select n id) :: older)) n id'
  /-- A choice that is accepted was possible, and is carried out. -/
  elected : ∀ newer older n id, h = newer ++ .call (.select n id) :: older →
    Accepts (after s₀ older) n id → ∃ q o, Elected script s₀ s newer older n id q o
  /-- Every other choice is refused, which leaves the whole session as it was. -/
  refused : ∀ n id, ¬ Accepts s n id → s.Refused (s.call (.select n id))

/-- Whoever chooses whatever, in every run options are left by right. -/
theorem run_electsByRight {e₀ : Engine} (at₀ : s₀.IsAttached) (engine : s₀.engine = .script e₀)
    (r : Run Considerate s₀ s h) : ElectsByRight e₀.script s₀ s h := by
  refine ⟨?_, ?_, ?_, fun n id => refused_of_not_accepts⟩
  · intro m s' next destinations r' waits leaves
    obtain ⟨e, b⟩ := r.ballot at₀ engine
    obtain ⟨s₁, r₁, happens⟩ := r'.last
    obtain rfl : s = s₁ := r.unique r₁
    have considerate (c : Call) (same : m = .call c) : Considerate s h c := by
      subst same
      exact r₁.allowed_of_call r'
    obtain ⟨waiting, stands⟩ := (waits?_eq_some b.attended.engine).1 waits
    obtain ⟨q, selected, hq, poised, known⟩ := b.passage.poised waiting
    obtain rfl : q.next = next := Option.some.inj (poised.stands.symm.trans stands)
    have known' := r.known at₀.toIsFresh
    obtain ⟨e', at', drive | ⟨rfl, -⟩⟩ := b.attended.next happens considerate known'
    · rcases drive.waits poised with stays | rfl | ⟨node, rfl⟩ | ⟨rfl, id, rfl⟩
      · exact absurd ((waits?_eq_some at'.engine).2 stays) leaves
      · exact .inl rfl
      · -- while options wait the dialogue is running, so that it does not start
        cases happens with
        | call =>
          rcases start_cases b.attended.engine node with same | ⟨_, stopped, -⟩
          · rw [same] at leaves
            exact absurd waits leaves
          · exact absurd poised (b.outside stopped).not_poised
      · obtain ⟨⟨ds, offered⟩, chosen⟩ := known id rfl
        exact .inr ⟨rfl, q, ds, id, rfl, hq, offered, chosen⟩
    · exact absurd ((waits?_eq_some at'.engine).2 ⟨waiting, stands⟩) leaves
  · intro newest newer older n id id' parts accepts
    subst parts
    obtain ⟨s₂, r₂⟩ := r.earlier
    obtain ⟨s₁, r₁, -⟩ := r₂.last
    obtain ⟨s₃, r₃, later⟩ := r₁.later
    have spent := spent_of_accepts (r₁.accepted at₀ engine accepts).1 accepts
    have now : (after s₀ (.call (.select n id) :: older)).Spent n := spent
    rw [r₃.after_eq] at now
    rw [r₁.after_eq]
    exact (later.spent now).not_accepts id'
  · intro newer older n id parts accepts
    subst parts
    obtain ⟨-, q, o, eligible, departing⟩ := r.accepted at₀ engine accepts
    have leads : q.destinations[id]?.join = o.destination := by
      obtain ⟨-, -, -, -, -, -, -, -, -, ho, -⟩ := eligible
      simp [Menu.destinations, ho]
    have course (unstopped : .call .stop ∉ newer) := r.departing at₀ engine departing unstopped
    rw [leads] at course
    refine ⟨q, o, eligible, fun unstopped p hp => ?_, fun unstopped done asked => ?_⟩
    · rcases course unstopped with arrived | ⟨still, -⟩
      · rw [arrived] at hp
        exact (Option.some.inj hp).symm
      · rw [still] at hp
        cases hp
    · rcases course unstopped with arrived | ⟨-, e, he, departing⟩
      · intro still
        rw [still] at arrived
        cases arrived
      · obtain ⟨e', b⟩ := r.ballot at₀ engine
        obtain rfl : e' = e := by
          have same := b.attended.engine.symm.trans he
          cases same
          rfl
        refine absurd ?_ (departing.not_done b.attended done)
        -- where the option is not repeated as a line, the engine is asked at once
        refine asked.elim (fun silent => ⟨.offer n, ?_⟩) fun asked => asked
        obtain ⟨s₁, r₁, later⟩ := r.later
        refine later.done rfl ?_ done
        rw [← r₁.after_eq]
        exact asks_of_accepts silent accepts

/-- A crossroads: one cannot swim, and who is rested may walk to the inn. -/
def crossroads : Session :=
  { engine := .script
      { script := ⟨⟨[("Inn", [.line "l1" "Welcome." []]),
          ("Road", [.options [{ text := "Swim", available := false },
            { text := "Walk"
              condition := some (.call "rested" [])
              destination := some "Inn" }]])], by decide⟩⟩
        listener := some .dialogue }
    dialogue := { slots := [true] }
    functions := ⟨⟨[("rested", ⟨0, 4⟩)], by decide⟩⟩
    storage := some {} }

/-- A choice comes too early, one is impossible, one is accepted while the view is still being told
of the options, and one comes too late. The engine gets to the inn. -/
theorem electsByRight_of_crossroads :
    ∃ e s newer older, crossroads.IsAttached ∧ crossroads.engine = .script e ∧
      Run Considerate crossroads s (newer ++ .call (.select 1 1) :: older) ∧ s.agenda = [] ∧
      Accepts (after crossroads older) 1 1 ∧ .call (.select 1 1) ∈ older ∧
      .call (.select 1 1) ∈ newer ∧ .did (.hear .engine (.nodeStart "Inn")) ∈ newer ∧
      ElectsByRight e.script crossroads s (newer ++ .call (.select 1 1) :: older) := by
  have attached : crossroads.IsAttached :=
    { agenda := rfl, handles := rfl, dialogue := rfl, engine := ⟨_, rfl⟩, held := rfl }
  have r : Run Considerate crossroads crossroads [] := .refl
  have r := (r.call rfl (.start (some "Road")) ⟨rfl, rfl⟩).works 9
  -- the view hears of the start and of the node, and the engine asks whether one is rested
  have r := (((r.answer .heard rfl).works 9).answer .heard rfl).works 9
  have r := r.call rfl (.select 1 1) ⟨rfl, trivial⟩
  have r := (r.answer (.value (.bool true)) rfl).works 9
  have r := r.call rfl (.select 1 0) ⟨rfl, trivial⟩
  have r := (r.call rfl (.select 1 1) ⟨rfl, trivial⟩).works 9
  have r := r.call rfl (.select 1 1) ⟨rfl, trivial⟩
  -- the view returns, and hears of the nodes and of the line
  have r := (((r.answer .heard rfl).works 9).answer .heard rfl).works 9
  have r := (((r.answer .heard rfl).works 9).answer .heard rfl).works 9
  have r := r.at_mark 36 rfl
  refine ⟨_, _, _, _, attached, rfl, r, rfl, ?_, List.mem_of_getElem? (i := 5) rfl,
    List.mem_of_getElem? (i := 31) rfl, List.mem_of_getElem? (i := 18) rfl,
    run_electsByRight attached rfl r⟩
  exact isError_remarks _

end Prompter.Session
