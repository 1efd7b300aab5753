import Prompter.Proofs.Command.Meaning
import Prompter.Proofs.Engine.Utterance
import Prompter.Proofs.Session.Finality

/-!
# Prompter.Proofs.Session.Heeding

A handler is called because of a command of the script, with the arguments that the command gives.

Three kinds of items have to do with this: an event that is a command, and a handler that is to be
told or is being told (`Item.isOrder`). They follow from each other: the engine's turn reports a
command, its dispatch looks the handler up, and then the host is told. Nothing else puts such an
item on the agenda (`Plain`), so that `Heeds` stays true whatever a session does, as long as the
tables of commands stay and nobody but the engine reports commands.
-/

namespace Prompter

/-- Whether an item is about a command that has been heard, or about a handler. -/
def Item.isOrder : Item → Bool
  | .hear _ (.command _) => true
  | .tell (.handler _ _ _ _) | .telling (.handler _ _ _ _) => true
  | _ => false

/-- Whether a request reports a command, or changes the tables in which commands are looked up. -/
def Call.isOrder : Call → Bool
  | .deliver _ | .dispatch _ _ | .register _ _ | .unregister _ | .resolveWith _ => true
  | _ => false

namespace Session

variable {script : Script} {t : CommandTables} {s s' : Session}

/-- Why a handler is called: a command of the script means it, with these arguments. -/
def CalledFor (script : Script) (t : CommandTables) (key : HostKey) (name : String)
    (args : List Argument) (handle : Option Nat) : Prop :=
  ∃ c h, script.Says c ∧ t.Means c (.handler name h args) ∧ key = h.key ∧
    handle.isSome = h.pausing

/-- An item is about no command but one of the script, and about no handler but one that such a
command calls. -/
def ItemHeeds (script : Script) (t : CommandTables) : Item → Prop
  | .hear _ (.command c) => script.Says c
  | .tell (.handler key name args handle) | .telling (.handler key name args handle) =>
    CalledFor script t key name args handle
  | _ => True

/-- Commands are looked up in some tables, and all that a session has to do about commands is
because of those in a script. -/
structure Heeds (script : Script) (t : CommandTables) (s : Session) : Prop where
  commands : s.commands = t
  engine : ∃ e, s.engine = .script e ∧ e.script = script
  items : ∀ i ∈ s.agenda, ItemHeeds script t i

theorem itemHeeds_of_plain {i : Item} (plain : i.isOrder = false) : ItemHeeds script t i := by
  unfold ItemHeeds
  split
  case h_4 => trivial
  all_goals cases plain

/-! ### What has nothing to do with commands -/

/-- The tables of commands stay, and nothing about commands is put on the agenda. -/
structure Plain (s s' : Session) : Prop where
  commands : s'.commands = s.commands
  items : ∀ i ∈ s'.agenda, i ∈ s.agenda ∨ i.isOrder = false

theorem Plain.of_items (items : List Item) (others : ∀ i ∈ items, i.isOrder = false)
    (commands : s'.commands = s.commands) (agenda : s'.agenda = items ++ s.agenda) :
    Plain s s' := by
  refine ⟨commands, fun i mem => ?_⟩
  rw [agenda] at mem
  exact (List.mem_append.1 mem).symm.imp id (others i)

theorem Plain.refl (s : Session) : Plain s s := ⟨rfl, fun _ => .inl⟩

theorem Plain.trans {s'' : Session} (first : Plain s s') (second : Plain s' s'') : Plain s s'' :=
  ⟨second.commands.trans first.commands, fun i mem =>
    (second.items i mem).elim (first.items i) .inr⟩

attribute [local simp] Item.isOrder Call.isOrder

variable {p : Progress}

theorem Chooses.plain {l : List Item} {id : OptionId} (chooses : Chooses (s.push l) id p)
    (others : ∀ i ∈ l, i.isOrder = false) : Plain s p.1 := by
  cases chooses with
  | nobody | script => exact .of_items l others rfl rfl
  | host => exact .of_items (_ :: l) (List.forall_mem_cons.2 ⟨rfl, others⟩) rfl rfl

theorem Concludes.plain {r : Reporter} {x : NextAction} (concludes : Concludes s r x p) :
    Plain s p.1 := by
  cases concludes with
  | host | nobody => exact .refl s
  | engine => exact .of_items [.turn] (by simp) rfl rfl

theorem Unpauses.plain {l : List Item} {k : Nat} (unpauses : Unpauses (s.push l) k p)
    (others : ∀ i ∈ l, i.isOrder = false) : Plain s p.1 := by
  cases unpauses with
  | unknown => exact .of_items l others rfl rfl
  | resumed =>
    refine .of_items (_ ++ l) ?_ rfl (List.append_assoc ..).symm
    exact List.forall_mem_append.2 ⟨forall_mem_resumption (fun _ => rfl) _, others⟩

theorem Spawns.plain {l : List Item} {k : Nat} (spawns : Spawns (s.push l) k p)
    (others : ∀ i ∈ l, i.isOrder = false) : Plain s p.1 := by
  cases spawns with
  | spawned => exact .of_items l others rfl rfl
  | resumes _ unpauses => exact unpauses.plain others

/-- Doing an item that is neither about a command nor a turn of the engine. -/
theorem Works.plain {i : Item} (works : Works s i p) (other : i.isOrder = false)
    (unturned : i ≠ .turn) : Plain s p.1 := by
  cases works with
  | idle | reply | outcome => exact .refl s
  | turn => exact absurd rfl unturned
  | command => cases other
  | tell n =>
    refine .of_items [.telling n] ?_ rfl rfl
    cases n with
    | handler => cases other
    | _ => simp
  | continueHost | line | dialogueEnd | present | immediate | waiting | callNext | resumeHost
  | stale | commandDone | afterCall => exact .of_items _ (by simp) rfl rfl
  | continueScript => exact .of_items _ (by split <;> simp) rfl rfl
  | chooseOption n chooses => exact Chooses.plain (l := []) chooses (by simp)
  | options | nodeStart | nodeEnd | closeLine =>
    exact .of_items _ (forall_mem_tellViews_append (fun _ => rfl) (by simp)) rfl rfl
  | conclude concludes | outcomeOf k concludes => exact concludes.plain
  | lineShown =>
    have leased : Plain s (s.push [.lease]) := .of_items _ (by simp) rfl rfl
    refine leased.trans (.of_items _ (forall_mem_tellViews_append (fun _ => rfl) ?_)
      rfl rfl)
    split <;> simp
  | lineGone => exact .of_items [_, .lease] (by simp) rfl rfl
  | finish => exact .of_items _ (forall_mem_tellViews fun _ => rfl) rfl rfl
  | resumeWhenDone spawns => exact Spawns.plain (l := []) spawns (by simp)

/-- Making a request that is not about commands. -/
theorem Requests.plain {c : Call} (requests : Requests s c p) (other : c.isOrder = false) :
    Plain s p.1 := by
  cases requests with
  | declined | place | stopEngine | bind | attach | detach | release | listen | addFunction
  | removeFunction | setVariable | clearVariables => exact .of_items [] (by simp) rfl rfl
  | deliver | dispatch | register | unregister | resolveWith => cases other
  | stopEmpty | stopScript | stopHost | function | continueEngine =>
    exact .of_items _ (by simp) rfl rfl
  | start | interrupt =>
    exact .of_items _ (forall_mem_tellViews_append (fun _ => rfl) (by simp)) rfl rfl
  | dismiss =>
    refine .of_items _ ?_ rfl rfl
    simp only [dismissal, List.forall_mem_append]
    exact ⟨⟨forall_mem_tellViews fun _ => rfl, by simp⟩, by simp⟩
  | select =>
    refine .of_items _ ?_ rfl rfl
    split <;> simp
  | complete =>
    refine .of_items _ (List.forall_mem_append.2 ⟨?_, by simp⟩) rfl rfl
    exact forall_mem_resumption (fun _ => rfl) _
  | resume unpauses => exact unpauses.plain (by simp)
  | resumeWhenDone spawns => exact spawns.plain (by simp)
  | chooseOption chooses => exact chooses.plain (by simp)

/-! ### From a command to its handler -/

/-- What the dispatch of a command puts on the agenda. -/
theorem Dispatches.heeds {c : Command} {k : Nat → Continuation} {use : OutcomeUse}
    (dispatches : Dispatches s c k use p) (said : script.Says c) (tables : s.commands = t)
    (known : ∀ i ∈ s.agenda, ItemHeeds script t i) :
    p.1.commands = t ∧ ∀ i ∈ p.1.agenda, ItemHeeds script t i := by
  -- whatever is put on top, the rest of the agenda is as before
  have put (items : List Item) (new : ∀ i ∈ items, ItemHeeds script t i) (s' : Session)
      (commands : s'.commands = s.commands) (agenda : s'.agenda = items ++ s.agenda) :
      s'.commands = t ∧ ∀ i ∈ s'.agenda, ItemHeeds script t i :=
    ⟨commands.trans tables, agenda ▸ List.forall_mem_append.2 ⟨new, known⟩⟩
  have plain (items : List Item) (others : ∀ i ∈ items, i.isOrder = false) (s' : Session)
      (commands : s'.commands = s.commands) (agenda : s'.agenda = items ++ s.agenda) :=
    put items (fun i mem => itemHeeds_of_plain (others i mem)) s' commands agenda
  have called {name : String} {h : Handler} {args : List Argument} {rs : List Remark}
      (means : s.commands.resolve c = (.handler name h args, rs)) (handle : Option Nat)
      (pausing : handle.isSome = h.pausing) : CalledFor script t h.key name args handle := by
    have meant := t.means_resolve c
    rw [← tables, means] at meant
    exact ⟨c, h, said, tables ▸ meant, rfl, pausing⟩
  cases dispatches with
  | handler means simple =>
    refine put _ (List.forall_mem_cons.2 ⟨?_, by simp [ItemHeeds]⟩) _ rfl rfl
    exact called means none simple.symm
  | pausingHandler means pauses =>
    refine put _ (List.forall_mem_cons.2 ⟨?_, by simp [ItemHeeds]⟩) _ rfl rfl
    exact called means (some _) pauses.symm
  | method | refused | unhandled | unheard => exact plain _ (by simp) _ rfl rfl
  | pausingMethod =>
    refine plain _ ?_ _ rfl rfl
    split <;> simp

/-- What a turn of the engine puts on the agenda. -/
theorem turn_heeds (heeds : Heeds script t s) :
    s.turn.1.commands = t ∧ ∀ i ∈ s.turn.1.agenda, ItemHeeds script t i := by
  obtain ⟨e, he, own⟩ := heeds.engine
  obtain ⟨storage, shape⟩ := turn_shape he
  rw [shape]
  refine ⟨heeds.commands, List.forall_mem_append.2 ⟨fun i mem => ?_, heeds.items⟩⟩
  have utters := ((e.turn_ends (s.surroundings e)).utters own).event
  generalize (e.turn (s.surroundings e)).2.1 = request at mem utters
  unfold requested at mem
  split at mem <;> simp only [List.mem_singleton, List.not_mem_nil] at mem
  · subst mem
    trivial
  · subst mem
    trivial
  · next event =>
    subst mem
    cases event with
    | command c => exact utters c rfl
    | _ => trivial
  · subst mem
    trivial
  · subst mem
    trivial

namespace Heeds

/-- What has nothing to do with commands keeps them heeded. -/
theorem of_plain (heeds : Heeds script t s) (plain : Plain s s') {x : Option Event}
    (acts : Acts s s' x) : Heeds script t s' := by
  obtain ⟨e, he, own⟩ := heeds.engine
  obtain ⟨e', he', act⟩ := acts e he
  refine ⟨plain.commands.trans heeds.commands, ⟨e', he', (act.utters own).1⟩, fun i mem => ?_⟩
  exact (plain.items i mem).elim (heeds.items i) itemHeeds_of_plain

/-- The agenda may be cut short. -/
theorem of_fewer (heeds : Heeds script t s) {agenda : List Item}
    (fewer : ∀ i ∈ agenda, i ∈ s.agenda) : Heeds script t { s with agenda := agenda } :=
  ⟨heeds.commands, heeds.engine, fun i mem => heeds.items i (fewer i mem)⟩

theorem step (heeds : Heeds script t s) : Heeds script t s.step.1 := by
  cases busy : s.awaitsHost with
  | true => simpa [Session.step, busy] using heeds
  | false =>
    cases top : s.agenda with
    | nil => simpa [Session.step, top] using heeds
    | cons i rest =>
      have acts := step_acts s busy top
      have below : Heeds script t { s with agenda := rest } :=
        heeds.of_fewer fun j mem => top ▸ List.mem_cons_of_mem i mem
      have own : ItemHeeds script t i := heeds.items i (top ▸ List.mem_cons_self)
      rw [step_eq_work busy top] at acts ⊢
      -- the engine is the same for all items, so it is the commands and the agenda that matter
      suffices done : (({ s with agenda := rest } : Session).work i).1.commands = t ∧
          ∀ j ∈ (({ s with agenda := rest } : Session).work i).1.agenda, ItemHeeds script t j by
        obtain ⟨e, he, same⟩ := heeds.engine
        obtain ⟨e', he', act⟩ := acts e he
        exact ⟨done.1, ⟨e', he', (act.utters same).1⟩, done.2⟩
      by_cases turned : i = .turn
      · subst turned
        exact turn_heeds below
      · by_cases plain : i.isOrder = false
        · have does := (work_works { s with agenda := rest } i).plain plain turned
          exact ⟨does.commands.trans below.commands, fun j mem =>
            (does.items j mem).elim (below.items j) itemHeeds_of_plain⟩
        · unfold Item.isOrder at plain
          split at plain
          · next r c =>
            exact (dispatch_dispatches _ c _ _).heeds own below.commands below.items
          · next key name args handle =>
            exact ⟨below.commands, List.forall_mem_cons.2 ⟨own, below.items⟩⟩
          · exact ⟨below.commands, below.items⟩
          · exact absurd rfl plain

theorem answer (heeds : Heeds script t s) (x : Answer) : Heeds script t (s.answer x).1 := by
  have fewer {i : Item} {rest : List Item} (top : s.agenda = i :: rest) :
      Plain s { s with agenda := rest } :=
    ⟨rfl, fun j mem => .inl (top ▸ List.mem_cons_of_mem i mem)⟩
  refine heeds.of_plain ?_ (answer_acts s x)
  unfold Session.answer
  split
  · next top => exact fewer top
  · next top => exact (fewer top).trans (conclude_concludes _ _ _).plain
  · next rest v top =>
    have turned : Plain s { s with agenda := .turn :: rest } :=
      (fewer top).trans (.of_items [.turn] (by simp) rfl rfl)
    unfold mapEngine
    split <;> exact ⟨turned.commands, turned.items⟩
  · next top => exact fewer top
  · exact .refl s

/-- Any request that is neither about commands nor about where the engine is. -/
theorem call (heeds : Heeds script t s) {c : Call} (quiet : s.places? c = none)
    (goesOn : s.stops c = false) (other : c.isOrder = false) : Heeds script t (s.call c).1 :=
  heeds.of_plain ((call_requests s c).plain other) (call_acts quiet goesOn)

/-- A start may put the engine at a node of its script. -/
theorem start (heeds : Heeds script t s) (node : Option String) :
    Heeds script t (s.call (.start node)).1 := by
  have plain : Plain s (s.call (.start node)).1 := (call_requests s (.start node)).plain rfl
  cases placed : s.places? (.start node) with
  | none => exact heeds.call placed rfl rfl
  | some there =>
    obtain ⟨e, he, own⟩ := heeds.engine
    obtain ⟨e', bound, he', at_node⟩ := call_places he placed
    rw [(Engine.place_eq_ok.1 at_node).2] at he'
    refine ⟨plain.commands.trans heeds.commands, ⟨_, he', own⟩, fun i mem => ?_⟩
    exact (plain.items i mem).elim (heeds.items i) itemHeeds_of_plain

end Heeds

end Session

end Prompter
