import Prompter.Proofs.Engine.Stake
import Prompter.Proofs.Session.Drive
import Prompter.Proofs.Session.Pause

/-!
# Prompter.Proofs.Session.Stake

What keeps a dialogue going, as a number.

A dialogue goes on because a line is presented, an offer is open or a command has paused, because
there is something on the agenda that leads to one of these, or because its engine goes on by
itself. Each of them is a *stake* (`stake`). Whatever does not concern the engine hands its stake on
(`Works.passes`, `Requests.passes`).
-/

namespace Prompter

/-- Whether a continuation lets the script go on after a command. -/
def Continuation.isCommand : Continuation → Bool
  | .commandDone _ => true
  | _ => false

/-- Whether the script waits for the command of a handle. -/
def ResumeHandle.holds (x : ResumeHandle Continuation) : Bool :=
  x.phase = .armed && x.continuation.isCommand

/-- A handle for which the script waits is not the one that has just come into being. -/
theorem ResumeHandle.getElem?_of_holds {hs : List (ResumeHandle Continuation)}
    {x y : ResumeHandle Continuation} {k : Nat} (fresh : y.holds = false)
    (hx : (hs ++ [y])[k]? = some x) (hold : x.holds = true) : hs[k]? = some x := by
  by_cases old : k < hs.length
  · exact (List.getElem?_append_left old).symm.trans hx
  · rw [List.getElem?_append_right (Nat.le_of_not_lt old), List.getElem?_singleton] at hx
    split at hx
    · cases hx
      rw [fresh] at hold
      cases hold
    · cases hx

namespace Item

/-- How much an item does to keep the dialogue going. -/
def stake : Item → Nat
  | .hear .engine _ | .conclude .engine .next | .afterCall _ _ (.event .engine) => 1
  | .present _ _ | .resume (.commandDone _) | .continueEngine _ => 1
  | .outcome _ o (.event .engine) => (o ≠ .pause : Bool).toNat
  | _ => 0

/-- Whether an item has nothing to do with the engine, but that it may ask it to go on. -/
def isOutside : Item → Bool
  | .turn | .ask _ _ | .invoke _ _ .engine | .hear _ _ | .conclude .engine _ => false
  | .outcome _ _ (.event _) | .afterCall _ _ _ | .chooseOption _ _ | .finish => false
  | _ => true

end Item

/-- Whether a request has nothing to do with the engine, nor with what the dialogue waits for. -/
def Call.isOutside : Call → Bool
  | .start _ | .stop | .deliver _ | .select _ _ => false
  | c => c.leavesEngine

namespace Session

/-- How much of what keeps the dialogue going is on an agenda. -/
def owing : List Item → Nat
  | [] => 0
  | i :: a => i.stake + owing a

/-- How much of it is in the books. -/
def booked (s : Session) : Nat :=
  s.dialogue.line.isSome.toNat + s.dialogue.offer.isSome.toNat + s.handles.countP ResumeHandle.holds

/-- All that keeps the dialogue going, with the engine `e`. -/
def stake (s : Session) (e : Engine) : Nat := s.booked + owing s.agenda + e.stake

theorem toNat_isSome_eq_zero {α : Type} {o : Option α} : o.isSome.toNat = 0 ↔ o = none := by
  cases o <;> simp

@[simp] theorem owing_nil : owing [] = 0 := rfl

@[simp] theorem owing_cons (i : Item) (a : List Item) : owing (i :: a) = i.stake + owing a := rfl

@[simp] theorem owing_append (a a' : List Item) : owing (a ++ a') = owing a + owing a' := by
  induction a with
  | nil => exact (Nat.zero_add _).symm
  | cons i a ih => rw [List.cons_append, owing_cons, owing_cons, ih, Nat.add_assoc]

theorem stake_le_owing {a : List Item} {i : Item} (hi : i ∈ a) : i.stake ≤ owing a := by
  obtain ⟨before, after, rfl⟩ := List.append_of_mem hi
  rw [owing_append, owing_cons]
  omega

theorem owing_eq_zero {a : List Item} (idle : ∀ i ∈ a, i.stake = 0) : owing a = 0 := by
  induction a with
  | nil => rfl
  | cons i a ih =>
    rw [List.forall_mem_cons] at idle
    rw [owing_cons, idle.1, ih idle.2]

/-- A command that is looked at after its call is the host's own, and does not let the script go
on. -/
def LooksAside (hs : List (ResumeHandle Continuation)) (i : Item) : Prop :=
  ∃ name k x, i = .afterCall name k .reply ∧ hs[k]? = some x ∧ x.continuation.isCommand = false

/-- Something keeps the books such that a line is given up, or a command waited for, only with what
follows from that on the agenda. -/
structure Keeps (s s' : Session) : Prop where
  held : s'.held = s.held
  /-- A line that is no longer presented lets the engine go on. -/
  line : s'.dialogue.line = none → s'.dialogue.lineSerial = s.dialogue.lineSerial ∧
    (s.dialogue.line = none ∨ .continueEngine (.line s'.dialogue.lineSerial) ∈ s'.agenda)
  stored : ∀ k, s'.dialogue.barrier.stored = some k →
    s.dialogue.barrier.stored = some k ∨ k.isCommand = false
  kept : ∀ (k : Nat) (x : ResumeHandle Continuation), s.handles[k]? = some x →
    ∃ x', s'.handles[k]? = some x' ∧ x'.continuation = x.continuation
  /-- A command is waited for when it has paused. -/
  holds : ∀ (k : Nat) (x' : ResumeHandle Continuation), s'.handles[k]? = some x' →
    x'.holds = true → (∃ x, s.handles[k]? = some x ∧ x.holds = true) ∨
      .outcome (some k) .pause (.event .engine) ∈ s'.agenda

/-- Something hands on a stake of `n`, in addition to those in the books, and leaves the engine and
the offer alone. -/
structure Passes (n : Nat) (s s' : Session) : Prop extends Keeps s s' where
  engine : s'.engine = s.engine
  running : s'.dialogue.running = s.dialogue.running
  offer : s'.dialogue.offer = s.dialogue.offer
  puts : ∃ items, (∀ i ∈ items, i.isOutside = true ∨ LooksAside s'.handles i) ∧
    s'.agenda = items ++ s.agenda ∧ s'.booked + owing items = s.booked + n

section

variable {s s' s'' : Session} {n : Nat}

/-- Something changes nothing that matters but the agenda. -/
theorem Passes.of_items (items : List Item) (outside : ∀ i ∈ items, i.isOutside = true)
    (engine : s'.engine = s.engine) (held : s'.held = s.held)
    (running : s'.dialogue.running = s.dialogue.running)
    (offer : s'.dialogue.offer = s.dialogue.offer)
    (line : s'.dialogue.line.isSome = s.dialogue.line.isSome)
    (serial : s'.dialogue.lineSerial = s.dialogue.lineSerial)
    (stored : ∀ k, s'.dialogue.barrier.stored = some k →
      s.dialogue.barrier.stored = some k ∨ k.isCommand = false)
    (handles : s'.handles = s.handles) (agenda : s'.agenda = items ++ s.agenda)
    (same : owing items = n) : Passes n s s' where
  engine := engine
  held := held
  running := running
  offer := offer
  line none := by
    refine ⟨serial, .inl ?_⟩
    rw [none] at line
    cases hl : s.dialogue.line with
    | none => rfl
    | some l =>
      rw [hl] at line
      cases line
  stored := stored
  kept k x hx := ⟨x, handles ▸ hx, rfl⟩
  holds k x hx hold := .inl ⟨x, handles ▸ hx, hold⟩
  puts := by
    refine ⟨items, fun i hi => .inl (outside i hi), agenda, ?_⟩
    rw [booked, booked, line, offer, handles, same]

/-- Something does nothing but put items on the agenda. -/
theorem Passes.push (s : Session) {items : List Item} (outside : ∀ i ∈ items, i.isOutside = true)
    (same : owing items = n) : Passes n s (s.push items) :=
  .of_items items outside rfl rfl rfl rfl rfl rfl (fun _ hk => .inl hk) rfl rfl same

theorem Passes.refl (s : Session) : Passes 0 s s :=
  .of_items [] (by simp) rfl rfl rfl rfl rfl rfl (fun _ hk => .inl hk) rfl rfl rfl

/-- Something is done with the books after items were put on the agenda. -/
theorem Passes.of_push {items : List Item} (outside : ∀ i ∈ items, i.isOutside = true)
    (idle : owing items = 0) (passes : Passes n (s.push items) s') : Passes n s s' := by
  obtain ⟨items', outside', agenda, puts⟩ := passes.puts
  refine ⟨⟨passes.held, passes.line, passes.stored, passes.kept, passes.holds⟩, passes.engine,
    passes.running, passes.offer, items' ++ items, ?_, ?_, ?_⟩
  · exact List.forall_mem_append.2 ⟨outside', fun i hi => .inl (outside i hi)⟩
  · rw [agenda, push_agenda, List.append_assoc]
  · rw [owing_append, idle]
    exact puts

/-- When a handle changes, one command more or less may be waited for. -/
theorem countP_holds_set {hs : List (ResumeHandle Continuation)} {k : Nat}
    {x : ResumeHandle Continuation} (hx : hs[k]? = some x) (y : ResumeHandle Continuation) :
    (hs.set k y).countP ResumeHandle.holds + x.holds.toNat =
      hs.countP ResumeHandle.holds + y.holds.toNat := by
  obtain ⟨hk, rfl⟩ := List.getElem?_eq_some_iff.1 hx
  have one (b : Bool) : (if b = true then 1 else 0) = b.toNat := by cases b <;> rfl
  have le : hs[k].holds.toNat ≤ hs.countP ResumeHandle.holds := by
    cases hold : hs[k].holds with
    | false => exact Nat.zero_le _
    | true => exact List.countP_pos_iff.2 ⟨_, List.getElem_mem hk, hold⟩
  rw [List.countP_set hk, one, one]
  omega

/-- If one command is waited for, there is no other. -/
theorem eq_of_holds {hs : List (ResumeHandle Continuation)} {k k' : Nat}
    {x x' : ResumeHandle Continuation} (one : hs.countP ResumeHandle.holds = 1)
    (hx : hs[k]? = some x) (hold : x.holds = true) (hx' : hs[k']? = some x')
    (hold' : x'.holds = true) : k' = k := by
  by_cases same : k = k'
  · exact same.symm
  · -- without the first of them, there would still be the second
    have counted := countP_holds_set hx { x with phase := .finished }
    rw [hold, one] at counted
    have pos : 0 < (hs.set k { x with phase := .finished }).countP ResumeHandle.holds :=
      List.countP_pos_iff.2
        ⟨x', List.mem_of_getElem? ((List.getElem?_set_ne same).trans hx'), hold'⟩
    have finished : ResumeHandle.holds { x with phase := .finished } = false := rfl
    rw [finished, Bool.toNat_true, Bool.toNat_false] at counted
    omega

/-- Something leaves the dialogue alone, and one of the handles has changed. -/
theorem Passes.of_handle {k : Nat} {x y : ResumeHandle Continuation} (hx : s.handles[k]? = some x)
    (same : y.continuation = x.continuation) (fewer : y.holds = true → x.holds = true)
    (items : List Item) (outside : ∀ i ∈ items, i.isOutside = true)
    (hands : y.holds.toNat + owing items = x.holds.toNat) :
    Passes 0 s { s with handles := s.handles.set k y, agenda := items ++ s.agenda } where
  engine := rfl
  held := rfl
  running := rfl
  offer := rfl
  line none := ⟨rfl, .inl none⟩
  stored _ hk := .inl hk
  kept j z hz := by
    by_cases hj : k = j
    · subst hj
      obtain rfl := Option.some.inj (hx.symm.trans hz)
      exact ⟨y, List.getElem?_set_self (List.getElem?_eq_some_iff.1 hx).1, same⟩
    · exact ⟨z, (List.getElem?_set_ne hj).trans hz, rfl⟩
  holds j z hz hold := by
    by_cases hj : k = j
    · subst hj
      rw [List.getElem?_set_self (List.getElem?_eq_some_iff.1 hx).1] at hz
      cases hz
      exact .inl ⟨x, hx, fewer hold⟩
    · exact .inl ⟨z, (List.getElem?_set_ne hj).symm.trans hz, hold⟩
  puts := by
    refine ⟨items, fun i hi => .inl (outside i hi), rfl, ?_⟩
    have counted := countP_holds_set hx y
    simp only [booked]
    omega

end

/-! ### Items -/

section

variable {s : Session} {p : Progress}

attribute [local simp] Item.isOutside Item.stake

theorem outside_tellViews (s : Session) (n : ViewNotice) :
    ∀ i ∈ s.tellViews n, i.isOutside = true := forall_mem_tellViews fun _ => rfl

theorem owing_tellViews (s : Session) (n : ViewNotice) : owing (s.tellViews n) = 0 :=
  owing_eq_zero (forall_mem_tellViews fun _ => rfl)

theorem outside_dismissal (line : LocalizedLine) (n : Nat) :
    ∀ i ∈ s.dismissal line n, i.isOutside = true :=
  forall_mem_tellViews_append (fun _ => rfl) (by simp)

theorem owing_dismissal (line : LocalizedLine) (n : Nat) : owing (s.dismissal line n) = 0 := by
  simp [dismissal, owing_tellViews]

theorem passes_present (line : LocalizedLine) (free : s.dialogue.line = none) :
    Passes 1 s (s.present line).1 where
  engine := rfl
  held := rfl
  running := rfl
  offer := rfl
  line none := by cases none
  stored _ hk := .inl hk
  kept _ x hx := ⟨x, hx, rfl⟩
  holds _ x hx hold := .inl ⟨x, hx, hold⟩
  puts := by
    refine ⟨[.broadcast .showing _ _], by simp, rfl, ?_⟩
    simp only [present, booked, push, withDialogue, Dialogue.present, free, owing_cons, owing_nil,
      Item.stake, Option.isSome_some, Option.isSome_none, Bool.toNat_true, Bool.toNat_false]
    omega

/-- When a line is gone the engine is asked to go on. -/
theorem passes_lineGone (present : s.dialogue.line.isSome = true) :
    Passes 0 s (((s.push [.lease]).withDialogue { s.dialogue with line := none }).push
      [.continueEngine (.line s.dialogue.lineSerial)]) where
  engine := rfl
  held := rfl
  running := rfl
  offer := rfl
  line _ := ⟨rfl, .inr List.mem_cons_self⟩
  stored _ hk := .inl hk
  kept _ x hx := ⟨x, hx, rfl⟩
  holds _ x hx hold := .inl ⟨x, hx, hold⟩
  puts := by
    refine ⟨[.continueEngine (.line s.dialogue.lineSerial), .lease], by simp, rfl, ?_⟩
    simp [booked, push, withDialogue, present]
    omega

theorem Unpauses.passes {k : Nat} (unpauses : Unpauses s k p) (own : OwnHandles s.handles) :
    Passes 0 s p.1 := by
  cases unpauses with
  | unknown => exact .refl s
  | @resumed x hx =>
    refine .of_handle hx x.resume_continuation ?_ _ (forall_mem_resumption (fun _ => rfl) _) ?_
    · unfold ResumeHandle.resume ResumeHandle.holds
      cases hp : x.phase <;> simp [hp]
    · -- a continuation that is run takes over the stake of the handle
      rcases own k x hx with hc | ⟨key, hc⟩ <;> cases hp : x.phase <;>
        simp [resumption, ResumeHandle.resume, ResumeHandle.holds, hp, hc, Continuation.isCommand]

theorem Spawns.passes {k : Nat} (spawns : Spawns s k p) (own : OwnHandles s.handles) :
    Passes 0 s p.1 := by
  cases spawns with
  | spawned => exact .refl s
  | resumes _ unpauses => exact unpauses.passes own

/-- The outcome of a command that the host has dispatched is a reply. -/
theorem afterCall_passes (s : Session) (name : String) (k : Nat)
    (aside : ∀ x, s.handles[k]? = some x → x.continuation.isCommand = false) :
    Passes 0 s (s.afterCall name k .reply).1 := by
  have works := s.afterCall_works name k .reply
  generalize s.afterCall name k .reply = p at works ⊢
  cases works with
  | idle => exact .refl s
  | @afterCall _ _ _ x hx =>
    have off (y : ResumeHandle Continuation) (same : y.continuation = x.continuation) :
        y.holds = false := by simp [ResumeHandle.holds, same, aside x hx]
    exact .of_handle hx x.arm_continuation (by simp [off]) [_] (by simp) (by simp [off])

/-- Doing an item that has nothing to do with the engine hands its stake on. -/
theorem Works.passes {i : Item} (works : Works s i p) (outside : i.isOutside = true)
    (quiet : ∀ c, i ≠ .continueEngine c) (own : s.held = true) (handles : OwnHandles s.handles)
    (free : ∀ line offer, i = .present line offer → s.dialogue.line = none)
    (present : i = .resume (.lineGone s.dialogue.lineSerial) → s.dialogue.line.isSome = true) :
    Passes i.stake s p.1 := by
  cases works with
  | idle idles =>
    cases idles with
    | continueEngine c => exact absurd rfl (quiet c)
    | resume _ gone => simp [exists?, own] at gone
    | turn | finish | afterCall => cases outside
    | _ => exact .refl s
  | tell | callNext | resumeHost | commandDone => exact .push s (by simp) rfl
  | reply | outcome => exact .refl s
  | continueScript c | continueHost c => exact absurd rfl (quiet c)
  | turn | chooseOption | line | options | command | nodeStart | nodeEnd | dialogueEnd | finish
  | afterCall | outcomeOf => cases outside
  | conclude concludes =>
    cases concludes with
    | host => exact .refl s
    | engine | nobody => cases outside
  | present line offer => exact passes_present line (free line offer rfl)
  | immediate b n line =>
    refine .of_items [.resume (b.continuation n)] (by simp) rfl rfl rfl rfl rfl rfl ?_ rfl rfl ?_
    · simp [push, withDialogue]
    · cases b <;> rfl
  | waiting b n line =>
    refine .of_items [.rest b n line _ _] (by simp) rfl rfl rfl rfl rfl rfl (fun k hk => ?_) rfl rfl
      rfl
    cases hk
    exact .inr (by cases b <;> rfl)
  | @lineShown n here d shown delivers =>
    obtain ⟨-, line, hl, -, rfl⟩ := Dialogue.deliver?_eq_some delivers
    have leased : ∀ i ∈ [Item.lease], i.isOutside = true := by simp
    refine .of_push leased rfl (.of_items _ (forall_mem_tellViews_append (fun _ => rfl) ?_) rfl rfl
      rfl rfl (by simp [push, withDialogue, hl]) rfl (fun _ hk => .inl hk) rfl rfl ?_)
    · split <;> simp
    · rw [owing_append, owing_tellViews]
      split <;> rfl
  | lineGone here dismisses =>
    obtain ⟨rfl, rfl⟩ := Dialogue.dismiss?_eq_some dismisses
    exact passes_lineGone (present rfl)
  | stale here old =>
    have passes : Passes 0 s (s.push [.lease]) := .push s (by simp) rfl
    rcases old with ⟨n, rfl, -⟩ | ⟨n, rfl, -⟩ <;> exact passes
  | closeLine closes =>
    obtain ⟨rfl, line, hl, -, rfl⟩ := Dialogue.closeLine?_eq_some closes
    exact .of_items _ (outside_dismissal _ _) rfl rfl rfl rfl
      (by simp [push, withDialogue, hl]) rfl (fun _ hk => .inl hk) rfl rfl (owing_dismissal _ _)
  | resumeWhenDone spawns => exact spawns.passes handles

/-- A command that the host dispatches does not concern the script. -/
theorem Dispatches.passes {c : Command} {key : HostKey}
    (dispatches : Dispatches s c (fun _ => .host key) .reply p) : Passes 0 s p.1 := by
  -- the handle of one that may pause is the host's own
  have pausing (n : Notice) (name : String) (task : List Item)
      (tasks : ∀ i ∈ task, i = .resumeWhenDone s.handles.length) :
      Passes 0 s ({ s with
        handles := s.handles ++ [ResumeHandle.fresh name (Continuation.host key)] }.push
        (Item.tell n :: task ++ [Item.afterCall name s.handles.length .reply])) := by
    have fresh : (ResumeHandle.fresh name (Continuation.host key)).holds = false := rfl
    have outside : ∀ i ∈ task, i.isOutside = true ∧ i.stake = 0 := by
      intro i hi
      obtain rfl := tasks i hi
      exact ⟨rfl, rfl⟩
    exact
      { engine := rfl
        held := rfl
        running := rfl
        offer := rfl
        line := fun none => ⟨rfl, .inl none⟩
        stored := fun _ hk => .inl hk
        kept := fun j x hx =>
          ⟨x, (List.getElem?_append_left (List.getElem?_eq_some_iff.1 hx).1).trans hx, rfl⟩
        holds := fun j x hx hold => .inl ⟨x, ResumeHandle.getElem?_of_holds fresh hx hold, hold⟩
        puts := by
          refine ⟨_, ?_, rfl, ?_⟩
          · rw [List.forall_mem_append, List.forall_mem_cons, List.forall_mem_singleton]
            exact ⟨⟨.inl rfl, fun i hi => .inl (outside i hi).1⟩,
              .inr ⟨name, _, _, rfl, List.getElem?_concat_length, rfl⟩⟩
          · rw [owing_append, owing_cons, owing_eq_zero fun i hi => (outside i hi).2]
            simp [booked, push, fresh] }
  cases dispatches with
  | handler | method | refused | unhandled | unheard => exact .push s (by simp) rfl
  | pausingHandler => exact pausing _ _ [] (by simp)
  | @pausingMethod m =>
    refine pausing _ m.name (if m.kind = .task then [.resumeWhenDone s.handles.length] else []) ?_
    split <;> simp

/-- A request that has nothing to do with the engine hands the stake on. A token that is completed
lets no script go on: the barrier keeps no such continuation. -/
theorem Requests.passes {c : Call} (requests : Requests s c p) (outside : c.isOutside = true)
    (handles : OwnHandles s.handles)
    (lines : ∀ k, s.dialogue.barrier.stored = some k → k.isCommand = false) : Passes 0 s p.1 := by
  have aside {s' : Session} (engine : s'.engine = s.engine) (held : s'.held = s.held)
      (dialogue : s'.dialogue = s.dialogue) (handles : s'.handles = s.handles)
      (agenda : s'.agenda = s.agenda) : Passes 0 s s' :=
    .of_items [] (by simp) engine held (by rw [dialogue]) (by rw [dialogue]) (by rw [dialogue])
      (by rw [dialogue]) (fun _ hk => .inl (dialogue ▸ hk)) handles agenda rfl
  cases requests with
  | declined => exact .refl s
  | interrupt proceeds =>
    obtain ⟨-, line, hl, interrupt, -, -⟩ := Dialogue.proceed?_eq_some proceeds
    obtain ⟨-, rfl⟩ := interrupt rfl
    exact .of_items _ (forall_mem_tellViews_append (fun _ => rfl) (by simp)) rfl rfl rfl rfl
      (by simp [push, withDialogue, hl]) rfl (fun _ hk => .inl hk) rfl rfl
      (by rw [owing_append, owing_tellViews]; rfl)
  | dismiss proceeds =>
    obtain ⟨-, line, hl, -, dismiss, -⟩ := Dialogue.proceed?_eq_some proceeds
    obtain ⟨-, rfl⟩ := dismiss rfl
    exact .of_items _ (List.forall_mem_append.2 ⟨outside_dismissal _ _, by simp⟩) rfl rfl rfl rfl
      (by simp [push, withDialogue, hl]) rfl (fun _ hk => .inl hk) rfl rfl
      (by rw [owing_append, owing_dismissal]; rfl)
  | @complete t here barrier k rs completes =>
    have cases := s.dialogue.barrier.complete_cases t
    rw [completes] at cases
    obtain ⟨-, rfl, rfl⟩ | ⟨-, -, rfl, rfl⟩ | ⟨-, -, rfl, rfl⟩ := cases
    · exact .push s (by simp [resumption]) rfl
    · exact .of_items [.reply .done] (by simp) rfl rfl rfl rfl rfl rfl (fun _ hk => .inl hk) rfl rfl
        rfl
    · refine .of_items (resumption s.dialogue.barrier.stored ++ [.reply .done]) ?_ rfl rfl rfl rfl
        rfl rfl (by simp [push, withDialogue]) rfl rfl ?_
      · exact List.forall_mem_append.2 ⟨forall_mem_resumption (fun _ => rfl) _, by simp⟩
      · cases stored : s.dialogue.barrier.stored with
        | none => rfl
        | some k =>
          have line := lines k stored
          cases k with
          | commandDone => cases line
          | lineShown | lineGone | host => rfl
  | resume unpauses => exact .of_push (by simp) rfl (unpauses.passes handles)
  | resumeWhenDone spawns => exact .of_push (by simp) rfl (spawns.passes handles)
  | dispatch dispatches => exact .of_push (by simp) rfl dispatches.passes
  | function => exact .push s (by simp) rfl
  | register | addFunction | setVariable | unregister | listen | removeFunction | clearVariables
  | resolveWith => exact aside rfl rfl rfl rfl rfl
  | start | stopEmpty | stopScript | stopHost | deliver | select => cases outside
  | continueEngine | chooseOption | place | stopEngine | bind | attach | detach | release =>
    cases outside

end

end Session

end Prompter
