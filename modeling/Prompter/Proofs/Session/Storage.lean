import Prompter.Proofs.Engine.Demand
import Prompter.Proofs.Session.Assignment
import Prompter.Proofs.Session.Recital

/-!
# Prompter.Proofs.Session.Storage

The variables and the functions of a session, in any run of it.

Variables change only when the engine stores a value that it has evaluated, and at the request of
the host (`Happens.changes`). Functions are called only by the engine and at the request of the
host, and never with another number of arguments than they take (`Happens.calls`). So what is
stored has the name of a variable, and what is called fits, in every state that a session can get to
(`Run.accounted`).
-/

namespace Prompter

/-- Whether a function of the host is being called. -/
def Item.isInvoke : Item → Bool
  | .invoke _ _ _ => true
  | _ => false

/-- There is a function that takes as many arguments as are given. -/
def FunctionTable.Accepts (l : FunctionTable) (key : HostKey) (args : List Value) : Prop :=
  ∃ name, l.functions.find? name = some ⟨args.length, key⟩

/-- A variable is listed once. -/
theorem Variables.count_name (vs : Variables) {name : String} {v : Value}
    (found : vs.find? name = some v) : (vs.entries.map (·.1)).count name = 1 := by
  have distinct : (vs.entries.map (·.1)).Nodup := vs.values.nodup_names
  have listed : name ∈ vs.entries.map (·.1) :=
    List.mem_map.2 ⟨(name, v), Table.find?_eq_some.1 found, rfl⟩
  rw [distinct.count, if_pos listed]

namespace Session

/-- What can become of the variables when something happens. -/
inductive Changes (s : Session) : Mark → Option Variables → Prop
  | kept (m : Mark) : Changes s m s.storage
  /-- The engine stores a value that it has evaluated for a variable. -/
  | assigned {e : Engine} {name : String} {v : Value} {vs vs' : Variables}
      (engine : s.engine = .script e)
      (phase : e.phase = .evaluate (.assign name) (.result (.ok v)) [])
      (stored : s.storage = some vs) (set : vs.set name v = .ok vs') :
      Changes s (.did .turn) (some vs')
  /-- The host stores a value. -/
  | set {name : String} {v : Value} {vs vs' : Variables} (stored : s.storage = some vs)
      (set : vs.set name v = .ok vs') : Changes s (.call (.setVariable name v)) (some vs')
  /-- The host gives up all values. -/
  | cleared : Changes s (.call .clearVariables) (s.storage.map fun _ => {})

/-- A function is called with as many arguments as it takes. -/
inductive Invokes (s : Session) : Mark → HostKey → List Value → Caller → Prop
  | engine {key : HostKey} {args : List Value} (accepts : s.functions.Accepts key args) :
      Invokes s (.did .turn) key args .engine
  | host {name : String} {key : HostKey} {args : List Value}
      (found : s.functions.functions.find? name = some ⟨args.length, key⟩) :
      Invokes s (.call (.function name args)) key args .host

variable {allowed : Session → History → Call → Prop} {s₀ s s' : Session} {h : History} {m : Mark}

/-! ### Variables -/

theorem Retains.storage (retains : Retains s s') : s'.storage = s.storage :=
  congrArg Prod.fst retains.library

theorem Changes.of_kept {new : Option Variables} (kept : new = s.storage) : Changes s m new :=
  kept ▸ .kept m

theorem Changes.of_taken {rest : List Item} {new : Option Variables}
    (changes : Changes { s with agenda := rest } m new) : Changes s m new := by
  cases changes with
  | kept => exact .kept m
  | assigned engine phase stored set => exact .assigned engine phase stored set
  | set stored set => exact .set stored set
  | cleared => exact .cleared

/-- A turn stores what the engine asks it to, if there is storage. -/
theorem turn_storage {e : Engine} (he : s.engine = .script e) :
    s.turn.1.storage = s.storage.map (e.turn (s.surroundings e)).2.1.stored := by
  cases stored : s.storage with
  | some vs => exact congrArg Prod.fst (turn_library he stored)
  | none =>
    rcases ht : e.turn (s.surroundings e) with ⟨e', request, rs⟩
    simp only [turn, he, ht, push, store, stored, Option.map_none]
    cases request with
    | report l => cases l <;> rfl
    | _ => rfl

theorem turn_changes (s : Session) : Changes s (.did .turn) s.turn.1.storage := by
  cases he : s.engine with
  | empty | host =>
    refine .of_kept ?_
    simp only [turn, he]
  | script e =>
    have demands := e.turn_demands (s.surroundings e)
    rw [turn_storage he]
    generalize (e.turn (s.surroundings e)).2.1 = request at demands
    cases stored : s.storage with
    | none => exact .of_kept stored.symm
    | some vs =>
      cases request with
      | store name v =>
        cases demands with
        | plain plain => cases plain
        | store phase =>
          simp only [Option.map_some, Engine.Request.stored, Variables.assign]
          cases set : vs.set name v with
          | ok vs' => exact .assigned he phase stored set
          | error => exact .of_kept stored.symm
      | _ => exact .of_kept stored.symm

theorem Requests.changes {c : Call} {p : Progress} (requests : Requests s c p) :
    Changes s (.call c) p.1.storage := by
  cases requests with
  | setVariable stored sets => exact .set stored sets
  | clearVariables => exact .cleared
  | resume unpauses => exact .of_kept unpauses.retains.storage
  | resumeWhenDone spawns => exact .of_kept spawns.retains.storage
  | dispatch dispatches => exact .of_kept (by cases dispatches <;> rfl)
  | chooseOption chooses => exact .of_kept (by cases chooses <;> rfl)
  | _ => exact .kept _

/-- Variables change only when the engine has evaluated a value for one, or as the host asks. -/
theorem Happens.changes (happens : Happens s m s') : Changes s m s'.storage := by
  cases happens with
  | @work busy i rest top =>
    rw [step_eq_work busy top]
    by_cases turned : i = .turn
    · subst turned
      exact (turn_changes { s with agenda := rest }).of_taken
    · exact .of_kept ((work_works { s with agenda := rest } i).retains turned).storage
  | call word c => exact (call_requests s c).changes
  | answer x => exact .of_kept (s.answer_retains x).storage

/-- Whatever is stored under a name, it is that of a variable. -/
def NamesVariables (stored : Option Variables) : Prop :=
  ∀ vs name v, stored = some vs → vs.find? name = some v → Variables.isName name = true

theorem NamesVariables.set {vs vs' : Variables} {name : String} {v : Value}
    (names : NamesVariables (some vs)) (set : vs.set name v = .ok vs') :
    NamesVariables (some vs') := by
  rintro _ other v' ⟨⟩ found
  unfold Variables.set at set
  split at set
  · next named =>
    cases set
    rw [Variables.find?, Table.find?_insert] at found
    split at found
    · next same => exact same ▸ named
    · exact names vs other v' rfl found
  · cases set

/-- Nothing is ever stored under another name. -/
theorem Changes.names {new : Option Variables} (changes : Changes s m new)
    (names : NamesVariables s.storage) : NamesVariables new := by
  cases changes with
  | kept => exact names
  | assigned _ _ stored set | set stored set => exact (stored ▸ names).set set
  | cleared =>
    rintro vs name v cleared found
    obtain ⟨_, _, rfl⟩ := Option.map_eq_some_iff.1 cleared
    cases found

/-! ### Functions -/

/-- No function is called, and no call is over. -/
def SameCalls (s s' : Session) : Prop :=
  s'.agenda.filter Item.isInvoke = s.agenda.filter Item.isInvoke

theorem SameCalls.trans {s'' : Session} (first : SameCalls s s') (second : SameCalls s' s'') :
    SameCalls s s'' := Eq.trans second first

theorem SameCalls.of_items (items : List Item) (others : ∀ i ∈ items, i.isInvoke = false)
    (agenda : s'.agenda = items ++ s.agenda) : SameCalls s s' := by
  have none : items.filter Item.isInvoke = [] :=
    List.filter_eq_nil_iff.2 fun i hi => by simp [others i hi]
  rw [SameCalls, agenda, List.filter_append, none, List.nil_append]

section

attribute [local simp] Item.isInvoke

variable {p : Progress}

theorem Chooses.sameCalls {l : List Item} {id : OptionId} (chooses : Chooses (s.push l) id p)
    (others : ∀ i ∈ l, i.isInvoke = false) : SameCalls s p.1 := by
  cases chooses with
  | nobody | script => exact .of_items l others rfl
  | host => exact .of_items (_ :: l) (List.forall_mem_cons.2 ⟨rfl, others⟩) rfl

theorem Concludes.sameCalls {r : Reporter} {x : NextAction} (concludes : Concludes s r x p) :
    SameCalls s p.1 := by
  cases concludes with
  | host | nobody => rfl
  | engine => exact .of_items [.turn] (by simp) rfl

theorem Unpauses.sameCalls {l : List Item} {k : Nat} (unpauses : Unpauses (s.push l) k p)
    (others : ∀ i ∈ l, i.isInvoke = false) : SameCalls s p.1 := by
  cases unpauses with
  | unknown => exact .of_items l others rfl
  | resumed =>
    refine .of_items (_ ++ l) ?_ (List.append_assoc ..).symm
    exact List.forall_mem_append.2 ⟨forall_mem_resumption (fun _ => rfl) _, others⟩

theorem Spawns.sameCalls {l : List Item} {k : Nat} (spawns : Spawns (s.push l) k p)
    (others : ∀ i ∈ l, i.isInvoke = false) : SameCalls s p.1 := by
  cases spawns with
  | spawned => exact .of_items l others rfl
  | resumes _ unpauses => exact unpauses.sameCalls others

theorem Dispatches.sameCalls {c : Command} {k : Nat → Continuation} {use : OutcomeUse}
    (dispatches : Dispatches s c k use p) : SameCalls s p.1 := by
  cases dispatches with
  | handler | pausingHandler | method | refused | unhandled | unheard =>
    exact .of_items _ (by simp) rfl
  | pausingMethod =>
    refine .of_items _ ?_ rfl
    split <;> simp

/-- Only a turn of the engine calls functions. -/
theorem Works.sameCalls {i : Item} (works : Works s i p) (unturned : i ≠ .turn) :
    SameCalls s p.1 := by
  cases works with
  | idle | reply | outcome => rfl
  | turn => exact absurd rfl unturned
  | tell | continueHost | line | dialogueEnd | present | immediate | waiting | callNext | resumeHost
  | stale | commandDone | afterCall => exact .of_items _ (by simp) rfl
  | continueScript =>
    refine .of_items _ ?_ rfl
    split <;> simp
  | chooseOption n chooses => exact Chooses.sameCalls (l := []) chooses (by simp)
  | options | nodeStart | nodeEnd | closeLine =>
    exact .of_items _ (forall_mem_tellViews_append (fun _ => rfl) (by simp)) rfl
  | command dispatches => exact dispatches.sameCalls
  | conclude concludes | outcomeOf k concludes => exact concludes.sameCalls
  | lineShown =>
    have leased : SameCalls s (s.push [.lease]) := .of_items _ (by simp) rfl
    refine SameCalls.trans leased (.of_items _ (forall_mem_tellViews_append (fun _ => rfl) ?_) rfl)
    split <;> simp
  | lineGone => exact .of_items [_, .lease] (by simp) rfl
  | finish => exact .of_items _ (forall_mem_tellViews fun _ => rfl) rfl
  | resumeWhenDone spawns => exact Spawns.sameCalls (l := []) spawns (by simp)

/-- A request calls a function if it is one for that. -/
theorem Requests.sameCalls {c : Call} (requests : Requests s c p)
    (other : ∀ name args, c ≠ .function name args) : SameCalls s p.1 := by
  cases requests with
  | function => exact absurd rfl (other _ _)
  | stopEmpty | stopScript | stopHost | deliver | continueEngine => exact .of_items _ (by simp) rfl
  | start | interrupt =>
    exact .of_items _ (forall_mem_tellViews_append (fun _ => rfl) (by simp)) rfl
  | dismiss =>
    refine .of_items _ ?_ rfl
    exact List.forall_mem_append.2 ⟨forall_mem_tellViews_append (fun _ => rfl) (by simp), by simp⟩
  | select =>
    refine .of_items _ ?_ rfl
    split <;> simp
  | complete =>
    refine .of_items _ (List.forall_mem_append.2 ⟨?_, by simp⟩) rfl
    exact forall_mem_resumption (fun _ => rfl) _
  | resume unpauses => exact unpauses.sameCalls (by simp)
  | resumeWhenDone spawns => exact spawns.sameCalls (by simp)
  | dispatch dispatches =>
    have leased : SameCalls s (s.push [.lease]) := .of_items _ (by simp) rfl
    exact leased.trans dispatches.sameCalls
  | chooseOption chooses => exact chooses.sameCalls (by simp)
  | _ => rfl

end

section

variable {key : HostKey} {args : List Value} {caller : Caller}

theorem SameCalls.mem (same : SameCalls s s') (hi : .invoke key args caller ∈ s'.agenda) :
    .invoke key args caller ∈ s.agenda := by
  have among : .invoke key args caller ∈ s'.agenda.filter Item.isInvoke :=
    List.mem_filter.2 ⟨hi, rfl⟩
  rw [same] at among
  exact (List.mem_filter.1 among).1

theorem functions_of_bound {e : Engine} {library : Library}
    (bound : (s.surroundings e).library = some library) : library.functions = s.functions := by
  unfold surroundings at bound
  dsimp only at bound
  split at bound
  · obtain ⟨vs, -, rfl⟩ := Option.map_eq_some_iff.1 bound
    rfl
  · cases bound

theorem turn_calls (hi : .invoke key args caller ∈ s.turn.1.agenda) :
    .invoke key args caller ∈ s.agenda ∨ caller = .engine ∧ s.functions.Accepts key args := by
  cases he : s.engine with
  | empty | host =>
    simp only [turn, he] at hi
    exact .inl hi
  | script e =>
    obtain ⟨storage, shape⟩ := turn_shape he
    rw [shape] at hi
    refine (List.mem_append.1 hi).symm.imp_right fun new => ?_
    have demands := e.turn_demands (s.surroundings e)
    generalize (e.turn (s.surroundings e)).2.1 = request at demands new
    cases request with
    | again | rest | store => simp [requested] at new
    | report l => cases l <;> simp [requested] at new
    | invoke key' args' =>
      cases List.mem_singleton.1 new
      cases demands with
      | plain plain => cases plain
      | @invoke library function f _ bound found fits =>
        refine ⟨rfl, function, ?_⟩
        rw [functions_of_bound bound] at found
        rw [found, ← fits]

theorem answer_calls {x : Answer} (hi : .invoke key args caller ∈ (s.answer x).1.agenda) :
    .invoke key args caller ∈ s.agenda := by
  unfold answer at hi
  split at hi
  · next top => exact top ▸ List.mem_cons_of_mem _ hi
  · next rest x top =>
    have kept := (conclude_concludes { s with agenda := rest } .engine x).sameCalls
    exact top ▸ List.mem_cons_of_mem _ (kept.mem hi)
  · next rest v top =>
    rw [show (mapEngine _ _).agenda = _ from congrArg Ledger.agenda (mapEngine_ledger _)] at hi
    rcases List.mem_cons.1 hi with same | later
    · cases same
    · exact top ▸ List.mem_cons_of_mem _ later
  · next top => exact top ▸ List.mem_cons_of_mem _ hi
  · exact hi

/-- A function that is being called was being called before, or is called now. -/
theorem Happens.calls (happens : Happens s m s') (hi : .invoke key args caller ∈ s'.agenda) :
    .invoke key args caller ∈ s.agenda ∨ Invokes s m key args caller := by
  cases happens with
  | @work busy i rest top =>
    rw [step_eq_work busy top] at hi
    by_cases turned : i = .turn
    · subst turned
      rcases turn_calls (s := { s with agenda := rest }) hi with old | ⟨rfl, accepts⟩
      · exact .inl (top ▸ List.mem_cons_of_mem _ old)
      · exact .inr (.engine accepts)
    · have old := ((work_works { s with agenda := rest } i).sameCalls turned).mem hi
      exact .inl (top ▸ List.mem_cons_of_mem _ old)
  | call word c =>
    by_cases asks : ∃ name args', c = .function name args'
    · obtain ⟨name, args', rfl⟩ := asks
      simp only [Session.call, callFunction] at hi
      split at hi
      · exact .inl hi
      · next f rs found =>
        rcases List.mem_cons.1 hi with same | old
        · cases same
          obtain ⟨found, fits⟩ := FunctionTable.find?_eq_some.1 (congrArg Prod.fst found)
          exact .inr (.host (by rw [found, ← fits]))
        · exact .inl old
    · have same := (call_requests s c).sameCalls fun name args' same => asks ⟨name, args', same⟩
      exact .inl (same.mem hi)
  | answer x => exact .inl (answer_calls hi)

end

/-! ### Runs -/

theorem Run.happens {older : History} (r : Run allowed s₀ s h) (earlier : m :: older <:+ h) :
    Happens (after s₀ older) m (after s₀ (m :: older)) := by
  obtain ⟨newer, rfl⟩ := earlier
  obtain ⟨s', r'⟩ := r.earlier
  obtain ⟨s'', r'', happens⟩ := r'.last
  rwa [r'.after_eq, r''.after_eq]

/-- What is stored has the name of a variable. -/
theorem Run.names (r : Run allowed s₀ s h) (names : NamesVariables s₀.storage) :
    NamesVariables s.storage := by
  induction h generalizing s with
  | nil =>
    cases r
    exact names
  | cons m h ih =>
    obtain ⟨s', r', happens⟩ := r.last
    exact happens.changes.names (ih r')

/-- A function that is being called has been called with as many arguments as it takes. -/
theorem Run.invokes (r : Run allowed s₀ s h) (idle : ∀ i ∈ s₀.agenda, i.isInvoke = false)
    {key : HostKey} {args : List Value} {caller : Caller}
    (hi : .invoke key args caller ∈ s.agenda) :
    ∃ m older, m :: older <:+ h ∧ Invokes (after s₀ older) m key args caller := by
  induction h generalizing s with
  | nil =>
    cases r
    cases idle _ hi
  | cons m h ih =>
    obtain ⟨s', r', happens⟩ := r.last
    rcases happens.calls hi with old | new
    · obtain ⟨m', older, earlier, invokes⟩ := ih r' old
      exact ⟨m', older, earlier.trans (h.suffix_cons m), invokes⟩
    · exact ⟨m, h, List.suffix_rfl, r'.after_eq ▸ new⟩

/-- The variables and the functions of a session are in order, after what has happened. -/
structure Accounted (s₀ s : Session) (h : History) : Prop where
  /-- Every name under which something is stored starts with a dollar sign. -/
  named : ∀ vs name v, s.storage = some vs → vs.find? name = some v → ∃ rest, name = "$" ++ rest
  /-- The variables are listed in the order of their names, each of them once. -/
  listed : ∀ vs, s.storage = some vs → vs.entries.Pairwise (fun a b => a.1 < b.1) ∧
    (∀ name v, (name, v) ∈ vs.entries ↔ vs.find? name = some v) ∧
      ∀ name v, vs.find? name = some v → (vs.entries.map (·.1)).count name = 1
  /-- A function that is being called was called with as many arguments as it took then. -/
  fitting : ∀ key args caller, .invoke key args caller ∈ s.agenda →
    ∃ m older, m :: older <:+ h ∧ Invokes (after s₀ older) m key args caller
  /-- Variables have changed only where a value was assigned, or as the host asked. -/
  framed : ∀ m older, m :: older <:+ h →
    Changes (after s₀ older) m (after s₀ (m :: older)).storage

theorem Run.accounted (r : Run allowed s₀ s h) (names : NamesVariables s₀.storage)
    (idle : ∀ i ∈ s₀.agenda, i.isInvoke = false) : Accounted s₀ s h where
  named vs name v stored found := Variables.isName_iff.1 (r.names names vs name v stored found)
  listed vs _ := ⟨vs.values.sorted, fun _ _ => Table.find?_eq_some.symm, fun _ _ => vs.count_name⟩
  fitting _ _ _ hi := r.invokes idle hi
  framed _ _ earlier := (r.happens earlier).changes

/-- An expression has a value exactly if all variables in it are stored and all functions in it are
there and take as many arguments as they are given. An engine that evaluates it comes to this value,
if functions do nothing but answer, and stores nothing meanwhile. A set instruction stores the value
and changes no other variable, if a library is bound, there is a value and the name is that of a
variable; otherwise it changes nothing, and in any case the engine goes on with the next
instruction. And whatever a host does, the variables and the functions stay in order. -/
theorem run_assigns :
    (∀ (w : World) (vs : Variables) (x : Expression),
      ((∃ v, x.value w vs = .ok v) ↔ x.IsSupplied w vs) ∧
        (x.IsSupplied w vs → ∀ y : Expression, y.OccursIn x → ∃ v, y.value w vs = .ok v)) ∧
    (∀ (w : World) (s : Session) (e : Engine) (vs : Variables) (purpose : Engine.Purpose)
        (x : Expression), IsEvaluating w s e vs purpose x →
      ∃ stack, (Engine.Focus.result (x.value w vs)).isOver stack = true ∧
        GetsTo w (·.storage = s.storage) s
          { s with engine := .script (e.evaluating purpose (.result (x.value w vs)) stack) }) ∧
    (∀ (w : World) (s : Session) (e : Engine) (rest : List Item) (name : String) (x : Expression),
      IsDue s e rest (.set name x) → s.functions = w.functions →
        GetsTo w (fun s' => s'.storage = s.storage ∨ s'.storage = s.assigned w e name x) s
          { s with engine := .script e.passed, storage := s.assigned w e name x } ∧
        (∀ vs v, IsAssignable w s e name x vs v → ∃ vs', s.assigned w e name x = some vs' ∧
          ∀ other, vs'.find? other = if other = name then some v else vs.find? other) ∧
        ((∀ vs v, ¬ IsAssignable w s e name x vs v) → s.assigned w e name x = s.storage)) ∧
    ∀ (allowed : Session → History → Call → Prop) (s₀ s : Session) (h : History),
      Run allowed s₀ s h → NamesVariables s₀.storage → (∀ i ∈ s₀.agenda, i.isInvoke = false) →
        Accounted s₀ s h := by
  refine ⟨fun w vs x => ⟨Expression.exists_value_iff, fun supplied y inside => ?_⟩,
    fun w s e vs purpose x evaluating => evaluating.getsTo,
    fun w s e rest name x due same => ⟨due.sets same, fun vs v assignable => assignable.stores,
      assigned_eq_self⟩,
    fun allowed s₀ s h r names idle => r.accounted names idle⟩
  exact inside.exists_value supplied.exists_value

/-- A world with one function, which gives back its argument. -/
def echoing : World where
  functions := ⟨.ofList [("same", ⟨1, 0⟩)]⟩
  answer _ args := args.headD (.bool false)

def coins : Variables := ⟨.ofList [("$coins", .bool true)]⟩

/-- A call that gives back the value of a variable. -/
def sameCoins : Expression := .call "same" [.read "$coins"]

/-- An engine that is going to begin with a set instruction. -/
def purseEngine : Engine where
  script := ⟨.ofList [("A", [.set "$gold" sameCoins])]⟩
  node := some "A"
  nodeStarted := true
  bound := true
  listener := some (.host 0)
  phase := .step

def purse : Session where
  engine := .script purseEngine
  storage := some coins
  functions := echoing.functions
  agenda := [.turn]

/-- Where a variable is set to what a function gives back, the function is called, and the value is
stored. -/
theorem assigns_of_purse :
    (∃ v, (Expression.read "$coins").value echoing coins = .ok v) ∧
    (∃ e stack, IsEvaluating echoing purse.step.1 e coins (.assign "$gold") sameCoins ∧
      GetsTo echoing (·.storage = some coins) purse.step.1 { purse.step.1 with
        engine := .script (e.evaluating (.assign "$gold") (.result (.ok (.bool true))) stack) }) ∧
    (∃ vs', GetsTo echoing (fun s => s.storage = some coins ∨ s.storage = some vs') purse
        { purse with engine := .script purseEngine.passed, storage := some vs' } ∧
      vs'.find? "$gold" = some (.bool true) ∧ vs'.find? "$coins" = some (.bool true)) ∧
    ∃ s h, Run Undisturbed purse s h ∧ .invoke 0 [.bool true] .engine ∈ s.agenda ∧
      Accounted purse s h := by
  obtain ⟨evaluates, comes, sets, runs⟩ := run_assigns
  have value : sameCoins.value echoing coins = .ok (.bool true) := rfl
  have supplied := (evaluates echoing coins sameCoins).1.1 ⟨_, value⟩
  have due : IsDue purse purseEngine [] (.set "$gold" sameCoins) :=
    { engine := rfl, turn := rfl, phase := rfl, heard := rfl, free := rfl, started := rfl
      instruction := ⟨"A", rfl, by decide +kernel⟩ }
  obtain ⟨gets, stores, -⟩ := sets echoing purse purseEngine [] _ _ due rfl
  obtain ⟨vs', assigned, found⟩ :=
    stores coins (.bool true) ⟨rfl, rfl, value, "gold", by decide⟩
  have evaluating : IsEvaluating echoing purse.step.1 _ coins (.assign "$gold") sameCoins :=
    ⟨rfl, ⟨[], rfl⟩, rfl, rfl, rfl, rfl⟩
  obtain ⟨stack, -, reaches⟩ := comes _ _ _ _ _ _ evaluating
  have names : NamesVariables purse.storage := by
    rintro _ name v ⟨⟩ found
    have entries : coins.values.entries = [("$coins", .bool true)] := by decide +kernel
    have listed := Table.find?_eq_some.1 found
    rw [entries] at listed
    obtain ⟨rfl, -⟩ := Prod.mk.inj (List.mem_singleton.1 listed)
    decide
  have r : Run Undisturbed purse purse [] := .refl
  have r := r.works 9
  refine ⟨(evaluates echoing coins sameCoins).2 supplied _
      (.argument (List.mem_singleton_self _) .here),
    ⟨_, stack, evaluating, value ▸ reaches⟩, ⟨vs', assigned ▸ gets, by simp [found], ?_⟩,
    _, _, r, ?_, runs _ _ _ _ r names (by decide)⟩
  · rw [found, if_neg (by decide)]
    decide +kernel
  · exact List.mem_of_getElem? (i := 0) rfl

end Session

end Prompter
