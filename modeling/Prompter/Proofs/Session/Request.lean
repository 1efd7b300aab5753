import Prompter.Proofs.Session.Work

/-!
# Prompter.Proofs.Session.Request

What can come of a request of the host.

`Requests` has one constructor for each way in which a request can be met, and `Declines` one for
each reason why nothing comes of it.
-/

namespace Prompter.Session

/-- Why a request leaves the session as it is, and what the host is told then. -/
inductive Declines (s : Session) : Call → List Output → Prop
  | unnamed {node : Option String} (unnamed : node.or s.dialogue.settings.startNode = none)
      (e : DialogueError) : Declines s (.start node) [.reply (.failed e)]
  | unstartable {node : Option String} {name : String}
      (named : node.or s.dialogue.settings.startNode = some name) {e : DialogueError}
      (cannot : s.dialogue.startError? s.storage.isSome (s.hasNode name) name = some e)
      (rs : List Remark) : Declines s (.start node) (remarks rs ++ [.reply (.failed e)])
  /-- The host's engine does not go to the start of the node. -/
  | unplaced {node : Option String} {name : String}
      (named : node.or s.dialogue.settings.startNode = some name)
      (can : s.dialogue.startError? s.storage.isSome (s.hasNode name) name = none)
      {x : HostEngine} (seat : s.engine = .host x) {e : DialogueError}
      (refuses : x.refusal name = some e) :
      Declines s (.start node) [.bound, .placed name, .reply (.failed e)]
  | stop (ended : s.dialogue.running = false) : Declines s .stop [.reply .done]
  | proceed (nothing : s.dialogue.proceed? = none) (e : DialogueError) (rs : List Remark) :
      Declines s .proceed (remarks rs ++ [.reply (.failed e)])
  /-- The line has already ended. -/
  | ignored {line : LocalizedLine}
      (ignores : s.dialogue.proceed? = some (s.dialogue, line, .ignored)) (rs : List Remark) :
      Declines s .proceed (remarks rs ++ [.reply .done])
  | vanished {n : Nat} {id : OptionId} (gone : s.exists? = false) (e : DialogueError) :
      Declines s (.select n id) [.reply (.failed e)]
  | select {n : Nat} {id : OptionId} {e : DialogueError}
      (refuses : s.dialogue.choose n id = .error e) (rs : List Remark) :
      Declines s (.select n id) (remarks rs ++ [.reply (.failed e)])
  | complete {t : Token} (gone : s.exists? = false) : Declines s (.complete t) [.reply .done]
  | function {name : String} {args : List Value} {rs : List Remark}
      (unknown : s.functions.find? name args.length = (none, rs)) :
      Declines s (.function name args) (remarks rs ++ [.reply (.value none)])
  | place {node : String} {e : Engine} (seat : s.engine = .script e) {err : DialogueError}
      (refuses : e.place node = .error err) : Declines s (.place node) [.reply (.failed err)]
  /-- There is no engine that runs a script. -/
  | unseated {c : Call} (concerns : c = .stopEngine ∨ c = .bind ∨ (∃ node, c = .place node) ∨
        (∃ l, c = .attach l) ∨ ∃ key, c = .detach key)
      (other : ∀ e, s.engine ≠ .script e) : Declines s c [.reply .done]
  | detach {key : HostKey} {e : Engine} (seat : s.engine = .script e)
      (other : e.listener ≠ some (.host key)) : Declines s (.detach key) [.reply .done]
  | register {name : String} {h : Handler} {e : CommandError} {rs : List Remark}
      (refuses : s.commands.handlers.register name h = (.error e, rs)) :
      Declines s (.register name h) (remarks rs ++ [.reply (.refused e)])
  | addFunction {name : String} {f : ScriptFunction} {e : CommandError} {rs : List Remark}
      (refuses : s.functions.register name f = (.error e, rs)) :
      Declines s (.addFunction name f) (remarks rs ++ [.reply (.refused e)])
  | unstored {name : String} {v : Value} (nowhere : s.storage = none) :
      Declines s (.setVariable name v) [.reply .done]
  | setVariable {name : String} {v : Value} {vs : Variables} (stored : s.storage = some vs)
      {e : DialogueError} (refuses : vs.set name v = .error e) :
      Declines s (.setVariable name v) [.reply (.failed e)]

/-- How the engine is put at the start of a node, and what the host is told then. -/
inductive Places (s : Session) (node : String) : EngineSeat → List Output → Prop
  | script {e e' : Engine} (seat : s.engine = .script e)
      (placed : { e with bound := true }.place node = .ok e') : Places s node (.script e') []
  | host {x : HostEngine} (seat : s.engine = .host x) (goes : x.refusal node = none) :
      Places s node (.host x) [.bound, .placed node]

/-- What comes of a request. -/
inductive Requests (s : Session) : Call → Progress → Prop
  | declined {c : Call} {outputs : List Output} (declines : Declines s c outputs) :
      Requests s c (s, outputs)
  | start {node : Option String} {name : String}
      (named : node.or s.dialogue.settings.startNode = some name)
      (can : s.dialogue.startError? s.storage.isSome (s.hasNode name) name = none)
      {seat : EngineSeat} {outputs : List Output} (places : Places s name seat outputs)
      (rs : List Remark) :
      Requests s (.start node)
        (({ s with engine := seat }.withDialogue { s.dialogue with running := true }).push
          (s.tellViews .opened ++ [Item.continueEngine .start, .lease, .reply .done]),
          outputs ++ remarks rs)
  | stopEmpty (running : s.dialogue.running = true) (seat : s.engine = .empty) :
      Requests s .stop (s.push [.finish, .lease, .reply .done], [])
  | stopScript (running : s.dialogue.running = true) {e : Engine} (seat : s.engine = .script e) :
      Requests s .stop
        ({ s with engine := .script e.stop.1 }.push [.finish, .lease, .reply .done],
          remarks e.stop.2)
  | stopHost (running : s.dialogue.running = true) {x : HostEngine} (seat : s.engine = .host x) :
      Requests s .stop (s.push [.tell .engineStop, .finish, .lease, .reply .done], [])
  | interrupt {d : Dialogue} {line : LocalizedLine}
      (proceeds : s.dialogue.proceed? = some (d, line, .interrupt)) (rs : List Remark) :
      Requests s .proceed
        ((s.withDialogue d).push
          (s.tellViews (.lineStatus d.lineSerial line) ++ [.lease, .reply .done]), remarks rs)
  | dismiss {d : Dialogue} {line : LocalizedLine}
      (proceeds : s.dialogue.proceed? = some (d, line, .dismiss)) (rs : List Remark) :
      Requests s .proceed
        ((s.withDialogue d).push (s.dismissal line d.lineSerial ++ [.lease, .reply .done]),
          remarks rs)
  | deliver (e : Event) : Requests s (.deliver e) (s.push [.hear .host e, .lease], [])
  | select {n : Nat} {id : OptionId} (here : s.exists? = true) {d : Dialogue}
      {o : LocalizedOption} (chooses : s.dialogue.choose n id = .ok (d, o)) (rs : List Remark) :
      Requests s (.select n id)
        ((s.withDialogue d).push
          [.chooseOption n id,
            if d.settings.echoChoice then .present o.line (some n) else .continueEngine (.offer n),
            .lease, .reply .done], remarks rs)
  | complete {t : Token} (here : s.exists? = true) {barrier : Barrier Continuation}
      {k : Option Continuation} {rs : List Remark}
      (completes : s.dialogue.barrier.complete t = (barrier, k, rs)) :
      Requests s (.complete t)
        ((s.withDialogue { s.dialogue with barrier := barrier }).push
          (resumption k ++ [.reply .done]), remarks rs)
  | resume {k : Nat} {p : Progress} (unpauses : Unpauses (s.push [.reply .done]) k p) :
      Requests s (.resume k) p
  | resumeWhenDone {k : Nat} {p : Progress} (spawns : Spawns (s.push [.reply .done]) k p) :
      Requests s (.resumeWhenDone k) p
  | dispatch {c : Command} {key : HostKey} {p : Progress}
      (dispatches : Dispatches (s.push [.lease]) c (fun _ => .host key) .reply p) :
      Requests s (.dispatch c key) p
  | function {name : String} {args : List Value} {f : ScriptFunction} {rs : List Remark}
      (found : s.functions.find? name args.length = (some f, rs)) :
      Requests s (.function name args) (s.push [.invoke f.key args .host], remarks rs)
  | continueEngine :
      Requests s .continueEngine (s.push [.continueEngine .host, .reply .done], [])
  | chooseOption {id : OptionId} {p : Progress} (chooses : Chooses (s.push [.reply .done]) id p) :
      Requests s (.chooseOption id) p
  | place {node : String} {e e' : Engine} (seat : s.engine = .script e)
      (placed : e.place node = .ok e') :
      Requests s (.place node) ({ s with engine := .script e' }, [.reply .done])
  | stopEngine {e : Engine} (seat : s.engine = .script e) :
      Requests s .stopEngine
        ({ s with engine := .script e.stop.1 }, remarks e.stop.2 ++ [.reply .done])
  | bind {e : Engine} (seat : s.engine = .script e) :
      Requests s .bind ({ s with engine := .script { e with bound := true } }, [.reply .done])
  | attach (l : Listener) {e : Engine} (seat : s.engine = .script e) :
      Requests s (.attach l)
        ({ s with engine := .script { e with listener := some l } }, [.reply .done])
  | detach {key : HostKey} {e : Engine} (seat : s.engine = .script e)
      (hears : e.listener = some (.host key)) :
      Requests s (.detach key)
        ({ s with engine := .script { e with listener := none } }, [.reply .done])
  | release : Requests s .release ({ s with held := false }, [.reply .done])
  | register {name : String} {h : Handler} {handlers : HandlerTable} {rs : List Remark}
      (takes : s.commands.handlers.register name h = (.ok handlers, rs)) :
      Requests s (.register name h)
        ({ s with commands.handlers := handlers }, remarks rs ++ [.reply .done])
  | unregister (name : String) (rs : List Remark) :
      Requests s (.unregister name)
        ({ s with commands.handlers := (s.commands.handlers.unregister name).1 },
          remarks rs ++ [.reply .done])
  | listen (key : HostKey) :
      Requests s (.listen key) ({ s with unhandled := some key }, [.reply .done])
  | addFunction {name : String} {f : ScriptFunction} {functions : FunctionTable}
      {rs : List Remark} (takes : s.functions.register name f = (.ok functions, rs)) :
      Requests s (.addFunction name f)
        ({ s with functions := functions }, remarks rs ++ [.reply .done])
  | removeFunction (name : String) :
      Requests s (.removeFunction name)
        ({ s with functions := s.functions.unregister name }, [.reply .done])
  | setVariable {name : String} {v : Value} {vs vs' : Variables} (stored : s.storage = some vs)
      (sets : vs.set name v = .ok vs') :
      Requests s (.setVariable name v) ({ s with storage := some vs' }, [.reply .done])
  | clearVariables :
      Requests s .clearVariables ({ s with storage := s.storage.map fun _ => {} }, [.reply .done])
  | resolveWith (r : EntityResolver) :
      Requests s (.resolveWith r) ({ s with commands.resolver := some r }, [.reply .done])

section

variable (s : Session)

theorem start_requests (node : Option String) : Requests s (.start node) (s.start node) := by
  unfold start
  split
  · next name named =>
    unfold startAt
    split
    · next cannot => exact .declined (.unstartable named cannot [_])
    · next can =>
      unfold bindAndPlace
      cases seat : s.engine with
      | empty =>
        -- then there is no node to start at
        have known := (Dialogue.startError?_eq_none.1 can).2.2.2
        simp [hasNode, seat] at known
      | script e =>
        have known : e.hasNode name = true := by
          simpa [hasNode, seat] using (Dialogue.startError?_eq_none.1 can).2.2.2
        have placed := Engine.place_eq_ok (e := { e with bound := true }).2 ⟨known, rfl⟩
        simp only [placed]
        exact .start named can (.script seat placed) [_]
      | host x =>
        dsimp only
        cases goes : x.refusal name with
        | some e => exact .declined (.unplaced named can seat goes)
        | none =>
          have places : Places s name s.engine [.bound, .placed name] := by
            rw [seat]
            exact .host seat goes
          exact .start named can places [_]
  · next unnamed => exact .declined (.unnamed unnamed _)

/-- A dialogue that can be started runs, with its engine at the start of the node. -/
theorem call_start_eq {e : Engine} (he : s.engine = .script e) {node : Option String}
    {name : String} (named : node.or s.dialogue.settings.startNode = some name)
    (can : s.dialogue.startError? s.storage.isSome (s.hasNode name) name = none) :
    (s.call (.start node)).1 = { s with
      engine := .script ({ e with bound := true, choices := none, selected := none }.enter name)
      dialogue.running := true
      agenda := s.tellViews .opened ++ [.continueEngine .start, .lease, .reply .done] ++
        s.agenda } := by
  have known : e.hasNode name = true := by
    simpa [hasNode, he] using (Dialogue.startError?_eq_none.1 can).2.2.2
  have placed := Engine.place_eq_ok (e := { e with bound := true }).2 ⟨known, rfl⟩
  simp only [call, start, named, startAt, can, bindAndPlace, he, placed]
  rfl

theorem stop_requests : Requests s .stop s.stop := by
  unfold stop
  split
  · next running =>
    dsimp only
    split
    · next seat => exact .stopEmpty running seat
    · next seat => exact .stopScript running seat
    · next seat => exact .stopHost running seat
  · next ended => exact .declined (.stop (by simpa using ended))

theorem proceed_requests : Requests s .proceed s.proceed := by
  unfold proceed
  split
  · next nothing => exact .declined (.proceed nothing _ [_])
  · next d line effect proceeds =>
    obtain ⟨-, line', -, interrupts, dismisses, ignores⟩ := Dialogue.proceed?_eq_some proceeds
    dsimp only
    cases effect with
    | interrupt =>
      obtain ⟨-, rfl⟩ := interrupts rfl
      exact .interrupt proceeds [_]
    | dismiss =>
      obtain ⟨-, rfl⟩ := dismisses rfl
      exact .dismiss proceeds [_]
    | ignored =>
      obtain rfl := ignores rfl
      exact .declined (.ignored proceeds [_])

theorem select_requests (n : Nat) (id : OptionId) : Requests s (.select n id) (s.select n id) := by
  unfold select
  split
  · next gone => exact .declined (.vanished (by simpa using gone) _)
  · next here =>
    split
    · next refuses => exact .declined (.select refuses [_])
    · next chooses => exact .select (by simpa using here) chooses [_]

theorem complete_requests (t : Token) : Requests s (.complete t) (s.complete t) := by
  unfold complete
  split
  · next gone => exact .declined (.complete (by simpa using gone))
  · next here => exact .complete (by simpa using here) rfl

theorem mapEngine_of_other (other : ∀ e, s.engine ≠ .script e) (f : Engine → Engine) :
    s.mapEngine f = s := by
  unfold mapEngine
  split
  · next seat => exact absurd seat (other _)
  · rfl

/-- A request comes to one of the things listed. -/
theorem call_requests (c : Call) : Requests s c (s.call c) := by
  cases c with
  | start node => exact s.start_requests node
  | stop => exact s.stop_requests
  | proceed => exact s.proceed_requests
  | deliver e => exact .deliver e
  | select n id => exact s.select_requests n id
  | complete t => exact s.complete_requests t
  | resume k => exact .resume (resumeHandle_unpauses _ k)
  | resumeWhenDone k => exact .resumeWhenDone (resumeWhenDone_spawns _ k)
  | dispatch c key => exact .dispatch (dispatch_dispatches _ c _ _)
  | function name args =>
    simp only [call, callFunction]
    split
    · next unknown => exact .declined (.function unknown)
    · next found => exact .function found
  | continueEngine => exact .continueEngine
  | chooseOption id => exact .chooseOption (chooseOption_chooses _ id)
  | place node =>
    simp only [call, place]
    split
    · next seat =>
      split
      · next placed => exact .place seat placed
      · next refuses => exact .declined (.place seat refuses)
    · next other => exact .declined (.unseated (by simp) other)
  | stopEngine =>
    simp only [call, stopEngine]
    split
    · next seat => exact .stopEngine seat
    · next other => exact .declined (.unseated (by simp) other)
  | bind | attach l =>
    simp only [call]
    cases seat : s.engine with
    | script e =>
      simp only [mapEngine, seat]
      first | exact .bind seat | exact .attach l seat
    | empty | host =>
      rw [s.mapEngine_of_other (by simp [seat])]
      exact .declined (.unseated (by simp) (by simp [seat]))
  | detach key =>
    simp only [call, detach]
    cases seat : s.engine with
    | script e =>
      simp only [mapEngine, seat]
      split
      · next hears => exact .detach seat hears
      · next other =>
        rw [← seat]
        exact .declined (.detach seat other)
    | empty | host =>
      rw [s.mapEngine_of_other (by simp [seat])]
      exact .declined (.unseated (by simp) (by simp [seat]))
  | release => exact .release
  | register name h =>
    simp only [call]
    split
    · next takes => exact .register takes
    · next refuses => exact .declined (.register refuses)
  | unregister name => exact .unregister name _
  | listen key => exact .listen key
  | addFunction name f =>
    simp only [call]
    split
    · next takes => exact .addFunction takes
    · next refuses => exact .declined (.addFunction refuses)
  | removeFunction name => exact .removeFunction name
  | setVariable name v =>
    simp only [call]
    split
    · next nowhere => exact .declined (.unstored nowhere)
    · next stored =>
      split
      · next sets => exact .setVariable stored sets
      · next refuses => exact .declined (.setVariable stored refuses)
  | clearVariables => exact .clearVariables
  | resolveWith r => exact .resolveWith r

end

end Prompter.Session
