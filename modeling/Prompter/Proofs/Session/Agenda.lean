import Prompter.Proofs.Session.Posting

/-!
# Prompter.Proofs.Session.Agenda

Where the items on the agenda of a session come from, and what becomes of them.

`Origin` says of a single item why it is put on the agenda. An item is taken off only to be done
(`Run.done`), and most items are done at once: they stand on the agenda only at its head
(`Run.prompt`). What waits below the head is the rest of what was begun before the host got the
word.
-/

namespace Prompter

/-- Whether an item is done as soon as it is due. -/
def Item.isPrompt : Item → Bool
  | .hear _ _ | .present _ none | .broadcast .showing _ _ => true
  | .resume _ | .continueEngine (.line _) => true
  | _ => false

namespace Session

variable {allowed : Session → History → Call → Prop} {s₀ s : Session} {h : History}

/-! ### Where an item comes from -/

/-- Why an item that is not put aside is put on the agenda. -/
inductive Origin (d : Dialogue) (hs : List (ResumeHandle Continuation)) : Mark → Item → Prop
  | opened (node : Option String) (v : Nat) (free : d.running = false) :
      Origin d hs (.call (.start node)) (.tell (.view v .opened))
  | stopping (running : d.running = true) : Origin d hs (.call .stop) .finish
  | deliver (event : Event) : Origin d hs (.call (.deliver event)) (.hear .host event)
  | report (event : Event) : Origin d hs (.did .turn) (.hear .engine event)
  | line (r : Reporter) (line : Line) (shown : LocalizedLine) :
      Origin d hs (.did (.hear r (.line line))) (.present shown none)
  | options (r : Reporter) (set : OptionSet) (options : List LocalizedOption) (v : Nat) :
      Origin d hs (.did (.hear r (.options set)))
        (.tell (.view v (.offerOptions options (d.offerSerial + 1))))
  | nodeStart (r : Reporter) (node : String) (v : Nat) :
      Origin d hs (.did (.hear r (.nodeStart node))) (.tell (.view v (.nodeStart node)))
  | nodeEnd (r : Reporter) (node : String) (v : Nat) :
      Origin d hs (.did (.hear r (.nodeEnd node))) (.tell (.view v (.nodeEnd node)))
  | dialogueEnd (r : Reporter) : Origin d hs (.did (.hear r .dialogueEnd)) .finish
  | finish (v : Nat) (hv : v ∈ d.views) (running : d.running = true) :
      Origin d hs (.did .finish) (.tell (.view v .dialogueEnd))
  | present (line shown : LocalizedLine) (offer : Option Nat) :
      Origin d hs (.did (.present line offer)) (.broadcast .showing (d.lineSerial + 1) shown)
  | immediate (b : LineBroadcast) (n : Nat) (line : LocalizedLine) :
      Origin d hs (.did (.broadcast b n line)) (.resume (b.continuation n))
  | waiting (b : LineBroadcast) (n : Nat) (line : LocalizedLine) :
      Origin d hs (.did (.broadcast b n line))
        (.rest b n line (d.barrier.generation + 1) d.views)
  | callNext (b : LineBroadcast) (n : Nat) (line : LocalizedLine) (v : Nat) (vs : List Nat) :
      Origin d hs (.did (.rest b n line d.barrier.generation (v :: vs)))
        (.tell (.view v (b.notice n line ⟨d.barrier.generation, v⟩)))
  | callRest (b : LineBroadcast) (n : Nat) (line : LocalizedLine) (v : Nat) (vs : List Nat) :
      Origin d hs (.did (.rest b n line d.barrier.generation (v :: vs)))
        (.rest b n line d.barrier.generation vs)
  | completed (t : Token) (k : Continuation) (stored : d.barrier.stored = some k) :
      Origin d hs (.call (.complete t)) (.resume k)
  | forwarded {m : Mark} (quiet : m.isAside d = true) (x : ResumeHandle Continuation)
      (hx : x ∈ hs) : Origin d hs m (.resume x.continuation)
  | status {m : Mark} (quiet : m.isAside d = true) (shown : LocalizedLine) (v : Nat)
      (ongoing : d.line.isSome = true) :
      Origin d hs m (.tell (.view v (.lineStatus d.lineSerial shown)))
  | closing {m : Mark} (quiet : m.isAside d = true) (ongoing : d.line.isSome = true) :
      Origin d hs m (.closeLine d.lineSerial)
  | removing {m : Mark} (quiet : m.isAside d = true) (shown : LocalizedLine)
      (ongoing : d.line.isSome = true) : Origin d hs m (.broadcast .removing d.lineSerial shown)
  | gone : Origin d hs (.did (.resume (.lineGone d.lineSerial)))
      (.continueEngine (.line d.lineSerial))
  | chosen (o : Offer) (id : OptionId) (line : LocalizedLine) (open_ : d.offer = some o) :
      Origin d hs (.call (.select o.serial id)) (.present line (some o.serial))

section

variable {d d' : Dialogue} {hs : List (ResumeHandle Continuation)} {m : Mark} {a items : List Item}

theorem mem_tells {views : List Nat} {n : ViewNotice} {i : Item} :
    i ∈ tells views n ↔ ∃ v ∈ views, i = .tell (.view v n) := by
  simp [tells, eq_comm]

theorem Post.origin (post : Post d hs m d' items) :
    ∀ i ∈ items, i.isAside = true ∨ Origin d hs m i := by
  have put {items : List Item} (others : ∀ i ∈ items, i.isAside = true) :
      ∀ i ∈ items, i.isAside = true ∨ Origin d hs m i := fun i hi => .inl (others i hi)
  have told {n : ViewNotice} (new : ∀ v ∈ d.views, Origin d hs m (.tell (.view v n)))
      {last : List Item} (below : ∀ i ∈ last, i.isAside = true ∨ Origin d hs m i) :
      ∀ i ∈ tells d.views n ++ last, i.isAside = true ∨ Origin d hs m i := by
    refine List.forall_mem_append.2 ⟨fun i hi => ?_, below⟩
    obtain ⟨v, hv, rfl⟩ := mem_tells.1 hi
    exact .inr (new v hv)
  cases post with
  | aside quiet items others => exact put others
  | opened node free =>
    exact told (fun v _ => .opened node v free) (put (by simp [Item.isAside]))
  | stopping running first others =>
    exact List.forall_mem_append.2 ⟨put others,
      List.forall_mem_cons.2 ⟨.inr (.stopping running), put (by simp [Item.isAside])⟩⟩
  | options r set options =>
    exact told (fun v _ => .options r set options v) (put (by simp [Item.isAside]))
  | nodeStart r node => exact told (fun v _ => .nodeStart r node v) (put (by simp [Item.isAside]))
  | nodeEnd r node => exact told (fun v _ => .nodeEnd r node v) (put (by simp [Item.isAside]))
  | finish running =>
    intro i hi
    obtain ⟨v, hv, rfl⟩ := mem_tells.1 hi
    exact .inr (.finish v hv running)
  | advanced quiet shown advances next goesOn last others =>
    have ongoing : d.line.isSome = true := by
      obtain ⟨line, hl, -⟩ := advances
      rw [hl]
      rfl
    refine told (fun v _ => .status quiet shown v ongoing)
      (List.forall_mem_append.2 ⟨fun i hi => .inr ?_, put others⟩)
    rcases goesOn i (Option.mem_toList.1 hi) with rfl | rfl
    · exact .closing quiet ongoing
    · exact .removing quiet shown ongoing
  | forwarded quiet x hx last others =>
    exact List.forall_mem_cons.2 ⟨.inr (.forwarded quiet x hx), put others⟩
  | completed t barrier k same due =>
    refine List.forall_mem_append.2 ⟨fun i hi => .inr ?_, put (by simp [Item.isAside])⟩
    obtain ⟨k', hk, rfl⟩ := mem_resumption.1 hi
    rcases due with ⟨rfl, -⟩ | ⟨rfl, -⟩
    · cases hk
    · exact .completed t k' hk
  | deliver event =>
    exact List.forall_mem_cons.2 ⟨.inr (.deliver event), put (by simp [Item.isAside])⟩
  | report event => exact List.forall_mem_singleton.2 (.inr (.report event))
  | line r line shown =>
    exact List.forall_mem_cons.2 ⟨.inr (.line r line shown), put (by simp [Item.isAside])⟩
  | dialogueEnd r =>
    exact List.forall_mem_cons.2 ⟨.inr (.dialogueEnd r), put (by simp [Item.isAside])⟩
  | present line shown offer =>
    exact List.forall_mem_singleton.2 (.inr (.present line shown offer))
  | immediate b n line => exact List.forall_mem_singleton.2 (.inr (.immediate b n line))
  | waiting b n line => exact List.forall_mem_singleton.2 (.inr (.waiting b n line))
  | callNext b n line v vs =>
    exact List.forall_mem_cons.2 ⟨.inr (.callNext b n line v vs),
      List.forall_mem_singleton.2 (.inr (.callRest b n line v vs))⟩
  | gone => exact List.forall_mem_cons.2 ⟨.inr .gone, put (by simp [Item.isAside])⟩
  | chosen o id open_ next goesOn =>
    refine List.forall_mem_cons.2 ⟨.inl rfl,
      List.forall_mem_cons.2 ⟨?_, put (by simp [Item.isAside])⟩⟩
    rcases goesOn with rfl | ⟨line, rfl⟩
    · exact .inl rfl
    · exact .inr (.chosen o id line open_)

/-- What happens opens an offer and puts it to the views, or opens none. -/
theorem Post.offers (post : Post d hs m d' items) :
    (∃ r set options, m = .did (.hear r (.options set)) ∧
      d'.offer = some ⟨d.offerSerial + 1, options⟩ ∧ d'.offerSerial = d.offerSerial + 1 ∧
      d'.views = d.views ∧
      items = tells d.views (.offerOptions options (d.offerSerial + 1)) ++ [.conclude r .wait]) ∨
    (d'.offer = d.offer ∨ d'.offer = none) ∧ d'.offerSerial = d.offerSerial ∧ d'.views = d.views ∧
      ∀ v options serial, .tell (.view v (.offerOptions options serial)) ∉ items := by
  cases post with
  | options r set options => exact .inl ⟨r, set, options, rfl, rfl, rfl, rfl, rfl⟩
  | aside quiet items others =>
    exact .inr ⟨.inl rfl, rfl, rfl, fun _ _ _ hm => by cases others _ hm⟩
  | stopping running first others =>
    refine .inr ⟨.inl rfl, rfl, rfl, fun _ _ _ hm => ?_⟩
    rcases List.mem_append.1 hm with hm | hm
    · cases others _ hm
    · simp at hm
  | forwarded quiet x hx last others =>
    refine .inr ⟨.inl rfl, rfl, rfl, fun _ _ _ hm => ?_⟩
    rcases List.mem_cons.1 hm with same | hm
    · cases same
    · cases others _ hm
  | advanced quiet shown advances next goesOn last others =>
    obtain ⟨line, -, -, rfl⟩ := advances
    refine .inr ⟨.inl rfl, rfl, rfl, fun v options serial hm => ?_⟩
    rcases List.mem_append.1 hm with hm | hm
    · obtain ⟨_, -, same⟩ := mem_tells.1 hm
      cases same
    · rcases List.mem_append.1 hm with hm | hm
      · rcases goesOn _ (Option.mem_toList.1 hm) with same | same <;> cases same
      · cases others _ hm
  | completed t barrier k =>
    refine .inr ⟨.inl rfl, rfl, rfl, fun _ _ _ hm => ?_⟩
    rcases List.mem_append.1 hm with hm | hm
    · obtain ⟨_, -, same⟩ := mem_resumption.1 hm
      cases same
    · simp at hm
  | callNext b n line v vs =>
    exact .inr ⟨.inl rfl, rfl, rfl, by cases b <;> simp [LineBroadcast.notice]⟩
  | chosen o id open_ next goesOn =>
    refine .inr ⟨.inr rfl, rfl, rfl, fun _ _ _ hm => ?_⟩
    rcases goesOn with rfl | ⟨line, rfl⟩ <;> simp at hm
  | finish => exact .inr ⟨.inr rfl, rfl, rfl, by simp [mem_tells]⟩
  | _ => exact .inr ⟨.inl rfl, rfl, rfl, by simp [mem_tells]⟩

theorem Posts.origin {s' : Session} (posts : Posts d hs a m s') {i : Item} (hi : i ∈ s'.agenda) :
    i ∈ a ∨ i.isAside = true ∨ Origin d hs m i := by
  obtain ⟨items, rest, takes, post, agenda⟩ := posts
  rw [agenda] at hi
  rcases List.mem_append.1 hi with hi | hi
  · exact .inr (post.origin i hi)
  · exact .inl (takes.mem hi)

/-- What is done was on the agenda. -/
theorem Posts.mem_did {s' : Session} {i : Item} (posts : Posts d hs a (.did i) s') : i ∈ a := by
  obtain ⟨items, rest, takes, -, -⟩ := posts
  exact takes.mem_did

end

/-- An item that nothing puts on the agenda any more was on it from the start, if it is there or has
been done. -/
theorem Run.of_no_origin {I : Session → Prop} {i : Item} (work : i.isAside = false)
    (start : I s₀)
    (keep : ∀ {s s' : Session} {m : Mark}, Posts s.dialogue s.handles s.agenda m s' → I s → I s')
    (never : ∀ {s : Session} {m : Mark}, I s → ¬ Origin s.dialogue s.handles m i)
    (r : Run allowed s₀ s h) : i ∈ s.agenda ∨ .did i ∈ h → i ∈ s₀.agenda := by
  have known : I s ∧ (i ∈ s.agenda ∨ .did i ∈ h → i ∈ s₀.agenda) := by
    refine r.posts (motive := fun s h => I s ∧ (i ∈ s.agenda ∨ .did i ∈ h → i ∈ s₀.agenda)) ?_ ?_
    · exact ⟨start, fun hi => hi.elim id nofun⟩
    · rintro s s' h m - - posts ⟨inv, old⟩
      refine ⟨keep posts inv, fun hi => ?_⟩
      rcases hi with hi | hi
      · rcases posts.origin hi with hi | aside | origin
        · exact old (.inl hi)
        · rw [work] at aside
          cases aside
        · exact absurd origin (never inv)
      · rcases List.mem_cons.1 hi with rfl | hi
        · exact old (.inl posts.mem_did)
        · exact old (.inr hi)
  exact known.2

/-! ### What stands at the head of the agenda, and what waits -/

theorem isPrompt_of_isAside {i : Item} (aside : i.isAside = true) : i.isPrompt = false := by
  unfold Item.isAside at aside
  unfold Item.isPrompt
  split at aside <;> simp_all

theorem isPrompt_of_callsHost {i : Item} (calls : i.callsHost = true) : i.isPrompt = false := by
  cases i <;> first | rfl | cases calls

theorem isPrompt_of_mem_tells {views : List Nat} {n : ViewNotice} :
    ∀ i ∈ tells views n, i.isPrompt = false := by
  intro i hi
  obtain ⟨slot, -, rfl⟩ := List.mem_map.1 hi
  rfl

/-- Below the first of the items that are put on the agenda there is none that is done at once. -/
theorem Post.prompt {d d' : Dialogue} {hs : List (ResumeHandle Continuation)} {m : Mark}
    {items : List Item} (post : Post d hs m d' items) :
    ∀ i ∈ items.tail, i.isPrompt = false := by
  have told (n : ViewNotice) {last : List Item} (others : ∀ i ∈ last, i.isPrompt = false) :
      ∀ i ∈ (tells d.views n ++ last).tail, i.isPrompt = false := by
    intro i hi
    exact List.forall_mem_append.2 ⟨isPrompt_of_mem_tells, others⟩ i (List.mem_of_mem_tail hi)
  cases post with
  | aside quiet items others =>
    exact fun i hi => isPrompt_of_isAside (others i (List.mem_of_mem_tail hi))
  | stopping running first others =>
    intro i hi
    refine List.forall_mem_append.2 ⟨fun i hi => isPrompt_of_isAside (others i hi), ?_⟩ i
      (List.mem_of_mem_tail hi)
    simp [Item.isPrompt]
  | opened | options | nodeStart | nodeEnd => exact told _ (by simp [Item.isPrompt])
  | finish => exact fun i hi => isPrompt_of_mem_tells i (List.mem_of_mem_tail hi)
  | forwarded quiet x hx last others => exact fun i hi => isPrompt_of_isAside (others i hi)
  | advanced quiet shown advances next goesOn last others =>
    refine told _ (List.forall_mem_append.2 ⟨fun i hi => ?_, fun i hi => ?_⟩)
    · rcases goesOn i (Option.mem_toList.1 hi) with rfl | rfl <;> rfl
    · exact isPrompt_of_isAside (others i hi)
  | completed t barrier k => cases k <;> simp [resumption, Item.isPrompt]
  | chosen o id _ next goesOn =>
    rcases goesOn with rfl | ⟨line, rfl⟩ <;> simp [Item.isPrompt]
  | deliver | report | line | dialogueEnd | present | immediate | waiting | callNext | gone =>
    simp [Item.isPrompt]

/-- What is left of an agenda is what was below its head, or a call of the host. -/
theorem Takes.forall_rest {p : Item → Prop} {m : Mark} {a rest : List Item} (takes : Takes m a rest)
    (calls : ∀ i, i.callsHost = true → p i) (known : ∀ i ∈ a.tail, p i) : ∀ i ∈ rest, p i := by
  cases takes with
  | did i => exact known
  | answer x i => exact known
  | call c _ word =>
    cases a with
    | nil => simp
    | cons i a => exact List.forall_mem_cons.2 ⟨calls i (word i rfl), known⟩

/-- What never stands below the first of the items that are put on the agenda stands on the agenda
only while it is first. -/
theorem Run.forall_tail {p : Item → Prop} (start : s₀.agenda = [])
    (calls : ∀ i, i.callsHost = true → p i)
    (put : ∀ {d d' : Dialogue} {hs : List (ResumeHandle Continuation)} {m : Mark}
      {items : List Item}, d.views = s₀.dialogue.views → Post d hs m d' items →
      ∀ i ∈ items.tail, p i)
    (r : Run allowed s₀ s h) : ∀ i ∈ s.agenda.tail, p i := by
  refine r.posts (motive := fun s _ => ∀ i ∈ s.agenda.tail, p i) ?_ ?_
  · simp [start]
  · intro s s' h m r _ posts known
    obtain ⟨items, rest, takes, post, agenda⟩ := posts
    have known := takes.forall_rest calls known
    rw [agenda]
    cases items with
    | nil => exact fun i hi => known i (List.mem_of_mem_tail hi)
    | cons j items => exact List.forall_mem_append.2 ⟨put r.views post, known⟩

/-- What is done at once is on the agenda only while it is first. -/
theorem Run.prompt (start : s₀.agenda = []) (r : Run allowed s₀ s h) :
    ∀ i ∈ s.agenda.tail, i.isPrompt = false :=
  r.forall_tail start (fun _ => isPrompt_of_callsHost) fun _ post => post.prompt

/-- What is taken off an agenda is done, or was a call to the host. -/
theorem Takes.pending {m : Mark} {a rest : List Item} (takes : Takes m a rest) {i : Item}
    (own : i.callsHost = false) (hi : i ∈ a) : i ∈ rest ∨ m = .did i := by
  cases takes with
  | call c _ word => exact .inl hi
  | did j rest =>
    rcases List.mem_cons.1 hi with rfl | hi
    · exact .inr rfl
    · exact .inl hi
  | answer x j rest called =>
    rcases List.mem_cons.1 hi with rfl | hi
    · rw [own] at called
      cases called
    · exact .inl hi

theorem Posts.pending {d : Dialogue} {hs : List (ResumeHandle Continuation)} {a : List Item}
    {m : Mark} {s' : Session} (posts : Posts d hs a m s') {i : Item} (own : i.callsHost = false)
    (hi : i ∈ a) : i ∈ s'.agenda ∨ m = .did i := by
  obtain ⟨items, rest, takes, -, agenda⟩ := posts
  rw [agenda]
  exact (takes.pending own hi).imp_left (List.mem_append_right items)

/-- An item on the agenda stays there until it is done. -/
theorem Run.pending {i : Item} (own : i.callsHost = false) (hi : i ∈ s₀.agenda)
    (r : Run allowed s₀ s h) : i ∈ s.agenda ∨ .did i ∈ h := by
  refine r.posts (motive := fun s h => i ∈ s.agenda ∨ .did i ∈ h) (.inl hi) ?_
  intro s s' h m _ _ posts known
  rcases known with waits | done
  · rcases posts.pending own waits with waits | rfl
    · exact .inl waits
    · exact .inr List.mem_cons_self
  · exact .inr (List.mem_cons_of_mem m done)

/-- When nothing is left to do, everything has been done. -/
theorem Run.done {i : Item} (own : i.callsHost = false) (hi : i ∈ s₀.agenda)
    (r : Run allowed s₀ s h) (through : s.agenda = []) : .did i ∈ h := by
  rcases r.pending own hi with waits | done
  · rw [through] at waits
    cases waits
  · exact done

end Session

end Prompter
