import Prompter.Proofs.Session.Selection

/-!
# Prompter.Proofs.Session.Offering

Which views are offered options that can still be chosen.

The views are told of an offer one after the other, and a view that is told may settle it before the
others are told: by a choice, by stopping the dialogue, or by getting another set of options
reported (`settles`). Nothing looks at the offer again before the next view is told. So a view is
told of an open offer exactly if nothing has settled it since it was opened; that may not be so of
any view but the first.
-/

namespace Prompter

/-- Whether an item is that of telling a view of an offer. -/
def Item.offersTo (v : Nat) : Item → Bool
  | .tell (.view w (.offerOptions _ _)) => w = v
  | _ => false

namespace Session

/-- Whether something that happens settles the offer that is open. -/
def settles (s : Session) : Mark → Prop
  | .call (.select n id) => Accepts s n id
  | .did (.hear _ (.options _)) => True
  | .did .finish => s.dialogue.running = true
  | _ => False

/-- The offer that was open after `base` has been settled since. -/
def WasSettled (s₀ : Session) (since base : History) : Prop :=
  ∃ later m earlier, since = later ++ m :: earlier ∧ settles (after s₀ (earlier ++ base)) m

/-- A view that is told of an offer after `h` is told of one that was opened when options were
reported. -/
structure OfferedBy (s₀ : Session) (h : History) (v : Nat) (offer : Offer) (r : Reporter)
    (set : OptionSet) (since before : History) : Prop where
  reported : h = since ++ .did (.hear r (.options set)) :: before
  serial : offer.serial = (after s₀ before).dialogue.offerSerial + 1
  options : offer.options = ((after s₀ before).dialogue.localizeOptions set.options).1
  /-- The offer is still open exactly if nothing has settled it. -/
  open_iff : (after s₀ h).dialogue.offer = some offer ↔
    ¬ WasSettled s₀ since (.did (.hear r (.options set)) :: before)
  /-- The first view is told at once. -/
  first : s₀.dialogue.views.head? = some v → since = []

section

variable {allowed : Session → History → Call → Prop} {s₀ s s' : Session} {h since base : History}
  {v : Nat} {d d' : Dialogue} {hs : List (ResumeHandle Continuation)} {m : Mark}
  {items : List Item} {o : Offer}

/-! ### How an offer is settled -/

theorem not_settles_of_isAside (quiet : m.isAside s.dialogue = true)
    (unchosen : ∀ n id, m ≠ .call (.select n id)) : ¬ settles s m := by
  unfold settles
  split
  · exact absurd rfl (unchosen _ _)
  · cases quiet
  · simpa [Mark.isAside] using quiet
  · exact not_false

/-- An open offer stays open unless it is settled, which is for good. -/
theorem Happens.offer_cases (happens : Happens s m s') (opened : s.dialogue.offer = some o)
    (known : o.serial ≤ s.dialogue.offerSerial) :
    (¬ settles s m ∧ s'.dialogue.offer = some o ∧ o.serial ≤ s'.dialogue.offerSerial) ∨
      settles s m ∧ s'.Spent o.serial := by
  by_cases selects : ∃ n id, m = .call (.select n id)
  · obtain ⟨n, id, rfl⟩ := selects
    cases happens
    rcases s.select_cases n id with cannot | ⟨_, _, _, selects⟩
    · have refuses : s.Refuses (.select n id) := cannot
      rw [(s.call_refused refuses).1]
      exact .inl ⟨not_accepts_of_cannotChoose cannot, opened, known⟩
    · rw [selects.chosen]
      exact .inr ⟨selects.accepts, known, nofun⟩
  · have unchosen : ∀ n id, m ≠ .call (.select n id) := fun n id same => selects ⟨n, id, same⟩
    obtain ⟨items, rest, -, post, -⟩ := happens.posts
    unfold Spent
    generalize s'.dialogue = d' at post ⊢
    cases post with
    | options r set options =>
      refine .inr ⟨trivial, Nat.le_succ_of_le known, fun o' same => ?_⟩
      cases same
      exact Nat.lt_succ_of_le known
    | finish running => exact .inr ⟨running, known, nofun⟩
    | chosen o id => exact absurd rfl (unchosen _ _)
    | aside quiet | forwarded quiet =>
      exact .inl ⟨not_settles_of_isAside quiet unchosen, opened, known⟩
    | advanced quiet shown advances =>
      obtain ⟨line, -, -, rfl⟩ := advances
      exact .inl ⟨not_settles_of_isAside quiet unchosen, opened, known⟩
    | _ => exact .inl ⟨nofun, opened, known⟩

theorem wasSettled_cons : WasSettled s₀ (m :: since) base ↔
    settles (after s₀ (since ++ base)) m ∨ WasSettled s₀ since base := by
  constructor
  · rintro ⟨later, m', earlier, same, settles⟩
    cases later with
    | nil =>
      cases same
      exact .inl settles
    | cons m later =>
      cases same
      exact .inr ⟨later, m', earlier, rfl, settles⟩
  · rintro (settles | ⟨later, m', earlier, rfl, settles⟩)
    · exact ⟨[], m, since, rfl, settles⟩
    · exact ⟨m :: later, m', earlier, rfl, settles⟩

/-- An offer is open until it is settled, and not open any more from then on. -/
theorem Run.offer_cases (r : Run allowed s₀ s (since ++ base))
    (opened : (after s₀ base).dialogue.offer = some o)
    (known : o.serial ≤ (after s₀ base).dialogue.offerSerial) :
    (¬ WasSettled s₀ since base ∧ s.dialogue.offer = some o ∧ o.serial ≤ s.dialogue.offerSerial) ∨
      WasSettled s₀ since base ∧ s.Spent o.serial := by
  induction since generalizing s with
  | nil =>
    rw [← r.after_eq]
    refine .inl ⟨?_, opened, known⟩
    rintro ⟨later, m, earlier, none, -⟩
    cases later <;> cases none
  | cons m since ih =>
    obtain ⟨s', r', happens⟩ := r.last
    replace r' : Run allowed s₀ s' (since ++ base) := r'
    rw [wasSettled_cons, r'.after_eq]
    rcases ih r' with ⟨not, open_, known⟩ | ⟨settled, spent⟩
    · rcases happens.offer_cases open_ known with ⟨calm, still⟩ | ⟨settles, spent⟩
      · exact .inl ⟨not_or.2 ⟨calm, not⟩, still⟩
      · exact .inr ⟨.inl settles, spent⟩
    · exact .inr ⟨.inr settled, happens.spent spent⟩

/-! ### Who is going to be told of an offer -/

theorem offersTo_eq_true {i : Item} :
    i.offersTo v = true ↔ ∃ options n, i = .tell (.view v (.offerOptions options n)) := by
  unfold Item.offersTo
  split <;> simp_all

/-- The offer that views are told of is opened just then, and they are told in their order. -/
theorem Post.offering (post : Post d hs m d' items) {i : Item} (hi : i ∈ items)
    (offers : i.offersTo v = true) : ∃ r set options, m = .did (.hear r (.options set)) ∧
      d'.offer = some ⟨d.offerSerial + 1, options⟩ ∧
      items = tells d.views (.offerOptions options (d.offerSerial + 1)) ++ [.conclude r .wait] := by
  obtain ⟨options, n, rfl⟩ := offersTo_eq_true.1 offers
  rcases post.offers with ⟨r, set, options, heard, opened, -, -, same⟩ | ⟨-, -, -, none⟩
  · exact ⟨r, set, options, heard, opened, same⟩
  · exact absurd hi (none v options n)

/-- What a view is going to be told of is the offer that is open then. -/
theorem Post.opens (post : Post d hs m d' items) {options : List LocalizedOption} {n : Nat}
    (hi : .tell (.view v (.offerOptions options n)) ∈ items) :
    ∃ r set, m = .did (.hear r (.options set)) ∧ d'.offer = some ⟨n, options⟩ := by
  obtain ⟨r, set, options', heard, opened, rfl⟩ :=
    post.offering (v := v) hi (offersTo_eq_true.2 ⟨options, n, rfl⟩)
  rcases List.mem_append.1 hi with hi | hi
  · obtain ⟨w, -, same⟩ := mem_tells.1 hi
    cases same
    exact ⟨r, set, heard, opened⟩
  · simp at hi

/-- Nothing is put above what the first view is going to be told of an offer. -/
theorem Post.offersTo_tail (post : Post d hs m d' items) (first : d.views.head? = some v) :
    ∀ i ∈ items.tail, i.offersTo v = false := by
  intro i hi
  refine Bool.eq_false_iff.2 fun offers => ?_
  obtain ⟨r, set, options, -, -, rfl⟩ := post.offering (List.mem_of_mem_tail hi) offers
  obtain ⟨views, hv⟩ := List.head?_eq_some_iff.1 first
  have once : d.views.Nodup := nodup_presentFrom 0 d.slots
  rw [hv] at hi once
  rcases List.mem_append.1 hi with hi | hi
  · obtain ⟨w, hw, rfl⟩ := mem_tells.1 hi
    obtain rfl : w = v := by simpa [Item.offersTo] using offers
    exact (List.nodup_cons.1 once).1 hw
  · obtain rfl := List.mem_singleton.1 hi
    cases offers

theorem offersTo_of_callsHost {i : Item} (calls : i.callsHost = true) :
    i.offersTo v = false := by
  cases i <;> first | rfl | cases calls

/-- What the first view is going to be told of an offer stands on the agenda only while it is
first. -/
theorem Run.offersTo_tail (start : s₀.agenda = []) (r : Run allowed s₀ s h)
    (first : s₀.dialogue.views.head? = some v) : ∀ i ∈ s.agenda.tail, i.offersTo v = false :=
  r.forall_tail start (fun _ => offersTo_of_callsHost) fun same post =>
    post.offersTo_tail (same ▸ first)

/-- An offer that a view is going to be told of was opened when options were reported, and just now
if the view is the first. -/
theorem Run.opened_of_mem (start : s₀.agenda = []) (r : Run allowed s₀ s h) :
    ∀ options n, .tell (.view v (.offerOptions options n)) ∈ s.agenda →
    ∃ r set since before, h = since ++ .did (.hear r (.options set)) :: before ∧
      (after s₀ (.did (.hear r (.options set)) :: before)).dialogue.offer = some ⟨n, options⟩ ∧
      (s₀.dialogue.views.head? = some v → since = []) := by
  refine r.posts (motive := fun s h => ∀ options n,
    .tell (.view v (.offerOptions options n)) ∈ s.agenda →
    ∃ r set since before, h = since ++ .did (.hear r (.options set)) :: before ∧
      (after s₀ (.did (.hear r (.options set)) :: before)).dialogue.offer = some ⟨n, options⟩ ∧
      (s₀.dialogue.views.head? = some v → since = [])) ?_ ?_
  · simp [start]
  · intro s s' h m run run' posts known options n waits
    obtain ⟨items, rest, takes, post, agenda⟩ := posts
    rw [agenda] at waits
    rcases List.mem_append.1 waits with new | old
    · obtain ⟨r, set, rfl, opened⟩ := post.opens new
      rw [← run'.after_eq] at opened
      exact ⟨r, set, [], h, rfl, opened, fun _ => rfl⟩
    · obtain ⟨r, set, since, before, rfl, opened, -⟩ := known options n (takes.mem old)
      refine ⟨r, set, m :: since, before, rfl, opened, fun first => ?_⟩
      have passed := takes.forall_rest (fun _ => offersTo_of_callsHost)
        (run.offersTo_tail start first) _ old
      simp [Item.offersTo] at passed

/-- When options are reported, they are the offer. -/
theorem Happens.heard_options {r : Reporter} {set : OptionSet}
    (happens : Happens s (.did (.hear r (.options set))) s') :
    s'.dialogue.offerSerial = s.dialogue.offerSerial + 1 ∧ s'.dialogue.offer =
      some ⟨s.dialogue.offerSerial + 1, (s.dialogue.localizeOptions set.options).1⟩ := by
  obtain ⟨rest, -, rfl⟩ := happens.top
  exact ⟨rfl, rfl⟩

/-- Whatever the host does, a view is told of an offer while it is open exactly if nothing has
settled it since it was opened, and the first view always is. -/
theorem run_offered (newer : History) {older : History} {options : List LocalizedOption} {n : Nat}
    (start : s₀.agenda = []) (r : Run allowed s₀ s
      (newer ++ .did (.tell (.view v (.offerOptions options n))) :: older)) :
    ∃ r set since before, OfferedBy s₀ older v ⟨n, options⟩ r set since before := by
  obtain ⟨told, r⟩ := r.earlier
  obtain ⟨now, run, happens⟩ := r.last
  obtain ⟨rest, top, -⟩ := happens.top
  obtain ⟨reporter, set, since, before, rfl, opened, first⟩ :=
    run.opened_of_mem start options n (by rw [top]; exact List.mem_cons_self)
  obtain ⟨heard, after_heard⟩ := run.earlier
  obtain ⟨state, before_heard, reports⟩ := after_heard.last
  obtain ⟨serials, offer⟩ := reports.heard_options
  rw [after_heard.after_eq, offer] at opened
  cases opened
  have cases := run.offer_cases (by rw [after_heard.after_eq, offer])
    (Nat.le_of_eq (by rw [after_heard.after_eq, serials]))
  rw [← before_heard.after_eq]
  refine ⟨reporter, set, since, before, rfl, rfl, rfl, ?_, first⟩
  rw [run.after_eq, before_heard.after_eq]
  rcases cases with ⟨unsettled, still, -⟩ | ⟨settled, -, spent⟩
  · exact ⟨fun _ => unsettled, fun _ => still⟩
  · exact ⟨fun still => absurd (spent _ still) (Nat.lt_irrefl _), fun not => absurd settled not⟩

end

/-- A dialogue with two views, and a script with one option. -/
def fork : Session where
  engine := .script
    { script := ⟨⟨[("A", [.options [{ text := "Go" }]])], by simp⟩⟩, listener := some .dialogue }
  dialogue := { slots := [true, true] }
  storage := some {}

/-- The option of `fork`, as it is offered. -/
def onlyWay : List LocalizedOption := [⟨0, { line := ⟨"Go", "Go", []⟩, text := "Go" }, true⟩]

/-- The first view chooses as soon as it is told of the offer, and the second one is told of it
after that. -/
theorem run_fork : ∃ s older, Run (fun _ _ _ => True) fork s
      (.did (.tell (.view 1 (.offerOptions onlyWay 1))) :: older) ∧
    (after fork older).dialogue.offer = none := by
  have told {s : Session} {h : History} (r : Run (fun _ _ _ => True) fork s h)
      (fits : s.accepts .heard = true) := (r.answer .heard fits).works 9
  have r : Run (fun _ _ _ => True) fork _ [] := .refl
  have r := (r.call rfl (.start "A") trivial).works 9
  have r := told (told (told (told r rfl) rfl) rfl) rfl
  have r := told ((r.call rfl (.select 1 0) trivial).works 9) rfl
  exact ⟨_, _, r, by decide +kernel⟩

/-- A view may be told of an offer that is not open any more. -/
theorem exists_closed_offer : ¬ ∀ s₀ s newer older v options n, IsFresh s₀ →
    Run (fun _ _ _ => True) s₀ s
      (newer ++ .did (.tell (.view v (.offerOptions options n))) :: older) →
    (after s₀ older).dialogue.offer = some ⟨n, options⟩ := by
  intro always
  obtain ⟨s, older, r, closed⟩ := run_fork
  have opened := always fork s [] older 1 onlyWay 1 ⟨rfl, rfl, rfl⟩ r
  cases closed.symm.trans opened

/-- What the second view is told of has been settled by the choice of the first. -/
theorem offered_of_fork : ∃ s older, fork.agenda = [] ∧
    Run (fun _ _ _ => True) fork s
      (.did (.tell (.view 1 (.offerOptions onlyWay 1))) :: older) ∧
    ∃ r set since before, OfferedBy fork older 1 ⟨1, onlyWay⟩ r set since before ∧
      WasSettled fork since (.did (.hear r (.options set)) :: before) := by
  obtain ⟨s, older, r, closed⟩ := run_fork
  obtain ⟨reporter, set, since, before, offered⟩ := run_offered [] rfl r
  refine ⟨s, older, rfl, r, reporter, set, since, before, offered, ?_⟩
  refine Classical.byContradiction fun unsettled => ?_
  cases closed.symm.trans (offered.open_iff.2 unsettled)

end Session

end Prompter
