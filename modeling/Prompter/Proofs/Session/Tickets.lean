import Prompter.Proofs.Session.Ledger

/-!
# Prompter.Proofs.Session.Tickets

What may happen once at most.

A *ticket* is the right to do something for a line, an offer or a command. It comes into being with
the line, the offer or the command, and from then on it is in one place: in the books of the
dialogue or with the handle, in an item of the agenda or in the continuation that the barrier keeps,
or it has been spent. A move hands tickets on or loses them; it never doubles one
(`Move.count_le`).
-/

namespace Prompter.Session

/-- The right to do something once. -/
inductive Ticket
  /-- To broadcast the line with a serial number. -/
  | broadcast (b : LineBroadcast) (serial : Nat)
  /-- To let the engine go on after the line with a serial number. -/
  | line (serial : Nat)
  /-- To tell the engine what was chosen of the offer with a serial number. -/
  | choice (serial : Nat)
  /-- To let the engine go on after that, or to present what was chosen as a line. -/
  | offer (serial : Nat)
  /-- To let the engine go on after the command with a handle. -/
  | command (handle : Nat)
  /-- To see whether that command has resumed while it was called. -/
  | look (handle : Nat)

namespace Ticket

/-- Whether a line, an offer or a handle holds a ticket. -/
def inBooks (d : Dialogue) (hs : List (ResumeHandle Continuation)) : Ticket → Bool
  | broadcast .showing _ => false
  | broadcast .removing n | line n => d.lineSerial == n && d.line.any (!·.status.isEnded)
  | choice n | offer n => d.offer.any (·.serial == n)
  | command k => hs[k]?.any fun x => !decide (x.phase = .finished)
  | look _ => false

/-- Whether an item holds a ticket. -/
def heldBy : Ticket → Item → Bool
  | broadcast b n, .broadcast b' n' _ => decide (b' = b) && n' == n
  | line n, .broadcast .removing n' _ => n' == n
  | line n, .resume (.lineGone n') => n' == n
  | line n, .continueEngine (.line n') => n' == n
  | choice n, .chooseOption n' _ => n' == n
  | offer n, .continueEngine (.offer n') => n' == n
  | offer n, .present _ (some n') => n' == n
  | command k, .resume (.commandDone k') => k' == k
  | command k, .continueEngine (.command k') => k' == k
  | look k, .afterCall _ k' _ => k' == k
  | _, _ => false

/-- How often a ticket is held in a list of items. -/
def heldIn (t : Ticket) (items : List Item) : Nat := items.countP t.heldBy

/-- Whether doing an item spends a ticket that it holds. -/
def spends : Ticket → Item → Bool
  | broadcast _ _, _ | look _, _ => true
  | _, .continueEngine _ | _, .chooseOption _ _ | _, .present _ _ => true
  | _, _ => false

/-- Whether a mark is one at which a ticket is spent. -/
def spentAt (t : Ticket) : Mark → Bool
  | .did i => t.heldBy i && t.spends i
  | _ => false

/-- Whether a ticket has come into being. -/
def issued (d : Dialogue) (hs : List (ResumeHandle Continuation)) : Ticket → Bool
  | broadcast _ n | line n => n.ble d.lineSerial
  | choice n | offer n => n.ble d.offerSerial
  | command k | look k => (k + 1).ble hs.length

/-- How often a ticket is found in the books, the continuation of the barrier included. -/
def value (t : Ticket) (d : Dialogue) (hs : List (ResumeHandle Continuation)) : Nat :=
  (t.inBooks d hs).toNat + t.heldIn (resumption d.barrier.stored)

/-- How often a ticket is found anywhere. -/
def count (t : Ticket) (l : Ledger) (h : History) : Nat :=
  t.value l.dialogue l.handles + t.heldIn l.agenda + h.countP t.spentAt

/-- How often the item that is done at a mark holds a ticket. -/
def taken (t : Ticket) : Mark → Nat
  | .did i => (t.heldBy i).toNat
  | _ => 0

/-- Plain items hold no tickets. -/
theorem not_plain_of_heldBy {t : Ticket} {i : Item} (h : t.heldBy i = true) :
    i.isPlain = false := by
  unfold heldBy at h
  split at h
  all_goals first | rfl | cases h

/-- A ticket that is spent at a mark was held by the item that is done there. -/
theorem spentAt_le_taken (t : Ticket) (m : Mark) : (t.spentAt m).toNat ≤ t.taken m := by
  cases m with
  | did i => cases h : t.heldBy i <;> simp [spentAt, taken, h, Bool.toNat_le]
  | call | answer => exact Nat.le_refl 0

end Ticket

/-! ### Counting -/

section

variable (t : Ticket)

theorem Ticket.heldIn_nil : t.heldIn [] = 0 := rfl

theorem Ticket.heldIn_cons (i : Item) (items : List Item) :
    t.heldIn (i :: items) = (t.heldBy i).toNat + t.heldIn items := by
  rw [heldIn, List.countP_cons, Nat.add_comm, heldIn]
  cases t.heldBy i <;> rfl

theorem Ticket.heldIn_append (items items' : List Item) :
    t.heldIn (items ++ items') = t.heldIn items + t.heldIn items' :=
  List.countP_append

theorem Ticket.heldIn_resumption_none : t.heldIn (resumption none) = 0 := rfl

theorem Ticket.heldIn_resumption_some (k : Continuation) :
    t.heldIn (resumption (some k)) = (t.heldBy (.resume k)).toNat := by
  rw [show resumption (some k) = [.resume k] from rfl, t.heldIn_cons, t.heldIn_nil, Nat.add_zero]

/-- What is put on the agenda holds the tickets of the special items. -/
theorem Puts.heldIn_eq {special a a' : List Item} (puts : Puts special a a') :
    t.heldIn a' = t.heldIn special + t.heldIn a := by
  obtain ⟨items, rfl, rfl⟩ := puts
  rw [t.heldIn_append]
  congr 1
  induction items with
  | nil => rfl
  | cons i items ih =>
    rw [t.heldIn_cons, ih]
    cases hi : i.isPlain with
    | false => simp [hi, t.heldIn_cons]
    | true =>
      have hn : t.heldBy i = false := by
        cases hh : t.heldBy i with
        | false => rfl
        | true => simp [Ticket.not_plain_of_heldBy hh] at hi
      simp [hi, hn]

/-- What is taken off the agenda is lost, unless it is done. -/
theorem Takes.heldIn_le {m : Mark} {a rest : List Item} (takes : Takes m a rest) :
    t.heldIn rest + t.taken m ≤ t.heldIn a := by
  cases takes with
  | did i =>
    rw [t.heldIn_cons]
    exact Nat.le_of_eq (Nat.add_comm _ _)
  | call => exact Nat.le_refl _
  | answer x i =>
    rw [t.heldIn_cons]
    exact Nat.le_add_left _ _

end

/-- The next serial number is issued when it is given out. -/
theorem ble_succ (n m : Nat) : (n.ble (m + 1)).toNat = (n.ble m).toNat + (m + 1 == n).toNat := by
  have hb : ∀ k, n.ble k = decide (n ≤ k) := fun k => by
    cases h : n.ble k with
    | true => simpa using Nat.le_of_ble_eq_true h
    | false => simpa using Nat.not_le_of_not_ble_eq_true (by simp [h])
  rw [hb, hb]
  by_cases h : m + 1 = n
  · subst h
    simp
  · have hle : n ≤ m + 1 ↔ n ≤ m := by omega
    have hne : (m + 1 == n) = false := by simpa using h
    simp [hle, hne]

/-! ### Changes -/

/-- The handle of a command lets the engine go on for that command only. -/
def OwnHandles (hs : List (ResumeHandle Continuation)) : Prop :=
  ∀ (k : Nat) (x : ResumeHandle Continuation), hs[k]? = some x →
    x.continuation = .commandDone k ∨ ∃ key, x.continuation = .host key

variable {d d' : Dialogue} {hs hs' : List (ResumeHandle Continuation)} {m : Mark}
  {special : List Item}

theorem inBooks_command {k : Nat} {x : ResumeHandle Continuation} (hx : hs[k]? = some x) :
    Ticket.inBooks d hs (.command k) = !decide (x.phase = .finished) := by
  simp [Ticket.inBooks, hx]

theorem inBooks_command_set {k : Nat} (hl : k < hs.length) (x : ResumeHandle Continuation) :
    Ticket.inBooks d (hs.set k x) (.command k) = !decide (x.phase = .finished) :=
  inBooks_command (List.getElem?_set_self hl)

theorem inBooks_command_set_ne {j k : Nat} (hj : j ≠ k) (x : ResumeHandle Continuation) :
    Ticket.inBooks d (hs.set j x) (.command k) = Ticket.inBooks d hs (.command k) := by
  simp [Ticket.inBooks, hj]

/-- A new handle holds the ticket that is issued with it. -/
theorem inBooks_command_append (k : Nat) (x : ResumeHandle Continuation) :
    (Ticket.inBooks d (hs ++ [x]) (.command k)).toNat ≤
      (Ticket.inBooks d hs (.command k)).toNat + (hs.length + 1 == k + 1).toNat := by
  by_cases hk : k = hs.length
  · subst hk
    -- the ticket of the new handle is the one that is issued
    have one := Bool.toNat_le (Ticket.inBooks d (hs ++ [x]) (.command hs.length))
    rw [beq_self_eq_true, Bool.toNat_true]
    omega
  · have same : (hs ++ [x])[k]? = hs[k]? := by
      by_cases hl : k < hs.length
      · exact List.getElem?_append_left hl
      · rw [List.getElem?_eq_none (by simp; omega), List.getElem?_eq_none (by omega)]
    simp only [Ticket.inBooks, same]
    exact Nat.le_add_right _ _

/-- A handle forwards no ticket but that of its own command. -/
theorem heldIn_forwarded (own : OwnHandles hs) {k : Nat} {x : ResumeHandle Continuation}
    (hx : hs[k]? = some x) {t : Ticket} (host : ∀ key, t.heldBy (.resume (.host key)) = false)
    (other : t.heldBy (.resume (.commandDone k)) = false) :
    t.heldIn (resumption x.resume.2.1) = 0 := by
  rcases x.resume_cases with ⟨-, -, hk⟩ | ⟨-, hk⟩
  · rw [hk, Ticket.heldIn_resumption_some]
    rcases own k x hx with hc | ⟨key, hc⟩
    · simp [hc, other]
    · simp [hc, host]
  · rw [hk, Ticket.heldIn_resumption_none]

/-- What a change does to the places of a ticket. -/
def Change.Keeps (t : Ticket) (d : Dialogue) (hs : List (ResumeHandle Continuation)) (m : Mark)
    (d' : Dialogue) (hs' : List (ResumeHandle Continuation)) (special : List Item) : Prop :=
  t.value d' hs' + t.heldIn special + (t.spentAt m).toNat + (t.issued d hs).toNat ≤
    t.value d hs + t.taken m + (t.issued d' hs').toNat

namespace Change

attribute [local simp] Keeps Ticket.value Ticket.heldBy Ticket.inBooks Ticket.issued
  Ticket.heldIn_nil Ticket.heldIn_cons Ticket.heldIn_resumption_none Ticket.heldIn_resumption_some
  Dialogue.present Dialogue.close Dialogue.openOffer LineBroadcast.continuation
  LineStatus.isEnded ble_succ

theorem keeps_choice (c : Change d hs m d' hs' special) (own : OwnHandles hs) (n : Nat) :
    Keeps (.choice n) d hs m d' hs' special := by
  have spent := (Ticket.choice n).spentAt_le_taken m
  cases c with
  | choose o id ho | echo o id line ho => simp [ho]; omega
  | immediate b | waiting b => cases b <;> simp <;> omega
  | resumed quiet k x hx =>
    simp [heldIn_forwarded (t := .choice n) own hx (fun _ => rfl) rfl]
    omega
  | _ => simp; omega

theorem keeps_offer (c : Change d hs m d' hs' special) (own : OwnHandles hs) (n : Nat) :
    Keeps (.offer n) d hs m d' hs' special := by
  have spent := (Ticket.offer n).spentAt_le_taken m
  cases c with
  | choose o id ho | echo o id line ho => simp [ho]; omega
  | immediate b | waiting b => cases b <;> simp <;> omega
  | resumed quiet k x hx =>
    simp [heldIn_forwarded (t := .offer n) own hx (fun _ => rfl) rfl]
    omega
  | _ => simp; omega

theorem keeps_line (c : Change d hs m d' hs' special) (own : OwnHandles hs) (n : Nat) :
    Keeps (.line n) d hs m d' hs' special := by
  have spent := (Ticket.line n).spentAt_le_taken m
  cases c with
  | immediate b | waiting b => cases b <;> simp [Ticket.taken, Ticket.spentAt, Ticket.spends]
  | lineShown line hl ongoing => simp [hl, ongoing]; omega
  | dismiss quiet line shown hl ongoing => simp [hl, ongoing]; omega
  | interrupt line hl running => simp [hl, running]; omega
  | lineGone => simp [Ticket.taken, Ticket.spentAt, Ticket.spends]
  | resumed quiet k x hx =>
    simp [heldIn_forwarded (t := .line n) own hx (fun _ => rfl) rfl]
    omega
  | _ => simp; omega

theorem keeps_broadcast (c : Change d hs m d' hs' special) (own : OwnHandles hs)
    (b : LineBroadcast) (n : Nat) : Keeps (.broadcast b n) d hs m d' hs' special := by
  have spent := (Ticket.broadcast b n).spentAt_le_taken m
  cases b with
  | showing =>
    cases c with
    | immediate b | waiting b => cases b <;> simp <;> omega
    | resumed quiet k x hx =>
      simp [heldIn_forwarded (t := .broadcast .showing n) own hx (fun _ => rfl) rfl]
      omega
    | _ => simp; omega
  | removing =>
    cases c with
    | immediate b | waiting b => cases b <;> simp <;> omega
    | lineShown line hl ongoing => simp [hl, ongoing]; omega
    | dismiss quiet line shown hl ongoing => simp [hl, ongoing]; omega
    | interrupt line hl running => simp [hl, running]; omega
    | resumed quiet k x hx =>
      simp [heldIn_forwarded (t := .broadcast .removing n) own hx (fun _ => rfl) rfl]
      omega
    | _ => simp; omega

theorem keeps_command (c : Change d hs m d' hs' special) (own : OwnHandles hs) (k : Nat) :
    Keeps (.command k) d hs m d' hs' special := by
  have spent := (Ticket.command k).spentAt_le_taken m
  cases c with
  | immediate b | waiting b => cases b <;> simp <;> omega
  | commandDone j => simp [Ticket.taken, Ticket.spentAt, Ticket.spends]
  | resumed quiet j x hx =>
    have hl : j < hs.length := (List.getElem?_eq_some_iff.1 hx).1
    simp only [Keeps, Ticket.value, Ticket.issued, List.length_set]
    by_cases hj : j = k
    · subst hj
      rw [inBooks_command_set hl, inBooks_command hx]
      rcases x.resume_cases with ⟨armed, finished, hk⟩ | ⟨same, hk⟩
      · -- the ticket goes from the handle to the agenda
        have held := Bool.toNat_le ((Ticket.command j).heldBy (.resume x.continuation))
        simp only [hk, Ticket.heldIn_resumption_some, armed, finished, reduceCtorEq, decide_true,
          decide_false, Bool.not_true, Bool.not_false, Bool.toNat_true, Bool.toNat_false]
        omega
      · simp only [hk, Ticket.heldIn_resumption_none, same]
        omega
    · have other : (Ticket.command k).heldBy (.resume (.commandDone j)) = false := by simpa using hj
      rw [inBooks_command_set_ne hj, heldIn_forwarded own hx (fun _ => rfl) other]
      omega
  | newHandle quiet name c use =>
    have append := @inBooks_command_append d hs k (.fresh name c)
    simp only [Keeps, Ticket.value, Ticket.issued, List.length_append, List.length_singleton,
      ble_succ]
    simp only [Ticket.heldIn_cons, Ticket.heldIn_nil, Ticket.heldBy, Bool.toNat_false]
    omega
  | armed name j use x hx =>
    have hl : j < hs.length := (List.getElem?_eq_some_iff.1 hx).1
    simp only [Keeps, Ticket.value, Ticket.issued, List.length_set]
    by_cases hj : j = k
    · subst hj
      rw [inBooks_command_set hl, inBooks_command hx]
      -- a handle may lose its ticket when its command returns, but gets none
      have closed : (!decide (x.arm.1.phase = .finished)).toNat ≤
          (!decide (x.phase = .finished)).toNat := by
        by_cases hp : x.phase = .finished
        · simp only [x.arm_finished hp, Nat.le_refl]
        · simp [hp, Bool.toNat_le]
      simp only [Ticket.heldIn_cons, Ticket.heldIn_nil, Ticket.heldBy, Bool.toNat_false]
      omega
    · rw [inBooks_command_set_ne hj]
      simp only [Ticket.heldIn_cons, Ticket.heldIn_nil, Ticket.heldBy, Bool.toNat_false]
      omega
  | _ => simp; omega

theorem keeps_look (c : Change d hs m d' hs' special) (own : OwnHandles hs) (k : Nat) :
    Keeps (.look k) d hs m d' hs' special := by
  have spent := (Ticket.look k).spentAt_le_taken m
  cases c with
  | immediate b | waiting b => cases b <;> simp <;> omega
  | resumed quiet j x hx =>
    simp [heldIn_forwarded (t := .look k) own hx (fun _ => rfl) rfl]
    omega
  | _ => simp; omega

/-- A change hands tickets on, or loses them, and none is doubled. -/
theorem keeps (c : Change d hs m d' hs' special) (own : OwnHandles hs) (t : Ticket) :
    Keeps t d hs m d' hs' special := by
  cases t with
  | broadcast b n => exact c.keeps_broadcast own b n
  | line n => exact c.keeps_line own n
  | choice n => exact c.keeps_choice own n
  | offer n => exact c.keeps_offer own n
  | command k => exact c.keeps_command own k
  | look k => exact c.keeps_look own k

/-- The handles stay those of their own commands. -/
theorem ownHandles (c : Change d hs m d' hs' special) (own : OwnHandles hs) : OwnHandles hs' := by
  have set {k : Nat} {x y : ResumeHandle Continuation} (hx : hs[k]? = some x)
      (hy : y.continuation = x.continuation) : OwnHandles (hs.set k y) := by
    intro j z hz
    rw [List.getElem?_set] at hz
    split at hz
    · next hk =>
      subst hk
      split at hz
      · cases hz
        rw [hy]
        exact own _ x hx
      · cases hz
    · exact own j z hz
  cases c with
  | resumed quiet k x hx => exact set hx x.resume_continuation
  | armed name k use x hx => exact set hx x.arm_continuation
  | newHandle quiet name k use hk =>
    intro j z hz
    rw [List.getElem?_append] at hz
    split at hz
    · exact own j z hz
    · next hj =>
      obtain ⟨hl, rfl⟩ := List.getElem?_eq_some_iff.1 hz
      have hl : j - hs.length = 0 := by simpa using hl
      have hj : j = hs.length := by omega
      subst hj
      simpa [ResumeHandle.fresh] using hk.imp_right And.right
  | _ => exact own

end Change

/-- A move never doubles a ticket; one that is not there comes into being once. -/
theorem Move.count_le {l l' : Ledger} {h : History} (move : Move l m l')
    (own : OwnHandles l.handles) (t : Ticket) :
    t.count l' (m :: h) + (t.issued l.dialogue l.handles).toNat ≤
      t.count l h + (t.issued l'.dialogue l'.handles).toNat := by
  obtain ⟨rest, special, takes, change, puts, -⟩ := move
  -- the books and the agenda are counted apart, and what the item held makes up the difference
  have books := change.keeps own t
  have taken := takes.heldIn_le t
  simp only [Change.Keeps] at books
  simp only [Ticket.count, puts.heldIn_eq t, List.countP_cons]
  have spent : (if t.spentAt m = true then 1 else 0) = (t.spentAt m).toNat := by
    cases t.spentAt m <;> rfl
  omega

end Prompter.Session
