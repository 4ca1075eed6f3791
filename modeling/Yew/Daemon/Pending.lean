import Yew.Daemon.SweepSafe

/-!
# Pending completions

A mint, claim, notice or report that does not wait for its carrier is put on a list.  The wallet's
poll goes through the list: an entry whose carrier is confirmed is completed, one whose carrier is
unconfirmed is kept, and any other is dropped.  An entry is dropped too when the node does not answer
for its carrier, and when its completion fails at a call to the node.

The completions themselves are those of `Yew.Daemon.Carriers`, given here by how they end.

## Source

* `yewd/wallet/src/mint.rs`: `PendingMint`, `Wallet::complete_one`, `Wallet::complete_pending`
-/

namespace Yew.Daemon

open Script Tx Pq Proto Proc Yellowback Build

/-! ## The list -/

/-- `PendingMint`, with what tells its kind.  What else a completion reads of it is among how the
parts of the completion end. -/
structure PendingMint where
  /-- The selector of the vault that a notice is for. -/
  notice : Option Bytes
  /-- The selector of the vault that a claim is for. -/
  claim : Option Bytes
  /-- The bundle of the two attestations of a report, when both decode. -/
  equivocation : Option (Option Bytes)
  carrier : OutPoint
deriving DecidableEq

/-- What a poll meets at one entry: the node as the carrier is looked up, the node as the entry is
completed, and how the parts of the completion end. -/
structure PollAnswers where
  lookup : Answers
  node : Answers
  finish : Finish
  passes : Fin 6 → ClaimPass

/-- `complete_one`. -/
def completeOne (P : PollAnswers) (pm : PendingMint) : Proc Desk Stop String :=
  match pm.notice, pm.claim, pm.equivocation with
  | some selector, _, _ => completeNotice P.node P.finish selector pm.carrier
  | none, some selector, _ => completeClaim P.node P.finish P.passes selector pm.carrier
  | none, none, some (some bundle) => completeEquivocation P.node P.finish bundle pm.carrier
  | none, none, some none => throw (.rule ⟨-32603, "a pending report's attestations"⟩)
  | none, none, none => completeMint P.node P.finish pm.carrier

/-- What a poll does with an entry. -/
inductive Fate where
  | kept
  /-- The completion on the confirmed carrier returned or stopped. -/
  | completed (r : Except Stop String)
  /-- The carrier is not an unspent output. -/
  | spent
  /-- The look-up failed. -/
  | unread (e : RpcError)

/-- One entry of `complete_pending`. -/
def pollOne (P : PollAnswers) (pm : PendingMint) (d : Desk) : Fate × Desk :=
  match nodeCoin P.lookup pm.carrier with
  | .ok (some c) =>
    if c.height.isSome then
      let (r, d) := completeOne P pm d
      (.completed r, d)
    else (.kept, d)
  | .ok none => (.spent, d)
  | .error e => (.unread e, d)

/-- The entries of `complete_pending` in turn, from a position of the list on. -/
def pollFrom (polls : Nat → PollAnswers) : Nat → List PendingMint → Desk →
    List (PendingMint × Fate) × Desk
  | _, [], d => ([], d)
  | i, pm :: pms, d =>
    let (fate, d) := pollOne (polls i) pm d
    let (rest, d) := pollFrom polls (i + 1) pms d
    ((pm, fate) :: rest, d)

/-- Whether an entry stays on the list. -/
def Fate.stays : Fate → Bool
  | .kept => true
  | _ => false

/-- The wallet with its list, the entries that were accepted, and those that left the list. -/
structure Queue where
  desk : Desk
  pending : List PendingMint
  accepted : List PendingMint
  gone : List (PendingMint × Fate)

/-- `complete_pending`: the list is taken, and what is kept is put back. -/
def Queue.completePending (polls : Nat → PollAnswers) (q : Queue) : Queue :=
  let (fates, d) := pollFrom polls 0 q.pending q.desk
  { q with
    desk := d
    pending := (fates.filter fun x ↦ x.2.stays).map Prod.fst
    gone := (fates.filter fun x ↦ !x.2.stays) ++ q.gone }

/-- What happens to a wallet with its list: a call with `wait = false` is accepted, the poll syncs
and goes through the list, or another call leaves the list alone. -/
inductive QueueEvent where
  | accept (pm : PendingMint) (d : Desk)
  | poll (sync : Except RpcError Desk) (polls : Nat → PollAnswers)
  | other (d : Desk)

/-- One event.  `spawn_poll` leaves the list alone when the sync fails. -/
def queueStep (q : Queue) : QueueEvent → Unit × Queue
  | .accept pm d =>
    ((), { q with desk := d, pending := q.pending ++ [pm], accepted := pm :: q.accepted })
  | .poll (.ok d) polls => ((), Queue.completePending polls { q with desk := d })
  | .poll (.error _) _ => ((), q)
  | .other d => ((), { q with desk := d })

/-- A wallet that starts. -/
structure Queue.Fresh (q : Queue) : Prop where
  pending : q.pending = []
  accepted : q.accepted = []
  gone : q.gone = []

/-! ## Completions that the node answers -/

/-- A completion was sent or a rule refused it, or the carrier was spent. -/
def Fate.Settled : Fate → Prop
  | .completed (.ok _) => True
  | .completed (.error (.rule _)) => True
  | .completed (.error (.sent _)) => True
  | .spent => True
  | _ => False

/-- A part of a completion that stops, if it does, for another reason than a failed call. -/
def Stop.Answered (s : Stop) : Prop := ∀ e, s ≠ .node e

/-- Every call to the node goes through in a completion on a carrier. -/
structure PollAnswers.Completes (P : PollAnswers) (carrier : OutPoint) : Prop where
  before : ∀ s ∈ P.finish.before, s.Answered
  params : ∃ prm, P.finish.params = .ok prm
  next : ∃ next, nextBlock P.node = .ok next
  coin : ∃ c, nodeCoin P.node carrier = .ok c
  building : ∀ s ∈ P.finish.building, s.Answered
  signer : ∀ s ∈ P.finish.signFault, s.Answered
  dryRun : ∀ s ∈ P.finish.dryRun, s.Answered
  reply : ∀ s, P.finish.reply = .error s → s.Answered
  passes : ∀ i s, P.passes i = .fails s → s.Answered

/-- Every call to the node goes through at an entry. -/
structure PollAnswers.Answered (P : PollAnswers) (pm : PendingMint) : Prop where
  lookup : ∃ c, nodeCoin P.lookup pm.carrier = .ok c
  completes : ∀ c, nodeCoin P.lookup pm.carrier = .ok (some c) → c.height.isSome →
    P.Completes pm.carrier

/-- Every call to the node goes through in a poll that reaches the list. -/
def QueueEvent.Answered (q : Queue) : QueueEvent → Prop
  | .poll (.ok _) polls => ∀ i pm, q.pending[i]? = some pm → (polls i).Answered pm
  | _ => True

/-- A procedure that never stops at a failed call. -/
def Heard {α : Type} (x : Proc Desk Stop α) : Prop :=
  Triple (fun _ ↦ True) x (fun _ _ ↦ True) fun s _ ↦ s.Answered

section Heard

variable {α β : Type}

theorem heard_bind {x : Proc Desk Stop α} {f : α → Proc Desk Stop β} (hx : Heard x)
    (hf : ∀ a, Heard (f a)) : Heard (x >>= f) := Triple.bind hx hf

theorem heard_attempt {fault : Option Stop} (h : ∀ s ∈ fault, s.Answered) :
    Heard (attempt fault) := by
  cases fault with
  | none => exact Triple.pure fun _ h ↦ h
  | some s => exact Triple.throw fun _ _ ↦ h s rfl

theorem heard_lift {x : Except Stop α} (h : ∀ s, x = .error s → s.Answered) :
    Heard (lift x : Proc Desk Stop α) :=
  Triple.lift (fun _ _ _ h ↦ h) fun s _ hx _ ↦ h s hx

/-- A read that is answered. -/
theorem heard_read {x : Except RpcError α} (h : ∃ a, x = .ok a) :
    Heard (lift (x.mapError Stop.node) : Proc Desk Stop α) := by
  obtain ⟨a, rfl⟩ := h
  exact heard_lift nofun

theorem heard_modify (f : Desk → Desk) : Heard (modify f) := Triple.modify fun _ h ↦ h

theorem heard_carrierRec (carrier : OutPoint) : Heard (carrierRec carrier) := by
  refine heard_bind (Triple.get fun _ h ↦ h) fun d ↦ ?_
  split
  · exact Triple.pure fun _ h ↦ h
  · exact Triple.throw fun _ _ ↦ nofun

end Heard

section Completes

variable {P : PollAnswers} {carrier : OutPoint}

theorem heard_checkConfirmed (h : P.Completes carrier) :
    Heard (lift (checkConfirmed P.node carrier)) := by
  obtain ⟨c, hc⟩ := h.coin
  refine heard_lift fun s hs ↦ ?_
  unfold checkConfirmed at hs
  rw [hc] at hs
  change (if c.any fun c ↦ c.height.isSome then (.ok () : Except Stop Unit) else .error _) =
    .error s at hs
  split at hs
  · cases hs
  · cases hs
    exact nofun

theorem heard_checkWindow (next : Next) (window r : Int) :
    Heard (lift (checkWindow next window r)) := by
  refine heard_lift fun s hs ↦ ?_
  unfold checkWindow at hs
  split at hs
  · cases hs
    exact nofun
  · cases hs

theorem heard_checkExpiry (next : Next) (window r : Int) :
    Heard (lift (checkExpiry next window r)) := by
  refine heard_lift fun s hs ↦ ?_
  unfold checkExpiry at hs
  split at hs
  · cases hs
    exact nofun
  · cases hs

theorem heard_checkSelector (r : CarrierRec) (selector : Bytes) :
    Heard (lift (checkSelector r selector)) := by
  refine heard_lift fun s hs ↦ ?_
  unfold checkSelector at hs
  split at hs
  · cases hs
    exact nofun
  · cases hs

theorem heard_finish (h : P.Completes carrier) (purpose : Purpose) (expiryHeight : UInt32)
    (next : Next) : Heard (finish P.finish purpose carrier expiryHeight next) := by
  refine heard_bind (heard_bind (heard_attempt h.signer) fun _ ↦ heard_modify _) fun _ ↦ ?_
  refine heard_bind (heard_attempt h.dryRun) fun _ ↦ ?_
  refine heard_bind ?_ fun _ ↦ heard_bind (heard_modify _) fun _ ↦ Triple.pure fun _ h ↦ h
  refine heard_bind (heard_modify _) fun _ ↦ ?_
  refine heard_bind (heard_lift h.reply) fun _ ↦ ?_
  refine heard_bind (heard_attempt fun s hs ↦ ?_) fun _ ↦ Triple.pure fun _ h ↦ h
  obtain ⟨e, -, rfl⟩ := Option.map_eq_some_iff.mp hs
  exact nofun

theorem heard_completeMint (h : P.Completes carrier) :
    Heard (completeMint P.node P.finish carrier) := by
  refine heard_bind (heard_read h.params) fun prm ↦ ?_
  refine heard_bind (heard_attempt h.before) fun _ ↦ ?_
  refine heard_bind (heard_read h.next) fun next ↦ ?_
  refine heard_bind (heard_carrierRec carrier) fun r ↦ ?_
  refine heard_bind (heard_checkConfirmed h) fun _ ↦ ?_
  refine heard_bind (heard_checkExpiry _ _ _) fun _ ↦ ?_
  refine heard_bind (heard_checkWindow _ _ _) fun _ ↦ ?_
  refine heard_bind (heard_attempt h.building) fun _ ↦ ?_
  exact heard_finish h _ _ _

theorem heard_claimPasses (h : P.Completes carrier) (expiryHeight : UInt32) (next : Next)
    (passes : List ClaimPass) (hpasses : ∀ s, .fails s ∈ passes → s.Answered)
    (last : Option String) :
    Heard (claimPasses P.finish carrier expiryHeight next passes last) := by
  induction passes generalizing last with
  | nil => exact Triple.throw fun _ _ ↦ nofun
  | cons p ps ih =>
    have hps : ∀ s, .fails s ∈ ps → s.Answered := fun s hs ↦ hpasses s (List.mem_cons_of_mem _ hs)
    cases p with
    | short m => exact ih hps _
    | fails s => exact Triple.throw fun _ _ ↦ hpasses s List.mem_cons_self
    | low =>
      refine heard_bind (heard_bind (heard_attempt nofun) fun _ ↦ heard_modify _) fun _ ↦ ?_
      exact ih hps last
    | pays => exact heard_finish h _ _ _

theorem heard_completeClaim (h : P.Completes carrier) (selector : Bytes) :
    Heard (completeClaim P.node P.finish P.passes selector carrier) := by
  refine heard_bind (heard_attempt h.before) fun _ ↦ ?_
  refine heard_bind (heard_read h.params) fun prm ↦ ?_
  refine heard_bind (heard_read h.next) fun next ↦ ?_
  refine heard_bind (heard_carrierRec carrier) fun r ↦ ?_
  refine heard_bind (heard_checkConfirmed h) fun _ ↦ ?_
  refine heard_bind (heard_checkWindow _ _ _) fun _ ↦ ?_
  refine heard_bind (heard_checkSelector _ _) fun _ ↦ ?_
  refine heard_bind (heard_attempt h.building) fun _ ↦ ?_
  refine heard_claimPasses h _ _ _ (fun s hs ↦ ?_) _
  obtain ⟨i, hi⟩ := (List.mem_ofFn ..).mp hs
  exact h.passes i s hi

theorem heard_completeNotice (h : P.Completes carrier) (selector : Bytes) :
    Heard (completeNotice P.node P.finish selector carrier) := by
  refine heard_bind (heard_read h.params) fun prm ↦ ?_
  refine heard_bind (heard_read h.next) fun next ↦ ?_
  refine heard_bind (heard_attempt h.before) fun _ ↦ ?_
  refine heard_bind (heard_carrierRec carrier) fun r ↦ ?_
  refine heard_bind (heard_checkConfirmed h) fun _ ↦ ?_
  refine heard_bind (heard_checkWindow _ _ _) fun _ ↦ ?_
  refine heard_bind (heard_checkSelector _ _) fun _ ↦ ?_
  refine heard_bind (heard_attempt h.building) fun _ ↦ ?_
  exact heard_finish h _ _ _

theorem heard_completeEquivocation (h : P.Completes carrier) (bundle : Bytes) :
    Heard (completeEquivocation P.node P.finish bundle carrier) := by
  refine heard_bind (heard_attempt h.before) fun _ ↦ ?_
  refine heard_bind (heard_carrierRec carrier) fun r ↦ ?_
  refine Triple.ite (fun _ ↦ Triple.throw fun _ _ ↦ nofun) fun _ ↦ ?_
  refine heard_bind (heard_checkConfirmed h) fun _ ↦ ?_
  refine heard_bind (heard_read h.params) fun prm ↦ ?_
  refine heard_bind (heard_read h.next) fun next ↦ ?_
  refine heard_bind (heard_checkWindow _ _ _) fun _ ↦ ?_
  refine heard_bind (heard_attempt h.building) fun _ ↦ ?_
  exact heard_finish h _ _ _

theorem heard_completeOne {pm : PendingMint} (h : P.Completes pm.carrier) :
    Heard (completeOne P pm) := by
  unfold completeOne
  split
  · exact heard_completeNotice h _
  · exact heard_completeClaim h _
  · exact heard_completeEquivocation h _
  · exact Triple.throw fun _ _ ↦ nofun
  · exact heard_completeMint h

/-- An entry that the node answers for is kept or settled. -/
theorem pollOne_settled {pm : PendingMint} (h : P.Answered pm) (d : Desk) :
    (pollOne P pm d).1.stays = true ∨ (pollOne P pm d).1.Settled := by
  obtain ⟨c, hc⟩ := h.lookup
  unfold pollOne
  rw [hc]
  cases c with
  | none => exact .inr trivial
  | some c =>
    dsimp only
    split
    · rename_i hconf
      right
      have hheard := (heard_completeOne (h.completes c hc hconf) d trivial).2
      cases hrun : completeOne P pm d with
      | mk r d' =>
        cases r with
        | ok txid => trivial
        | error s =>
          cases s with
          | node e => exact absurd rfl (hheard _ d' hrun e)
          | rule e => trivial
          | sent e => trivial
    · exact .inl rfl

end Completes

/-! ## Runs -/

theorem map_fst_pollFrom (polls : Nat → PollAnswers) (i : Nat) (pms : List PendingMint) (d : Desk) :
    (pollFrom polls i pms d).1.map Prod.fst = pms := by
  induction pms generalizing i d with
  | nil => rfl
  | cons pm pms ih => exact congrArg (pm :: ·) (ih (i + 1) _)

theorem pollFrom_settled {polls : Nat → PollAnswers} {i : Nat} {pms : List PendingMint}
    (h : ∀ j pm, pms[j]? = some pm → (polls (i + j)).Answered pm) (d : Desk) :
    ∀ x ∈ (pollFrom polls i pms d).1, x.2.stays = true ∨ x.2.Settled := by
  induction pms generalizing i d with
  | nil => nofun
  | cons pm pms ih =>
    refine List.forall_mem_cons.mpr ⟨pollOne_settled (h 0 pm rfl) d, ?_⟩
    refine ih (fun j pm' hj ↦ ?_) _
    have hnext := h (j + 1) pm' hj
    rwa [← Nat.add_assoc, Nat.add_right_comm] at hnext

/-- The entries that were accepted are on the list or have left it, each once, and what left it was
settled. -/
structure Queue.Kept (q : Queue) : Prop where
  counted : q.accepted.Perm (q.pending ++ q.gone.map Prod.fst)
  settled : ∀ x ∈ q.gone, x.2.Settled

theorem Queue.Fresh.kept {q : Queue} (h : q.Fresh) : q.Kept where
  counted := by
    rw [h.accepted, h.pending, h.gone]
    exact .nil
  settled := by
    rw [h.gone]
    exact nofun

theorem Queue.Kept.completePending {q : Queue} (h : q.Kept) {polls : Nat → PollAnswers}
    (hpolls : ∀ i pm, q.pending[i]? = some pm → (polls i).Answered pm) :
    (q.completePending polls).Kept := by
  have hfst := map_fst_pollFrom polls 0 q.pending q.desk
  have hsettled := @pollFrom_settled polls 0 q.pending
    (fun j pm hj ↦ by rw [Nat.zero_add]; exact hpolls j pm hj) q.desk
  unfold Queue.completePending
  generalize pollFrom polls 0 q.pending q.desk = out at hfst hsettled
  obtain ⟨fates, d⟩ := out
  constructor
  · -- the list is what is kept and what is not
    refine h.counted.trans ?_
    rw [List.map_append, ← List.append_assoc]
    refine List.Perm.append_right _ ?_
    rw [← hfst, ← List.map_append]
    exact (List.filter_append_perm (fun x : PendingMint × Fate ↦ x.2.stays) fates).symm.map _
  · intro x hx
    rcases List.mem_append.mp hx with hx | hx
    · obtain ⟨hmem, hgone⟩ := List.mem_filter.mp hx
      rcases hsettled x hmem with hstay | hsettled
      · rw [hstay] at hgone
        cases hgone
      · exact hsettled
    · exact h.settled x hx

theorem Queue.Kept.step {q : Queue} (h : q.Kept) {e : QueueEvent} (he : e.Answered q) :
    (queueStep q e).2.Kept := by
  cases e with
  | accept pm d =>
    refine ⟨?_, h.settled⟩
    refine (h.counted.cons pm).trans ?_
    show (pm :: (q.pending ++ q.gone.map Prod.fst)).Perm
      ((q.pending ++ [pm]) ++ q.gone.map Prod.fst)
    rw [List.append_assoc]
    exact List.perm_middle.symm
  | poll sync polls =>
    cases sync with
    | error e => exact h
    | ok d => exact Queue.Kept.completePending (q := { q with desk := d }) ⟨h.counted, h.settled⟩ he
  | other d => exact ⟨h.counted, h.settled⟩

/-- **Pending completions are kept.**  In every run whose polls are answered by the node, an entry
that was accepted is on the list until it is sent, a rule refuses it or its carrier is spent. -/
theorem pending_kept {q₀ q : Queue} {h : List (QueueEvent × Unit)} (hq₀ : q₀.Fresh)
    (run : Trace queueStep (fun q e ↦ e.Answered q) q₀ h q) :
    q.accepted.Perm (q.pending ++ q.gone.map Prod.fst) ∧ ∀ x ∈ q.gone, x.2.Settled := by
  have hkept : q.Kept :=
    @Trace.invariant _ _ _ _ _ _ _ _ (fun _ ↦ Queue.Kept) run hq₀.kept fun _ _ _ hq he ↦ hq.step he
  exact ⟨hkept.counted, hkept.settled⟩

/-! ### A mint that is dropped -/

/-- A wallet that has built a carrier. -/
def stampBuilt : Desk := (carrierStep stampEnv stampDesk (stampAnswers 1, stampCarrier)).2

/-- A mint on it that does not wait. -/
def stampPending : PendingMint := ⟨none, none, none, ⟨stampTxid, 0⟩⟩

/-- A wallet that starts, the mint once accepted, and a poll of it. -/
def stampQueue : Queue := ⟨stampBuilt, [], [], []⟩

@[inherit_doc stampQueue]
def stampAccepted : Queue := (queueStep stampQueue (.accept stampPending stampBuilt)).2

@[inherit_doc stampQueue]
def stampPolled (P : PollAnswers) : Queue :=
  (queueStep stampAccepted (.poll (.ok stampBuilt) fun _ ↦ P)).2

theorem stampQueue_fresh : stampQueue.Fresh := ⟨rfl, rfl, rfl⟩

theorem trace_stampPolled {guard : Queue → QueueEvent → Prop} {P : PollAnswers}
    (haccept : guard stampQueue (.accept stampPending stampBuilt))
    (hpoll : guard stampAccepted (.poll (.ok stampBuilt) fun _ ↦ P)) :
    ∃ h, Trace queueStep guard stampQueue h (stampPolled P) :=
  ⟨_, .step _ (.step _ .start haccept) hpoll⟩

/-- A poll in which the carrier is confirmed and the mint is sent. -/
def stampSent : PollAnswers :=
  ⟨stampAnswers 1, stampAnswers 1,
    ⟨none, .ok ⟨1000, 40⟩, none, none, none, .ok (txidHex payTxid), none⟩, fun _ ↦ .pays⟩

/-- A poll that cannot reach the node as it looks the carrier up. -/
def stampUnreachable : PollAnswers :=
  { stampSent with
    lookup := { stampAnswers 1 with txout := fun _ ↦ .error (.unreachable "starting") } }

theorem stampSent_answered : stampSent.Answered stampPending where
  lookup := ⟨_, rfl⟩
  completes _ _ _ :=
    { before := nofun
      params := ⟨_, rfl⟩
      next := ⟨_, rfl⟩
      coin := ⟨_, rfl⟩
      building := nofun
      signer := nofun
      dryRun := nofun
      reply := nofun
      passes := nofun }

/-- The mint is sent once its carrier is confirmed. -/
theorem pending_kept_sent : (stampPolled stampSent).accepted.Perm
      ((stampPolled stampSent).pending ++ (stampPolled stampSent).gone.map Prod.fst) ∧
    ∀ x ∈ (stampPolled stampSent).gone, x.2.Settled := by
  obtain ⟨h, run⟩ : ∃ h, Trace queueStep (fun q e ↦ e.Answered q) stampQueue h
      (stampPolled stampSent) := by
    refine trace_stampPolled trivial ?_
    rintro (_ | i) pm hpm
    · obtain rfl := Option.some.inj hpm
      exact stampSent_answered
    · cases hpm
  exact pending_kept stampQueue_fresh run

/-- The node cannot be reached in one poll, and the mint is gone. -/
theorem not_pending_kept : stampQueue.Fresh ∧
    (∃ h, Trace queueStep (fun _ _ ↦ True) stampQueue h (stampPolled stampUnreachable)) ∧
    stampPending ∈ (stampPolled stampUnreachable).accepted ∧
    stampPending ∉ (stampPolled stampUnreachable).pending ∧
    ∃ x ∈ (stampPolled stampUnreachable).gone, x.1 = stampPending ∧ ¬ x.2.Settled := by
  refine ⟨stampQueue_fresh, trace_stampPolled trivial trivial, List.mem_singleton_self _, nofun, ?_⟩
  exact ⟨_, List.mem_singleton_self _, rfl, id⟩

end Yew.Daemon
