import Yew.Daemon.SweepSafe

/-!
# Carriers and their records

The records of the wallet beside what the node has accepted.  A record is written after the send and
the sync, and a sweep removes the records of carriers that the node does not show.  Where neither
goes wrong, every carrier that the node has accepted and that is unspent has its record.

The calls are those of `yewd/wallet/src/mint.rs`, `claim.rs` and `attest.rs`.  What the node has
accepted is a list beside the wallet, which the wallet does not see; it is told of it by a sync
alone.
-/

namespace Yew.Daemon

open Script Tx Pq Proto Proc Yellowback Build

/-! ## What the node has accepted -/

/-- The carriers that the node has accepted, with what the wallet wrote of them, and the outpoints
that are spent. -/
structure CarrierLedger where
  carriers : List (OutPoint × CarrierRec)
  spent : List OutPoint
deriving DecidableEq

/-- The node accepts a transaction.  A carrier is the first output of its transaction. -/
def CarrierLedger.accept (txid : Arr 32) (l : CarrierLedger) : Handed → CarrierLedger
  | .carrier r => { l with carriers := (⟨txid, 0⟩, r) :: l.carriers }
  | .spend ops => { l with spent := ops ++ l.spent }

/-- The node hears transactions, and accepts them under an id or not. -/
def CarrierLedger.hear (l : CarrierLedger) (accepted : Option (Arr 32)) (txs : List Handed) :
    CarrierLedger :=
  match accepted with
  | some txid => txs.foldl (CarrierLedger.accept txid) l
  | none => l

/-- The records of the wallet have every carrier that is unspent. -/
def CarrierLedger.KeptIn (l : CarrierLedger) (records : OrdMap String CarrierRec) : Prop :=
  ∀ op r, (op, r) ∈ l.carriers → op ∉ l.spent → records.get? op.display = some r

namespace CarrierLedger.KeptIn

variable {l : CarrierLedger} {records : OrdMap String CarrierRec}

/-- A new carrier is recorded. -/
theorem insert (h : l.KeptIn records) {txid : Arr 32} {r : CarrierRec}
    (hnew : ∀ r', (⟨txid, 0⟩, r') ∉ l.carriers) :
    (l.accept txid (.carrier r)).KeptIn (records.insert (OutPoint.display ⟨txid, 0⟩) r) := by
  intro op r' hmem hspent
  rw [OrdMap.get?_insert]
  rcases List.mem_cons.mp hmem with heq | hmem
  · cases heq
    exact if_pos rfl
  · rw [if_neg]
    · exact h op r' hmem hspent
    · intro heq
      obtain rfl := SetAct.display_injective heq
      exact hnew r' hmem

/-- A spend is accepted. -/
theorem spend (h : l.KeptIn records) (ops : List OutPoint) :
    ({ l with spent := ops ++ l.spent } : CarrierLedger).KeptIn records :=
  fun op r hmem hspent ↦ h op r hmem fun hold ↦ hspent (List.mem_append_right _ hold)

/-- Records of carriers that are spent are removed. -/
theorem erase (h : l.KeptIn records) {ks : List String}
    (hks : ∀ op r, (op, r) ∈ l.carriers → op.display ∈ ks → op ∈ l.spent) :
    l.KeptIn (ks.foldl OrdMap.erase records) := by
  intro op r hmem hspent
  rw [OrdMap.get?_foldl_erase, if_neg]
  · exact h op r hmem hspent
  · exact fun hk ↦ hspent (hks op r hmem hk)

/-- Spends are accepted or refused. -/
theorem hear_spend (h : l.KeptIn records) (accepted : Option (Arr 32)) (ops : List OutPoint) :
    (l.hear accepted [.spend ops]).KeptIn records := by
  cases accepted with
  | none => exact h
  | some txid => exact h.spend ops

/-- A spend is accepted and the records of its carriers are removed. -/
theorem hear_erase (h : l.KeptIn records) (txid : Arr 32) (ops : List OutPoint) :
    (l.hear (some txid) [.spend ops]).KeptIn
      ((ops.map OutPoint.display).foldl OrdMap.erase records) := by
  refine (h.hear_spend (some txid) ops).erase fun op r _ hk ↦ ?_
  obtain ⟨op', hop', heq⟩ := List.mem_map.mp hk
  obtain rfl := SetAct.display_injective heq
  exact List.mem_append_left _ hop'

end CarrierLedger.KeptIn

/-! ## Runs -/

/-- The wallet and the node. -/
structure CarrierWorld where
  desk : Desk
  ledger : CarrierLedger

/-- Every carrier that is accepted and unspent has its record. -/
def CarrierWorld.Kept (w : CarrierWorld) : Prop := w.ledger.KeptIn w.desk.carriers

/-- A call, with the id under which the node accepts what it sends; a spend that was handed out and
is accepted from elsewhere; or a spend that the node drops again, as when it expires unmined. -/
inductive CarrierEvent where
  | call (A : Answers) (c : CarrierCall) (accepted : Option (Arr 32))
  | spent (carriers : List OutPoint)
  | dropped (carriers : List OutPoint)

/-- What was handed to the node between two desks. -/
def Desk.sentUntil (d d' : Desk) : List Handed :=
  d'.handed.take (d'.handed.length - d.handed.length)

/-- One event as a step. -/
def worldStep (env : Env) (w : CarrierWorld) : CarrierEvent → Unit × CarrierWorld
  | .call A c accepted =>
    let d := c.run env A w.desk
    ((), ⟨d, w.ledger.hear accepted (w.desk.sentUntil d)⟩)
  | .spent ops => ((), { w with ledger := { w.ledger with spent := ops ++ w.ledger.spent } })
  | .dropped ops =>
    ((), { w with ledger := { w.ledger with spent := w.ledger.spent.filter (· ∉ ops) } })

/-- What the node replies to the transaction that a call sends, when the reply arrives. -/
def CarrierCall.reply : CarrierCall → Option String
  | build _ B => B.reply.toOption
  | mint F _ => F.reply.toOption
  | claim F _ _ _ => F.reply.toOption
  | notice F _ _ => F.reply.toOption
  | equivocation F _ _ => F.reply.toOption
  | cancel K => K.build.reply.toOption
  | sweep S => S.reply.toOption

/-- How the build of a call ends, if it may build a carrier. -/
def CarrierCall.building : CarrierCall → Option BuildAnswers
  | build _ B => some B
  | cancel K => some K.build
  | _ => none

/-- `sendrawtransaction` replies with the id of a transaction that the node has accepted, and no two
carriers have one outpoint. -/
def Honest (w : CarrierWorld) : CarrierEvent → Prop
  | .call _ c accepted =>
    (∀ txid, c.reply = some txid → ∃ t, accepted = some t ∧ txid = txidHex t) ∧
      ∀ t, accepted = some t → ∀ r, (⟨t, 0⟩, r) ∉ w.ledger.carriers
  | _ => True

/-- The reply to a carrier that is accepted arrives and the sync behind it succeeds, the node shows a
sweep every carrier that is unspent, and a spend is dropped only while its carriers are recorded. -/
def Careful (w : CarrierWorld) : CarrierEvent → Prop
  | .call A c accepted =>
    (∀ B, c.building = some B → accepted ≠ none → B.reply.toOption ≠ none ∧ B.syncFault = none) ∧
      ∀ S, c = .sweep S → ∀ op r, (op, r) ∈ w.ledger.carriers → op ∉ w.ledger.spent →
        nodeCoin A op ≠ .ok none
  | .spent _ => True
  | .dropped ops => ∀ op ∈ ops, ∀ r, (op, r) ∈ w.ledger.carriers →
      w.desk.carriers.get? op.display = some r

/-! ## One call -/

section Step

variable {A : Answers} {d d' : Desk} {l : CarrierLedger} {accepted : Option (Arr 32)}

theorem sentUntil_same (h : d'.handed = d.handed) : d.sentUntil d' = [] := by
  rw [Desk.sentUntil, h, Nat.sub_self, List.take_zero]

theorem sentUntil_hand {tx : Handed} (h : d'.handed = tx :: d.handed) : d.sentUntil d' = [tx] := by
  rw [Desk.sentUntil, h, List.length_cons, Nat.add_sub_cancel_left]
  rfl

/-- The node hears nothing. -/
theorem kept_same (h : l.KeptIn d.carriers) (hcarriers : d'.carriers = d.carriers)
    (hhanded : d'.handed = d.handed) :
    (l.hear accepted (d.sentUntil d')).KeptIn d'.carriers := by
  rw [sentUntil_same hhanded, hcarriers]
  cases accepted with
  | none => exact h
  | some txid => exact h

theorem toOption_eq_some {ε α : Type} {x : Except ε α} {a : α} (h : x = .ok a) :
    x.toOption = some a := by
  rw [h]
  rfl

theorem carrierAt_txidHex (t : Arr 32) : carrierAt (txidHex t) = .ok ⟨t, 0⟩ := by
  rw [carrierAt, Keys.txidFromHex_txidHex]

theorem kept_build (h : l.KeptIn d.carriers) {B : BuildAnswers} (hdid : BuildDid B d d')
    (hreply : ∀ txid, B.reply.toOption = some txid → ∃ t, accepted = some t ∧ txid = txidHex t)
    (hnew : ∀ t, accepted = some t → ∀ r, (⟨t, 0⟩, r) ∉ l.carriers)
    (hheard : accepted ≠ none → B.reply.toOption ≠ none ∧ B.syncFault = none) :
    (l.hear accepted (d.sentUntil d')).KeptIn d'.carriers := by
  cases hdid with
  | nothing hsame => exact kept_same h hsame.carriers hsame.handed
  | handed r hsame hlost =>
    rw [sentUntil_hand hsame.handed, hsame.carriers]
    cases haccepted : accepted with
    | none => exact h
    -- an accepted carrier without a record: the reply or the sync has failed
    | some t =>
      obtain ⟨hsome, hsync⟩ := hheard (by rw [haccepted]; exact Option.some_ne_none t)
      cases hB : B.reply with
      | error e => exact absurd (by rw [hB]; rfl) hsome
      | ok txid =>
        obtain ⟨t', -, rfl⟩ := hreply txid (toOption_eq_some hB)
        exact absurd (carrierAt_txidHex t') (hlost _ _ hB hsync)
  | recorded r txid op hB hop hsame =>
    obtain ⟨t, haccepted, rfl⟩ := hreply txid (toOption_eq_some hB)
    rw [carrierAt_txidHex] at hop
    cases hop
    rw [sentUntil_hand hsame.handed, hsame.carriers, haccepted]
    exact h.insert (hnew t haccepted)

theorem kept_complete (h : l.KeptIn d.carriers) {F : Finish} {carrier : OutPoint}
    (hdid : CompletionDid F carrier d d')
    (hreply : ∀ txid, F.reply.toOption = some txid → ∃ t, accepted = some t ∧ txid = txidHex t) :
    (l.hear accepted (d.sentUntil d')).KeptIn d'.carriers := by
  obtain ⟨ts, -, hsame | hsame | ⟨⟨txid, hF⟩, hsame⟩⟩ := hdid.out
  · exact kept_same h hsame.carriers hsame.handed
  · have hhanded : d'.handed = .spend [carrier] :: d.handed := hsame.handed
    rw [sentUntil_hand hhanded, hsame.carriers]
    exact h.hear_spend accepted [carrier]
  · have hhanded : d'.handed = .spend [carrier] :: d.handed := hsame.handed
    obtain ⟨t, haccepted, -⟩ := hreply txid (toOption_eq_some hF)
    rw [sentUntil_hand hhanded, hsame.carriers, haccepted]
    exact h.hear_erase t [carrier]

theorem kept_cancel (h : l.KeptIn d.carriers) {K : CancelAnswers} (hdid : CancelDid K d d')
    (hreply : ∀ txid, K.build.reply.toOption = some txid →
      ∃ t, accepted = some t ∧ txid = txidHex t)
    (hnew : ∀ t, accepted = some t → ∀ r, (⟨t, 0⟩, r) ∉ l.carriers)
    (hheard : accepted ≠ none → K.build.reply.toOption ≠ none ∧ K.build.syncFault = none) :
    (l.hear accepted (d.sentUntil d')).KeptIn d'.carriers := by
  obtain ⟨d₁, hbuild, hsigned⟩ := hdid
  obtain ⟨hcarriers, hhanded⟩ : d'.carriers = d₁.carriers ∧ d'.handed = d₁.handed := by
    rcases hsigned with hsame | ⟨t, -, hsame⟩
    · exact ⟨hsame.carriers, hsame.handed⟩
    · exact ⟨hsame.carriers, hsame.handed⟩
  have hkept := kept_build h hbuild hreply hnew hheard
  rw [Desk.sentUntil, hhanded, hcarriers]
  exact hkept

/-- A sweep forgets carriers that the node does not show, and removes those that it has spent. -/
theorem kept_sweep (h : l.KeptIn d.carriers) {S : SweepAnswers} (hdid : SweepDid A S d d')
    (hreply : ∀ txid, S.reply.toOption = some txid → ∃ t, accepted = some t ∧ txid = txidHex t)
    (hshown : ∀ op r, (op, r) ∈ l.carriers → op ∉ l.spent → nodeCoin A op ≠ .ok none) :
    (l.hear accepted (d.sentUntil d')).KeptIn d'.carriers := by
  rcases hdid with hsame | ⟨next, window, lapsed, gone, hsifted, hout⟩
  · exact kept_same h hsame.carriers hsame.handed
  have hforgot : l.KeptIn (gone.foldl OrdMap.erase d.carriers) := by
    refine h.erase fun op r hmem hk ↦ ?_
    obtain ⟨r', op', -, hparam, hnone⟩ := (siftCarriers_eq_ok hsifted.sifted).2 _ hk
    rw [outpointParam_display] at hparam
    obtain rfl := Except.ok.inj hparam
    exact not_not.mp fun hspent ↦ hshown op r hmem hspent hnone
  rcases hout with hsame | hsame | ⟨⟨txid, hS⟩, hsame⟩
  · have hhanded : d'.handed = d.handed := hsame.handed
    rw [sentUntil_same hhanded, hsame.carriers]
    cases accepted with
    | none => exact hforgot
    | some t => exact hforgot
  · have hhanded : d'.handed = .spend (lapsed.map Prod.fst) :: d.handed := hsame.handed
    rw [sentUntil_hand hhanded, hsame.carriers]
    exact hforgot.hear_spend accepted _
  · have hhanded : d'.handed = .spend (lapsed.map Prod.fst) :: d.handed := hsame.handed
    obtain ⟨t, haccepted, -⟩ := hreply txid (toOption_eq_some hS)
    rw [sentUntil_hand hhanded, hsame.carriers, haccepted]
    have hkept := hforgot.hear_erase t (lapsed.map Prod.fst)
    rw [List.map_map] at hkept
    exact hkept

end Step

/-! ## The whole run -/

section Run

variable {env : Env} {w w₀ : CarrierWorld}

theorem CarrierWorld.Kept.step (h : w.Kept) {e : CarrierEvent} (honest : Honest w e)
    (careful : Careful w e) : (worldStep env w e).2.Kept := by
  cases e with
  | spent ops => exact h.spend ops
  | dropped ops =>
    intro op r hmem hspent
    by_cases hop : op ∈ ops
    · exact careful op hop r hmem
    · exact h op r hmem fun hold ↦
        hspent (List.mem_filter.mpr ⟨hold, decide_eq_true hop⟩)
  | call A c accepted =>
    obtain ⟨hreply, hnew⟩ := honest
    obtain ⟨hheard, hshown⟩ := careful
    have hdid := @CarrierCall.did env A c w.desk
    cases c with
    | build ask B => exact kept_build h hdid hreply hnew (hheard B rfl)
    | mint F carrier => exact kept_complete h hdid hreply
    | claim F passes selector carrier => exact kept_complete h hdid hreply
    | notice F selector carrier => exact kept_complete h hdid hreply
    | equivocation F bundle carrier => exact kept_complete h hdid hreply
    | cancel K => exact kept_cancel h hdid hreply hnew (hheard K.build rfl)
    | sweep S => exact kept_sweep h hdid hreply (hshown S rfl)

end Run

/-! ### A sync that fails -/

/-- A node that has accepted nothing, and the wallet with one coin. -/
def stampWorld : CarrierWorld := ⟨stampDesk, ⟨[], []⟩⟩

/-- The build of a carrier that the node accepts. -/
def stampEvent (syncFault : Option RpcError) : CarrierEvent :=
  .call (stampAnswers 1) (.build ⟨[1], 1, [], none, false⟩ { stampBuild with syncFault })
    (some stampTxid)

theorem honest_stampEvent (syncFault : Option RpcError) : Honest stampWorld (stampEvent syncFault) := by
  constructor
  · rintro txid ⟨⟩
    exact ⟨stampTxid, rfl, rfl⟩
  · intro t _ r hmem
    cases hmem

/-- The record of the carrier. -/
def stampRec : CarrierRec := ⟨1, stampKey 0 1, [1], 1, [], 1⟩

/-- The node accepts the carrier and replies, the sync fails, and the wallet has no record. -/
theorem not_carriers_kept : stampWorld.ledger.carriers = [] ∧
    ∃ h w, Trace (worldStep stampEnv) Honest stampWorld h w ∧ ¬ w.Kept := by
  refine ⟨rfl, _, _, .step (stampEvent (some ⟨-28, "loading"⟩)) .start (honest_stampEvent _), ?_⟩
  intro hkept
  obtain ⟨hledger, hnone⟩ :
      (worldStep stampEnv stampWorld (stampEvent (some ⟨-28, "loading"⟩))).2.ledger =
        ⟨[(⟨stampTxid, 0⟩, stampRec)], []⟩ ∧
      (worldStep stampEnv stampWorld
        (stampEvent (some ⟨-28, "loading"⟩))).2.desk.carriers.entries = [] := by decide +kernel
  have hget := hkept ⟨stampTxid, 0⟩ stampRec (by rw [hledger]; exact List.mem_singleton_self _)
    (by rw [hledger]; exact List.not_mem_nil)
  have hmem := OrdMap.mem_entries.mpr hget
  rw [hnone] at hmem
  cases hmem

end Yew.Daemon
