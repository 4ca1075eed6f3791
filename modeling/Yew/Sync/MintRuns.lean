import Yew.Build.MintSound
import Yew.Sync.MintSteps

/-!
# Runs of a two-step row

A row moves only along the steps below, and its last states are never left.  The main transaction
expires before a sweep can be built, so the wallet never has two transactions on record that spend
the carrier and can both still be mined.

The callers are `sync` of `core/src/sync.rs` and `finish` and `sweep` of `core/src/build/mint.rs`.
One lemma per caller says what it does to a row and to the pending table, and the invariant of a run
(`MintInv`) is kept by each.

## Source

* `core/src/wallet.rs`: `Wallet::open`
-/

namespace Yew.Sync

open Script Tx Store Build

/-! ## The steps of a row -/

/-- The moves of a row, from its carrier to one of its ends. -/
inductive MintMove : MintState → MintState → Prop
  | confirm : MintMove .carrierSent .carrierConfirmed
  | fail : MintMove .carrierSent .failed
  | send : MintMove .carrierConfirmed .mainSent
  | close : MintMove .carrierConfirmed .lapsed
  | sweepClosed : MintMove .carrierConfirmed .sweepSent
  | finish : MintMove .mainSent .done
  | expire : MintMove .mainSent .lapsed
  | sweep : MintMove .lapsed .sweepSent
  | reclaim : MintMove .sweepSent .swept
  | retry : MintMove .sweepSent .lapsed

/-- The last states are never left. -/
theorem MintMove.inFlight {a b : MintState} (h : MintMove a b) : a.inFlight = true := by
  cases h <;> rfl

/-- A move that a sync makes, and what it goes by. -/
inductive Advances (s : Tables) (tip : Nat) (m : MintRow) : MintState → Prop
  | confirm (state : m.state = .carrierSent) : Advances s tip m .carrierConfirmed
  | fail (state : m.state = .carrierSent) : Advances s tip m .failed
  | close (state : m.state = .carrierConfirmed) : Advances s tip m .lapsed
  | finish (state : m.state = .mainSent) : Advances s tip m .done
  | expire (state : m.state = .mainSent) (late : m.expiryHeight.toNat < tip) :
    Advances s tip m .lapsed
  | reclaim (state : m.state = .sweepSent) : Advances s tip m .swept
  | retry (state : m.state = .sweepSent) (gone : s.pending.get? m.sweepTxid = none) :
    Advances s tip m .lapsed

theorem advances_nextStep {s : Tables} {tip : Nat} {m : MintRow} {state : MintState} {note : String}
    (h : nextStep s tip m = some (state, note)) : Advances s tip m state := by
  unfold nextStep at h
  split at h
  · rename_i hstate
    split at h
    · cases h
      exact .confirm hstate
    · split at h
      · cases h
        exact .fail hstate
      · cases h
  · rename_i hstate
    split at h
    · cases h
    · cases h
      exact .close hstate
  · rename_i hstate
    split at h
    · cases h
      exact .finish hstate
    · split at h
      · rename_i hlate
        cases h
        exact .expire hstate hlate
      · cases h
  · rename_i hstate
    split at h
    · cases h
      exact .reclaim hstate
    · split at h
      · rename_i hgone
        cases h
        exact .retry hstate (Option.isNone_iff_eq_none.mp hgone)
      · cases h
  all_goals cases h

theorem Advances.move {s : Tables} {tip : Nat} {m : MintRow} {state : MintState}
    (h : Advances s tip m state) : MintMove m.state state := by
  cases h with
  | confirm hstate => rw [hstate]; exact .confirm
  | fail hstate => rw [hstate]; exact .fail
  | close hstate => rw [hstate]; exact .close
  | finish hstate => rw [hstate]; exact .finish
  | expire hstate _ => rw [hstate]; exact .expire
  | reclaim hstate => rw [hstate]; exact .reclaim
  | retry hstate _ => rw [hstate]; exact .retry

/-! ## What a sync leaves -/

/-- Every row is under its own key. -/
def Keyed (s : Tables) : Prop := ∀ id m, s.mints.get? id = some m → m.id = id

/-- The two-step rows are the same, and no pending record is new. -/
structure Shrinks (s t : Tables) : Prop where
  mints : t.mints = s.mints
  pending : ∀ txid p, t.pending.get? txid = some p → s.pending.get? txid = some p

namespace Shrinks

theorem refl (s : Tables) : Shrinks s s := ⟨rfl, fun _ _ h ↦ h⟩

theorem trans {s t u : Tables} (h : Shrinks s t) (h' : Shrinks t u) : Shrinks s u :=
  ⟨h'.mints.trans h.mints, fun txid p hp ↦ h.pending txid p (h'.pending txid p hp)⟩

theorem foldl {α : Type} {f : Tables → α → Tables} (h : ∀ s a, Shrinks s (f s a)) (as : List α)
    (s : Tables) : Shrinks s (as.foldl f s) := by
  induction as generalizing s with
  | nil => exact refl s
  | cons a as ih => exact (h s a).trans (ih _)

theorem of_eq {s t : Tables} (hmints : t.mints = s.mints) (hpending : t.pending = s.pending) :
    Shrinks s t := ⟨hmints, fun txid p hp ↦ by rwa [hpending] at hp⟩

theorem of_erase {s t : Tables} {txid : Arr 32} (hmints : t.mints = s.mints)
    (hpending : t.pending = s.pending.erase txid) : Shrinks s t where
  mints := hmints
  pending := by
    intro id p hp
    rw [hpending, OrdMap.get?_erase] at hp
    split at hp
    · cases hp
    · exact hp

end Shrinks

theorem shrinks_recordTransaction (own : Own) (tx : Transaction) (txid : Arr 32) (height : Nat)
    (s : Tables) : Shrinks s (recordTransaction own tx txid height s) := by
  have houtputs : Shrinks s (putOutputs own tx txid s) := by
    unfold putOutputs
    refine Shrinks.foldl (fun s o ↦ ?_) _ s
    exact Shrinks.of_eq rfl rfl
  have htokens (s : Tables) : Shrinks s (putSpentTokens tx txid s) := by
    unfold putSpentTokens
    refine Shrinks.foldl (fun s i ↦ ?_) _ s
    split
    · exact Shrinks.of_eq rfl rfl
    · exact Shrinks.refl s
  have hsettle (s : Tables) : Shrinks s (settlePending txid height s) := by
    unfold settlePending
    split
    · exact @Shrinks.of_erase _ _ txid rfl rfl
    · exact Shrinks.refl s
  refine (houtputs.trans (htokens _)).trans ((hsettle _).trans ?_)
  exact Shrinks.of_eq rfl rfl

theorem shrinks_expireTx (s : Tables) (txid : Arr 32) : Shrinks s (expireTx s txid) := by
  unfold expireTx
  dsimp only
  split
  · exact @Shrinks.of_erase _ _ txid rfl rfl
  · exact @Shrinks.of_erase _ _ txid rfl rfl

theorem shrinks_expirePending (tip : Nat) (s : Tables) : Shrinks s (expirePending tip s) := by
  refine Shrinks.foldl (fun s e ↦ ?_) _ s
  split
  · exact shrinks_expireTx s e.1
  · exact Shrinks.refl s

/-- A row with its next step. -/
def advanced (m : MintRow) : Option (MintState × String) → MintRow
  | some (state, note) => { m with state, note := if note.isEmpty then m.note else note }
  | none => m

/-- One row is advanced, and nothing else is touched. -/
theorem advanceMint_spec {tip : Nat} {x : Tables × List (Int × MintState)} {m : MintRow}
    (hm : x.1.mints.get? m.id = some m) :
    (advanceMint tip x m).1.history = x.1.history ∧ (advanceMint tip x m).1.pending = x.1.pending ∧
      ∀ id, (advanceMint tip x m).1.mints.get? id =
        if m.id = id then some (advanced m (nextStep x.1 tip m)) else x.1.mints.get? id := by
  unfold advanceMint
  cases nextStep x.1 tip m with
  | none =>
    refine ⟨rfl, rfl, fun id ↦ ?_⟩
    by_cases hid : m.id = id
    · rw [if_pos hid, ← hid]
      exact hm
    · rw [if_neg hid]
  | some step =>
    obtain ⟨state, note⟩ := step
    dsimp only
    rw [Tables.setMintState, Tables.updateMint, hm]
    exact ⟨rfl, rfl, fun id ↦ OrdMap.get?_insert _ _ _ _⟩

theorem nextStep_congr {s t : Tables} (hhistory : t.history = s.history)
    (hpending : t.pending = s.pending) (tip : Nat) (m : MintRow) :
    nextStep t tip m = nextStep s tip m := by
  unfold nextStep confirmedHeight
  rw [hhistory, hpending]

/-- Every row of a list is advanced by what the store says at the start. -/
theorem advanceMints_spec {tip : Nat} {ms : List MintRow} {x : Tables × List (Int × MintState)}
    (hnodup : (ms.map MintRow.id).Nodup) (hms : ∀ m ∈ ms, x.1.mints.get? m.id = some m) :
    (ms.foldl (advanceMint tip) x).1.pending = x.1.pending ∧
      (∀ m ∈ ms, (ms.foldl (advanceMint tip) x).1.mints.get? m.id =
        some (advanced m (nextStep x.1 tip m))) ∧
      ∀ id ∉ ms.map MintRow.id, (ms.foldl (advanceMint tip) x).1.mints.get? id =
        x.1.mints.get? id := by
  induction ms generalizing x with
  | nil => exact ⟨rfl, fun m hm ↦ absurd hm List.not_mem_nil, fun _ _ ↦ rfl⟩
  | cons m ms ih =>
    obtain ⟨hout, hnodup⟩ := List.nodup_cons.mp hnodup
    obtain ⟨hhistory, hpending, hget⟩ := (@advanceMint_spec tip _ _) (hms m List.mem_cons_self)
    have hne {m' : MintRow} (hm' : m' ∈ ms) : m.id ≠ m'.id := by
      intro heq
      exact hout (heq ▸ List.mem_map_of_mem hm')
    have hms' : ∀ m' ∈ ms, (advanceMint tip x m).1.mints.get? m'.id = some m' := by
      intro m' hm'
      rw [hget, if_neg (hne hm')]
      exact hms m' (List.mem_cons_of_mem _ hm')
    obtain ⟨hpending', hrows, hothers⟩ := ih hnodup hms'
    refine ⟨hpending'.trans hpending, ?_, ?_⟩
    · intro m' hm'
      rcases List.mem_cons.mp hm' with rfl | hm'
      · rw [List.foldl_cons, hothers _ hout, hget, if_pos rfl]
      · rw [List.foldl_cons, hrows m' hm', nextStep_congr hhistory hpending]
    · intro id hid
      rw [List.map_cons, List.mem_cons, not_or] at hid
      rw [List.foldl_cons, hothers id hid.2, hget, if_neg (Ne.symm hid.1)]

theorem keyed_advanced {m : MintRow} (x : Option (MintState × String)) :
    (advanced m x).id = m.id := by
  cases x <;> rfl

/-- The rows of a store, one under each key. -/
theorem nodup_rows {s : Tables} (h : Keyed s) :
    ((s.mints.entries.map Prod.snd).map MintRow.id).Nodup := by
  have hkeys : (s.mints.entries.map Prod.snd).map MintRow.id = s.mints.entries.map Prod.fst := by
    rw [List.map_map]
    refine List.map_congr_left fun e he ↦ ?_
    exact h e.1 e.2 (OrdMap.mem_entries.mp he)
  rw [hkeys]
  exact (List.pairwise_map.mpr s.mints.sorted).imp ne_of_lt

/-- What a sync does to a row: it takes the next step that the history and the tip allow.  No pending
record is new. -/
theorem syncMints_spec {tip : Nat} {seen : List SeenTx} {history : OrdMap (Arr 32) HistoryRow}
    {s : Tables} (hkeyed : Keyed s) : ∃ s₁, Shrinks s s₁ ∧
      (syncMints tip seen history s).pending = s₁.pending ∧ Keyed (syncMints tip seen history s) ∧
      ∀ id m, s.mints.get? id = some m →
        (syncMints tip seen history s).mints.get? id = some (advanced m (nextStep s₁ tip m)) := by
  let s₀ := expirePending tip
    (seen.foldl (fun s t ↦ recordTransaction t.own t.tx t.txid t.height s) s)
  have hshrinks : Shrinks s s₀ :=
    (Shrinks.foldl (fun s t ↦ shrinks_recordTransaction t.own t.tx t.txid t.height s) seen s).trans
      (shrinks_expirePending tip _)
  let s₁ : Tables := { s₀ with history }
  have hrow {id : Int} {m : MintRow} (hm : s.mints.get? id = some m) : s₁.mints.get? id = some m := by
    rw [← hm]
    exact congrArg (OrdMap.get? · id) hshrinks.mints
  have hkeyed₁ : Keyed s₁ := by
    intro id m hm
    exact hkeyed id m ((congrArg (OrdMap.get? · id) hshrinks.mints).symm.trans hm)
  have hms : ∀ m ∈ s₁.mints.entries.map Prod.snd, s₁.mints.get? m.id = some m := by
    intro m hm
    obtain ⟨⟨id, m'⟩, he, rfl⟩ := List.mem_map.mp hm
    have hget := OrdMap.mem_entries.mp he
    rw [hkeyed₁ id m' hget]
    exact hget
  obtain ⟨hpending, hrows, hothers⟩ := (@advanceMints_spec tip _ (s₁, [])) (nodup_rows hkeyed₁) hms
  have hget {id : Int} {m : MintRow} (hm : s₁.mints.get? id = some m) :
      (advanceMints tip s₁).1.mints.get? id = some (advanced m (nextStep s₁ tip m)) := by
    obtain rfl := hkeyed₁ id m hm
    exact hrows m (List.mem_map.mpr ⟨_, OrdMap.mem_entries.mpr hm, rfl⟩)
  refine ⟨s₁, ⟨hshrinks.mints, hshrinks.pending⟩, hpending, ?_, fun id m hm ↦ hget (hrow hm)⟩
  intro id m hm
  cases hold : s₁.mints.get? id with
  | some m₀ =>
    obtain rfl := Option.some.inj ((hget hold).symm.trans hm)
    rw [keyed_advanced]
    exact hkeyed₁ id m₀ hold
  | none =>
    have hout : id ∉ (s₁.mints.entries.map Prod.snd).map MintRow.id := by
      intro hid
      obtain ⟨m₀, hm₀, rfl⟩ := List.mem_map.mp hid
      rw [hms m₀ hm₀] at hold
      cases hold
    have hnone := (hothers id hout).symm.trans hm
    rw [hold] at hnone
    cases hnone

/-! ## What a broadcast leaves -/

theorem frame_writes (b : Broadcast) (s : Tables) : Frame b s (runAll b.writes s) := by
  have h : BaseFrame b s (runAll b.base s) := BaseFrame.runAll (fun _ hw ↦ hw) s
  rw [Broadcast.writes, runAll_append]
  obtain ⟨intents, mints, mintSeq, claimBounds, heq⟩ := b.step.runAll_writes (runAll b.base s)
  rw [heq]
  exact h.toFrame.other intents mints mintSeq claimBounds

/-- The two-step rows behind all of the writes are those of the step. -/
theorem mints_writes (b : Broadcast) (s : Tables) : ∃ s₁ : Tables, s₁.mints = s.mints ∧
    (runAll b.writes s).mints = (runAll b.step.writes s₁).mints := by
  have h : BaseFrame b s (runAll b.base s) := BaseFrame.runAll (fun _ hw ↦ hw) s
  refine ⟨runAll b.base s, h.mints, ?_⟩
  rw [Broadcast.writes, runAll_append]

/-- A broadcast is recorded, or the server refuses it and the rows are as they were. -/
theorem sendRecorded_cases {b : Broadcast} {s : Tables} (answer : Except NetError String)
    (hreads : b.step.Reads s) :
    (b.Refused answer ∧ (sendRecorded b noFaults answer s).store.mints = s.mints ∧
        (sendRecorded b noFaults answer s).store.pending = s.pending.erase b.txid ∧
        (sendRecorded b noFaults answer s).store.locks = s.locks ∧
        (sendRecorded b noFaults answer s).store.utxos = (s.forgetTx b.txid).utxos) ∨
      (¬ b.Refused answer ∧ (sendRecorded b noFaults answer s).store = runAll b.writes s) := by
  have hfailed : ¬ b.Failed noFaults := by
    rintro (h | ⟨k, hk, -⟩)
    · cases h
    · cases hk
  by_cases hrefused : b.Refused answer
  · left
    have hrows := rollback_all hreads
    rw [← (@sendRecorded_of_refused _ _ _ s) hfailed rfl hrefused |>.1] at hrows
    have hforgotten : (b.step.forgotten b.txid s).mints = s.mints ∧
        (b.step.forgotten b.txid s).pending = s.pending.erase b.txid ∧
        (b.step.forgotten b.txid s).locks = s.locks ∧
        (b.step.forgotten b.txid s).utxos = (s.forgetTx b.txid).utxos := by
      cases b.step <;> exact ⟨rfl, rfl, rfl, rfl⟩
    exact ⟨hrefused, hrows.mints.trans hforgotten.1, hrows.pending.trans hforgotten.2.1,
      hrows.locks.trans hforgotten.2.2.1, hrows.utxos.trans hforgotten.2.2.2⟩
  · exact .inr ⟨hrefused, ((@sendRecorded_of_sent _ _ _ s) hfailed hrefused).1⟩

/-- The step of a row is made, and the row is the only one that moves. -/
theorem mints_mintStep {m : MintRow} {state : MintState} {mainTxid sweepTxid : Option (Arr 32)}
    {note : String} {s s₁ : Tables} (hrow : s.mints.get? m.id = some m) (hmints : s₁.mints = s.mints)
    (id : Int) : (runAll (Step.mintStep m state mainTxid sweepTxid note).writes s₁).mints.get? id =
      if m.id = id then some { m with
        state, mainTxid := mainTxid.getD m.mainTxid, sweepTxid := sweepTxid.getD m.sweepTxid, note }
      else s.mints.get? id := by
  have hrow₁ : s₁.mints.get? m.id = some m := by rw [hmints, hrow]
  simp only [Step.writes, runAll, List.foldl_cons, List.foldl_nil, Tables.setMintState,
    Tables.updateMint, hrow₁]
  rw [OrdMap.get?_insert, hmints]

/-! ## Runs -/

/-- The store, the tip that was seen last, and the transactions that were built for a row: the main
ones and the sweeps. -/
structure MintWorld where
  store : Tables
  tip : Nat
  mains : List (Arr 32)
  sweeps : List (Arr 32)

/-- A call.  `other` is a broadcast that is not a step of the row. -/
inductive MintEvent where
  | sync (tip : Nat) (seen : List SeenTx) (history : OrdMap (Arr 32) HistoryRow)
  | finish (tip : Nat) (built : MintRow → Except WalletError Built) (answer : Except NetError String)
  | sweep (tip : Nat) (built : MintRow → Except WalletError Built) (answer : Except NetError String)
  | other (b : Broadcast) (answer : Except NetError String)

/-- The transaction that is built for a row. -/
def builtTxid (s : Tables) (id : Int) (built : MintRow → Except WalletError Built) : Option (Arr 32) :=
  (s.mints.get? id).bind fun m ↦ (built m).toOption.map Built.txid

/-- One call on the row `id`. -/
def mintStep (id : Int) (w : MintWorld) : MintEvent → Except StepError Unit × MintWorld
  | .sync tip seen history => (.ok (), { w with store := syncMints tip seen history w.store, tip })
  | .finish tip built answer =>
    let r := finish id tip built answer w.store
    (r.1, { w with
      store := r.2, tip, mains := (builtTxid w.store id built).toList ++ w.mains })
  | .sweep tip built answer =>
    let r := sweep id tip built answer w.store
    (r.1, { w with
      store := r.2, tip, sweeps := (builtTxid w.store id built).toList ++ w.sweeps })
  | .other b answer =>
    let r := sendStep b answer w.store
    (r.1, { w with store := r.2 })

/-- A transaction that is not pending and is none of the other kind's. -/
structure MintWorld.New (w : MintWorld) (others : List (Arr 32)) (txid : Arr 32) : Prop where
  apart : txid ∉ others
  pending : w.store.pending.get? txid = none

/-- The step is not one of the row. -/
def Elsewhere (id : Int) : Step → Prop
  | .mintStep m _ _ _ _ => m.id ≠ id
  | _ => True

/-- The tip does not fall, and a transaction that is built is a new one: a second step is no sweep,
and a sweep is no second step.  One that was refused may be built again. -/
def Orderly (id : Int) (w : MintWorld) : MintEvent → Prop
  | .sync tip _ _ => w.tip ≤ tip
  | .finish tip built _ =>
    w.tip ≤ tip ∧ ∀ txid ∈ builtTxid w.store id built, w.New w.sweeps txid
  | .sweep tip built _ =>
    w.tip ≤ tip ∧ ∀ txid ∈ builtTxid w.store id built, w.New w.mains txid
  | .other b _ => b.step.Reads w.store ∧ Elsewhere id b.step ∧ b.txid ∉ w.mains ∧ b.txid ∉ w.sweeps

/-- The answer of a server that certainly refused. -/
def refusal : Except NetError String → Bool
  | .error e => sendRefused (.net e)
  | .ok _ => false

/-- A finish or a sweep that the server refuses. -/
def MintEvent.Refused : MintEvent → Prop
  | .finish _ _ answer => refusal answer = true
  | .sweep _ _ answer => refusal answer = true
  | _ => False

/-- The transaction is on record and can still be mined. -/
def MintWorld.Open (w : MintWorld) (txid : Arr 32) : Prop :=
  ∃ p, w.store.pending.get? txid = some p ∧ (p.expiryHeight = 0 ∨ w.tip ≤ p.expiryHeight)

/-- No main transaction and no sweep are both on record and open. -/
def MintWorld.Exclusive (w : MintWorld) : Prop :=
  ∀ t ∈ w.mains, ∀ u ∈ w.sweeps, ¬ (w.Open t ∧ w.Open u)

/-! ## The invariant -/

/-- A main transaction on record expires with the row's window, and before the row is swept.  A sweep
on record is the last one, of a row that is being swept. -/
structure MintInv (id : Int) (w : MintWorld) (m : MintRow) : Prop where
  row : w.store.mints.get? id = some m
  keyed : Keyed w.store
  mains : ∀ t ∈ w.mains, ∀ p, w.store.pending.get? t = some p →
    p.expiryHeight = m.expiryHeight.toNat ∧ 0 < m.expiryHeight.toNat ∧
      (m.state = .mainSent ∨ m.state = .done ∨ m.expiryHeight.toNat < w.tip)
  sweeps : ∀ t ∈ w.sweeps, ∀ p, w.store.pending.get? t = some p →
    t = m.sweepTxid ∧ (m.state = .sweepSent ∨ m.state = .swept)

section Step

variable {id : Int} {w : MintWorld} {m : MintRow}

theorem MintInv.exclusive (h : MintInv id w m) : w.Exclusive := by
  rintro t ht u hu ⟨⟨p, hp, hopen⟩, q, hq, -⟩
  obtain ⟨hexpiry, hpos, hstate⟩ := h.mains t ht p hp
  obtain ⟨-, hswept⟩ := h.sweeps u hu q hq
  rw [hexpiry] at hopen
  rcases hstate with hstate | hstate | hlate
  · rw [hstate] at hswept
    rcases hswept with hswept | hswept <;> cases hswept
  · rw [hstate] at hswept
    rcases hswept with hswept | hswept <;> cases hswept
  · omega

/-- A row that is neither sent nor done, at a later tip. -/
theorem MintInv.late (h : MintInv id w m) (hsent : m.state ≠ .mainSent) (hdone : m.state ≠ .done)
    {tip : Nat} (htip : w.tip ≤ tip) {t : Arr 32} (ht : t ∈ w.mains) {p : PendingTx}
    (hp : w.store.pending.get? t = some p) : p.expiryHeight = m.expiryHeight.toNat ∧
      0 < m.expiryHeight.toNat ∧ m.expiryHeight.toNat < tip := by
  obtain ⟨hexpiry, hpos, hstate⟩ := h.mains t ht p hp
  have hlate := (hstate.resolve_left hsent).resolve_left hdone
  exact ⟨hexpiry, hpos, hlate.trans_le htip⟩

theorem MintInv.sync (h : MintInv id w m) {tip : Nat} {seen : List SeenTx}
    {history : OrdMap (Arr 32) HistoryRow} (htip : w.tip ≤ tip) :
    ∃ m', MintInv id { w with store := syncMints tip seen history w.store, tip } m' ∧
      (m' = m ∨ MintMove m.state m'.state) := by
  obtain ⟨s₁, hshrinks, hpending, hkeyed, hrows⟩ :=
    (@syncMints_spec tip seen history w.store) h.keyed
  have hrow := hrows id m h.row
  have hold {t : Arr 32} {p : PendingTx}
      (hp : (syncMints tip seen history w.store).pending.get? t = some p) :
      w.store.pending.get? t = some p := hshrinks.pending t p (by rw [← hpending]; exact hp)
  cases hnext : nextStep s₁ tip m with
  | none =>
    rw [hnext] at hrow
    refine ⟨m, ⟨hrow, hkeyed, fun t ht p hp ↦ ?_, fun t ht p hp ↦ h.sweeps t ht p (hold hp)⟩, .inl rfl⟩
    obtain ⟨hexpiry, hpos, hstate⟩ := h.mains t ht p (hold hp)
    exact ⟨hexpiry, hpos, hstate.imp_right (Or.imp_right fun hlate ↦ hlate.trans_le htip)⟩
  | some step =>
    obtain ⟨state, note⟩ := step
    rw [hnext] at hrow
    have hadvances := advances_nextStep hnext
    refine ⟨_, ⟨hrow, hkeyed, fun t ht p hp ↦ ?_, fun t ht p hp ↦ ?_⟩, .inr hadvances.move⟩
    · cases hadvances with
      | finish hstate =>
        obtain ⟨hexpiry, hpos, -⟩ := h.mains t ht p (hold hp)
        exact ⟨hexpiry, hpos, .inr (.inl rfl)⟩
      | expire hstate hlate =>
        obtain ⟨hexpiry, hpos, -⟩ := h.mains t ht p (hold hp)
        exact ⟨hexpiry, hpos, .inr (.inr hlate)⟩
      | confirm hstate | fail hstate | close hstate | reclaim hstate | retry hstate _ =>
        obtain ⟨hexpiry, hpos, hlate⟩ := h.late (by rw [hstate]; decide) (by rw [hstate]; decide)
          htip ht (hold hp)
        exact ⟨hexpiry, hpos, .inr (.inr hlate)⟩
    · obtain ⟨hlast, hswept⟩ := h.sweeps t ht p (hold hp)
      cases hadvances with
      | reclaim hstate => exact ⟨hlast, .inr rfl⟩
      | retry hstate hgone =>
        rw [hpending, hlast, hgone] at hp
        cases hp
      | confirm hstate | fail hstate | close hstate | finish hstate | expire hstate _ =>
        rw [hstate] at hswept
        rcases hswept with hswept | hswept <;> cases hswept

/-- The row is the same, and what is on record of the row's transactions was so before. -/
theorem MintInv.mono (h : MintInv id w m) {w' : MintWorld} (hrow : w'.store.mints.get? id = some m)
    (hkeyed : Keyed w'.store) (htip : w.tip ≤ w'.tip)
    (hmains : ∀ t ∈ w'.mains, ∀ p, w'.store.pending.get? t = some p →
      t ∈ w.mains ∧ w.store.pending.get? t = some p)
    (hsweeps : ∀ t ∈ w'.sweeps, ∀ p, w'.store.pending.get? t = some p →
      t ∈ w.sweeps ∧ w.store.pending.get? t = some p) : MintInv id w' m where
  row := hrow
  keyed := hkeyed
  mains := by
    intro t ht p hp
    obtain ⟨ht, hp⟩ := hmains t ht p hp
    obtain ⟨hexpiry, hpos, hstate⟩ := h.mains t ht p hp
    exact ⟨hexpiry, hpos, hstate.imp_right (Or.imp_right fun hlate ↦ hlate.trans_le htip)⟩
  sweeps := by
    intro t ht p hp
    obtain ⟨ht, hp⟩ := hsweeps t ht p hp
    exact h.sweeps t ht p hp

/-- A pending record that a new transaction does not have. -/
theorem MintWorld.New.absurd {others : List (Arr 32)} {txid : Arr 32} (h : w.New others txid)
    {s : Tables}
    (hpending : ∀ t p, s.pending.get? t = some p → w.store.pending.get? t = some p) {p : PendingTx}
    (hp : s.pending.get? txid = some p) : False := by
  have hold := hpending txid p hp
  rw [h.pending] at hold
  cases hold

/-- Nothing is on record that was not. -/
theorem MintInv.still (h : MintInv id w m) {s : Tables} {tip : Nat} {new new' : List (Arr 32)}
    (hrow : s.mints = w.store.mints) (htip : w.tip ≤ tip)
    (hpending : ∀ t p, s.pending.get? t = some p → w.store.pending.get? t = some p)
    (hnew : ∀ txid ∈ new, w.New w.sweeps txid) (hnew' : ∀ txid ∈ new', w.New w.mains txid) :
    MintInv id ⟨s, tip, new ++ w.mains, new' ++ w.sweeps⟩ m := by
  refine h.mono (by rw [hrow]; exact h.row) ?_ htip ?_ ?_
  · intro id' m' hm'
    rw [hrow] at hm'
    exact h.keyed id' m' hm'
  · intro t ht p hp
    rcases List.mem_append.mp ht with ht | ht
    · exact ((hnew t ht).absurd hpending hp).elim
    · exact ⟨ht, hpending t p hp⟩
  · intro t ht p hp
    rcases List.mem_append.mp ht with ht | ht
    · exact ((hnew' t ht).absurd hpending hp).elim
    · exact ⟨ht, hpending t p hp⟩

theorem refused_iff {b : Broadcast} {answer : Except NetError String} :
    b.Refused answer ↔ refusal answer = true := by
  unfold Broadcast.Refused sendReply refusal
  cases answer with
  | error e =>
    constructor
    · rintro ⟨e', he, hrefused⟩
      cases he
      exact hrefused
    · intro hrefused
      exact ⟨_, rfl, hrefused⟩
  | ok reply =>
    refine iff_of_false ?_ Bool.false_ne_true
    rintro ⟨e, he, hrefused⟩
    dsimp only at he
    split at he
    · cases he
      cases hrefused
    · cases he

/-- A row is replaced by one with the same key. -/
theorem Keyed.replace {s t : Tables} (h : Keyed s) {m m' : MintRow}
    (hget : ∀ id, t.mints.get? id = if m.id = id then some m' else s.mints.get? id)
    (hid : m'.id = m.id) : Keyed t := by
  intro id m₁ hm₁
  rw [hget] at hm₁
  split at hm₁
  · rename_i heq
    cases hm₁
    exact hid.trans heq
  · exact h id m₁ hm₁

/-- A broadcast of a step of the row: it is recorded and the row moves, or the server refuses and
nothing has changed. -/
theorem sendStep_cases {s : Tables} {m : MintRow} {b : Broadcast} {state : MintState}
    {mainTxid sweepTxid : Option (Arr 32)} {note : String} (answer : Except NetError String)
    (hrow : s.mints.get? m.id = some m) (hstep : b.step = .mintStep m state mainTxid sweepTxid note) :
    (refusal answer = true ∧ (sendStep b answer s).2.mints = s.mints ∧
        (sendStep b answer s).2.pending = s.pending.erase b.txid) ∨
      (refusal answer = false ∧
        (∀ id, (sendStep b answer s).2.mints.get? id = if m.id = id then some { m with
            state, mainTxid := mainTxid.getD m.mainTxid, sweepTxid := sweepTxid.getD m.sweepTxid, note }
          else s.mints.get? id) ∧
        (sendStep b answer s).2.pending.get? b.txid = some ⟨b.raw, b.expiryHeight.toNat⟩ ∧
        ∀ t ≠ b.txid, (sendStep b answer s).2.pending.get? t = s.pending.get? t) := by
  have hreads : b.step.Reads s := by
    rw [hstep]
    exact hrow
  rcases sendRecorded_cases answer hreads with ⟨hrefused, hmints, hpending, -⟩ | ⟨hsent, hstore⟩
  · exact .inl ⟨refused_iff.mp hrefused, hmints, hpending⟩
  · obtain ⟨s₁, hs₁, hmints⟩ := mints_writes b s
    have hframe := frame_writes b s
    have hrecorded := recorded_writes hreads
    rw [← hstore] at hmints hframe hrecorded
    refine .inr ⟨Bool.eq_false_iff.mpr fun h ↦ hsent (refused_iff.mpr h), fun id ↦ ?_,
      hrecorded.pending, hframe.pending⟩
    have hget := congrArg (OrdMap.get? · id) hmints
    rw [hstep] at hget
    exact hget.trans (mints_mintStep hrow hs₁ id)

theorem mem_builtTxid (hrow : w.store.mints.get? id = some m)
    {built : MintRow → Except WalletError Built} {t : Built} (hbuilt : built m = .ok t) :
    builtTxid w.store id built = some t.txid := by
  rw [builtTxid, hrow, Option.bind_some, hbuilt]
  rfl

/-- A row that is not being swept has no sweep on record. -/
theorem MintInv.unswept (h : MintInv id w m) (hsweep : m.state ≠ .sweepSent) (hswept : m.state ≠ .swept)
    {t : Arr 32} (ht : t ∈ w.sweeps) {p : PendingTx} (hp : w.store.pending.get? t = some p) : False :=
  (h.sweeps t ht p hp).2.elim hsweep hswept

/-- The pending records behind a refusal. -/
theorem of_get?_erase {s t : Tables} {txid : Arr 32} (h : t.pending = s.pending.erase txid) (u : Arr 32)
    (p : PendingTx) (hp : t.pending.get? u = some p) : s.pending.get? u = some p := by
  rw [h, OrdMap.get?_erase] at hp
  split at hp
  · cases hp
  · exact hp

theorem MintInv.finish (h : MintInv id w m) {tip : Nat} {built : MintRow → Except WalletError Built}
    {answer : Except NetError String} (htip : w.tip ≤ tip)
    (hnew : ∀ txid ∈ (builtTxid w.store id built).toList, w.New w.sweeps txid) :
    ∃ m', MintInv id { w with
        store := (Sync.finish id tip built answer w.store).2, tip
        mains := (builtTxid w.store id built).toList ++ w.mains } m' ∧
      (m' = m ∨ MintMove m.state m'.state) ∧
      (refusal answer = true → m' = m ∨ m.state = .carrierConfirmed ∧ m'.state = .lapsed) := by
  have hstill {s : Tables} (hmints : s.mints = w.store.mints)
      (hpending : ∀ t p, s.pending.get? t = some p → w.store.pending.get? t = some p) :
      MintInv id ⟨s, tip, (builtTxid w.store id built).toList ++ w.mains, w.sweeps⟩ m :=
    (@MintInv.still id w m h s tip _ []) hmints htip hpending hnew nofun
  have hid := h.keyed id m h.row
  unfold Sync.finish
  rw [h.row]
  dsimp only
  split
  · exact ⟨m, hstill rfl fun _ _ hp ↦ hp, .inl rfl, fun _ ↦ .inl rfl⟩
  rename_i hstate
  have hstate : m.state = .carrierConfirmed := not_not.mp hstate
  have hsent : m.state ≠ .mainSent := by rw [hstate]; decide
  have hdone : m.state ≠ .done := by rw [hstate]; decide
  have hsweep : m.state ≠ .sweepSent := by rw [hstate]; decide
  have hswept : m.state ≠ .swept := by rw [hstate]; decide
  split
  · -- the window has closed: the row lapses
    have hget (id' : Int) : (w.store.setMintState id .lapsed none none
        "window closed before the main transaction").mints.get? id' =
        if m.id = id' then some { m with
          state := .lapsed, note := "window closed before the main transaction" }
        else w.store.mints.get? id' := by
      rw [Tables.setMintState, Tables.updateMint, h.row]
      dsimp only
      rw [OrdMap.get?_insert, hid]
      rfl
    refine ⟨{ m with state := .lapsed, note := "window closed before the main transaction" }, ?_,
      .inr (by rw [hstate]; exact .close), fun _ ↦ .inr ⟨hstate, rfl⟩⟩
    have hpending : (w.store.setMintState id .lapsed none none
        "window closed before the main transaction").pending = w.store.pending := by
      rw [Tables.setMintState, Tables.updateMint, h.row]
    refine ⟨(hget id).trans (if_pos hid), h.keyed.replace hget rfl, fun t ht p hp ↦ ?_,
      fun t ht p hp ↦ ?_⟩
    · rw [hpending] at hp
      rcases List.mem_append.mp ht with ht | ht
      · rw [(hnew t ht).pending] at hp
        cases hp
      · obtain ⟨hexpiry, hpos, hlate⟩ := h.late hsent hdone htip ht hp
        exact ⟨hexpiry, hpos, .inr (.inr hlate)⟩
    · rw [hpending] at hp
      exact (h.unswept hsweep hswept ht hp).elim
  rename_i hopen
  cases hbuilt : built m with
  | error e => exact ⟨m, hstill rfl fun _ _ hp ↦ hp, .inl rfl, fun _ ↦ .inl rfl⟩
  | ok t =>
    dsimp only
    have htxid := mem_builtTxid h.row hbuilt
    have ht := hnew t.txid (by rw [htxid]; exact List.mem_singleton_self _)
    have hrow : w.store.mints.get? m.id = some m := by rw [hid]; exact h.row
    have hpos : 0 < m.expiryHeight.toNat := by
      rw [Bool.not_eq_true', Bool.not_eq_false, windowOpen, decide_eq_true_eq] at hopen
      exact (Nat.succ_pos _).trans_le hopen
    rcases sendStep_cases (b := mainBroadcast m t) answer hrow rfl with
      ⟨-, hmints, hpending⟩ | ⟨hanswer, hget, hrecord, hothers⟩
    · exact ⟨m, hstill hmints (of_get?_erase hpending), .inl rfl, fun _ ↦ .inl rfl⟩
    · refine ⟨_, ⟨(hget id).trans (if_pos hid), h.keyed.replace hget rfl, fun u hu p hp ↦ ?_,
        fun u hu p hp ↦ ?_⟩, .inr (by rw [hstate]; exact .send), fun hrefused ↦ ?_⟩
      · by_cases hut : u = t.txid
        · rw [hut] at hp
          obtain rfl := Option.some.inj (hrecord.symm.trans hp)
          exact ⟨rfl, hpos, .inl rfl⟩
        · rw [htxid] at hu
          have hu : u ∈ w.mains := (List.mem_cons.mp hu).resolve_left hut
          have hp : w.store.pending.get? u = some p := (hothers u hut).symm.trans hp
          exact ⟨(h.mains u hu p hp).1, hpos, .inl rfl⟩
      · have hut : u ≠ t.txid := fun heq ↦ ht.apart (heq ▸ hu)
        exact (h.unswept hsweep hswept hu ((hothers u hut).symm.trans hp)).elim
      · rw [hanswer] at hrefused
        cases hrefused

theorem MintInv.sweep (h : MintInv id w m) {tip : Nat} {built : MintRow → Except WalletError Built}
    {answer : Except NetError String} (htip : w.tip ≤ tip)
    (hnew : ∀ txid ∈ (builtTxid w.store id built).toList, w.New w.mains txid) :
    ∃ m', MintInv id { w with
        store := (Sync.sweep id tip built answer w.store).2, tip
        sweeps := (builtTxid w.store id built).toList ++ w.sweeps } m' ∧
      (m' = m ∨ MintMove m.state m'.state) ∧ (refusal answer = true → m' = m) := by
  have hstill {s : Tables} (hmints : s.mints = w.store.mints)
      (hpending : ∀ t p, s.pending.get? t = some p → w.store.pending.get? t = some p) :
      MintInv id ⟨s, tip, w.mains, (builtTxid w.store id built).toList ++ w.sweeps⟩ m :=
    (@MintInv.still id w m h s tip [] _) hmints htip hpending nofun hnew
  have hid := h.keyed id m h.row
  unfold Sync.sweep
  rw [h.row]
  dsimp only
  split
  swap
  · exact ⟨m, hstill rfl fun _ _ hp ↦ hp, .inl rfl, fun _ ↦ rfl⟩
  rename_i hsweepable
  have hstate : m.state = .lapsed ∨ m.state = .carrierConfirmed := hsweepable.imp_right And.left
  have hsent : m.state ≠ .mainSent := by rcases hstate with h | h <;> rw [h] <;> decide
  have hdone : m.state ≠ .done := by rcases hstate with h | h <;> rw [h] <;> decide
  have hsweep : m.state ≠ .sweepSent := by rcases hstate with h | h <;> rw [h] <;> decide
  have hswept : m.state ≠ .swept := by rcases hstate with h | h <;> rw [h] <;> decide
  cases hbuilt : built m with
  | error e => exact ⟨m, hstill rfl fun _ _ hp ↦ hp, .inl rfl, fun _ ↦ rfl⟩
  | ok t =>
    dsimp only
    have htxid := mem_builtTxid h.row hbuilt
    have ht := hnew t.txid (by rw [htxid]; exact List.mem_singleton_self _)
    have hrow : w.store.mints.get? m.id = some m := by rw [hid]; exact h.row
    rcases (@sendStep_cases _ _ (sweepBroadcast m tip t) _ _ _ _) answer hrow rfl with
      ⟨-, hmints, hpending⟩ | ⟨hanswer, hget, -, hothers⟩
    · exact ⟨m, hstill hmints (of_get?_erase hpending), .inl rfl, fun _ ↦ rfl⟩
    · refine ⟨_, ⟨(hget id).trans (if_pos hid), h.keyed.replace hget rfl, fun u hu p hp ↦ ?_,
        fun u hu p hp ↦ ?_⟩, .inr ?_, fun hrefused ↦ ?_⟩
      · have hut : u ≠ t.txid := fun heq ↦ ht.apart (heq ▸ hu)
        obtain ⟨hexpiry, hpos, hlate⟩ := h.late hsent hdone htip hu ((hothers u hut).symm.trans hp)
        exact ⟨hexpiry, hpos, .inr (.inr hlate)⟩
      · by_cases hut : u = t.txid
        · exact ⟨hut, .inl rfl⟩
        · rw [htxid] at hu
          have hu : u ∈ w.sweeps := (List.mem_cons.mp hu).resolve_left hut
          exact (h.unswept hsweep hswept hu ((hothers u hut).symm.trans hp)).elim
      · rcases hstate with hstate | hstate
        · rw [hstate]
          exact .sweep
        · rw [hstate]
          exact .sweepClosed
      · rw [hanswer] at hrefused
        cases hrefused

/-- The rows behind the writes of a step that is not one of the row. -/
theorem mints_elsewhere {st : Step} {s s₁ : Tables} (hreads : st.Reads s) (helse : Elsewhere id st)
    (hmints : s₁.mints = s.mints) (hrow : s.mints.get? id = some m) (hkeyed : Keyed s) :
    (runAll st.writes s₁).mints.get? id = some m ∧ Keyed (runAll st.writes s₁) := by
  have hsame {t : Tables} (ht : t.mints = s₁.mints) : t.mints.get? id = some m ∧ Keyed t := by
    have ht := ht.trans hmints
    refine ⟨by rw [ht]; exact hrow, fun id' m' hm' ↦ ?_⟩
    rw [ht] at hm'
    exact hkeyed id' m' hm'
  cases st with
  | none => exact hsame rfl
  | intentStep original state spendTxid pqSpendTxid note => exact hsame rfl
  | mintStep m₀ state mainTxid sweepTxid note =>
    have hrow₀ : s.mints.get? m₀.id = some m₀ := hreads
    have hget := fun id' ↦ (@mints_mintStep m₀ state mainTxid sweepTxid note s s₁) hrow₀ hmints id'
    refine ⟨?_, hkeyed.replace hget rfl⟩
    rw [hget, if_neg helse]
    exact hrow
  | newMint m₀ bounds =>
    have hne : s₁.nextMintId ≠ id := by
      intro heq
      have hnone := s₁.get?_nextMintId
      rw [heq, hmints, hrow] at hnone
      cases hnone
    have hget (id' : Int) : (runAll (Step.newMint m₀ bounds).writes s₁).mints.get? id' =
        if s₁.nextMintId = id' then some { m₀ with id := s₁.nextMintId } else s.mints.get? id' := by
      have hinsert : (runAll (Step.newMint m₀ bounds).writes s₁).mints = (s₁.insertMint m₀).mints := by
        cases bounds <;> rfl
      rw [hinsert, Tables.insertMint, OrdMap.get?_insert, hmints]
    refine ⟨by rw [hget, if_neg hne]; exact hrow, fun id' m' hm' ↦ ?_⟩
    rw [hget] at hm'
    split at hm'
    · rename_i heq
      cases hm'
      exact heq
    · exact hkeyed id' m' hm'

theorem MintInv.other (h : MintInv id w m) {b : Broadcast} {answer : Except NetError String}
    (hreads : b.step.Reads w.store) (helse : Elsewhere id b.step) (hmains : b.txid ∉ w.mains)
    (hsweeps : b.txid ∉ w.sweeps) :
    MintInv id { w with store := (sendStep b answer w.store).2 } m := by
  have hothers {t : Arr 32} {p : PendingTx} (hne : t ≠ b.txid)
      (hp : (sendStep b answer w.store).2.pending.get? t = some p) :
      w.store.pending.get? t = some p := by
    rcases sendRecorded_cases answer hreads with ⟨-, -, hpending, -⟩ | ⟨-, hstore⟩
    · exact of_get?_erase hpending t p hp
    · have hframe := frame_writes b w.store
      rw [← hstore] at hframe
      exact (hframe.pending t hne).symm.trans hp
  obtain ⟨hrow, hkeyed⟩ : (sendStep b answer w.store).2.mints.get? id = some m ∧
      Keyed (sendStep b answer w.store).2 := by
    rcases sendRecorded_cases answer hreads with ⟨-, hmints, -, -⟩ | ⟨-, hstore⟩
    · refine ⟨(congrArg (OrdMap.get? · id) hmints).trans h.row, fun id' m' hm' ↦ ?_⟩
      exact h.keyed id' m' ((congrArg (OrdMap.get? · id') hmints).symm.trans hm')
    · obtain ⟨s₁, hs₁, hmints⟩ := mints_writes b w.store
      rw [← hstore] at hmints
      obtain ⟨hrow, hkeyed⟩ := mints_elsewhere hreads helse hs₁ h.row h.keyed
      refine ⟨(congrArg (OrdMap.get? · id) hmints).trans hrow, fun id' m' hm' ↦ ?_⟩
      exact hkeyed id' m' ((congrArg (OrdMap.get? · id') hmints).symm.trans hm')
  refine h.mono hrow hkeyed le_rfl ?_ ?_
  · exact fun t ht p hp ↦ ⟨ht, hothers (fun heq ↦ hmains (heq ▸ ht)) hp⟩
  · exact fun t ht p hp ↦ ⟨ht, hothers (fun heq ↦ hsweeps (heq ▸ ht)) hp⟩

/-- One call: the row stays or moves, and behind a refusal it is as it was, but for a row whose window
has closed. -/
theorem MintInv.step (h : MintInv id w m) {e : MintEvent} (g : Orderly id w e) :
    ∃ m', MintInv id (mintStep id w e).2 m' ∧ (m' = m ∨ MintMove m.state m'.state) ∧
      (e.Refused → m' = m ∨ m.state = .carrierConfirmed ∧ m'.state = .lapsed) := by
  cases e with
  | sync tip seen history =>
    obtain ⟨m', hinv, hmove⟩ := (@MintInv.sync id w m h tip seen history) g
    exact ⟨m', hinv, hmove, fun hrefused ↦ hrefused.elim⟩
  | finish tip built answer =>
    exact h.finish g.1 fun txid ht ↦ g.2 txid (Option.mem_toList.mp ht)
  | sweep tip built answer =>
    obtain ⟨m', hinv, hmove, hrefused⟩ := (@MintInv.sweep id w m h tip built answer) g.1
      fun txid ht ↦ g.2 txid (Option.mem_toList.mp ht)
    exact ⟨m', hinv, hmove, fun hr ↦ .inl (hrefused hr)⟩
  | other b answer =>
    obtain ⟨hreads, helse, hmains, hsweeps⟩ := g
    exact ⟨m, h.other hreads helse hmains hsweeps, .inl rfl, fun hrefused ↦ hrefused.elim⟩

end Step

/-! ## The whole run -/

/-- A row whose carrier was sent, and nothing else. -/
structure MintWorld.Started (id : Int) (w : MintWorld) : Prop where
  row : ∃ m, w.store.mints.get? id = some m ∧ m.state = .carrierSent
  keyed : Keyed w.store
  mains : w.mains = []
  sweeps : w.sweeps = []

theorem MintInv.run {id : Int} {w₀ w : MintWorld} {h : List (MintEvent × Except StepError Unit)}
    (start : w₀.Started id) (run : Trace (mintStep id) (Orderly id) w₀ h w) : ∃ m, MintInv id w m := by
  refine @Trace.invariant _ _ _ _ _ _ _ _ (fun _ w ↦ ∃ m, MintInv id w m) run ?_ ?_
  · obtain ⟨m, hrow, -⟩ := start.row
    refine ⟨m, hrow, start.keyed, fun t ht ↦ ?_, fun t ht ↦ ?_⟩
    · rw [start.mains] at ht
      cases ht
    · rw [start.sweeps] at ht
      cases ht
  · rintro _ w e ⟨m, hinv⟩ g
    obtain ⟨m', hinv', -⟩ := hinv.step g
    exact ⟨m', hinv'⟩

/-- **Two-step rows.**  In every run of syncs, finishes, sweeps and other broadcasts, the wallet never
has a main transaction and a sweep of one carrier on record that can both still be mined.  The next
call leaves the row, or moves it along one of its moves; a row in one of its last states stays as it
is; and behind a refusal the row is as it was, unless its window has closed. -/
theorem two_step_rows {id : Int} {w₀ w : MintWorld} {h : List (MintEvent × Except StepError Unit)}
    (start : w₀.Started id) (run : Trace (mintStep id) (Orderly id) w₀ h w) :
    w.Exclusive ∧ ∃ m, w.store.mints.get? id = some m ∧ ∀ e, Orderly id w e →
      ∃ m', (mintStep id w e).2.store.mints.get? id = some m' ∧
        (m' = m ∨ MintMove m.state m'.state) ∧ (m.state.inFlight = false → m' = m) ∧
        (e.Refused → m' = m ∨ m.state = .carrierConfirmed ∧ m'.state = .lapsed) := by
  obtain ⟨m, hinv⟩ := MintInv.run start run
  refine ⟨hinv.exclusive, m, hinv.row, fun e g ↦ ?_⟩
  obtain ⟨m', hinv', hmove, hrefused⟩ := hinv.step g
  refine ⟨m', hinv'.row, hmove, fun hlast ↦ ?_, hrefused⟩
  rcases hmove with heq | hmove
  · exact heq
  · rw [hmove.inFlight] at hlast
    cases hlast

/-! ### A mint that is finished -/

/-- A mint whose carrier was sent. -/
def sentWorld : MintWorld :=
  ⟨Tables.empty.insertMint { sampleMint with state := .carrierSent }, 100, [], []⟩

/-- The history with the carrier confirmed. -/
def carrierSeen : OrdMap (Arr 32) HistoryRow :=
  OrdMap.empty.insert sampleMint.carrierTxid ⟨100, 0, false, false, false, 0, "", "", "", true⟩

/-- The main transaction. -/
def sampleMain : Built := ⟨List.Vector.replicate 32 9, [1], [], []⟩

/-- The carrier is seen confirmed, and the mint is finished. -/
def sampleEvents : List MintEvent :=
  [.sync 100 [] carrierSeen, .finish 100 (fun _ ↦ .ok sampleMain) (.ok "")]

theorem two_step_rows_sample :
    (Trace.run (mintStep 1) sentWorld sampleEvents).2.Exclusive ∧
      ((Trace.run (mintStep 1) sentWorld sampleEvents).2.store.mints.get? 1).map MintRow.state =
        some .mainSent := by
  have hkeyed : Keyed sentWorld.store := by
    intro id m hm
    have hget : (Tables.empty.insertMint { sampleMint with state := .carrierSent }).mints.get? id =
        if 1 = id then some { sampleMint with state := .carrierSent, id := 1 } else none := by
      exact OrdMap.get?_insert _ _ _ _
    rw [sentWorld, hget] at hm
    split at hm
    · rename_i heq
      cases hm
      exact heq
    · cases hm
  have hstart : sentWorld.Started 1 := ⟨⟨_, rfl, rfl⟩, hkeyed, rfl, rfl⟩
  have hguard : Trace.Guarded (mintStep 1) (Orderly 1) sentWorld sampleEvents := by
    refine ⟨le_rfl, ⟨le_rfl, fun txid htxid ↦ ?_⟩, trivial⟩
    have hbuilt : txid = sampleMain.txid := by
      obtain ⟨m, -, hm⟩ := Option.bind_eq_some_iff.mp htxid
      exact (Option.some.inj hm).symm
    rw [hbuilt]
    exact ⟨List.not_mem_nil, by decide +kernel⟩
  exact ⟨(two_step_rows hstart (Trace.trace_run hguard)).1, by decide +kernel⟩

end Yew.Sync
