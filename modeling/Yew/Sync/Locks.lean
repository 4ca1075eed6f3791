import Yew.Sync.MintRuns

/-!
# Locks of pending spends

A broadcast locks the inputs of its transaction before it is sent (`core/src/build/mint.rs`).  A sync
(`core/src/sync.rs`) releases them when the transaction is seen confirmed or has expired, and drops the
lock of any output that is not among the coins it has rebuilt.  In between it locks and unlocks vaults
on the server's word: a spend of another device of the same seed locks the vault in that spend's name,
and the lock goes when the server no longer reports it.  A lock in the name of an own pending
transaction is not the server's to take away.

While the inputs of the pending transactions are among the coins, they stay locked, and no builder can
select them again.

## Source

* `core/src/store.rs`: `Store::replace_utxos`
* `core/src/wallet.rs`: `Wallet::spendable_utxos`
-/

namespace Yew.Sync

open Script Tx Store Build Coins

/-! ## The coins of a sync -/

/-- `spendable_utxos`: the coins that are not locked. -/
def spendableUtxos (s : Tables) : List Utxo :=
  (s.utxos.entries.map Prod.snd).filter fun u ↦ !(s.locks.get? u.outpoint).isSome

/-- `replace_utxos`: an outpoint that is listed twice fails it. -/
def replaceUtxos (utxos : List Utxo) (s : Tables) : Option Tables :=
  if (utxos.map Utxo.outpoint).Nodup then
    some { s with utxos := utxos.foldl (fun m u ↦ m.insert u.outpoint u) .empty }
  else none

/-- The reason is that of a spend. -/
def isSpend (reason : String) : Bool := "spent-by:".toList.isPrefixOf reason.toList

/-- The locks of outputs that are gone from the coins. -/
def dropGone (s : Tables) : Tables :=
  { s with locks := s.locks.retain fun op l ↦ (s.utxos.get? op).isSome || !isSpend l.reason }

/-- The reason of a transaction's locks. -/
def reasonOf (txid : Arr 32) : String := "spent-by:" ++ txidHex txid

/-- What the server says of a vault's spend: `spendPending` and `spendTxid` of a `YedVault`. -/
structure SpendReport where
  outpoint : OutPoint
  spendPending : Bool
  spendTxid : String

/-- The lock of an outpoint that is that of a spend. -/
def spendLock (s : Tables) (op : OutPoint) : Option Lock :=
  (s.locks.get? op).filter fun l ↦ isSpend l.reason

/-- `note_pending_spend`, and whether it panics (on a txid that is cut off a character). -/
def notePendingSpend (s : Tables) (v : SpendReport) : Tables × Bool :=
  if v.spendPending then
    match spendLock s v.outpoint with
    | some _ => (s, false)
    | none =>
      match Keys.txidFromHex v.spendTxid with
      | .ok t => ({ s with locks := s.locks.insert v.outpoint ⟨reasonOf t, 0⟩ }, false)
      | .error (.error _) => (s, false)
      | .error .panic => (s, true)
  else
    match spendLock s v.outpoint with
    | none => (s, false)
    | some l =>
      if String.ofList (l.reason.toList.drop 9) ∈ s.pending.entries.map fun e ↦ txidHex e.1 then
        (s, false)
      else ({ s with locks := s.locks.erase v.outpoint }, false)

/-- One report, unless an earlier one panicked. -/
def noteReport (x : Tables × Bool) (v : SpendReport) : Tables × Bool :=
  if x.2 then x else notePendingSpend x.1 v

/-- The reports of `refresh_vaults`. -/
def noteSpends (reports : List SpendReport) (s : Tables) : Tables × Bool :=
  reports.foldl noteReport (s, false)

/-- What a sync does to the locks: the transactions it records and lets expire, the spends that the
server reports, the coins it has rebuilt, and the locks of what is not among them. -/
def syncLocks (tip : Nat) (seen : List SeenTx) (history : OrdMap (Arr 32) HistoryRow)
    (reports : List SpendReport) (utxos : List Utxo) (s : Tables) : Tables :=
  let x := noteSpends reports (syncMints tip seen history s)
  if x.2 then x.1
  else match replaceUtxos utxos x.1 with
    | some s => dropGone s
    | none => x.1

/-! ## What keeps the locks of a transaction -/

theorem reasonOf_injective {a b : Arr 32} (h : reasonOf a = reasonOf b) : a = b := by
  refine Keys.txidHex_injective (String.ext ?_)
  have hlist := congrArg String.toList h
  rw [reasonOf, reasonOf, String.toList_append, String.toList_append] at hlist
  exact List.append_cancel_left hlist

/-- If the transaction is still pending, it was, and its locks are as they were. -/
def KeepsLocks (txid : Arr 32) (s t : Tables) : Prop :=
  ∀ p, t.pending.get? txid = some p → s.pending.get? txid = some p ∧
    ∀ op l, l.reason = reasonOf txid → s.locks.get? op = some l → t.locks.get? op = some l

namespace KeepsLocks

variable {txid : Arr 32}

theorem of_eq {s t : Tables} (hpending : t.pending = s.pending) (hlocks : t.locks = s.locks) :
    KeepsLocks txid s t := by
  intro p hp
  rw [hpending] at hp
  exact ⟨hp, fun op l _ hl ↦ by rw [hlocks]; exact hl⟩

theorem trans {s t u : Tables} (h : KeepsLocks txid s t) (h' : KeepsLocks txid t u) :
    KeepsLocks txid s u := by
  intro p hp
  obtain ⟨hp, hlocks'⟩ := h' p hp
  obtain ⟨hp, hlocks⟩ := h p hp
  exact ⟨hp, fun op l hl hget ↦ hlocks' op l hl (hlocks op l hl hget)⟩

theorem foldl {α : Type} {f : Tables → α → Tables} (h : ∀ s a, KeepsLocks txid s (f s a))
    (as : List α) (s : Tables) : KeepsLocks txid s (as.foldl f s) := by
  induction as generalizing s with
  | nil => exact of_eq rfl rfl
  | cons a as ih => exact (h s a).trans (ih _)

/-- Another transaction is settled: its locks have another reason. -/
theorem settle {s t : Tables} {other : Arr 32} (hpending : t.pending = s.pending.erase other)
    (hlocks : t.locks = (releaseSpentBy other s).locks) : KeepsLocks txid s t := by
  intro p hp
  rw [hpending, OrdMap.get?_erase] at hp
  split at hp
  · cases hp
  · rename_i hne
    refine ⟨hp, fun op l hl hget ↦ ?_⟩
    rw [hlocks, releaseSpentBy, OrdMap.get?_retain, hget, Option.filter_some, if_pos]
    refine decide_eq_true fun heq ↦ hne ?_
    exact (reasonOf_injective (hl.symm.trans heq)).symm

end KeepsLocks

section Sync

variable (txid : Arr 32)

theorem keepsLocks_recordTransaction (own : Own) (tx : Transaction) (other : Arr 32) (height : Nat)
    (s : Tables) : KeepsLocks txid s (recordTransaction own tx other height s) := by
  have houtputs : KeepsLocks txid s (putOutputs own tx other s) := by
    unfold putOutputs
    refine KeepsLocks.foldl (fun s o ↦ ?_) _ s
    exact KeepsLocks.of_eq rfl rfl
  have htokens (s : Tables) : KeepsLocks txid s (putSpentTokens tx other s) := by
    unfold putSpentTokens
    refine KeepsLocks.foldl (fun s i ↦ ?_) _ s
    split
    · exact KeepsLocks.of_eq rfl rfl
    · exact KeepsLocks.of_eq rfl rfl
  have hsettle (s : Tables) : KeepsLocks txid s (settlePending other height s) := by
    unfold settlePending
    split
    · exact @KeepsLocks.settle _ _ _ other rfl rfl
    · exact KeepsLocks.of_eq rfl rfl
  refine (houtputs.trans (htokens _)).trans ((hsettle _).trans ?_)
  exact KeepsLocks.of_eq rfl rfl

theorem keepsLocks_expirePending (tip : Nat) (s : Tables) :
    KeepsLocks txid s (expirePending tip s) := by
  refine KeepsLocks.foldl (fun s e ↦ ?_) _ s
  split
  · unfold expireTx
    dsimp only
    split
    · exact @KeepsLocks.settle _ _ _ e.1 rfl rfl
    · exact @KeepsLocks.settle _ _ _ e.1 rfl rfl
  · exact KeepsLocks.of_eq rfl rfl

theorem locks_advanceMints (tip : Nat) (ms : List MintRow) (x : Tables × List (Int × MintState)) :
    (ms.foldl (advanceMint tip) x).1.pending = x.1.pending ∧
      (ms.foldl (advanceMint tip) x).1.locks = x.1.locks := by
  induction ms generalizing x with
  | nil => exact ⟨rfl, rfl⟩
  | cons m ms ih =>
    have hone : (advanceMint tip x m).1.pending = x.1.pending ∧
        (advanceMint tip x m).1.locks = x.1.locks := by
      unfold advanceMint
      split
      · rw [Tables.setMintState, Tables.updateMint]
        split
        · exact ⟨rfl, rfl⟩
        · exact ⟨rfl, rfl⟩
      · exact ⟨rfl, rfl⟩
    obtain ⟨hpending, hlocks⟩ := ih (advanceMint tip x m)
    exact ⟨hpending.trans hone.1, hlocks.trans hone.2⟩

theorem keepsLocks_syncMints (tip : Nat) (seen : List SeenTx)
    (history : OrdMap (Arr 32) HistoryRow) (s : Tables) :
    KeepsLocks txid s (syncMints tip seen history s) := by
  have hrecorded := KeepsLocks.foldl
    (fun s (t : SeenTx) ↦ keepsLocks_recordTransaction txid t.own t.tx t.txid t.height s) seen s
  refine (hrecorded.trans (keepsLocks_expirePending txid tip _)).trans ?_
  obtain ⟨hpending, hlocks⟩ := locks_advanceMints tip _ _
  exact KeepsLocks.of_eq hpending hlocks

theorem isSpend_reasonOf : isSpend (reasonOf txid) = true := by
  rw [isSpend, reasonOf, String.toList_append]
  exact List.isPrefixOf_iff_prefix.mpr (List.prefix_append _ _)

theorem drop_reasonOf : String.ofList ((reasonOf txid).toList.drop 9) = txidHex txid := by
  have hdrop : (reasonOf txid).toList.drop 9 = (txidHex txid).toList := by
    rw [reasonOf, String.toList_append]
    exact List.drop_left' rfl
  rw [hdrop, String.ofList_toList]

/-- The server's word changes no record, and no lock in the name of one. -/
theorem keepsLocks_notePendingSpend (v : SpendReport) (s : Tables) :
    (notePendingSpend s v).1.pending = s.pending ∧ KeepsLocks txid s (notePendingSpend s v).1 := by
  unfold notePendingSpend
  split
  · split
    · exact ⟨rfl, .of_eq rfl rfl⟩
    · rename_i hnone
      split
      · refine ⟨rfl, fun p hp ↦ ⟨hp, fun op l hl hget ↦ ?_⟩⟩
        refine (OrdMap.get?_insert _ _ _ _).trans ?_
        rw [if_neg]
        · exact hget
        · rintro rfl
          rw [spendLock, hget, Option.filter_some, hl, if_pos (isSpend_reasonOf txid)] at hnone
          cases hnone
      · exact ⟨rfl, .of_eq rfl rfl⟩
      · exact ⟨rfl, .of_eq rfl rfl⟩
  · split
    · exact ⟨rfl, .of_eq rfl rfl⟩
    · rename_i l₀ hsome
      split
      · exact ⟨rfl, .of_eq rfl rfl⟩
      · rename_i hforeign
        refine ⟨rfl, fun p hp ↦ ⟨hp, fun op l hl hget ↦ ?_⟩⟩
        refine (OrdMap.get?_erase _ _ _).trans ?_
        rw [if_neg]
        · exact hget
        · -- the record is pending, so the lock in its name is not given up
          rintro rfl
          obtain ⟨hfound, -⟩ := Option.filter_eq_some_iff.mp hsome
          obtain rfl := Option.some.inj (hget.symm.trans hfound)
          refine hforeign ?_
          rw [hl, drop_reasonOf]
          exact List.mem_map.mpr ⟨(txid, p), OrdMap.mem_entries.mpr hp, rfl⟩

theorem keepsLocks_noteSpends (reports : List SpendReport) (s : Tables) :
    (noteSpends reports s).1.pending = s.pending ∧ KeepsLocks txid s (noteSpends reports s).1 := by
  suffices hfold : ∀ x : Tables × Bool, (reports.foldl noteReport x).1.pending = x.1.pending ∧
      KeepsLocks txid x.1 (reports.foldl noteReport x).1 from hfold (s, false)
  induction reports with
  | nil => exact fun x ↦ ⟨rfl, .of_eq rfl rfl⟩
  | cons v vs ih =>
    intro x
    have hone : (noteReport x v).1.pending = x.1.pending ∧
        KeepsLocks txid x.1 (noteReport x v).1 := by
      unfold noteReport
      split
      · exact ⟨rfl, .of_eq rfl rfl⟩
      · exact keepsLocks_notePendingSpend txid v x.1
    obtain ⟨hpending, hkeeps⟩ := ih (noteReport x v)
    exact ⟨hpending.trans hone.1, hone.2.trans hkeeps⟩

end Sync

/-! ## What a sync settles -/

/-- The transaction is neither listed as confirmed nor past its expiry height. -/
def Remains (tip : Nat) (seen : List SeenTx) (txid : Arr 32) (p : PendingTx) : Prop :=
  (∀ t ∈ seen, t.txid = txid → confirmed t.height = false) ∧
    ¬ (p.expiryHeight ≠ 0 ∧ p.expiryHeight < tip)

theorem pending_recordTransaction {own : Own} {tx : Transaction} {txid : Arr 32} {height : Nat}
    (hconfirmed : confirmed height = true) (s : Tables) :
    (recordTransaction own tx txid height s).pending.get? txid = none := by
  have hsettle (s : Tables) : (settlePending txid height s).pending.get? txid = none := by
    unfold settlePending
    split
    · rw [Tables.removePendingTx, OrdMap.get?_erase, if_pos rfl]
    · rename_i hnot
      rw [hconfirmed, Bool.true_and, Bool.not_eq_true, Option.isSome_eq_false_iff,
        Option.isNone_iff_eq_none] at hnot
      exact hnot
  exact hsettle _

theorem confirmed_recorded {seen : List SeenTx} {s : Tables} {t : SeenTx} (ht : t ∈ seen)
    (hconfirmed : confirmed t.height = true) :
    (seen.foldl (fun s t ↦ recordTransaction t.own t.tx t.txid t.height s) s).pending.get? t.txid =
      none := by
  induction seen generalizing s with
  | nil => cases ht
  | cons t' ts ih =>
    rw [List.foldl_cons]
    rcases List.mem_cons.mp ht with rfl | ht
    · have hshrinks := Shrinks.foldl
        (fun s (t : SeenTx) ↦ shrinks_recordTransaction t.own t.tx t.txid t.height s) ts
        (recordTransaction t.own t.tx t.txid t.height s)
      rw [Option.eq_none_iff_forall_ne_some]
      intro p hp
      have hold := hshrinks.pending t.txid p hp
      rw [pending_recordTransaction hconfirmed] at hold
      cases hold
    · exact ih ht

/-- The records that a tip has passed are gone. -/
theorem pending_expirePending {tip : Nat} {s : Tables} {txid : Arr 32} {p : PendingTx}
    (h : (expirePending tip s).pending.get? txid = some p) :
    s.pending.get? txid = some p ∧ ¬ (p.expiryHeight ≠ 0 ∧ p.expiryHeight < tip) := by
  have hold := (shrinks_expirePending tip s).pending txid p h
  refine ⟨hold, fun hpast ↦ ?_⟩
  let f : Tables → Arr 32 × PendingTx → Tables := fun s e ↦
    if e.2.expiryHeight ≠ 0 ∧ e.2.expiryHeight < tip then expireTx s e.1 else s
  have hgone {es : List (Arr 32 × PendingTx)} {t : Tables} (hmem : (txid, p) ∈ es) :
      (es.foldl f t).pending.get? txid = none := by
    induction es generalizing t with
    | nil => cases hmem
    | cons e es ih =>
      rw [List.foldl_cons]
      rcases List.mem_cons.mp hmem with rfl | hmem
      · have hstep : f t (txid, p) = expireTx t txid := if_pos hpast
        have herased : (f t (txid, p)).pending.get? txid = none := by
          rw [hstep]
          unfold expireTx
          dsimp only
          split
          · exact (OrdMap.get?_erase t.pending txid txid).trans (if_pos rfl)
          · exact (OrdMap.get?_erase t.pending txid txid).trans (if_pos rfl)
        have hshrinks : Shrinks (f t (txid, p)) (es.foldl f (f t (txid, p))) := by
          refine Shrinks.foldl (fun s e ↦ ?_) es _
          by_cases he : e.2.expiryHeight ≠ 0 ∧ e.2.expiryHeight < tip
          · rw [show f s e = expireTx s e.1 from if_pos he]
            exact shrinks_expireTx s e.1
          · rw [show f s e = s from if_neg he]
            exact Shrinks.refl s
        rw [Option.eq_none_iff_forall_ne_some]
        intro q hq
        have hq := hshrinks.pending txid q hq
        rw [herased] at hq
        cases hq
      · exact ih hmem
  have hnone : (expirePending tip s).pending.get? txid = none := hgone (OrdMap.mem_entries.mpr hold)
  rw [hnone] at h
  cases h

/-- A record that a sync leaves was there, and remains. -/
theorem remains_syncMints {tip : Nat} {seen : List SeenTx} {history : OrdMap (Arr 32) HistoryRow}
    {s : Tables} {txid : Arr 32} {p : PendingTx}
    (h : (syncMints tip seen history s).pending.get? txid = some p) :
    s.pending.get? txid = some p ∧ Remains tip seen txid p := by
  have hpre := (keepsLocks_syncMints txid tip seen history s p h).1
  rw [syncMints] at h
  rw [advanceMints, (locks_advanceMints tip _ _).1] at h
  obtain ⟨hrecorded, hpast⟩ := pending_expirePending h
  refine ⟨hpre, fun t ht htxid ↦ ?_, hpast⟩
  by_contra hconfirmed
  rw [← htxid, confirmed_recorded ht (Bool.not_eq_false _ ▸ hconfirmed)] at hrecorded
  cases hrecorded

/-- The coins are the new ones, and nothing else has changed. -/
theorem replaceUtxos_eq_some {utxos : List Utxo} {s t : Tables} (h : replaceUtxos utxos s = some t) :
    (utxos.map Utxo.outpoint).Nodup ∧
      t = { s with utxos := utxos.foldl (fun m u ↦ m.insert u.outpoint u) .empty } := by
  unfold replaceUtxos at h
  split at h
  · rename_i hnodup
    exact ⟨hnodup, (Option.some.inj h).symm⟩
  · cases h

/-! ## Runs -/

section Runs

-- what the transaction of an id spends
variable (spends : Arr 32 → List OutPoint)

/-- A broadcast with a store that works, or a sync. -/
inductive LockEvent where
  | broadcast (b : Broadcast) (answer : Except NetError String)
  | sync (tip : Nat) (seen : List SeenTx) (history : OrdMap (Arr 32) HistoryRow)
    (reports : List SpendReport) (utxos : List Utxo)

/-- A broadcast is of a new transaction, locks all it spends, and spends nothing that is locked.  A
sync finds the inputs of the records that remain among its coins. -/
def Covers (s : Tables) : LockEvent → Prop
  | .broadcast b _ => b.step.Reads s ∧ s.pending.get? b.txid = none ∧
      (∀ op ∈ spends b.txid, op ∈ b.inputs) ∧ ∀ op ∈ b.inputs, s.locks.get? op = none
  | .sync tip seen _ _ utxos => ∀ txid p, s.pending.get? txid = some p → Remains tip seen txid p →
      ∀ op ∈ spends txid, ∃ u ∈ utxos, u.outpoint = op

/-- Every input of a pending transaction is locked, in its name. -/
def Locked (s : Tables) : Prop :=
  ∀ txid p, s.pending.get? txid = some p → ∀ op ∈ spends txid, ∃ l,
    s.locks.get? op = some l ∧ l.reason = reasonOf txid

variable {spends} {s : Tables}

theorem Locked.broadcast (h : Locked spends s) {b : Broadcast} {answer : Except NetError String}
    (hcovers : Covers spends s (.broadcast b answer)) :
    Locked spends (sendRecorded b noFaults answer s).store := by
  obtain ⟨hreads, hnew, hinputs, hfree⟩ := hcovers
  rcases sendRecorded_cases answer hreads with ⟨-, -, hpending, hlocks, -⟩ | ⟨-, hstore⟩
  · intro txid p hp
    rw [hlocks]
    exact h txid p (of_get?_erase hpending txid p hp)
  · have hframe := frame_writes b s
    have hrecorded := recorded_writes hreads
    rw [hstore]
    intro txid p hp op hop
    by_cases htxid : txid = b.txid
    · subst htxid
      exact ⟨_, hrecorded.locks op (hinputs op hop), rfl⟩
    · rw [hframe.pending txid htxid] at hp
      obtain ⟨l, hl, hreason⟩ := h txid p hp op hop
      refine ⟨l, ?_, hreason⟩
      rw [hframe.locks op ?_]
      · exact hl
      · intro hmem
        rw [hfree op hmem] at hl
        cases hl

section

variable {tip : Nat} {seen : List SeenTx} {history : OrdMap (Arr 32) HistoryRow}
variable {reports : List SpendReport} {utxos : List Utxo}

theorem pending_syncLocks :
    (syncLocks tip seen history reports utxos s).pending = (syncMints tip seen history s).pending := by
  have hnote := fun txid ↦ (keepsLocks_noteSpends txid reports (syncMints tip seen history s)).1
  unfold syncLocks
  dsimp only
  split
  · exact hnote (.replicate 32 0)
  · cases hreplace : replaceUtxos utxos (noteSpends reports (syncMints tip seen history s)).1 with
    | none => exact hnote (.replicate 32 0)
    | some t =>
      obtain ⟨-, rfl⟩ := replaceUtxos_eq_some hreplace
      exact hnote (.replicate 32 0)

theorem Locked.sync (h : Locked spends s)
    (hcovers : Covers spends s (.sync tip seen history reports utxos)) :
    Locked spends (syncLocks tip seen history reports utxos s) := by
  intro txid p hp op hop
  rw [pending_syncLocks] at hp
  obtain ⟨hpre, hremains⟩ := remains_syncMints hp
  obtain ⟨l, hl, hreason⟩ := h txid p hpre op hop
  obtain ⟨hpending, hnote⟩ := keepsLocks_noteSpends txid reports (syncMints tip seen history s)
  have hmints := (keepsLocks_syncMints txid tip seen history s p hp).2 op l hreason hl
  have hkept : (noteSpends reports (syncMints tip seen history s)).1.locks.get? op = some l :=
    (hnote p (by rw [hpending]; exact hp)).2 op l hreason hmints
  refine ⟨l, ?_, hreason⟩
  unfold syncLocks
  dsimp only
  split
  · exact hkept
  · cases hreplace : replaceUtxos utxos (noteSpends reports (syncMints tip seen history s)).1 with
    | none => exact hkept
    | some t =>
      obtain ⟨-, rfl⟩ := replaceUtxos_eq_some hreplace
      refine (OrdMap.get?_retain _ _ _).trans ?_
      rw [show (noteSpends reports (syncMints tip seen history s)).1.locks.get? op = some l from hkept]
      refine Option.filter_eq_some_iff.mpr ⟨rfl, Bool.or_eq_true_iff.mpr (.inl ?_)⟩
      exact OrdMap.isSome_foldl_insert.mpr (.inl (hcovers txid p hpre hremains op hop))

end

end Runs

/-! ### A redeem that waits -/

/-- The coin that the redeem spends. -/
def sampleCoin : Utxo := ⟨⟨.replicate 32 9, 0⟩, "", [], 10000, 500, .yec, 0⟩

end Yew.Sync
