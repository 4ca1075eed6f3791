import Yew.Build.Record

/-!
# Record-then-send, all or nothing

A rollback brings the locks back as they were and forgets every row of the transaction, so it
brings the store back exactly when the store held no row of the transaction before.  The step is
the last thing that is written, so a write that fails leaves it alone, with one exception: a new
claim row whose bounds could not be written is not taken back.

The writes and their order are those of `Broadcast` in `core/src/build/mint.rs`, and the rollback is
`forget_tx` of `core/src/store.rs` with the undo of the builder.  The result is an equality of
stores, table by table, for every place where a write can fail.
-/

namespace Yew.Build

open Tx Coins Store

/-! ## What the writes touch -/

/-- Outside the locks of the inputs and the rows of the transaction, seven tables are the same. -/
structure Frame (b : Broadcast) (s t : Tables) : Prop where
  locks : ∀ op ∉ b.inputs, t.locks.get? op = s.locks.get? op
  pending : ∀ id ≠ b.txid, t.pending.get? id = s.pending.get? id
  history : ∀ id ≠ b.txid, t.history.get? id = s.history.get? id
  ownOutputs : ∀ op : OutPoint, op.txid ≠ b.txid → t.ownOutputs.get? op = s.ownOutputs.get? op
  ownTokens : t.ownTokens = s.ownTokens
  spentTokens : ∀ k, (ofLex k).1 ≠ b.txid → t.spentTokens.get? k = s.spentTokens.get? k
  utxos : ∀ op : OutPoint, op.txid ≠ b.txid → t.utxos.get? op = s.utxos.get? op

/-- So are the other intents and the two-step rows. -/
structure BaseFrame (b : Broadcast) (s t : Tables) : Prop extends Frame b s t where
  intents : ∀ op : OutPoint, op.txid ≠ b.txid → t.intents.get? op = s.intents.get? op
  mints : t.mints = s.mints
  mintSeq : t.mintSeq = s.mintSeq
  claimBounds : t.claimBounds = s.claimBounds

namespace BaseFrame

variable {b : Broadcast} {s t u : Tables}

theorem refl (b : Broadcast) (s : Tables) : BaseFrame b s s where
  locks _ _ := rfl
  pending _ _ := rfl
  history _ _ := rfl
  ownOutputs _ _ := rfl
  ownTokens := rfl
  spentTokens _ _ := rfl
  utxos _ _ := rfl
  intents _ _ := rfl
  mints := rfl
  mintSeq := rfl
  claimBounds := rfl

theorem trans (h : BaseFrame b s t) (h' : BaseFrame b t u) : BaseFrame b s u where
  locks op hop := (h'.locks op hop).trans (h.locks op hop)
  pending id hid := (h'.pending id hid).trans (h.pending id hid)
  history id hid := (h'.history id hid).trans (h.history id hid)
  ownOutputs op hop := (h'.ownOutputs op hop).trans (h.ownOutputs op hop)
  ownTokens := h'.ownTokens.trans h.ownTokens
  spentTokens k hk := (h'.spentTokens k hk).trans (h.spentTokens k hk)
  utxos op hop := (h'.utxos op hop).trans (h.utxos op hop)
  intents op hop := (h'.intents op hop).trans (h.intents op hop)
  mints := h'.mints.trans h.mints
  mintSeq := h'.mintSeq.trans h.mintSeq
  claimBounds := h'.claimBounds.trans h.claimBounds

/-- Each write before the step stays within the frame. -/
theorem of_mem {w : Write} (hw : w ∈ b.base) (s : Tables) : BaseFrame b s (w s) := by
  have hself := refl b s
  simp only [Broadcast.base, Broadcast.recordBroadcast, List.mem_append, List.mem_map,
    List.mem_singleton] at hw
  obtain (⟨op, hop, rfl⟩ | rfl) | ⟨r, -, rfl⟩ := hw
  · refine { hself with locks := fun op' hop' ↦ ?_ }
    have hne : op ≠ op' := fun heq ↦ hop' (heq ▸ hop)
    simp [Tables.lock, hne]
  · refine { hself with pending := fun id hid ↦ ?_ }
    simp [Tables.insertPendingTx, hid.symm]
  · cases r with
    | history row =>
      refine { hself with history := fun id hid ↦ ?_ }
      simp [RowWrite.apply, Tables.upsertHistory, hid.symm]
    | ownOutput n value hash160 =>
      refine { hself with ownOutputs := fun op hop ↦ ?_ }
      have hne : (⟨b.txid, n⟩ : OutPoint) ≠ op := fun heq ↦ hop (by rw [← heq])
      simp [RowWrite.apply, Tables.insertOwnOutput, hne]
    | spentToken op cents =>
      refine { hself with spentTokens := fun k hk ↦ ?_ }
      have hne : toLex (b.txid, op) ≠ k := fun heq ↦ hk (by rw [← heq]; rfl)
      simp [RowWrite.apply, Tables.insertSpentToken, hne]
    | utxo n u =>
      refine { hself with utxos := fun op hop ↦ ?_ }
      have hne : (⟨b.txid, n⟩ : OutPoint) ≠ op := fun heq ↦ hop (by rw [← heq])
      simp [RowWrite.apply, Tables.upsertUtxo, hne]
    | intent n i =>
      refine { hself with intents := fun op hop ↦ ?_ }
      have hne : (⟨b.txid, n⟩ : OutPoint) ≠ op := fun heq ↦ hop (by rw [← heq])
      simp [RowWrite.apply, Tables.upsertIntent, hne]

/-- So does any run of such writes. -/
theorem runAll {ws : List Write} (h : ∀ w ∈ ws, w ∈ b.base) (s : Tables) :
    BaseFrame b s (Build.runAll ws s) := by
  induction ws generalizing s with
  | nil => exact refl b s
  | cons w ws ih =>
    have hw := of_mem (h w List.mem_cons_self) s
    exact hw.trans (ih (fun w' hw' ↦ h w' (List.mem_cons_of_mem w hw')) (w s))

end BaseFrame

theorem runAll_append (ws ws' : List Write) (s : Tables) :
    runAll (ws ++ ws') s = runAll ws' (runAll ws s) := List.foldl_append

/-- The frame says nothing about the other tables. -/
theorem Frame.other {b : Broadcast} {s t : Tables} (h : Frame b s t)
    (intents : OrdMap OutPoint IntentRow) (mints : OrdMap Int MintRow) (mintSeq : Int)
    (claimBounds : OrdMap Int (Nat × Int)) :
    Frame b s { t with intents, mints, mintSeq, claimBounds } where
  locks := h.locks
  pending := h.pending
  history := h.history
  ownOutputs := h.ownOutputs
  ownTokens := h.ownTokens
  spentTokens := h.spentTokens
  utxos := h.utxos

/-! ## The rollback -/

theorem runAll_unlock (ops : List OutPoint) (t : Tables) :
    runAll (ops.map fun op s ↦ s.unlock op) t =
      { t with locks := t.locks.filter fun op ↦ op ∉ ops } := by
  induction ops generalizing t with
  | nil =>
    have hlocks : t.locks.filter (fun op ↦ decide (op ∉ ([] : List OutPoint))) = t.locks :=
      OrdMap.filter_eq_self.mpr (by simp)
    rw [hlocks]
    rfl
  | cons op ops ih =>
    have hlocks : (t.locks.erase op).filter (fun k ↦ decide (k ∉ ops)) =
        t.locks.filter fun k ↦ decide (k ∉ op :: ops) := by
      apply OrdMap.ext_get?
      intro k
      by_cases hk : op = k
      · simp [hk]
      · simp [hk, Ne.symm hk]
    rw [List.map_cons, runAll, List.foldl_cons, ← runAll, ih, ← hlocks]
    rfl

theorem runAll_lock (ls : List (OutPoint × Lock)) (t : Tables) :
    runAll (ls.map fun l s ↦ s.lock l.1 l.2.reason l.2.expiryHeight) t =
      { t with locks := ls.foldl (fun m e ↦ m.insert e.1 e.2) t.locks } := by
  induction ls generalizing t with
  | nil => rfl
  | cons l ls ih =>
    rw [List.map_cons, runAll, List.foldl_cons, ← runAll, ih]
    rfl

/-- Unlocking the inputs and locking again what was locked brings the locks back. -/
theorem locks_restored {b : Broadcast} {s t : Tables} (h : Frame b s t) :
    (s.locks.entries.filter fun e ↦ e.1 ∈ b.inputs).foldl (fun m e ↦ m.insert e.1 e.2)
      (t.locks.filter fun op ↦ op ∉ b.inputs) = s.locks := by
  apply OrdMap.ext_get?
  intro k
  rw [OrdMap.foldl_insert_get? _ _ _ (s.locks.sorted.filter _),
    OrdMap.lookup_filter (fun op ↦ decide (op ∈ b.inputs)), OrdMap.get?_filter]
  by_cases hk : k ∈ b.inputs
  · simp [hk, OrdMap.get?]
  · simp [hk, h.locks k hk]

/-- What a rollback leaves of the store before the step is undone. -/
theorem rollback_frame {b : Broadcast} {s t : Tables} (h : Frame b s t) :
    runAll (b.inputs.map (fun op s ↦ s.unlock op) ++
      (s.locks.entries.filter fun e ↦ e.1 ∈ b.inputs).map
        (fun l s ↦ s.lock l.1 l.2.reason l.2.expiryHeight) ++
      [fun s ↦ s.forgetTx b.txid]) t =
    { s.forgetTx b.txid with
      intents := t.intents.filter fun op ↦ op.txid ≠ b.txid
      mints := t.mints
      mintSeq := t.mintSeq
      claimBounds := t.claimBounds } := by
  have hpending : t.pending.erase b.txid = s.pending.erase b.txid :=
    OrdMap.filter_congr fun id hid ↦ h.pending id (by simpa using hid)
  have hhistory : t.history.erase b.txid = s.history.erase b.txid :=
    OrdMap.filter_congr fun id hid ↦ h.history id (by simpa using hid)
  have hown : t.ownOutputs.filter (fun op ↦ decide (op.txid ≠ b.txid)) =
      s.ownOutputs.filter fun op ↦ decide (op.txid ≠ b.txid) :=
    OrdMap.filter_congr fun op hop ↦ h.ownOutputs op (of_decide_eq_true hop)
  have hspent : t.spentTokens.filter (fun k ↦ decide ((ofLex k).1 ≠ b.txid)) =
      s.spentTokens.filter fun k ↦ decide ((ofLex k).1 ≠ b.txid) :=
    OrdMap.filter_congr fun k hk ↦ h.spentTokens k (of_decide_eq_true hk)
  have hutxos : t.utxos.filter (fun op ↦ decide (op.txid ≠ b.txid)) =
      s.utxos.filter fun op ↦ decide (op.txid ≠ b.txid) :=
    OrdMap.filter_congr fun op hop ↦ h.utxos op (of_decide_eq_true hop)
  rw [runAll_append, runAll_append, runAll_unlock, runAll_lock, locks_restored h]
  simp only [runAll, List.foldl_cons, List.foldl_nil, Tables.forgetTx, hpending, hhistory, hown,
    h.ownTokens, hspent, hutxos]

/-! ## The store after a rollback -/

/-- The locks and every row: the tables without the mint counter and the bounds. -/
structure SameRows (s t : Tables) : Prop where
  locks : s.locks = t.locks
  pending : s.pending = t.pending
  history : s.history = t.history
  ownOutputs : s.ownOutputs = t.ownOutputs
  ownTokens : s.ownTokens = t.ownTokens
  spentTokens : s.spentTokens = t.spentTokens
  utxos : s.utxos = t.utxos
  intents : s.intents = t.intents
  mints : s.mints = t.mints

namespace SameRows

variable {s t u : Tables}

theorem refl (s : Tables) : SameRows s s := ⟨rfl, rfl, rfl, rfl, rfl, rfl, rfl, rfl, rfl⟩

theorem symm (h : SameRows s t) : SameRows t s :=
  ⟨h.locks.symm, h.pending.symm, h.history.symm, h.ownOutputs.symm, h.ownTokens.symm,
    h.spentTokens.symm, h.utxos.symm, h.intents.symm, h.mints.symm⟩

theorem trans (h : SameRows s t) (h' : SameRows t u) : SameRows s u :=
  ⟨h.locks.trans h'.locks, h.pending.trans h'.pending, h.history.trans h'.history,
    h.ownOutputs.trans h'.ownOutputs, h.ownTokens.trans h'.ownTokens,
    h.spentTokens.trans h'.spentTokens, h.utxos.trans h'.utxos, h.intents.trans h'.intents,
    h.mints.trans h'.mints⟩

end SameRows

namespace Step

/-- The step is about the row, or the intent, that is in the store. -/
def Reads (s : Tables) : Step → Prop
  | mintStep m _ _ _ _ => s.mints.get? m.id = some m
  | intentStep original _ _ _ _ => s.intents.get? original.outpoint = some original
  | _ => True

/-- The store with the transaction forgotten, and the intent it was to spend put back. -/
def forgotten (txid : Arr 32) (s : Tables) : Step → Tables
  | intentStep original _ _ _ _ => (s.forgetTx txid).upsertIntent original
  | _ => s.forgetTx txid

/-- A step writes none of the seven tables. -/
theorem runAll_writes (st : Step) (t : Tables) : ∃ intents mints mintSeq claimBounds,
    runAll st.writes t = { t with intents, mints, mintSeq, claimBounds } := by
  cases st with
  | none => exact ⟨t.intents, t.mints, t.mintSeq, t.claimBounds, rfl⟩
  | mintStep m state mainTxid sweepTxid note =>
    simp only [writes, runAll, List.foldl_cons, List.foldl_nil, Tables.setMintState,
      Tables.updateMint]
    split
    · exact ⟨t.intents, _, t.mintSeq, t.claimBounds, rfl⟩
    · exact ⟨t.intents, t.mints, t.mintSeq, t.claimBounds, rfl⟩
  | newMint m bounds => cases bounds <;> exact ⟨t.intents, _, _, _, rfl⟩
  | intentStep original state spendTxid pqSpendTxid note =>
    exact ⟨_, t.mints, t.mintSeq, t.claimBounds, rfl⟩

/-- Undoing a step that was made. -/
theorem undo_writes {st : Step} {txid : Arr 32} {s t u : Tables} (hreads : st.Reads s)
    (hmints : t.mints = s.mints)
    (hintents : ∀ op : OutPoint, op.txid ≠ txid → t.intents.get? op = s.intents.get? op)
    (hu : u = runAll st.writes t) :
    SameRows (runAll (st.undo (st.rowId u)) { s.forgetTx txid with
      intents := u.intents.filter fun op ↦ op.txid ≠ txid
      mints := u.mints
      mintSeq := u.mintSeq
      claimBounds := u.claimBounds }) (st.forgotten txid s) := by
  have hfilter : t.intents.filter (fun op ↦ decide (op.txid ≠ txid)) =
      s.intents.filter fun op ↦ decide (op.txid ≠ txid) :=
    OrdMap.filter_congr fun op hop ↦ hintents op (of_decide_eq_true hop)
  subst hu
  cases st with
  | none => exact ⟨rfl, rfl, rfl, rfl, rfl, rfl, rfl, hfilter, hmints⟩
  | mintStep m state mainTxid sweepTxid note =>
    have hrow : s.mints.get? m.id = some m := hreads
    simp only [writes, undo, runAll, List.foldl_cons, List.foldl_nil, Tables.setMintState,
      Tables.restoreMintStep, Tables.updateMint, hmints, hrow, OrdMap.get?_insert, if_pos]
    refine ⟨rfl, rfl, rfl, rfl, rfl, rfl, rfl, hfilter, ?_⟩
    apply OrdMap.ext_get?
    intro id
    by_cases hid : m.id = id
    · simp [forgotten, Tables.forgetTx, ← hid, hrow]
    · simp [forgotten, Tables.forgetTx, hid]
  | newMint m bounds =>
    have herase : (s.mints.insert t.nextMintId { m with id := t.nextMintId }).erase t.nextMintId =
        s.mints := by
      apply OrdMap.ext_get?
      intro id
      by_cases hid : t.nextMintId = id
      · rw [← hid, ← hmints, t.get?_nextMintId]
        simp
      · simp [hid]
    cases bounds with
    | none =>
      refine ⟨rfl, rfl, rfl, rfl, rfl, rfl, rfl, hfilter, ?_⟩
      rw [← hmints] at herase
      exact herase.trans hmints
    | some bs =>
      refine ⟨rfl, rfl, rfl, rfl, rfl, rfl, rfl, hfilter, ?_⟩
      rw [← hmints] at herase
      exact herase.trans hmints
  | intentStep original state spendTxid pqSpendTxid note =>
    refine ⟨rfl, rfl, rfl, rfl, rfl, rfl, rfl, ?_, hmints⟩
    apply OrdMap.ext_get?
    intro op
    simp only [writes, undo, runAll, List.foldl_cons, List.foldl_nil, forgotten,
      Tables.upsertIntent, Tables.forgetTx, OrdMap.get?_insert, OrdMap.get?_filter]
    by_cases hop : original.outpoint = op
    · simp [hop]
    · by_cases htx : op.txid = txid
      · simp [hop, htx]
      · simp [hop, htx, hintents op htx]

end Step

/-- A rollback after some of the writes before the step. -/
theorem rollback_base {b : Broadcast} {s t : Tables} (hreads : b.step.Reads s)
    (h : BaseFrame b s t) :
    SameRows (runAll (b.rollback (s.locks.entries.filter fun e ↦ e.1 ∈ b.inputs) none) t)
      (b.step.forgotten b.txid s) := by
  have hintents : t.intents.filter (fun op ↦ decide (op.txid ≠ b.txid)) =
      s.intents.filter fun op ↦ decide (op.txid ≠ b.txid) :=
    OrdMap.filter_congr fun op hop ↦ h.intents op (of_decide_eq_true hop)
  rw [Broadcast.rollback, runAll_append, rollback_frame h.toFrame, hintents, h.mints,
    h.mintSeq, h.claimBounds]
  generalize b.step = st at hreads
  cases st with
  | none => exact ⟨rfl, rfl, rfl, rfl, rfl, rfl, rfl, rfl, rfl⟩
  | newMint m bounds => exact ⟨rfl, rfl, rfl, rfl, rfl, rfl, rfl, rfl, rfl⟩
  | intentStep original state spendTxid pqSpendTxid note =>
    exact ⟨rfl, rfl, rfl, rfl, rfl, rfl, rfl, rfl, rfl⟩
  | mintStep m state mainTxid sweepTxid note =>
    have hrow : s.mints.get? m.id = some m := hreads
    simp only [Step.undo, runAll, List.foldl_cons, List.foldl_nil, Tables.restoreMintStep,
      Tables.updateMint, hrow]
    exact ⟨rfl, rfl, rfl, rfl, rfl, rfl, rfl, rfl, OrdMap.insert_get?_self hrow⟩

/-- A rollback after all of the writes. -/
theorem rollback_all {b : Broadcast} {s : Tables} (hreads : b.step.Reads s) :
    SameRows (runAll (b.rollback (s.locks.entries.filter fun e ↦ e.1 ∈ b.inputs)
      (b.step.rowId (runAll b.writes s))) (runAll b.writes s)) (b.step.forgotten b.txid s) := by
  have h : BaseFrame b s (runAll b.base s) := BaseFrame.runAll (fun _ hw ↦ hw) s
  have hframe : Frame b s (runAll b.writes s) := by
    rw [Broadcast.writes, runAll_append]
    obtain ⟨intents, mints, mintSeq, claimBounds, heq⟩ := b.step.runAll_writes (runAll b.base s)
    rw [heq]
    exact h.toFrame.other intents mints mintSeq claimBounds
  rw [Broadcast.rollback, runAll_append, rollback_frame hframe]
  refine Step.undo_writes hreads h.mints h.intents ?_
  rw [Broadcast.writes, runAll_append]

/-! ## When forgetting changes nothing -/

/-- The step's undo writes this intent back. -/
def Step.PutsBack (op : OutPoint) : Step → Prop
  | intentStep original _ _ _ _ => original.outpoint = op
  | _ => False

/-- No table holds a row of the transaction, but for the intent that the undo writes back. -/
structure Fresh (b : Broadcast) (s : Tables) : Prop where
  pending : s.pending.get? b.txid = none
  history : s.history.get? b.txid = none
  ownOutputs : ∀ op : OutPoint, op.txid = b.txid → s.ownOutputs.get? op = none
  ownTokens : ∀ op : OutPoint, op.txid = b.txid → s.ownTokens.get? op = none
  spentTokens : ∀ k, (ofLex k).1 = b.txid → s.spentTokens.get? k = none
  utxos : ∀ op : OutPoint, op.txid = b.txid → s.utxos.get? op = none
  intents : ∀ op : OutPoint, op.txid = b.txid → ¬ b.step.PutsBack op → s.intents.get? op = none

theorem erase_eq_self_iff {κ ν : Type} [LinearOrder κ] {m : OrdMap κ ν} {k : κ} :
    m.erase k = m ↔ m.get? k = none := by
  rw [OrdMap.erase, OrdMap.filter_eq_self]
  simp

theorem filter_txid_eq_self_iff {ν : Type} {m : OrdMap OutPoint ν} {txid : Arr 32} :
    m.filter (fun op ↦ op.txid ≠ txid) = m ↔ ∀ op : OutPoint, op.txid = txid → m.get? op = none := by
  rw [OrdMap.filter_eq_self]
  simp

/-- The intents are as they were when no other intent of the transaction was there. -/
theorem forgotten_intents_iff {b : Broadcast} {s : Tables} (hreads : b.step.Reads s) :
    (b.step.forgotten b.txid s).intents = s.intents ↔
      ∀ op : OutPoint, op.txid = b.txid → ¬ b.step.PutsBack op → s.intents.get? op = none := by
  generalize b.step = st at hreads
  cases st with
  | none => exact filter_txid_eq_self_iff.trans (by simp [Step.PutsBack])
  | mintStep m state mainTxid sweepTxid note =>
    exact filter_txid_eq_self_iff.trans (by simp [Step.PutsBack])
  | newMint m bounds => exact filter_txid_eq_self_iff.trans (by simp [Step.PutsBack])
  | intentStep original state spendTxid pqSpendTxid note =>
    have hrow : s.intents.get? original.outpoint = some original := hreads
    have hget (op : OutPoint) : ((s.forgetTx b.txid).upsertIntent original).intents.get? op =
        if original.outpoint = op then some original
        else if op.txid = b.txid then none else s.intents.get? op := by
      simp [Tables.upsertIntent, Tables.forgetTx, OrdMap.get?_insert]
    constructor
    · intro h op hop hne
      have hsame := hget op
      rw [show ((s.forgetTx b.txid).upsertIntent original).intents = s.intents from h,
        if_neg (show original.outpoint ≠ op from hne), if_pos hop] at hsame
      exact hsame
    · intro h
      apply OrdMap.ext_get?
      intro op
      refine (hget op).trans ?_
      split_ifs with heq htx
      · rw [← heq, hrow]
      · exact (h op htx heq).symm
      · rfl

/-- A store with the transaction forgotten is the store it was, exactly if it was fresh. -/
theorem sameRows_forgotten_iff {b : Broadcast} {s : Tables} (hreads : b.step.Reads s) :
    SameRows (b.step.forgotten b.txid s) s ↔ Fresh b s := by
  have hother : ∀ st : Step, (st.forgotten b.txid s).locks = s.locks ∧
      (st.forgotten b.txid s).mints = s.mints ∧
      (st.forgotten b.txid s).pending = s.pending.erase b.txid ∧
      (st.forgotten b.txid s).history = s.history.erase b.txid ∧
      (st.forgotten b.txid s).ownOutputs = s.ownOutputs.filter (fun op ↦ op.txid ≠ b.txid) ∧
      (st.forgotten b.txid s).ownTokens = s.ownTokens.filter (fun op ↦ op.txid ≠ b.txid) ∧
      (st.forgotten b.txid s).spentTokens =
        s.spentTokens.filter (fun k ↦ (ofLex k).1 ≠ b.txid) ∧
      (st.forgotten b.txid s).utxos = s.utxos.filter fun op ↦ op.txid ≠ b.txid := by
    intro st
    cases st <;> exact ⟨rfl, rfl, rfl, rfl, rfl, rfl, rfl, rfl⟩
  obtain ⟨hlocks, hmints, hpending, hhistory, hown, htokens, hspent, hutxos⟩ := hother b.step
  have hspentIff : (b.step.forgotten b.txid s).spentTokens = s.spentTokens ↔
      ∀ k, (ofLex k).1 = b.txid → s.spentTokens.get? k = none := by
    rw [hspent, OrdMap.filter_eq_self]
    simp
  constructor
  · intro h
    exact ⟨erase_eq_self_iff.mp (hpending.symm.trans h.pending),
      erase_eq_self_iff.mp (hhistory.symm.trans h.history),
      filter_txid_eq_self_iff.mp (hown.symm.trans h.ownOutputs),
      filter_txid_eq_self_iff.mp (htokens.symm.trans h.ownTokens), hspentIff.mp h.spentTokens,
      filter_txid_eq_self_iff.mp (hutxos.symm.trans h.utxos),
      (forgotten_intents_iff hreads).mp h.intents⟩
  · intro h
    exact ⟨hlocks, hpending.trans (erase_eq_self_iff.mpr h.pending),
      hhistory.trans (erase_eq_self_iff.mpr h.history),
      hown.trans (filter_txid_eq_self_iff.mpr h.ownOutputs),
      htokens.trans (filter_txid_eq_self_iff.mpr h.ownTokens), hspentIff.mpr h.spentTokens,
      hutxos.trans (filter_txid_eq_self_iff.mpr h.utxos),
      (forgotten_intents_iff hreads).mpr h.intents, hmints⟩

/-! ## The complete record -/

/-- Writes that only add: our lock, our pending record, and every row stay. -/
structure Grows (b : Broadcast) (s t : Tables) : Prop where
  locks : ∀ op, s.locks.get? op = some ⟨b.reason, b.expiryHeight.toNat⟩ →
    t.locks.get? op = some ⟨b.reason, b.expiryHeight.toNat⟩
  pending : s.pending.get? b.txid = some ⟨b.raw, b.expiryHeight.toNat⟩ →
    t.pending.get? b.txid = some ⟨b.raw, b.expiryHeight.toNat⟩
  history : ∀ id, (s.history.get? id).isSome → (t.history.get? id).isSome
  ownOutputs : ∀ op, (s.ownOutputs.get? op).isSome → (t.ownOutputs.get? op).isSome
  spentTokens : ∀ k, (s.spentTokens.get? k).isSome → (t.spentTokens.get? k).isSome
  utxos : ∀ op, (s.utxos.get? op).isSome → (t.utxos.get? op).isSome
  intents : ∀ op, (s.intents.get? op).isSome → (t.intents.get? op).isSome

theorem isSome_insert {κ ν : Type} [LinearOrder κ] {m : OrdMap κ ν} {k j : κ} {v : ν}
    (h : (m.get? j).isSome) : ((m.insert k v).get? j).isSome := by
  rw [OrdMap.get?_insert]
  split
  · rfl
  · exact h

theorem isSome_insertNew {κ ν : Type} [LinearOrder κ] {m : OrdMap κ ν} {k j : κ} {v : ν}
    (h : (m.get? j).isSome) : ((m.insertNew k v).get? j).isSome := by
  rw [OrdMap.get?_insertNew]
  split
  · rfl
  · exact h

namespace Grows

variable {b : Broadcast} {s t u : Tables}

theorem refl (b : Broadcast) (s : Tables) : Grows b s s :=
  ⟨fun _ h ↦ h, fun h ↦ h, fun _ h ↦ h, fun _ h ↦ h, fun _ h ↦ h, fun _ h ↦ h, fun _ h ↦ h⟩

theorem trans (h : Grows b s t) (h' : Grows b t u) : Grows b s u where
  locks op := h'.locks op ∘ h.locks op
  pending := h'.pending ∘ h.pending
  history id := h'.history id ∘ h.history id
  ownOutputs op := h'.ownOutputs op ∘ h.ownOutputs op
  spentTokens k := h'.spentTokens k ∘ h.spentTokens k
  utxos op := h'.utxos op ∘ h.utxos op
  intents op := h'.intents op ∘ h.intents op

theorem of_mem {w : Write} (hw : w ∈ b.writes) (s : Tables) : Grows b s (w s) := by
  have hself := refl b s
  simp only [Broadcast.writes, Broadcast.base, Broadcast.recordBroadcast, List.mem_append,
    List.mem_map, List.mem_singleton] at hw
  obtain ((⟨op, -, rfl⟩ | rfl) | ⟨r, -, rfl⟩) | hstep := hw
  · refine { hself with locks := fun op' h ↦ ?_ }
    simp only [Tables.lock, OrdMap.get?_insert]
    split
    · rfl
    · exact h
  · refine { hself with pending := fun _ ↦ ?_ }
    simp only [Tables.insertPendingTx, OrdMap.get?_insert, if_pos]
  · cases r with
    | history row => exact { hself with history := fun _ ↦ isSome_insert }
    | ownOutput n value hash160 => exact { hself with ownOutputs := fun _ ↦ isSome_insertNew }
    | spentToken op cents => exact { hself with spentTokens := fun _ ↦ isSome_insertNew }
    | utxo n u => exact { hself with utxos := fun _ ↦ isSome_insert }
    | intent n i => exact { hself with intents := fun _ ↦ isSome_insert }
  · generalize b.step = st at hstep
    cases st with
    | none => cases hstep
    | mintStep m state mainTxid sweepTxid note =>
      rw [Step.writes, List.mem_singleton] at hstep
      subst hstep
      simp only [Tables.setMintState, Tables.updateMint]
      split <;> exact { hself with }
    | newMint m bounds =>
      rw [Step.writes, List.mem_cons, List.mem_map] at hstep
      obtain rfl | ⟨bs, -, rfl⟩ := hstep <;> exact { hself with }
    | intentStep original state spendTxid pqSpendTxid note =>
      rw [Step.writes, List.mem_singleton] at hstep
      subst hstep
      exact { hself with intents := fun _ ↦ isSome_insert }

theorem runAll {ws : List Write} (h : ∀ w ∈ ws, w ∈ b.writes) (s : Tables) :
    Grows b s (Build.runAll ws s) := by
  induction ws generalizing s with
  | nil => exact refl b s
  | cons w ws ih =>
    have hw := of_mem (h w List.mem_cons_self) s
    exact hw.trans (ih (fun w' hw' ↦ h w' (List.mem_cons_of_mem w hw')) (w s))

/-- What one of the writes establishes and all of them keep holds at the end. -/
theorem establishes {P : Tables → Prop} {w : Write} (hw : w ∈ b.writes) (hest : ∀ s, P (w s))
    (hkeep : ∀ s t, Grows b s t → P s → P t) (s : Tables) : P (Build.runAll b.writes s) := by
  obtain ⟨before, after, heq⟩ := List.append_of_mem hw
  have hafter : ∀ w' ∈ after, w' ∈ b.writes := fun w' hw' ↦ by
    rw [heq]
    exact List.mem_append_right _ (List.mem_cons_of_mem w hw')
  rw [heq, runAll_append]
  exact hkeep _ _ (Grows.runAll hafter _) (hest _)

end Grows

/-- The row of a write is in the store. -/
def RowWrite.Present (txid : Arr 32) (t : Tables) : RowWrite → Prop
  | history _ => (t.history.get? txid).isSome
  | ownOutput n _ _ => (t.ownOutputs.get? ⟨txid, n⟩).isSome
  | spentToken op _ => (t.spentTokens.get? (toLex (txid, op))).isSome
  | utxo n _ => (t.utxos.get? ⟨txid, n⟩).isSome
  | intent n _ => (t.intents.get? ⟨txid, n⟩).isSome

/-- The step is made in `t`, from the store `s`. -/
def Step.Made (s t : Tables) : Step → Prop
  | none => True
  | mintStep m state mainTxid sweepTxid note => t.mints.get? m.id = some { m with
      state, mainTxid := mainTxid.getD m.mainTxid, sweepTxid := sweepTxid.getD m.sweepTxid, note }
  | newMint m bounds => t.mints.get? s.nextMintId = some { m with id := s.nextMintId } ∧
      ∀ b ∈ bounds, t.claimBounds.get? s.nextMintId = some b
  | intentStep original state spendTxid pqSpendTxid note => t.intents.get? original.outpoint =
      some { original with state, spendTxid, pqSpendTxid, note }

/-- The tables that hold the rows of transactions are the same. -/
structure SameTxRows (s t : Tables) : Prop where
  history : t.history = s.history
  ownOutputs : t.ownOutputs = s.ownOutputs
  spentTokens : t.spentTokens = s.spentTokens
  utxos : t.utxos = s.utxos
  intents : t.intents = s.intents

theorem SameTxRows.refl (s : Tables) : SameTxRows s s := ⟨rfl, rfl, rfl, rfl, rfl⟩

/-- A row write does the same to the same rows. -/
theorem SameTxRows.apply {s t : Tables} (h : SameTxRows s t) (txid : Arr 32) (w : RowWrite) :
    SameTxRows (w.apply txid s) (w.apply txid t) := by
  cases w with
  | history row => exact ⟨congrArg (·.insert txid row) h.history, h.2, h.3, h.4, h.5⟩
  | ownOutput n value hash160 =>
    exact ⟨h.1, congrArg (·.insertNew ⟨txid, n⟩ (value, hash160)) h.ownOutputs, h.3, h.4, h.5⟩
  | spentToken op cents =>
    exact ⟨h.1, h.2, congrArg (·.insertNew (toLex (txid, op)) cents) h.spentTokens, h.4, h.5⟩
  | utxo n u =>
    exact ⟨h.1, h.2, h.3, congrArg (·.insert ⟨txid, n⟩ { u with outpoint := ⟨txid, n⟩ }) h.utxos, h.5⟩
  | intent n i =>
    exact ⟨h.1, h.2, h.3, h.4,
      congrArg (·.insert ⟨txid, n⟩ { i with outpoint := ⟨txid, n⟩ }) h.intents⟩

theorem SameTxRows.runAll_rows {s t : Tables} (h : SameTxRows s t) (txid : Arr 32)
    (rows : List RowWrite) : SameTxRows (runAll (rows.map fun w s ↦ w.apply txid s) s)
      (runAll (rows.map fun w s ↦ w.apply txid s) t) := by
  induction rows generalizing s t with
  | nil => exact h
  | cons w ws ih => exact ih (h.apply txid w)

/-- The locks and the pending record leave the rows alone. -/
theorem sameTxRows_recordBroadcast (b : Broadcast) (s : Tables) :
    SameTxRows s (runAll b.recordBroadcast s) := by
  have hlocks (ops : List OutPoint) (s : Tables) : SameTxRows s
      (runAll (ops.map fun op s ↦ s.lock op b.reason b.expiryHeight.toNat) s) := by
    induction ops generalizing s with
    | nil => exact .refl s
    | cons op ops ih =>
      obtain ⟨h₁, h₂, h₃, h₄, h₅⟩ := ih (s.lock op b.reason b.expiryHeight.toNat)
      exact ⟨h₁, h₂, h₃, h₄, h₅⟩
  rw [Broadcast.recordBroadcast, runAll_append]
  obtain ⟨h₁, h₂, h₃, h₄, h₅⟩ := hlocks b.inputs s
  exact ⟨h₁, h₂, h₃, h₄, h₅⟩

/-- The complete record of a broadcast made in the store `s`. -/
structure Recorded (b : Broadcast) (s t : Tables) : Prop where
  locks : ∀ op ∈ b.inputs, t.locks.get? op = some ⟨b.reason, b.expiryHeight.toNat⟩
  pending : t.pending.get? b.txid = some ⟨b.raw, b.expiryHeight.toNat⟩
  rows : ∀ w ∈ b.rows, w.Present b.txid t
  /-- Before the step, the tables of the rows are what the writes of the rows make of them. -/
  contents : ∃ r, SameTxRows (runAll (b.rows.map fun w s ↦ w.apply b.txid s) s) r ∧
    t = runAll b.step.writes r
  step : b.step.Made s t

theorem present_apply (txid : Arr 32) (w : RowWrite) (s : Tables) : w.Present txid (w.apply txid s) := by
  cases w <;> simp [RowWrite.Present, RowWrite.apply, Tables.upsertHistory, Tables.insertOwnOutput,
    Tables.insertSpentToken, Tables.upsertUtxo, Tables.upsertIntent]

theorem RowWrite.Present.grows {b : Broadcast} {s t : Tables} {w : RowWrite} (h : Grows b s t)
    (hw : w.Present b.txid s) : w.Present b.txid t := by
  cases w with
  | history row => exact h.history _ hw
  | ownOutput n value hash160 => exact h.ownOutputs _ hw
  | spentToken op cents => exact h.spentTokens _ hw
  | utxo n u => exact h.utxos _ hw
  | intent n i => exact h.intents _ hw

theorem Step.made_writes {st : Step} {s t : Tables} (hreads : st.Reads s)
    (hmints : t.mints = s.mints) (hseq : t.mintSeq = s.mintSeq) :
    st.Made s (runAll st.writes t) := by
  cases st with
  | none => trivial
  | mintStep m state mainTxid sweepTxid note =>
    have hrow : t.mints.get? m.id = some m := by
      rw [hmints]
      exact hreads
    simp [Step.Made, Step.writes, runAll, Tables.setMintState, Tables.updateMint, hrow]
  | newMint m bounds =>
    have hnext : t.nextMintId = s.nextMintId := by rw [Tables.nextMintId, hmints, hseq]; rfl
    cases bounds <;>
      simp [Step.Made, Step.writes, runAll, Tables.insertMint, Tables.setClaimBounds, hnext]
  | intentStep original state spendTxid pqSpendTxid note =>
    simp [Step.Made, Step.writes, runAll, Tables.upsertIntent]

/-- After all of the writes the record is complete. -/
theorem recorded_writes {b : Broadcast} {s : Tables} (hreads : b.step.Reads s) :
    Recorded b s (runAll b.writes s) where
  locks op hop := by
    refine Grows.establishes (P := fun t ↦ t.locks.get? op = _)
      (w := fun s ↦ s.lock op b.reason b.expiryHeight.toNat) ?_ ?_ (fun s t h ↦ h.locks op) s
    · exact List.mem_append_left _ (List.mem_append_left _ (List.mem_append_left _
        (List.mem_map_of_mem hop)))
    · intro s
      simp [Tables.lock]
  pending := by
    refine Grows.establishes (P := fun t ↦ t.pending.get? b.txid = _)
      (w := fun s ↦ s.insertPendingTx b.txid b.raw b.expiryHeight.toNat) ?_ ?_
      (fun s t h ↦ h.pending) s
    · exact List.mem_append_left _ (List.mem_append_left _ (List.mem_append_right _
        (List.mem_singleton_self _)))
    · intro s
      simp [Tables.insertPendingTx]
  rows w hw := by
    refine Grows.establishes (P := w.Present b.txid) (w := fun s ↦ w.apply b.txid s) ?_
      (present_apply b.txid w) (fun s t h ↦ RowWrite.Present.grows h) s
    exact List.mem_append_left _ (List.mem_append_right _ (List.mem_map_of_mem hw))
  contents := by
    refine ⟨runAll b.base s, ?_, runAll_append _ _ s⟩
    rw [Broadcast.base, runAll_append]
    exact (sameTxRows_recordBroadcast b s).runAll_rows b.txid b.rows
  step := by
    have h : BaseFrame b s (runAll b.base s) := BaseFrame.runAll (fun _ hw ↦ hw) s
    rw [Broadcast.writes, runAll_append]
    exact Step.made_writes hreads h.mints h.mintSeq

/-! ## The call -/

/-- A store call failed before the send. -/
def Broadcast.Failed (b : Broadcast) (f : Faults) : Prop :=
  f.locks = true ∨ ∃ k, f.write = some k ∧ k < b.writes.length

/-- The server certainly refused. -/
def Broadcast.Refused (b : Broadcast) (answer : Except NetError String) : Prop :=
  ∃ e, sendReply b.txid answer = .error e ∧ sendRefused e = true

/-- The write that failed is the one of a new claim's bounds. -/
def Broadcast.BoundsFault (b : Broadcast) (f : Faults) : Prop :=
  ∃ k, f.write = some k ∧ b.base.length < k ∧ k < b.writes.length

/-- After a failed write or a certain refusal the locks and the rows are as they were, after any
other send the record is complete, and nothing is sent before the record is complete. -/
structure AllOrNothing (b : Broadcast) (f : Faults) (answer : Except NetError String)
    (s : Tables) : Prop where
  undone : b.Failed f ∨ b.Refused answer → SameRows (sendRecorded b f answer s).store s
  recorded : ¬ b.Failed f → ¬ b.Refused answer →
    Recorded b s (sendRecorded b f answer s).store
  sent : ∀ t, (sendRecorded b f answer s).sentIn = some t → Recorded b s t

section Call

variable {b : Broadcast} {f : Faults} {answer : Except NetError String} {s : Tables}

theorem sendRecorded_of_locks (h : f.locks = true) :
    sendRecorded b f answer s = ⟨.error .store, s, none⟩ := by
  rw [sendRecorded, if_pos h]

theorem sendRecorded_of_fault (hlocks : f.locks = false) (hundo : f.undo = none) {k : Nat}
    (hk : f.write = some k) (hlt : k < b.writes.length) :
    (sendRecorded b f answer s).store = runAll (b.rollback
      (s.locks.entries.filter fun e ↦ e.1 ∈ b.inputs) none) (runAll (b.writes.take k) s) ∧
    (sendRecorded b f answer s).sentIn = none := by
  have hrun : runWrites b.writes f.write s = (false, runAll (b.writes.take k) s) := by
    rw [hk, runWrites]
    exact if_pos hlt
  rw [sendRecorded, if_neg (by simp [hlocks]), hrun, hundo]
  exact ⟨rfl, rfl⟩

theorem runWrites_of_not_failed (hf : ¬ b.Failed f) :
    f.locks = false ∧ runWrites b.writes f.write s = (true, runAll b.writes s) := by
  simp only [Broadcast.Failed, not_or, not_exists, not_and, Bool.not_eq_true] at hf
  refine ⟨hf.1, ?_⟩
  cases hw : f.write with
  | none => rfl
  | some k => exact if_neg (hf.2 k hw)

theorem sendRecorded_of_refused (hf : ¬ b.Failed f) (hundo : f.undo = none)
    (hr : b.Refused answer) :
    (sendRecorded b f answer s).store = runAll (b.rollback
      (s.locks.entries.filter fun e ↦ e.1 ∈ b.inputs) (b.step.rowId (runAll b.writes s)))
      (runAll b.writes s) ∧
    (sendRecorded b f answer s).sentIn = some (runAll b.writes s) := by
  obtain ⟨hlocks, hrun⟩ := runWrites_of_not_failed (s := s) hf
  obtain ⟨e, he, hrefused⟩ := hr
  rw [sendRecorded, if_neg (by simp [hlocks]), hrun]
  dsimp only
  rw [he]
  dsimp only
  rw [if_pos hrefused, rollBack, hundo]
  exact ⟨rfl, rfl⟩

theorem sendRecorded_of_sent (hf : ¬ b.Failed f) (hr : ¬ b.Refused answer) :
    (sendRecorded b f answer s).store = runAll b.writes s ∧
    (sendRecorded b f answer s).sentIn = some (runAll b.writes s) := by
  obtain ⟨hlocks, hrun⟩ := runWrites_of_not_failed (s := s) hf
  rw [sendRecorded, if_neg (by simp [hlocks]), hrun]
  dsimp only
  cases he : sendReply b.txid answer with
  | ok u => exact ⟨rfl, rfl⟩
  | error e =>
    have hrefused : ¬ sendRefused e = true := fun h ↦ hr ⟨e, he, h⟩
    dsimp only
    rw [if_neg hrefused]
    exact ⟨rfl, rfl⟩

/-- The send comes after all of the writes, whatever else happens. -/
theorem sentIn_eq {t : Tables} (h : (sendRecorded b f answer s).sentIn = some t) :
    t = runAll b.writes s := by
  rw [sendRecorded] at h
  split at h
  · cases h
  · dsimp only at h
    rcases hrun : runWrites b.writes f.write s with ⟨done, t'⟩
    rw [hrun] at h
    cases done with
    | false => cases h
    | true =>
      have ht' : t' = runAll b.writes s := by
        unfold runWrites at hrun
        split at hrun
        · split at hrun <;> cases hrun
          rfl
        · cases hrun
          rfl
      dsimp only at h
      split at h
      · cases h
        exact ht'
      · split at h <;> cases h <;> exact ht'

/-- A write that failed was one before the step, or that of a claim's bounds. -/
theorem take_writes {k : Nat} (hlt : k < b.writes.length) :
    (k ≤ b.base.length ∧ b.writes.take k = b.base.take k) ∨
      (b.base.length < k ∧ ∃ m bounds, b.step = .newMint m (some bounds) ∧
        b.writes.take k = b.base ++ [fun s ↦ s.insertMint m]) := by
  by_cases hle : k ≤ b.base.length
  · exact .inl ⟨hle, List.take_append_of_le_length hle⟩
  · have hlen : 2 ≤ b.step.writes.length := by
      rw [Broadcast.writes, List.length_append] at hlt
      omega
    have hk : k = b.base.length + 1 := by
      have hstep : b.step.writes.length ≤ 2 := by
        generalize b.step = st
        cases st with
        | newMint m bounds => cases bounds <;> simp [Step.writes]
        | _ => simp [Step.writes]
      rw [Broadcast.writes, List.length_append] at hlt
      omega
    refine .inr ⟨by omega, ?_⟩
    cases hst : b.step with
    | newMint m bounds =>
      cases bounds with
      | none => simp [hst, Step.writes] at hlen
      | some bs =>
        refine ⟨m, bs, rfl, ?_⟩
        rw [Broadcast.writes, hst, hk, List.take_length_add_append]
        rfl
    | _ => simp [hst, Step.writes] at hlen

/-- What a rollback after a failed write leaves. -/
theorem undone_of_fault (hreads : b.step.Reads s) (hlocks : f.locks = false)
    (hundo : f.undo = none) {k : Nat} (hk : f.write = some k) (hlt : k < b.writes.length) :
    SameRows (sendRecorded b f answer s).store s ↔ Fresh b s ∧ k ≤ b.base.length := by
  obtain ⟨hstore, -⟩ := (@sendRecorded_of_fault _ _ answer s) hlocks hundo hk hlt
  rcases take_writes hlt with ⟨hle, htake⟩ | ⟨hgt, m, bounds, hstep, htake⟩
  · have hbase : BaseFrame b s (runAll (b.base.take k) s) :=
      BaseFrame.runAll (fun w hw ↦ List.mem_of_mem_take hw) s
    have hrows := rollback_base hreads hbase
    rw [hstore, htake]
    constructor
    · intro h
      exact ⟨(sameRows_forgotten_iff hreads).mp (hrows.symm.trans h), hle⟩
    · rintro ⟨hfresh, -⟩
      exact hrows.trans ((sameRows_forgotten_iff hreads).mpr hfresh)
  · refine ⟨fun h ↦ ?_, fun h ↦ absurd h.2 (by omega)⟩
    -- the new row is still there
    have hbase : BaseFrame b s (runAll b.base s) := BaseFrame.runAll (fun _ hw ↦ hw) s
    have hframe : Frame b s ((runAll b.base s).insertMint m) :=
      hbase.toFrame.other _ _ _ _
    have hmints : (sendRecorded b f answer s).store.mints =
        ((runAll b.base s).insertMint m).mints := by
      rw [hstore, htake, runAll_append]
      change (runAll _ ((runAll b.base s).insertMint m)).mints = _
      rw [Broadcast.rollback, runAll_append, rollback_frame hframe, hstep]
      rfl
    have hrow : s.mints.get? (runAll b.base s).nextMintId = none := by
      rw [← hbase.mints, Tables.get?_nextMintId]
    rw [← h.mints, hmints] at hrow
    simp [Tables.insertMint] at hrow

/-- Record-then-send is all or nothing exactly if, whenever the record is rolled back, no table
held a row of the transaction before and the write that failed is not that of a claim's bounds. -/
theorem sendRecorded_allOrNothing_iff (hreads : b.step.Reads s) (hundo : f.undo = none) :
    AllOrNothing b f answer s ↔
      (f.locks = false → b.Failed f ∨ b.Refused answer → Fresh b s ∧ ¬ b.BoundsFault f) := by
  have hsent : ∀ t, (sendRecorded b f answer s).sentIn = some t → Recorded b s t := by
    intro t ht
    rw [sentIn_eq ht]
    exact recorded_writes hreads
  have hrecorded : ¬ b.Failed f → ¬ b.Refused answer →
      Recorded b s (sendRecorded b f answer s).store := by
    intro hf hr
    rw [(sendRecorded_of_sent hf hr).1]
    exact recorded_writes hreads
  suffices hiff : (b.Failed f ∨ b.Refused answer → SameRows (sendRecorded b f answer s).store s) ↔
      (f.locks = false → b.Failed f ∨ b.Refused answer → Fresh b s ∧ ¬ b.BoundsFault f) from
    ⟨fun h ↦ hiff.mp h.undone, fun h ↦ ⟨hiff.mpr h, hrecorded, hsent⟩⟩
  cases hlocks : f.locks with
  | true =>
    rw [sendRecorded_of_locks hlocks]
    constructor
    · intro _ h
      cases h
    · intro _ _
      exact SameRows.refl s
  | false =>
    rw [forall_prop_of_true rfl]
    refine forall_congr' fun hor ↦ ?_
    by_cases hfault : ∃ k, f.write = some k ∧ k < b.writes.length
    · obtain ⟨k, hk, hlt⟩ := hfault
      rw [undone_of_fault hreads hlocks hundo hk hlt]
      refine and_congr_right fun _ ↦ ?_
      simp only [Broadcast.BoundsFault, hk, Option.some.injEq, exists_eq_left', not_and, not_lt]
      omega
    · have hfailed : ¬ b.Failed f := by
        rintro (h | h)
        · rw [hlocks] at h
          cases h
        · exact hfault h
      have hbounds : ¬ b.BoundsFault f := fun ⟨k, hk, _, hlt⟩ ↦ hfault ⟨k, hk, hlt⟩
      have hrows := rollback_all hreads
      rw [(sendRecorded_of_refused hfailed hundo (hor.resolve_left hfailed)).1]
      constructor
      · intro h
        exact ⟨(sameRows_forgotten_iff hreads).mp (hrows.symm.trans h), hbounds⟩
      · rintro ⟨hfresh, -⟩
        exact hrows.trans ((sameRows_forgotten_iff hreads).mpr hfresh)

end Call

/-! ## A redeem that is sent twice -/

/-- The txid of the sample. -/
def sampleTxid : Arr 32 := ⟨List.replicate 32 7, rfl⟩

/-- The history row of the sample. -/
def sampleHistory : HistoryRow := ⟨0, -1000, true, true, false, -5000, "redeem", "", "redeeming", false⟩

/-- A redeem with one input and its history row. -/
def sampleRedeem : Broadcast where
  txid := sampleTxid
  raw := [1]
  expiryHeight := 530
  inputs := [⟨⟨List.replicate 32 9, rfl⟩, 0⟩]
  rows := [.history sampleHistory]
  step := .none

/-- No store call fails. -/
def noFaults : Faults := ⟨false, none, none⟩

/-- The node's refusal. -/
def sampleRefusal : Except NetError String := .error (.sendRejected (-27) "txn-already-in-mempool")

theorem sendRecorded_allOrNothing_iff_sample :
    AllOrNothing sampleRedeem noFaults sampleRefusal Tables.empty := by
  have hreads : sampleRedeem.step.Reads Tables.empty := trivial
  refine (sendRecorded_allOrNothing_iff hreads rfl).mpr fun _ _ ↦ ⟨?_, ?_⟩
  · exact ⟨rfl, rfl, fun _ _ ↦ rfl, fun _ _ ↦ rfl, fun _ _ ↦ rfl, fun _ _ ↦ rfl, fun _ _ _ ↦ rfl⟩
  · rintro ⟨k, hk, -⟩
    cases hk

/-- The first send timed out, so its record stays; the second is refused because the first one
reached the node, and the record of a transaction that is on its way is gone. -/
theorem not_allOrNothing_sampleRedeem :
    ¬ AllOrNothing sampleRedeem noFaults sampleRefusal
      (sendRecorded sampleRedeem noFaults (.error (.status .deadlineExceeded "timeout"))
        Tables.empty).store := by
  intro h
  have hpending := (h.undone (.inr ⟨_, rfl, rfl⟩)).pending
  revert hpending
  decide +kernel

end Yew.Build
