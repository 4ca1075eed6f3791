import Mathlib.Data.List.Lex
import Mathlib.Data.Prod.Lex
import Mathlib.Order.Lattice
import Yew.Store.Rows
import Yew.Util.OrdMap

/-!
# The tables of the wallet's store

Every table is a map from its primary key.  A write is one SQL statement: `INSERT OR REPLACE` is
`insert`, `INSERT OR IGNORE` is `insertNew`, `DELETE` is `erase` or `filter`.  Rows of different
tables that a transaction made are all found under its txid, which is how `forget_tx` finds them.

A statement is done or it fails as a whole.

## Source

* `core/src/store.rs`: `HistoryRow`, `LockRow`, `PendingTx`, `IntentState`, `IntentRow`, `Store`,
  `Store::upsert_utxo`, `Store::utxos` and 21 more
* `core/src/wallet.rs`: `Wallet::mints`
-/

namespace Yew

/-! ## Keys -/

/-- Blobs are compared byte by byte. -/
instance instLinearOrderArr (n : Nat) : LinearOrder (Arr n) :=
  LinearOrder.lift' (fun a ↦ a.toList.map UInt8.toNat) fun _ _ h ↦
    List.Vector.toList_injective (List.map_injective_iff.mpr (fun _ _ ↦ UInt8.toNat_inj.mp) h)

namespace Tx

/-- Outpoints by txid, then by index. -/
instance instLinearOrderOutPoint : LinearOrder OutPoint :=
  LinearOrder.lift' (fun o ↦ toLex (o.txid, o.n.toNat)) fun a b h ↦ by
    have h' : (a.txid, a.n.toNat) = (b.txid, b.n.toNat) := h
    rw [Prod.mk.injEq, UInt32.toNat_inj] at h'
    cases a
    cases b
    simp_all

end Tx

namespace Store

open Tx Pq Coins

/-! ## Rows -/

/-- `LockRow` without its key. -/
structure Lock where
  reason : String
  expiryHeight : Nat
deriving DecidableEq

/-- A row of `pending_txs` without its key. -/
structure PendingTx where
  raw : Bytes
  expiryHeight : Nat
deriving DecidableEq

/-- `HistoryRow` without its key. -/
structure HistoryRow where
  height : Nat
  yecDelta : Int
  hasPayload : Bool
  pending : Bool
  shielded : Bool
  yedDelta : Int
  kind : String
  verdict : String
  label : String
  labelled : Bool
deriving DecidableEq

/-- `IntentState`. -/
inductive IntentState where
  | pending
  | releasing
  | released
  | swept
  | cancelled
deriving DecidableEq

/-- `IntentRow`, its `IntentRefund` spelled out. -/
structure IntentRow where
  outpoint : OutPoint
  vaultTxid : Arr 32
  role : String
  value : Int
  recipientScript : Bytes
  intentScript : Bytes
  delay : Int
  height : Nat
  state : IntentState
  spendTxid : Arr 32
  pqSpendTxid : Arr 32
  note : String
  refundScript : Bytes
  refundCents : Nat
deriving DecidableEq

/-- The tables.  `mintSeq` is the counter of the `AUTOINCREMENT` key of `mints`. -/
structure Tables where
  locks : OrdMap OutPoint Lock
  pending : OrdMap (Arr 32) PendingTx
  history : OrdMap (Arr 32) HistoryRow
  ownOutputs : OrdMap OutPoint (Int × Arr 20)
  ownTokens : OrdMap OutPoint Nat
  spentTokens : OrdMap (Arr 32 ×ₗ OutPoint) Nat
  utxos : OrdMap OutPoint Utxo
  intents : OrdMap OutPoint IntentRow
  mints : OrdMap Int MintRow
  mintSeq : Int
  claimBounds : OrdMap Int (Nat × Int)
deriving DecidableEq

namespace Tables

/-- A store with nothing in it. -/
def empty : Tables :=
  ⟨.empty, .empty, .empty, .empty, .empty, .empty, .empty, .empty, .empty, 0, .empty⟩

variable (s : Tables)

/-! ## Writes -/

/-- `lock`. -/
def lock (op : OutPoint) (reason : String) (expiryHeight : Nat) : Tables :=
  { s with locks := s.locks.insert op ⟨reason, expiryHeight⟩ }

/-- `unlock`. -/
def unlock (op : OutPoint) : Tables := { s with locks := s.locks.erase op }

/-- `insert_pending_tx`. -/
def insertPendingTx (txid : Arr 32) (raw : Bytes) (expiryHeight : Nat) : Tables :=
  { s with pending := s.pending.insert txid ⟨raw, expiryHeight⟩ }

/-- `remove_pending_tx`. -/
def removePendingTx (txid : Arr 32) : Tables := { s with pending := s.pending.erase txid }

/-- `upsert_history`: every column is written, so an update is a replacement. -/
def upsertHistory (txid : Arr 32) (row : HistoryRow) : Tables :=
  { s with history := s.history.insert txid row }

/-- `insert_own_output`. -/
def insertOwnOutput (op : OutPoint) (value : Int) (hash160 : Arr 20) : Tables :=
  { s with ownOutputs := s.ownOutputs.insertNew op (value, hash160) }

/-- `insert_own_token`. -/
def insertOwnToken (op : OutPoint) (cents : Nat) : Tables :=
  { s with ownTokens := s.ownTokens.insertNew op cents }

/-- `insert_spent_token`. -/
def insertSpentToken (spender : Arr 32) (op : OutPoint) (cents : Nat) : Tables :=
  { s with spentTokens := s.spentTokens.insertNew (toLex (spender, op)) cents }

/-- `upsert_utxo`. -/
def upsertUtxo (u : Utxo) : Tables := { s with utxos := s.utxos.insert u.outpoint u }

/-- `upsert_intent`. -/
def upsertIntent (i : IntentRow) : Tables := { s with intents := s.intents.insert i.outpoint i }

/-- `forget_tx`, one SQL transaction. -/
def forgetTx (txid : Arr 32) : Tables :=
  { s with
    pending := s.pending.erase txid
    history := s.history.erase txid
    ownOutputs := s.ownOutputs.filter fun op ↦ op.txid ≠ txid
    ownTokens := s.ownTokens.filter fun op ↦ op.txid ≠ txid
    spentTokens := s.spentTokens.filter fun k ↦ (ofLex k).1 ≠ txid
    utxos := s.utxos.filter fun op ↦ op.txid ≠ txid
    intents := s.intents.filter fun op ↦ op.txid ≠ txid }

/-- The key `AUTOINCREMENT` gives the next mint row: past the counter and past every key. -/
def nextMintId : Int := s.mints.keys.foldl max s.mintSeq + 1

/-- `insert_mint`; the key it returns is `nextMintId`. -/
def insertMint (m : MintRow) : Tables :=
  { s with
    mints := s.mints.insert s.nextMintId { m with id := s.nextMintId }
    mintSeq := s.nextMintId }

/-- `set_claim_bounds`. -/
def setClaimBounds (mintId : Int) (maxBurnCents : Nat) (minOutZat : Int) : Tables :=
  { s with claimBounds := s.claimBounds.insert mintId (maxBurnCents, minOutZat) }

/-- An `UPDATE` of one mint row: no row, no effect. -/
def updateMint (id : Int) (f : MintRow → MintRow) : Tables :=
  match s.mints.get? id with
  | some m => { s with mints := s.mints.insert id (f m) }
  | none => s

/-- `set_mint_state`: a txid that is not given is kept. -/
def setMintState (id : Int) (state : MintState) (mainTxid sweepTxid : Option (Arr 32))
    (note : String) : Tables :=
  s.updateMint id fun m ↦ { m with
    state, mainTxid := mainTxid.getD m.mainTxid, sweepTxid := sweepTxid.getD m.sweepTxid, note }

/-- `restore_mint_step`. -/
def restoreMintStep (id : Int) (state : MintState) (mainTxid sweepTxid : Arr 32) (note : String) :
    Tables :=
  s.updateMint id fun m ↦ { m with state, mainTxid, sweepTxid, note }

/-- `delete_mint`, one SQL transaction. -/
def deleteMint (id : Int) : Tables :=
  { s with mints := s.mints.erase id, claimBounds := s.claimBounds.erase id }

/-! ## The key of a new mint row -/

theorem le_foldl_max {a : Int} (ks : List Int) : a ≤ ks.foldl max a := by
  induction ks generalizing a with
  | nil => exact le_rfl
  | cons k ks ih => exact le_trans (le_max_left a k) ih

theorem le_foldl_max_of_mem {a k : Int} {ks : List Int} (h : k ∈ ks) : k ≤ ks.foldl max a := by
  induction ks generalizing a with
  | nil => cases h
  | cons j js ih =>
    rcases List.mem_cons.mp h with rfl | h
    · exact le_trans (le_max_right a k) (le_foldl_max js)
    · exact ih h

/-- A new row gets a key that no row has. -/
theorem get?_nextMintId : s.mints.get? s.nextMintId = none := by
  cases h : s.mints.get? s.nextMintId with
  | none => rfl
  | some m =>
    have hmem : s.nextMintId ∈ s.mints.keys :=
      List.mem_map.mpr ⟨_, OrdMap.mem_entries.mpr h, rfl⟩
    have hle := le_foldl_max_of_mem (a := s.mintSeq) hmem
    rw [nextMintId] at hle
    omega

end Tables

end Store

end Yew
