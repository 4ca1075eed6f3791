import Yew.Store.Tables

/-!
# Record, then send

A broadcast writes everything the wallet will have to know about a transaction before it sends
it: the locks of its inputs, the pending record, the builder's own rows, and last the step of the
two-step row or the intent it is for.  A write that fails, or a send the server certainly refused,
is undone by a second list of writes.  Any write of either list may fail.

The store is the tables of `core/src/store.rs`, and a fault is the position of the write that fails.

## Source

* `core/src/build/mint.rs`: `send`, `record_broadcast`, `send_refused`, `send_recorded`
* `core/src/build/redeem.rs`: `broadcast`
* `core/src/build/release.rs`: `broadcast`
* `core/src/build/yec_send.rs`: `broadcast`
* `core/src/build/yed_transfer.rs`: `broadcast`
-/

namespace Yew.Build

open Tx Coins Store

/-! ## The send -/

/-- `tonic::Code`. -/
inductive Code where
  | ok
  | cancelled
  | unknown
  | invalidArgument
  | deadlineExceeded
  | notFound
  | alreadyExists
  | permissionDenied
  | resourceExhausted
  | failedPrecondition
  | aborted
  | outOfRange
  | unimplemented
  | internal
  | unavailable
  | dataLoss
  | unauthenticated
deriving DecidableEq

/-- `NetError`. -/
inductive NetError where
  | config (why : String)
  | transport (why : String)
  | status (code : Code) (message : String)
  | mismatch (why : String)
  | sendRejected (code : Int) (message : String)
  | unimplemented
  | unknownRpcVersion (version : Int)
  | tooLarge (what : String) (limit : Nat)
  | node (identifier message : String)
deriving DecidableEq

/-- The errors of `send`. -/
inductive SendError where
  | net (e : NetError)
  /-- The server replied another txid. -/
  | replied (reply txid : String)
deriving DecidableEq

/-- `send`: what `SendTransaction` answered, the reply checked against our txid. -/
def sendReply (txid : Arr 32) (answer : Except NetError String) : Except SendError Unit :=
  match answer with
  | .error e => .error (.net e)
  | .ok reply =>
    if reply ≠ "" ∧ reply ≠ txidHex txid then .error (.replied reply (txidHex txid)) else .ok ()

/-- `send_refused`: nothing reached the network, for certain. -/
def sendRefused : SendError → Bool
  | .net (.sendRejected _ _) => true
  | .net (.transport _) => true
  | .net (.status code _) => code ∈ [.invalidArgument, .failedPrecondition, .resourceExhausted,
      .permissionDenied, .unauthenticated, .unimplemented, .outOfRange, .notFound]
  | _ => false

/-! ## What a builder writes -/

/-- A row a builder writes under the txid of its transaction. -/
inductive RowWrite where
  | history (row : HistoryRow)
  | ownOutput (n : UInt32) (value : Int) (hash160 : Arr 20)
  | spentToken (op : OutPoint) (cents : Nat)
  | utxo (n : UInt32) (u : Utxo)
  | intent (n : UInt32) (i : IntentRow)

/-- The write of a row of the transaction `txid`. -/
def RowWrite.apply (txid : Arr 32) (s : Tables) : RowWrite → Tables
  | history row => s.upsertHistory txid row
  | ownOutput n value hash160 => s.insertOwnOutput ⟨txid, n⟩ value hash160
  | spentToken op cents => s.insertSpentToken txid op cents
  | utxo n u => s.upsertUtxo { u with outpoint := ⟨txid, n⟩ }
  | intent n i => s.upsertIntent { i with outpoint := ⟨txid, n⟩ }

/-- What a broadcast moves besides its own rows: nothing, the step of a two-step row, a new
two-step row with the bounds of a claim, or the intent that it spends.  The row and the intent
are those the builder read from the store. -/
inductive Step where
  | none
  | mintStep (m : MintRow) (state : MintState) (mainTxid sweepTxid : Option (Arr 32))
      (note : String)
  | newMint (m : MintRow) (bounds : Option (Nat × Int))
  | intentStep (original : IntentRow) (state : IntentState) (spendTxid pqSpendTxid : Arr 32)
      (note : String)

/-- A write. -/
abbrev Write := Tables → Tables

/-- The writes of a step.  The bounds go under the key the new row got. -/
def Step.writes : Step → List Write
  | none => []
  | mintStep m state mainTxid sweepTxid note =>
    [fun s ↦ s.setMintState m.id state mainTxid sweepTxid note]
  | newMint m bounds =>
    (fun s ↦ s.insertMint m) ::
      bounds.toList.map fun b s ↦ s.setClaimBounds s.mintSeq b.1 b.2
  | intentStep original state spendTxid pqSpendTxid note =>
    [fun s ↦ s.upsertIntent { original with state, spendTxid, pqSpendTxid, note }]

/-- The `undo` of a step.  `rowId` is set once the new row and its bounds are written. -/
def Step.undo (rowId : Option Int) : Step → List Write
  | none => []
  | mintStep m _ _ _ _ => [fun s ↦ s.restoreMintStep m.id m.state m.mainTxid m.sweepTxid m.note]
  | newMint _ _ => rowId.toList.map fun id s ↦ s.deleteMint id
  | intentStep original _ _ _ _ => [fun s ↦ s.upsertIntent original]

/-- A transaction about to be broadcast, with what is written for it. -/
structure Broadcast where
  txid : Arr 32
  raw : Bytes
  expiryHeight : UInt32
  inputs : List OutPoint
  rows : List RowWrite
  step : Step

namespace Broadcast

variable (b : Broadcast)

/-- The reason the inputs are locked for. -/
def reason : String := "spent-by:" ++ txidHex b.txid

/-- `record_broadcast`. -/
def recordBroadcast : List Write :=
  b.inputs.map (fun op s ↦ s.lock op b.reason b.expiryHeight.toNat) ++
    [fun s ↦ s.insertPendingTx b.txid b.raw b.expiryHeight.toNat]

/-- The writes before the step's. -/
def base : List Write := b.recordBroadcast ++ b.rows.map fun w s ↦ w.apply b.txid s

/-- Every write before the send: `record_broadcast` and `persist`. -/
def writes : List Write := b.base ++ b.step.writes

/-- The writes of a rollback, `before` being the locks the inputs had. -/
def rollback (before : List (OutPoint × Lock)) (rowId : Option Int) : List Write :=
  b.inputs.map (fun op s ↦ s.unlock op) ++
    before.map (fun l s ↦ s.lock l.1 l.2.reason l.2.expiryHeight) ++
    [fun s ↦ s.forgetTx b.txid] ++ b.step.undo rowId

end Broadcast

/-! ## Running the writes -/

/-- Writes that all succeed. -/
def runAll (ws : List Write) (s : Tables) : Tables := ws.foldl (fun s w ↦ w s) s

/-- Writes of which the one at index `fault` fails: whether all were made, and the store. -/
def runWrites (ws : List Write) (fault : Option Nat) (s : Tables) : Bool × Tables :=
  match fault with
  | some k => if k < ws.length then (false, runAll (ws.take k) s) else (true, runAll ws s)
  | none => (true, runAll ws s)

/-- Which store calls fail: reading the locks, one of the writes, one of the rollback's. -/
structure Faults where
  locks : Bool
  write : Option Nat
  undo : Option Nat

/-- The errors of `send_recorded`. -/
inductive RecordError where
  | store
  | send (e : SendError)
  /-- Undoing the record also failed. -/
  | undo (cause : RecordError)

/-- How a call ended: its result, the store, and the store it sent in, if it sent. -/
structure Ended where
  result : Except RecordError Unit
  store : Tables
  sentIn : Option Tables

/-- Undo what was recorded and return the cause. -/
def rollBack (b : Broadcast) (before : List (OutPoint × Lock)) (rowId : Option Int)
    (fault : Option Nat) (cause : RecordError) (s : Tables) (sentIn : Option Tables) : Ended :=
  let (undone, s') := runWrites (b.rollback before rowId) fault s
  ⟨.error (if undone then cause else .undo cause), s', sentIn⟩

/-- The key of the row the step made. -/
def Step.rowId (s : Tables) : Step → Option Int
  | newMint _ _ => some s.mintSeq
  | _ => .none

/-- `send_recorded`. -/
def sendRecorded (b : Broadcast) (f : Faults) (answer : Except NetError String) (s : Tables) :
    Ended :=
  if f.locks then ⟨.error .store, s, none⟩
  else
    let before := s.locks.entries.filter fun e ↦ e.1 ∈ b.inputs
    match runWrites b.writes f.write s with
    | (false, t) => rollBack b before none f.undo .store t none
    | (true, t) =>
      match sendReply b.txid answer with
      | .ok () => ⟨.ok (), t, some t⟩
      | .error e =>
        if sendRefused e then rollBack b before (b.step.rowId t) f.undo (.send e) t (some t)
        else ⟨.error (.send e), t, some t⟩

end Yew.Build
