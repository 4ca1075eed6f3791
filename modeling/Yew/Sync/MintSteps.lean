import Yew.Build.Mint
import Yew.Build.RecordSound
import Yew.Build.Transfer
import Yew.Sync.RecordTx
import Yew.Util.Trace

/-!
# Two-step rows

A mint or a claim is a carrier, then the main transaction that spends it, or a sweep once the window
has closed.  Its row is moved by three callers: the sync, which goes by the history and the tip, the
finish, which sends the main transaction, and the sweep.  Their calls come in any order.

How the building of the main transaction and of the sweep ends is given (`Built`); the transactions
themselves are those of `Yew.Build.Mint` and `Yew.Build.Claim`.

## Source

* `core/src/sync.rs`: `sync`, `confirmed_height`, `advance_mints`
* `core/src/build/mint.rs`: `finish`, `sweep`
* `core/src/wallet.rs`: `Wallet::mint_finish`, `Wallet::mint_sweep`
-/

namespace Yew.Sync

open Script Tx Store Build

/-! ## The sync -/

/-- `confirmed_height`. -/
def confirmedHeight (s : Tables) (txid : Arr 32) : Option Nat :=
  ((s.history.get? txid).filter fun r ↦ !r.pending && decide (0 < r.height)).map HistoryRow.height

/-- Where `advance_mints` moves a row, with the note.  An empty note keeps the one that is there. -/
def nextStep (s : Tables) (tip : Nat) (m : MintRow) : Option (MintState × String) :=
  match m.state with
  | .carrierSent =>
    if (confirmedHeight s m.carrierTxid).isSome then some (.carrierConfirmed, "")
    else if m.expiryHeight.toNat < tip then
      some (.failed, "carrier " ++ txidHex m.carrierTxid ++ " expired unconfirmed")
    else none
  | .carrierConfirmed =>
    if windowOpen tip m.expiryHeight then none
    else some (.lapsed, "window closed at " ++ Text.decimal m.expiryHeight.toNat ++
      " without the main transaction")
  | .mainSent =>
    match confirmedHeight s m.mainTxid with
    | some h =>
      let verdict := ((s.history.get? m.mainTxid).map HistoryRow.verdict).getD ""
      some (.done, "confirmed at " ++ Text.decimal h ++
        if verdict.isEmpty then "" else ", verdict " ++ verdict)
    | none =>
      if m.expiryHeight.toNat < tip then
        some (.lapsed, "main transaction " ++ txidHex m.mainTxid ++ " expired unconfirmed")
      else none
  | .sweepSent =>
    if (confirmedHeight s m.sweepTxid).isSome then some (.swept, "")
    else if (s.pending.get? m.sweepTxid).isNone then some (.lapsed, "sweep expired unconfirmed")
    else none
  | .lapsed => none
  | .done => none
  | .swept => none
  | .failed => none

/-- One row of `advance_mints`. -/
def advanceMint (tip : Nat) (x : Tables × List (Int × MintState)) (m : MintRow) :
    Tables × List (Int × MintState) :=
  match nextStep x.1 tip m with
  | some (state, note) =>
    (x.1.setMintState m.id state none none (if note.isEmpty then m.note else note),
      x.2 ++ [(m.id, state)])
  | none => x

/-- `advance_mints`: the rows are read once. -/
def advanceMints (tip : Nat) (s : Tables) : Tables × List (Int × MintState) :=
  (s.mints.entries.map Prod.snd).foldl (advanceMint tip) (s, [])

/-- A pending record that has expired: its locks go, and its history row says so. -/
def expireTx (s : Tables) (txid : Arr 32) : Tables :=
  let s := (releaseSpentBy txid s).removePendingTx txid
  match s.history.get? txid with
  | some row => s.upsertHistory txid { row with
      pending := false, height := 0, yecDelta := 0, yedDelta := 0, verdict := "expired"
      label := "expired", labelled := true }
  | none => s

/-- The records whose expiry height the tip has passed. -/
def expirePending (tip : Nat) (s : Tables) : Tables :=
  s.pending.entries.foldl (fun s e ↦
    if e.2.expiryHeight ≠ 0 ∧ e.2.expiryHeight < tip then expireTx s e.1 else s) s

/-- A transaction that the server lists. -/
structure SeenTx where
  own : Own
  tx : Transaction
  txid : Arr 32
  height : Nat

/-- What a sync does to the two-step rows: it records what the server lists, lets records expire, and
advances the rows.  What the reorg pass and the labels leave of the history is any history. -/
def syncMints (tip : Nat) (seen : List SeenTx) (history : OrdMap (Arr 32) HistoryRow) (s : Tables) :
    Tables :=
  let s := seen.foldl (fun s t ↦ recordTransaction t.own t.tx t.txid t.height s) s
  let s := expirePending tip s
  (advanceMints tip { s with history }).1

/-! ## The finish and the sweep -/

/-- The errors of `finish` and `sweep`. -/
inductive StepError where
  | noSuchMint (id : Int)
  | wrongState (id : Int) (state step want : String)
  | lapsed (refHeight expiry : UInt32) (tip : Nat)
  | build (e : WalletError)
  | record (e : RecordError)

/-- A transaction that was built, signed and validated, with the inputs to lock beside the carrier
and the rows to write. -/
structure Built where
  txid : Arr 32
  raw : Bytes
  inputs : List OutPoint
  rows : List RowWrite

/-- The broadcast of the main transaction.  A claim keeps its note. -/
def mainBroadcast (m : MintRow) (t : Built) : Broadcast :=
  ⟨t.txid, t.raw, m.expiryHeight, t.inputs ++ [m.carrier], t.rows,
    .mintStep m .mainSent (some t.txid) none (if m.kind = .claim then m.note else "")⟩

/-- The broadcast of a sweep. -/
def sweepBroadcast (m : MintRow) (tip : Nat) (t : Built) : Broadcast :=
  ⟨t.txid, t.raw, expiryAfter tip, [m.carrier], t.rows, .mintStep m .sweepSent none (some t.txid) ""⟩

/-- A broadcast with a store that works, and its result. -/
def sendStep (b : Broadcast) (answer : Except NetError String) (s : Tables) :
    Except StepError Unit × Tables :=
  let r := sendRecorded b noFaults answer s
  (r.result.mapError .record, r.store)

/-- `finish`, from the row on.  `built` is how the transaction is built. -/
def finish (id : Int) (tip : Nat) (built : MintRow → Except WalletError Built)
    (answer : Except NetError String) (s : Tables) : Except StepError Unit × Tables :=
  match s.mints.get? id with
  | none => (.error (.noSuchMint id), s)
  | some m =>
    if m.state ≠ .carrierConfirmed then
      (.error (.wrongState id m.state.asStr "finish" MintState.carrierConfirmed.asStr), s)
    else if !windowOpen tip m.expiryHeight then
      (.error (.lapsed m.refHeight m.expiryHeight tip),
        s.setMintState id .lapsed none none "window closed before the main transaction")
    else match built m with
      | .error e => (.error (.build e), s)
      | .ok t => sendStep (mainBroadcast m t) answer s

/-- `sweep`, from the row on. -/
def sweep (id : Int) (tip : Nat) (built : MintRow → Except WalletError Built)
    (answer : Except NetError String) (s : Tables) : Except StepError Unit × Tables :=
  match s.mints.get? id with
  | none => (.error (.noSuchMint id), s)
  | some m =>
    if m.state = .lapsed ∨ m.state = .carrierConfirmed ∧ windowOpen tip m.expiryHeight = false then
      match built m with
      | .error e => (.error (.build e), s)
      | .ok t => sendStep (sweepBroadcast m tip t) answer s
    else (.error (.wrongState id m.state.asStr "sweep" MintState.lapsed.asStr), s)

end Yew.Sync
