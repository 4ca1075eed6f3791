import Yew.Store.Tables
import Yew.Build.Record

/-!
# A transaction the sync saw

`record_transaction` is called once for every transaction the server lists under an own address.
It remembers the outputs that pay an own key, values the inputs by the outputs remembered so far,
marks the keys used, settles a pending record if the transaction is confirmed, and writes the
history row.

The keys that are own at the time are an argument, since the scan finds more of them as it goes.

## Source

* `core/src/sync.rs`: `record_transaction`, `release_spent_by`
* `core/src/wallet.rs`: `Wallet::own_hashes`
-/

namespace Yew.Sync

open Script Tx Pq Store

/-! ## What is ours -/

/-- The own keys of one pass: the key hashes, and the post-quantum keys with the hash each is
paired with. -/
structure Own where
  hashes : List (Arr 20)
  pq : List (PqKeyId × Arr 20)

namespace Own

variable (own : Own)

/-- The key hash an own script pays: an own P2PKH, or an own post-quantum key's pair. -/
def holder (script : Bytes) : Option (Arr 20) :=
  ((p2pkhHash script).filter fun h ↦ h ∈ own.hashes).or
    ((pqpkhOf script).bind fun id ↦ own.pq.lookup id)

/-- The outputs of a transaction that pay an own key, with their indices. -/
def outputs (tx : Transaction) : List (UInt32 × Int × Arr 20) :=
  tx.vout.zipIdx.filterMap fun o ↦
    (own.holder o.1.scriptPubkey).map fun h ↦ (UInt32.ofNat o.2, o.1.value.toInt, h)

/-- The own keys that signed an input: the second push of a P2PKH scriptSig. -/
def signers (C : Crypto) (tx : Transaction) : List (Arr 20) :=
  tx.vin.filterMap fun i ↦
    match pushes i.scriptSig with
    | some [_, key] =>
      if key.length = 33 ∧ C.hash160 key ∈ own.hashes then some (C.hash160 key) else none
    | _ => none

/-- The keys a transaction marks used. -/
def used (C : Crypto) (tx : Transaction) : List (Arr 20) :=
  (own.outputs tx).map (fun o ↦ o.2.2) ++ own.signers C tx

end Own

/-! ## What is written -/

/-- `release_spent_by`. -/
def releaseSpentBy (txid : Arr 32) (s : Tables) : Tables :=
  { s with locks := s.locks.retain fun _ l ↦ l.reason ≠ "spent-by:" ++ txidHex txid }

/-- The value of the inputs that spend outputs the store remembers. -/
def ownInputValue (s : Tables) (tx : Transaction) : Int :=
  (tx.vin.filterMap fun i ↦ (s.ownOutputs.get? i.prevout).map Prod.fst).sum

/-- The own outputs of a transaction, remembered. -/
def putOutputs (own : Own) (tx : Transaction) (txid : Arr 32) (s : Tables) : Tables :=
  (own.outputs tx).foldl (fun s o ↦ s.insertOwnOutput ⟨txid, o.1⟩ o.2.1 o.2.2) s

/-- The own tokens a transaction spends, remembered. -/
def putSpentTokens (tx : Transaction) (txid : Arr 32) (s : Tables) : Tables :=
  tx.vin.foldl (fun s i ↦
    match s.ownTokens.get? i.prevout with
    | some cents => s.insertSpentToken txid i.prevout cents
    | none => s) s

/-- The server gives an unconfirmed transaction the height 0 or the largest one. -/
def confirmed (height : Nat) : Bool := height ≠ 0 && height ≠ 2 ^ 64 - 1

/-- A confirmed transaction of our own is no longer pending, and its inputs are released. -/
def settlePending (txid : Arr 32) (height : Nat) (s : Tables) : Tables :=
  if confirmed height && (s.pending.get? txid).isSome then
    (releaseSpentBy txid s).removePendingTx txid
  else s

/-- The history row of a transaction, over the row it has already. -/
def seenRow (tx : Transaction) (height : Nat) (delta : Int) (prior : Option HistoryRow) :
    HistoryRow :=
  let row : HistoryRow := {
    height := if confirmed height then height else 0
    yecDelta := delta
    hasPayload := tx.vout.any fun o ↦ isOpReturn o.scriptPubkey
    pending := !confirmed height
    shielded := tx.shielded.any
    yedDelta := 0, kind := "", verdict := "", label := "", labelled := false }
  match prior with
  | none => row
  | some p =>
    -- the wallet's own carriers and sweeps have no payload to be labelled by
    if confirmed height && p.pending && (p.kind = "carrier" || p.kind = "sweep") then
      { row with kind := p.kind, label := p.label, labelled := true }
    else if confirmed height && p.pending then row
    else { row with
      yedDelta := p.yedDelta, kind := p.kind, verdict := p.verdict, label := p.label
      labelled := p.labelled }

/-- `record_transaction`, what it writes to the tables.  The keys it marks used are `Own.used`. -/
def recordTransaction (own : Own) (tx : Transaction) (txid : Arr 32) (height : Nat) (s : Tables) :
    Tables :=
  let s := putOutputs own tx txid s
  let delta := ((own.outputs tx).map fun o ↦ o.2.1).sum - ownInputValue s tx
  let s := settlePending txid height (putSpentTokens tx txid s)
  s.upsertHistory txid (seenRow tx height delta (s.history.get? txid))

end Yew.Sync
