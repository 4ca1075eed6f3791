import Yew.Build.Transfer

/-!
# A YEC send

Plain coins for the amount and the flat fee, one output to the destination, and change.  An amount of
exactly a token's value is raised by one zatoshi and a change of exactly that is lowered by one, so
that no plain output looks like a token; a change that is too small goes to the fee.

The coins are taken by `selectYec`, smallest first; the send is not priced by its size.

## Source

* `core/src/build/yec_send.rs`: `YecSendPreview`, `build_yec_send`
-/

namespace Yew.Build

open Script Tx Pq Keys Coins Yellowback Addresses

/-- The bytes of a transaction that spends the outputs `prevouts` and pays the `amounts`.  An amount
stands there as its 64-bit word, which is the amount itself for all that coins can be worth. -/
def OnWire (raw : Bytes) (prevouts : List OutPoint) (amounts : List Int) : Prop :=
  ∃ tx : Transaction, tx.serialize = .ok raw ∧ tx.vin.map TxIn.prevout = prevouts ∧
    tx.vout.map TxOut.value = amounts.map Int64.ofInt

theorem map_value_toTxOut (outs : List Out) :
    (outs.map Out.toTxOut).map TxOut.value = (outs.map Out.value).map Int64.ofInt := by
  rw [List.map_map, List.map_map]
  rfl

theorem map_prevout_newTxIn (us : List Utxo) :
    (us.map fun u ↦ newTxIn u.outpoint).map TxIn.prevout = us.map Utxo.outpoint := by
  rw [List.map_map]
  rfl

theorem map_value_kept (change : Int) (script : Bytes) :
    (if change > 0 then [Out.mk change script] else []).map Out.value =
      if change > 0 then [change] else [] := by
  split
  · rfl
  · rfl

/-- What is signed and put on the wire pays what it paid before. -/
theorem onWire_of_sameBody {tx tx' : Transaction} {raw : Bytes} {prevouts : List OutPoint}
    {outs : List Out} (hbody : SameBody tx tx') (hraw : tx'.serialize = .ok raw)
    (hvin : tx.vin.map TxIn.prevout = prevouts) (hvout : tx.vout = outs.map Out.toTxOut) :
    OnWire raw prevouts (outs.map Out.value) :=
  ⟨tx', hraw, hbody.prevouts.trans hvin, by rw [hbody.vout, hvout, map_value_toTxOut]⟩

/-- `YecSendPreview`. -/
structure YecSendPreview where
  to_ : String
  amount : Int
  amountBumped : Bool
  fee : Int
  change : Int
  changeAddress : Option String
  inputs : List Utxo
  usesReserve : Bool
  expiryHeight : UInt32
  raw : Bytes
  txid : Arr 32
deriving DecidableEq

/-- The amounts a send pays. -/
def YecSendPreview.amounts (p : YecSendPreview) : List Int :=
  p.amount :: if p.change > 0 then [p.change] else []

section Build

variable (C : Crypto) (w : Wallet)

/-- A coin that a YEC send can sign for. -/
def checkSigner (u : Utxo) : Except WalletError Unit :=
  match p2pkhHash u.script with
  | none => .error (.other ("input " ++ u.outpoint.display ++ " is not P2PKH"))
  | some h =>
    match w.keyForHash h with
    | .error e => .error e
    | .ok none => .error (.other ("no key for input " ++ u.outpoint.display))
    | .ok (some _) => .ok ()

/-- The loop of `build_yec_send` over the inputs from index `i` on. -/
def signYecInputs (branchId : UInt32) :
    Transaction → Nat → List Utxo → Except WalletError Transaction
  | tx, _, [] => .ok tx
  | tx, i, u :: us => do
    checkSigner w u
    let sig ← w.scriptSig tx i u branchId
    let vin := tx.vin.modify i fun t ↦ { t with scriptSig := sig }
    signYecInputs branchId { tx with vin := vin } (i + 1) us

/-- The change output of a send and the address it goes to. -/
def yecChangeOut (change : Int) : Except WalletError (List Out × Option String) :=
  if change > 0 then do
    let row ← w.changeAddress
    return ([⟨change, p2pkhScript row.hash160⟩], some row.addressS)
  else .ok ([], none)

/-- `build_yec_send`. -/
def buildYecSend (to_ : String) (amount : Int) (sendEverything : Bool) (tip : Nat)
    (branchId : UInt32) : Except WalletError YecSendPreview :=
  if amount ≤ 0 then .error (.other "amount must be positive")
  else do
    let dest ← (parseYecDestination C w.network to_).mapError .key
    let amountBumped : Bool := amount = tokenZat
    let amount := if amountBumped then amount + 1 else amount
    let inputs ← (selectYec w.spendable (amount + feeZat) sendEverything).mapError .coins
    let spare := zats inputs - amount - feeZat
    let change := keepChange spare
    let (changeOuts, changeAddress) ← yecChangeOut w change
    let tx := newV4 (inputs.map fun u ↦ newTxIn u.outpoint) (⟨amount, dest.script⟩ :: changeOuts) 0
      (expiryAfter tip)
    let signed ← signYecInputs w branchId tx 0 inputs
    let raw ← signed.serialize.mapError .tx
    let _ ← (Gate.check .yec w.classOf C raw).mapError .gate
    return { to_, amount, amountBumped, fee := feeZat + (spare - change), change, changeAddress,
             inputs, usesReserve := inputs.any fun u ↦ u.utxoClass = .feeReserve,
             expiryHeight := signed.expiryHeight, raw, txid := C.sha256d raw }

end Build

variable {C : Crypto} {w : Wallet}

theorem sameBody_of_signYecInputs {branchId : UInt32} {tx tx' : Transaction} {i : Nat}
    {us : List Utxo} (h : signYecInputs w branchId tx i us = .ok tx') : SameBody tx tx' := by
  induction us generalizing tx i with
  | nil =>
    cases h
    exact .refl _
  | cons u us ih =>
    rw [signYecInputs] at h
    simp only [Result.bind_eq_ok] at h
    obtain ⟨-, -, sig, -, h⟩ := h
    exact (SameBody.setScriptSig tx i sig).trans (ih h)

theorem yecChangeOut_eq_ok {change : Int} {outs : List Out} {address : Option String}
    (h : yecChangeOut w change = .ok (outs, address)) :
    outs.map Out.value = if change > 0 then [change] else [] := by
  rw [yecChangeOut] at h
  split at h
  · simp only [Result.bind_eq_ok] at h
    obtain ⟨row, -, h⟩ := h
    cases h
    exact (if_pos ‹_›).symm
  · cases h
    exact (if_neg ‹_›).symm

theorem sum_kept {change : Int} (h : 0 ≤ change) :
    (if change > 0 then [change] else []).sum = change := by
  split
  · exact List.sum_singleton
  · rw [List.sum_nil]
    omega

/-- The fee a send shows is what its inputs bring and its outputs do not take. -/
theorem buildYecSend_fee {to_ : String} {amount : Int} {sendEverything : Bool} {tip : Nat}
    {branchId : UInt32} {p : YecSendPreview}
    (h : buildYecSend C w to_ amount sendEverything tip branchId = .ok p) :
    OnWire p.raw (p.inputs.map Utxo.outpoint) p.amounts ∧
      p.fee = zats p.inputs - p.amounts.sum := by
  rw [buildYecSend] at h
  split at h
  · cases h
  · simp only [Result.bind_eq_ok, Result.mapError_eq_ok] at h
    obtain ⟨dest, -, inputs, hsel, ⟨outs, address⟩, hchange, tx, hsign, raw, hraw, -, -, h⟩ := h
    cases h
    have hvalues := yecChangeOut_eq_ok hchange
    refine ⟨?_, ?_⟩
    · have hpays := onWire_of_sameBody (sameBody_of_signYecInputs hsign) hraw
        (map_prevout_newTxIn inputs) rfl
      rw [List.map_cons, hvalues] at hpays
      exact hpays
    · have hcovers := (selectYec_eq_ok hsel).2
      have hkept := (keepChange_spec (sub_nonneg.mpr (le_sub_iff_add_le'.mpr hcovers))).1
      dsimp only [YecSendPreview.amounts]
      rw [List.sum_cons, sum_kept hkept]
      omega

theorem exists_of_mapIsOk {ε α : Type} {x : Option (Except ε α)}
    (h : (x.map Except.isOk).getD false = true) : ∃ a, x = some (.ok a) := by
  rcases x with _ | _ | a
  · cases h
  · cases h
  · exact ⟨a, rfl⟩

end Yew.Build
