import Yew.Build.Funding
import Yew.Core.Address
import Yew.Core.Gate

/-!
# The wallet a builder reads

What the builders of the light wallet ask of it: the network, the fee terms, the coins that are not
locked, the next change address, and a signature for an input.  Signatures come from the wallet's
keys and are not modelled; an input is signed or the builder stops.

A signature that is there has the form the scheme writes; what it says is left open.

## Source

* `core/src/build/mint.rs`: `MintError`, `sign_p2pkh_inputs`, `p2pkh_of_address`
* `core/src/wallet.rs`: `WalletError`, `Wallet`, `Wallet::yed_holder_script`
* `core/src/build/yed_transfer.rs`: `TransferError`
-/

namespace Yew.Build

open Script Tx Pq Keys Coins Yellowback Addresses

/-- `TransferError`. -/
inductive TransferError where
  | noRecipients
  | tooManyRecipients
  | badAmount (cents : Nat)
  | insufficientYed (need have_ : Nat)
  | tooManyInputs
  | changeFloor (needed : Nat) (below above : Option Int)
  | payload
  | nonStandardToken
  | falconHolderRequired (why : String)
deriving DecidableEq

/-- `MintError`, of the estimate and the second steps. -/
inductive MintError where
  | badAmount (cents min max : Nat)
  | badLock (lockBlocks : UInt32) (network : Network)
  | blocked (reason : String)
  | wrongState (id : Int) (state step want : String)
  | lapsed (refHeight expiry : UInt32) (tip : Nat)
  | script (e : ScriptError)
  | noSuchMint (id : Int)
  | inconsistent (what : String)
  | relay (what : String)
  | boundExceeded (what detail : String)
deriving DecidableEq

/-- `WalletError`, of the builders. -/
inductive WalletError where
  | key (e : KeyError)
  | tx (e : TxError)
  | coins (e : CoinError)
  | gate (e : Gate.GateError)
  | transfer (e : TransferError)
  | mint (e : MintError)
  | other (why : String)

/-- `AddressRow`, with the hash of the Falcon key paired with it; an imported key has none. -/
structure AddressRow where
  hash160 : Arr 20
  addressS : String
  falconHash : Option (Arr 32)
deriving DecidableEq

/-- The wallet. -/
structure Wallet where
  network : Network
  pqTerms : PqTerms
  /-- `spendable_utxos`. -/
  spendable : List Utxo
  /-- `change_address`. -/
  changeAddress : Except WalletError AddressRow
  /-- The external keys that `fresh_external` hands out, one after another. -/
  freshExternal : Nat → Except WalletError AddressRow
  /-- `addresses`. -/
  addresses : Except WalletError (List AddressRow)
  /-- `pq_owner_for_hash`: the vault owner paired with an external key. -/
  pqOwnerForHash : Arr 20 → Option PqKeyId
  /-- `key_for_hash`. -/
  keyForHash : Arr 20 → Except WalletError (Option SecretKey)
  /-- The scriptSig that signs a coin at an input of a transaction, under a branch id. -/
  scriptSig : Transaction → Nat → Utxo → UInt32 → Except WalletError Bytes
  /-- `store.utxo_class`. -/
  classOf : OutPoint → Option UtxoClass

namespace Wallet

/-- `yed_holder_script` of the wallet: where its own YED goes. -/
def yedHolderScript (row : AddressRow) (falcon : Bool) : Except WalletError Bytes :=
  if !falcon then .ok (p2pkhScript row.hash160)
  else match row.falconHash.bind fun h ↦ pqpkhScript ⟨schemeFnDsa, h⟩ with
    | some s => .ok s
    | none => .error (.other "an imported key has no Falcon holder pair")

/-- The loop of `sign_p2pkh_inputs` over the inputs from index `i` on. -/
def signP2pkhInputs (w : Wallet) (branchId : UInt32) :
    Transaction → Nat → List Utxo → Except WalletError Transaction
  | tx, _, [] => .ok tx
  | tx, i, u :: us => do
    let sig ← w.scriptSig tx i u branchId
    let vin := tx.vin.modify i fun t ↦ { t with scriptSig := sig }
    signP2pkhInputs w branchId { tx with vin := vin } (i + 1) us

end Wallet

/-- `p2pkh_of_address`. -/
def p2pkhOfAddress (C : Crypto) (network : Network) (address : String) :
    Except WalletError Bytes :=
  match parseAddress C network address with
  | .error e => .error (.key e)
  | .ok a =>
    match a.kind with
    | .p2pkh h => .ok (p2pkhScript h)
    | .p2sh h => .ok (p2shScript h)

/-- The cents that assignments give out. -/
def assigned (as : List Assignment) : Nat := (as.map fun a ↦ a.cents.toNat).sum

/-! ## Signing -/

/-- Two transactions that differ in scriptSigs only. -/
structure SameBody (tx tx' : Transaction) : Prop where
  prevouts : tx'.vin.map TxIn.prevout = tx.vin.map TxIn.prevout
  vout : tx'.vout = tx.vout
  lockTime : tx'.lockTime = tx.lockTime
  expiryHeight : tx'.expiryHeight = tx.expiryHeight

theorem SameBody.refl (tx : Transaction) : SameBody tx tx := ⟨rfl, rfl, rfl, rfl⟩

theorem SameBody.trans {tx tx' tx'' : Transaction} (h : SameBody tx tx') (h' : SameBody tx' tx'') :
    SameBody tx tx'' :=
  ⟨h'.prevouts.trans h.prevouts, h'.vout.trans h.vout, h'.lockTime.trans h.lockTime,
    h'.expiryHeight.trans h.expiryHeight⟩

theorem map_prevout_modify (vin : List TxIn) (i : Nat) (sig : Bytes) :
    (vin.modify i fun t ↦ { t with scriptSig := sig }).map TxIn.prevout =
      vin.map TxIn.prevout := by
  induction vin generalizing i with
  | nil => simp
  | cons t vin ih =>
    cases i with
    | zero => simp
    | succ i => simp [ih]

theorem SameBody.setScriptSig (tx : Transaction) (i : Nat) (sig : Bytes) :
    SameBody tx { tx with vin := tx.vin.modify i fun t ↦ { t with scriptSig := sig } } :=
  ⟨map_prevout_modify tx.vin i sig, rfl, rfl, rfl⟩

/-- Signing changes nothing but scriptSigs. -/
theorem Wallet.sameBody_of_signP2pkhInputs {w : Wallet} {branchId : UInt32}
    {tx tx' : Transaction} {i : Nat} {us : List Utxo}
    (h : w.signP2pkhInputs branchId tx i us = .ok tx') : SameBody tx tx' := by
  induction us generalizing tx i with
  | nil =>
    cases h
    exact .refl _
  | cons u us ih =>
    rw [signP2pkhInputs, Result.bind_eq_ok] at h
    obtain ⟨sig, -, h⟩ := h
    exact (SameBody.setScriptSig tx i sig).trans (ih h)

/-! ## Scripts that are no `OP_RETURN` -/

theorem isOpReturn_pqpkhScript {id : PqKeyId} {s : Bytes} (h : pqpkhScript id = some s) :
    isOpReturn s = false := by
  rw [pqpkhScript] at h
  split at h
  · cases h
    have hlen : id.hash.toList.length = 32 := id.hash.toList_length
    simp only [isOpReturn, pushData, hlen]
    rfl
  · cases h

/-- A template starts with the push of its tag. -/
theorem isOpReturn_tag (tag : Arr 4) (rest : Bytes) :
    isOpReturn (pushData tag.toList ++ rest) = false := by
  have hlen : tag.toList.length = 4 := tag.toList_length
  have hpush : pushData tag.toList = 4 :: tag.toList := by
    simp only [pushData, hlen]
    rfl
  rw [hpush]
  rfl

theorem isOpReturn_buildVault {p : Vault.VaultParams} {s : Bytes}
    (h : Vault.buildVault p = some s) : isOpReturn s = false := by
  rw [Vault.buildVault, Option.ite_none_right_eq_some] at h
  obtain ⟨-, h⟩ := h
  simp only [List.append_assoc] at h
  rw [← Option.some.inj h]
  exact isOpReturn_tag p.tag _

theorem isOpReturn_buildIntent {p : Vault.IntentParams} {s : Bytes}
    (h : Vault.buildIntent p = some s) : isOpReturn s = false := by
  rw [Vault.buildIntent, Option.ite_none_right_eq_some] at h
  obtain ⟨-, h⟩ := h
  simp only [List.append_assoc] at h
  rw [← Option.some.inj h]
  exact isOpReturn_tag p.tag _

theorem Wallet.isOpReturn_yedHolderScript {row : AddressRow} {falcon : Bool} {s : Bytes}
    (h : yedHolderScript row falcon = .ok s) : isOpReturn s = false := by
  rw [yedHolderScript] at h
  split at h
  · cases h
    rfl
  · split at h
    · rename_i s' hs
      cases h
      obtain ⟨hash, -, hscript⟩ := Option.bind_eq_some_iff.mp hs
      exact isOpReturn_pqpkhScript hscript
    · cases h

theorem isOpReturn_p2pkhOfAddress {C : Crypto} {network : Network} {address : String} {s : Bytes}
    (h : p2pkhOfAddress C network address = .ok s) : isOpReturn s = false := by
  rw [p2pkhOfAddress] at h
  split at h
  · cases h
  · split at h
    · cases h
      rfl
    · cases h
      rfl

theorem opReturns_map_toTxOut {outs : List Out}
    (h : ∀ o ∈ outs, isOpReturn o.scriptPubkey = false) : opReturns (outs.map Out.toTxOut) = 0 := by
  rw [opReturns_eq_zero_iff]
  intro o ho
  obtain ⟨o', ho', rfl⟩ := List.mem_map.mp ho
  exact h o' ho'

/-- Outputs that carry one encoded payload, and otherwise no `OP_RETURN`. -/
theorem findPayload_outs {tx : Transaction} {before after : List Out} {p : Payload} {data : Bytes}
    (hvout : tx.vout = (before ++ ⟨0, payloadScript data⟩ :: after).map Out.toTxOut)
    (hbefore : ∀ o ∈ before, isOpReturn o.scriptPubkey = false)
    (hafter : ∀ o ∈ after, isOpReturn o.scriptPubkey = false) (hencode : encode p = some data)
    (has : ∀ a ∈ p.assignments,
      a.vout.toNat < before.length + 1 + after.length ∧ a.vout.toNat ≠ before.length) :
    findPayload tx = some ⟨p, before.length⟩ := by
  rw [List.map_append, List.map_cons] at hvout
  have hlen : tx.vout.length = before.length + 1 + after.length := by
    rw [hvout]
    simp
    omega
  rw [findPayload_encode hvout (opReturns_map_toTxOut hbefore) (opReturns_map_toTxOut hafter)
    hencode, List.length_map]
  rw [List.length_map, hlen]
  exact has

end Yew.Build
