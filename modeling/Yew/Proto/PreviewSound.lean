import Yew.Core.AddressSound
import Yew.Core.PayloadCodec
import Yew.Core.Sighash
import Yew.Proto.Preview

/-!
# What a preview determines

An output is shown by its address if its script has one and by the hex of its script if not.  An
address is the Base58Check of a version and a hash, the versions of the three kinds of scripts are
different, and each kind has one script for a hash; so an output that is shown is one script.  Of
the inputs a preview shows those that are signed.

The function is `compute` of `yewd/proto/src/preview.rs`.  What it does not show, the inputs it does
not sign, is in the statement; that an address has one spelling is a hypothesis on Base58.
-/

namespace Yew.Proto

open Bytes Script Tx Tx.Transaction Keys SetAct Addresses

/-! ## Scripts -/

theorem p2shHash_eq_some {script : Bytes} {h : Arr 20} (hs : p2shHash script = some h) :
    script = p2shScript h := by
  unfold p2shHash at hs
  split at hs
  · rename_i hc
    obtain ⟨-, h₁, h₂⟩ := hc
    have h₃ := Bytes.toArr?_eq_some.mp hs
    have hcut : script = script.take 2 ++ ((script.drop 2).take 20 ++ script.drop 22) := by
      conv_lhs => rw [← List.take_append_drop 2 script, ← List.take_append_drop 20 (script.drop 2)]
      rw [List.drop_drop]
    have hpush : pushData h.toList = 20 :: h.toList := by
      simp [pushData, opPushdata1]
    rw [hcut, h₁, h₂, h₃, p2shScript, hpush]
    rfl
  · cases hs

/-- The payload of a script's address. -/
inductive AddressOf (network : Network) (script p : Bytes) : Prop
  | p2pkh (h : Arr 20) (hs : script = p2pkhScript h) (hp : p = network.p2pkhPrefix ++ h.toList)
  | p2sh (h : Arr 20) (hs : script = p2shScript h) (hp : p = network.p2shPrefix ++ h.toList)
  | pqpkh (id : Pq.PqKeyId) (hs : Pq.pqpkhScript id = some script)
    (hp : p = network.pqYecPrefix ++ id.toBytes)

variable {C : Crypto} {network : Network}

theorem scriptAddress_eq_some {script : Bytes} {a : String}
    (h : scriptAddress C network script = some a) :
    ∃ p, AddressOf network script p ∧ a = base58checkEncode C p := by
  rw [scriptAddress] at h
  cases hp2pkh : p2pkhHash script with
  | some hash =>
    rw [hp2pkh] at h
    cases h
    exact ⟨_, .p2pkh hash (p2pkhHash_eq_some hp2pkh) rfl, rfl⟩
  | none =>
    rw [hp2pkh] at h
    cases hp2sh : p2shHash script with
    | some hash =>
      rw [hp2sh] at h
      cases h
      exact ⟨_, .p2sh hash (p2shHash_eq_some hp2sh) rfl, rfl⟩
    | none =>
      rw [hp2sh] at h
      cases hpq : Pq.pqpkhOf script with
      | none =>
        rw [hpq] at h
        cases h
      | some id =>
        rw [hpq] at h
        obtain ⟨-, h⟩ := Option.ite_none_right_eq_some.mp h
        cases h
        exact ⟨_, .pqpkh id (Pq.pqpkhOf_eq_some hpq) rfl, rfl⟩

/-- Versions of two bytes, different for keys and scripts. -/
theorem versions (network : Network) : network.p2pkhPrefix.length = 2 ∧
    network.p2shPrefix.length = 2 ∧ network.pqYecPrefix.length = 2 ∧
      network.p2pkhPrefix ≠ network.p2shPrefix := by
  cases network <;> decide

/-- An address is the address of one script. -/
theorem AddressOf.script_eq {script script' p : Bytes} (h : AddressOf network script p)
    (h' : AddressOf network script' p) : script = script' := by
  obtain ⟨hkey, hscript, hpq, hne⟩ := versions network
  -- a hash of 20 bytes and a key id of 33 bytes have no payload in common
  have hlength {v v' : Bytes} {hash : Arr 20} {id : Pq.PqKeyId} (hv : v.length = 2)
      (hv' : v'.length = 2) (heq : v ++ hash.toList = v' ++ id.toBytes) : False := by
    have hlen := congrArg List.length heq
    simp [hv, hv', Pq.PqKeyId.toBytes] at hlen
  cases h with
  | p2pkh hash hs hp =>
    cases h' with
    | p2pkh hash' hs' hp' =>
      obtain ⟨-, hhash⟩ := List.append_inj (hp.symm.trans hp') rfl
      rw [hs, hs', List.Vector.toList_injective hhash]
    | p2sh hash' hs' hp' =>
      exact absurd (List.append_inj (hp.symm.trans hp') (hkey.trans hscript.symm)).1 hne
    | pqpkh id hs' hp' => exact (hlength hkey hpq (hp.symm.trans hp')).elim
  | p2sh hash hs hp =>
    cases h' with
    | p2pkh hash' hs' hp' =>
      exact absurd (List.append_inj (hp'.symm.trans hp) (hkey.trans hscript.symm)).1 hne
    | p2sh hash' hs' hp' =>
      obtain ⟨-, hhash⟩ := List.append_inj (hp.symm.trans hp') rfl
      rw [hs, hs', List.Vector.toList_injective hhash]
    | pqpkh id hs' hp' => exact (hlength hscript hpq (hp.symm.trans hp')).elim
  | pqpkh id hs hp =>
    cases h' with
    | p2pkh hash' hs' hp' => exact (hlength hkey hpq (hp'.symm.trans hp)).elim
    | p2sh hash' hs' hp' => exact (hlength hscript hpq (hp'.symm.trans hp)).elim
    | pqpkh id' hs' hp' =>
      obtain ⟨-, hid⟩ := List.append_inj (hp.symm.trans hp') rfl
      have hback := congrArg Pq.PqKeyId.fromBytes hid
      rw [Yellowback.fromBytes_toBytes, Yellowback.fromBytes_toBytes, Option.some.injEq] at hback
      rw [hback, hs', Option.some.injEq] at hs
      exact hs.symm

/-! ## Outputs -/

/-- How the script of an output is shown. -/
def shownScript (C : Crypto) (network : Network) (script : Bytes) :
    Option String × Option String :=
  (scriptAddress C network script,
    if (scriptAddress C network script).isNone then some (Hex.encode script) else none)

/-- No two scripts are shown alike. -/
theorem shownScript_injective (hinj : Function.Injective (base58checkEncode C)) :
    Function.Injective (shownScript C network) := by
  intro script script' h
  obtain ⟨haddress, hscript⟩ := Prod.ext_iff.mp h
  simp only [shownScript] at haddress hscript
  cases ha : scriptAddress C network script with
  | none =>
    rw [← haddress, ha] at hscript
    exact Hex.encode_injective (Option.some.inj hscript)
  | some a =>
    rw [ha] at haddress
    obtain ⟨p, hp, rfl⟩ := scriptAddress_eq_some ha
    obtain ⟨p', hp', heq⟩ := scriptAddress_eq_some haddress.symm
    rw [← hinj heq] at hp'
    exact hp.script_eq hp'

/-- An output as it is shown. -/
theorem outputs_compute (tx : Transaction) (prevouts : List Prevout) (signed own : List Nat) :
    (compute C network tx prevouts signed own).outputs.map
        (fun o ↦ (o.amountZat, o.address, o.script)) =
      tx.vout.map fun o ↦ (o.value, shownScript C network o.scriptPubkey) := by
  apply List.ext_getElem?
  intro n
  simp only [compute, List.getElem?_map, getElem?_indexed, Option.map_map]
  rfl

/-! ## Requests -/

/-- What a preview is computed of: a transaction, a prevout for each input, which names its
outpoint, the inputs to sign, the outputs of the wallet and a Sapling part. -/
structure Signable where
  tx : Transaction
  prevouts : List Prevout
  signed : List Nat
  own : List Nat
  sapling : Option SaplingPart
  bound : List.Forall₂ (fun i p ↦ parseOutPoint p.outpoint = .ok i.prevout) tx.vin prevouts

namespace Signable

/-- The preview the signer computes. -/
def preview (C : Crypto) (network : Network) (r : Signable) : Preview :=
  withSapling (compute C network r.tx r.prevouts r.signed r.own) r.sapling

/-- The positions, outpoints and amounts of the inputs. -/
def inputs (r : Signable) : List (Nat × OutPoint × Int64) :=
  (indexed 0 (r.tx.vin.zip r.prevouts)).map fun x ↦ (x.1, x.2.1.prevout, x.2.2.amountZat)

/-- The inputs that are to be signed. -/
def signedInputs (r : Signable) : List (Nat × OutPoint × Int64) :=
  r.inputs.filter fun x ↦ x.1 ∈ r.signed

/-- The inputs minus the outputs, shielded ones included. -/
def fee (r : Signable) : Int64 :=
  sumZat (r.prevouts.map Prevout.amountZat) - sumZat (r.tx.vout.map TxOut.value) +
    (r.sapling.elim 0 fun part ↦ part.values.1 - part.values.2.1)

@[simp] theorem preview_outputs (r : Signable) : (r.preview C network).outputs =
    (compute C network r.tx r.prevouts r.signed r.own).outputs := by
  unfold preview withSapling
  split <;> rfl

@[simp] theorem preview_sign (r : Signable) : (r.preview C network).sign =
    (compute C network r.tx r.prevouts r.signed r.own).sign := by
  unfold preview withSapling
  split <;> rfl

theorem preview_feeZat (r : Signable) : (r.preview C network).feeZat = r.fee := by
  unfold preview withSapling fee
  cases r.sapling with
  | none => exact (Int64.add_zero _).symm
  | some part => rfl

end Signable

/-- The inputs to sign as the preview lists them, their outpoints read from the texts. -/
theorem signedInputs_read {vin : List TxIn} {prevouts : List Prevout}
    (h : List.Forall₂ (fun i p ↦ parseOutPoint p.outpoint = .ok i.prevout) vin prevouts)
    (signed : List Nat) (k : Nat) :
    (((indexed k (vin.zip prevouts)).map fun x ↦
        (x.1, x.2.1.prevout, x.2.2.amountZat)).filter fun x ↦ x.1 ∈ signed).map
          (fun x ↦ (x.1, Except.ok x.2.1, x.2.2)) =
      ((indexed k prevouts).filter fun x ↦ x.1 ∈ signed).map
        fun x ↦ (x.1, parseOutPoint x.2.outpoint, x.2.amountZat) := by
  induction h generalizing k with
  | nil => rfl
  | @cons i p vin prevouts hip h ih =>
    by_cases hk : k ∈ signed
    · simp [indexed, hk, hip, ih]
    · simp [indexed, hk, ih]

theorem Signable.signedInputs_eq {r r' : Signable}
    (h : (r.preview C network).sign = (r'.preview C network).sign) :
    r.signedInputs = r'.signedInputs := by
  have hread (r : Signable) : r.signedInputs.map (fun x ↦ (x.1, Except.ok x.2.1, x.2.2)) =
      (r.preview C network).sign.map
        fun c ↦ (c.vin, parseOutPoint c.outpoint, c.amountZat) := by
    rw [preview_sign, compute, List.map_map]
    exact signedInputs_read r.bound r.signed 0
  have hinj : Function.Injective fun x : Nat × OutPoint × Int64 ↦
      (x.1, (Except.ok x.2.1 : Except (Halt Unit) OutPoint), x.2.2) := by
    rintro ⟨n, o, a⟩ ⟨n', o', a'⟩ heq
    simpa using heq
  apply hinj.list_map
  rw [hread, hread, h]

theorem Signable.vout_eq (hinj : Function.Injective (base58checkEncode C)) {r r' : Signable}
    (h : (r.preview C network).outputs = (r'.preview C network).outputs) :
    r.tx.vout = r'.tx.vout := by
  have hshown : Function.Injective fun o : TxOut ↦
      (o.value, shownScript C network o.scriptPubkey) := by
    rintro ⟨v, s⟩ ⟨v', s'⟩ heq
    obtain ⟨hv, hs⟩ := Prod.ext_iff.mp heq
    exact congrArg₂ TxOut.mk hv (shownScript_injective hinj hs)
  rw [preview_outputs, preview_outputs] at h
  apply hshown.list_map
  rw [← outputs_compute, ← outputs_compute, h]

/-- A preview determines the outputs, the inputs to sign and the fee. -/
theorem preview_determines (hinj : Function.Injective (base58checkEncode C)) {r r' : Signable}
    (h : r.preview C network = r'.preview C network) :
    r.tx.vout = r'.tx.vout ∧ r.signedInputs = r'.signedInputs ∧ r.fee = r'.fee := by
  refine ⟨Signable.vout_eq hinj (congrArg _ h), Signable.signedInputs_eq (congrArg _ h), ?_⟩
  rw [← Signable.preview_feeZat, h, Signable.preview_feeZat]

/-! A request that signs one of two inputs, and the same with another input beside it. -/

theorem base58Crypto_injective : Function.Injective (base58checkEncode base58Crypto) := by
  intro p p' h
  have hdec := congrArg Base58.decode h
  rw [base58checkEncode, base58checkEncode] at hdec
  have heq : p ++ (base58Crypto.sha256d p).toList.take 4 =
      p' ++ (base58Crypto.sha256d p').toList.take 4 := by
    simpa only [base58Crypto, Base58.decode_encode, Except.ok.injEq] using hdec
  exact (List.append_inj' heq rfl).1

/-- A coin of 5 zat. -/
def sampleCoin (b : UInt8) : Prevout := ⟨(sampleInput b).prevout.display, "51", 5⟩

theorem sampleCoin_bound : ∀ b ∈ [(0 : UInt8), 1, 2],
    parseOutPoint (sampleCoin b).outpoint = .ok (sampleInput b).prevout := by
  decide +kernel

/-- A payment of 2 zat to an address, 1 zat to a script without one, and nothing to data. -/
def besidesOuts : List TxOut :=
  [⟨2, p2pkhScript (List.Vector.replicate 20 7)⟩, ⟨1, [0x51]⟩, ⟨0, Yellowback.payloadScript [1, 2, 3]⟩]

/-- The first of two coins is signed. -/
def besides (b : UInt8) (hb : b ∈ [(0 : UInt8), 1, 2]) : Signable where
  tx := { newV4 with vin := [sampleInput 0, sampleInput b], vout := besidesOuts }
  prevouts := [sampleCoin 0, sampleCoin b]
  signed := [0]
  own := []
  sapling := none
  bound := .cons (sampleCoin_bound 0 (by decide)) (.cons (sampleCoin_bound b hb) .nil)

/-- The other coin is not shown. -/
theorem preview_besides (b b' : UInt8) (hb : b ∈ [(0 : UInt8), 1, 2])
    (hb' : b' ∈ [(0 : UInt8), 1, 2]) : (besides b hb).preview base58Crypto .regtest =
      (besides b' hb').preview base58Crypto .regtest := by
  simp [Signable.preview, besides, withSapling, compute, indexed, newV4, signedAmounts,
    ownValues, sampleCoin, sumZat]

theorem preview_determines_besides :
    (besides 1 (by decide)).tx.vout = (besides 2 (by decide)).tx.vout ∧
      (besides 1 (by decide)).signedInputs = (besides 2 (by decide)).signedInputs ∧
      (besides 1 (by decide)).fee = (besides 2 (by decide)).fee :=
  preview_determines base58Crypto_injective (preview_besides 1 2 (by decide) (by decide))

/-- An input that is not signed is not shown. -/
theorem not_preview_determines_inputs : ¬ ∀ r r' : Signable,
    r.preview base58Crypto .regtest = r'.preview base58Crypto .regtest → r.inputs = r'.inputs := by
  intro h
  have heq := h (besides 1 (by decide)) (besides 2 (by decide)) (preview_besides 1 2 _ _)
  exact absurd heq (by decide)

end Yew.Proto
