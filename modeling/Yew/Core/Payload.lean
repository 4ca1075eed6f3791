import Yew.Core.Tx

/-!
# Yellowback payloads

The codec of the data of a transaction's only `OP_RETURN` output: `"YB"`, a version, a type byte
and one body per type.  `findPayload` is what the rest of the wallet asks: exactly one
`OP_RETURN`, of the right shape, that decodes and assigns cents only to other existing outputs.

Assignments are `u32` cents; a list of them is preceded by its length in one byte.

## Source

* `core/src/payload.rs`: `version_of`, `PayloadType`, `PayloadType::from_byte`, `Assignment`,
  `Payload`, `Payload::payload_type`, `Payload::assignments`, `Reader` and 16 more
* `core/src/tx.rs`: `Reader::u32`
-/

namespace Yew.Yellowback

open Script Tx Pq

def minPayload : Nat := 4
def maxPayload : Nat := 80
def maxAssignments : Nat := 15
def maxRedeemAssignments : Nat := 13

/-- "No such fee output". -/
def feeVoutNone : UInt8 := 0xFF

/-- `PayloadType`. -/
inductive PayloadType where
  | mint
  | transfer
  | redeem
  | attestorRegister
  | claimNotice
  | equivocation
  | attestorRevive
deriving DecidableEq

/-- The type byte. -/
def PayloadType.byte : PayloadType → UInt8
  | .mint => 0x01
  | .transfer => 0x02
  | .redeem => 0x03
  | .attestorRegister => 0x05
  | .claimNotice => 0x06
  | .equivocation => 0x07
  | .attestorRevive => 0x08

/-- `PayloadType::from_byte`: 0x04 and 0x09 on are reserved. -/
def PayloadType.fromByte (b : UInt8) : Option PayloadType :=
  if b = 0x01 then some .mint
  else if b = 0x02 then some .transfer
  else if b = 0x03 then some .redeem
  else if b = 0x05 then some .attestorRegister
  else if b = 0x06 then some .claimNotice
  else if b = 0x07 then some .equivocation
  else if b = 0x08 then some .attestorRevive
  else none

/-- `version_of`: a MINT is version 4, every other type version 3. -/
def versionOf (t : PayloadType) : UInt8 := if t = .mint then 0x04 else 0x03

/-- `Assignment`. -/
structure Assignment where
  vout : UInt8
  cents : UInt32
deriving DecidableEq

/-- `Payload`. -/
inductive Payload where
  | mint (termClass : UInt8) (cents lockHeight refHeight : UInt32) (owner : PqKeyId)
      (feeVout attestFeeVout : UInt8)
  | transfer (assignments : List Assignment)
  | redeem (refHeight : UInt32) (feeVout attestFeeVout : UInt8) (assignments : List Assignment)
  | attestorRegister (attestorKey bondKey : Arr 33) (bondLocktime : UInt32) (flags : UInt8)
  | claimNotice (vaultTxid : Arr 32) (vaultVout : UInt8) (refHeight : UInt32)
  | equivocation
  | attestorRevive (seq : UInt16) (priceMicroUsd citedHeight : UInt32) (sig : Arr 64)
deriving DecidableEq

/-- `Payload::payload_type`. -/
def Payload.payloadType : Payload → PayloadType
  | .mint .. => .mint
  | .transfer .. => .transfer
  | .redeem .. => .redeem
  | .attestorRegister .. => .attestorRegister
  | .claimNotice .. => .claimNotice
  | .equivocation => .equivocation
  | .attestorRevive .. => .attestorRevive

/-- `Payload::assignments`. -/
def Payload.assignments : Payload → List Assignment
  | .transfer as => as
  | .redeem _ _ _ as => as
  | _ => []

/-- `valid_assignments`: at most `max`, no zero cents, no output twice. -/
def validAssignments (as : List Assignment) (max : Nat) : Bool :=
  as.length ≤ max && as.all (fun a ↦ a.cents ≠ 0) && (as.map Assignment.vout).Nodup

/-! ## Encoding -/

/-- `put_assignments`. -/
def putAssignments (as : List Assignment) : Bytes :=
  UInt8.ofNat as.length :: as.flatMap fun a ↦ a.vout :: writeU32 a.cents

/-- The body of a payload, if its assignments are valid. -/
def encodeBody : Payload → Option Bytes
  | .mint termClass cents lockHeight refHeight owner feeVout attestFeeVout =>
    some (termClass :: (writeU32 cents ++ writeU32 lockHeight ++ writeU32 refHeight ++
      owner.toBytes ++ [feeVout, attestFeeVout]))
  | .transfer as => if validAssignments as maxAssignments then some (putAssignments as) else none
  | .redeem refHeight feeVout attestFeeVout as =>
    if validAssignments as maxRedeemAssignments then
      some (writeU32 refHeight ++ [feeVout, attestFeeVout] ++ putAssignments as)
    else none
  | .attestorRegister attestorKey bondKey bondLocktime flags =>
    some (attestorKey.toList ++ bondKey.toList ++ writeU32 bondLocktime ++ [flags])
  | .claimNotice vaultTxid vaultVout refHeight =>
    some (vaultTxid.toList ++ [vaultVout] ++ writeU32 refHeight)
  | .equivocation => some []
  | .attestorRevive seq priceMicroUsd citedHeight sig =>
    some (Bytes.leOfNat 2 seq.toNat ++ writeU32 priceMicroUsd ++ writeU32 citedHeight ++
      sig.toList)

/-- `encode`. -/
def encode (p : Payload) : Option Bytes := do
  let body ← encodeBody p
  let out := [0x59, 0x42, versionOf p.payloadType, p.payloadType.byte] ++ body
  if out.length > maxPayload then none else some out

/-! ## Decoding -/

/-- A read of the payload's bytes; what is left is the state. -/
abbrev Read := StateT Bytes Option

/-- `Reader::bytes`. -/
def bytes (n : Nat) : Read Bytes := fun b ↦ Bytes.split? n b

/-- `Reader::u8`. -/
def u8 : Read UInt8 := do return UInt8.ofNat (Bytes.leToNat (← bytes 1))

/-- `Reader::u16`. -/
def u16 : Read UInt16 := do return UInt16.ofNat (Bytes.leToNat (← bytes 2))

/-- `Reader::u32`. -/
def u32 : Read UInt32 := do return UInt32.ofNat (Bytes.leToNat (← bytes 4))

/-- `Reader::array`. -/
def array (n : Nat) : Read (Arr n) := do
  let b ← bytes n
  match Bytes.toArr? n b with
  | some a => return a
  | none => failure

/-- `read_assignments`. -/
def readAssignments : Nat → Read (List Assignment)
  | 0 => return []
  | n + 1 => do
    let vout ← u8
    let cents ← u32
    let as ← readAssignments n
    return ⟨vout, cents⟩ :: as

/-- The assignments of a body of `head` bytes before the count, in a payload of `size` bytes. -/
def assignmentsOf (head max size : Nat) : Read (List Assignment) := do
  let count ← u8
  if count.toNat > max ∨ size ≠ head + 5 * count.toNat then failure
  let as ← readAssignments count.toNat
  if validAssignments as max then return as else failure

/-- `decode_body_v3`. -/
def decodeBodyV3 (t : PayloadType) (size : Nat) : Read Payload :=
  match t with
  | .mint => do
    if size ≠ 52 then failure
    let termClass ← u8
    let cents ← u32
    let lockHeight ← u32
    let refHeight ← u32
    let owner ← array 33
    match PqKeyId.fromBytes owner.toList with
    | none => failure
    | some owner =>
      let feeVout ← u8
      let attestFeeVout ← u8
      return .mint termClass cents lockHeight refHeight owner feeVout attestFeeVout
  | .transfer => do
    let as ← assignmentsOf 5 maxAssignments size
    return .transfer as
  | .redeem => do
    let refHeight ← u32
    let feeVout ← u8
    let attestFeeVout ← u8
    let as ← assignmentsOf 11 maxRedeemAssignments size
    return .redeem refHeight feeVout attestFeeVout as
  | .attestorRegister => do
    if size ≠ 75 then failure
    let attestorKey ← array 33
    let bondKey ← array 33
    let bondLocktime ← u32
    let flags ← u8
    return .attestorRegister attestorKey bondKey bondLocktime flags
  | .claimNotice => do
    if size ≠ 41 then failure
    let vaultTxid ← array 32
    let vaultVout ← u8
    let refHeight ← u32
    return .claimNotice vaultTxid vaultVout refHeight
  | .equivocation => do
    if size ≠ 4 then failure
    return .equivocation
  | .attestorRevive => do
    if size ≠ 78 then failure
    let seq ← u16
    let priceMicroUsd ← u32
    let citedHeight ← u32
    let sig ← array 64
    return .attestorRevive seq priceMicroUsd citedHeight sig

/-- `decode`: `none` for every malformed case. -/
def decode (data : Bytes) : Option Payload :=
  if data.length < minPayload ∨ data.length > maxPayload then none
  else match data with
    | m0 :: m1 :: version :: typeByte :: body =>
      if m0 ≠ 0x59 ∨ m1 ≠ 0x42 then none
      else do
        let t ← PayloadType.fromByte typeByte
        if version ≠ versionOf t then none
        let (p, rest) ← decodeBodyV3 t data.length body
        if rest.isEmpty then some p else none
    | _ => none

/-! ## The payload of a transaction -/

/-- `payload_script`: `OP_RETURN` and one push. -/
def payloadScript (data : Bytes) : Bytes := opReturn :: pushData data

/-- `extract_op_return_data`: the push of an exact `OP_RETURN <push>` of the right size. -/
def extractOpReturnData : Bytes → Option Bytes
  | [] => none
  | first :: rest =>
    if first ≠ opReturn then none
    else match ops rest with
      | .ok [o] =>
        if o.opcode > opPushdata4 ∨ o.data.isEmpty then none
        else if o.data.length < minPayload ∨ o.data.length > maxPayload then none
        else some o.data
      | _ => none

/-- The loop of `find_op_return` over the outputs from index `i` on. -/
def findOpReturnFrom : Nat → Option Nat → List TxOut → Option Nat
  | _, found, [] => found
  | i, found, o :: os =>
    if isOpReturn o.scriptPubkey then
      if found.isSome then none else findOpReturnFrom (i + 1) (some i) os
    else findOpReturnFrom (i + 1) found os

/-- `find_op_return`: the index of the only `OP_RETURN` output. -/
def findOpReturn (tx : Transaction) : Option Nat := findOpReturnFrom 0 none tx.vout

/-- `FoundPayload`. -/
structure FoundPayload where
  payload : Payload
  opReturnIndex : Nat
deriving DecidableEq

/-- `find_payload`. -/
def findPayload (tx : Transaction) : Option FoundPayload := do
  let idx ← findOpReturn tx
  let out ← tx.vout[idx]?
  let data ← extractOpReturnData out.scriptPubkey
  let payload ← decode data
  if payload.assignments.any fun a ↦ a.vout.toNat ≥ tx.vout.length || a.vout.toNat = idx then none
  else some ⟨payload, idx⟩

/-! ## What `findOpReturn` finds -/

/-- How many outputs of a list are `OP_RETURN`. -/
def opReturns (outs : List TxOut) : Nat := outs.countP fun o ↦ isOpReturn o.scriptPubkey

theorem findOpReturnFrom_some {i j k : Nat} {outs : List TxOut}
    (h : findOpReturnFrom i (some j) outs = some k) : opReturns outs = 0 ∧ j = k := by
  induction outs generalizing i with
  | nil => exact ⟨rfl, by simpa [findOpReturnFrom] using h⟩
  | cons o os ih =>
    by_cases ho : isOpReturn o.scriptPubkey
    · simp [findOpReturnFrom, ho] at h
    · simp only [findOpReturnFrom, ho, Bool.false_eq_true, if_false] at h
      obtain ⟨hc, hj⟩ := ih h
      exact ⟨by simpa [opReturns, ho] using hc, hj⟩

theorem findOpReturnFrom_none {i k : Nat} {outs : List TxOut}
    (h : findOpReturnFrom i none outs = some k) :
    opReturns outs = 1 ∧ ∃ o, outs[k - i]? = some o ∧ isOpReturn o.scriptPubkey ∧ i ≤ k := by
  induction outs generalizing i with
  | nil => cases h
  | cons o os ih =>
    by_cases ho : isOpReturn o.scriptPubkey
    · simp only [findOpReturnFrom, ho, if_true, Option.isSome_none, Bool.false_eq_true,
        if_false] at h
      obtain ⟨hc, rfl⟩ := findOpReturnFrom_some h
      refine ⟨?_, o, by simp, ho, le_refl i⟩
      simpa [opReturns, ho] using hc
    · simp only [findOpReturnFrom, ho, Bool.false_eq_true, if_false] at h
      obtain ⟨hc, o', hget, ho', hle⟩ := ih h
      refine ⟨by simpa [opReturns, ho] using hc, o', ?_, ho', by omega⟩
      rw [show k - i = (k - (i + 1)) + 1 by omega]
      simpa using hget

/-- `find_op_return` answers only when the transaction has exactly one `OP_RETURN` output, and
then with that output's index. -/
theorem findOpReturn_spec {tx : Transaction} {k : Nat} (h : findOpReturn tx = some k) :
    opReturns tx.vout = 1 ∧ ∃ o, tx.vout[k]? = some o ∧ isOpReturn o.scriptPubkey := by
  obtain ⟨hc, o, hget, ho, -⟩ := findOpReturnFrom_none h
  exact ⟨hc, o, by simpa using hget, ho⟩

/-- What a found payload says about the transaction. -/
theorem findPayload_spec {tx : Transaction} {fp : FoundPayload} (h : findPayload tx = some fp) :
    opReturns tx.vout = 1 ∧ ∃ o data, tx.vout[fp.opReturnIndex]? = some o ∧
      isOpReturn o.scriptPubkey ∧ extractOpReturnData o.scriptPubkey = some data ∧
      decode data = some fp.payload := by
  simp only [findPayload, Option.bind_eq_bind, Option.bind_eq_some_iff] at h
  obtain ⟨idx, hidx, out, hout, data, hdata, p, hp, h⟩ := h
  split at h
  · cases h
  · cases h
    obtain ⟨hc, o, hget, ho⟩ := findOpReturn_spec hidx
    obtain rfl : out = o := Option.some.inj (hout.symm.trans hget)
    exact ⟨hc, out, data, hget, ho, hdata, hp⟩

theorem opReturns_eq_zero_iff {outs : List TxOut} :
    opReturns outs = 0 ↔ ∀ o ∈ outs, isOpReturn o.scriptPubkey = false := by
  simp [opReturns, List.countP_eq_zero]

end Yew.Yellowback
