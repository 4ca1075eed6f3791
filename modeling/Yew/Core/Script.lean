import Yew.Core.Crypto
import Yew.Util.Text

/-!
# Scripts

The push encoding of `CScript`, the operation reader that mirrors `CScript::GetOp2`, and the
standard scripts: P2PKH, P2SH, `OP_RETURN`, the carrier.  A function of the source that appends to
a script returns here the bytes it appends.

The reader stops at the first operation that is cut short, and says so, as the source's does.

## Source

* `core/src/script.rs`: `ScriptError`, `push_int`, `script_num_encode`, `ScriptOp`, `ops`, `pushes`,
  `p2pkh_script`, `p2sh_script` and 11 more
-/

namespace Yew.Script

/-- `ScriptError`. -/
inductive ScriptError where
  /-- A push ran past the end of the script. -/
  | truncated (start : Nat)
  /-- A public key that is not a 33-byte compressed encoding. -/
  | badKey
  /-- The bundle push would exceed `MAX_SCRIPT_ELEMENT_SIZE`. -/
  | elementTooLarge (n : Nat)
deriving DecidableEq

/-- The consensus cap on one stack element. -/
def maxScriptElementSize : Nat := 520

/-- The text of a `ScriptError`. -/
def ScriptError.text : ScriptError → String
  | .truncated start => "truncated push at offset " ++ Text.decimal start
  | .badKey => "public key is not compressed"
  | .elementTooLarge n =>
    "bundle of " ++ Text.decimal n ++ " bytes exceeds the 520-byte script element limit"

/-- Heights lie below this, times at or above it. -/
def locktimeThreshold : Nat := 500000000

/-- The length of a carrier script. -/
def carrierScriptSize : Nat := 71

/-! ## Opcodes -/

def op0 : UInt8 := 0x00
def opPushdata1 : UInt8 := 0x4c
def opPushdata2 : UInt8 := 0x4d
def opPushdata4 : UInt8 := 0x4e
def op1Negate : UInt8 := 0x4f
def op1 : UInt8 := 0x51
def op16 : UInt8 := 0x60
def opReturn : UInt8 := 0x6a
def opDrop : UInt8 := 0x75
def opDup : UInt8 := 0x76
def opSwap : UInt8 := 0x7c
def opEqual : UInt8 := 0x87
def opEqualverify : UInt8 := 0x88
def opSha256 : UInt8 := 0xa8
def opHash160 : UInt8 := 0xa9
def opChecksig : UInt8 := 0xac
def opChecklocktimeverify : UInt8 := 0xb1

/-! ## Pushes -/

/-- The bytes of a data push: a direct length byte below `OP_PUSHDATA1`, then the one-, two- and
four-byte lengths. -/
def pushData (data : Bytes) : Bytes :=
  let n := data.length
  if n < opPushdata1.toNat then
    UInt8.ofNat n :: data
  else if n ≤ 0xff then
    opPushdata1 :: UInt8.ofNat n :: data
  else if n ≤ 0xffff then
    opPushdata2 :: (Bytes.leOfNat 2 n ++ data)
  else
    opPushdata4 :: (Bytes.leOfNat 4 n ++ data)

/-- The little-endian magnitude of a number, with no trailing zero byte. -/
def magnitude : Nat → Nat → Bytes
  | 0, _ => []
  | fuel + 1, n => if n = 0 then [] else UInt8.ofNat (n % 256) :: magnitude fuel (n / 256)

/-- `script_num_encode`: the magnitude of an `i64` with the sign in the top bit of its last byte,
and one more byte when that bit is taken. -/
def scriptNumEncode (value : Int) : Bytes :=
  if value = 0 then []
  else
    let out := magnitude 8 value.natAbs
    match out.getLast? with
    | none => out
    | some last =>
      if last &&& 0x80 ≠ 0 then out ++ [if value < 0 then 0x80 else 0]
      else if value < 0 then out.dropLast ++ [last ||| 0x80]
      else out

/-- `push_int`: `OP_0`, `OP_1NEGATE`, `OP_1` to `OP_16`, else a `CScriptNum` push. -/
def pushInt (n : Int) : Bytes :=
  if n = 0 then [op0]
  else if n = -1 then [op1Negate]
  else if 1 ≤ n ∧ n ≤ 16 then [op1 + (UInt8.ofNat n.toNat - 1)]
  else pushData (scriptNumEncode n)

/-! ## Reading operations -/

/-- One operation: its opcode byte and, for a data push, what it pushes. -/
structure ScriptOp where
  opcode : UInt8
  data : Bytes
deriving DecidableEq

/-- The length a push opcode announces, the offset behind it and the bytes from there. -/
def pushLength (opcode : UInt8) (start : Nat) (rest : Bytes) :
    Except ScriptError (Nat × Nat × Bytes) :=
  let width := if opcode = opPushdata1 then 1 else if opcode = opPushdata2 then 2 else 4
  if opcode < opPushdata1 then .ok (opcode.toNat, start + 1, rest)
  else match Bytes.split? width rest with
    | some (len, rest) => .ok (Bytes.leToNat len, start + 1 + width, rest)
    | none => .error (.truncated start)

/-- The operation at offset `start`, the offset behind it and the bytes from there. -/
def readOp (opcode : UInt8) (start : Nat) (rest : Bytes) :
    Except ScriptError (ScriptOp × Nat × Bytes) :=
  if opcode ≤ opPushdata4 then do
    let (n, pc, rest) ← pushLength opcode start rest
    match Bytes.split? n rest with
    | some (data, rest) => .ok (⟨opcode, data⟩, pc + n, rest)
    | none => .error (.truncated start)
  else .ok (⟨opcode, []⟩, start + 1, rest)

/-- `ops` from offset `pc`; every operation takes at least one byte, so the script's length is
fuel enough. -/
def opsFrom : Nat → Nat → Bytes → Except ScriptError (List ScriptOp)
  | _, _, [] => .ok []
  | 0, _, _ :: _ => .ok []
  | fuel + 1, pc, opcode :: rest => do
    let (o, pc, rest) ← readOp opcode pc rest
    let os ← opsFrom fuel pc rest
    return o :: os

/-- `ops`: the operations of a script, in order. -/
def ops (script : Bytes) : Except ScriptError (List ScriptOp) := opsFrom script.length 0 script

/-- `pushes`: what a push-only script pushes. -/
def pushes (script : Bytes) : Option (List Bytes) :=
  match ops script with
  | .error _ => none
  | .ok os => if os.all (fun o ↦ o.opcode ≤ op16) then some (os.map ScriptOp.data) else none

/-! ## The standard scripts -/

/-- `OP_DUP OP_HASH160 <20> OP_EQUALVERIFY OP_CHECKSIG`. -/
def p2pkhScript (hash : Arr 20) : Bytes :=
  [opDup, opHash160] ++ pushData hash.toList ++ [opEqualverify, opChecksig]

/-- `OP_HASH160 <20> OP_EQUAL`. -/
def p2shScript (hash : Arr 20) : Bytes := [opHash160] ++ pushData hash.toList ++ [opEqual]

/-- The key hash of a P2PKH script. -/
def p2pkhHash (script : Bytes) : Option (Arr 20) :=
  if script.length = 25 ∧ script.take 3 = [opDup, opHash160, 20] ∧
      script.drop 23 = [opEqualverify, opChecksig] then
    Bytes.toArr? 20 ((script.drop 3).take 20)
  else none

theorem p2pkhHash_eq_some {script : Bytes} {h : Arr 20} (hs : p2pkhHash script = some h) :
    script = p2pkhScript h := by
  unfold p2pkhHash at hs
  split at hs
  · rename_i hc
    obtain ⟨-, h₁, h₂⟩ := hc
    have h₃ := Bytes.toArr?_eq_some.mp hs
    have hcut : script = script.take 3 ++ ((script.drop 3).take 20 ++ script.drop 23) := by
      conv_lhs => rw [← List.take_append_drop 3 script, ← List.take_append_drop 20 (script.drop 3)]
      rw [List.drop_drop]
    have hpush : pushData h.toList = 20 :: h.toList := by
      simp [pushData, opPushdata1]
    rw [hcut, h₁, h₂, h₃, p2pkhScript, hpush]
    rfl
  · cases hs

@[simp] theorem p2pkhHash_p2pkhScript (h : Arr 20) : p2pkhHash (p2pkhScript h) = some h := by
  have hpush : pushData h.toList = 20 :: h.toList := by
    simp [pushData, opPushdata1]
  have hlen : h.toList.length = 20 := h.toList_length
  simp [p2pkhHash, p2pkhScript, hpush, List.take_append, List.drop_append, hlen]

/-- The script hash of a P2SH script. -/
def p2shHash (script : Bytes) : Option (Arr 20) :=
  if script.length = 23 ∧ script.take 2 = [opHash160, 20] ∧ script.drop 22 = [opEqual] then
    Bytes.toArr? 20 ((script.drop 2).take 20)
  else none

/-- `is_op_return`. -/
def isOpReturn (script : Bytes) : Bool := script.head? = some opReturn

/-- The P2PKH scriptSig: the signature with its hash type, then the key. -/
def p2pkhScriptSig (sigWithHashtype : Bytes) (pubkey : Arr 33) : Bytes :=
  pushData sigWithHashtype ++ pushData pubkey.toList

section Carrier

variable (C : Crypto)

/-- `is_compressed_key`. -/
def isCompressedKey (key : Bytes) : Bool :=
  key.length = 33 && (key.head? = some 0x02 || key.head? = some 0x03) && C.pointOk key

/-- `p2sh_of`: the P2SH script of a redeem script. -/
def p2shOf (redeemScript : Bytes) : Bytes := p2shScript (C.hash160 redeemScript)

/-- `OP_SWAP OP_SHA256 <bundleHash> OP_EQUALVERIFY <pk> OP_CHECKSIG`. -/
def carrierScript (pk : Arr 33) (bundleHash : Arr 32) : Except ScriptError Bytes :=
  if isCompressedKey C pk.toList then
    .ok ([opSwap, opSha256] ++ pushData bundleHash.toList ++ [opEqualverify] ++
      pushData pk.toList ++ [opChecksig])
  else .error .badKey

/-- `parse_carrier_script`: the key and the bundle hash of the exact template. -/
def parseCarrierScript (script : Bytes) : Option (Arr 33 × Arr 32) :=
  if script.length ≠ carrierScriptSize then none
  else match ops script with
    | .ok [o0, o1, o2, o3, o4, o5] =>
      if o0.opcode = opSwap ∧ o1.opcode = opSha256 ∧ o2.opcode = 32 ∧ o3.opcode = opEqualverify ∧
          o4.opcode = 33 ∧ isCompressedKey C o4.data ∧ o5.opcode = opChecksig then do
        let hash ← Bytes.toArr? 32 o2.data
        let pk ← Bytes.toArr? 33 o4.data
        some (pk, hash)
      else none
    | _ => none

/-- `carrier_script_sig`: the bundle, the signature and the carrier script. -/
def carrierScriptSig (bundle sigWithHashtype carrier : Bytes) : Except ScriptError Bytes :=
  if bundle.length > maxScriptElementSize then .error (.elementTooLarge bundle.length)
  else .ok (pushData bundle ++ pushData sigWithHashtype ++ pushData carrier)

/-- `CarrierSpend`: a parsed carrier scriptSig. -/
structure CarrierSpend where
  bundle : Bytes
  sig : Bytes
  pk : Arr 33
  bundleHash : Arr 32
  carrierScript : Bytes
deriving DecidableEq

/-- `parse_carrier_script_sig`: three data pushes, the third a carrier script. -/
def parseCarrierScriptSig (scriptSig : Bytes) : Option CarrierSpend :=
  match ops scriptSig with
  | .ok [o0, o1, o2] =>
    if opPushdata4 < o0.opcode ∨ opPushdata4 < o1.opcode ∨ opPushdata4 < o2.opcode then none
    else do
      let (pk, bundleHash) ← parseCarrierScript C o2.data
      some { bundle := o0.data, sig := o1.data, pk, bundleHash, carrierScript := o2.data }
  | _ => none

end Carrier

end Yew.Script
