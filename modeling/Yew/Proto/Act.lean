import Yew.Core.Keys

/-!
# Set acts and set messages

Outpoints in their text form, bond scripts, the messages a set member signs, and the codec of the
`YV` acts.

An act is a payload and the signatures over it, as pushes of an `OP_RETURN` script.

## Source

* `yewd/proto/src/act.rs`: `OutPoint`, `OutPoint::parse`, `Create`, `Equivocation`, `Body`, `Act`,
  `body_size`, `Body::type_byte` and 17 more
* `yewd/wallet/src/sapling.rs`: `Viewing::encode`
-/

namespace Yew.SetAct

open Script Tx

/-! ## Outpoints -/

/-- `str::rsplit_once(':')`, on characters. -/
def rsplitColon (cs : List Char) : Option (List Char × List Char) :=
  let tail := cs.reverse.takeWhile (· ≠ ':')
  match cs.reverse.drop tail.length with
  | [] => none
  | _ :: head => some (head.reverse, tail.reverse)

/-- `OutPoint::parse`: `txid:n`, the txid in display form.  A panic of `unhex` is not caught. -/
def parseOutPoint (s : String) : Except (Halt Unit) OutPoint :=
  match rsplitColon s.toList with
  | none => .error (.error ())
  | some (t, n) =>
    match Keys.txidFromHex (String.ofList t) with
    | .error .panic => .error .panic
    | .error (.error _) => .error (.error ())
    | .ok txid =>
      match Text.parseU32 (String.ofList n) with
      | some n => .ok ⟨txid, n⟩
      | none => .error (.error ())

theorem rsplitColon_append {as bs : List Char} (h : ':' ∉ bs) :
    rsplitColon (as ++ ':' :: bs) = some (as, bs) := by
  have hne : ∀ c ∈ bs.reverse, decide (c ≠ ':') = true := by
    intro c hc
    rw [decide_eq_true_eq]
    rintro rfl
    exact h (List.mem_reverse.mp hc)
  have htail : (as ++ ':' :: bs).reverse.takeWhile (· ≠ ':') = bs.reverse := by
    rw [List.reverse_append, List.reverse_cons, List.append_assoc,
      List.takeWhile_append_of_pos hne]
    simp
  rw [rsplitColon, htail]
  simp

theorem toList_display (op : OutPoint) : op.display.toList =
    (txidHex op.txid).toList ++ ':' :: Nat.toDigits 10 op.n.toNat := by
  simp [OutPoint.display, Text.decimal]

@[simp] theorem rsplitColon_display (op : OutPoint) : rsplitColon op.display.toList =
    some ((txidHex op.txid).toList, Nat.toDigits 10 op.n.toNat) := by
  rw [toList_display, rsplitColon_append]
  intro h
  cases Text.isDigit_toDigits h

/-- An outpoint that was displayed is read. -/
theorem parseOutPoint_display (op : OutPoint) : parseOutPoint op.display = .ok op := by
  rw [parseOutPoint, rsplitColon_display]
  dsimp only
  rw [String.ofList_toList, Keys.txidFromHex_txidHex]
  dsimp only
  rw [← Text.decimal, Text.parseU32_decimal]

theorem display_injective : Function.Injective OutPoint.display := by
  intro a b h
  have hparse := parseOutPoint_display a
  rw [h, parseOutPoint_display] at hparse
  exact (Except.ok.inj hparse).symm

/-! ## Bonds and messages -/

/-- `bond_redeem_script`: `<locktime> CLTV DROP <memberkey> CHECKSIG`. -/
def bondRedeemScript (locktime : UInt32) (memberKey : Arr 33) : Bytes :=
  pushInt locktime.toNat ++ [opChecklocktimeverify, opDrop] ++ pushData memberKey.toList ++
    [opChecksig]

section Messages

variable (C : Crypto)

/-- `bond_script_pubkey`. -/
def bondScriptPubkey (locktime : UInt32) (memberKey : Arr 33) : Bytes :=
  p2shOf C (bondRedeemScript locktime memberKey)

/-- `act_msg`. -/
def actMsg (payload : Bytes) (prevout : OutPoint) : Arr 32 :=
  C.sha256d (person "YcashSetAct" ++ payload ++ writeOutPoint prevout)

/-- `set_sig_msg`. -/
def setSigMsg (setId : Arr 32) (role : UInt8) (prevout : OutPoint) (sighash : Arr 32) : Arr 32 :=
  C.sha256d (person "YcashSetSig" ++ setId.toList ++ [role] ++ writeOutPoint prevout ++
    sighash.toList)

end Messages

/-! ## The act codec -/

/-- The magic bytes `YV`. -/
def magic : Bytes := [0x59, 0x56]

def maxActSigs : Nat := 16
def sigSize : Nat := 65

/-- `Create`: the body of `SET_CREATE`. -/
structure Create where
  seats : UInt8
  unlockThreshold : UInt8
  cancelThreshold : UInt8
  slashThreshold : UInt8
  flags : UInt8
  rateLimitBps : UInt16
  rateWindow : UInt32
  livenessWindow : UInt32
  bondMin : Int64
  bondLockMin : UInt32
  maturity : UInt32
  admitKey : Arr 33
deriving DecidableEq

/-- `Equivocation`: the body of `SET_EQUIVOCATION`. -/
structure Equivocation where
  setId : Arr 32
  prevout : OutPoint
  roleA : UInt8
  sighashA : Arr 32
  sigA : Arr 65
  roleB : UInt8
  sighashB : Arr 32
  sigB : Arr 65
deriving DecidableEq

/-- `Body`. -/
inductive Body where
  | create (c : Create)
  | join (setId : Arr 32) (memberKey : Arr 33) (bondLocktime : UInt32) (bondVout : UInt8)
  | heartbeat (setId : Arr 32) (memberKey : Arr 33)
  | remove (setId : Arr 32) (memberKey : Arr 33) (burn : UInt8)
  | equivocation (e : Equivocation)
  | winddown (setId : Arr 32)
deriving DecidableEq

/-- `Act`: a body and the signatures over it. -/
structure Act where
  body : Body
  sigs : List (Arr 65)
deriving DecidableEq

/-- `Body::type_byte`. -/
def Body.typeByte : Body → UInt8
  | .create _ => 0x01
  | .join .. => 0x02
  | .heartbeat .. => 0x03
  | .remove .. => 0x04
  | .equivocation _ => 0x05
  | .winddown _ => 0x06

/-- `body_size`, 0 for an unknown type. -/
def bodySize (t : UInt8) : Nat :=
  if t = 0x01 then 64 else if t = 0x02 then 70 else if t = 0x03 then 65
  else if t = 0x04 then 66 else if t = 0x05 then 264 else if t = 0x06 then 32 else 0

/-- The body's bytes. -/
def encodeBody : Body → Bytes
  | .create c => [c.seats, c.unlockThreshold, c.cancelThreshold, c.slashThreshold, c.flags] ++
      Bytes.leOfNat 2 c.rateLimitBps.toNat ++ writeU32 c.rateWindow ++ writeU32 c.livenessWindow ++
      writeI64 c.bondMin ++ writeU32 c.bondLockMin ++ writeU32 c.maturity ++ c.admitKey.toList
  | .join setId memberKey bondLocktime bondVout =>
    setId.toList ++ memberKey.toList ++ writeU32 bondLocktime ++ [bondVout]
  | .heartbeat setId memberKey => setId.toList ++ memberKey.toList
  | .remove setId memberKey burn => setId.toList ++ memberKey.toList ++ [burn]
  | .equivocation e => e.setId.toList ++ writeOutPoint e.prevout ++ [e.roleA] ++
      e.sighashA.toList ++ e.sigA.toList ++ [e.roleB] ++ e.sighashB.toList ++ e.sigB.toList
  | .winddown setId => setId.toList

/-- `encode_payload`. -/
def encodePayload (b : Body) : Bytes := magic ++ [0x01, b.typeByte] ++ encodeBody b

/-- `encode`: `OP_RETURN <P> <sig>…`. -/
def encode (a : Act) : Bytes :=
  opReturn :: (pushData (encodePayload a.body) ++ a.sigs.flatMap fun s ↦ pushData s.toList)

/-- A read of the body's bytes; what is left is the state. -/
abbrev Read := StateT Bytes Option

/-- `R::take`. -/
def arr (n : Nat) : Read (Arr n) := do
  let b ← (fun b ↦ Bytes.split? n b : Read Bytes)
  match Bytes.toArr? n b with
  | some a => return a
  | none => failure

/-- The number a field of `n` bytes spells. -/
def num (n : Nat) : Read Nat := do return Bytes.leToNat (← arr n).toList

/-- `R::u8`. -/
def u8 : Read UInt8 := do return UInt8.ofNat (← num 1)

/-- `R::u32`. -/
def u32 : Read UInt32 := do return UInt32.ofNat (← num 4)

/-- `R::outpoint`. -/
def outpoint : Read OutPoint := do return ⟨← arr 32, ← u32⟩

/-- The body of a known type. -/
def readBody (t : UInt8) : Read Body :=
  if t = 0x01 then do
    return .create {
      seats := ← u8
      unlockThreshold := ← u8
      cancelThreshold := ← u8
      slashThreshold := ← u8
      flags := ← u8
      rateLimitBps := UInt16.ofNat (← num 2)
      rateWindow := ← u32
      livenessWindow := ← u32
      bondMin := (UInt64.ofNat (← num 8)).toInt64
      bondLockMin := ← u32
      maturity := ← u32
      admitKey := ← arr 33 }
  else if t = 0x02 then do return .join (← arr 32) (← arr 33) (← u32) (← u8)
  else if t = 0x03 then do return .heartbeat (← arr 32) (← arr 33)
  else if t = 0x04 then do return .remove (← arr 32) (← arr 33) (← u8)
  else if t = 0x05 then do
    return .equivocation {
      setId := ← arr 32
      prevout := ← outpoint
      roleA := ← u8
      sighashA := ← arr 32
      sigA := ← arr 65
      roleB := ← u8
      sighashB := ← arr 32
      sigB := ← arr 65 }
  else do return .winddown (← arr 32)

/-- `decode_payload`: the body, or the node's error identifier. -/
def decodePayload (p : Bytes) : Except String Body :=
  match p with
  | m0 :: m1 :: version :: t :: body =>
    if [m0, m1] ≠ magic then .error "bad-vault-act-malformed"
    else if version ≠ 0x01 then .error "bad-vault-act-version"
    else if bodySize t = 0 then .error "bad-vault-act-type"
    else if p.length ≠ 4 + bodySize t then .error "bad-vault-act-malformed"
    else match readBody t body with
      | some (b, []) => .ok b
      | _ => .error "bad-vault-act-malformed"
  | _ => .error "bad-vault-act-malformed"

/-- `first_op`: the first operation's opcode and data. -/
def firstOp (s : Bytes) : Option (UInt8 × Bytes) :=
  match s with
  | [] => none
  | op :: rest =>
    let data (width : Nat) : Option (UInt8 × Bytes) := do
      let (len, rest) ← Bytes.split? width rest
      let (d, _) ← Bytes.split? (Bytes.leToNat len) rest
      return (op, d)
    if 0x01 ≤ op ∧ op ≤ 0x4b then (Bytes.split? op.toNat rest).map fun x ↦ (op, x.1)
    else if op = opPushdata1 then data 1
    else if op = opPushdata2 then data 2
    else if op = opPushdata4 then data 4
    else some (op, [])

/-- `is_act_output`: `OP_RETURN` and a push that begins `YV`. -/
def isActOutput (spk : Bytes) : Bool :=
  match spk with
  | [] => false
  | r :: rest =>
    r = opReturn && match firstOp rest with
      | some (op, data) => op ≤ opPushdata4 && data.take 2 = magic
      | none => false

/-- The signatures behind an act's payload. -/
def readSigs : Nat → List ScriptOp → Except String (List (Arr 65))
  | _, [] => .ok []
  | n, o :: os =>
    match Bytes.toArr? 65 o.data with
    | none => .error "bad-vault-act-malformed"
    | some sig =>
      if o.opcode > opPushdata4 then .error "bad-vault-act-malformed"
      else if n ≥ maxActSigs then .error "bad-vault-act-sigs"
      else do
        let sigs ← readSigs (n + 1) os
        return sig :: sigs

/-- `decode`: the act of an act output, canonical encoding only. -/
def decode (spk : Bytes) : Except String Act :=
  match spk with
  | [] => .error "bad-vault-act-malformed"
  | r :: rest =>
    if r ≠ opReturn then .error "bad-vault-act-malformed"
    else match ops rest with
      | .ok (first :: sigOps) =>
        if first.opcode > opPushdata4 ∨ first.data.take 2 ≠ magic then
          .error "bad-vault-act-malformed"
        else do
          let body ← decodePayload first.data
          let sigs ← readSigs 0 sigOps
          let a : Act := { body, sigs }
          if encode a ≠ spk then .error "bad-vault-act-malformed" else .ok a
      | _ => .error "bad-vault-act-malformed"

end Yew.SetAct
