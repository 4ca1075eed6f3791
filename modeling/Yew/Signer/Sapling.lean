import Yew.Signer.Wallet

/-!
# The Sapling build

`z_sendmany`'s transaction, built whole in the signer, and the Sapling part of a transparent
transaction.  The signer checks every spent note against its account and the anchor, and every
transparent input against its key; the outputs it adds up as the request flags them.

The library's part is `Yew.Core.Sapling`.

## Source

* `yewd/signer/src/sapling.rs`: `hex32`, `zat`, `taddr_of`, `SignerCore::sapling_extsk`,
  `SignerCore::sapling_build`, `SignerCore::sapling_prepare`, `SignerCore::spend_parts`
-/

namespace Yew.Signer

open Script Tx Keys Proto SetAct Sapling

/-- `MAX_MONEY`. -/
def maxMoney : Int64 := 2100000000000000

/-- `OutPoint::parse`, refused with a code and a reason of the caller's. -/
def outPointOr (code reason text : String) : M OutPoint :=
  orHalt code (fun _ ↦ reason) (Halt.mapErr (fun _ ↦ "") (parseOutPoint text))

/-- `hex32`. -/
def hex32 (s what : String) : M (Arr 32) :=
  orElse Refuse.malformed (what ++ ": not 32 bytes of hex") ((Hex.decode s).bind (Bytes.toArr? 32))

/-- `zat`: an amount from nothing to all the money there is. -/
def zat (v : Int64) (what : String) : M Unit :=
  if 0 ≤ v ∧ v ≤ maxMoney then return ()
  else no Refuse.malformed (what ++ ": " ++ Text.decimalInt v.toInt ++ " is not an amount")

/-- `taddr_of`: the address of a P2PKH or P2SH script. -/
def taddrOf (script : Bytes) : Option TAddr :=
  match p2pkhHash script with
  | some h => some (.publicKeyHash h)
  | none => (p2shHash script).map .scriptHash

section

variable (C : Crypto) (L : Sapling.Lib)

/-- `sapling_extsk`. -/
def saplingExtsk : M ExtSk := do
  let _ ← keys
  let c ← core
  let phrase ← orElse Refuse.locked lockedText c.ks.mnemonic
  let b ← orRefuse Refuse.failed id (L.spendingKey c.network phrase)
  if L.extskOk b then return b else no Refuse.failed "the Sapling spending key"

/-- The anchor of a build: the empty tree's root when nothing is spent. -/
def anchorFor (spends : List SaplingSpend) (anchor : String) : M (Arr 32) := do
  if spends.isEmpty then return L.emptyTree
  else
    let a ← hex32 anchor "anchor"
    if L.anchorOk a then return a else no Refuse.malformed "anchor: not a Sapling root"

/-- One node of a Merkle path. -/
def pathNode (h : String) : M (Arr 32) := do
  let b ← hex32 h "path node"
  if L.nodeOk b then return b else no Refuse.malformed "path node"

/-- The recipient of a spent note. -/
def spendRecipient (s : SaplingSpend) : M Address := do
  let addr ← orElse Refuse.malformed "spend recipient: not 43 bytes"
    ((Hex.decode s.recipient).bind (Bytes.toArr? 43))
  if L.addressOk addr then return addr else no Refuse.malformed "spend recipient"

/-- The Merkle path of a spent note. -/
def spendPath (s : SaplingSpend) : M MerklePath := do
  if s.path.length ≠ 32 then no Refuse.malformed "a Merkle path has 32 nodes"
  else
    let nodes ← Proc.forEach (pathNode L) s.path
    let path : MerklePath := ⟨nodes, s.position⟩
    if L.pathOk path then return path else no Refuse.malformed "a Merkle path"

/-- `spend_parts`: a spend's note and path, checked against the account and the anchor. -/
def spendParts (extsk : ExtSk) (anchor : Arr 32) (s : SaplingSpend) : M Spend := do
  let addr ← spendRecipient L s
  if !s.afterZip212 then no Refuse.malformed "a pre-ZIP-212 note is not spent by this signer"
  else
    let rseed ← hex32 s.rseed "rseed"
    let note : Note := ⟨addr, s.value, rseed⟩
    if L.scope extsk addr ≠ some s.internal then
      no Refuse.keyMismatch "a spent note is not this account's"
    else
      let path ← spendPath L s
      if L.root note path ≠ anchor then
        no Refuse.previewMismatch "a note's path does not lead to the anchor"
      else return ⟨note, path, s.internal⟩

/-- A spend, checked and handed to the builder. -/
def addSpend (extsk : ExtSk) (anchor : Arr 32) (s : SaplingSpend) : M Spend := do
  let spend ← spendParts L extsk anchor s
  let _ ← orRefuse Refuse.failed ("sapling spend: " ++ ·) (L.addSpend spend)
  return spend

/-- A transparent input: a P2PKH coin of the key named for it. -/
def addTInput (i : SaplingTInput) : M TInput := do
  let script ← orElse Refuse.malformed "input script" (Hex.decode i.prevout.script)
  match i.key with
  | .bip32 chain index =>
    let (sk, pk) ← transparent C chain index
    if p2pkhHash script ≠ some (C.hash160 pk.toList) then
      no Refuse.keyMismatch "an input key does not own its coin"
    else
      let op ← outPointOr Refuse.unboundInput (i.prevout.outpoint ++ " is not txid:n")
        i.prevout.outpoint
      let _ ← zat i.prevout.amountZat "input amount"
      let input : TInput := ⟨sk, op, i.prevout.amountZat, script⟩
      let _ ← orRefuse Refuse.failed ("transparent input: " ++ ·) (L.addInput input)
      return input
  | _ => no Refuse.keyMismatch "a transparent input needs a BIP32 key"

/-- The memo of a shielded output: empty, or at most 512 bytes. -/
def memoOf (memo : String) : M Bytes :=
  if memo.isEmpty then return [0xf6]
  else do
    let b ← orElse Refuse.malformed "memo" (Hex.decode memo)
    if b.length > 512 then no Refuse.malformed "memo too long" else return b

/-- The address of a shielded output. -/
def shieldedTo (address : String) : M Address := do
  let c ← core
  orRefuse Refuse.malformed (address ++ ": " ++ ·) (L.decodeAddress c.network address)

/-- An output of `sapling_build`, as it is handed to the builder. -/
def addOut (extsk : ExtSk) : SaplingOut → M (Output ⊕ (TAddr × Int64))
  | .transparent script value _ => do
    let s ← orElse Refuse.malformed "output script" (Hex.decode script)
    let dest ← orElse Refuse.malformed "an output script is not P2PKH or P2SH" (taddrOf s)
    let _ ← zat value "output"
    let _ ← orRefuse Refuse.failed ("transparent output: " ++ ·) (L.addTransparentOutput dest value)
    return .inr (dest, value)
  | .shielded address value memo _ => do
    let dest ← shieldedTo L address
    let m ← memoOf memo
    let _ ← zat value "output"
    let out : Output := ⟨false, dest, value, m⟩
    let _ ← orRefuse Refuse.failed ("sapling output: " ++ ·) (L.addOutput out)
    return .inl out
  | .change value => do
    let _ ← zat value "change"
    let out : Output := ⟨true, L.changeAddress extsk, value, [0xf6]⟩
    let _ ← orRefuse Refuse.failed ("sapling change: " ++ ·) (L.addOutput out)
    return .inl out

end

/-- The value of an output. -/
def outValue : SaplingOut → Int64
  | .transparent _ value _ | .shielded _ value _ _ | .change value => value

/-- Whether an output is added to the wallet's own total: the caller's flag, or change. -/
def outOwn : SaplingOut → Bool
  | .transparent _ _ own | .shielded _ _ _ own => own
  | .change _ => true

/-- `in_total`. -/
def inTotal (r : SaplingBuildRequest) : Int64 :=
  sumZat (r.spends.map fun s ↦ s.value.toInt64) + sumZat (r.inputs.map fun i ↦ i.prevout.amountZat)

/-- `out_total`. -/
def outTotal (outs : List SaplingOut) : Int64 := sumZat (outs.map outValue)

/-- `own_total`. -/
def ownTotal (outs : List SaplingOut) : Int64 := sumZat ((outs.filter outOwn).map outValue)

section

variable (C : Crypto) (L : Sapling.Lib)

/-- The two sums `sapling_build` compares with the request. -/
def checkTotals (r : SaplingBuildRequest) : M Unit :=
  if inTotal r - outTotal r.outputs ≠ r.feeZat then
    no Refuse.previewMismatch ("inputs " ++ Text.decimalInt (inTotal r).toInt ++
      " minus outputs " ++ Text.decimalInt (outTotal r.outputs).toInt ++ " is not the fee " ++
      Text.decimalInt r.feeZat.toInt)
  else if inTotal r - ownTotal r.outputs > r.outflowCapZat then
    no Refuse.outflow ("outflow: " ++
      Text.decimalInt (inTotal r - ownTotal r.outputs).toInt ++
      " leaves the wallet, the cap is " ++ Text.decimalInt r.outflowCapZat.toInt)
  else return ()

/-- `sapling_build`. -/
def saplingBuild (r : SaplingBuildRequest) : M String := do
  let extsk ← saplingExtsk L
  let anchor ← anchorFor L r.spends r.anchor
  let spends ← Proc.forEach (addSpend L extsk anchor) r.spends
  let inputs ← Proc.forEach (addTInput C L) r.inputs
  let outputs ← Proc.forEach (addOut L extsk) r.outputs
  let _ ← checkTotals r
  let _ ← orRefuse Refuse.failed ("the Sapling parameters: " ++ ·) (L.ensureVerified r.paramsDir)
  let _ ← zat r.feeZat "fee"
  let plan : Plan := ⟨r.targetHeight, r.vaultHeight, anchor, spends, inputs, outputs, r.feeZat,
    r.paramsDir⟩
  let s ← Proc.get
  let bytes ← orRefuse Refuse.failed ("the Sapling build: " ++ ·)
    (L.build extsk plan (s.env.entropy 0))
  return Hex.encode bytes

/-- An output of a Sapling part. -/
def addPartOut (extsk : ExtSk) : SaplingOut → M Output
  | .shielded address value memo _ => do
    let dest ← shieldedTo L address
    let m ← memoOf memo
    let out : Output := ⟨false, dest, value, m⟩
    if value < 0 then no Refuse.malformed "a negative output"
    else
      let _ ← orRefuse Refuse.failed ("sapling output: " ++ ·) (L.addOutput out)
      return out
  | .change value => do
    let out : Output := ⟨true, L.changeAddress extsk, value, [0xf6]⟩
    if value < 0 then no Refuse.malformed "a negative output"
    else
      let _ ← orRefuse Refuse.failed ("sapling output: " ++ ·) (L.addOutput out)
      return out
  | .transparent .. => no Refuse.malformed "a transparent output in the Sapling part"

/-- `sapling_prepare`: the Sapling part of a transaction, built and proven. -/
def saplingPrepare (part : SaplingPart) (tx : Transaction) (branchId : UInt32) :
    M (Hybrid × Bytes) := do
  let extsk ← saplingExtsk L
  let anchor ← anchorFor L part.spends part.anchor
  let spends ← Proc.forEach (addSpend L extsk anchor) part.spends
  let outputs ← Proc.forEach (addPartOut L extsk) part.outputs
  let _ ← orRefuse Refuse.failed ("the Sapling parameters: " ++ ·)
    (L.ensureVerified part.paramsDir)
  let h : Hybrid := ⟨extsk, anchor, spends, outputs, part.paramsDir, tx, branchId⟩
  let s ← Proc.get
  let bundle ← orRefuse Refuse.failed ("the Sapling bundle: " ++ ·) (L.prove h (s.env.entropy 0))
  let proven ← orElse Refuse.malformed "an empty Sapling part" bundle
  let raw ← orRefuse Refuse.failed id (tx.serialize.mapError TxError.text)
  if !L.branchOk branchId then
    no Refuse.malformed ("branch id " ++ Hex.encode (Bytes.leOfNat 4 branchId.toNat).reverse)
  else
    let _ ← orRefuse Refuse.malformed ("the transparent part: " ++ ·)
      (L.readTransparent raw branchId)
    return (h, proven)

end

/-! ## What the build leaves alone -/

section

variable (C : Crypto) (L : Sapling.Lib)

theorem quiet_outPointOr (code reason text : String) : Quiet (outPointOr code reason text) :=
  quiet_orHalt _ _ _

theorem quiet_hex32 (s what : String) : Quiet (hex32 s what) := quiet_orElse _ _ _

theorem quiet_zat (v : Int64) (what : String) : Quiet (zat v what) := .ite (.pure _) (quiet_no _ _)

theorem quiet_saplingExtsk : Quiet (saplingExtsk L) :=
  quiet_keys.bind fun _ ↦ quiet_core.bind fun _ ↦ (quiet_orElse _ _ _).bind fun _ ↦
    (quiet_orRefuse _ _ _).bind fun _ ↦ .ite (.pure _) (quiet_no _ _)

theorem quiet_anchorFor (spends : List SaplingSpend) (anchor : String) :
    Quiet (anchorFor L spends anchor) :=
  .ite (.pure _) ((quiet_hex32 _ _).bind fun _ ↦ .ite (.pure _) (quiet_no _ _))

theorem quiet_spendPath (s : SaplingSpend) : Quiet (spendPath L s) := by
  refine .ite (quiet_no _ _) (Proc.Quiet.bind (.forEach (fun h ↦ ?_) _) fun _ ↦ ?_)
  · exact (quiet_hex32 _ _).bind fun _ ↦ .ite (.pure _) (quiet_no _ _)
  · exact .ite (.pure _) (quiet_no _ _)

theorem quiet_addSpend (extsk : ExtSk) (anchor : Arr 32) (s : SaplingSpend) :
    Quiet (addSpend L extsk anchor s) := by
  refine Proc.Quiet.bind ?_ fun _ ↦ (quiet_orRefuse _ _ _).bind fun _ ↦ .pure _
  refine Proc.Quiet.bind ?_ fun _ ↦ .ite (quiet_no _ _) ?_
  · exact (quiet_orElse _ _ _).bind fun _ ↦ .ite (.pure _) (quiet_no _ _)
  · exact (quiet_hex32 _ _).bind fun _ ↦ .ite (quiet_no _ _) ((quiet_spendPath L s).bind fun _ ↦
      .ite (quiet_no _ _) (.pure _))

theorem quiet_addTInput (i : SaplingTInput) : Quiet (addTInput C L i) := by
  refine (quiet_orElse _ _ _).bind fun script ↦ ?_
  cases i.key with
  | bip32 chain index =>
    exact (quiet_transparent C chain index).bind fun _ ↦ .ite (quiet_no _ _) <|
      (quiet_outPointOr _ _ _).bind fun _ ↦ (quiet_zat _ _).bind fun _ ↦
        (quiet_orRefuse _ _ _).bind fun _ ↦ .pure _
  | none | pq | pqOwner | carrier | bond => exact quiet_no _ _

theorem quiet_memoOf (memo : String) : Quiet (memoOf memo) :=
  .ite (.pure _) ((quiet_orElse _ _ _).bind fun _ ↦ .ite (quiet_no _ _) (.pure _))

theorem quiet_shieldedTo (address : String) : Quiet (shieldedTo L address) :=
  quiet_core.bind fun _ ↦ quiet_orRefuse _ _ _

theorem quiet_addOut (extsk : ExtSk) (o : SaplingOut) : Quiet (addOut L extsk o) := by
  cases o with
  | transparent script value own =>
    exact (quiet_orElse _ _ _).bind fun _ ↦ (quiet_orElse _ _ _).bind fun _ ↦
      (quiet_zat _ _).bind fun _ ↦ (quiet_orRefuse _ _ _).bind fun _ ↦ .pure _
  | shielded address value memo own =>
    exact (quiet_shieldedTo L address).bind fun _ ↦ (quiet_memoOf memo).bind fun _ ↦
      (quiet_zat _ _).bind fun _ ↦ (quiet_orRefuse _ _ _).bind fun _ ↦ .pure _
  | change value =>
    exact (quiet_zat _ _).bind fun _ ↦ (quiet_orRefuse _ _ _).bind fun _ ↦ .pure _

theorem quiet_checkTotals (r : SaplingBuildRequest) : Quiet (checkTotals r) :=
  .ite (quiet_no _ _) (.ite (quiet_no _ _) (.pure _))

theorem quiet_saplingBuild (r : SaplingBuildRequest) : Quiet (saplingBuild C L r) :=
  (quiet_saplingExtsk L).bind fun _ ↦ (quiet_anchorFor L _ _).bind fun _ ↦
    Proc.Quiet.bind (.forEach (quiet_addSpend L _ _) _) fun _ ↦
      Proc.Quiet.bind (.forEach (quiet_addTInput C L) _) fun _ ↦
        Proc.Quiet.bind (.forEach (quiet_addOut L _) _) fun _ ↦
          (quiet_checkTotals r).bind fun _ ↦ (quiet_orRefuse _ _ _).bind fun _ ↦
            (quiet_zat _ _).bind fun _ ↦ Proc.Quiet.get.bind fun _ ↦
              (quiet_orRefuse _ _ _).bind fun _ ↦ .pure _

theorem quiet_addPartOut (extsk : ExtSk) (o : SaplingOut) : Quiet (addPartOut L extsk o) := by
  cases o with
  | transparent script value own => exact quiet_no _ _
  | shielded address value memo own =>
    exact (quiet_shieldedTo L address).bind fun _ ↦ (quiet_memoOf memo).bind fun _ ↦
      .ite (quiet_no _ _) ((quiet_orRefuse _ _ _).bind fun _ ↦ .pure _)
  | change value =>
    exact .ite (quiet_no _ _) ((quiet_orRefuse _ _ _).bind fun _ ↦ .pure _)

theorem quiet_saplingPrepare (part : SaplingPart) (tx : Transaction) (branchId : UInt32) :
    Quiet (saplingPrepare L part tx branchId) :=
  (quiet_saplingExtsk L).bind fun _ ↦ (quiet_anchorFor L _ _).bind fun _ ↦
    Proc.Quiet.bind (.forEach (quiet_addSpend L _ _) _) fun _ ↦
      Proc.Quiet.bind (.forEach (quiet_addPartOut L _) _) fun _ ↦
        (quiet_orRefuse _ _ _).bind fun _ ↦ Proc.Quiet.get.bind fun _ ↦
          (quiet_orRefuse _ _ _).bind fun _ ↦ (quiet_orElse _ _ _).bind fun _ ↦
            (quiet_orRefuse _ _ _).bind fun _ ↦ .ite (quiet_no _ _)
              ((quiet_orRefuse _ _ _).bind fun _ ↦ .pure _)

end

end Yew.Signer
