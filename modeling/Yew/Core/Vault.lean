import Yew.Core.Pq

/-!
# Vault and intent templates

The two output templates of the vault upgrade, as bare scripts: the vault `V` and the intent `I`.
The parsers read the fields out of the operations, rebuild the template from them and compare the
bytes, so a script they accept is exactly one the builders make.

The owner's key and the keys of the set stand in the script by their hashes.

## Source

* `core/src/vault.rs`: `SetId`, `VaultParams`, `IntentParams`, `push_owner`, `vault_params_valid`,
  `intent_params_valid`, `build_vault`, `build_intent` and 17 more
* `core/src/script.rs`: `owner_script_sig`
-/

namespace Yew.Vault

open Script Pq

def op2 : UInt8 := 0x52
def op3 : UInt8 := 0x53
def op4 : UInt8 := 0x54
def opIf : UInt8 := 0x63
def opElse : UInt8 := 0x67
def opEndif : UInt8 := 0x68
def opVerify : UInt8 := 0x69
def op2drop : UInt8 := 0x6d
def opChecksequenceverify : UInt8 := 0xb2
def opChecksetsig : UInt8 := 0xc0
def opChecksetdormant : UInt8 := 0xc1

/-- V: the owner branch; I: the cancel branch. -/
def selOwner : UInt8 := 2

/-- V and I: the owner when the set is released. -/
def selReleased : UInt8 := 3

/-- The largest height of a template. -/
def maxTemplateHeight : Int := 499999999

/-- A set id: the txid of its `SET_CREATE` transaction, in internal byte order. -/
abbrev SetId := Arr 32

/-- `VaultParams`. -/
structure VaultParams where
  tag : Arr 4
  cancelSetId : SetId
  delay : Int
  setId : SetId
  ownerHeight : Int
  owner : PqKeyId
  appHeight : Int
deriving DecidableEq

/-- `IntentParams`. -/
structure IntentParams where
  tag : Arr 4
  recipientHash : Arr 32
  vaultHash : Arr 32
  delay : Int
  cancelSetId : SetId
  setId : SetId
  owner : PqKeyId
deriving DecidableEq

/-! ## Building -/

/-- `push_owner`: the owner's hash, scheme and `OP_CHECKPQSIG`. -/
def pushOwner (owner : PqKeyId) : Bytes :=
  pushData owner.hash.toList ++ pushInt owner.scheme.toNat ++ [opCheckpqsig]

/-- `vault_params_valid`. -/
def vaultParamsValid (p : VaultParams) : Bool :=
  (1 ≤ p.delay && p.delay ≤ 65535) && (1 ≤ p.ownerHeight && p.ownerHeight ≤ maxTemplateHeight) &&
    (0 ≤ p.appHeight && p.appHeight ≤ maxTemplateHeight) && p.owner.isKnown

/-- `intent_params_valid`. -/
def intentParamsValid (p : IntentParams) : Bool :=
  (1 ≤ p.delay && p.delay ≤ 65535) && p.owner.isKnown

/-- `build_vault`. -/
def buildVault (p : VaultParams) : Option Bytes :=
  if vaultParamsValid p then
    some (pushData p.tag.toList ++ pushData p.cancelSetId.toList ++ pushInt p.delay ++
      [op2drop, opDrop] ++
      [opDup, op1, opEqual, opIf, opDrop] ++ pushData p.setId.toList ++ [op1, opChecksetsig] ++
      [opElse, opDup, op2, opEqual, opIf, opDrop] ++ pushInt p.ownerHeight ++
      [opChecklocktimeverify, opDrop] ++ pushOwner p.owner ++
      [opElse, opDup, op3, opEqual, opIf, opDrop] ++ pushData p.setId.toList ++
      [opChecksetdormant, opVerify] ++ pushOwner p.owner ++
      [opElse, op4, opEqualverify] ++ pushInt p.appHeight ++ [opChecklocktimeverify] ++
      [opEndif, opEndif, opEndif])
  else none

/-- `build_intent`. -/
def buildIntent (p : IntentParams) : Option Bytes :=
  if intentParamsValid p then
    some (pushData p.tag.toList ++ pushData p.recipientHash.toList ++
      pushData p.vaultHash.toList ++ [op2drop, opDrop] ++
      [opDup, op1, opEqual, opIf, opDrop] ++ pushInt p.delay ++ [opChecksequenceverify] ++
      [opElse, opDup, op2, opEqual, opIf, opDrop] ++ pushData p.cancelSetId.toList ++
      [op2, opChecksetsig] ++
      [opElse, op3, opEqualverify] ++ pushData p.setId.toList ++
      [opChecksetdormant, opVerify] ++ pushOwner p.owner ++ [opEndif, opEndif])
  else none

/-! ## Parsing -/

/-- `read_num`: a script number, without the minimality test. -/
def readNum (o : ScriptOp) : Option Int :=
  if o.opcode = op0 then some 0
  else if op1 ≤ o.opcode ∧ o.opcode ≤ op16 then some (o.opcode.toNat - op1.toNat + 1 : Nat)
  else if o.opcode = op1Negate then some (-1)
  else if o.opcode > opPushdata4 ∨ o.data.isEmpty ∨ o.data.length > 5 then none
  else
    match o.data.getLast? with
    | none => none
    | some last =>
      let v : Int := Bytes.leToNat (o.data.dropLast ++ [last &&& 0x7f])
      some (if last &&& 0x80 ≠ 0 then -v else v)

/-- `data_of`: the push of exactly `n` bytes. -/
def dataOf (n : Nat) (o : ScriptOp) : Option (Arr n) :=
  if o.opcode > opPushdata4 then none else Bytes.toArr? n o.data

/-- `owner_of`: the owner slot's hash and scheme. -/
def ownerOf (hash scheme : ScriptOp) : Option PqKeyId := do
  let scheme ← readNum scheme
  if 1 ≤ scheme ∧ scheme ≤ 2 then
    let hash ← dataOf 32 hash
    some ⟨UInt8.ofNat scheme.toNat, hash⟩
  else none

/-- The fields `parse_vault` reads from the 45 operations of a vault. -/
def vaultFields (o : List ScriptOp) : Option VaultParams := do
  let tag ← dataOf 4 (← o[0]?)
  let cancelSetId ← dataOf 32 (← o[1]?)
  let delay ← readNum (← o[2]?)
  let setId ← dataOf 32 (← o[10]?)
  let ownerHeight ← readNum (← o[19]?)
  let owner ← ownerOf (← o[22]?) (← o[23]?)
  let appHeight ← readNum (← o[40]?)
  return { tag, cancelSetId, delay, setId, ownerHeight, owner, appHeight }

/-- `parse_vault`: the parameters of an exact, minimal, in-range V. -/
def parseVault (spk : Bytes) : Option VaultParams :=
  match ops spk with
  | .error _ => none
  | .ok o =>
    if o.length ≠ 45 then none
    else do
      let p ← vaultFields o
      if buildVault p = some spk then some p else none

/-- The fields `parse_intent` reads from the 32 operations of an intent. -/
def intentFields (o : List ScriptOp) : Option IntentParams := do
  let tag ← dataOf 4 (← o[0]?)
  let recipientHash ← dataOf 32 (← o[1]?)
  let vaultHash ← dataOf 32 (← o[2]?)
  let delay ← readNum (← o[10]?)
  let cancelSetId ← dataOf 32 (← o[18]?)
  let setId ← dataOf 32 (← o[24]?)
  let owner ← ownerOf (← o[27]?) (← o[28]?)
  return { tag, recipientHash, vaultHash, delay, cancelSetId, setId, owner }

/-- `parse_intent`: the parameters of an exact, minimal, in-range I. -/
def parseIntent (spk : Bytes) : Option IntentParams :=
  match ops spk with
  | .error _ => none
  | .ok o =>
    if o.length ≠ 32 then none
    else do
      let p ← intentFields o
      if buildIntent p = some spk then some p else none

/-! ## The intents and vaults of the wallet -/

/-- `script_hash256`: the single hash an intent names a script by. -/
def scriptHash256 (C : Crypto) (script : Bytes) : Arr 32 := C.sha256 script

/-- `intent_for`: the intent a spend of the vault may create to pay `recipient`. -/
def intentFor (C : Crypto) (v : VaultParams) (vaultSpk recipient : Bytes) : IntentParams where
  tag := v.tag
  recipientHash := scriptHash256 C recipient
  vaultHash := scriptHash256 C vaultSpk
  delay := v.delay
  cancelSetId := v.cancelSetId
  setId := v.setId
  owner := v.owner

/-- `YED_TAG`. -/
def yedTag : Arr 4 := ⟨[0x59, 0x45, 0x44, 0x00], rfl⟩

/-- `yed_vault_params_at`: the attestor set is both sets of a YED vault. -/
def yedVaultParamsAt (attestorSetId : SetId) (claimDelay : Int) (owner : PqKeyId)
    (ownerHeight appHeight : Int) : VaultParams where
  tag := yedTag
  cancelSetId := attestorSetId
  delay := claimDelay
  setId := attestorSetId
  ownerHeight := ownerHeight
  owner := owner
  appHeight := appHeight

/-- `yed_mint_vault_params`: both branches open from the block after the mint. -/
def yedMintVaultParams (attestorSetId : SetId) (claimDelay : Int) (owner : PqKeyId)
    (refHeight : UInt32) : VaultParams :=
  yedVaultParamsAt attestorSetId claimDelay owner (refHeight.toNat + 1) (refHeight.toNat + 1)

/-- `vault_app_script_sig`. -/
def vaultAppScriptSig : Bytes := [op4]

/-! ## Owner scriptSigs -/

/-- `owner_script_sig` of the templates: the chunked pushes and the selector's opcode. -/
def ownerScriptSig (sigWithHashtype pk : Bytes) (selector : UInt8) : Except PqError Bytes := do
  let s ← pqSigPushes sigWithHashtype pk
  return s ++ [selector]

/-- V, selector 2. -/
def vaultOwnerScriptSig (sigWithHashtype pk : Bytes) : Except PqError Bytes :=
  ownerScriptSig sigWithHashtype pk op2

/-- V, selector 3. -/
def vaultOwnerReleasedScriptSig (sigWithHashtype pk : Bytes) : Except PqError Bytes :=
  ownerScriptSig sigWithHashtype pk op3

/-- I, selector 3. -/
def intentOwnerReleasedScriptSig (sigWithHashtype pk : Bytes) : Except PqError Bytes :=
  ownerScriptSig sigWithHashtype pk op3

/-- `Kind`: which template a scriptSig spends. -/
inductive Kind where
  | vault
  | intent
deriving DecidableEq

/-- The last selector of a template. -/
def Kind.max : Kind → UInt8
  | .vault => op4
  | .intent => op3

/-- The selectors of a template's owner. -/
def Kind.isOwner : Kind → UInt8 → Bool
  | .vault, sel => sel = selOwner || sel = selReleased
  | .intent, sel => sel = selReleased

/-- `parse_selector`: the selector of a push-only scriptSig and the pushes before it. -/
def parseSelector (kind : Kind) (scriptSig : Bytes) : Option (UInt8 × List Bytes) :=
  match ops scriptSig with
  | .error _ => none
  | .ok o =>
    match o.getLast? with
    | none => none
    | some last =>
      if o.dropLast.any fun x ↦ x.opcode > op16 then none
      else if last.opcode < op1 ∨ last.opcode > kind.max then none
      else some (last.opcode - op1 + 1, o.dropLast.map ScriptOp.data)

/-- `parse_owner_script_sig`: the selector, the signature and the key of an owner's scriptSig. -/
def parseOwnerScriptSig (kind : Kind) (scriptSig : Bytes) : Option (UInt8 × Bytes × Bytes) := do
  let (sel, _) ← parseSelector kind scriptSig
  if kind.isOwner sel then
    match ops scriptSig with
    | .error _ => none
    | .ok o => do
      let (sig, pk) ← parsePqSigOps o.dropLast
      some (sel, sig, pk)
  else none

end Yew.Vault
