import Yew.Signer.Sapling

/-!
# Signing a transparent transaction

The signer parses the transaction itself, binds every input to a prevout, checks that each key it
signs with owns the script it spends, checks the gate path's shape, recomputes the preview, compares
the outflow with the cap, and only then signs.

The order of the checks is the source's, since the error a request gets depends on it.

## Source

* `yewd/signer/src/sign.rs`: `SignerCore::sign`, `bind_inputs`, `owns_input`, `owner_script_sig`
-/

namespace Yew.Signer

open Script Tx Keys Pq Vault Proto SetAct Sapling

/-! ## Binding and ownership -/

/-- One prevout of `bind_inputs`: its script, when it names the input's outpoint, an amount in
range and a script that is not empty. -/
def bindInput (x : Nat × TxIn × Prevout) : M Bytes := do
  let (i, vin, p) := x
  let input := "input " ++ Text.decimal i
  let op ← outPointOr Refuse.unboundInput
    (input ++ ": prevout " ++ Text.debugStr p.outpoint ++ " is not txid:n") p.outpoint
  if op ≠ vin.prevout then
    no Refuse.unboundInput (input ++ " spends " ++ vin.prevout.display ++
      ", the request names " ++ op.display)
  else if p.amountZat < 0 ∨ p.amountZat > maxMoney then
    no Refuse.unboundInput (input ++ ": amount " ++ Text.decimalInt p.amountZat.toInt ++
      " out of range")
  else
    let s ← orRefuse Refuse.unboundInput ((input ++ ": script: ") ++ ·) (Hex.decodeOr p.script)
    if s.isEmpty then no Refuse.unboundInput (input ++ ": no script") else return s

/-- `bind_inputs`: the scripts of the prevouts, one for each input, in order. -/
def bindInputs (tx : Transaction) (prevouts : List Prevout) : M (List Bytes) :=
  if prevouts.length ≠ tx.vin.length then
    no Refuse.unboundInput ("the transaction has " ++ Text.decimal tx.vin.length ++
      " inputs, the request names " ++ Text.decimal prevouts.length ++ " prevouts")
  else Proc.forEach bindInput (indexed 0 (tx.vin.zip prevouts))

section

variable (C : Crypto)

/-- The carrier's redeem script of a key and a bundle. -/
def carrierRedeem (pk : Arr 33) (bundle : Bytes) : Except String Bytes :=
  (carrierScript C pk (C.sha256 bundle)).mapError ScriptError.text

/-- The owner's part of `owns_input`: a vault on two selectors, an intent on one. -/
def ownsTemplate (id : PqKeyId) (selector : UInt8) (script : Bytes) : Except String Unit :=
  match parseVault script with
  | some v =>
    if v.owner ≠ id then .error "the vault's owner is not the named key"
    else if selector ≠ selOwner ∧ selector ≠ selReleased then
      .error ("selector " ++ Text.decimal selector.toNat ++ " is not an owner branch of a vault")
    else .ok ()
  | none =>
    match parseIntent script with
    | some i =>
      if i.owner ≠ id then .error "the intent's owner is not the named key"
      else if selector ≠ selReleased then
        .error ("selector " ++ Text.decimal selector.toNat ++
          " is not an owner branch of an intent")
      else .ok ()
    | none => .error "an owner key signs a vault or an intent only"

/-- `owns_input`: whether the derived key owns the script it is to sign. -/
def ownsInput (k : KeyRef) (d : Derived) (script : Bytes) (bundle : Option String) :
    Except String Unit :=
  match k, d with
  | .carrier .., .t _ pk =>
    match bundle with
    | none => .error "a carrier input carries its bundle"
    | some h => do
      let b ← Hex.decodeOr h
      let redeem ← carrierRedeem C pk b
      if p2shOf C redeem = script then .ok ()
      else .error "the script is not the carrier of the named key and bundle"
  | .bond _ _ locktime, .t _ pk =>
    if bondScriptPubkey C locktime pk = script then .ok ()
    else .error "the script is not the bond of the named key and locktime"
  | .bip32 .., .t _ pk =>
    if p2pkhHash script = some (C.hash160 pk.toList) then .ok ()
    else .error "the script is not the P2PKH of the named key"
  | .pq .., .pq key =>
    if pqpkhOf script = some (key.id C) then .ok ()
    else .error "the script is not the TX_PQPKH of the named key"
  | .pqOwner _ _ selector, .pq key => ownsTemplate (key.id C) selector script
  | _, _ => .error "key kind and derivation disagree"

/-! ## The gate path -/

/-- A vault or an intent. -/
def isTemplate (script : Bytes) : Bool := (parseVault script).isSome || (parseIntent script).isSome

/-- The gate path's rule on the key of one input. -/
def pathAllowsKey (path : GatePath) (i : Nat) : KeyRef → M Unit
  | .pqOwner .. =>
    if path = .yec ∨ path = .vault then
      no Refuse.gate ("input " ++ Text.decimal i ++ ": an owner spend on the " ++ path.debug ++
        " path")
    else if path = .owner ∧ i ≠ 0 then
      no Refuse.gate ("input " ++ Text.decimal i ++
        ": the owner path spends its template at input 0 only")
    else return ()
  | _ => return ()

/-- The ownership check of an input that is to be signed. -/
def checkOwner (i : Nat) (inp : SignInput) (script : Bytes) : Option Derived → M Unit
  | none => return ()
  | some d => orRefuse Refuse.keyMismatch (("input " ++ Text.decimal i ++ ": ") ++ ·)
      (ownsInput C inp.key d script inp.carrierBundle)

/-- One turn of the input loop: whether the script is a template, and the key that signs. -/
def checkInput (path : GatePath) (x : Nat × SignInput × Bytes) : M (Bool × Option Derived) := do
  let (i, inp, script) := x
  let d ← derive C inp.key
  let _ ← checkOwner C i inp script d
  let _ ← pathAllowsKey path i inp.key
  if isTemplate script ∧ path = .yec then
    no Refuse.gate ("input " ++ Text.decimal i ++ " is a vault or intent: not a YEC payment")
  else return (isTemplate script, d)

/-- The gate path's rules on the whole transaction. -/
def pathAllows (r : SignRequest) (tx : Transaction) (templates : Nat) : M Unit :=
  match r.gatePath with
  | .vault =>
    if templates > 1 then no Refuse.gate "more than one template input (S-1)" else return ()
  | .owner =>
    match r.inputs.head?.map SignInput.key with
    | some (.pqOwner ..) => return ()
    | _ => no Refuse.gate "the owner path needs the owner's key at input 0"
  | .yec =>
    if tx.vout.any fun o ↦ isOpReturn o.scriptPubkey then
      no Refuse.gate "a YEC payment carries no data output"
    else return ()
  | .yed | .raw => return ()

/-! ## Own outputs -/

/-- Whether an output is paid to a derived key: a bond, a P2PKH or a `TX_PQPKH` output. -/
def paidTo (bondLocktime : Option UInt32) (d : Option Derived) (script : Bytes) : Bool :=
  match bondLocktime, d with
  | some lt, some (.t _ pk) => bondScriptPubkey C lt pk = script
  | none, some (.t _ pk) => p2pkhScript (C.hash160 pk.toList) = script
  | none, some (.pq k) => pqpkhScript (k.id C) = some script
  | _, _ => false

/-- One turn of the loop over the outputs named as own. -/
def checkOwn (tx : Transaction) (o : OwnOutput) : M Nat := do
  let out ← orElse Refuse.keyMismatch
    ("own output " ++ Text.decimal o.n.toNat ++ " does not exist") tx.vout[o.n.toNat]?
  let d ← derive C o.key
  if paidTo C o.bondLocktime d out.scriptPubkey then return o.n.toNat
  else no Refuse.keyMismatch ("output " ++ Text.decimal o.n.toNat ++
    " is not paid to the named key")

/-- The indices of the inputs that are to be signed. -/
def signedIndices (ds : List (Option Derived)) : List Nat :=
  ((indexed 0 ds).filter fun x ↦ x.2.isSome).map Prod.fst

/-- The preview the signer computes. -/
def wantedPreview (network : Network) (r : SignRequest) (tx : Transaction) (signed own : List Nat) :
    Preview :=
  withSapling (compute C network tx (r.inputs.map SignInput.prevout) signed own) r.sapling

/-- The comparisons with the request's preview and cap. -/
def checkPreview (r : SignRequest) (want : Preview) (signed : List Nat) : M Unit :=
  match difference want r.preview with
  | some d =>
    match signed.find? fun i ↦ !(r.preview.sign.map PreviewCoin.vin).contains i with
    | some f =>
      no Refuse.foreignInput ("input " ++ Text.decimal f ++ " (" ++
        ((r.inputs[f]?.map fun i ↦ i.prevout.outpoint).getD "") ++
        ") would be signed but the preview does not list it")
    | none => no Refuse.previewMismatch ("the preview disagrees with the bytes: " ++ d)
  | none =>
    if want.feeZat < 0 then no Refuse.previewMismatch "the outputs exceed the inputs"
    else if want.outflowZat > r.outflowCapZat then
      no Refuse.outflow ("the wallet would pay " ++ Text.decimalInt want.outflowZat.toInt ++
        " zat beyond its own outputs, above the cap " ++
        Text.decimalInt r.outflowCapZat.toInt ++ " zat")
    else return ()

/-! ## Signing -/

variable (L : Sapling.Lib)

/-- A proven Sapling part, if the request has one. -/
abbrev Part := Option (Hybrid × Bytes)

/-- The digest of one input: ZIP-243 under the request's branch, over the Sapling bundle too when
there is one. -/
def digestOf (part : Part) (tx : Transaction) (i : Nat) (scriptCode script : Bytes)
    (amount : Int64) (branchId : UInt32) : M (Arr 32) :=
  match part with
  | some (h, bundle) =>
    Proc.lift ((L.digest h bundle i scriptCode script amount sighashAll).mapError
      fun e ↦ .refused e.1 e.2)
  | none => orRefuse Refuse.failed id
      ((tx.sighash C i scriptCode amount sighashAll branchId).mapError TxError.text)

/-- An ECDSA signature with its hash type. -/
def ecdsaSig (digest : Arr 32) (sk : SecretKey) : Bytes :=
  C.serializeDer (C.ecdsaSign digest sk) ++ [UInt8.ofNat sighashAll.toNat]

/-- A post-quantum signature with its hash type, input `i` drawing its own entropy. -/
def pqSig (k : PqKey) (i : Nat) (digest : Arr 32) : M Bytes := do
  let s ← Proc.get
  match k.sign C (s.env.entropy i) digest with
  | some sig => return sig ++ [UInt8.ofNat sighashAll.toNat]
  | none => Proc.throw .panic

/-- `owner_script_sig`. -/
def ownerScriptSigOf (script : Bytes) (selector : UInt8) (sig pk : Bytes) :
    Except PqError Bytes :=
  if (parseVault script).isSome then
    if selector = selOwner then vaultOwnerScriptSig sig pk else vaultOwnerReleasedScriptSig sig pk
  else intentOwnerReleasedScriptSig sig pk

/-- The digest and the scriptSig of one input. -/
def signInput (r : SignRequest) (part : Part) (tx : Transaction) (i : Nat) (inp : SignInput)
    (script : Bytes) (d : Derived) : M (Arr 32 × Bytes) := do
  let digest (scriptCode : Bytes) :=
    digestOf C L part tx i scriptCode script inp.prevout.amountZat r.branchId
  match inp.key, d with
  | .bip32 .., .t sk pk =>
    let h ← digest script
    return (h, p2pkhScriptSig (ecdsaSig C h sk) pk)
  | .pq .., .pq k =>
    let h ← digest script
    let sig ← pqSig C k i h
    let ss ← orRefuse Refuse.failed id ((pqpkhScriptSig sig k.pk).mapError PqError.text)
    return (h, ss)
  | .carrier .., .t sk pk =>
    let bundle ← orRefuse Refuse.malformed ("carrier bundle: " ++ ·)
      (Hex.decodeOr (inp.carrierBundle.getD ""))
    let redeem ← orRefuse Refuse.failed id (carrierRedeem C pk bundle)
    let h ← digest redeem
    let ss ← orRefuse Refuse.failed id
      ((carrierScriptSig bundle (ecdsaSig C h sk) redeem).mapError ScriptError.text)
    return (h, ss)
  | .bond _ _ locktime, .t sk pk =>
    let redeem := bondRedeemScript locktime pk
    let h ← digest redeem
    return (h, pushData (ecdsaSig C h sk) ++ pushData redeem)
  | .pqOwner _ _ selector, .pq k =>
    let h ← digest script
    let sig ← pqSig C k i h
    let ss ← orRefuse Refuse.failed id
      ((ownerScriptSigOf script selector sig k.pk).mapError PqError.text)
    return (h, ss)
  | _, _ => no Refuse.failed "key kind and derivation disagree"

/-- A transaction with one scriptSig replaced. -/
def setScriptSig (tx : Transaction) (i : Nat) (ss : Bytes) : Transaction :=
  { tx with vin := tx.vin.modify i fun v ↦ { v with scriptSig := ss } }

/-- The signing loop, input by input, over the transaction as signed so far. -/
def signInputs (r : SignRequest) (part : Part) :
    List (Nat × SignInput × Bytes × Option Derived) → Transaction →
      M (Transaction × List (Option String))
  | [], tx => return (tx, [])
  | (_, _, _, none) :: xs, tx => do
    let (tx, hs) ← signInputs r part xs tx
    return (tx, none :: hs)
  | (i, inp, script, some d) :: xs, tx => do
    let (h, ss) ← signInput C L r part tx i inp script d
    let (tx, hs) ← signInputs r part xs (setScriptSig tx i ss)
    return (tx, some (Hex.encode h.toList) :: hs)

/-- The finished bytes. -/
def finishTx (part : Part) (tx : Transaction) : M Bytes := do
  match part with
  | some (h, bundle) =>
    let raw ← orRefuse Refuse.failed id (tx.serialize.mapError TxError.text)
    let s ← Proc.get
    orRefuse Refuse.failed id (L.finish h bundle (s.env.entropy 1) raw)
  | none => orRefuse Refuse.failed id (tx.serialize.mapError TxError.text)

/-- The transaction of a request, refused when it has shielded parts. -/
def parseRequestTx (text : String) : M Transaction := do
  let raw ← orRefuse Refuse.malformed ("tx: " ++ ·) (Hex.decodeOr text)
  let (tx, _) ← orRefuse Refuse.malformed ("tx: " ++ ·)
    ((Transaction.parse C raw).mapError TxError.text)
  return tx

/-- The Sapling part of a request, prepared. -/
def preparePart (r : SignRequest) (tx : Transaction) : M Part :=
  match r.sapling with
  | none => return none
  | some part => do
    let h ← saplingPrepare L part tx r.branchId
    return some h

/-- `sign`, once the bytes are parsed. -/
def signTx (r : SignRequest) (tx : Transaction) : M Signed := do
  if tx.shielded.any then
    no Refuse.malformed "a transaction with shielded parts is not signed from bytes (the signer builds Sapling spends itself)"
  else
    let scripts ← bindInputs tx (r.inputs.map SignInput.prevout)
    let checked ← Proc.forEach (checkInput C r.gatePath) (indexed 0 (r.inputs.zip scripts))
    let ds := checked.map Prod.snd
    let signed := signedIndices ds
    let _ ← pathAllows r tx (checked.filter Prod.fst).length
    let own ← Proc.forEach (checkOwn C tx) r.ownOutputs
    let c ← core
    let _ ← checkPreview r (wantedPreview C c.network r tx signed own) signed
    let part ← preparePart L r tx
    let (tx, sighashes) ← signInputs C L r part
      (indexed 0 (r.inputs.zip (scripts.zip ds))) tx
    let out ← finishTx L part tx
    return ⟨Hex.encode out, sighashes⟩

/-- `sign`. -/
def sign (r : SignRequest) : M Signed := do
  let tx ← parseRequestTx C r.tx
  signTx C L r tx

end

/-! ## What signing leaves alone

Every step is quiet, so that a signed answer leaves the signer as it was. -/

section

variable (C : Crypto) (L : Sapling.Lib)

theorem quiet_bindInput (x : Nat × TxIn × Prevout) : Quiet (bindInput x) :=
  (quiet_outPointOr _ _ _).bind fun _ ↦ .ite (quiet_no _ _) <| .ite (quiet_no _ _) <|
    (quiet_orRefuse _ _ _).bind fun _ ↦ .ite (quiet_no _ _) (.pure _)

theorem quiet_bindInputs (tx : Transaction) (prevouts : List Prevout) :
    Quiet (bindInputs tx prevouts) :=
  .ite (quiet_no _ _) (.forEach quiet_bindInput _)

theorem quiet_pathAllowsKey (path : GatePath) (i : Nat) (k : KeyRef) :
    Quiet (pathAllowsKey path i k) := by
  cases k with
  | pqOwner => exact .ite (quiet_no _ _) (.ite (quiet_no _ _) (.pure _))
  | none | bip32 | pq | carrier | bond => exact .pure _

theorem quiet_checkOwner (i : Nat) (inp : SignInput) (script : Bytes) (d : Option Derived) :
    Quiet (checkOwner C i inp script d) := by
  cases d with
  | none => exact .pure _
  | some d => exact quiet_orRefuse _ _ _

theorem quiet_checkInput (path : GatePath) (x : Nat × SignInput × Bytes) :
    Quiet (checkInput C path x) :=
  (quiet_derive C _).bind fun _ ↦ (quiet_checkOwner C _ _ _ _).bind fun _ ↦
    (quiet_pathAllowsKey _ _ _).bind fun _ ↦ .ite (quiet_no _ _) (.pure _)

theorem quiet_pathAllows (r : SignRequest) (tx : Transaction) (templates : Nat) :
    Quiet (pathAllows r tx templates) := by
  unfold pathAllows
  split
  · exact .ite (quiet_no _ _) (.pure _)
  · split
    · exact .pure _
    · exact quiet_no _ _
  · exact .ite (quiet_no _ _) (.pure _)
  · exact .pure _
  · exact .pure _

theorem quiet_checkOwn (tx : Transaction) (o : OwnOutput) : Quiet (checkOwn C tx o) :=
  (quiet_orElse _ _ _).bind fun _ ↦ (quiet_derive C _).bind fun _ ↦
    .ite (.pure _) (quiet_no _ _)

theorem quiet_checkPreview (r : SignRequest) (want : Preview) (signed : List Nat) :
    Quiet (checkPreview r want signed) := by
  unfold checkPreview
  split
  · split
    · exact quiet_no _ _
    · exact quiet_no _ _
  · exact .ite (quiet_no _ _) (.ite (quiet_no _ _) (.pure _))

theorem quiet_digestOf (part : Part) (tx : Transaction) (i : Nat) (scriptCode script : Bytes)
    (amount : Int64) (branchId : UInt32) :
    Quiet (digestOf C L part tx i scriptCode script amount branchId) := by
  cases part with
  | none => exact quiet_orRefuse _ _ _
  | some h => exact .lift _

theorem quiet_pqSig (k : PqKey) (i : Nat) (digest : Arr 32) : Quiet (pqSig C k i digest) := by
  refine Proc.Quiet.get.bind fun s ↦ ?_
  split
  · exact .pure _
  · exact .throw _

theorem quiet_signInput (r : SignRequest) (part : Part) (tx : Transaction) (i : Nat)
    (inp : SignInput) (script : Bytes) (d : Derived) :
    Quiet (signInput C L r part tx i inp script d) := by
  unfold signInput
  split
  · exact (quiet_digestOf C L ..).bind fun _ ↦ .pure _
  · exact (quiet_digestOf C L ..).bind fun _ ↦ (quiet_pqSig C ..).bind fun _ ↦
      (quiet_orRefuse _ _ _).bind fun _ ↦ .pure _
  · exact (quiet_orRefuse _ _ _).bind fun _ ↦ (quiet_orRefuse _ _ _).bind fun _ ↦
      (quiet_digestOf C L ..).bind fun _ ↦ (quiet_orRefuse _ _ _).bind fun _ ↦ .pure _
  · exact (quiet_digestOf C L ..).bind fun _ ↦ .pure _
  · exact (quiet_digestOf C L ..).bind fun _ ↦ (quiet_pqSig C ..).bind fun _ ↦
      (quiet_orRefuse _ _ _).bind fun _ ↦ .pure _
  · exact quiet_no _ _

theorem quiet_signInputs (r : SignRequest) (part : Part)
    (xs : List (Nat × SignInput × Bytes × Option Derived)) (tx : Transaction) :
    Quiet (signInputs C L r part xs tx) := by
  induction xs generalizing tx with
  | nil => exact .pure _
  | cons x xs ih =>
    obtain ⟨i, inp, script, d⟩ := x
    cases d with
    | none => exact (ih tx).bind fun _ ↦ .pure _
    | some d => exact (quiet_signInput C L ..).bind fun _ ↦ (ih _).bind fun _ ↦ .pure _

theorem quiet_finishTx (part : Part) (tx : Transaction) : Quiet (finishTx L part tx) := by
  cases part with
  | none => exact quiet_orRefuse _ _ _
  | some h => exact (quiet_orRefuse _ _ _).bind fun _ ↦ Proc.Quiet.get.bind fun _ ↦
      quiet_orRefuse _ _ _

theorem quiet_parseRequestTx (text : String) : Quiet (parseRequestTx C text) :=
  (quiet_orRefuse _ _ _).bind fun _ ↦ (quiet_orRefuse _ _ _).bind fun _ ↦ .pure _

theorem quiet_preparePart (r : SignRequest) (tx : Transaction) : Quiet (preparePart L r tx) := by
  unfold preparePart
  split
  · exact .pure _
  · exact (quiet_saplingPrepare L ..).bind fun _ ↦ .pure _

theorem quiet_signTx (r : SignRequest) (tx : Transaction) : Quiet (signTx C L r tx) :=
  .ite (quiet_no _ _) <| (quiet_bindInputs ..).bind fun _ ↦
    Proc.Quiet.bind (.forEach (quiet_checkInput C _) _) fun _ ↦
      (quiet_pathAllows ..).bind fun _ ↦
        Proc.Quiet.bind (.forEach (quiet_checkOwn C _) _) fun _ ↦
          quiet_core.bind fun _ ↦ (quiet_checkPreview ..).bind fun _ ↦
            (quiet_preparePart L ..).bind fun _ ↦ (quiet_signInputs C L ..).bind fun _ ↦
              (quiet_finishTx L ..).bind fun _ ↦ .pure _

theorem quiet_sign (r : SignRequest) : Quiet (sign C L r) :=
  (quiet_parseRequestTx C _).bind fun _ ↦ quiet_signTx C L ..

/-- The bytes a text encodes are parsed as they are. -/
theorem parseRequestTx_encode {raw : Bytes} {tx : Transaction}
    (h : Transaction.parseAt 64 raw = .ok tx) (s : St) :
    parseRequestTx C (Hex.encode raw) s = (.ok tx, s) := by
  have hdec : Hex.decodeOr (Hex.encode raw) = .ok raw := Hex.decodeOr_eq_ok.mpr (by simp)
  have hparse : Transaction.parse C raw = .ok (tx, C.sha256d raw) := by
    rw [Transaction.parse, h]
    rfl
  simp [parseRequestTx, Proc.bind_apply, orRefuse, hdec, hparse, Except.mapError]

end

end Yew.Signer
