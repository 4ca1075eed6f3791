import Yew.Build.Wallet
import Yew.Core.VaultCodec
import Yew.Store.Rows

/-!
# The second step of a mint

Over a confirmed carrier: the vault, the token and the payload, an output for the protocol fee and
one for the attestors' when somebody is to be paid, and coins for all of it.  The carrier is the
last input and brings its own value; the rest is funded as every Yellowback transaction is.

The server's answers and the time of asking are arguments: nothing is assumed of them.

## Source

* `core/src/build/mint.rs`: `mint_network_fee`, `vault_terms_now`, `window_open`, `carrier_of`,
  `sign_carrier_input`, `mint_token_script`, `mint_outputs`
* `core/src/build/terms.rs`: `VaultTerms`, `mint_vault_params`, `mint_vault_script`,
  `build_or_refuse`, `vault_terms`
-/

namespace Yew.Build

open Script Tx Pq Keys Coins Yellowback Vault Store

/-! ## The vault -/

/-- `VaultTerms`. -/
structure VaultTerms where
  attestorSetId : SetId
  claimDelay : Int
  grace : UInt32
deriving DecidableEq

/-- `build_or_refuse`. -/
def buildOrRefuse (p : VaultParams) : Except WalletError Bytes :=
  match buildVault p with
  | some s => .ok s
  | none => .error (.mint (.inconsistent ("the vault of ownerHeight " ++
      Text.decimalInt p.ownerHeight ++ " / appHeight " ++ Text.decimalInt p.appHeight ++
      " is outside the template's ranges")))

namespace VaultTerms

/-- `mint_vault_params`. -/
def mintVaultParams (vt : VaultTerms) (owner : PqKeyId) (refHeight : UInt32) : VaultParams :=
  yedMintVaultParams vt.attestorSetId vt.claimDelay owner refHeight

/-- `mint_vault_script`. -/
def mintVaultScript (vt : VaultTerms) (owner : PqKeyId) (refHeight : UInt32) :
    Except WalletError Bytes :=
  buildOrRefuse (vt.mintVaultParams owner refHeight)

end VaultTerms

/-! ## The carrier -/

/-- `TX_EXPIRING_SOON_THRESHOLD`. -/
def txExpiringSoonThreshold : Nat := 3

/-- `window_open`: the second step can still enter the mempool. -/
def windowOpen (tip : Nat) (expiryHeight : UInt32) : Bool :=
  tip + 1 + txExpiringSoonThreshold ≤ expiryHeight.toNat

section Build

variable (C : Crypto) (w : Wallet)

/-- `carrier_of`: the redeem script of the carrier and its key. -/
def carrierOf (m : MintRow) : Except WalletError (Bytes × SecretKey) := do
  match ← w.keyForHash m.carrierHash160 with
  | none => .error (.other "carrier key missing")
  | some key =>
    let redeem ← (carrierScript C (C.publicKey key) (C.sha256 m.bundle)).mapError (.mint ∘ .script)
    return (redeem, key)

/-- `sign_carrier_input`. -/
def signCarrierInput (tx : Transaction) (index : Nat) (key : SecretKey) (redeem bundle : Bytes)
    (branchId : UInt32) : Except WalletError Transaction := do
  let digest ← (tx.sighash C index redeem carrierValue sighashAll branchId).mapError .tx
  let sig := C.serializeDer (C.ecdsaSign digest key) ++ [0x01]
  let scriptSig ← (carrierScriptSig bundle sig redeem).mapError (.mint ∘ .script)
  return { tx with vin := tx.vin.modify index fun t ↦ { t with scriptSig := scriptSig } }

/-- The coin that a carrier is. -/
def carrierUtxo (m : MintRow) (redeem : Bytes) : Utxo :=
  ⟨m.carrier, "", p2shOf C redeem, carrierZat, 0, .carrier, 0⟩

/-! ## Outputs -/

/-- `mint_token_script`: who holds the minted YED. -/
def mintTokenScript (m : MintRow) : Except WalletError Bytes :=
  if !w.pqTerms.falconAt (m.refHeight.toNat + 1) then .ok (p2pkhScript m.ownerHash160)
  else do
    let rows ← w.addresses
    match rows.find? fun r ↦ r.hash160 = m.ownerHash160 with
    | none => .error (.other "the mint's holder key is not in this wallet")
    | some row => Wallet.yedHolderScript row true

/-- The output that pays the protocol fee, by index. -/
def mintFeeVout (m : MintRow) : UInt8 := if m.payee.isEmpty then feeVoutNone else 3

/-- The output that pays the attestors, by index. -/
def mintAttestFeeVout (m : MintRow) : UInt8 :=
  if m.attestPayee.isEmpty then feeVoutNone else if m.payee.isEmpty then 3 else 4

/-- The term class in a payload. -/
def termClassByte (termClass : String) : Except WalletError UInt8 :=
  if termClass = "A" then .ok 0
  else if termClass = "B" then .ok 1
  else if termClass = "C" then .ok 2
  else .error (.mint (.relay ("term class " ++ termClass)))

/-- The payload of a mint. -/
def mintPayload (m : MintRow) (owner : PqKeyId) (termClass : UInt8) : Payload :=
  .mint termClass (UInt32.ofNat m.cents) m.lockHeight m.refHeight owner (mintFeeVout m)
    (mintAttestFeeVout m)

/-- The output of a fee, if it has a payee. -/
def payeeOut (payee : String) (value : Int) : Except WalletError (List Out) :=
  if payee.isEmpty then .ok []
  else do
    let script ← p2pkhOfAddress C w.network payee
    return [⟨value, script⟩]

/-- `mint_outputs`. -/
def mintOutputs (m : MintRow) (owner : PqKeyId) (vt : VaultTerms) :
    Except WalletError (List Out) :=
  if m.claimHeight ≠ m.lockHeight + vt.grace then
    .error (.mint (.inconsistent ("claimHeight " ++ Text.decimal m.claimHeight.toNat ++
      " is not lockHeight " ++ Text.decimal m.lockHeight.toNat ++ " + GRACE " ++
      Text.decimal vt.grace.toNat)))
  else do
    let vault ← vt.mintVaultScript owner m.refHeight
    let termClass ← termClassByte m.termClass
    match encode (mintPayload m owner termClass) with
    | none => .error (.other "cannot encode the mint payload")
    | some payload =>
      let token ← mintTokenScript w m
      let fee ← payeeOut C w m.payee m.feeZat
      let attest ← payeeOut C w m.attestPayee m.attestFeeZat
      return [⟨m.collateralZat, vault⟩, ⟨tokenZat, token⟩, ⟨0, payloadScript payload⟩] ++ fee ++
        attest

/-! ## The transaction -/

/-- `mint_network_fee`. -/
def mintNetworkFee (funding : List Utxo) : Int := w.pqTerms.networkFee funding

/-- The second step of a mint, ready to send. -/
structure MintMain where
  raw : Bytes
  txid : Arr 32
  inputs : List Utxo
  change : Int
  changeRow : Option AddressRow
  locked : List Utxo

/-- The change output, to a fresh key. -/
def mintChange (change : Int) : Except WalletError (List Out × Option AddressRow) :=
  if change > 0 then do
    let row ← w.changeAddress
    return ([⟨change, p2pkhScript row.hash160⟩], some row)
  else .ok ([], none)

/-- The owner recorded, if it is the one paired with the recorded key. -/
def mintOwner (m : MintRow) : Except WalletError PqKeyId :=
  match m.owner with
  | none => .error (.other "owner key missing")
  | some o =>
    if w.pqOwnerForHash m.ownerHash160 = some o then .ok o
    else .error (.other "owner key missing")

/-- The transaction unsigned: the funding inputs, the carrier, the outputs and the change. -/
def mintTx (m : MintRow) (inputs : List Utxo) (outs : List Out) : Transaction :=
  newV4 ((inputs.map Utxo.outpoint ++ [m.carrier]).map newTxIn) outs 0 m.expiryHeight

/-- From the coins on: change, signatures and the gate.  `validate` is the node's verdict. -/
def completeMint (m : MintRow) (outs : List Out) (redeem : Bytes) (key : SecretKey)
    (validate : Bytes → Except WalletError Unit) (branchId : UInt32) (fee : Int)
    (inputs : List Utxo) : Except WalletError MintMain := do
  let change := keepChange (zats inputs - (paid outs + fee - carrierZat))
  let (changeOut, changeRow) ← mintChange w change
  let tx := mintTx m inputs (outs ++ changeOut)
  let tx ← w.signP2pkhInputs branchId tx 0 inputs
  let tx ← signCarrierInput C tx inputs.length key redeem m.bundle branchId
  let raw ← tx.serialize.mapError .tx
  let _ ← (Gate.check .mint w.classOf C raw).mapError .gate
  validate raw
  return { raw, txid := C.sha256d raw, inputs, change, changeRow,
           locked := inputs ++ [carrierUtxo C m redeem] }

/-- `finish` of a mint whose carrier is confirmed, up to the send.  `vt` is what `vault_terms_now`
answers.  No outcome would be a loop that does not end. -/
def finishMint (m : MintRow) (vt : Except WalletError VaultTerms)
    (validate : Bytes → Except WalletError Unit) (branchId : UInt32) :
    Option (Except WalletError MintMain) :=
  match (do
    let owner ← mintOwner w m
    let (redeem, key) ← carrierOf C w m
    let vt ← vt
    let outs ← mintOutputs C w m owner vt
    return (outs, redeem, key) : Except WalletError (List Out × Bytes × SecretKey)) with
  | .error e => some (.error e)
  | .ok (outs, redeem, key) =>
    match fund w.spendable (paid outs - carrierZat) (mintNetworkFee w) with
    | none => none
    | some (.error e) => some (.error (.coins e))
    | some (.ok (fee, inputs)) =>
      some (completeMint C w m outs redeem key validate branchId fee inputs)

end Build

end Yew.Build
