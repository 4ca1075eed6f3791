import Yew.Build.Mint
import Yew.Build.Redeem

/-!
# A claim

The vault's value leaves only into intents: one for the claimant and one for the owner's residual.
Everything else (fees, the token that carries YED change, the network) is paid by the carrier, the
YED inputs and the claimant's own coins, and what they bring in excess goes back if it is worth an
output.

The second step funds a plan, checks it against the bounds the user confirmed, signs it, prices the
coins it took, and starts over with that fee when it is higher.  The bounds are checked against a
take that subtracts the flat fee.

The first step, which funds the carrier, is `claimSetup` and the funding every builder shares.  Ours
is only the cut of the second step into a plan, its check and its signing.

## Source

* `core/src/build/claim.rs`: `refund_holder_first`, `start`, `ClaimShape`, `ClaimPlan`,
  `claim_network_fee`, `claim_funding_needed`, `plan_claim`, `finish`
* `core/src/build/terms.rs`: `YedV`, `ClaimBounds`, `claimant_take`, `check_claim_bounds`
-/

namespace Yew.Build

open Script Tx Pq Coins Yellowback Vault Store

/-- `ClaimShape`. -/
structure ClaimShape where
  vaultOut : OutPoint
  vault : VaultParams
  vaultScript : Bytes
  vaultValue : Int
  refHeight : UInt32
  yedInputs : List Utxo
  changeCents : Nat
  changeScript : Bytes
  payeeScript : Option Bytes
  feeZat : Int
  attestScript : Option Bytes
  attestFeeZat : Int
  residualZat : Int
  ownerScript : Bytes
  claimantScript : Bytes
  funding : List Utxo
  fundingChangeScript : Bytes
  carrier : OutPoint
  networkFee : Int
deriving DecidableEq

/-- `ClaimPlan`. -/
structure ClaimPlan where
  lockTime : UInt32
  vin : List TxIn
  vout : List Out
  claimantValue : Int
  claimantIntent : Bytes
  residualIntent : Bytes
  burnCents : Int
  feeVout : Option Nat
  changeVout : Option Nat
  attestFeeVout : Option Nat
  residualVout : Option Nat
  fundingChangeVout : Option Nat
  fundingChange : Int
  payload : Bytes
deriving DecidableEq

namespace ClaimShape

/-- What the carrier, the YED and the fee inputs bring beyond what they pay for. -/
def spare (s : ClaimShape) : Int :=
  carrierZat + zats s.yedInputs + zats s.funding - s.networkFee -
    (if s.payeeScript.isSome then s.feeZat else 0) -
    (if s.attestScript.isSome then s.attestFeeZat else 0) -
    (if 0 < s.changeCents then tokenZat else 0)

/-- What of the spare goes back. -/
def fundingChange (s : ClaimShape) : Int :=
  let change := if minChange ≤ s.spare ∧ !s.fundingChangeScript.isEmpty then s.spare else 0
  -- never an output that looks like a token
  if change = tokenZat then change - 1 else change

/-- The claimant intent's value. -/
def claimantValue (s : ClaimShape) : Int :=
  s.vaultValue - if 0 < s.residualZat then s.residualZat else 0

/-- The outputs that the claim has. -/
def slots (s : ClaimShape) : Slots where
  fee := s.payeeScript.isSome
  change := 0 < s.changeCents
  attest := s.attestScript.isSome
  residual := 0 < s.residualZat
  fundChange := 0 < s.fundingChange

/-- The output of a slot. -/
def out (s : ClaimShape) (claimantIntent residualIntent payload : Bytes) : Slot → Out
  | .main => ⟨s.claimantValue, claimantIntent⟩
  | .fee => ⟨s.feeZat, s.payeeScript.getD []⟩
  | .change => ⟨tokenZat, s.changeScript⟩
  | .attest => ⟨s.attestFeeZat, s.attestScript.getD []⟩
  | .residual => ⟨s.residualZat, residualIntent⟩
  | .payload => ⟨0, payloadScript payload⟩
  | .fundChange => ⟨s.fundingChange, s.fundingChangeScript⟩

/-- The inputs: the vault, the YED, the coins for the fees, the carrier. -/
def vin (s : ClaimShape) : List TxIn :=
  ⟨s.vaultOut, vaultAppScriptSig, sequenceLocktime⟩ ::
    ((s.yedInputs ++ s.funding).map Utxo.outpoint ++ [s.carrier]).map newTxIn

end ClaimShape

section Plan

variable (C : Crypto)

/-- The intent of the owner's residual, if one is due. -/
def residualIntentOf (s : ClaimShape) : Option Bytes :=
  if 0 < s.residualZat then buildIntent (intentFor C s.vault s.vaultScript s.ownerScript)
  else some []

/-- `plan_claim`. -/
def planClaim (s : ClaimShape) : Except WalletError ClaimPlan :=
  if buildVault s.vault ≠ some s.vaultScript then
    .error (.other "vault-not-found: the vault script does not match its parameters")
  else if s.vault.appHeight ≤ 0 then
    .error (.other "vault-not-found: the vault has no APP branch (S-4)")
  else if s.claimantValue ≤ 0 then
    .error (.other "vault-value-too-small: the residual takes the whole vault")
  else if s.spare < 0 then
    .error (.other ("insufficient-yec: the claim's fees need " ++ Text.decimalInt (-s.spare) ++
      " zat more"))
  else
    let k := s.slots
    match buildIntent (intentFor C s.vault s.vaultScript s.claimantScript) with
    | none => .error (.other "cannot build the claimant intent")
    | some claimantIntent =>
      match residualIntentOf C s with
      | none => .error (.other "cannot build the residual intent")
      | some residualIntent =>
        match encode (k.redeemPayload s.refHeight s.changeCents) with
        | none => .error (.other "cannot encode the redeem payload")
        | some payload =>
          .ok { lockTime := UInt32.ofNat s.vault.appHeight.toNat, vin := s.vin,
                vout := k.order.map (s.out claimantIntent residualIntent payload),
                claimantValue := s.claimantValue, claimantIntent, residualIntent,
                burnCents := cents s.yedInputs - s.changeCents, feeVout := k.indexOf .fee,
                changeVout := k.indexOf .change, attestFeeVout := k.indexOf .attest,
                residualVout := k.indexOf .residual,
                fundingChangeVout := k.indexOf .fundChange, fundingChange := s.fundingChange,
                payload }

end Plan

/-! ## Bounds -/

/-- `ClaimBounds`. -/
structure ClaimBounds where
  maxBurnCents : Nat
  minOutZat : Int
deriving DecidableEq

/-- `claimant_take`. -/
def claimantTake (collateralZat feeZat_ attestFeeZat residualZat : Int) : Int :=
  collateralZat - feeZat_ - attestFeeZat - residualZat - feeZat

/-- `check_claim_bounds`. -/
def checkClaimBounds (b : ClaimBounds) (burnCents : Nat) (takeZat : Int) :
    Except WalletError Unit :=
  if burnCents > b.maxBurnCents then
    .error (.mint (.boundExceeded "claim-burn-above-max" ("the claim would burn " ++
      Text.decimal burnCents ++ " cents of YED, above the " ++ Text.decimal b.maxBurnCents ++
      " you confirmed")))
  else if takeZat < b.minOutZat then
    .error (.mint (.boundExceeded "claim-out-below-min" ("the claim would pay you " ++
      Text.decimalInt takeZat ++ " zat, below the " ++ Text.decimalInt b.minOutZat ++
      " you confirmed")))
  else .ok ()

/-! ## The second step -/

/-- `claim_network_fee`. -/
def claimNetworkFee (t : PqTerms) (yedInputs funding : List Utxo) : Int :=
  t.networkFee (yedInputs ++ funding)

/-- `claim_funding_needed`. -/
def claimFundingNeeded (feeZat_ attestFeeZat : Int) (change : Bool) (yedValue : Int) : Int :=
  feeZat + feeZat_ + attestFeeZat + (if change then tokenZat else 0) - carrierZat - yedValue

/-- `refund_holder_first`: the tokens of post-quantum holders first, otherwise in order. -/
def refundHolderFirst (us : List Utxo) : List Utxo :=
  us.filter (fun u ↦ (pqpkhOf u.script).isSome) ++ us.filter fun u ↦ (pqpkhOf u.script).isNone

/-- `YedV`: a vault as this wallet rebuilds it. -/
structure YedV where
  params : VaultParams
  script : Bytes
deriving DecidableEq

/-- What the second step of a claim fixes before it looks for coins. -/
structure ClaimSetup where
  owner : PqKeyId
  vault : YedV
  redeem : Bytes
  key : SecretKey
  yedInputs : List Utxo
  changeCents : Nat
  extraBurn : Nat
  dest : AddressRow
  changeRow : Option AddressRow
  changeScript : Bytes
  fundChangeRow : AddressRow

/-- The second step of a claim, ready to send. -/
structure ClaimMain where
  raw : Bytes
  txid : Arr 32
  plan : ClaimPlan
  yedInputs : List Utxo
  funding : List Utxo
  extraBurn : Nat
  changeRow : Option AddressRow

/-- What one turn of the loop makes. -/
structure ClaimTurn where
  plan : ClaimPlan
  tx : Transaction
  funding : List Utxo

section Finish

variable (C : Crypto) (w : Wallet) (m : MintRow)

/-- The fee that is paid to a payee. -/
def feeTo (payee : String) (value : Int) : Int := if payee.isEmpty then 0 else value

/-- The script of a payee, if there is one. -/
def payeeScript (payee : String) : Except WalletError (Option Bytes) :=
  if payee.isEmpty then .ok none
  else do
    let script ← p2pkhOfAddress C w.network payee
    return some script

/-- The row for the YED change and its script. -/
def claimChange (falcon : Bool) (changeCents : Nat) :
    Except WalletError (Option AddressRow × Bytes) :=
  if changeCents > 0 then do
    let row ← w.freshExternal 1
    let script ← Wallet.yedHolderScript row falcon
    return (some row, script)
  else .ok (none, [])

/-- The owner recorded, if its scheme is known. -/
def claimOwner : Except WalletError PqKeyId :=
  match m.owner with
  | none => .error (.other "the claim row's vault owner is not post-quantum")
  | some o =>
    if o.isKnown then .ok o
    else .error (.other "the claim row's vault owner is not post-quantum")

/-- Up to the loop.  `readVault` is the vault the server reports, judged for an owner and terms. -/
def claimSetup (vt : Except WalletError VaultTerms)
    (readVault : PqKeyId → VaultTerms → Except WalletError YedV) :
    Except WalletError ClaimSetup := do
  let owner ← claimOwner m
  let vt ← vt
  let vault ← readVault owner vt
  if m.claimHeight ≠ m.lockHeight + vt.grace then
    .error (.mint (.inconsistent ("claimHeight " ++ Text.decimal m.claimHeight.toNat ++
      " is not lockHeight " ++ Text.decimal m.lockHeight.toNat ++ " + GRACE")))
  else do
    let (redeem, key) ← carrierOf C w m
    let (yed, changeCents, extraBurn, _) ← selectYedBurn w m.cents
    let dest ← w.freshExternal 0
    let (changeRow, changeScript) ←
      claimChange w (w.pqTerms.falconAt (m.refHeight.toNat + 1)) changeCents
    let fundChangeRow ← w.changeAddress
    return { owner, vault, redeem, key, yedInputs := refundHolderFirst yed, changeCents, extraBurn,
             dest, changeRow, changeScript, fundChangeRow }

/-- What the claimant's own coins must bring for a fee. -/
def claimNeeded (st : ClaimSetup) (fee : Int) : Int :=
  claimFundingNeeded (feeTo m.payee m.feeZat) (feeTo m.attestPayee m.attestFeeZat)
    (0 < st.changeCents) (zats st.yedInputs) + (fee - feeZat)

/-- The shape of the claim. -/
def claimShape (st : ClaimSetup) (funding : List Utxo) (fee : Int) :
    Except WalletError ClaimShape := do
  let payee ← payeeScript C w m.payee
  let attest ← payeeScript C w m.attestPayee
  match pqpkhScript st.owner with
  | none => .error (.other "the vault owner's scheme is not registered")
  | some ownerScript =>
    return { vaultOut := ⟨m.vaultTxid, 0⟩, vault := st.vault.params, vaultScript := st.vault.script,
             vaultValue := m.collateralZat, refHeight := m.refHeight, yedInputs := st.yedInputs,
             changeCents := st.changeCents, changeScript := st.changeScript, payeeScript := payee,
             feeZat := m.feeZat, attestScript := attest, attestFeeZat := m.attestFeeZat,
             residualZat := m.residualZat, ownerScript,
             claimantScript := p2pkhScript st.dest.hash160, funding,
             fundingChangeScript := p2pkhScript st.fundChangeRow.hash160, carrier := m.carrier,
             networkFee := fee }

/-- The bounds recorded with the claim, if it was started with any, against the plan. -/
def checkBounds (bounds : Option ClaimBounds) (st : ClaimSetup) (plan : ClaimPlan) :
    Except WalletError Unit :=
  match bounds with
  | none => .ok ()
  | some b => checkClaimBounds b (plan.burnCents.toNat - st.extraBurn)
      (claimantTake m.collateralZat m.feeZat m.attestFeeZat m.residualZat)

/-- The plan signed. -/
def signClaim (st : ClaimSetup) (plan : ClaimPlan) (funding : List Utxo) (branchId : UInt32) :
    Except WalletError Transaction := do
  let tx := newV4 plan.vin plan.vout plan.lockTime m.expiryHeight
  let tx ← w.signP2pkhInputs branchId tx 1 st.yedInputs
  let tx ← w.signP2pkhInputs branchId tx (1 + st.yedInputs.length) funding
  signCarrierInput C tx (plan.vin.length - 1) st.key st.redeem m.bundle branchId

/-- One turn of the loop: what the coins would have to pay, and what was made. -/
def claimTurn (bounds : Option ClaimBounds) (st : ClaimSetup) (branchId : UInt32) (fee : Int) :
    Except WalletError (Int × ClaimTurn) := do
  let funding ← (selectYec w.spendable (claimNeeded m st fee) true).mapError .coins
  let shape ← claimShape C w m st funding fee
  let plan ← planClaim C shape
  let _ ← checkBounds m bounds st plan
  let tx ← signClaim C w m st plan funding branchId
  return (claimNetworkFee w.pqTerms st.yedInputs funding, ⟨plan, tx, funding⟩)

/-- From the loop on: sizes and the gate.  `validate` is the node's verdict on a planned burn. -/
def completeClaim (st : ClaimSetup) (validate : Bytes → Int → Except WalletError Unit)
    (t : ClaimTurn) : Except WalletError ClaimMain := do
  let _ ← (if st.yedInputs.any fun u ↦ (pqpkhOf u.script).isSome then
    t.tx.checkScriptSigSizes.mapError .tx else .ok () : Except WalletError Unit)
  let raw ← t.tx.serialize.mapError .tx
  let _ ← (Gate.check (.claim ⟨m.vaultTxid, 0⟩) w.classOf C raw).mapError .gate
  validate raw t.plan.burnCents
  return { raw, txid := C.sha256d raw, plan := t.plan, yedInputs := st.yedInputs,
           funding := t.funding, extraBurn := st.extraBurn, changeRow := st.changeRow }

/-- `finish` of a claim whose carrier is confirmed, up to the send. -/
def finishClaim (vt : Except WalletError VaultTerms)
    (readVault : PqKeyId → VaultTerms → Except WalletError YedV) (bounds : Option ClaimBounds)
    (validate : Bytes → Int → Except WalletError Unit) (branchId : UInt32) :
    Option (Except WalletError ClaimMain) :=
  match claimSetup C w m vt readVault with
  | .error e => some (.error e)
  | .ok st =>
    match climb (claimTurn C w m bounds st branchId) (w.spendable.length + 2)
        (claimNetworkFee w.pqTerms st.yedInputs []) with
    | none => none
    | some (.error e) => some (.error e)
    | some (.ok (_, t)) => some (completeClaim C w m st validate t)

end Finish

end Yew.Build
