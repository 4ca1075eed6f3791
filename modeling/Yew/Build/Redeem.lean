import Yew.Build.Slots
import Yew.Core.CoinExcess

/-!
# The plan of a vault spend by its owner

The vault and the YED that is burned go in; the collateral, less the fees, the residual and the
token that carries YED change, comes out.  A release of a void vault has no payload and one output.

The coins are given in the order the wallet lists them, and the vault as the server's record of it
after its check.

## Source

* `core/src/build/redeem.rs`: `VaultSpendShape`, `VaultSpendPlan`, `plan_vault_spend`,
  `select_yed_burn`, `build_redeem`
-/

namespace Yew.Build

open Script Tx Pq Coins CoinSelect Yellowback

/-- `VaultSpendShape`. -/
structure VaultSpendShape where
  vaultOut : OutPoint
  vaultValue : Int
  lockHeight : UInt32
  claimHeight : UInt32
  ownerHeight : UInt32
  appHeight : UInt32
  ownerPath : Bool
  withPayload : Bool
  refHeight : UInt32
  yedInputs : List Utxo
  changeCents : Nat
  changeScript : Bytes
  payeeScript : Option Bytes
  feeZat : Int
  attestScript : Option Bytes
  attestFeeZat : Int
  residualZat : Int
  ownerScript : Bytes
  carrierValue : Int
  collateralScript : Bytes
  networkFee : Int
deriving DecidableEq

/-- `VaultSpendPlan`. -/
structure VaultSpendPlan where
  lockTime : UInt32
  vin : List TxIn
  vout : List Out
  collateralOut : Int
  burnCents : Int
  feeVout : Option Nat
  changeVout : Option Nat
  attestFeeVout : Option Nat
  residualVout : Option Nat
  payload : Bytes
deriving DecidableEq

namespace VaultSpendShape

/-- The outputs that the spend has. -/
def slots (s : VaultSpendShape) : Slots where
  fee := s.withPayload && s.payeeScript.isSome
  change := s.withPayload && 0 < s.changeCents
  attest := s.withPayload && s.attestScript.isSome
  residual := s.withPayload && 0 < s.residualZat
  fundChange := false

/-- What is left of the vault for the owner. -/
def collateralOut (s : VaultSpendShape) : Int :=
  s.vaultValue + s.carrierValue + zats s.yedInputs - s.networkFee -
    (if s.slots.fee then s.feeZat else 0) - (if s.slots.attest then s.attestFeeZat else 0) -
    (if s.slots.residual then s.residualZat else 0) - (if s.slots.change then tokenZat else 0)

/-- The output of a slot; the spend does not have the last one. -/
def out (s : VaultSpendShape) (payload : Bytes) : Slot → Out
  | .main => ⟨s.collateralOut, s.collateralScript⟩
  | .fee => ⟨s.feeZat, s.payeeScript.getD []⟩
  | .change => ⟨tokenZat, s.changeScript⟩
  | .attest => ⟨s.attestFeeZat, s.attestScript.getD []⟩
  | .residual => ⟨s.residualZat, s.ownerScript⟩
  | .payload => ⟨0, payloadScript payload⟩
  | .fundChange => ⟨0, []⟩

/-- The inputs: the vault, then the YED. -/
def vin (s : VaultSpendShape) : List TxIn :=
  ⟨s.vaultOut, [], sequenceLocktime⟩ :: s.yedInputs.map fun u ↦ newTxIn u.outpoint

end VaultSpendShape

/-- `plan_vault_spend`. -/
def planVaultSpend (s : VaultSpendShape) : Except WalletError VaultSpendPlan :=
  let lockTime := if s.ownerPath then s.ownerHeight else s.appHeight
  let yedIn : Int := cents s.yedInputs
  if s.collateralOut ≤ 0 then
    .error (.other "vault-value-too-small: the vault does not cover the fees")
  else if !s.withPayload then
    .ok { lockTime, vin := s.vin, vout := [⟨s.collateralOut, s.collateralScript⟩],
          collateralOut := s.collateralOut, burnCents := yedIn, feeVout := none,
          changeVout := none, attestFeeVout := none, residualVout := none, payload := [] }
  else
    let k := s.slots
    match encode (k.redeemPayload s.refHeight s.changeCents) with
    | none => .error (.other "cannot encode the redeem payload")
    | some payload =>
      .ok { lockTime, vin := s.vin, vout := k.order.map (s.out payload),
            collateralOut := s.collateralOut, burnCents := yedIn - s.changeCents,
            feeVout := k.indexOf .fee, changeVout := k.indexOf .change,
            attestFeeVout := k.indexOf .attest, residualVout := k.indexOf .residual, payload }

/-! ## The YED that is burned -/

/-- `select_yed_burn`: the tokens, the change, and what is burned beyond what is needed. -/
def selectYedBurn (w : Wallet) (needed : Nat) :
    Except WalletError (List Utxo × Nat × Nat × SelectStage) :=
  let coins := rankedTokens w.spendable
  let amounts := coins.map fun c ↦ (c.cents : Int)
  let s := selectFloorAware amounts needed minOutputCents maxInputs true
  if !s.ok then
    if s.insufficient then .error (.transfer (.insufficientYed needed (cents coins)))
    else if s.tooManyInputs then .error (.transfer .tooManyInputs)
    else
      let alt := nearestWorkable amounts needed minOutputCents maxInputs
      .error (.transfer (.changeFloor needed alt.below alt.above))
  else .ok (s.inputs.filterMap (coins[·]?), s.change.toNat, s.extraBurn.toNat, s.stage)

end Yew.Build
