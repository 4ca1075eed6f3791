import Yew.Build.Wallet
import Yew.Core.CoinExcess

/-!
# A YED transfer

Tokens chosen by the floor-aware selector, one token output for every recipient and one for YED
change, the payload that assigns the cents, and YEC for the fee and the new outputs.

The selector's change is a 64-bit number and the assignment of an output a 32-bit one.  Everything
else about a transfer that was built is always in order; the cents are conserved exactly when the
change fits.

The recipients are checked by the caller's form, so their addresses and cents are arguments here.

## Source

* `core/src/build/yed_transfer.rs`: `YedTransferPreview`, `Assembled`, `assemble`, `select_yed`,
  `yed_holder_script`, `build_yed_transfer`
-/

namespace Yew.Build

open Script Tx Pq Keys Coins CoinSelect Yellowback Addresses

/-- `MAX_RECIPIENTS`. -/
def maxRecipients : Nat := maxAssignments - 1

/-- `YedTransferPreview`. -/
structure YedTransferPreview where
  recipients : List (String × Nat)
  yedInputs : List Utxo
  stage : SelectStage
  changeCents : Nat
  yecInputs : List Utxo
  fee : Int
  yecChange : Int
  changeAddress : Option String
  payload : Bytes
  expiryHeight : UInt32
  raw : Bytes
  txid : Arr 32

/-- `Assembled`. -/
structure Assembled where
  raw : Bytes
  txid : Arr 32
  yecInputs : List Utxo
  fee : Int
  yecChange : Int
  payload : Bytes
  expiryHeight : UInt32

/-- A token output to be made: its script and the cents assigned to it. -/
abbrev TokenOutput := Bytes × UInt32

/-- The assignments of some token outputs: each names its own index. -/
def assignmentsFor (outs : List TokenOutput) : List Assignment :=
  outs.mapIdx fun i o ↦ ⟨UInt8.ofNat i, o.2⟩

/-- The outputs of a transfer. -/
def transferOuts (tokens : List TokenOutput) (payload : Bytes) (yecChange : Int)
    (changeHash : Arr 20) : List Out :=
  tokens.map (fun o ↦ ⟨tokenZat, o.1⟩) ++ ⟨0, payloadScript payload⟩ ::
    if yecChange > 0 then [⟨yecChange, p2pkhScript changeHash⟩] else []

/-- `(tip as u32).saturating_add(TX_EXPIRY_DELTA)`. -/
def expiryAfter (tip : Nat) : UInt32 := UInt32.ofNat (min (tip % 2 ^ 32 + txExpiryDelta) (2 ^ 32 - 1))

section Build

variable (C : Crypto) (w : Wallet)

/-- The transaction of a transfer, unsigned. -/
def transferTx (yedInputs : List Utxo) (tokens : List TokenOutput) (changeHash : Arr 20)
    (tip : Nat) (payload : Bytes) (yecInputs : List Utxo) (yecChange : Int) : Transaction :=
  newV4 ((yedInputs ++ yecInputs).map fun u ↦ newTxIn u.outpoint)
    (transferOuts tokens payload yecChange changeHash) 0 (expiryAfter tip)

/-- Sign and serialize. -/
def finishTransfer (branchId : UInt32) (yedInputs yecInputs : List Utxo) (tx : Transaction)
    (fee yecChange : Int) (payload : Bytes) : Except WalletError Assembled := do
  let signed ← w.signP2pkhInputs branchId tx 0 yedInputs
  let signed ← w.signP2pkhInputs branchId signed yedInputs.length yecInputs
  let raw ← signed.serialize.mapError .tx
  return { raw, txid := C.sha256d raw, yecInputs, fee, yecChange, payload,
           expiryHeight := signed.expiryHeight }

/-- `assemble`.  No outcome would be a loop that does not end. -/
def assemble (yedInputs : List Utxo) (tokens : List TokenOutput) (changeHash : Arr 20)
    (tip : Nat) (branchId : UInt32) : Option (Except WalletError Assembled) :=
  match encode (.transfer (assignmentsFor tokens)) with
  | none => some (.error (.transfer .payload))
  | some payload =>
    if yedInputs.any fun u ↦ u.value ≠ tokenZat then some (.error (.transfer .nonStandardToken))
    else
      let tokenIn := yedInputs.length * tokenZat
      let tokenOut := tokens.length * tokenZat
      let pricedFor inputs := w.pqTerms.networkFee (yedInputs ++ inputs)
      match fund w.spendable (tokenOut - tokenIn) pricedFor with
      | none => none
      | some (.error e) => some (.error (.coins e))
      | some (.ok (baseFee, yecInputs)) =>
        let spare := zats yecInputs - (tokenOut + baseFee - tokenIn)
        let yecChange := keepChange spare
        let tx := transferTx yedInputs tokens changeHash tip payload yecInputs yecChange
        some (finishTransfer C w branchId yedInputs yecInputs tx
          (baseFee + (spare - yecChange)) yecChange payload)

/-- `select_yed`: the tokens, the stage that chose them and the change. -/
def selectYed (needed : Nat) : Except WalletError (List Utxo × SelectStage × Nat) :=
  let coins := rankedTokens w.spendable
  let amounts := coins.map fun c ↦ (c.cents : Int)
  let s := selectFloorAware amounts needed minOutputCents maxInputs false
  if !s.ok then
    if s.insufficient then .error (.transfer (.insufficientYed needed (cents coins)))
    else if s.tooManyInputs then .error (.transfer .tooManyInputs)
    else
      let alt := nearestWorkable amounts needed minOutputCents maxInputs
      .error (.transfer (.changeFloor needed alt.below alt.above))
  else .ok (s.inputs.filterMap (coins[·]?), s.stage, s.change.toNat)

/-- `yed_holder_script`: the token output of a recipient under the holder rule of the next block. -/
def yedHolderScript (network : Network) (dest : String) (falcon : Bool) :
    Except WalletError Bytes :=
  match parseYedDestination C network dest with
  | .error (.wrongNetwork n a) =>
    if (parseAddress C network dest).isOk then
      .error (.other ("not-a-yellowback-address: " ++ dest ++
        " is a script address; YED goes to a key"))
    else .error (.key (.wrongNetwork n a))
  | .error e => .error (.key e)
  | .ok (.p2pkh h) =>
    if falcon then .error (.transfer (.falconHolderRequired (dest ++ " is a P2PKH address")))
    else .ok (p2pkhScript h)
  | .ok (.pq id) =>
    if id.scheme = schemeFnDsa then
      if falcon then
        match pqpkhScript id with
        | some s => .ok s
        | none => .error (.key (.pqOwnerAddress dest))
      else .error (.other ("falcon-not-active: " ++ dest ++
        " is a Falcon address; it can receive YED only after Falcon activates"))
    else if falcon then
      .error (.transfer (.falconHolderRequired (dest ++ " is a vault-owner (SLH-DSA) address")))
    else .error (.key (.pqOwnerAddress dest))

/-- The token outputs of the recipients. -/
def recipientOutputs (falcon : Bool) : List (String × Nat) → Except WalletError (List TokenOutput)
  | [] => .ok []
  | (dest, cents) :: rest =>
    if cents < minOutputCents ∨ maxOutputCents < cents then .error (.transfer (.badAmount cents))
    else do
      let script ← yedHolderScript C w.network dest falcon
      let outs ← recipientOutputs falcon rest
      return (script, UInt32.ofNat cents) :: outs

/-- The token output for YED change, if there is any. -/
def changeOutput (row : AddressRow) (falcon : Bool) (changeCents : Nat) :
    Except WalletError (List TokenOutput) :=
  if changeCents > 0 then do
    let script ← Wallet.yedHolderScript row falcon
    return [(script, UInt32.ofNat changeCents)]
  else .ok []

/-- What a transfer pays: the tokens to spend and the token outputs to make. -/
structure TransferPlan where
  yedInputs : List Utxo
  stage : SelectStage
  changeCents : Nat
  changeRow : AddressRow
  tokens : List TokenOutput

/-- The choices of `build_yed_transfer` before it assembles. -/
def planTransfer (recipients : List (String × Nat)) (tip : Nat) :
    Except WalletError TransferPlan :=
  if recipients.isEmpty then .error (.transfer .noRecipients)
  else if recipients.length > maxRecipients then .error (.transfer .tooManyRecipients)
  else do
    let falcon := w.pqTerms.falconAt (tip + 1)
    let outs ← recipientOutputs C w falcon recipients
    let (yedInputs, stage, changeCents) ← selectYed w (recipients.map Prod.snd).sum
    let changeRow ← w.changeAddress
    let change ← changeOutput changeRow falcon changeCents
    return { yedInputs, stage, changeCents, changeRow, tokens := outs ++ change }

/-- The gate, and the preview. -/
def previewTransfer (recipients : List (String × Nat)) (p : TransferPlan) (a : Assembled) :
    Except WalletError YedTransferPreview := do
  let _ ← (Gate.check .yedTransfer w.classOf C a.raw).mapError .gate
  return { recipients, yedInputs := p.yedInputs, stage := p.stage, changeCents := p.changeCents,
           yecInputs := a.yecInputs, fee := a.fee, yecChange := a.yecChange,
           changeAddress := if p.changeCents > 0 ∨ a.yecChange > 0 then some p.changeRow.addressS
             else none,
           payload := a.payload, expiryHeight := a.expiryHeight, raw := a.raw, txid := a.txid }

/-- `build_yed_transfer`. -/
def buildYedTransfer (recipients : List (String × Nat)) (tip : Nat) (branchId : UInt32) :
    Option (Except WalletError YedTransferPreview) :=
  match planTransfer C w recipients tip with
  | .error e => some (.error e)
  | .ok p =>
    match assemble C w p.yedInputs p.tokens p.changeRow.hash160 tip branchId with
    | none => none
    | some (.error e) => some (.error e)
    | some (.ok a) => some (previewTransfer C w recipients p a)

end Build

end Yew.Build
