import Yew.Daemon.Purse

/-!
# Spending YEC

The daemon's other selectors of plain YEC: `send_yec` with trusted mempool change and post-quantum
coins, `z_sendmany` from transparent addresses or from notes, and the funding of a Yellowback
build.  Each is modelled up to the request it makes of the signer.

The amounts are integers here, as in `Yew.Daemon.Purse`.

## Source

* `yewd/wallet/src/send.rs`: `dust_threshold`, `pq_spend_fee`, `Wallet::spendable_yec`,
  `Wallet::send_yec`, `Wallet::sendtoaddress`, `Wallet::sendmany`
* `yewd/wallet/src/zsend.rs`: `Source`, `Wallet::run_sendmany`
* `yewd/wallet/src/build.rs`: `Wallet::sign_inputs`
* `yewd/wallet/src/yed.rs`: `pq_input_size`
-/

namespace Yew.Daemon

open Script Tx Pq Proto Proc Yellowback Build

variable (env : Env) (A : Answers)

/-! ## `send_yec` -/

/-- What `sign_inputs` is asked to sign: the inputs with their coins and keys, the outputs, and the
cap on what may leave the wallet. -/
structure SignAsk where
  inputs : List (Chosen × KeyRef)
  outs : List Out
  expiryHeight : UInt32
  path : GatePath
  cap : Int
  branch : UInt32

/-- `TX_EXPIRY_DELTA` of a wallet payment. -/
def paymentExpiryDelta : Nat := 20

/-- `DUST`. -/
def dustFloor : Int := 54

/-- `pq_input_size`. -/
def pqInputSize (scheme : UInt8) : Nat :=
  let ss := (pqSigPushesSize scheme).getD 0
  40 + (if ss > 252 then 3 else 1) + ss

/-- `dust_threshold`. -/
def dustThreshold (script : Bytes) : Int :=
  let out := 8 + (if script.length > 252 then 3 else 1) + script.length
  let input := match pqpkhOf script with
    | some id => pqInputSize id.scheme
    | none => 148
  3 * (100 * (out + input) / 1000 : Nat)

/-- The network fees `yed_getinfo` reports for plain transactions: the rate and the cap. -/
structure PlainFees where
  zatPerKb : Int
  maxTxFee : Int

/-- `pq_spend_fee`: the fee of a transaction with a post-quantum input. -/
def pqSpendFee (fees : PlainFees) (tx : Transaction) (sizes : List Nat) (conventional : Int) :
    Except RpcError Int :=
  match tx.serialize with
  | .error e => .error ⟨-32603, e.text⟩
  | .ok unsigned =>
    let bytes := unsigned.length + (sizes.map fun n ↦ n + (if n ≤ 252 then 1 else 3) - 1).sum
    let sizeFee := max 1000 (Int.tdiv (fees.zatPerKb * bytes) 1000)
    .ok (max (min (max conventional sizeFee) fees.maxTxFee) conventional)

/-- What `spendable_yec` keeps of the available coins, with whether each is in the mempool. -/
def Purse.spendable (p : Purse) (minDepth : Int) (withPq : Bool) : List (Coin × Bool) :=
  (p.availableCoins.filter fun e ↦
    ((e.1.owner matches .t _ _) || withPq && (e.1.owner matches .pq _ _)) &&
      !(e.1.at ∈ p.wallet.mempoolSpent || e.1.at ∈ p.wallet.yedReserved A 0) &&
      !(e.2 < max minDepth 0 || e.2 = 0 && !p.wallet.trusted e.1.txid)).map fun e ↦
    (e.1, e.2 = 0)

/-- The coins with their outpoints. -/
def readCoins {α : Type} : List (Coin × α) → Except RpcError (List (Chosen × α))
  | [] => .ok []
  | c :: cs => do
    let op ← readOutpoint c.1.at
    let rest ← readCoins cs
    return (⟨op, c.1.value.toInt, c.1.script⟩, c.2) :: rest

/-- Confirmed coins first, then as `Chosen.before`. -/
def spendOrder (a b : Chosen × Bool) : Prop :=
  toLex (a.2, toLex (-a.1.value, toLex (a.1.outpoint.txid, a.1.outpoint.n.toNat))) ≤
    toLex (b.2, toLex (-b.1.value, toLex (b.1.outpoint.txid, b.1.outpoint.n.toNat)))

instance (a b : Chosen × Bool) : Decidable (spendOrder a b) := inferInstanceAs (Decidable (_ ≤ _))

/-- `spendable_yec`. -/
def Purse.spendableYec (p : Purse) (minDepth : Int) (withPq : Bool) :
    Except RpcError (List Chosen) := do
  let cs ← readCoins (p.spendable A minDepth withPq)
  return (cs.insertionSort spendOrder).map Prod.fst

/-- A recipient of `send_yec`: the script, the amount, and whether the fee is taken from it. -/
structure Recipient where
  script : Bytes
  value : Int
  subtract : Bool

/-- The recipients' outputs, the fee taken from those that bear it, the first with the rest. -/
def recipientOuts (fee subtract : Int) : Bool → List Recipient → Except RpcError (List Out)
  | _, [] => .ok []
  | first, r :: rs =>
    let share := Int.tdiv fee subtract + if first then Int.tmod fee subtract else 0
    let v := if r.subtract then r.value - share else r.value
    if v < dustThreshold r.script then
      .error ⟨-4, if !r.subtract then "Transaction amount too small"
        else if v < 0 then "The transaction amount is too small to pay the fee"
        else "The transaction amount is too small to send after the fee has been deducted"⟩
    else do
      let outs ← recipientOuts fee subtract (first && !r.subtract) rs
      return ⟨v, r.script⟩ :: outs

/-- The largest of some coins, the last one among equals (`max_by_key`). -/
def largestCoin : List Chosen → Option Chosen
  | [] => none
  | c :: cs =>
    match largestCoin cs with
    | none => some c
    | some d => if d.value < c.value then some c else some d

/-- The change of a payment: raised to its dust at the cost of the first recipient that bears the
fee, and left to the fee when it is dust. -/
def changeOuts (recipients : List Recipient) (subtract change : Int) (script : Bytes)
    (outs : List Out) : Except RpcError (List Out) :=
  let dust := dustThreshold script
  let raise := if 0 < subtract ∧ change < dust then dust - change else 0
  let value := change + raise
  let i := (recipients.findIdx? fun r ↦ r.subtract).getD 0
  let outs' := outs.modify i fun o ↦ { o with value := o.value - raise }
  if 0 < raise ∧ (outs'.getD i ⟨0, []⟩).value <
      dustThreshold ((recipients.map Recipient.script).getD i []) then
    .error ⟨-4, "The transaction amount is too small to send after the fee has been deducted"⟩
  else .ok (if max dust (dustFloor + 1) ≤ value then outs' ++ [⟨value, script⟩] else outs')

/-- The error of a payment that the coins do not cover. -/
def uncovered (coins : List Chosen) (subtract total fee : Int) : RpcError :=
  if subtract = 0 ∧ total ≤ worth coins then
    ⟨-6, "Error: Insufficient funds to pay the fee. This transaction needs to spend " ++
      money total ++ " plus a fee of at least " ++ money fee ++ ", but only " ++
      money (worth coins) ++ " is available"⟩
  else ⟨-6, "Insufficient funds"⟩

/-- The script the change of a payment goes to. -/
def changeScript (sendChangeBack : Bool) (fault : Option String) (chosen : List Chosen) :
    Proc Purse RpcError Bytes :=
  match if sendChangeBack then largestCoin chosen else none with
  | some c => pure c.script
  | none => newChange env fault

/-- The outputs of a payment with its change. -/
def payChange (sendChangeBack : Bool) (fault : Option String) (recipients : List Recipient)
    (change : Int) (chosen : List Chosen) (outs : List Out) : Proc Purse RpcError (List Out) :=
  if 0 < change then do
    let s ← changeScript env sendChangeBack fault chosen
    lift (changeOuts recipients (recipients.countP Recipient.subtract) change s outs)
  else pure outs

/-- The fee a payment has to pay. -/
def paymentFee (fees : PlainFees) (chosen : List Chosen) (outs : List Out)
    (expiryHeight : UInt32) : Except RpcError Int := do
  let sizes := chosen.map fun c ↦ scriptSigSizeBound c.script
  let tx := newV4 (chosen.map fun c ↦ newTxIn c.outpoint) outs 0 expiryHeight
  let want ← (tx.zip317ConventionalFee sizes).mapError fun e ↦ (⟨-32603, e.text⟩ : RpcError)
  if chosen.any fun c ↦ (pqpkhOf c.script).isSome then pqSpendFee fees tx sizes want
  else return want

/-- One round of `send_yec` at a fee: the fee it would have to pay, the coins and the outputs. -/
def sendRound (fees : PlainFees) (sendChangeBack : Bool) (fault : Option String)
    (expiryHeight : UInt32) (coins : List Chosen) (recipients : List Recipient) (fee : Int) :
    Proc Purse RpcError (Int × List Chosen × List Out) := do
  let total := (recipients.map Recipient.value).sum
  let subtract : Int := recipients.countP Recipient.subtract
  let outs ← lift (recipientOuts fee subtract true recipients)
  let need := total + if 0 < subtract then 0 else fee
  let chosen := gather need 0 coins
  if worth chosen < need then throw (uncovered coins subtract total fee)
  else
    let outs ←
      payChange env sendChangeBack fault recipients (worth chosen - need) chosen outs
    let want ← lift (paymentFee fees chosen outs expiryHeight)
    return (want, chosen, outs)

/-- The rounds of `send_yec`.  `fees` and `faults` are what the node and the signer answer in each
of them. -/
def sendRounds (sendChangeBack : Bool) (next : Next) (coins : List Chosen)
    (recipients : List Recipient) : List (PlainFees × Option String) → Int →
    Proc Purse RpcError SignAsk
  | [], _ => throw ⟨-4, "the fee did not converge"⟩
  | r :: rs, fee => do
    let expiryHeight := UInt32.ofNat (next.height + paymentExpiryDelta)
    let (want, chosen, outs) ←
      sendRound env r.1 sendChangeBack r.2 expiryHeight coins recipients fee
    if fee < want then sendRounds sendChangeBack next coins recipients rs want
    else
      let p ← get
      return {
        inputs := chosen.map fun c ↦ (c, (p.wallet.keyOfScript c.script).getD .none)
        outs
        expiryHeight
        path := .yec
        cap := (recipients.map Recipient.value).sum + fee
        branch := next.branch }

/-- `send_yec`, up to its sign request: at most eight rounds. -/
def sendYec (sendChangeBack : Bool) (rounds : Fin 8 → PlainFees × Option String)
    (recipients : List Recipient) (minDepth : Int) : Proc Purse RpcError SignAsk := do
  let next ← lift (nextBlock A)
  let p ← get
  let coins ← lift (p.spendableYec A minDepth true)
  sendRounds env sendChangeBack next coins recipients (List.ofFn rounds) 10000

/-! ## `z_sendmany` -/

/-- `Source`. -/
inductive Source where
  | anyTaddr
  | t (script : Bytes)
  | z (address : String)
deriving DecidableEq

/-- The privacy policies, as far as `z_sendmany` tells them apart. -/
structure Policy where
  revealRecipients : Bool
  revealSenders : Bool
  linkAccount : Bool

/-- `conventional_fee` of a `z_sendmany` shape. -/
def shapeFee (tIn tOut zSpends zOuts : Nat) : Int :=
  let padded := if zSpends + zOuts > 0 then max zOuts 2 else 0
  zip317ConventionalFee (tIn * 150) (tOut * 34) (max zSpends padded)

/-- A transparent candidate of `z_sendmany`: the coin, whether it is a coinbase, and its key. -/
structure SendCoin where
  coin : Chosen
  coinbase : Bool
  key : KeyRef
deriving DecidableEq

/-- The available coins a transparent source may use. -/
def Purse.sendCoins (p : Purse) (source : Source) (coinbaseOk : Bool) (min : Int) :
    List (Coin × KeyRef) :=
  p.availableCoins.filterMap fun e ↦
    if e.1.at ∈ p.wallet.mempoolSpent || e.2 < max min 1 && !(e.2 = 0 && min = 0) then none
    else match e.1.owner with
      | .pq _ _ => none
      | .t chain i =>
        if source matches .t _ && source ≠ .t e.1.script then none
        else if e.1.coinbase && !coinbaseOk then none
        else some (e.1, .bip32 (.ofNat chain) (.ofNat i))

/-- Candidates in the order of `z_sendmany`: coinbases last, then the largest first. -/
def sendOrder (a b : SendCoin) : Prop :=
  toLex (a.coinbase, -a.coin.value) ≤ toLex (b.coinbase, -b.coin.value)

instance (a b : SendCoin) : Decidable (sendOrder a b) := inferInstanceAs (Decidable (_ ≤ _))

/-- The transparent candidates of `z_sendmany`. -/
def Purse.sendCandidates (p : Purse) (source : Source) (coinbaseOk : Bool) (min : Int) :
    Except RpcError (List SendCoin) := do
  let cs ← readCoins ((p.sendCoins source coinbaseOk min).map fun e ↦ (e.1, e.1.coinbase, e.2))
  let free := cs.filter fun c ↦
    !((txidHex c.1.outpoint.txid, c.1.outpoint.n) ∈ p.wallet.yedReserved A 0) &&
      !(p.locks.get? c.1.outpoint.display).isSome
  return (free.map fun c ↦ ⟨c.1, c.2.1, c.2.2⟩).insertionSort sendOrder

/-- The front of a list that reaches an amount, or all of it. -/
def gatherBy {α : Type} (value : α → Int) (needed : Int) : Int → List α → List α
  | _, [] => []
  | got, c :: cs => if needed ≤ got then [] else c :: gatherBy value needed (got + value c) cs

/-- What `z_sendmany` spends: coins or notes, the change, and the fee. -/
structure SendChoice where
  coins : List SendCoin
  notes : List NoteRow
  change : Int
  fee : Int

/-- The text of a fee that is too far above the conventional one. -/
def feeTooHigh (f conventional : Int) : RpcError :=
  ⟨-8, "Fee " ++ money f ++ " is greater than 4 times the conventional fee for this tx (which is " ++
    money conventional ++ "). There is no prioritisation benefit to a fee this large (see " ++
    "https://zips.z.cash/zip-0317#recommended-algorithm-for-block-template-construction), " ++
    "and it likely indicates a mistake in setting the fee."⟩

/-- The text of funds that do not suffice. -/
def shortOf (available need : Int) (noted : Bool) : RpcError :=
  ⟨-8, "Insufficient funds: have " ++ money available ++ ", need " ++ money need ++
    (if noted then "; note that coinbase outputs will not be selected if you specify ANY_TADDR, " ++
      "any transparent recipients are included, or if the `privacyPolicy` parameter is not set " ++
      "to `AllowRevealedSenders` or weaker" else "") ++ "."⟩

/-- One round of the selection of `z_sendmany` at a fee: the conventional fee of what it chose. -/
def sendManyRound (zSource coinbaseOk : Bool) (coins : List SendCoin) (notes : List NoteRow)
    (total : Int) (nTOut nZOut : Nat) (fee : Option Int) (needFee : Int) :
    Except RpcError (Int × SendChoice) :=
  let need := total + needFee
  let selT := if zSource then [] else gatherBy (fun c : SendCoin ↦ c.coin.value) need 0 coins
  let selZ := if zSource then gatherBy (fun n : NoteRow ↦ (n.value : Int)) need 0 notes else []
  let got := (selT.map fun c ↦ c.coin.value).sum + (selZ.map fun n ↦ (n.value : Int)).sum
  let available := (coins.map fun c ↦ c.coin.value).sum + (notes.map fun n ↦ (n.value : Int)).sum
  if got < need then .error (shortOf available need (!zSource && !coinbaseOk))
  else
    let change := got - need
    if (selT.any fun c ↦ c.coinbase) && 0 < change then
      .error ⟨-4, "When shielding coinbase funds, the wallet does not allow any change. The " ++
        "proposed transaction would result in " ++ money change ++ " in change."⟩
    else
      let tChange := 0 < change ∧ !zSource
      let zChange := 0 < change ∧ zSource
      let conventional := shapeFee selT.length (nTOut + if tChange then 1 else 0) selZ.length
        (nZOut + if zChange then 1 else 0)
      match fee with
      | some f =>
        if 4 * conventional < f then .error (feeTooHigh f conventional)
        else .ok (needFee, ⟨selT, selZ, change, needFee⟩)
      | none => .ok (conventional, ⟨selT, selZ, change, needFee⟩)

/-- The rounds of the selection, which stop when the fee stands; the fee after the last round is
the one it asked for. -/
def sendManyRounds (zSource coinbaseOk : Bool) (coins : List SendCoin) (notes : List NoteRow)
    (total : Int) (nTOut nZOut : Nat) (fee : Option Int) : Nat → Int → SendChoice →
    Except RpcError SendChoice
  | 0, _, last => .ok last
  | n + 1, needFee, _ => do
    let (want, choice) ←
      sendManyRound zSource coinbaseOk coins notes total nTOut nZOut fee needFee
    if want = needFee then return choice
    else
      let last : SendChoice := { choice with fee := want }
      sendManyRounds zSource coinbaseOk coins notes total nTOut nZOut fee n want last

/-- `run_sendmany`, up to the coins and notes it spends.  `recipients` are their amounts with
whether each is transparent. -/
def Purse.runSendmany (p : Purse) (source : Source) (recipients : List (Int × Bool)) (hasT : Bool)
    (min : Int) (fee : Option Int) (policy : Policy) : Except RpcError SendChoice := do
  let total := (recipients.map Prod.fst).sum
  let nTOut := recipients.countP Prod.snd
  let nZOut := recipients.length - nTOut
  let coinbaseOk := (source matches .t _) && policy.revealSenders && !hasT
  if hasT && !policy.revealRecipients then
    throw ⟨-8, "This transaction would have transparent recipients, which is not enabled by " ++
      "default because it will publicly reveal transaction recipients and amounts. THIS MAY " ++
      "AFFECT YOUR PRIVACY. Resubmit with the `privacyPolicy` parameter set to " ++
      "`AllowRevealedRecipients` or weaker if you wish to allow this transaction to proceed " ++
      "anyway."⟩
  else match source with
    | .z address =>
      let notes := p.wallet.notes.filter fun n ↦ !n.spent && n.address = address &&
        max min 1 ≤ max (p.wallet.depthAt n.height) 0 && n.position.isSome
      let notes := notes.insertionSort fun a b ↦ b.value ≤ a.value
      sendManyRounds true coinbaseOk [] notes total nTOut nZOut fee 6
        (fee.getD (shapeFee 0 nTOut 0 nZOut)) ⟨[], [], 0, fee.getD (shapeFee 0 nTOut 0 nZOut)⟩
    | _ =>
      if !policy.revealSenders && !policy.linkAccount then
        throw ⟨-8, "Insufficient funds: have " ++ money 0 ++ ", need " ++ money total ++ "."⟩
      else do
        let coins ← p.sendCandidates A source coinbaseOk min
        sendManyRounds false coinbaseOk coins [] total nTOut nZOut fee 6
          (fee.getD (shapeFee 0 nTOut 0 nZOut)) ⟨[], [], 0, fee.getD (shapeFee 0 nTOut 0 nZOut)⟩

end Yew.Daemon
