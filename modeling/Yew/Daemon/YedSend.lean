import Yew.Core.CoinSelect
import Yew.Daemon.Spend
import Yew.Util.Climb

/-!
# Sending YED

`do_send`: tokens for the recipients' cents, YEC for the fee, and the outputs in the order the
payload's assignments count on.  The fee depends on the coins chosen to pay it, so the funding loop
prices a choice and starts over when the price is higher.

Every token is asked for by its script, in chunks of the book's scripts.

## Source

* `yewd/wallet/src/yed.rs`: `YedCoin`, `YedInfo`, `input_bytes`, `YedInfo::network_fee`, `yed_info`,
  `build_error`, `Wallet::ranked_coins`, `Wallet::select_yed` and 3 more
* `yewd/wallet/src/rpc.rs`: `Wallet::new_pq`, `Wallet::yed_info`
* `yewd/wallet/src/mint.rs`: `build_error`
-/

namespace Yew.Daemon

open Script Tx Pq Proto Proc Yellowback Build CoinSelect

/-! ## Fees -/

/-- `MAX_OUTPUT_CENTS`. -/
def maxSendCents : Int := 10000000

/-- `MAX_YEC_INPUTS`. -/
def maxYecInputs : Nat := 200

/-- `MAX_YEC_INPUT_BYTES`. -/
def maxYecInputBytes : Nat := 90000

/-- `EXPIRING_SOON`. -/
def expiringSoon : Nat := 3

/-- What `yed_getinfo` says. -/
structure InfoAnswer where
  healthy : Option Bool
  unhealthyReason : Option String
  height : Option Int
  startHeight : Option Int
  refLag : Option Int
  refWindow : Option Int
  feeZat : Option Int
  flatZat : Option Int
  zatPerKb : Option Int
  maxTxFeeZat : Option Int

/-- `YedInfo`. -/
structure YedInfo where
  indexHeight : Int
  refLag : Int
  refWindow : Int
  flatFee : Int
  ratePerKb : Int
  maxFee : Int
deriving DecidableEq

/-- `build_error`: the code follows the rule a message names. -/
def buildError (msg : String) : RpcError :=
  let params := ["bad-xfer-amount", "not-a-yellowback-address", "bad-address", "vault-not-found",
    "vault-not-active", "vault-not-owned"]
  if params.any fun p ↦ p.toList.isPrefixOf msg.toList then ⟨-8, msg⟩
  else if "mempool-check-failed".toList.isPrefixOf msg.toList ||
      "vault-spend-".toList.isPrefixOf msg.toList then ⟨-26, msg⟩
  else ⟨-4, msg⟩

/-- `i64` in a message. -/
def signed (z : Int) : String := (if z < 0 then "-" else "") ++ Text.decimal z.natAbs

/-- `yed_info`. -/
def yedInfo (answer : Except NodeError InfoAnswer) : Except RpcError YedInfo :=
  match answer with
  | .error e => .error (.ofNode e)
  | .ok v =>
    let lag := v.refLag.getD 2
    if v.healthy = some false then
      .error (buildError ("yellowback-unhealthy: " ++ v.unhealthyReason.getD "" ++
        "; restart with -reindex-yellowback"))
    else if v.height = none ∨ v.height = some (-1) then
      .error (buildError "index-below-start: the index has not reached the start height")
    else if v.startHeight.any fun start ↦ v.height.getD 0 - lag < start then
      .error (buildError ("index-below-start: the index must reach height " ++
        signed (v.startHeight.getD 0 + lag) ++ " first"))
    else .ok {
      indexHeight := v.height.getD 0
      refLag := v.refLag.getD 2
      refWindow := v.refWindow.getD 40
      flatFee := (v.feeZat.or v.flatZat).getD 10000
      ratePerKb := v.zatPerKb.getD 0
      maxFee := v.maxTxFeeZat.getD 10000000 }

/-- `input_bytes`. -/
def inputBytes (script : Bytes) : Nat :=
  match pqpkhOf script with
  | some id => pqInputSize id.scheme
  | none => 150

/-- `network_fee`. -/
def YedInfo.networkFee (info : YedInfo) (scripts : List Bytes) : Int :=
  let bytes : Int := 1000 + ((scripts.map inputBytes).sum : Nat)
  let sized := max info.flatFee (Int.tdiv (info.ratePerKb * bytes) 1000)
  max info.flatFee (min sized info.maxFee)

/-! ## Tokens -/

/-- `YedCoin`. -/
structure YedCoin where
  outpoint : OutPoint
  cents : Int
  script : Bytes
  value : Int
deriving DecidableEq

/-- The order of the selector: by cents, then by displayed txid and output. -/
def YedCoin.before (a b : YedCoin) : Prop :=
  toLex (a.cents, toLex (txidHex a.outpoint.txid, a.outpoint.n.toNat)) ≤
    toLex (b.cents, toLex (txidHex b.outpoint.txid, b.outpoint.n.toNat))

instance (a b : YedCoin) : Decidable (a.before b) := inferInstanceAs (Decidable (_ ≤ _))

/-- The wallet's coins that are tokens, as far as no mempool transaction spends them. -/
def Wallet.tokenCoins (w : Wallet) : List YedToken → Except RpcError (List YedCoin)
  | [] => .ok []
  | t :: ts =>
    if t.at ∈ w.mempoolSpent then tokenCoins w ts
    else match w.coins.find? fun c ↦ c.at = t.at with
      | none => tokenCoins w ts
      | some c => do
        let op ← readOutpoint t.at
        let rest ← tokenCoins w ts
        return ⟨op, t.cents, c.script, c.value.toInt⟩ :: rest

variable (env : Env) (A : Answers)

/-- `ranked_coins`. -/
def Wallet.rankedCoins (w : Wallet) : Except RpcError (List YedCoin) := do
  let ts ← w.tokens A 0
  let cs ← w.tokenCoins ts
  return cs.insertionSort YedCoin.before

/-- `select_yed`: the tokens and the change in cents. -/
def selectTokens (coins : List YedCoin) (needed : Int) : Except RpcError (List YedCoin × Int) :=
  let cents := coins.map YedCoin.cents
  let s := selectFloorAware cents needed minOutputCents maxInputs false
  if s.ok then .ok (s.inputs.filterMap (coins[·]?), s.change)
  else if s.insufficient then
    .error (buildError ("insufficient-yed: need " ++ signed needed ++ " cents, have " ++
      signed cents.sum ++ " confirmed and spendable"))
  else if s.tooManyInputs then
    .error (buildError ("too-many-inputs: more than " ++ Text.decimal maxInputs ++
      " YED inputs would be needed; consolidate first"))
  else
    let alt := nearestWorkable cents needed minOutputCents maxInputs
    let shown (o : Option Int) : String := (o.map signed).getD "none"
    .error (buildError ("change-floor: " ++ signed needed ++ " cents cannot be sent from these " ++
      "coins without change below the $1.00 minimum output; nearest workable amounts: below " ++
      shown alt.below ++ ", above " ++ shown alt.above))

/-! ## YEC -/

/-- How an attempt to pick coins ends. -/
inductive Picked where
  | enough (coins : List Chosen) (fee : Int)
  | short (have_ need : Int)
  | tooMany
deriving DecidableEq

/-- One attempt of `pick_yec`: coins in order until they cover what is needed, which grows with the
fee of the inputs so far. -/
def pick (info : YedInfo) (prior : List Bytes) :
    List Chosen → Int → Int → List Chosen → Picked
  | picked, need, _, [] => .short (worth picked) need
  | picked, need, fee, c :: cs =>
    let picked := picked ++ [c]
    if maxYecInputs < picked.length ∨
        maxYecInputBytes < (picked.map fun c ↦ inputBytes c.script).sum then .tooMany
    else
      let next := info.networkFee (prior ++ picked.map Chosen.script)
      let need := if fee < next then need + (next - fee) else need
      let fee := if fee < next then next else fee
      if need ≤ worth picked then .enough picked fee else pick info prior picked need fee cs

/-- The post-quantum coins of `pick_yec`. -/
def Purse.pqCandidates (p : Purse) (reading : Nat) : List Coin :=
  (p.availableCoins.filter fun e ↦
    !(e.2 < 1 || !(e.1.owner matches .pq _ _) || e.1.at ∈ p.wallet.mempoolSpent ||
      e.1.at ∈ p.wallet.yedReserved A reading)).map Prod.fst

/-- The coins `pick_yec` picks from.  It reads the node's index twice, anew in every turn of the loop
around it; the two answers are taken to be those of the first turn. -/
def Purse.pickable (p : Purse) : Except RpcError (List Chosen) := do
  let plain ← p.eligible A 1 []
  let pq ← readCoins ((p.pqCandidates A 2).map fun c ↦ (c, ()))
  return plain ++ pq.map Prod.fst

/-- Smallest first, and largest first when that would cross a cap. -/
def pickBest (info : YedInfo) (prior : List Bytes) (needed fee : Int) (cand : List Chosen) :
    Picked :=
  let order := cand.insertionSort fun a b ↦ a.value ≤ b.value
  match pick info prior [] needed fee order with
  | .tooMany => pick info prior [] needed fee order.reverse
  | r => r

/-- `pick_yec`: the coins, and the fee of the inputs with them. -/
def Purse.pickYec (p : Purse) (needed : Int) (info : YedInfo) (prior : List Bytes) (fee : Int) :
    Except RpcError (List Chosen × Int) :=
  if needed ≤ 0 then .ok ([], fee)
  else do
    let cand ← p.pickable A
    match pickBest info prior needed fee cand with
    | .enough coins fee => return (coins, fee)
    | .tooMany => throw (buildError ("too-many-coins: covering " ++ money needed ++
        " YEC would take more than " ++ Text.decimal maxYecInputs ++ " coins (or " ++
        Text.decimal maxYecInputBytes ++ " bytes of inputs); combine small coins first by " ++
        "sending them to yourself, then retry"))
    | .short sel need => throw (buildError ("insufficient-yec: need " ++ money need ++
        ", have " ++ money sel ++ " confirmed and unlocked"))

/-! ## Change -/

/-- `new_pq`: the next post-quantum key. -/
def newPq (fault : Option String) (scheme : UInt8) : Proc Purse RpcError PqKeyId := do
  let p ← get
  let index := p.wallet.pqIssued scheme
  onWallet (modify fun w ↦
    { w with issued := { w.issued with pq := w.issued.pq.insert scheme.toNat (index + 1) } })
  (onWallet (refreshKeys env fault)).mapErr fun e ↦
    (⟨-4, "cannot derive a post-quantum key (" ++ e ++ ")"⟩ : RpcError)
  let p ← get
  match p.wallet.book.pqKey scheme index with
  | some k => return k.id
  | none => throw ⟨-4, "cannot derive a post-quantum key (the signer did not provide it)"⟩

/-- `fresh_holder`: the script that holds the YED change. -/
def freshHolder (fault : Option String) : Proc Purse RpcError Bytes := do
  let p ← get
  if p.falconNext then
    let id ← newPq env fault schemeFnDsa
    match pqpkhScript id with
    | some s => return s
    | none => throw ⟨-4, "keypool-empty: cannot draw a post-quantum holder key"⟩
  else
    let pk ← newWalletKey env fault
    return p2pkhScript (env.C.hash160 pk.toList)

/-- The holder of the YED change, if there is any. -/
def drawHolder (fault : Option String) (change : Int) :
    Proc Purse RpcError (Option (Bytes × Int)) :=
  if 0 < change then do
    let script ← freshHolder env fault
    return some (script, change)
  else pure none

/-! ## `do_send` -/

/-- `as u32`. -/
def asU32 (z : Int) : UInt32 := UInt32.ofNat (z % 2 ^ 32).toNat

/-- The assignments of outputs from the `i`-th on. -/
def assignmentsFrom (i : Nat) (cents : List Int) : List Assignment :=
  (cents.zipIdx i).map fun c ↦ ⟨UInt8.ofNat c.2, asU32 c.1⟩

/-- A transfer that waits for its YEC: the tokens it spends, the outputs so far, and where YEC
change goes. -/
structure Draft where
  tokens : List YedCoin
  outs : List Out
  changeScript : Bytes
  expiryHeight : UInt32

/-- A funded transfer. -/
structure Funded where
  coins : List Chosen
  outs : List Out
  fee : Int

/-- The YEC a draft's outputs take from other coins than its tokens, before the fee. -/
def Draft.short (d : Draft) : Int := paid d.outs - (d.tokens.map YedCoin.value).sum

/-- The inputs of a draft with YEC coins, as the signer's request lists them. -/
def Draft.inputs (d : Draft) (coins : List Chosen) : List Chosen :=
  d.tokens.map (fun t ↦ ⟨t.outpoint, t.value, t.script⟩) ++ coins

/-- The scriptSig sizes of a draft's inputs. -/
def Draft.sizes (d : Draft) (coins : List Chosen) : List Nat :=
  (d.inputs coins).map fun c ↦ scriptSigSizeBound c.script

/-- The transaction of a draft with YEC coins. -/
def Draft.tx (d : Draft) (coins : List Chosen) (outs : List Out) : Transaction :=
  newV4 ((d.inputs coins).map fun c ↦ newTxIn c.outpoint) outs 0 d.expiryHeight

/-- One turn of the funding loop at a floor of the fee: the floor it asks for. -/
def Draft.turn (d : Draft) (p : Purse) (info : YedInfo) (floor : Int) :
    Except RpcError (Int × Funded) := do
  let scripts := d.tokens.map YedCoin.script
  let fee₀ := max floor (info.networkFee scripts)
  let needed := d.short + fee₀
  let (coins, fee) ← p.pickYec A needed info scripts fee₀
  let change := worth coins - needed - (fee - fee₀)
  let outs := d.outs ++ if 0 < change then [⟨change, d.changeScript⟩] else []
  let conventional := ((d.tx coins outs).zip317ConventionalFee (d.sizes coins)).toOption.getD 0
  let paid := fee + if change < 0 then change else 0
  return (if max paid fee < conventional then conventional else floor, ⟨coins, outs, fee⟩)

/-- How often the loop may turn: once for every choice of coins there is. -/
def Draft.turns (p : Purse) : Nat := 4 * (((p.pickable A).toOption.getD []).length + 1) + 2

/-- The funding loop.  No outcome would be a loop that does not end. -/
def Draft.fund (d : Draft) (p : Purse) (info : YedInfo) : Option (Except RpcError (Int × Funded)) :=
  climb (d.turn A p info) (turns A p) info.flatFee

/-- What `do_send` asks the signer for, and what it promises. -/
structure SendPlan where
  ask : SignAsk
  fee : Int
  assignments : List Assignment
  change : Int

/-- The checks on the recipients, with the cents they get. -/
def checkRecipients (falcon : Bool) (recipients : List (Bytes × Int)) : Except RpcError Int :=
  if recipients.isEmpty then .error (buildError "no recipients")
  else if maxAssignments - 1 < recipients.length then
    .error (buildError ("at most " ++ Text.decimal (maxAssignments - 1) ++
      " recipients per transaction"))
  else if falcon && recipients.any fun r ↦ !(pqpkhOf r.1).any fun id ↦ id.scheme = schemeFnDsa then
    .error (buildError ("bad-yed-holder: from the Falcon height YED is held by post-quantum " ++
      "(Falcon) addresses only; pass a 53-character yb…/yt…/yr… address"))
  else if recipients.any fun r ↦ r.2 < minOutputCents || maxSendCents < r.2 then
    .error (buildError ("bad-xfer-amount: each amount must be between " ++
      Text.decimal minOutputCents ++ " and " ++ signed maxSendCents ++ " cents"))
  else .ok (recipients.map Prod.snd).sum

/-- The draft's token outputs and their assignments. -/
def draftOuts (recipients : List (Bytes × Int)) (holder : Option (Bytes × Int)) :
    List Out × List Assignment :=
  let tokens := recipients ++ holder.toList
  (tokens.map fun t ↦ ⟨tokenZat, t.1⟩, assignmentsFrom 0 (tokens.map Prod.snd))

/-- `do_send`, up to its sign request.  `faults` are the signer's failures to hand out the holder's
and the change key. -/
def doSend (info : Except NodeError InfoAnswer) (faults : Option String × Option String)
    (recipients : List (Bytes × Int)) : Proc Purse RpcError (Option SendPlan) := do
  let info ← lift (yedInfo info)
  let next ← lift (nextBlock A)
  let p ← get
  let needed ← lift (checkRecipients p.falconNext recipients)
  let coins ← lift (p.wallet.rankedCoins A)
  let (tokens, change) ← lift (selectTokens coins needed)
  let expiryHeight := asU32 (info.indexHeight - info.refLag + info.refWindow)
  if expiryHeight.toNat < next.height + expiringSoon then
    throw (buildError ("expiring-too-soon: the transaction would expire too soon; the index is " ++
      "too far behind the chain"))
  else
    let holder ← drawHolder env faults.1 change
    let (outs, assignments) := draftOuts recipients holder
    match encode (.transfer assignments) with
    | none => throw (buildError "cannot encode the transfer payload")
    | some data =>
      let changeScript ← newChange env faults.2
      let p ← get
      let d : Draft := ⟨tokens, outs ++ [⟨0, payloadScript data⟩], changeScript, expiryHeight⟩
      match d.fund A p info with
      | none => return none
      | some (.error e) => throw e
      | some (.ok (_, f)) =>
        let inputs := (d.inputs f.coins).map fun c ↦
          (c, (p.wallet.keyOfScript c.script).getD .none)
        let cap := recipients.length * tokenZat + f.fee + 1
        return some ⟨⟨inputs, f.outs, expiryHeight, .yed, cap, next.branch⟩, f.fee, assignments,
          change⟩

end Yew.Daemon
