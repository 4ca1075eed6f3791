import Yew.Daemon.FundYed
import Yew.Proto.Act

/-!
# Carriers

A Yellowback transaction that cites prices takes them from a *carrier*: an output of the wallet's
own that commits to a bundle of attestations.  The carrier is built and recorded first.  Once it is
confirmed, the mint, claim, notice or report that it was made for is completed on it, and the record
is removed.  A carrier whose window has lapsed is swept back.

The parts of these calls that do not touch the carriers are given by how they end: `none` where they
go through, and their error otherwise.

The five calls differ in what they sign, not in what they do with the carrier, so they share one
definition that takes the kind.

## Source

* `yewd/wallet/src/mint.rs`: `Wallet::yed_mint`, `Wallet::build_carrier`,
  `Wallet::build_carrier_from`, `Wallet::complete_mint`, `Wallet::yed_sweepcarriers`
* `yewd/wallet/src/claim.rs`: `Wallet::complete_claim`, `Wallet::claim_at`,
  `Wallet::complete_notice`
* `yewd/wallet/src/attest.rs`: `complete_equivocation`, `Wallet::yed_buildcancel`
* `yewd/wallet/src/build.rs`: `outpoint_param`, `Wallet::broadcast`
* `yewd/wallet/src/state.rs`: `CarrierRec`
-/

namespace Yew.Daemon

open Script Tx Pq Proto Proc Yellowback Build

/-! ## The wallet's carriers -/

/-- `CarrierRec`. -/
structure CarrierRec where
  index : Nat
  pk : Arr 33
  bundle : Bytes
  refHeight : Int
  selector : Bytes
  createdHeight : Int
deriving DecidableEq

/-- What a transaction with a carrier input is for. -/
inductive Purpose where
  | mint
  | claim
  | notice
  | equivocation
  | cancel
  | sweep
deriving DecidableEq

/-- A transaction that was signed with carrier keys: the carriers it spends, its expiry height, and
the next height at the time. -/
structure CarrierSpend where
  purpose : Purpose
  carriers : List OutPoint
  expiryHeight : UInt32
  height : Nat
deriving DecidableEq

/-- What was handed to the node: a new carrier with its record, or a spend of carriers. -/
inductive Handed where
  | carrier (r : CarrierRec)
  | spend (carriers : List OutPoint)
deriving DecidableEq

/-- The purse and the records of the carriers, with what was signed with carrier keys and what was
handed to the node, the latest first. -/
structure Desk where
  purse : Purse
  carriers : OrdMap String CarrierRec
  signed : List CarrierSpend
  handed : List Handed

/-- Why a completion stops: a call to the node or the signer fails, a rule refuses it, or it was sent
and something fails after that. -/
inductive Stop where
  | node (e : RpcError)
  | rule (e : RpcError)
  | sent (e : RpcError)
deriving DecidableEq

section Calls

variable {ε α : Type}

/-- A call on the purse. -/
def onPurse (x : Proc Purse ε α) : Proc Desk ε α := fun d ↦
  let (r, p) := x d.purse
  (r, { d with purse := p })

/-- A part of a call that may fail. -/
def attempt (fault : Option ε) : Proc Desk ε Unit :=
  match fault with
  | some e => throw e
  | none => pure ()

/-- The signer signs, unless it refuses. -/
def signSpend (fault : Option ε) (t : CarrierSpend) : Proc Desk ε Unit := do
  attempt fault
  modify fun d ↦ { d with signed := t :: d.signed }

/-- `broadcast`: what `sendrawtransaction` replies, and the sync after it. -/
def broadcast (tx : Handed) (reply : Except ε String) (syncFault : Option ε) :
    Proc Desk ε String := do
  modify fun d ↦ { d with handed := tx :: d.handed }
  let txid ← lift reply
  attempt syncFault
  return txid

/-- A record is inserted. -/
def insertCarrier (op : OutPoint) (r : CarrierRec) : Proc Desk ε Unit :=
  modify fun d ↦ { d with carriers := d.carriers.insert op.display r }

/-- Records are removed. -/
def removeCarriers (ks : List String) : Proc Desk ε Unit :=
  modify fun d ↦ { d with carriers := ks.foldl OrdMap.erase d.carriers }

end Calls

/-- `outpoint_param` of a string. -/
def outpointParam (s name : String) : Except RpcError OutPoint :=
  let bad : RpcError := ⟨-8, name ++ " must be \"txid:n\" or \x7b\"txid\", \"vout\"\x7d"⟩
  match SetAct.rsplitColon s.toList with
  | none => .error bad
  | some (t, n) =>
    match Text.parseU32 (String.ofList n) with
    | none => .error bad
    | some n =>
      if Text.byteLen t ≠ 64 then .error bad
      else match Keys.txidFromHex (String.ofList t) with
        | .ok txid => .ok ⟨txid, n⟩
        | .error _ => .error bad

/-- What `yed_getinfo` says of the flat fee and the reference window. -/
structure CarrierParams where
  flat : Int
  window : Int

/-! ## Building a carrier -/

/-- How the parts of `build_carrier_from` end.  `sapling` is the funding from notes. -/
structure BuildAnswers where
  params : Except RpcError CarrierParams
  keyFault : Option String
  changeFault : Option String
  sapling : Option RpcError
  signFault : Option RpcError
  reply : Except RpcError String
  syncFault : Option RpcError

/-- What a carrier is built for. -/
structure CarrierAsk where
  bundle : Bytes
  refHeight : Int
  selector : Bytes
  only : Option Bytes
  fromNotes : Bool

section Model

variable (env : Env) (A : Answers)

/-- The redeem script of a carrier. -/
def carrierRedeemOf (code : Int) (pk : Arr 33) (bundle : Bytes) : Except RpcError Bytes :=
  (carrierScript env.C pk (env.C.sha256 bundle)).mapError fun e ↦ ⟨code, e.text⟩

/-- The carrier is funded from coins or notes, and signed. -/
def fundCarrier (ask : CarrierAsk) (B : BuildAnswers) (prm : CarrierParams) (redeem : Bytes) :
    Proc Desk RpcError Unit :=
  if ask.fromNotes then attempt B.sapling
  else do
    let base : YedBase :=
      ⟨[⟨carrierZat, p2shOf env.C redeem⟩], 0, asU32 (ask.refHeight + prm.window)⟩
    let _ ← onPurse (fundYed env A base ⟨0, []⟩ prm.flat ask.only B.changeFault)
    attempt B.signFault

/-- The outpoint of the carrier that a reply names. -/
def carrierAt (txid : String) : Except RpcError OutPoint :=
  match Keys.txidFromHex txid with
  | .ok t => .ok ⟨t, 0⟩
  | .error (.error e) => .error ⟨-32603, e⟩
  | .error .panic => .error ⟨-32603, "panic"⟩

/-- `build_carrier_from`: the record is written after the send and the sync. -/
def buildCarrierFrom (ask : CarrierAsk) (B : BuildAnswers) : Proc Desk RpcError OutPoint := do
  let prm ← lift B.params
  let next ← lift (nextBlock A)
  let d ← get
  let index := d.purse.wallet.issued.external
  let pk ← onPurse (newWalletKey env B.keyFault)
  let redeem ← lift (carrierRedeemOf env (-4) pk ask.bundle)
  fundCarrier env A ask B prm redeem
  let r : CarrierRec := ⟨index, pk, ask.bundle, ask.refHeight, ask.selector, next.height - 1⟩
  let txid ← broadcast (.carrier r) B.reply B.syncFault
  let op ← lift (carrierAt txid)
  insertCarrier op r
  return op

/-! ## Completions -/

/-- The record of a carrier. -/
def carrierRec (carrier : OutPoint) : Proc Desk Stop CarrierRec := do
  let d ← get
  match d.carriers.get? carrier.display with
  | some r => return r
  | none => throw (.rule ⟨-4, "carrier-key-missing: the carrier is not this wallet's"⟩)

/-- The carrier is a confirmed unspent output. -/
def checkConfirmed (carrier : OutPoint) : Except Stop Unit := do
  let c ← (nodeCoin A carrier).mapError Stop.node
  if c.any fun c ↦ c.height.isSome then return ()
  else throw (.rule (buildError ("carrier-unconfirmed: the carrier " ++ carrier.display ++
    " is not a confirmed unspent output")))

/-- The carrier's window has not lapsed. -/
def checkWindow (next : Next) (window r : Int) : Except Stop Unit :=
  if r < next.height - window then
    .error (.rule (buildError ("carrier-lapsed: the carrier's reference height " ++
      Text.decimalInt r ++ " is outside the window at height " ++ Text.decimal next.height ++
      "; yed_sweepcarriers reclaims it")))
  else .ok ()

/-- `CheckExpiry`: a mint that would expire within three blocks. -/
def checkExpiry (next : Next) (window r : Int) : Except Stop Unit :=
  if r + window < next.height + expiringSoon then
    .error (.rule (buildError ("expiring-too-soon: the transaction would expire too soon; the " ++
      "index is too far behind the chain")))
  else .ok ()

/-- The carrier was built for a selector. -/
def checkSelector (r : CarrierRec) (selector : Bytes) : Except Stop Unit :=
  if r.selector ≠ selector then
    .error (.rule (buildError "carrier-selector: the carrier was built for another selector"))
  else .ok ()

/-- How the parts of a completion end: what comes before the record is read, what is built on it,
the signer, the dry run, the send and the sync. -/
structure Finish where
  before : Option Stop
  params : Except RpcError CarrierParams
  building : Option Stop
  signFault : Option Stop
  dryRun : Option Stop
  reply : Except Stop String
  syncFault : Option RpcError

/-- A transaction on a carrier is signed, tried, sent, and the record removed. -/
def finish (F : Finish) (purpose : Purpose) (carrier : OutPoint) (expiryHeight : UInt32)
    (next : Next) : Proc Desk Stop String := do
  signSpend F.signFault ⟨purpose, [carrier], expiryHeight, next.height⟩
  attempt F.dryRun
  let txid ← broadcast (.spend [carrier]) F.reply (F.syncFault.map Stop.sent)
  removeCarriers [carrier.display]
  return txid

/-- `complete_mint`. -/
def completeMint (F : Finish) (carrier : OutPoint) : Proc Desk Stop String := do
  let prm ← lift (F.params.mapError Stop.node)
  attempt F.before
  let next ← lift ((nextBlock A).mapError Stop.node)
  let r ← carrierRec carrier
  lift (checkConfirmed A carrier)
  lift (checkExpiry next prm.window r.refHeight)
  lift (checkWindow next prm.window r.refHeight)
  attempt F.building
  finish F .mint carrier (asU32 (r.refHeight + prm.window)) next

/-- How one of the passes of a claim ends. -/
inductive ClaimPass where
  /-- The plan finds too little YEC. -/
  | short (message : String)
  /-- The pass fails. -/
  | fails (e : Stop)
  /-- The signed claim pays less than its conventional fee. -/
  | low
  /-- The signed claim pays enough. -/
  | pays

/-- The passes of `complete_claim`, with the last shortage. -/
def claimPasses (F : Finish) (carrier : OutPoint) (expiryHeight : UInt32) (next : Next) :
    List ClaimPass → Option String → Proc Desk Stop String
  | [], last => throw (.rule (buildError (last.getD "the fee did not converge")))
  | .short m :: ps, _ => claimPasses F carrier expiryHeight next ps (some m)
  | .fails e :: _, _ => throw e
  | .low :: ps, last => do
    signSpend none ⟨.claim, [carrier], expiryHeight, next.height⟩
    claimPasses F carrier expiryHeight next ps last
  | .pays :: _, _ => finish F .claim carrier expiryHeight next

/-- `complete_claim`. -/
def completeClaim (F : Finish) (passes : Fin 6 → ClaimPass) (selector : Bytes)
    (carrier : OutPoint) : Proc Desk Stop String := do
  attempt F.before
  let prm ← lift (F.params.mapError Stop.node)
  let next ← lift ((nextBlock A).mapError Stop.node)
  let r ← carrierRec carrier
  lift (checkConfirmed A carrier)
  lift (checkWindow next prm.window r.refHeight)
  lift (checkSelector r selector)
  attempt F.building
  claimPasses F carrier (asU32 (r.refHeight + prm.window)) next (List.ofFn passes) none

/-- `complete_notice`. -/
def completeNotice (F : Finish) (selector : Bytes) (carrier : OutPoint) :
    Proc Desk Stop String := do
  let prm ← lift (F.params.mapError Stop.node)
  let next ← lift ((nextBlock A).mapError Stop.node)
  attempt F.before
  let r ← carrierRec carrier
  lift (checkConfirmed A carrier)
  lift (checkWindow next prm.window r.refHeight)
  lift (checkSelector r selector)
  attempt F.building
  finish F .notice carrier (asU32 (r.refHeight + prm.window)) next

/-- `complete_equivocation`: the carrier's bundle is exactly the two attestations. -/
def completeEquivocation (F : Finish) (bundle : Bytes) (carrier : OutPoint) :
    Proc Desk Stop String := do
  attempt F.before
  let r ← carrierRec carrier
  if r.bundle ≠ bundle then
    throw (.rule
      (buildError "carrier-selector: the carrier does not commit to these two attestations"))
  else
    lift (checkConfirmed A carrier)
    let prm ← lift (F.params.mapError Stop.node)
    let next ← lift ((nextBlock A).mapError Stop.node)
    lift (checkWindow next prm.window r.refHeight)
    attempt F.building
    finish F .equivocation carrier (asU32 (r.refHeight + prm.window)) next

/-! ## The cancel -/

/-- How the parts of `yed_buildcancel` end.  `remembered` is the expiry height of a build of this
cancel that is taken up again. -/
structure CancelAnswers where
  before : Option RpcError
  blob : Bytes
  indexHeight : Int
  remembered : Except RpcError (Option UInt32)
  build : BuildAnswers
  prevouts : Option RpcError
  signFault : Option RpcError

/-- The first carrier with exactly these bytes that is unspent. -/
def reusable (spent : List (String × UInt32)) (blob : Bytes) :
    List (String × CarrierRec) → Except RpcError (Option OutPoint)
  | [] => .ok none
  | (k, c) :: cs =>
    if c.bundle ≠ blob ∨ c.selector ≠ [] then reusable spent blob cs
    else match outpointParam k "carrier" with
      | .error _ => reusable spent blob cs
      | .ok o => do
        let n ← nodeCoin A o
        if n.isSome && !decide ((txidHex o.txid, o.n) ∈ spent) then return some o
        else reusable spent blob cs

/-- The carrier of a cancel: one with its bytes, or a new one. -/
def cancelCarrier (K : CancelAnswers) : Proc Desk RpcError OutPoint := do
  let d ← get
  let reuse ← lift (reusable A d.purse.wallet.mempoolSpent K.blob d.carriers.entries)
  match reuse with
  | some o => return o
  | none => buildCarrierFrom env A ⟨K.blob, K.indexHeight, [], none, false⟩ K.build

/-- `yed_buildcancel`: the carrier input is signed, and the transaction handed out.  A cancel is
built without an expiry height. -/
def yedBuildcancel (K : CancelAnswers) : Proc Desk RpcError Unit := do
  attempt K.before
  let remembered ← lift K.remembered
  let carrier ← cancelCarrier env A K
  let d ← get
  match d.carriers.get? carrier.display with
  | none => throw ⟨-32603, "the carrier record"⟩
  | some _ =>
    let next ← lift (nextBlock A)
    attempt K.prevouts
    signSpend K.signFault ⟨.cancel, [carrier], remembered.getD 0, next.height⟩

/-! ## The sweep -/

/-- How the parts of `yed_sweepcarriers` end. -/
structure SweepAnswers where
  params : Except RpcError CarrierParams
  locked : Option RpcError
  keyFault : Option String
  signFault : Option RpcError
  reply : Except RpcError String
  syncFault : Option RpcError

/-- What `yed_sweepcarriers` returns. -/
structure SweepResult where
  txid : String
  count : Nat
  reclaimed : Int
  outstanding : Nat
deriving DecidableEq

/-- The carriers that lapsed and the keys of those that are gone. -/
def siftCarriers (next : Next) (window : Int) : List (String × CarrierRec) →
    Except RpcError (List (OutPoint × CarrierRec) × List String)
  | [] => .ok ([], [])
  | (k, r) :: cs => do
    let op ← outpointParam k "carrier"
    let c ← nodeCoin A op
    let (lapsed, gone) ← siftCarriers next window cs
    match c with
    | none => return (lapsed, k :: gone)
    | some c =>
      if c.height.isSome && decide (r.refHeight < next.height - window) then
        return ((op, r) :: lapsed, gone)
      else return (lapsed, gone)

/-- The redeem scripts of the carriers to sweep. -/
def sweepRedeems : List (OutPoint × CarrierRec) → Except RpcError (List (CarrierRec × Bytes))
  | [] => .ok []
  | (_, r) :: cs => do
    let redeem ← carrierRedeemOf env (-4) r.pk r.bundle
    let rest ← sweepRedeems cs
    return (r, redeem) :: rest

/-- The fee of a sweep. -/
def sweepFee (prm : CarrierParams) (lapsed : List (OutPoint × CarrierRec))
    (redeems : List (CarrierRec × Bytes)) (dest : Bytes) (expiryHeight : UInt32) : Int :=
  let sizes := redeems.map fun r ↦
    ((carrierScriptSig r.1.bundle (List.replicate 73 0) r.2).toOption.map List.length).getD 0
  let tx := newV4 (lapsed.map fun c ↦ newTxIn c.1) [⟨0, dest⟩] 0 expiryHeight
  min (max prm.flat ((tx.zip317ConventionalFee sizes).toOption.getD prm.flat))
    (lapsed.length * carrierZat - 1)

/-- `yed_sweepcarriers`. -/
def yedSweepcarriers (S : SweepAnswers) : Proc Desk RpcError SweepResult := do
  let prm ← lift S.params
  let next ← lift (nextBlock A)
  let d ← get
  let (lapsed, gone) ← lift (siftCarriers A next prm.window d.carriers.entries)
  removeCarriers gone
  if lapsed.isEmpty then do
    let d ← get
    return ⟨"", 0, 0, d.carriers.entries.length⟩
  else
    attempt S.locked
    let redeems ← lift (sweepRedeems env lapsed)
    let dest ← onPurse (newChange env S.keyFault)
    let expiryHeight := UInt32.ofNat (next.height + paymentExpiryDelta)
    let fee := sweepFee prm lapsed redeems dest expiryHeight
    signSpend S.signFault ⟨.sweep, lapsed.map Prod.fst, expiryHeight, next.height⟩
    let txid ← broadcast (.spend (lapsed.map Prod.fst)) S.reply S.syncFault
    removeCarriers (lapsed.map fun c ↦ c.1.display)
    let d ← get
    return ⟨txid, lapsed.length, lapsed.length * carrierZat - fee, d.carriers.entries.length⟩

end Model

end Yew.Daemon
