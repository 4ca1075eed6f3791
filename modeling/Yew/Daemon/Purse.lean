import Yew.Build.Funding
import Yew.Daemon.Sync

/-!
# The coins a builder may spend

What the daemon's builders read of the wallet before they choose coins: how deep a coin is, whether
a wallet transaction spends it, whether it is locked, and whether it holds YED.  The last is asked
of the node, whose index knows which outputs are tokens.  Amounts are integers; the source's are
`i64`, and no sum of coins leaves that range.

That no sum leaves the range is the money supply's doing: coins are outputs of transactions the node
has accepted.  The readings of the index are one list for each time it is read; within one choice of
coins the source reads it again for every candidate set, and the model takes one answer for all
turns of a loop.

## Source

* `yewd/wallet/src/build.rs`: `Next`, `NodeCoin`, `money`, `FundMode`, `Chosen`, `next_block`,
  `node_coin`, `Wallet::key_of_script` and 6 more
* `yewd/wallet/src/rpc.rs`: `format_money`, `Wallet::depth_at`, `Wallet::tx_depth`,
  `Wallet::immature`, `Wallet::spent_at`, `Wallet::trusted`, `Wallet::available_coins`,
  `Wallet::falcon_next` and 3 more
* `yewd/wallet/src/json.rs`: `amount_text`
* `yewd/wallet/src/lib.rs`: `Wallet::tip_height`
* `yewd/wallet/src/zsend.rs`: `money`
-/

namespace Yew

namespace Tx

/-- `MAX_P2PKH_SCRIPT_SIG`. -/
def maxP2pkhScriptSig : Nat := 108

/-- `script_sig_size_bound`. -/
def scriptSigSizeBound (script : Bytes) : Nat :=
  ((Pq.pqpkhOf script).bind fun id ↦ Build.pqSigPushesSize id.scheme).getD maxP2pkhScriptSig

end Tx

namespace Daemon

open Script Tx Pq Proto Proc Yellowback Build

/-! ## Depths -/

/-- `COINBASE_MATURITY`. -/
def coinbaseMaturity : Int := 100

/-- `immature`. -/
def immature (coinbase : Bool) (depth : Int) : Bool := coinbase && depth < coinbaseMaturity + 1

namespace Wallet

variable (w : Wallet)

/-- `tip_height`. -/
def tipHeight : Nat := (w.tip.map Tip.height).getD 0

/-- `depth_at`, as of now: 0 in the mempool, and -1 above the tip. -/
def depthAt : Option Nat → Int
  | some h => if h ≤ w.tipHeight then w.tipHeight - h + 1 else -1
  | none => 0

/-- `tx_depth`. -/
def txDepth (txid : String) : Int :=
  match w.wtx.get? txid with
  | some t => w.depthAt (t.block.map fun b ↦ b.height)
  | none => -1

/-- `spent_at`. -/
def spentAt (o : String × UInt32) : Bool :=
  w.parsed.entries.any fun e ↦
    0 ≤ w.txDepth e.1 && e.2.tx.vin.any fun i ↦ TxIn.spends i = o

/-- `mempool_spent`: the outpoints the wallet's mempool transactions spend. -/
def mempoolSpent : List (String × UInt32) :=
  (w.parsed.entries.filter fun e ↦ w.txDepth e.1 = 0).flatMap fun e ↦
    e.2.tx.vin.map TxIn.spends

/-- `trusted`: confirmed, or in the mempool with every input an own output. -/
def trusted (txid : String) : Bool :=
  if 1 ≤ w.txDepth txid then true
  else if w.txDepth txid < 0 then false
  else match w.parsed.get? txid with
    | none => false
    | some p => !p.tx.vin.isEmpty && p.tx.vin.all fun i ↦
      ((w.parsed.get? (txidHex i.prevout.txid)).bind fun c ↦
        c.tx.vout[i.prevout.n.toNat]?).any fun o ↦ (w.book.ownsScript o.scriptPubkey).isSome

/-- `key_of_script`. -/
def keyOfScript (script : Bytes) : Option KeyRef :=
  (w.book.ownsScript script).map fun
    | .t chain i => .bip32 (.ofNat chain) (.ofNat i)
    | .pq scheme i => .pq scheme (.ofNat i)

end Wallet

/-- An outpoint as the locks and the carriers spell it. -/
def spell (o : String × UInt32) : String := o.1 ++ ":" ++ Text.decimal o.2.toNat

/-- The wallet with the locks on its coins, and whether holders are Falcon keys at the next block
(`falcon_next`). -/
structure Purse where
  wallet : Wallet
  locks : OrdMap String Unit
  falconNext : Bool

/-- The outpoint of a coin, as displayed. -/
def Coin.at (c : Coin) : String × UInt32 := (c.txid, c.vout)

/-- `available_coins`: mature, unspent and unlocked coins, with their depths. -/
def Purse.availableCoins (p : Purse) : List (Coin × Int) :=
  p.wallet.coins.filterMap fun c ↦
    let d := p.wallet.depthAt c.height
    if d < 0 || immature c.coinbase d || p.wallet.spentAt c.at then none
    else if (p.locks.get? (spell c.at)).isSome then none
    else some (c, d)

/-! ## The node's answers -/

/-- A YED token of the node's index, with the script its address names. -/
structure YedToken where
  txid : String
  vout : UInt32
  cents : Int
  script : Bytes
deriving DecidableEq

/-- `NodeCoin`. -/
structure NodeCoin where
  value : Int64
  script : Bytes
  height : Option Nat
  coinbase : Bool
deriving DecidableEq

/-- What `gettxout` says of an unspent output. -/
structure TxOutAnswer where
  value : Option Int64
  script : Except String Bytes
  confirmations : Nat
  bestblock : String
  coinbase : Bool

/-- `Next`: the block the next transaction is judged in. -/
structure Next where
  height : Nat
  branch : UInt32

/-- The node's answers during one call.  `tokens` is its token state, and `tokensFault` says which
of the `yed_listtokens` calls fail: the call for a chunk of addresses in one reading of it. -/
structure Answers where
  tokens : List YedToken
  tokensFault : (reading chunk : Nat) → Option NodeError
  txout : OutPoint → Except NodeError (Option TxOutAnswer)
  headerHeight : String → Except NodeError Nat
  blockCount : Except NodeError Nat
  blocks : Except NodeError Nat
  nextBranch : Option UInt32

variable (env : Env) (A : Answers)

/-- `next_block`. -/
def nextBlock : Except RpcError Next :=
  match A.blocks with
  | .error e => .error (.ofNode e)
  | .ok blocks =>
    match A.nextBranch with
    | none => .error ⟨-1, "yewd: the node reports no consensus.nextblock"⟩
    | some branch => .ok ⟨blocks + 1, branch⟩

/-- The tip a `gettxout` answer is relative to. -/
def answerTip (best : String) : Except RpcError Nat :=
  match A.headerHeight best with
  | .ok h => .ok h
  | .error _ =>
    match A.blockCount with
    | .ok n => .ok n
    | .error e => .error (.ofNode e)

/-- `node_coin`. -/
def nodeCoin (o : OutPoint) : Except RpcError (Option NodeCoin) :=
  match A.txout o with
  | .error e => .error (.ofNode e)
  | .ok none => .ok none
  | .ok (some v) =>
    match v.value, v.script with
    | none, _ => .error ⟨-1, "yewd: gettxout: no value"⟩
    | some _, .error e => .error ⟨-1, "yewd: gettxout: " ++ e⟩
    | some value, .ok script =>
      if v.confirmations = 0 then .ok (some ⟨value, script, none, v.coinbase⟩)
      else do
        let tip ← answerTip A v.bestblock
        return some ⟨value, script, some (tip + 1 - v.confirmations), v.coinbase⟩

/-! ## Tokens -/

/-- `slice::chunks`. -/
def chunks {α : Type} (n : Nat) (l : List α) : List (List α) :=
  (List.range ((l.length + n - 1) / n)).map fun i ↦ (l.drop (n * i)).take n

/-- `holder_scripts`. -/
def KeyBook.holderScripts (b : KeyBook) : List Bytes :=
  b.tkeys.map (fun k ↦ p2pkhScript k.hash) ++ b.pq.entries.filterMap fun e ↦ pqpkhScript e.2.id

/-- The holder scripts that ever received an output. -/
def Wallet.tokenScripts (w : Wallet) : List Bytes :=
  w.book.holderScripts.filter fun s ↦ s ∈ w.coins.map Coin.script

/-- The tokens at some scripts, a call for each chunk. -/
def listTokens (reading : Nat) : List (List Bytes × Nat) → Except RpcError (List YedToken)
  | [] => .ok []
  | c :: cs =>
    match A.tokensFault reading c.2 with
    | some e => .error (.ofNode e)
    | none => do
      let ts ← listTokens reading cs
      return (A.tokens.filter fun t ↦ t.script ∈ c.1) ++ ts

/-- `tokens`. -/
def Wallet.tokens (w : Wallet) (reading : Nat) : Except RpcError (List YedToken) :=
  listTokens A reading (chunks 100 w.tokenScripts).zipIdx

/-- The outpoint of a token, as displayed. -/
def YedToken.at (t : YedToken) : String × UInt32 := (t.txid, t.vout)

/-- A transaction with a data output that is no act of a set. -/
def carriesPayload (tx : Transaction) : Bool :=
  tx.vout.any fun o ↦ isOpReturn o.scriptPubkey && !SetAct.isActOutput o.scriptPubkey

/-- Every output of the wallet's mempool transactions with a payload. -/
def Wallet.mempoolTokens (w : Wallet) : List (String × UInt32) :=
  (w.parsed.entries.filter fun e ↦
    ((w.wtx.get? e.1).any fun t ↦ t.block.isNone) && carriesPayload e.2.tx).flatMap fun e ↦
      (List.range e.2.tx.vout.length).map fun n ↦ (e.1, UInt32.ofNat n)

/-- `yed_reserved`: the outputs YED holds.  A token state that cannot be read counts as empty. -/
def Wallet.yedReserved (w : Wallet) (reading : Nat) : List (String × UInt32) :=
  (match w.tokens A reading with
    | .ok ts => ts.map YedToken.at
    | .error _ => []) ++ w.mempoolTokens

/-! ## Funding -/

/-- `Chosen`. -/
structure Chosen where
  outpoint : OutPoint
  value : Int
  script : Bytes
deriving DecidableEq

/-- The outpoint of a displayed txid and an output. -/
def readOutpoint (o : String × UInt32) : Except RpcError OutPoint :=
  match Keys.txidFromHex o.1 with
  | .ok txid => .ok ⟨txid, o.2⟩
  | .error (.error e) => .error ⟨-1, e⟩
  -- a txid outside ASCII, which no node hands out, panics in the source
  | .error .panic => .error ⟨-1, "panic"⟩

/-- Chosen coins by value, largest first, then by outpoint. -/
def Chosen.before (a b : Chosen) : Prop :=
  toLex (-a.value, toLex (a.outpoint.txid, a.outpoint.n.toNat)) ≤
    toLex (-b.value, toLex (b.outpoint.txid, b.outpoint.n.toNat))

instance (a b : Chosen) : Decidable (a.before b) := inferInstanceAs (Decidable (_ ≤ _))

/-- The coins `eligible` asks the node about: confirmed P2PKH coins that no mempool transaction
spends and YED does not hold. -/
def Purse.candidates (p : Purse) (reading : Nat) : List Coin :=
  (p.availableCoins.filter fun e ↦
    !(e.2 < 1 || !(e.1.owner matches .t _ _) || e.1.at ∈ p.wallet.mempoolSpent ||
      e.1.at ∈ p.wallet.yedReserved A reading)).map Prod.fst

/-- The candidates that the node, too, sees confirmed and unspent. -/
def confirmedCoins (used : List OutPoint) : List Coin → Except RpcError (List Chosen)
  | [] => .ok []
  | c :: cs => do
    let op ← readOutpoint c.at
    if op ∈ used then confirmedCoins used cs
    else
      let n ← nodeCoin A op
      let rest ← confirmedCoins used cs
      return if n.any fun n ↦ n.height.isSome && n.value = c.value && n.script = c.script
        then ⟨op, c.value.toInt, c.script⟩ :: rest else rest

/-- `eligible`. -/
def Purse.eligible (p : Purse) (reading : Nat) (used : List OutPoint) :
    Except RpcError (List Chosen) := do
  let cs ← confirmedCoins A used (p.candidates A reading)
  return cs.insertionSort Chosen.before

/-- `FundMode`. -/
inductive FundMode where
  | largestFirst
  | smallChange
deriving DecidableEq

/-- The front of a list of coins that reaches an amount, or all of it. -/
def gather (needed : Int) : Int → List Chosen → List Chosen
  | _, [] => []
  | got, c :: cs => if needed ≤ got then [] else c :: gather needed (got + c.value) cs

/-- The value of some coins. -/
def worth (cs : List Chosen) : Int := (cs.map Chosen.value).sum

/-- The coins `fund` takes of the eligible ones. -/
def fundChoice (mode : FundMode) (needed : Int) (eligible : List Chosen) : List Chosen :=
  let single := if 0 < needed ∧ mode = .smallChange then
    eligible.reverse.find? fun c ↦ needed ≤ c.value else none
  match single with
  | some c => [c]
  | none => gather needed 0 eligible

/-- `amount_text`. -/
def amountText (zat : Int) : String :=
  let z := zat.natAbs
  let frac := Text.decimal (z % 100000000)
  (if zat < 0 then "-" else "") ++ Text.decimal (z / 100000000) ++ "." ++
    String.ofList (List.replicate (8 - frac.length) '0') ++ frac

/-- `format_money`: at least two decimals. -/
def money (zat : Int) : String :=
  let full := (amountText zat).toList
  let int := full.takeWhile (· ≠ '.')
  let frac := ((full.dropWhile (· ≠ '.')).drop 1).rdropWhile (· = '0')
  String.ofList (int ++ '.' :: frac ++ List.replicate (2 - frac.length) '0')

/-- A step of the wallet inside its purse. -/
def onWallet {ε α : Type} (x : Proc Wallet ε α) : Proc Purse ε α := fun p ↦
  let (r, w) := x p.wallet
  (r, { p with wallet := w })

/-- The keys follow, with the wallet's error. -/
def followAll (fault : Option String) : Proc Purse RpcError Unit :=
  (onWallet (refreshKeys env fault)).mapErr fun e ↦ ⟨-4, e⟩

/-- `new_change`: the script of the next change key. -/
def newChange (fault : Option String) : Proc Purse RpcError Bytes := do
  let p ← get
  let index := p.wallet.issued.internal
  onWallet (modify fun w ↦ { w with issued := { w.issued with internal := index + 1 } })
  followAll env fault
  let p ← get
  match p.wallet.book.key internal index with
  | some k => return p2pkhScript k.hash
  -- the source unwraps: the key was just derived
  | none => throw ⟨-32603, "derived by refresh_keys"⟩

/-- `new_wallet_key`: the next receive key. -/
def newWalletKey (fault : Option String) : Proc Purse RpcError (Arr 33) := do
  let p ← get
  let index := p.wallet.issued.external
  onWallet (modify fun w ↦ { w with issued := { w.issued with external := index + 1 } })
  followAll env fault
  let p ← get
  match p.wallet.book.key external index with
  | some k => return k.pubkey
  | none => throw ⟨-32603, "derived"⟩

/-- `VAULT_RPC_MIN_CHANGE`. -/
def vaultRpcMinChange : Int := 1000

/-- `lock_coin`. -/
def Purse.lockCoin (p : Purse) (o : OutPoint) : Purse :=
  { p with locks := p.locks.insert o.display () }

/-- The change output of `fund`, if the change is worth one. -/
def fundChange (fault : Option String) (change : Int) : Proc Purse RpcError (List Out) :=
  if vaultRpcMinChange ≤ change then do
    let script ← newChange env fault
    return [⟨change, script⟩]
  else pure []

/-- `fund`: the inputs and outputs of the transaction after it, with the coins it added. -/
def fund (fault : Option String) (vin : List OutPoint) (outs : List Out) (inputValue fee : Int)
    (mode : FundMode) : Proc Purse RpcError (List OutPoint × List Out × List Chosen) := do
  let needed := paid outs + fee - inputValue
  let p ← get
  let eligible ← lift (p.eligible A 0 vin)
  let chosen := fundChoice mode needed eligible
  if worth chosen < needed then
    throw ⟨-6, "insufficient confirmed transparent funds: need " ++
      money (needed - worth chosen) ++ " more"⟩
  else
    let script ← fundChange env fault (worth chosen - needed)
    modify fun p ↦ chosen.foldl (fun p c ↦ p.lockCoin c.outpoint) p
    return (vin ++ chosen.map Chosen.outpoint, outs ++ script, chosen)

end Daemon

end Yew
