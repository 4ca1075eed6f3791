import Yew.Daemon.Wallet

/-!
# The daemon's sync

`sync` brings the wallet to the node's best block: it finds the fork point in the window of
recent blocks, rewinds the rows above it, reads every block from there on whole, and then the
mempool.  A sync that stops in the middle keeps the wallet as far as it got.

The node is a snapshot of its chain and mempool with a fault: the call at which it stops answering.

## Source

* `yewd/wallet/src/lib.rs`: `RpcError`, `BlockTx`, `split_block`, `Wallet::sync`,
  `Wallet::refresh_chain`, `Wallet::scan_from`, `Wallet::process_block`, `Wallet::imported_joins`
  and 2 more
* `yewd/wallet/src/node.rs`: `NodeError`, `Node`, `call`, `call`, `best_hash`, `block_hash`,
  `block_count`, `raw_block`
* `yewd/wallet/src/attest.rs`: `block_hash`
* `yewd/wallet/src/rpc.rs`: `Wallet::call`
-/

namespace Yew.Daemon

open Tx Pq Proto Proc Yellowback

/-! ## The node -/

/-- `RpcError`: what the wallet answers with. -/
structure RpcError where
  code : Int
  message : String
deriving DecidableEq

/-- `NodeError`. -/
inductive NodeError where
  | rpc (code : Int) (message : String)
  | unreachable (m : String)
  | other (m : String)
deriving DecidableEq

/-- `From<NodeError> for RpcError`. -/
def RpcError.ofNode : NodeError → RpcError
  | .rpc code message => ⟨code, message⟩
  | .unreachable m => ⟨-28, "yewd: backend not reachable: " ++ m⟩
  | .other m => ⟨-1, "yewd: " ++ m⟩

/-- `ScanError`. -/
inductive ScanError where
  | moved
  | rpc (e : RpcError)
deriving DecidableEq

/-- A transaction as the node hands it out. -/
structure NodeTx where
  txid : String
  bytes : Bytes
deriving DecidableEq

/-- A raw block, split, with the size of the Sapling tree after it. -/
structure Block where
  hash : String
  prev : String
  time : Int
  txs : List NodeTx
  saplingSize : Option Nat
deriving DecidableEq

/-- What one sync sees of the node: its active chain from the genesis block on, its mempool, and
which of the wallet's own transactions it would take back. -/
structure Node where
  chain : List Block
  mempool : List NodeTx
  accepts : String → Bool

namespace Node

variable (node : Node)

/-- `getblockcount`. -/
def blockCount : Nat := node.chain.length - 1

/-- `getbestblockhash`. -/
def bestHash : Except NodeError String :=
  match node.chain.getLast? with
  | some b => .ok b.hash
  | none => .error (.other "expected a string, got null")

/-- `getblockhash`. -/
def blockHash (height : Nat) : Except NodeError String :=
  match node.chain[height]? with
  | some b => .ok b.hash
  | none => .error (.rpc (-8) "Block height out of range")

/-- `getblock <hash> 0`. -/
def rawBlock (hash : String) : Except NodeError Block :=
  match node.chain.find? fun b ↦ b.hash = hash with
  | some b => .ok b
  | none => .error (.rpc (-5) "Block not found")

end Node

/-- The node calls of one sync, by where they are made: the attempt, and the height or the
transaction they are about. -/
inductive Call where
  | chainInfo (attempt : Option Nat)
  | bestHash (attempt : Nat)
  | forkHash (attempt height : Nat)
  | blockCount (attempt : Nat)
  | blockHash (attempt height : Nat)
  | rawBlock (attempt height : Nat)
  | blockInfo (attempt height : Nat)
  | mempool (attempt : Nat)
  | rawTx (attempt : Nat) (txid : String)

/-- Which calls of one sync fail, and how: node calls, the signer's key requests while a block or
the mempool is read, and its `JoinsSeen` request. -/
structure Faults where
  node : Call → Option NodeError
  blockKeys : (attempt height index : Nat) → Option String
  joins : (attempt height : Nat) → Option RpcError
  mempoolKeys : Nat → String → Option String

/-- No call fails. -/
def Faults.quiet : Faults := ⟨fun _ ↦ none, fun _ _ _ ↦ none, fun _ _ ↦ none, fun _ _ ↦ none⟩

/-- The node's answer to a call, unless the call fails. -/
def Faults.ask {α : Type} (F : Faults) (c : Call) (answer : Except NodeError α) :
    Except NodeError α :=
  match F.node c with
  | some e => .error e
  | none => answer

variable (env : Env) (F : Faults) (node : Node) (now : Int) (attempt : Nat)

/-! ## A block -/

/-- The imported keys a `SET_JOIN` act of the transaction names as its member key. -/
def importedJoins (book : KeyBook) (tx : Transaction) : List String :=
  tx.vout.filterMap fun o ↦
    if !SetAct.isActOutput o.scriptPubkey then none
    else match SetAct.decode o.scriptPubkey with
      | .ok ⟨.join _ memberKey _ _, _⟩ =>
        let h := env.C.hash160 memberKey.toList
        if (book.byHash h).any fun k ↦ k.chain = imported then some (Hex.encode h.toList) else none
      | _ => none

/-- What `process_block` has gathered: the transactions with notes and the Sapling outputs before
each, the Sapling outputs so far, and the joins of imported keys. -/
structure Gathered where
  admitted : List (String × Nat)
  outputsBefore : Nat
  joined : List String

/-- `admit`, as a step of a procedure. -/
def admitTx {ε : Type} (t : NodeTx) (block : Option BlockRef) (p : Parsed) :
    Proc Wallet ε Bool := fun w ↦
  let (moved, w') := w.admitRow now t.txid t.bytes block p
  (.ok moved, w')

/-- The key pool follows when a key of the lookahead was used. -/
def followKeys {ε : Type} (f : RpcError → ε) (fault : Option String) (moved : Bool) :
    Proc Wallet ε Unit :=
  when moved ((refreshKeys env fault).mapErr fun e ↦ f ⟨-4, e⟩)

/-- A transaction of a block is taken up. -/
def takeUp (height : Nat) (b : Block) (t : NodeTx × Nat) (p : Parsed) :
    Proc Wallet ScanError Unit := do
  let moved ← admitTx now t.1 (some ⟨height, b.hash, t.2, b.time, none⟩) p
  modify fun w ↦ w.rebuild env
  followKeys env .rpc (F.blockKeys attempt height t.2) moved

/-- What one more transaction adds. -/
def Gathered.add (g : Gathered) (w : Wallet) (t : NodeTx) (p : Parsed) : Gathered where
  admitted := if w.wants t.txid p && !p.received.isEmpty
    then g.admitted ++ [(t.txid, g.outputsBefore)] else g.admitted
  outputsBefore := g.outputsBefore + p.saplingOutputs
  joined := g.joined ++ importedJoins env w.book p.tx

/-- One transaction of a block. -/
def processTx (height : Nat) (b : Block) (g : Gathered) (t : NodeTx × Nat) :
    Proc Wallet ScanError Gathered := do
  let w ← get
  let p ← lift ((parseTx env w.book t.1.bytes).mapError fun e ↦
    ScanError.rpc ⟨-1, "yewd: " ++ t.1.txid ++ ": " ++ e⟩)
  when (w.wants t.1.txid p) (takeUp env F now attempt height b t p)
  return g.add env w t.1 p

/-- The transactions of a block, in order. -/
def processTxs (height : Nat) (b : Block) : Gathered → List (NodeTx × Nat) →
    Proc Wallet ScanError Gathered
  | g, [] => pure g
  | g, t :: ts => do
    let g ← processTx env F now attempt height b g t
    processTxs height b g ts

/-- The place of a transaction's first Sapling output, written into its row. -/
def setPosition (start : Nat) (w : Wallet) (e : String × Nat) : Wallet :=
  match w.wtx.get? e.1 with
  | none => w
  | some t =>
    let block := t.block.map fun b ↦ { b with saplingPos := some (start + e.2) }
    { w with wtx := w.wtx.insert e.1 { t with block } }

/-- The positions of the block's notes: the size of the tree after the block, less the block's
outputs. -/
def placeNotes (height : Nat) (b : Block) (g : Gathered) : Proc Wallet ScanError Unit :=
  when (!g.admitted.isEmpty) (do
    let info ← lift ((F.ask (.blockInfo attempt height) (.ok b.saplingSize)).mapError fun e ↦
      ScanError.rpc (.ofNode e))
    match info with
    | none =>
      throw (.rpc ⟨-1, "yewd: getblock " ++ b.hash ++ ": no trees.sapling.size"⟩)
    | some sizeAfter =>
      modify fun w ↦
        (g.admitted.foldl (setPosition (sizeAfter - g.outputsBefore)) w).rebuild env)

/-- The signer is told of imported keys that joined a set. -/
def reportJoins (height : Nat) (g : Gathered) : Proc Wallet ScanError Unit :=
  if g.joined.isEmpty then pure ()
  else match F.joins attempt height with
    | some e => throw (.rpc e)
    | none => pure ()

/-- `process_block`. -/
def processBlock (height : Nat) (b : Block) : Proc Wallet ScanError Unit := do
  let g ← processTxs env F now attempt height b ⟨[], 0, []⟩ b.txs.zipIdx
  placeNotes env F attempt height b g
  reportJoins F attempt height g

/-! ## The chain -/

/-- The block becomes the tip, and the window of recent blocks keeps its size. -/
def Wallet.advance (t : Tip) (w : Wallet) : Wallet :=
  let recent := w.recent ++ [t]
  { w with recent := recent.drop (recent.length - recentCount), tip := some t }

/-- One block of the scan. -/
def scanBlock (height : Nat) : Proc Wallet ScanError Unit := do
  let hash ← lift ((F.ask (.blockHash attempt height) (node.blockHash height)).mapError fun e ↦
    ScanError.rpc (.ofNode e))
  let b ← lift ((F.ask (.rawBlock attempt height) (node.rawBlock hash)).mapError fun e ↦
    ScanError.rpc (.ofNode e))
  let w ← get
  if w.tip.any fun p ↦ b.prev ≠ p.hash then throw .moved
  else
    processBlock env F now attempt height b
    modify (Wallet.advance ⟨height, b.hash⟩)

/-- The blocks of a list of heights. -/
def scanBlocks : List Nat → Proc Wallet ScanError Unit
  | [] => pure ()
  | h :: hs => do
    scanBlock env F node now attempt h
    scanBlocks hs

/-- `scan_from`. -/
def scanFrom (start : Nat) : Proc Wallet ScanError Unit := do
  let count ← lift ((F.ask (.blockCount attempt) (.ok node.blockCount)).mapError fun e ↦
    ScanError.rpc (.ofNode e))
  scanBlocks env F node now attempt (List.range' start (count + 1 - start))

/-! ## The mempool -/

/-- The wallet's own unconfirmed transactions, offered to the node again when the wallet has just
been opened, as far as the node takes them back. -/
def reaccepted (w : Wallet) : List NodeTx :=
  if w.reacceptPending then
    (w.wtx.entries.filter fun e ↦ e.2.block.isNone &&
      !(node.mempool.map NodeTx.txid).contains e.1 &&
      ((w.parsed.get? e.1).any fun p ↦ !p.coinbase) && node.accepts e.1).map fun e ↦
        ⟨e.1, e.2.hex⟩
  else []

/-- The mempool transactions to look at: not seen before and not in a block. -/
def readFresh (w : Wallet) (known : List NodeTx) : List String → Except RpcError (List NodeTx)
  | [] => .ok []
  | txid :: ids =>
    if w.mempoolSeen.contains txid || (w.blockOf txid).isSome then readFresh w known ids
    else match F.ask (.rawTx attempt txid) (match known.find? fun t ↦ t.txid = txid with
        | some t => .ok t
        | none => .error (.rpc (-5) "No such mempool transaction")) with
      | .ok t => do
        let ts ← readFresh w known ids
        return t :: ts
      | .error (.rpc (-5) _) => readFresh w known ids
      | .error e => .error (.ofNode e)

/-- One pass over the transactions that were not taken yet: whether one was taken now, and the
rest. -/
def admitPass : List NodeTx → Proc Wallet RpcError (Bool × List NodeTx)
  | [] => pure (false, [])
  | t :: ts => do
    let w ← get
    let p ← lift ((parseTx env w.book t.bytes).mapError fun e ↦
      (⟨-1, "yewd: " ++ t.txid ++ ": " ++ e⟩ : RpcError))
    if w.wants t.txid p then do
      let moved ← admitTx now t none p
      followKeys env id (F.mempoolKeys attempt t.txid) moved
      modify fun w ↦ w.rebuild env
      let r ← admitPass ts
      return (true, r.2)
    else do
      let r ← admitPass ts
      return (r.1, t :: r.2)

/-- Passes until one takes nothing.  Each pass before the last leaves fewer transactions, so
their number bounds the passes. -/
def admitAll : Nat → List NodeTx → Proc Wallet RpcError Bool
  | 0, _ => pure false
  | n + 1, fresh => do
    let r ← admitPass env F now attempt fresh
    if !r.1 || r.2.isEmpty then pure r.1
    else do
      let _ ← admitAll n r.2
      return true

/-- A transaction that left the mempool unmined. -/
def forget (w : Wallet) (txid : String) : Wallet :=
  let expired :=
    if (w.parsed.get? txid).any fun p ↦ p.tx.expiryHeight ≠ 0 && (findPayload p.tx).isSome then
      match w.wtx.get? txid with
      | some t => w.expired.insert txid t.hex
      | none => w.expired
    else w.expired
  let evicted :=
    match w.wtx.get? txid with
    | some t => w.evicted.insert txid t
    | none => w.evicted
  { w with expired, evicted, wtx := w.wtx.erase txid, parsed := w.parsed.erase txid }

/-- The rows without a block that the mempool does not hold. -/
def Wallet.gone (w : Wallet) (ids : List String) : List String :=
  (w.wtx.entries.filter fun e ↦ e.2.block.isNone && !ids.contains e.1).map Prod.fst

/-- `sync_mempool`: tells whether anything changed. -/
def syncMempool : Proc Wallet RpcError Bool := do
  let txs ← lift ((F.ask (.mempool attempt) (.ok node.mempool)).mapError RpcError.ofNode)
  let w ← get
  let known := txs ++ reaccepted node w
  let ids := (OrdMap.ofList (known.map fun t ↦ (t.txid, ()))).keys
  modify fun w ↦ { w with reacceptPending := false }
  let fresh ← lift (readFresh F attempt w known ids)
  let admitted ← admitAll env F now attempt (fresh.length + 1) fresh
  let w ← get
  let gone := w.gone ids
  modify fun w ↦ gone.foldl forget { w with
    mempoolSeen := (w.mempoolSeen ++ fresh.map NodeTx.txid).filter fun t ↦ ids.contains t }
  when (admitted || !gone.isEmpty) (modify fun w ↦ w.rebuild env)
  return admitted || !gone.isEmpty

/-! ## A sync -/

/-- The highest recent block that is still on the node's chain. -/
def forkPoint : List Tip → Except RpcError (Option Nat)
  | [] => .ok none
  | t :: ts =>
    match F.ask (.forkHash attempt t.height) (node.blockHash t.height) with
    | .ok h => if h = t.hash then .ok (some t.height) else forkPoint ts
    | .error (.rpc _ _) => forkPoint ts
    | .error e => .error (.ofNode e)

/-- The wallet rewound to the fork, and the height to resume at. -/
def Wallet.resume (w : Wallet) (fork : Option Nat) : Wallet × Nat :=
  match fork, w.tip with
  | some f, some t => if f = t.height then (w, f + 1) else (w.rewind (some f), f + 1)
  | some f, none => (w.rewind (some f), f + 1)
  | none, none => (w, max w.birthday 1)
  | none, some _ => (w.rewind none, max w.birthday 1)

/-- The scan, which starts over when the chain moved under it. -/
def scanOrMoved (start : Nat) : Proc Wallet RpcError Bool := fun w ↦
  match scanFrom env F node now attempt start w with
  | (.ok (), w') => (.ok true, w')
  | (.error .moved, w') => (.ok false, w')
  | (.error (.rpc e), w') => (.error e, w')

/-- Whether the tip is the block of a hash. -/
def Wallet.atHash (w : Wallet) (hash : String) : Bool := w.tip.any fun t ↦ t.hash = hash

/-- The wallet is at the node's best block: only the mempool is read. -/
def syncAtTip (changed : Bool) : Proc Wallet RpcError (Option Bool) := do
  let c ← syncMempool env F node now attempt
  return some (changed || c)

/-- The wallet is not at the node's best block. -/
def syncChain (best : String) : Proc Wallet RpcError (Option Bool) := do
  lift ((F.ask (.chainInfo (some attempt)) (.ok ())).mapError RpcError.ofNode)
  let w ← get
  let fork ← lift (forkPoint F node attempt w.recent.reverse)
  modify fun w ↦ (w.resume fork).1
  let done ← scanOrMoved env F node now attempt (w.resume fork).2
  if done then
    let _ ← syncMempool env F node now attempt
    modify fun w ↦ w.rebuild env
    let w ← get
    return if w.atHash best then some true else none
  else return none

/-- One attempt: the answer of the sync, or none if it has to start over. -/
def syncAttempt (changed : Bool) : Proc Wallet RpcError (Option Bool) := do
  let best ← lift ((F.ask (.bestHash attempt) node.bestHash).mapError RpcError.ofNode)
  let w ← get
  if w.atHash best then syncAtTip env F node now attempt changed
  else syncChain env F node now attempt best

/-- The attempts of a list, until one answers. -/
def syncAttempts : List Nat → Bool → Proc Wallet RpcError Bool
  | [], changed => pure changed
  | a :: as, changed => do
    match ← syncAttempt env F node now a changed with
    | some answer => return answer
    | none => syncAttempts as true

/-- The chain facts are read once after the wallet opened. -/
def readChain : Proc Wallet RpcError Unit := do
  let w ← get
  if w.chainRead then pure ()
  else
    lift ((F.ask (.chainInfo none) (.ok ())).mapError RpcError.ofNode)
    modify fun w ↦ { w with chainRead := true }

/-- `sync`: tells whether anything changed. -/
def sync : Proc Wallet RpcError Bool := do
  readChain F
  syncAttempts env F node now [0, 1, 2, 3] false

end Yew.Daemon
