import Mathlib.Data.List.Sort
import Yew.Core.Payload
import Yew.Daemon.Keys
import Yew.Proto.Act

/-!
# The daemon's wallet

What the daemon persists of the chain is a window of recent blocks and the wallet's own
transactions, each with its bytes and its block.  Everything else, the coins and the notes, is
derived from these rows again by `rebuild`.

The maps are kept in key order, as the source's `BTreeMap`s are.

## Source

* `yewd/wallet/src/lib.rs`: `Parsed`, `Coin`, `NoteRow`, `Wallet`, `parse_tx`,
  `Wallet::refresh_keys`, `Wallet::mark_used`, `Wallet::relevant` and 5 more
* `yewd/wallet/src/state.rs`: `Tip`, `BlockRef`, `WalletTx`, `Issued`, `State`, `State::pq_issued`
* `yewd/wallet/src/sapling.rs`: `Received`, `Viewing`
* `yewd/wallet/src/admin.rs`: `Wallet::block_of`
-/

namespace Yew.Daemon

open Script Tx Pq Proto Proc Yellowback

/-! ## Rows -/

/-- `RECENT`: how many blocks the fork search remembers. -/
def recentCount : Nat := 288

/-- `Tip`. -/
structure Tip where
  height : Nat
  hash : String
deriving DecidableEq

/-- `BlockRef`: where a wallet transaction sits in the chain. -/
structure BlockRef where
  height : Nat
  hash : String
  index : Nat
  time : Int
  saplingPos : Option Nat
deriving DecidableEq

/-- `WalletTx`, with the bytes its `hex` spells.  It has no block while in the mempool. -/
structure WalletTx where
  hex : Bytes
  block : Option BlockRef
  timeReceived : Int
deriving DecidableEq

/-- `Received`: a Sapling output that decrypted to this account. -/
structure Received where
  outindex : Nat
  value : Nat
  address : String
  internal : Bool
  note : Bytes
deriving DecidableEq

/-- What the viewing key shows of a transaction's Sapling bundle. -/
structure Shielded where
  received : List Received
  nullifiers : List (Arr 32)
  outputs : Nat

/-- `Viewing`: the Sapling library under the account's viewing key. -/
structure Viewing where
  /-- `Transaction::read` of the Sapling library, with trial decryption of the bundle. -/
  shielded : Bytes → Except String Shielded
  /-- `Received::nullifier`: the nullifier of a note at its place in the commitment tree. -/
  nullifier : Received → Nat → Arr 32

/-- `Parsed`: a transaction as the wallet sees it. -/
structure Parsed where
  tx : Transaction
  size : Nat
  coinbase : Bool
  received : List Received
  nullifiers : List (Arr 32)
  ownedTemplates : List Nat
  saplingOutputs : Nat

/-- `Coin`. -/
structure Coin where
  txid : String
  vout : UInt32
  value : Int64
  script : Bytes
  owner : Owner
  height : Option Nat
  coinbase : Bool
  spent : Bool
deriving DecidableEq

/-- `NoteRow`. -/
structure NoteRow where
  txid : String
  outindex : Nat
  value : Nat
  address : String
  internal : Bool
  height : Option Nat
  nullifier : Option (Arr 32)
  spent : Bool
  note : Bytes
  position : Option Nat
deriving DecidableEq

/-- `Issued`: the next indices to hand out. -/
structure Issued where
  external : Nat
  internal : Nat
  pq : OrdMap Nat Nat

/-- `Wallet`, with the parts of its persisted `State` that syncing reads and writes. -/
structure Wallet where
  birthday : Nat
  issued : Issued
  bundle : PublicBundle
  tip : Option Tip
  recent : List Tip
  wtx : OrdMap String WalletTx
  expired : OrdMap String Bytes
  evicted : OrdMap String WalletTx
  book : KeyBook
  parsed : OrdMap String Parsed
  mempoolSeen : List String
  reacceptPending : Bool
  chainRead : Bool
  coins : List Coin
  notes : List NoteRow

/-- What the wallet is built over: the hash functions, the viewing key, CKDpub of the account's
key, and the signer's answer to a request for public keys. -/
structure Env where
  C : Crypto
  view : Viewing
  child : Nat → Nat → Except String (Arr 33)
  publicKeys : PublicRequest → PublicBundle

variable (env : Env)

/-! ## Reading a transaction -/

/-- A coinbase has one input, and it spends nothing. -/
def isCoinbase (tx : Transaction) : Bool :=
  match tx.vin with
  | [i] => i.prevout.txid = List.Vector.replicate 32 0 && i.prevout.n = 0xFFFFFFFF
  | _ => false

/-- The outputs that are templates a held post-quantum key owns. -/
def ownedTemplates (book : KeyBook) (tx : Transaction) : List Nat :=
  tx.vout.zipIdx.filterMap fun o ↦
    if (book.ownsTemplate o.1.scriptPubkey).isSome then some o.2 else none

/-- `parse_tx`. -/
def parseTx (book : KeyBook) (bytes : Bytes) : Except String Parsed := do
  let (tx, _) ← (Transaction.parse env.C bytes).mapError TxError.text
  let z ← env.view.shielded bytes
  return {
    tx
    size := bytes.length
    coinbase := isCoinbase tx
    received := z.received
    nullifiers := z.nullifiers
    ownedTemplates := ownedTemplates book tx
    saplingOutputs := z.outputs }

/-! ## Derived rows -/

/-- An input's outpoint, with the txid as it is displayed. -/
def TxIn.spends (i : TxIn) : String × UInt32 := (txidHex i.prevout.txid, i.prevout.n)

/-- The coins of one transaction. -/
def coinsOf (book : KeyBook) (spent : String × UInt32 → Bool) (txid : String) (p : Parsed)
    (height : Option Nat) : List Coin :=
  p.tx.vout.zipIdx.filterMap fun o ↦
    (book.ownsScript o.1.scriptPubkey).map fun owner ↦ {
      txid
      vout := UInt32.ofNat o.2
      value := o.1.value
      script := o.1.scriptPubkey
      owner
      height
      coinbase := p.coinbase
      spent := spent (txid, UInt32.ofNat o.2) }

/-- The notes of one transaction. -/
def notesOf (view : Viewing) (spent : Arr 32 → Bool) (txid : String) (p : Parsed)
    (block : Option BlockRef) : List NoteRow :=
  p.received.map fun r ↦
    let position := (block.bind fun b ↦ b.saplingPos).map fun p₀ ↦ p₀ + r.outindex
    let nullifier := position.map fun pos ↦ view.nullifier r pos
    { txid
      outindex := r.outindex
      value := r.value
      address := r.address
      internal := r.internal
      height := block.map fun b ↦ b.height
      nullifier
      spent := nullifier.any spent
      note := r.note
      position }

/-- Coins by height, unconfirmed ones last, then by txid and output. -/
def Coin.before (a b : Coin) : Prop :=
  toLex (a.height.getD 0xFFFFFFFF, toLex (a.txid, a.vout.toNat)) ≤
    toLex (b.height.getD 0xFFFFFFFF, toLex (b.txid, b.vout.toNat))

instance (a b : Coin) : Decidable (a.before b) := inferInstanceAs (Decidable (_ ≤ _))

namespace Wallet

variable (w : Wallet)

/-- The block of a wallet transaction. -/
def blockOf (txid : String) : Option BlockRef := (w.wtx.get? txid).bind fun t ↦ t.block

instance instLawfulBEqSpends : LawfulBEq (String × UInt32) := inferInstance

/-- The outpoints the wallet's transactions spend. -/
def spentOutpoints : List (String × UInt32) :=
  w.parsed.entries.flatMap fun e ↦ e.2.tx.vin.map TxIn.spends

/-- The nullifiers the wallet's transactions reveal. -/
def spentNullifiers : List (Arr 32) := w.parsed.entries.flatMap fun e ↦ e.2.nullifiers

/-- The coins of the wallet's transactions, in their order. -/
def allCoins : List Coin :=
  (w.parsed.entries.flatMap fun e ↦
    coinsOf w.book (fun o ↦ o ∈ w.spentOutpoints) e.1 e.2
      ((w.blockOf e.1).map fun b ↦ b.height)).insertionSort Coin.before

/-- The notes of the wallet's transactions. -/
def allNotes : List NoteRow :=
  w.parsed.entries.flatMap fun e ↦
    notesOf env.view (fun n ↦ n ∈ w.spentNullifiers) e.1 e.2 (w.blockOf e.1)

/-- `rebuild`. -/
def rebuild : Wallet := { w with coins := w.allCoins, notes := w.allNotes env }

/-! ## Whose transaction it is -/

/-- `own_sets`: the outpoints of the coins. -/
def ownOutpoints : List (String × UInt32) := w.coins.map fun c ↦ (c.txid, c.vout)

/-- `own_sets`: the nullifiers of the notes. -/
def ownNullifiers : List (Arr 32) := w.notes.filterMap fun n ↦ n.nullifier

/-- The first input spends an output of a wallet transaction that carries a payload. -/
def spendsPayload (p : Parsed) : Bool :=
  match p.tx.vin with
  | [] => false
  | i :: _ =>
    match w.parsed.get? (txidHex i.prevout.txid) with
    | none => false
    | some c => (findPayload c.tx).isSome

/-- `relevant`. -/
def relevant (p : Parsed) : Bool :=
  p.tx.vout.any (fun o ↦ (w.book.ownsScript o.scriptPubkey).isSome)
    || p.tx.vin.any (fun i ↦ TxIn.spends i ∈ w.ownOutpoints)
    || !p.received.isEmpty
    || p.nullifiers.any (fun n ↦ n ∈ w.ownNullifiers)
    || !p.ownedTemplates.isEmpty
    || w.spendsPayload p

/-- A block's or the mempool's transaction is taken up if it is known or relevant. -/
def wants (txid : String) (p : Parsed) : Bool := (w.wtx.get? txid).isSome || w.relevant p

/-! ## Keys in use -/

/-- `pq_issued`. -/
def pqIssued (scheme : UInt8) : Nat := (w.issued.pq.get? scheme.toNat).getD 0

/-- `mark_used`: the hand-outs move past the key. -/
def markUsed : Owner → Bool × Wallet
  | .t chain i =>
    if chain = external ∧ w.issued.external ≤ i then
      (true, { w with issued := { w.issued with external := i + 1 } })
    else if chain = internal ∧ w.issued.internal ≤ i then
      (true, { w with issued := { w.issued with internal := i + 1 } })
    else (false, w)
  | .pq s i =>
    if w.pqIssued s ≤ i ∧ i < importedPqBase.toNat then
      (true, { w with issued := { w.issued with pq := w.issued.pq.insert s.toNat (i + 1) } })
    else (false, w)

/-- Every key of a list, used. -/
def markAll : List Owner → Wallet → Bool × Wallet
  | [], w => (false, w)
  | o :: os, w =>
    let (moved, w) := w.markUsed o
    let (moved', w) := markAll os w
    (moved || moved', w)

/-- The keys a transaction uses: those it pays, and those that own its templates. -/
def keysUsed (p : Parsed) : List Owner :=
  p.tx.vout.filterMap (fun o ↦ w.book.ownsScript o.scriptPubkey) ++
    p.ownedTemplates.filterMap fun i ↦
      (p.tx.vout[i]?.bind fun o ↦ w.book.ownsTemplate o.scriptPubkey).map fun k ↦
        .pq k.scheme k.index

/-- `admit`: the row of a relevant transaction is written.  Tells whether the key pool moved. -/
def admitRow (now : Int) (txid : String) (hex : Bytes) (block : Option BlockRef) (p : Parsed) :
    Bool × Wallet :=
  let (moved, w') := markAll (w.keysUsed p) w
  let timeReceived := ((w'.wtx.get? txid).map fun t ↦ t.timeReceived).getD
    ((block.map fun b ↦ b.time).getD now)
  (moved, { w' with
    evicted := w'.evicted.erase txid
    wtx := w'.wtx.insert txid ⟨hex, block, timeReceived⟩
    parsed := w'.parsed.insert txid p })

/-- The ranges of post-quantum keys the wallet does not hold yet. -/
def pqWanted : List (UInt8 × UInt32 × UInt32) :=
  [schemeSlhDsa, schemeFnDsa].filterMap fun scheme ↦
    let have_ := w.bundle.pq.countP fun p ↦ p.scheme = scheme && p.index < importedPqBase.toNat
    let issued := w.pqIssued scheme
    -- a state written by an earlier version may count an imported key
    let issued := if importedPqBase.toNat < issued then have_ - pqLookahead else issued
    let want := issued + pqLookahead
    if have_ < want then some (scheme, UInt32.ofNat have_, UInt32.ofNat (want - have_)) else none

end Wallet

/-! ## The key pool -/

/-- The book, changed by a fallible step that keeps what it did before it failed. -/
def onBook (f : KeyBook → Except String Unit × KeyBook) : Proc Wallet String Unit := fun w ↦
  let (r, b) := f w.book
  (r, { w with book := b })

/-- The signer's post-quantum keys, if any are missing. -/
def topUp (fault : Option String) : Proc Wallet String Unit := do
  let w ← get
  if w.pqWanted.isEmpty then pure ()
  else match fault with
    | some e => throw e
    | none =>
      let b := env.publicKeys ⟨w.pqWanted⟩
      if b.seedFp ≠ w.bundle.seedFp then
        throw "the signer holds another seed than this wallet's"
      else modify fun w ↦ { w with bundle := { w.bundle with pq := w.bundle.pq ++ b.pq } }

/-- The post-quantum keys of the bundle that the book has not. -/
def addPqKeys : List PqPublic → KeyBook → Except String Unit × KeyBook
  | [], b => (.ok (), b)
  | p :: ps, b =>
    match b.pqKey p.scheme p.index with
    | some _ => addPqKeys ps b
    | none =>
      match b.addPq env.C p with
      | .error e => (.error e, b)
      | .ok b => addPqKeys ps b

/-- The imported keys of the bundle, from the store's position `i` on. -/
def addImportedKeys : Nat → List String → KeyBook → Except String Unit × KeyBook
  | _, [], b => (.ok (), b)
  | i, pk :: pks, b =>
    match (Hex.decode pk).bind (Bytes.toArr? 33) with
    | none => (.error "an imported public key is not 33 bytes", b)
    | some pk => addImportedKeys (i + 1) pks (b.addImported env.C i pk)

/-- `refresh_keys`: keys up to the lookahead past the last one in use. -/
def refreshKeys (fault : Option String) : Proc Wallet String Unit := do
  let w ← get
  onBook (KeyBook.extend env.C env.child external (w.issued.external + lookahead))
  onBook (KeyBook.extend env.C env.child internal (w.issued.internal + lookahead))
  topUp env fault
  let w ← get
  onBook (addPqKeys env w.bundle.pq)
  onBook (addImportedKeys env 0 w.bundle.imported)

/-! ## Rewinding -/

/-- A block above the fork; every block is above no fork. -/
def aboveFork (fork : Option Nat) (b : BlockRef) : Bool :=
  match fork with
  | none => true
  | some f => f < b.height

/-- `rewind`: rows above the fork lose their block, coinbases among them are dropped. -/
def Wallet.rewind (fork : Option Nat) (w : Wallet) : Wallet :=
  let dropped (txid : String) : Bool :=
    (w.blockOf txid).any (aboveFork fork) && (w.parsed.get? txid).any fun p ↦ p.coinbase
  let recent := w.recent.filter fun t ↦ fork.any fun f ↦ t.height ≤ f
  { w with
    wtx := (w.wtx.filter fun t ↦ !dropped t).map fun t ↦
      { t with block := t.block.filter fun b ↦ !aboveFork fork b }
    parsed := w.parsed.filter fun t ↦ !dropped t
    recent
    tip := recent.getLast?
    mempoolSeen := [] }

end Yew.Daemon
