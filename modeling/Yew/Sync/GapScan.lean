import Mathlib.Data.List.Sort
import Yew.Build.Record
import Yew.Core.Address
import Yew.Sync.RecordTx

/-!
# The gap scan

A restored wallet knows its seed and nothing else.  It derives twenty addresses of each chain, asks
the server for the transactions of each, and derives more whenever one turns out used.  Every HD key
has a Falcon holder and every external key a vault owner, so what is found at those marks the same
row.

The server is a function from an address to what it lists, and it may list what it likes.

## Source

* `core/src/store.rs`: `AddressRow`, `AddressRow::hd_chain`, `Store::insert_address`,
  `Store::addresses`, `Store::max_index`, `Store::max_used_index`, `Store::mark_used`,
  `Store::first_unused`
* `core/src/wallet.rs`: `falcon_holder_index`, `Wallet::ensure_gap`, `Wallet::addresses`,
  `Wallet::own_pq_owners`, `Wallet::falcon_holder_id`, `Wallet::own_falcon_holders`
* `core/src/sync.rs`: `own_pq_keys`, `pq_refused`
-/

namespace Yew.Sync

open Script Tx Pq Keys Store Build Addresses

/-- `GAP_LIMIT`. -/
def gapLimit : Nat := 20

/-! ## The addresses -/

-- A row is known by its key hash, a transaction by its txid.
instance instLawfulBEqArr20 : LawfulBEq (Arr 20) := inferInstance

instance instLawfulBEqArr32 : LawfulBEq (Arr 32) := inferInstance

/-- `Chain`. -/
inductive Chain where
  | external
  | change
deriving DecidableEq

namespace Chain

/-- `Chain::number`. -/
def number : Chain → Nat
  | .external => 0
  | .change => 1

/-- `Chain::from_number`. -/
def fromNumber : Nat → Option Chain
  | 0 => some .external
  | 1 => some .change
  | _ => none

@[simp] theorem fromNumber_number (c : Chain) : fromNumber c.number = some c := by cases c <;> rfl

end Chain

/-- `AddressRow`; both of its addresses are forms of the key hash. -/
structure AddressRow where
  chain : Nat
  index : Nat
  hash160 : Arr 20
  used : Bool
deriving DecidableEq

/-- `AddressRow::hd_chain`. -/
def AddressRow.hdChain (r : AddressRow) : Option Chain := Chain.fromNumber r.chain

/-- `insert_address`: ignored if the hash is present. -/
def insertAddress (row : AddressRow) (rows : List AddressRow) : List AddressRow :=
  if row.hash160 ∈ rows.map AddressRow.hash160 then rows else rows ++ [row]

/-- `Store::addresses`: by chain, then by index. -/
def addresses (rows : List AddressRow) : List AddressRow :=
  rows.insertionSort fun a b ↦ a.chain < b.chain ∨ a.chain = b.chain ∧ a.index ≤ b.index

/-- `max_index`. -/
def maxIndex (c : Chain) (rows : List AddressRow) : Option Nat :=
  ((rows.filter fun r ↦ r.chain = c.number).map AddressRow.index).max?

/-- `max_used_index`. -/
def maxUsedIndex (c : Chain) (rows : List AddressRow) : Option Nat :=
  maxIndex c (rows.filter AddressRow.used)

/-- `mark_used`, on the rows. -/
def markUsed (h : Arr 20) (rows : List AddressRow) : List AddressRow :=
  rows.map fun r ↦ if r.hash160 = h then { r with used := true } else r

/-- A mark is new if a row of the hash does not have it. -/
def newlyUsed (h : Arr 20) (rows : List AddressRow) : Bool :=
  rows.any fun r ↦ r.hash160 = h && !r.used

/-! ## The keys -/

/-- What the seed derives: key hashes, and the ids of the post-quantum keys. -/
structure Seed where
  key : Chain → Nat → Option (Arr 20)
  ownerId : Nat → PqKeyId
  falconId : Nat → PqKeyId

/-- `falcon_holder_index`. -/
def falconHolderIndex (c : Chain) (index : Nat) : Option Nat :=
  if 2 ^ 31 ≤ index then none
  else match c with
    | .external => some index
    | .change => some (2 ^ 31 + index)

/-- The errors of a scan. -/
inductive ScanError where
  | key
  | net (e : NetError)
  | tx (e : TxError)

namespace Seed

variable (K : Seed)

/-- `falcon_holder_id`. -/
def falconHolderId (r : AddressRow) : Option PqKeyId := do
  let c ← r.hdChain
  let index ← falconHolderIndex c r.index
  return K.falconId index

/-- `own_falcon_holders`.  Of two pairs with one id the later counts. -/
def ownFalconHolders (rows : List AddressRow) : List (PqKeyId × AddressRow) :=
  ((addresses rows).filterMap fun r ↦ (K.falconHolderId r).map fun id ↦ (id, r)).reverse

/-- `own_pq_owners`. -/
def ownPqOwners (rows : List AddressRow) : List (PqKeyId × Arr 20) :=
  (((addresses rows).filter fun r ↦ r.hdChain = some .external).map fun r ↦
    (K.ownerId r.index, r.hash160)).reverse

/-- `own_pq_keys`: the owners go over the holders. -/
def ownPqKeys (falcon : List (PqKeyId × AddressRow)) (owners : Bool) (rows : List AddressRow) :
    List (PqKeyId × Arr 20) :=
  (if owners then K.ownPqOwners rows else []) ++ falcon.map fun e ↦ (e.1, e.2.hash160)

/-- The highest index a chain is to have. -/
def wantMax (c : Chain) (rows : List AddressRow) : Nat :=
  match maxUsedIndex c rows with
  | some u => u + gapLimit
  | none => gapLimit - 1

/-- The first index a chain does not have. -/
def firstNew (c : Chain) (rows : List AddressRow) : Nat :=
  match maxIndex c rows with
  | some m => m + 1
  | none => 0

/-- One address of `ensure_gap`. -/
def deriveRow (c : Chain) (x : List AddressRow × List AddressRow) (index : Nat) :
    Except ScanError (List AddressRow × List AddressRow) :=
  match K.key c index with
  | none => .error .key
  | some hash =>
    let row : AddressRow := ⟨c.number, index, hash, false⟩
    .ok (insertAddress row x.1, x.2 ++ [row])

/-- `ensure_gap` on one chain. -/
def extendChain (c : Chain) (x : List AddressRow × List AddressRow) :
    Except ScanError (List AddressRow × List AddressRow) :=
  (List.range' (firstNew c x.1) (wantMax c x.1 + 1 - firstNew c x.1)).foldlM (K.deriveRow c) x

/-- `ensure_gap`: the rows, and those that were newly created. -/
def ensureGap (rows : List AddressRow) : Except ScanError (List AddressRow × List AddressRow) :=
  K.extendChain .external (rows, []) >>= K.extendChain .change

end Seed

/-! ## The server -/

/-- `Token`. -/
structure Token where
  outpoint : OutPoint
  cents : Nat
  valueZat : Int
  height : Int
  address : String
  transparentAddress : String
deriving DecidableEq

/-- A server, which answers from one chain: what it can list is finite. -/
structure Server where
  raws : List (Bytes × Nat)
  tokens : List Token
  /-- `taddress_txs`. -/
  taddressTxs : String → Nat → Nat → Except NetError (List (Bytes × Nat))
  /-- `address_tokens`, from height 0. -/
  addressTokens : List String → Except NetError (List Token)
  mem_raws : ∀ {a start stop l}, taddressTxs a start stop = .ok l → ∀ raw ∈ l, raw ∈ raws
  mem_tokens : ∀ {as l}, addressTokens as = .ok l → ∀ t ∈ l, t ∈ tokens

/-- `pq_refused`. -/
def pqRefused : NetError → Bool
  | .status code _ => code = .invalidArgument
  | _ => false

/-! ## The scan -/

/-- A wallet on a network with a server at a tip. -/
structure Scanner where
  crypto : Crypto
  network : Network
  seed : Seed
  server : Server
  tip : Nat
  birthday : Nat
  /-- The server announces a Falcon height. -/
  falconOn : Bool
  /-- The server offers Yellowback. -/
  vaultsOn : Bool

/-- What a scan has so far, with its counts. -/
structure Scan where
  rows : List AddressRow
  tables : Tables
  seen : List (Arr 32)
  falconTokens : OrdMap OutPoint Token
  pqIndexed : Bool
  /-- `any_new_use`, of one pass. -/
  newUse : Bool
  addresses : Nat
  pqAddresses : Nat
  transactions : Nat

/-- The keys with their marks, and whether one is new. -/
def Scan.mark (s : Scan) (h : Arr 20) : Scan :=
  { s with rows := markUsed h s.rows, newUse := s.newUse || newlyUsed h s.rows }

namespace Scanner

variable (W : Scanner)

/-- The `s…` form of a row. -/
def addressS (r : AddressRow) : String := encodeP2pkh W.crypto W.network r.hash160

/-- The holders of one pass. -/
def falconOf (rows : List AddressRow) : List (PqKeyId × AddressRow) :=
  if W.falconOn then W.seed.ownFalconHolders rows else []

/-- What is ours in one pass. -/
def own (rows : List AddressRow) : Own where
  hashes := (addresses rows).map AddressRow.hash160
  pq := W.seed.ownPqKeys (W.falconOf rows) W.vaultsOn rows

/-- A token of a Falcon holder. -/
def noteToken (falcon : List (PqKeyId × AddressRow)) (s : Scan) (t : Token) : Scan :=
  match parsePqAddress W.crypto W.network t.address with
  | .error _ => s
  | .ok id =>
    let s := match falcon.lookup id with
      | some row => s.mark row.hash160
      | none => s
    { s with falconTokens := s.falconTokens.insert t.outpoint t }

/-- The entries of a map of pairs. -/
def entriesOf {κ ν : Type} [DecidableEq κ] [DecidableEq ν] (pairs : List (κ × ν)) : List (κ × ν) :=
  (pairs.filter fun e ↦ pairs.lookup e.1 = some e.2).dedup

/-- The tokens of the holders paired with the addresses of a pass. -/
def scanTokens (pending : List (String × Nat)) (falcon : List (PqKeyId × AddressRow)) (s : Scan) :
    Except ScanError Scan :=
  if W.falconOn then
    let asked := ((entriesOf falcon).filter fun e ↦ W.addressS e.2 ∈ pending.map Prod.fst).filterMap
      fun e ↦ encodePqYellowback W.crypto W.network e.1
    match W.server.addressTokens asked with
    | .error e => .error (.net e)
    | .ok tokens => .ok (tokens.foldl (W.noteToken falcon) s)
  else .ok s

/-- A transaction that the server lists, if it is the first time. -/
def record (own : Own) (s : Scan) (raw : Bytes × Nat) : Except ScanError Scan :=
  match Transaction.parse W.crypto raw.1 with
  | .error e => .error (.tx e)
  | .ok (tx, txid) =>
    if txid ∈ s.seen then .ok s
    else
      let s := (own.used W.crypto tx).foldl Scan.mark s
      .ok { s with
        seen := txid :: s.seen
        tables := recordTransaction own tx txid raw.2 s.tables
        transactions := s.transactions + 1 }

/-- The transactions of one address.  The server refuses a range that starts at 0. -/
def scanAddress (own : Own) (s : Scan) (p : String × Nat) : Except ScanError Scan :=
  let s := { s with addresses := s.addresses + 1 }
  if W.tip < max p.2 1 then .ok s
  else match W.server.taddressTxs p.1 (max p.2 1) W.tip with
    | .error e => .error (.net e)
    | .ok raws => raws.foldlM (W.record own) s

/-- The `sq…` forms paired with the addresses of a pass. -/
def pqPending (pending : List (String × Nat)) (own : Own) (s : Scan) : List (String × Nat) :=
  if s.pqIndexed then
    let byHash := (addresses s.rows).filterMap fun r ↦
      (pending.lookup (W.addressS r)).map fun start ↦ (r.hash160, start)
    ((entriesOf own.pq).filterMap fun e ↦ do
      let address ← encodePqYec W.crypto W.network e.1
      let start ← byHash.lookup e.2
      return (address, start)).insertionSort fun a b ↦ a.1 < b.1 ∨ a.1 = b.1 ∧ a.2 ≤ b.2
  else []

/-- The transactions of the post-quantum addresses, until the server refuses one. -/
def scanPq (own : Own) : List (String × Nat) → Scan → Except ScanError Scan
  | [], s => .ok s
  | p :: rest, s =>
    if W.tip < max p.2 1 then scanPq own rest s
    else
      let s := { s with pqAddresses := s.pqAddresses + 1 }
      match W.server.taddressTxs p.1 (max p.2 1) W.tip with
      | .error e => if pqRefused e then .ok { s with pqIndexed := false } else .error (.net e)
      | .ok raws => raws.foldlM (W.record own) s >>= scanPq own rest

/-- What a pass finds. -/
def look (pending : List (String × Nat)) (s : Scan) : Except ScanError Scan := do
  let own := W.own s.rows
  let s ← W.scanTokens pending (W.falconOf s.rows) { s with newUse := false }
  let pq := W.pqPending pending own s
  let s ← pending.foldlM (W.scanAddress own) s
  W.scanPq own pq s

/-- The gap after a pass, and the addresses of the next. -/
def extend (s : Scan) : Except ScanError (Scan × List (String × Nat)) :=
  if s.newUse then do
    let (rows, created) ← W.seed.ensureGap s.rows
    return ({ s with rows }, created.map fun r ↦ (W.addressS r, W.birthday))
  else .ok (s, [])

/-- The passes, at most as many as the fuel. -/
def passes : Nat → List (String × Nat) → Scan → Option (Except ScanError Scan)
  | _, [], s => some (.ok s)
  | 0, _ :: _, _ => none
  | fuel + 1, p :: ps, s =>
    match W.look (p :: ps) s >>= W.extend with
    | .error e => some (.error e)
    | .ok (s, pending) => passes fuel pending s

/-- Every address of the wallet, from one height. -/
def firstPending (start : Nat) (rows : List AddressRow) : List (String × Nat) :=
  (addresses rows).map fun r ↦ (W.addressS r, start)

end Scanner

/-- A scan that has seen nothing. -/
def Scan.start (rows : List AddressRow) (tables : Tables) : Scan :=
  ⟨rows, tables, [], .empty, true, false, 0, 0, 0⟩

/-- `REORG_WINDOW`. -/
def reorgWindow : Nat := 10

/-- The height that addresses known before are read from. -/
def windowFrom (scanned birthday : Nat) : Nat :=
  if scanned = 0 then birthday else max (scanned + 1 - reorgWindow) birthday

end Yew.Sync
