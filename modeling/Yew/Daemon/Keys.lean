import Yew.Core.Vault
import Yew.Proto.Types
import Yew.Store.Tables
import Yew.Util.Proc

/-!
# The daemon's keys

The daemon holds public keys only: children of the account's extended key on two chains, keys
imported into the signer, and the post-quantum keys the signer handed over.  The book decides
which scripts are the wallet's.

The node's and the signer's part, whether a key exists, is asked of `Crypto`.

## Source

* `yewd/wallet/src/keys.rs`: `TKey`, `PqOwn`, `KeyBook`, `KeyBook::extend`, `KeyBook::add_imported`,
  `KeyBook::key`, `KeyBook::by_hash`, `KeyBook::add_pq` and 4 more
* `yewd/wallet/src/json.rs`: `J::push`
-/

namespace Yew

namespace Pq

/-- Key ids by their bytes: the scheme, then the hash. -/
instance instLinearOrderPqKeyId : LinearOrder PqKeyId :=
  LinearOrder.lift' (fun id ↦ toLex (id.scheme.toNat, id.hash)) fun a b h ↦ by
    have h' : (a.scheme.toNat, a.hash) = (b.scheme.toNat, b.hash) := h
    rw [Prod.mk.injEq, UInt8.toNat_inj] at h'
    cases a
    cases b
    simp_all

end Pq

namespace Daemon

open Script Pq Proto

/-- `LOOKAHEAD`. -/
def lookahead : Nat := 100

/-- `PQ_LOOKAHEAD`. -/
def pqLookahead : Nat := 20

/-- `EXTERNAL`. -/
def external : Nat := 0

/-- `INTERNAL`. -/
def internal : Nat := 1

/-- `IMPORTED`. -/
def imported : Nat := importedChain.toNat

/-- `TKey`: one transparent key. -/
structure TKey where
  chain : Nat
  index : Nat
  pubkey : Arr 33
  hash : Arr 20
deriving DecidableEq

/-- `PqOwn`: one post-quantum key. -/
structure PqOwn where
  scheme : UInt8
  index : Nat
  pk : Bytes
  id : PqKeyId
deriving DecidableEq

/-- Which key a script pays. -/
inductive Owner where
  | t (chain index : Nat)
  | pq (scheme : UInt8) (index : Nat)
deriving DecidableEq

/-- `KeyBook`.  The source keeps positions in `tkeys` under the hashes; keys are only ever added,
so the key itself stands there. -/
structure KeyBook where
  tkeys : List TKey
  hashes : OrdMap (Arr 20) TKey
  pq : OrdMap PqKeyId PqOwn

namespace KeyBook

/-- The book with no key. -/
def empty : KeyBook := ⟨[], .empty, .empty⟩

/-- `key`. -/
def key (b : KeyBook) (chain index : Nat) : Option TKey :=
  b.tkeys.find? fun k ↦ k.chain = chain && k.index = index

/-- `by_hash`. -/
def byHash (b : KeyBook) (h : Arr 20) : Option TKey := b.hashes.get? h

/-- `pq_by_id`. -/
def pqById (b : KeyBook) (id : PqKeyId) : Option PqOwn := b.pq.get? id

/-- `pq_key`. -/
def pqKey (b : KeyBook) (scheme : UInt8) (index : Nat) : Option PqOwn :=
  (b.pq.entries.map Prod.snd).find? fun p ↦ p.scheme = scheme && p.index = index

/-- `owns_script`: P2PKH to a held key, or the post-quantum form to a held post-quantum key. -/
def ownsScript (b : KeyBook) (script : Bytes) : Option Owner :=
  match p2pkhHash script with
  | some h => (b.byHash h).map fun k ↦ .t k.chain k.index
  | none => do
    let id ← pqpkhOf script
    let p ← b.pqById id
    return .pq p.scheme p.index

/-- The post-quantum owner a vault or intent template names. -/
def templateOwner (script : Bytes) : Option PqKeyId :=
  ((Vault.parseVault script).map fun v ↦ v.owner).or
    ((Vault.parseIntent script).map fun p ↦ p.owner)

/-- The held post-quantum key that owns a template. -/
def ownsTemplate (b : KeyBook) (script : Bytes) : Option PqOwn :=
  (templateOwner script).bind b.pqById

/-- One more derived key. -/
def push (b : KeyBook) (k : TKey) : KeyBook :=
  { b with hashes := b.hashes.insert k.hash k, tkeys := b.tkeys ++ [k] }

/-- `extend`: the keys of `chain` from the first missing one up to `upto`.  A child that cannot
be derived stops it with the keys before it added. -/
def extend (C : Crypto) (child : Nat → Nat → Except String (Arr 33)) (chain upto : Nat)
    (b : KeyBook) : Except String Unit × KeyBook :=
  let have_ := b.tkeys.countP fun k ↦ k.chain = chain
  go (List.range' have_ (upto - have_)) b
where
  go : List Nat → KeyBook → Except String Unit × KeyBook
    | [], b => (.ok (), b)
    | i :: is, b =>
      match child chain i with
      | .error e => (.error e, b)
      | .ok pk => go is (b.push ⟨chain, i, pk, C.hash160 pk.toList⟩)

/-- `add_imported`: a key the seed also derives stays the seed's. -/
def addImported (C : Crypto) (index : Nat) (pubkey : Arr 33) (b : KeyBook) : KeyBook :=
  match b.key imported index with
  | some _ => b
  | none =>
    let k : TKey := ⟨imported, index, pubkey, C.hash160 pubkey.toList⟩
    { b with hashes := b.hashes.insertNew k.hash k, tkeys := b.tkeys ++ [k] }

/-- `add_pq`. -/
def addPq (C : Crypto) (p : PqPublic) (b : KeyBook) : Except String KeyBook :=
  match Hex.decode p.pk with
  | none => .error "bad hex"
  | some pk =>
    let id := PqKeyId.of C p.scheme pk
    .ok { b with pq := b.pq.insert id ⟨p.scheme, p.index, pk, id⟩ }

end KeyBook

end Daemon

end Yew
