import Yew.Core.Keys

/-!
# The Sapling library

Notes, Merkle paths, viewing keys, proofs and the transaction builder come from librustzcash and
sapling-crypto.  As with the cryptography, the model takes them as one bundle of functions; what
the signer decides around them is modelled in full.

The crates are not in the repository, so nothing is said of the notes a transaction commits to: what
counts is which requests the signer lets through to them.

## Source

* `core/src/shielded.rs`: `Shielded::plan`
-/

namespace Yew.Sapling

open Tx Keys

/-- A payment address, as its 43 bytes. -/
abbrev Address := Arr 43

/-- An extended spending key, as its bytes. -/
abbrev ExtSk := Bytes

/-- A note rebuilt from its parts. -/
structure Note where
  recipient : Address
  value : UInt64
  rseed : Arr 32
deriving DecidableEq

/-- An authentication path, leaf to root. -/
structure MerklePath where
  nodes : List (Arr 32)
  position : UInt64
deriving DecidableEq

/-- A spend handed to a builder, with the scope of the key that spends it. -/
structure Spend where
  note : Note
  path : MerklePath
  internal : Bool
deriving DecidableEq

/-- A shielded output handed to a builder; `internal` picks the outgoing viewing key. -/
structure Output where
  internal : Bool
  recipient : Address
  value : Int64
  memo : Bytes
deriving DecidableEq

/-- `TransparentAddress`. -/
inductive TAddr where
  | publicKeyHash (h : Arr 20)
  | scriptHash (h : Arr 20)
deriving DecidableEq

/-- A transparent input handed to a builder. -/
structure TInput where
  key : SecretKey
  prevout : OutPoint
  amount : Int64
  script : Bytes

/-- A whole shielded transaction, as it is handed to the builder. -/
structure Plan where
  targetHeight : UInt32
  vaultHeight : Option UInt32
  anchor : Arr 32
  spends : List Spend
  inputs : List TInput
  outputs : List (Output ⊕ (TAddr × Int64))
  fee : Int64
  paramsDir : String

/-- A Sapling part proven for a transparent transaction. -/
structure Hybrid where
  extsk : ExtSk
  anchor : Arr 32
  spends : List Spend
  outputs : List Output
  paramsDir : String
  tx : Transaction
  branchId : UInt32

/-- The functions of the Sapling libraries the signer calls. -/
structure Lib where
  /-- `SaplingAccount::from_seed`, then `viewing_key_bytes`. -/
  viewingKey : Network → Bytes → Except String Bytes
  /-- `SaplingAccount::from_mnemonic`, then `spending_key_bytes`. -/
  spendingKey : Network → String → Except String Bytes
  /-- The same key in its text form. -/
  spendingKeyText : Network → String → Except String String
  /-- `SaplingAccount::from_spending_key(..).is_ok()`. -/
  isSpendingKey : Network → String → Bool
  /-- `ExtendedSpendingKey::from_bytes(..).is_ok()`. -/
  extskOk : Bytes → Bool
  /-- `Anchor::from_bytes(..).is_some()`. -/
  anchorOk : Arr 32 → Bool
  /-- `Anchor::empty_tree`. -/
  emptyTree : Arr 32
  /-- `PaymentAddress::from_bytes(..).is_some()`. -/
  addressOk : Address → Bool
  /-- `decrypt_diversifier`: whether the address is the account's, and in the internal scope. -/
  scope : ExtSk → Address → Option Bool
  /-- `Node::from_bytes(..).is_some()`. -/
  nodeOk : Arr 32 → Bool
  /-- `MerklePath::from_parts(..).is_ok()`. -/
  pathOk : MerklePath → Bool
  /-- The root a note's commitment leads to along a path. -/
  root : Note → MerklePath → Arr 32
  /-- `decode_payment_address`. -/
  decodeAddress : Network → String → Except String Address
  /-- `change_address`. -/
  changeAddress : ExtSk → Address
  /-- `sapling_params::ensure_verified`. -/
  ensureVerified : String → Except String Unit
  /-- The builder's `add_sapling_spend`. -/
  addSpend : Spend → Except String Unit
  /-- The builder's `add_transparent_p2pkh_input`. -/
  addInput : TInput → Except String Unit
  /-- The builder's `add_transparent_output`. -/
  addTransparentOutput : TAddr → Int64 → Except String Unit
  /-- The builder's `add_sapling_output`. -/
  addOutput : Output → Except String Unit
  /-- The builder's `build` and the transaction's bytes. -/
  build : ExtSk → Plan → Bytes → Except String Bytes
  /-- The proven bundle of a part, `none` when the part is empty. -/
  prove : Hybrid → Bytes → Except String (Option Bytes)
  /-- `BranchId::try_from(..).is_ok()`. -/
  branchOk : UInt32 → Bool
  /-- `Transaction::read` of the transparent part under a branch. -/
  readTransparent : Bytes → UInt32 → Except String Unit
  /-- `v4_signature_hash` of a transparent input over the proven bundle. -/
  digest : Hybrid → Bytes → Nat → Bytes → Bytes → Int64 → UInt32 → Except (String × String) (Arr 32)
  /-- The Sapling signatures and the whole transaction's bytes, with fresh entropy. -/
  finish : Hybrid → Bytes → Bytes → Bytes → Except String Bytes

/-- A bundle that accepts everything and builds nothing, for closed examples. -/
def Lib.blank : Lib where
  viewingKey _ _ := .ok []
  spendingKey _ _ := .ok []
  spendingKeyText _ _ := .ok ""
  isSpendingKey _ _ := false
  extskOk _ := true
  anchorOk _ := true
  emptyTree := List.Vector.replicate 32 0
  addressOk _ := true
  scope _ _ := some false
  nodeOk _ := true
  pathOk _ := true
  root _ _ := List.Vector.replicate 32 0
  decodeAddress _ _ := .ok (List.Vector.replicate 43 1)
  changeAddress _ := List.Vector.replicate 43 0
  ensureVerified _ := .ok ()
  addSpend _ := .ok ()
  addInput _ := .ok ()
  addTransparentOutput _ _ := .ok ()
  addOutput _ := .ok ()
  build _ _ _ := .ok []
  prove _ _ := .ok (some [])
  branchOk _ := true
  readTransparent _ _ := .ok ()
  digest _ _ _ _ _ _ _ := .ok (List.Vector.replicate 32 0)
  finish _ _ _ _ := .ok []

end Yew.Sapling
