import Mathlib.Data.List.Sort
import Mathlib.Algebra.BigOperators.Group.List.Basic
import Yew.Core.Payload

/-!
# The classes of unspent outputs

Every output the light wallet knows is in exactly one class, and each kind of transaction may spend
some of them.  `selectYec` takes coins, smallest first, until they cover an amount.

Amounts of the selection are integers; the sums it takes are those of a wallet's coins and fit 64
bits.

The classes are decided by the sync (`Yew.Sync.CoinSet`); here they are given with the coins.

## Source

* `core/src/coins.rs`: `UtxoClass`, `UtxoClass::yec_spendable`, `transfer_spendable`,
  `UtxoClass::mint_spendable`, `UtxoClass::redeem_spendable`, `UtxoClass::claim_spendable`,
  `CoinError`, `select_yec`, `ranked_tokens`
-/

namespace Yew.Coins

/-- The value of a YED token output, in zatoshi. -/
def tokenValue : Int64 := 10000

/-- The value of a carrier output, in zatoshi. -/
def carrierValue : Int64 := 10000

/-- `UtxoClass`. -/
inductive UtxoClass where
  | yec
  | feeReserve
  | token
  | pendingToken
  | vault
  | carrier
  | unknownP2sh
  | held
  | pqOwned
  | foreign
deriving DecidableEq

namespace UtxoClass

/-- The stored name. -/
def asStr : UtxoClass → String
  | yec => "YEC"
  | feeReserve => "FEE_RESERVE"
  | token => "TOKEN"
  | pendingToken => "PENDING_TOKEN"
  | vault => "VAULT"
  | carrier => "CARRIER"
  | unknownP2sh => "UNKNOWN_P2SH"
  | held => "HELD"
  | pqOwned => "PQ_OWNED"
  | foreign => "FOREIGN"

/-- The classes a YEC payment may spend. -/
def yecSpendable (c : UtxoClass) : Bool := c = yec || c = feeReserve

/-- The classes a YED transfer may spend. -/
def transferSpendable (c : UtxoClass) : Bool := c = token || c = yec || c = feeReserve

/-- The classes a MINT may spend. -/
def mintSpendable (c : UtxoClass) : Bool := yecSpendable c || c = carrier

/-- The classes a REDEEM may spend. -/
def redeemSpendable (c : UtxoClass) : Bool := c = vault || c = token

/-- The own classes a CLAIM may spend. -/
def claimSpendable (c : UtxoClass) : Bool := c = token || c = carrier || yecSpendable c

end UtxoClass

open Tx

/-- `Utxo`: an unspent output and its class. -/
structure Utxo where
  outpoint : OutPoint
  address : String
  script : Bytes
  value : Int
  height : Nat
  utxoClass : UtxoClass
  cents : Nat
deriving DecidableEq

/-- `CoinError`. -/
inductive CoinError where
  | insufficient (need have_ : Int)
deriving DecidableEq

/-- The zatoshi of some coins. -/
def zats (us : List Utxo) : Int := (us.map Utxo.value).sum

/-- The cents of some coins. -/
def cents (us : List Utxo) : Nat := (us.map Utxo.cents).sum

/-! ## Selection -/

/-- By txid, in internal byte order, then by index. -/
def outpointOrder (a b : OutPoint) : Ordering :=
  (compare a.txid.toList b.txid.toList).then (compare a.n b.n)

/-- The reserve first, then the smallest. -/
def poolOrder (a b : Utxo) : Ordering :=
  (compare (decide (a.utxoClass ≠ .feeReserve)) (decide (b.utxoClass ≠ .feeReserve))).then <|
    (compare a.value b.value).then (outpointOrder a.outpoint b.outpoint)

/-- The coins `select_yec` may take, in the order it takes them. -/
def pool (utxos : List Utxo) (useReserve : Bool) : List Utxo :=
  (utxos.filter fun u ↦ u.utxoClass = .yec || (useReserve && u.utxoClass = .feeReserve)).insertionSort
    fun a b ↦ poolOrder a b ≠ .gt

/-- Coins from the front until they cover what is needed, or what there is. -/
def cover (needed : Int) : Int → List Utxo → Except Int (List Utxo)
  | total, [] => .error total
  | total, u :: us =>
    if total + u.value ≥ needed then .ok [u]
    else (cover needed (total + u.value) us).map (u :: ·)

/-- `select_yec`. -/
def selectYec (utxos : List Utxo) (needed : Int) (useReserve : Bool) :
    Except CoinError (List Utxo) :=
  if needed ≤ 0 then .ok []
  else (cover needed 0 (pool utxos useReserve)).mapError (.insufficient needed)

/-- `ranked_tokens`: by cents, then by outpoint. -/
def rankedTokens (utxos : List Utxo) : List Utxo :=
  (utxos.filter fun u ↦ u.utxoClass = .token).insertionSort fun a b ↦
    (compare a.cents b.cents).then (outpointOrder a.outpoint b.outpoint) ≠ .gt

/-! ## What a selection covers -/

variable {us taken : List Utxo} {needed total : Int}

theorem zats_append (us vs : List Utxo) : zats (us ++ vs) = zats us + zats vs := by
  simp [zats]

@[simp] theorem zats_nil : zats [] = 0 := rfl

@[simp] theorem zats_cons (u : Utxo) (us : List Utxo) : zats (u :: us) = u.value + zats us := by
  simp [zats]

/-- What covers an amount is taken from the front. -/
theorem cover_eq_ok (h : cover needed total us = .ok taken) :
    taken <+: us ∧ needed ≤ total + zats taken := by
  induction us generalizing total taken with
  | nil => cases h
  | cons u us ih =>
    rw [cover] at h
    split at h
    · rename_i hcovers
      cases h
      exact ⟨List.prefix_append [u] us, by simpa using hcovers⟩
    · cases hrest : cover needed (total + u.value) us with
      | error e =>
        rw [hrest] at h
        cases h
      | ok rest =>
        rw [hrest] at h
        cases h
        obtain ⟨hfront, hcovers⟩ := ih hrest
        refine ⟨List.cons_prefix_cons.mpr ⟨rfl, hfront⟩, ?_⟩
        rw [zats_cons]
        omega

/-- A selection is a front of the pool that covers what is needed. -/
theorem selectYec_eq_ok {utxos : List Utxo} {useReserve : Bool}
    (h : selectYec utxos needed useReserve = .ok taken) :
    taken <+: pool utxos useReserve ∧ needed ≤ zats taken := by
  rw [selectYec] at h
  split at h
  · rename_i hneeded
    cases h
    exact ⟨List.nil_prefix, by simpa using hneeded⟩
  · cases hcover : cover needed 0 (pool utxos useReserve) with
    | error e =>
      rw [hcover] at h
      cases h
    | ok us =>
      rw [hcover] at h
      cases h
      obtain ⟨hfront, hcovers⟩ := cover_eq_ok hcover
      exact ⟨hfront, by omega⟩

/-- No shorter front covers an amount. -/
theorem cover_prefix {front : List Utxo} (h : cover needed total us = .ok taken)
    (htotal : total < needed) (hfront : front <+: us) (hcovers : needed ≤ total + zats front) :
    taken <+: front := by
  induction us generalizing total taken front with
  | nil => cases h
  | cons u us ih =>
    rcases List.prefix_cons_iff.mp hfront with rfl | ⟨rest, rfl, hrest⟩
    · rw [zats_nil] at hcovers
      omega
    · rw [zats_cons] at hcovers
      rw [cover] at h
      split at h
      · cases h
        exact List.prefix_append [u] rest
      · rename_i hshort
        cases hcover : cover needed (total + u.value) us with
        | error e =>
          rw [hcover] at h
          cases h
        | ok vs =>
          rw [hcover] at h
          cases h
          exact List.cons_prefix_cons.mpr ⟨rfl, ih hcover (by omega) hrest (by omega)⟩

/-- A selection is the shortest front of the pool that covers what is needed. -/
theorem selectYec_prefix {utxos front : List Utxo} {useReserve : Bool}
    (h : selectYec utxos needed useReserve = .ok taken) (hfront : front <+: pool utxos useReserve)
    (hcovers : needed ≤ zats front) : taken <+: front := by
  rw [selectYec] at h
  split at h
  · cases h
    exact List.nil_prefix
  · rename_i hpos
    cases hcover : cover needed 0 (pool utxos useReserve) with
    | error e =>
      rw [hcover] at h
      cases h
    | ok us =>
      rw [hcover] at h
      cases h
      exact cover_prefix hcover (by omega) hfront (by omega)

theorem length_pool_le (utxos : List Utxo) (useReserve : Bool) :
    (pool utxos useReserve).length ≤ utxos.length := by
  rw [pool, List.length_insertionSort]
  exact List.length_filter_le _ _

/-- Only `YEC` and reserve coins pay. -/
theorem mem_pool {utxos : List Utxo} {useReserve : Bool} {u : Utxo}
    (h : u ∈ pool utxos useReserve) : u ∈ utxos ∧ u.utxoClass.yecSpendable := by
  rw [pool, List.mem_insertionSort, List.mem_filter] at h
  obtain ⟨hmem, hclass⟩ := h
  refine ⟨hmem, ?_⟩
  rw [UtxoClass.yecSpendable]
  cases useReserve <;> simp_all

/-- Without the reserve, only `YEC` coins pay. -/
theorem mem_pool_false {utxos : List Utxo} {u : Utxo} (h : u ∈ pool utxos false) :
    u ∈ utxos ∧ u.utxoClass = .yec := by
  simpa [pool, List.mem_insertionSort] using h

theorem mem_rankedTokens {utxos : List Utxo} {u : Utxo} :
    u ∈ rankedTokens utxos ↔ u ∈ utxos ∧ u.utxoClass = .token := by
  rw [rankedTokens, List.mem_insertionSort]
  simp

end Yew.Coins
