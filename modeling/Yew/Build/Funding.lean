import Mathlib.Data.Finset.Dedup
import Mathlib.Data.List.Infix
import Yew.Build.Fees
import Yew.Core.PayloadCodec
import Yew.Core.TxCodec
import Yew.Util.Climb

/-!
# Paying for a transaction

Every Yellowback builder funds its outputs the same way: it asks for coins that cover the outputs
and the fee of no coins, prices the coins it got, and asks again when that is more.  The prices that
can come up are those of the fronts of one pool, so the loop ends (`fund_ne_none`).  What the coins
bring in excess is change, unless it is too small or would look like a token.

The loop is the one that stands in `finish` of `core/src/build/mint.rs` and, with other outputs, in
the claim, the redeem, the transfer and the release of the same directory.  It is stated once, over
the outputs, as an instance of `Yew.Util.Climb`.

## Source

* `core/src/tx.rs`: `TxIn::new`, `zip317_conventional_fee`
-/

namespace Yew

/-- `zip317_conventional_fee` of a transaction with scriptSigs of the given sizes. -/
def Tx.Transaction.zip317ConventionalFee (t : Tx.Transaction) (scriptSigSizes : List Nat) :
    Except Tx.TxError Int :=
  if scriptSigSizes.length ≠ t.vin.length then .error (.inputIndex scriptSigSizes.length)
  else .ok (Build.zip317ConventionalFee (Tx.Transaction.inBytes scriptSigSizes) t.outBytes
    (2 * t.shielded.joinsplits + max t.shielded.spends t.shielded.outputs))

namespace Build

open Script Tx Coins Yellowback

/-! ## Outputs -/

/-- An output a builder makes. -/
structure Out where
  value : Int
  scriptPubkey : Bytes
deriving DecidableEq

/-- The zatoshi that some outputs take. -/
def paid (outs : List Out) : Int := (outs.map Out.value).sum

/-- The output on the wire. -/
def Out.toTxOut (o : Out) : TxOut := ⟨Int64.ofInt o.value, o.scriptPubkey⟩

/-- `Transaction::new_v4` with its parts. -/
def newV4 (vin : List TxIn) (vout : List Out) (lockTime expiryHeight : UInt32) : Transaction where
  header := txHeaderV4
  versionGroupId := saplingVersionGroupId
  vin := vin
  vout := vout.map Out.toTxOut
  lockTime := lockTime
  expiryHeight := expiryHeight
  shielded := .empty

/-- `TxIn::new`. -/
def newTxIn (o : OutPoint) : TxIn := ⟨o, [], sequenceFinal⟩

@[simp] theorem paid_nil : paid [] = 0 := rfl

@[simp] theorem paid_cons (o : Out) (outs : List Out) : paid (o :: outs) = o.value + paid outs := by
  simp [paid]

@[simp] theorem paid_append (outs more : List Out) :
    paid (outs ++ more) = paid outs + paid more := by
  simp [paid]

/-! ## The loop over coins and fees -/

/-- One turn: coins for `base` and a fee, and what they would have to pay. -/
def fundTurn (spendable : List Utxo) (base : Int) (price : List Utxo → Int) (fee : Int) :
    Except CoinError (Int × List Utxo) :=
  (selectYec spendable (base + fee) true).map fun sel ↦ (price sel, sel)

/-- The fee and the coins the loop comes out with. -/
def fund (spendable : List Utxo) (base : Int) (price : List Utxo → Int) :
    Option (Except CoinError (Int × List Utxo)) :=
  climb (fundTurn spendable base price) (spendable.length + 2) (price [])

variable {spendable sel : List Utxo} {base fee : Int} {price : List Utxo → Int}

theorem fundTurn_eq_ok {p : Int} (h : fundTurn spendable base price fee = .ok (p, sel)) :
    selectYec spendable (base + fee) true = .ok sel ∧ p = price sel := by
  rw [fundTurn] at h
  cases hsel : selectYec spendable (base + fee) true with
  | error e =>
    rw [hsel] at h
    cases h
  | ok us =>
    rw [hsel] at h
    cases h
    exact ⟨rfl, rfl⟩

/-- The coins cover what they were selected for, and the fee is no less than their price. -/
theorem fund_eq_ok (h : fund spendable base price = some (.ok (fee, sel))) :
    sel <+: pool spendable true ∧ base + fee ≤ zats sel ∧ price sel ≤ fee := by
  obtain ⟨-, p, hturn, hle⟩ := Climb.climb_eq_ok h
  obtain ⟨hsel, rfl⟩ := fundTurn_eq_ok hturn
  obtain ⟨hfront, hcovers⟩ := selectYec_eq_ok hsel
  exact ⟨hfront, hcovers, hle⟩

/-- The prices of the fronts of the pool. -/
def prices (spendable : List Utxo) (price : List Utxo → Int) : Finset Int :=
  ((pool spendable true).inits.map price).toFinset

theorem card_prices_le : (prices spendable price).card ≤ spendable.length + 1 := by
  have hlen := length_pool_le spendable true
  have hcard := ((pool spendable true).inits.map price).toFinset_card_le
  rw [List.length_map, List.length_inits] at hcard
  exact hcard.trans (by omega)

/-- The loop ends, whatever figure it starts with. -/
theorem climb_fundTurn_ne_none (start : Int) :
    climb (fundTurn spendable base price) (spendable.length + 2) start ≠ none := by
  refine (@Climb.climb_ne_none _ _ _ _ _ (prices spendable price)) ?_ ?_
  · intro x p sel hturn _
    obtain ⟨hsel, rfl⟩ := fundTurn_eq_ok hturn
    rw [prices, List.mem_toFinset, List.mem_map]
    exact ⟨sel, (List.mem_inits _ _).mpr (selectYec_eq_ok hsel).1, rfl⟩
  · have := (Finset.card_filter_le (prices spendable price) (start < ·)).trans card_prices_le
    exact Nat.lt_of_le_of_lt this (by omega)

theorem fund_ne_none : fund spendable base price ≠ none := climb_fundTurn_ne_none _

/-! ## Coins that pay for themselves -/

/-- The shortest front of the pool that pays for `base` and for itself. -/
def ownFunding (spendable : List Utxo) (base : Int) (price : List Utxo → Int) : List Utxo :=
  let us := pool spendable true
  us.take (((List.range (us.length + 1)).find? fun n ↦
    base + price (us.take n) ≤ zats (us.take n)).getD 0)

theorem ownFunding_eq (hfront : sel <+: pool spendable true) (hpays : base + price sel ≤ zats sel)
    (hleast : ∀ front, front <+: pool spendable true → base + price front ≤ zats front →
      sel <+: front) : ownFunding spendable base price = sel := by
  have htake := List.prefix_iff_eq_take.mp hfront
  have hfind : ((List.range ((pool spendable true).length + 1)).find? fun n ↦
      base + price ((pool spendable true).take n) ≤ zats ((pool spendable true).take n)) =
        some sel.length := by
    rw [List.find?_range_eq_some]
    refine ⟨?_, List.mem_range.mpr (Nat.lt_succ_of_le hfront.length_le), ?_⟩
    · rw [← htake]
      exact decide_eq_true hpays
    · intro n hn
      rw [Bool.not_eq_true', decide_eq_false_iff_not]
      intro hshorter
      have hle := (hleast _ (List.take_prefix n _) hshorter).length_le
      rw [List.length_take] at hle
      omega
  rw [ownFunding, hfind]
  exact htake.symm

/-- A loop that selects for `base` and a fee, and asks for the price of what it selected, comes out
with the shortest front that pays for itself, and pays its price. -/
theorem climb_eq_ownFunding {ε β : Type} {turn : Int → Except ε (Int × β)} {coins : β → List Utxo}
    (hturn : ∀ x p b, turn x = .ok (p, b) →
      selectYec spendable (base + x) true = .ok (coins b) ∧ p = price (coins b))
    (hmono : ∀ us more, price us ≤ price (us ++ more)) {n : Nat} {b : β}
    (h : climb turn n (price []) = some (.ok (fee, b))) :
    fee = price (coins b) ∧ ownFunding spendable base price = coins b := by
  -- a front that pays for itself costs no less than any figure of the loop
  let P (x : Int) : Prop := ∀ front, front <+: pool spendable true →
    base + price front ≤ zats front → x ≤ price front
  have hselects : ∀ x p b, P x → turn x = .ok (p, b) → ∀ front, front <+: pool spendable true →
      base + price front ≤ zats front → coins b <+: front := by
    intro x p b hx hb front hfront hpays
    have := hx front hfront hpays
    exact selectYec_prefix (hturn x p b hb).1 hfront (by omega)
  have hP : P fee := by
    refine Climb.climb_keeps (fun x p b hx hb front hfront hpays ↦ ?_) ?_ h
    · obtain ⟨more, rfl⟩ := hselects x p b hx hb front hfront hpays
      rw [(hturn x p b hb).2]
      exact hmono _ _
    · intro front _ _
      exact hmono [] front
  obtain ⟨-, p, hb, hle⟩ := Climb.climb_eq_ok h
  obtain ⟨hsel, rfl⟩ := hturn _ _ _ hb
  obtain ⟨hfront, hcovers⟩ := selectYec_eq_ok hsel
  have hpays : base + price (coins b) ≤ zats (coins b) := by omega
  refine ⟨le_antisymm (hP _ hfront hpays) hle, ?_⟩
  exact ownFunding_eq hfront hpays (hselects _ _ _ hP hb)

/-! ## Change -/

/-- What of the excess goes back: one zatoshi less than a token's value, and nothing of a trifle. -/
def keepChange (change : Int) : Int :=
  let change := if change = tokenZat then change - 1 else change
  if 0 < change ∧ change < minChange then 0 else change

theorem keepChange_cases (change : Int) :
    (change = tokenZat ∧ keepChange change = tokenZat - 1) ∨
      change ≠ tokenZat ∧
        ((0 < change ∧ change < minChange ∧ keepChange change = 0) ∨
          (change ≤ 0 ∨ minChange ≤ change) ∧ keepChange change = change) := by
  by_cases htoken : change = tokenZat
  · subst htoken
    exact .inl ⟨rfl, rfl⟩
  · refine .inr ⟨htoken, ?_⟩
    rw [keepChange, if_neg htoken]
    by_cases hsmall : 0 < change ∧ change < minChange
    · exact .inl ⟨hsmall.1, hsmall.2, if_pos hsmall⟩
    · exact .inr ⟨by omega, if_neg hsmall⟩

/-- Of an excess that is not negative so much goes back: none or enough for an output, no more
than the excess, and never what would look like a token. -/
theorem keepChange_spec {change : Int} (h : 0 ≤ change) :
    0 ≤ keepChange change ∧ keepChange change ≤ change ∧
      (keepChange change = 0 ∨ minChange ≤ keepChange change) ∧ keepChange change ≠ tokenZat := by
  have hmin : minChange = 100 := rfl
  have htoken := tokenZat_eq
  rcases keepChange_cases change with ⟨hchange, hkeep⟩ | ⟨hne, ⟨hpos, hlt, hkeep⟩ | ⟨hge, hkeep⟩⟩
  · omega
  · omega
  · omega

/-- What does not go back is less than an output is worth. -/
theorem lt_keepChange_add (change : Int) : change < keepChange change + minChange := by
  have hmin : minChange = 100 := rfl
  rcases keepChange_cases change with ⟨hchange, hkeep⟩ | ⟨hne, ⟨hpos, hlt, hkeep⟩ | ⟨hge, hkeep⟩⟩
  · omega
  · omega
  · omega

end Build

end Yew
