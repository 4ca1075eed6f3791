import Mathlib.Data.Int.ConditionallyCompleteOrder
import Yew.Build.EstimateSound

/-!
# The rule for the residual

What a claim returns to the owner is nothing or worth an output, and what the claimant keeps is the
cap, up to a residual that is not paid.  The figure follows the collateral and the price up, and the
debt down.  Under clause (a) a vault is claimed when its collateral is worth less than the debt with
the margin, which is when the cap takes all of it.

The figure is `residual_zat_for` of `core/src/params.rs`.  Monotonicity is proved in each argument
by itself, with the others held fixed, and along the case split of the code: no cap, a residual
below the floor, a residual that is paid.
-/

namespace Yew.Build

/-! ## Quotients rounded up -/

section Quotients

variable {a a' b b' c : Nat}

theorem divCeil_le_iff (hb : 0 < b) : divCeil a b ≤ c ↔ a ≤ c * b := by
  rw [divCeil, Nat.div_le_iff_le_mul_add_pred hb, Nat.mul_comm]
  omega

theorem lt_divCeil_iff (hb : 0 < b) : c < divCeil a b ↔ c * b < a := by
  rw [← not_le, divCeil_le_iff hb, not_le]

/-- More over less. -/
theorem divCeil_le_divCeil (hb : 0 < b) (ha : a ≤ a') (hle : b ≤ b') :
    divCeil a b' ≤ divCeil a' b := by
  rw [divCeil_le_iff (hb.trans_le hle)]
  calc
    a ≤ a' := ha
    _ ≤ divCeil a' b * b := (divCeil_le_iff hb).mp le_rfl
    _ ≤ divCeil a' b * b' := Nat.mul_le_mul_left _ hle

end Quotients

/-! ## The residual -/

/-- An amount, or nothing if it is below a floor. -/
def cutOff (floor n : Int) : Int := if floor ≤ n then n else 0

theorem cutOff_mono {floor : Int} (hfloor : 0 ≤ floor) : Monotone (cutOff floor) := by
  intro n n' hle
  unfold cutOff
  split
  · rename_i hn
    rw [if_pos (hn.trans hle)]
    exact hle
  · split
    · exact hfloor.trans ‹_›
    · exact le_rfl

theorem residualMinZat_pos : 0 < residualMinZat := by decide

theorem residualZatFor_eq_some {collateral price r : Int} {debt : Nat} {claimPath : String}
    (h : residualZatFor collateral debt price claimPath = some r) :
    0 < price ∧ 0 < debt ∧
      r = cutOff residualMinZat
        (leftOver collateral (claimantMax debt (marginOf claimPath) price)) := by
  unfold residualZatFor at h
  split at h
  · cases h
  · rename_i hdefined
    rw [not_or, not_le] at hdefined
    exact ⟨hdefined.1, Nat.pos_of_ne_zero hdefined.2, (Option.some.inj h).symm⟩

/-- What is due of a residual, for a collateral and the claimant's cap. -/
structure ResidualDue (collateral cap r : Int) : Prop where
  /-- Nothing is returned, or what is worth an output. -/
  size : r = 0 ∨ residualMinZat ≤ r ∧ r ≤ collateral
  /-- The claimant keeps the cap, if there is as much. -/
  keeps : min collateral cap ≤ collateral - r
  /-- The claimant keeps no more than a residual that is not paid. -/
  below : cap < collateral → collateral - r < cap + residualMinZat

theorem residualDue_cutOff {collateral : Int} (hfits : collateral ≤ i64Max) (cap : Nat) :
    ResidualDue collateral cap (cutOff residualMinZat (leftOver collateral cap)) := by
  have hpos := residualMinZat_pos
  rw [leftOver_eq hfits]
  unfold cutOff
  constructor
  · split <;> omega
  · split <;> omega
  · intro hlt
    split <;> omega

/-! ## The order of caps -/

section Caps

variable {debt debt' : Nat} {price price' : Int}

theorem claimantMax_mono (margin : Nat) (hprice : 0 < price) (hdebt : debt' ≤ debt)
    (hle : price ≤ price') : claimantMax debt' margin price' ≤ claimantMax debt margin price := by
  refine divCeil_le_divCeil (Int.pos_iff_toNat_pos.mp hprice) ?_ (Int.toNat_le_toNat hle)
  exact Nat.mul_le_mul_right _ (Nat.mul_le_mul_right _ hdebt)

theorem leftOver_mono {collateral collateral' : Int} {cap cap' : Nat}
    (hfits : collateral' ≤ i64Max) (hcollateral : collateral ≤ collateral') (hcap : cap' ≤ cap) :
    leftOver collateral cap ≤ leftOver collateral' cap' := by
  rw [leftOver_eq hfits, leftOver_eq (hcollateral.trans hfits)]
  refine max_le_max ?_ le_rfl
  omega

/-- The cap as a quotient of rationals. -/
theorem claimantMax_eq_ceil (margin : Nat) (hprice : 0 < price) :
    (claimantMax debt margin price : Int) = ⌈(debt * margin * coin : ℚ) / price⌉ := by
  have hnat : (price.toNat : Int) = price := Int.toNat_of_nonneg hprice.le
  have hceil := ceil_eq_divCeil (debt * margin * coin) (Int.pos_iff_toNat_pos.mp hprice)
  rw [claimantMax, ← hceil]
  have hcast : ((price.toNat : Nat) : ℚ) = (price : ℚ) := by exact_mod_cast hnat
  rw [hcast]
  push_cast
  rfl

end Caps

/-! ## Clause (a) -/

theorem leftOver_eq_zero {collateral : Int} {cap : Nat} (h : collateral ≤ cap) :
    leftOver collateral cap = 0 := by
  unfold leftOver toI64?
  split_ifs
  · exact if_neg (not_lt.mpr h)
  · rfl

/-- A collateral that is worth less than the debt with its margin is all taken. -/
theorem leftOver_of_underwater {collateral price : Int} {debt margin : Nat} (hprice : 0 < price)
    (h : collateral.toNat * price.toNat < debt * margin * coin) :
    leftOver collateral (claimantMax debt margin price) = 0 := by
  refine leftOver_eq_zero (Int.toNat_le.mp ?_)
  rw [claimantMax]
  exact ((lt_divCeil_iff (Int.pos_iff_toNat_pos.mp hprice)).mpr h).le

/-- A claimable row of clause (a) that is accepted is underwater, and nothing of it is left. -/
theorem checkClaimable_clauseA {c : YedClaimable} {pEmerg : Option Int} {r : Int}
    (h : checkClaimable c pEmerg = .ok r) (hc : c.claimable = true) (hpath : c.claimPath = "a") :
    r = 0 ∧ c.residualZat = 0 := by
  simp only [checkClaimable, hc, Bool.not_true, Bool.false_eq_true, if_false,
    Result.guard_eq_ok, Result.bind_eq_ok] at h
  obtain ⟨-, -, price, hprice, h⟩ := h
  have hcap : c.capPrice pEmerg = .ok c.pClaim := by
    unfold YedClaimable.capPrice
    rw [hpath]
    rfl
  obtain rfl := Except.ok.inj (hcap.symm.trans hprice)
  split at h
  · cases h
  · rename_i floored hfloored
    obtain ⟨hreported, hunder, h⟩ := Result.guard_eq_ok.mp h |>.imp_right Result.guard_eq_ok.mp
    obtain ⟨hpos, -, hcut⟩ := residualZatFor_eq_some hfloored
    have hleft : leftOver c.collateralZat
        (claimantMax c.mintedCents.toNat (marginOf c.claimPath) c.pClaim) = 0 := by
      refine leftOver_of_underwater hpos ?_
      rw [marginOf, if_pos hpath]
      exact not_le.mp fun hle ↦ hunder ⟨hpath, hle⟩
    have hzero : floored = 0 := by
      rw [hcut, hleft]
      rfl
    refine ⟨(Except.ok.inj h).symm.trans hzero, ?_⟩
    rw [hleft, hzero, if_neg (lt_irrefl 0), not_and_not_right] at hreported
    by_contra hne
    exact hne (hreported hne)

/-- **The residual rule.**  At every price, the residual is what is due of the collateral and the
cap; it does not fall with the collateral or the price, nor rise with the debt; and a row of clause
(a) that is accepted has none. -/
theorem residual_rule :
    (∀ (collateral : Int64) (debt : UInt64) (price : Int64) (claimPath : String),
      0 < price.toInt →
      match residualZatFor collateral.toInt debt.toNat price.toInt claimPath with
      | none => debt = 0
      | some r => ResidualDue collateral.toInt
          ⌈(debt.toNat * marginOf claimPath * coin : ℚ) / price.toInt⌉ r) ∧
    (∀ (collateral collateral' : Int64) (debt debt' : UInt64) (price price' : Int64)
      (claimPath : String) (r r' : Int), collateral ≤ collateral' → debt' ≤ debt → price ≤ price' →
      residualZatFor collateral.toInt debt.toNat price.toInt claimPath = some r →
      residualZatFor collateral'.toInt debt'.toNat price'.toInt claimPath = some r' → r ≤ r') ∧
    ∀ (c : YedClaimable) (pEmerg : Option Int) (r : Int), c.claimPath = "a" →
      checkClaimable c pEmerg = .ok r → r = 0 ∧ (c.claimable = true → c.residualZat = 0) := by
  refine ⟨?_, ?_, ?_⟩
  · intro collateral debt price claimPath hprice
    cases hres : residualZatFor collateral.toInt debt.toNat price.toInt claimPath with
    | none =>
      by_contra hdebt
      have hpos : 0 < debt.toNat := UInt64.pos_iff_ne_zero.mpr hdebt
      rw [residualZatFor_eq claimPath hprice hpos] at hres
      cases hres
    | some r =>
      obtain ⟨-, -, rfl⟩ := residualZatFor_eq_some hres
      rw [← claimantMax_eq_ceil _ hprice]
      exact residualDue_cutOff (Int.lt_add_one_iff.mp collateral.toInt_lt) _
  · intro collateral collateral' debt debt' price price' claimPath r r' hcollateral hdebt hprice h h'
    obtain ⟨hpos, -, rfl⟩ := residualZatFor_eq_some h
    obtain ⟨-, -, rfl⟩ := residualZatFor_eq_some h'
    refine cutOff_mono residualMinZat_pos.le ?_
    refine leftOver_mono (Int.lt_add_one_iff.mp collateral'.toInt_lt)
      (Int64.le_iff_toInt_le.mp hcollateral) ?_
    exact claimantMax_mono _ hpos (UInt64.le_iff_toNat_le.mp hdebt) (Int64.le_iff_toInt_le.mp hprice)
  · intro c pEmerg r hpath h
    cases hc : c.claimable with
    | false =>
      rw [checkClaimable, hc] at h
      exact ⟨(Except.ok.inj h).symm, fun hclaimable ↦ absurd hclaimable Bool.false_ne_true⟩
    | true =>
      obtain ⟨hr, hrow⟩ := checkClaimable_clauseA h hc hpath
      exact ⟨hr, fun _ ↦ hrow⟩

/-- A row of clause (a): a debt of a dollar on a collateral of one YEC at a dollar. -/
def sampleClaimable : YedClaimable := ⟨true, "a", 100000000, 100, 1000000, 0, "v"⟩

/-- Of two YEC on a debt of a dollar, at a dollar, one is returned under clause (b); at half the
price, nothing is.  A row of clause (a) that is accepted has no residual. -/
theorem residual_rule_dollar :
    (∃ r, residualZatFor 200000000 100 1000000 "b" = some r ∧
      ResidualDue 200000000 ⌈(100 * marginOf "b" * coin : ℚ) / (1000000 : Int)⌉ r) ∧
    (∃ r r', residualZatFor 200000000 100 500000 "b" = some r ∧
      residualZatFor 200000000 100 1000000 "b" = some r' ∧ r ≤ r') ∧
    checkClaimable sampleClaimable none = .ok 0 ∧ sampleClaimable.residualZat = 0 := by
  have hdollar : residualZatFor 200000000 100 1000000 "b" = some 100000000 := by decide
  have hhalf : residualZatFor 200000000 100 500000 "b" = some 0 := by decide
  have hrow : checkClaimable sampleClaimable none = .ok 0 := by decide
  refine ⟨⟨_, hdollar, ?_⟩, ⟨_, _, hhalf, hdollar, ?_⟩, hrow, ?_⟩
  · have hdue := residual_rule.1 200000000 100 1000000 "b" (by decide)
    change match residualZatFor 200000000 100 1000000 "b" with
      | none => (100 : UInt64) = 0
      | some r => ResidualDue 200000000 ⌈((100 : Nat) * marginOf "b" * coin : ℚ) / (1000000 : Int)⌉ r
      at hdue
    rw [hdollar] at hdue
    exact_mod_cast hdue
  · exact residual_rule.2.1 200000000 200000000 100 100 500000 1000000 "b" 0 100000000 (by decide)
      (by decide) (by decide) hhalf hdollar
  · exact (residual_rule.2.2 sampleClaimable none 0 rfl hrow).2 rfl

end Yew.Build
