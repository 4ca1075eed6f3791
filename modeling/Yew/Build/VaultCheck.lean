import Yew.Build.ProtocolFee

/-!
# The check of a vault record

A server's record of a vault says at which price it was minted, and the fees of the vault are struck
at that price.  The lower it is, the more a fee takes of the collateral.  The wallet bounds it from
below by what the collateral of the record's class must have been worth, a quotient that is rounded
down.

Sums of heights wrap, as in a release build.

The bound serves the fees of a redeem, a claim and a release alike, in both wallets.

## Source

* `core/src/build/terms.rs`: `check_vault`
* `core/src/params.rs`: `early_redeem_fee_zat`
* `yewd/wallet/src/yed.rs`: `Wallet::yed_vault`
-/

namespace Yew.Build

open Keys Script Checked

/-! ## The record -/

/-- The fields of a `YedVault` that `check_vault` reads. -/
structure YedVault where
  txid : String
  status : String
  termClass : String
  refHeight : Int64
  lockHeight : Int64
  claimHeight : Int64
  mintedCents : Int64
  collateralZat : Int64
  pMint : Int64
deriving DecidableEq

/-- `PRICE_MAX_MICRO_USD`. -/
def priceMaxMicroUsd : Int := 4294967295

/-- The least price at which the collateral of a class backs the debt, rounded down. -/
def YedVault.priceFloor (v : YedVault) (c : TermClass) : Nat :=
  v.mintedCents.toInt.toNat * c.baseRatioBps.toNat * coin / (max v.collateralZat.toInt 1).toNat

/-- The heights of `check_vault`. -/
def checkVaultHeights (network : Network) (v : YedVault) : Checks Unit :=
  if v.claimHeight ≠ v.lockHeight + Int64.ofNat (graceOf network) then
    inconsistent ("vault " ++ v.txid ++ ": claimHeight " ++ Text.decimalInt v.claimHeight.toInt ++
      " is not lockHeight " ++ Text.decimalInt v.lockHeight.toInt ++ " + GRACE " ++
      Text.decimal (graceOf network))
  else if (locktimeThreshold : Int) ≤ v.claimHeight.toInt ∨ v.lockHeight.toInt ≤ 0 then
    inconsistent ("vault " ++ v.txid ++ ": lockHeight " ++ Text.decimalInt v.lockHeight.toInt ++
      " / claimHeight " ++ Text.decimalInt v.claimHeight.toInt ++ " out of range")
  else .ok ()

/-- The mint price of `check_vault`.  A class that the network does not have sets no floor. -/
def checkVaultPrice (network : Network) (v : YedVault) : Checks Unit :=
  if v.status ≠ "ACTIVE" ∧ v.status ≠ "CLAIMING" then .ok ()
  else if v.pMint.toInt ≤ 0 ∨ priceMaxMicroUsd < v.pMint.toInt then
    inconsistent ("vault " ++ v.txid ++ ": pMint " ++ Text.decimalInt v.pMint.toInt ++
      " out of range (rpcversion 8)")
  else match (termClasses network).find? fun c ↦ c.letter = v.termClass with
    | none => .ok ()
    | some c =>
      if v.pMint.toInt.toNat < v.priceFloor c then
        inconsistent ("vault " ++ v.txid ++ ": pMint " ++ Text.decimalInt v.pMint.toInt ++
          " below what its collateral " ++ Text.decimalInt v.collateralZat.toInt ++ " backs " ++
          Text.decimalInt v.mintedCents.toInt ++ " cents at in class " ++ c.letter ++ " (" ++
          Text.decimal (v.priceFloor c) ++ ")")
      else .ok ()

/-- `u32::try_from`. -/
def toU32? (n : Int64) : Option UInt32 :=
  if 0 ≤ n.toInt ∧ n.toInt < 2 ^ 32 then some (UInt32.ofNat n.toInt.toNat) else none

/-- The term of `check_vault`, for a vault that is active. -/
def checkVaultTerm (network : Network) (v : YedVault) : Checks Unit :=
  if v.status ≠ "ACTIVE" then .ok ()
  else
    let lockBlocks := v.lockHeight - v.refHeight
    match (toU32? lockBlocks).bind (classForLockBlocks network) with
    | some c => if c.letter = v.termClass then .ok () else notClass lockBlocks
    | none => notClass lockBlocks
where
  notClass (lockBlocks : Int64) : Checks Unit :=
    inconsistent ("vault " ++ v.txid ++ ": a lock of " ++ Text.decimalInt lockBlocks.toInt ++
      " blocks is not class " ++ Text.debugStr v.termClass)

/-- `check_vault`. -/
def checkVault (network : Network) (v : YedVault) : Checks Unit := do
  checkVaultHeights network v
  checkVaultPrice network v
  checkVaultTerm network v

/-- `early_redeem_fee_zat`. -/
def earlyRedeemFeeZat (debtCents : Nat) (earlyRedeemFeeBps pMint : Int) : Int :=
  if debtCents = 0 ∨ earlyRedeemFeeBps ≤ 0 ∨ pMint ≤ 0 then 0
  else
    (toI64? (divCeil (debtCents * earlyRedeemFeeBps.toNat * coin) pMint.toNat)).getD i64Max

/-! ## The fees of a debt -/

/-- A quotient rounded up exceeds the exact one by less than one. -/
theorem divCeil_mul_lt {a b : Nat} (hb : 0 < b) : divCeil a b * b < a + b := by
  have hle := Nat.div_mul_le_self (a + b - 1) b
  unfold divCeil
  omega

/-- A fee that is a quotient rounded up, times the price. -/
theorem getD_toI64?_divCeil_lt {n : Nat} {pMint : Int} (hp : 0 < pMint) :
    (toI64? (divCeil n pMint.toNat)).getD i64Max * pMint < n + pMint := by
  have hlt := @divCeil_mul_lt n pMint.toNat (Int.pos_iff_toNat_pos.mp hp)
  generalize divCeil n pMint.toNat = q at hlt ⊢
  calc
    (toI64? q).getD i64Max * pMint ≤ q * pMint :=
      Int.mul_le_mul_of_nonneg_right ((getD_toI64? q).trans_le (min_le_left _ _)) hp.le
    _ < n + pMint := by
      have hnat : (pMint.toNat : Int) = pMint := Int.toNat_of_nonneg hp.le
      rw [← hnat]
      exact_mod_cast hlt

/-- The protocol fee times the price. -/
theorem protocolFeeZat_lt {debt : Nat} {pMint : Int} (hmin : minMintCents ≤ debt)
    (hmax : debt ≤ maxMintCents) (hp : 0 < pMint) :
    ∃ fee, protocolFeeZat debt pMint = .ok (some fee) ∧
      fee * pMint < 100 * (debt * coin : Nat) + pMint := by
  have hmax' : debt ≤ 10000000 := hmax
  refine ⟨_, protocolFeeZat_exact (by omega) hp, ?_⟩
  rw [← getD_toI64?]
  refine (getD_toI64?_divCeil_lt hp).trans_le ?_
  have hprod : scheduleFee debt * coin ≤ 100 * (debt * coin) := by
    rw [← Nat.mul_assoc]
    exact Nat.mul_le_mul_right _ (scheduleFee_le hmin)
  have hcast : ((scheduleFee debt * coin : Nat) : Int) ≤ 100 * (debt * coin : Nat) := by
    exact_mod_cast hprod
  linarith

/-- The early-redeem fee times the price. -/
theorem earlyRedeemFeeZat_lt {debt : Nat} {rate pMint : Int} (hrate : 0 ≤ rate) (hp : 0 < pMint) :
    earlyRedeemFeeZat debt rate pMint * pMint < rate * (debt * coin : Nat) + pMint := by
  obtain ⟨rate, rfl⟩ := Int.eq_ofNat_of_zero_le hrate
  unfold earlyRedeemFeeZat
  split
  · rw [Int.zero_mul]
    positivity
  · rw [Int.toNat_natCast]
    refine (getD_toI64?_divCeil_lt hp).trans_le ?_
    refine Int.add_le_add_right (le_of_eq ?_) _
    rw [← Nat.cast_mul, Nat.mul_comm debt, Nat.mul_assoc]

/-! ## What an accepted record says -/

/-- Every class asks for a collateral of fifty times its fees. -/
theorem ratio_covers_fees {network : Network} {c : TermClass} (hc : c ∈ termClasses network) :
    0 ≤ c.earlyRedeemFeeBps ∧ 50 * (100 + c.earlyRedeemFeeBps) ≤ c.baseRatioBps := by
  have hall : ∀ c ∈ termClasses network,
      0 ≤ c.earlyRedeemFeeBps ∧ 50 * (100 + c.earlyRedeemFeeBps) ≤ c.baseRatioBps := by
    cases network <;> decide
  exact hall c hc

theorem termClass_inj {network : Network} {c c' : TermClass} (hc : c ∈ termClasses network)
    (hc' : c' ∈ termClasses network) (h : c.letter = c'.letter) : c = c' := by
  have hall : ∀ c ∈ termClasses network, ∀ c' ∈ termClasses network,
      c.letter = c'.letter → c = c' := by
    cases network <;> decide
  exact hall c hc c' hc' h

/-- The class of an active vault that was accepted, and the floor of its price. -/
theorem class_of_checkVault {network : Network} {v : YedVault}
    (hok : checkVault network v = .ok ()) (hactive : v.status = "ACTIVE") :
    ∃ c ∈ termClasses network, c.letter = v.termClass ∧ 0 < v.pMint.toInt ∧
      v.priceFloor c ≤ v.pMint.toInt.toNat := by
  obtain ⟨-, -, hok⟩ := Result.bind_eq_ok.mp hok
  obtain ⟨_, hprice, hterm⟩ := Result.bind_eq_ok.mp hok
  -- the term check finds the class, so the price check did too
  obtain ⟨b, hb, hletter⟩ : ∃ b ∈ termClasses network, b.letter = v.termClass := by
    rw [checkVaultTerm, if_neg (not_not.mpr hactive)] at hterm
    dsimp only at hterm
    split at hterm
    · rename_i c hfind
      split at hterm
      · rename_i hletter
        obtain ⟨blocks, -, hclass⟩ := Option.bind_eq_some_iff.mp hfind
        exact ⟨c, List.mem_of_find?_eq_some hclass, hletter⟩
      · cases hterm
    · cases hterm
  unfold checkVaultPrice at hprice
  rw [if_neg (fun h ↦ h.1 hactive)] at hprice
  obtain ⟨hrange, hprice⟩ := Result.guard_eq_ok.mp hprice
  rw [not_or, not_le] at hrange
  split at hprice
  · rename_i hnone
    have := List.find?_eq_none.mp hnone b hb
    simp [hletter] at this
  · rename_i c hfind
    refine ⟨c, List.mem_of_find?_eq_some hfind, ?_, hrange.1, ?_⟩
    · simpa using List.find?_some hfind
    · exact not_lt.mp (Result.guard_eq_ok.mp hprice).1

/-- The floor of the price, multiplied out: no more is lost than by a factor of two. -/
theorem debt_lt_of_priceFloor_le {v : YedVault} {c : TermClass} (hpos : 0 < v.pMint.toInt)
    (hcollateral : 0 < v.collateralZat.toInt) (hdebt : 0 ≤ v.mintedCents.toInt)
    (hratio : 0 ≤ c.baseRatioBps) (h : v.priceFloor c ≤ v.pMint.toInt.toNat) :
    v.mintedCents.toInt * c.baseRatioBps * coin < 2 * (v.pMint.toInt * v.collateralZat.toInt) := by
  unfold YedVault.priceFloor at h
  generalize v.mintedCents.toInt = debt at *
  generalize v.pMint.toInt = p at *
  generalize v.collateralZat.toInt = collateral at *
  have hone : max collateral 1 = collateral := max_eq_left hcollateral
  rw [hone] at h
  have hlt : debt.toNat * c.baseRatioBps.toNat * coin < (p.toNat + 1) * collateral.toNat := by
    have hdiv := Nat.lt_mul_div_succ (debt.toNat * c.baseRatioBps.toNat * coin)
      (Int.pos_iff_toNat_pos.mp hcollateral)
    refine hdiv.trans_le ?_
    rw [Nat.mul_comm]
    exact Nat.mul_le_mul_right _ (Nat.succ_le_succ h)
  have hcast : debt * c.baseRatioBps * coin < (p + 1) * collateral := by
    rw [← Int.toNat_of_nonneg hdebt, ← Int.toNat_of_nonneg hratio, ← Int.toNat_of_nonneg hpos.le,
      ← Int.toNat_of_nonneg hcollateral.le]
    exact_mod_cast hlt
  have htwice : (p + 1) * collateral ≤ 2 * (p * collateral) := by
    rw [← Int.mul_assoc]
    exact Int.mul_le_mul_of_nonneg_right (by omega) hcollateral.le
  exact hcast.trans_le htwice

/-- **The fees of a vault are bounded.**  An active vault that was accepted, with a collateral and a
debt that can be minted, is charged a protocol fee and an early-redeem fee of together at most four
percent of the collateral and two zatoshi. -/
theorem vault_fees_bounded {network : Network} {v : YedVault}
    (hok : checkVault network v = .ok ()) (hactive : v.status = "ACTIVE")
    (hcollateral : 0 < v.collateralZat.toInt) (hmin : minMintCents ≤ v.mintedCents.toInt)
    (hmax : v.mintedCents.toInt ≤ maxMintCents) :
    (∃ c ∈ termClasses network, c.letter = v.termClass) ∧
    ∃ fee, protocolFeeZat v.mintedCents.toInt.toNat v.pMint.toInt = .ok (some fee) ∧
      ∀ c ∈ termClasses network, c.letter = v.termClass →
        100 * (fee + earlyRedeemFeeZat v.mintedCents.toInt.toNat c.earlyRedeemFeeBps
          v.pMint.toInt) ≤ 4 * v.collateralZat.toInt + 200 := by
  obtain ⟨c, hc, hletter, hp, hfloor⟩ := class_of_checkVault hok hactive
  obtain ⟨debt, hdebt⟩ : ∃ debt : Nat, v.mintedCents.toInt = debt :=
    Int.eq_ofNat_of_zero_le (by omega)
  obtain ⟨hearly, hcovers⟩ := ratio_covers_fees hc
  have hworth := debt_lt_of_priceFloor_le hp hcollateral (by omega) (by omega) hfloor
  rw [hdebt] at hmin hmax hworth ⊢
  rw [Int.toNat_natCast]
  obtain ⟨fee, hfee, hfeelt⟩ := protocolFeeZat_lt (Int.ofNat_le.mp hmin) (Int.ofNat_le.mp hmax) hp
  refine ⟨⟨c, hc, hletter⟩, fee, hfee, fun c' hc' hletter' ↦ ?_⟩
  obtain rfl := termClass_inj hc' hc (hletter'.trans hletter.symm)
  have hearlylt := @earlyRedeemFeeZat_lt debt c'.earlyRedeemFeeBps v.pMint.toInt hearly hp
  generalize earlyRedeemFeeZat debt c'.earlyRedeemFeeBps v.pMint.toInt = early at hearlylt ⊢
  generalize v.pMint.toInt = p at *
  generalize v.collateralZat.toInt = collateral at *
  -- both fees times the price stay below the worth of the collateral
  have hbacked : 50 * ((100 + c'.earlyRedeemFeeBps) * (debt * coin : Nat)) ≤
      debt * c'.baseRatioBps * coin := by
    generalize coin = k
    calc
      50 * ((100 + c'.earlyRedeemFeeBps) * (debt * k : Nat))
        = 50 * (100 + c'.earlyRedeemFeeBps) * (debt * k : Nat) := by ring
      _ ≤ c'.baseRatioBps * (debt * k : Nat) :=
        Int.mul_le_mul_of_nonneg_right hcovers (Int.natCast_nonneg _)
      _ = debt * c'.baseRatioBps * k := by
        push_cast
        ring
  have htotal : (100 * (fee + early)) * p < (4 * collateral + 200) * p := by
    linarith
  exact (lt_of_mul_lt_mul_right htotal hp.le).le

/-- A vault with a debt of a hundred dollars on three hundred YEC, minted at a dollar. -/
def sampleYedVault : YedVault :=
  ⟨"v", "ACTIVE", "A", 100, 148, 172, 10000, 30000000000, 1000000⟩

/-- Its fees are two percent. -/
theorem vault_fees_sample : checkVault .regtest sampleYedVault = .ok () ∧
    ∃ fee, protocolFeeZat 10000 1000000 = .ok (some fee) ∧
      100 * (fee + earlyRedeemFeeZat 10000 500 1000000) ≤ 4 * 30000000000 + 200 := by
  have hok : checkVault .regtest sampleYedVault = .ok () := by decide
  obtain ⟨-, fee, hfee, hle⟩ := vault_fees_bounded hok rfl (by decide) (by decide) (by decide)
  exact ⟨hok, fee, hfee, hle ⟨"A", 48, 96, 30000, 500⟩ List.mem_cons_self rfl⟩

end Yew.Build
