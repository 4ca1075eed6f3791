import Yew.Build.Estimate
import Mathlib.Tactic.FieldSimp
import Mathlib.Tactic.Linarith
import Mathlib.Tactic.Positivity

/-!
# What an accepted estimate locks

The server's figure lies between the exact requirement and that requirement rounded up, so that it
has the same rounding.  The multiplier of the ratio is pinned, so that the ratio is the one of the
class.  Of the heights only the reference height is cast, and it is what the cast keeps that is
compared.

The check is `check_estimate` of `core/src/build/terms.rs`.  Its specification is a `Safe` triple:
no step of it panics, and what it returns is a sound lock.  The cast of the reference height keeps
its low 32 bits.
-/

namespace Yew.Build

open Keys Script Checked

/-! ## The figures of the rule -/

/-- The requirement, exactly: `cents · ratio · COIN / pMint`, rounded up. -/
def exactRequirement (cents : Nat) (ratioBps pMint : Int) : Int :=
  ⌈(cents * ratioBps * coin : ℚ) / pMint⌉

/-- The least multiple of `g` from `n` on. -/
def roundUp (n g : Int) : Int := g * ⌈(n : ℚ) / g⌉

theorem ceil_eq_divCeil (a : Nat) {b : Nat} (hb : 0 < b) : ⌈(a : ℚ) / b⌉ = divCeil a b := by
  have hpos : (0 : ℚ) < b := by exact_mod_cast hb
  have hdiv := Nat.div_add_mod (a + b - 1) b
  have hmod := Nat.mod_lt (a + b - 1) hb
  rw [Int.ceil_eq_iff, divCeil, lt_div_iff₀ hpos, div_le_iff₀ hpos]
  generalize (a + b - 1) / b = q at hdiv ⊢
  have hupper : a ≤ q * b := by
    rw [Nat.mul_comm]
    omega
  have hlower : q * b < a + b := by
    rw [Nat.mul_comm]
    omega
  refine ⟨?_, by exact_mod_cast hupper⟩
  have hlower' : (q : ℚ) * b < a + b := by exact_mod_cast hlower
  push_cast
  linarith

theorem roundUp_eq (n : Int) :
    roundUp n requiredGranularityZat = n + (1000 - n % 1000) % 1000 := by
  have hceil := Rat.ceil_intCast_div_natCast n 1000
  rw [roundUp, requiredGranularityZat]
  push_cast at hceil ⊢
  rw [hceil]
  omega

/-! ## Collateral -/

/-- What lies between a figure and its rounding is rounded alike. -/
theorem collateralFor_eq {lower required : Int} (hpos : 0 ≤ lower) (hlower : lower ≤ required)
    (hupper : required ≤ roundUp lower requiredGranularityZat)
    (hfits : roundUp lower requiredGranularityZat ≤ i64Max) :
    collateralFor required = .ok (roundUp lower requiredGranularityZat) := by
  rw [roundUp_eq] at hupper hfits ⊢
  have hmod : required.tmod 1000 = required % 1000 := Int.tmod_eq_emod_of_nonneg (by omega)
  have hmax : i64Max = 2 ^ 63 - 1 := rfl
  rw [collateralFor, hmod]
  split_ifs with h
  · have hgap : required + (1000 - required % 1000) = lower + (1000 - lower % 1000) % 1000 := by
      omega
    simp only [i64, within]
    rw [if_pos (by omega)]
    simp only [bind, Except.bind]
    rw [if_pos (by omega), hgap]
  · congr 1
    omega

/-! ## The parts of the check -/

theorem ratio_of_class {network : Network} {lockBlocks : UInt32} {c : TermClass}
    (h : classForLockBlocks network lockBlocks = some c) :
    0 < c.baseRatioBps ∧ c.baseRatioBps ≤ 50000 := by
  have hmem := List.mem_of_find?_eq_some h
  have hall : ∀ c ∈ termClasses network, 0 < c.baseRatioBps ∧ c.baseRatioBps ≤ 50000 := by
    cases network <;> decide
  exact hall c hmem

theorem safe_checkCents (cents : UInt64) :
    Safe (checkCents cents) fun _ ↦ minMintCents ≤ cents.toNat ∧ cents.toNat ≤ maxMintCents :=
  .guard fun h ↦ .of_ok (not_not.mp h)

theorem safe_classFor (network : Network) (lockBlocks : UInt32) :
    Safe (classFor network lockBlocks) fun c ↦ classForLockBlocks network lockBlocks = some c := by
  unfold classFor
  cases h : classForLockBlocks network lockBlocks with
  | none => exact .of_error _
  | some c => exact .of_ok rfl

/-- The claim height of an accepted estimate, from what the cast keeps of the reference height. -/
theorem safe_checkHeights (network : Network) (tip : UInt64) (lockBlocks : UInt32)
    (e : YedCollateralEstimate) :
    Safe (checkHeights network tip lockBlocks e) fun _ ↦
      1 ≤ e.refHeight.toInt ∧
      e.claimHeight.toInt = e.refHeight.toInt % 2 ^ 32 + lockBlocks.toNat + graceOf network ∧
        e.claimHeight.toInt < locktimeThreshold := by
  have hgrace : graceOf network ≤ 34560 := by cases network <;> decide
  have hlock := lockBlocks.toNat_lt
  have hmax := e.refHeight.toInt_lt
  have hwindow : refWindow = 40 := rfl
  refine .guard fun href ↦ ?_
  obtain ⟨hpos, -⟩ := not_or.mp href
  refine (Safe.u64 (by omega)).bind ?_
  rintro _ rfl
  refine .guard fun _ ↦ (Safe.i64 (by omega)).bind ?_
  rintro _ rfl
  refine .guard fun hlockHeight ↦ (Safe.i64 (by omega)).bind ?_
  rintro _ rfl
  refine .guard fun hclaim ↦ .guard fun hbelow ↦ .of_ok ?_
  omega

theorem safe_checkPrice (e : YedCollateralEstimate) :
    Safe (checkPrice e) fun _ ↦ 0 < e.pMint.toInt :=
  .guard fun h ↦ .guard fun _ ↦ .of_ok (not_le.mp h)

theorem safe_checkRatio {c : TermClass} (hc : 0 < c.baseRatioBps ∧ c.baseRatioBps ≤ 50000)
    (e : YedCollateralEstimate) : Safe (checkRatio c e) (· = c.baseRatioBps) := by
  refine .guard fun _ ↦ .guard fun hsigma ↦ ?_
  have hpinned : e.sigmaMultBps.toInt = 10000 := by
    simp only [sigmaMultMinBps, sigmaMultMaxBps] at hsigma
    omega
  rw [hpinned]
  refine (Safe.i64 (by omega)).bind ?_
  rintro _ rfl
  refine .guard fun _ ↦ .of_ok ?_
  exact Int.mul_tdiv_cancel _ (by decide)

theorem safe_requiredZat {cents : Nat} {ratio pMint : Int} (hcents : cents ≤ maxMintCents)
    (hratio : 0 < ratio ∧ ratio ≤ 50000) (hprice : 0 < pMint) :
    Safe (requiredZat cents ratio pMint) fun o ↦ ∀ z, o = some z →
      z = exactRequirement cents ratio pMint ∧ 0 ≤ z ∧ z ≤ i64Max := by
  obtain ⟨ratio, rfl⟩ := Int.eq_ofNat_of_zero_le hratio.1.le
  obtain ⟨pMint, rfl⟩ := Int.eq_ofNat_of_zero_le hprice.le
  have hratio' : ratio ≤ 50000 := Int.ofNat_le.mp hratio.2
  have h₁ : cents * ratio < 340282366920938463463374607431768211456 :=
    (Nat.mul_le_mul hcents hratio').trans_lt (by decide)
  have h₂ : cents * ratio * coin < 340282366920938463463374607431768211456 :=
    (Nat.mul_le_mul_right coin (Nat.mul_le_mul hcents hratio')).trans_lt (by decide)
  have hexact : exactRequirement cents ratio pMint = divCeil (cents * ratio * coin) pMint := by
    rw [← ceil_eq_divCeil _ (Int.natCast_pos.mp hprice), exactRequirement]
    push_cast
    rfl
  rw [requiredZat, if_neg (by omega), ← Int.natCast_mul]
  refine (Safe.u128_natCast h₁).bind ?_
  rintro _ rfl
  rw [← Int.natCast_mul]
  refine (Safe.u128_natCast h₂).bind ?_
  rintro _ rfl
  refine .of_ok fun z hz ↦ ?_
  rw [Int.toNat_natCast, Int.toNat_natCast, toI64?] at hz
  split_ifs at hz with hfits
  cases hz
  exact ⟨hexact.symm, Int.natCast_nonneg _, hfits⟩

theorem safe_checkRequired {lower : Int} (hpos : 0 ≤ lower) (e : YedCollateralEstimate) :
    Safe (checkRequired lower e) fun _ ↦
      lower ≤ e.requiredZat.toInt ∧
        e.requiredZat.toInt ≤ roundUp lower requiredGranularityZat ∧
          roundUp lower requiredGranularityZat ≤ i64Max := by
  have hmod : lower.tmod 1000 = lower % 1000 := Int.tmod_eq_emod_of_nonneg hpos
  have hgap : (1000 - lower % 1000).tmod 1000 = (1000 - lower % 1000) % 1000 :=
    Int.tmod_eq_emod_of_nonneg (by omega)
  have hround := roundUp_eq lower
  rw [checkRequired]
  refine .guard fun hlower ↦ ?_
  rw [show requiredGranularityZat = 1000 from rfl] at hround ⊢
  rw [hmod]
  refine (Safe.i64 (by omega)).bind ?_
  rintro _ rfl
  rw [hgap, checkedAdd, ← hround]
  by_cases hfits : roundUp lower 1000 ≤ i64Max
  · rw [if_pos hfits]
    exact .guard fun hupper ↦ .of_ok ⟨not_lt.mp hlower, not_lt.mp hupper, hfits⟩
  · rw [if_neg hfits]
    exact .of_error _

/-! ## The protocol fee -/

/-- The loop over the bands, at no more than one percent: what is priced so far is part of the debt
below `lo`. -/
theorem safe_bandUnits {debt : Int} (hdebt : debt ≤ 10000000) {bands : List (Int × Int)}
    (hbands : ∀ b ∈ bands, 0 ≤ b.1 ∧ b.1 ≤ 10000000 ∧ 0 ≤ b.2 ∧ b.2 ≤ 100) {lo units : Int}
    (hlo : 0 ≤ lo ∧ lo ≤ 10000000) (hunits : 0 ≤ units ∧ units ≤ 100 * min lo debt) :
    Safe (bandUnits debt bands lo units) fun u ↦ 0 ≤ u ∧ u ≤ 100 * debt := by
  induction bands generalizing lo units with
  | nil => exact .of_ok (by omega)
  | cons b bands ih =>
    obtain ⟨hi, rate⟩ := b
    obtain ⟨⟨hhi, hhi', hrate, hrate'⟩, hbands⟩ := List.forall_mem_cons.mp hbands
    dsimp only at hhi hhi' hrate hrate'
    obtain ⟨top, htop⟩ : ∃ top, (if hi = 0 then debt else min debt hi) = top := ⟨_, rfl⟩
    have hle : top ≤ debt ∧ (hi ≠ 0 → top ≤ hi) := by
      split_ifs at htop <;> omega
    have hge : -10000000 ≤ top := by
      split_ifs at htop <;> omega
    rw [bandUnits, htop]
    refine (Safe.i64 (by omega)).bind ?_
    rintro _ rfl
    refine .ite (fun _ ↦ .of_ok (by omega)) fun hpos ↦ ?_
    have hprod : 0 ≤ (top - lo) * max rate 0 ∧ (top - lo) * max rate 0 ≤ (top - lo) * 100 :=
      ⟨Int.mul_nonneg (by omega) (by omega), Int.mul_le_mul_of_nonneg_left (by omega) (by omega)⟩
    generalize (top - lo) * max rate 0 = priced at hprod ⊢
    have hpriced : saturate priced = priced := saturate_of_fits (by omega)
    rw [hpriced, saturate_of_fits (by omega)]
    refine .ite (fun _ ↦ .of_ok (by omega)) fun hne ↦ ?_
    exact ih hbands ⟨hhi, hhi'⟩ (by omega)

theorem safe_protocolFeeUnits {debt : Nat} (hdebt : debt ≤ maxMintCents) :
    Safe (protocolFeeUnits debt) fun units ↦ 0 ≤ units ∧ units ≤ 1000000000 := by
  have hmax : maxMintCents = 10000000 := rfl
  have hcap : min (debt : Int) i64Max = debt := min_eq_left (by rw [i64Max]; omega)
  refine .ite (fun _ ↦ .of_ok (by decide)) fun _ ↦ ?_
  rw [hcap]
  refine (safe_bandUnits (by omega) (by decide) (by decide) (by omega)).bind fun units hunits ↦ ?_
  refine (Safe.i64 (by decide)).bind ?_
  rintro _ rfl
  have hfloor : protocolFeeFloorCents * bps = 1000000 := rfl
  rw [hfloor]
  exact .of_ok (by omega)

theorem safe_protocolFeeCents {debt : Nat} (hdebt : debt ≤ maxMintCents) :
    Safe (protocolFeeCents debt) fun _ ↦ True := by
  have hbps : bps = 10000 := rfl
  refine (safe_protocolFeeUnits hdebt).bind fun units hunits ↦ (Safe.i64 (by omega)).bind ?_
  rintro _ rfl
  refine (Safe.i64 (by omega)).bind ?_
  rintro _ rfl
  exact .of_ok trivial

theorem safe_protocolFeeZat {debt : Nat} (hdebt : debt ≤ maxMintCents) (pMint : Int) :
    Safe (protocolFeeZat debt pMint) fun _ ↦ True := by
  have hcoin : coin = 100000000 := rfl
  refine .ite (fun _ ↦ .of_ok trivial) fun _ ↦ ?_
  refine (safe_protocolFeeUnits hdebt).bind fun units hunits ↦ ?_
  rw [hcoin]
  refine (Safe.u128 (by omega)).bind ?_
  rintro _ rfl
  exact .of_ok trivial

theorem safe_checkProtocolFee {debt : Nat} (hdebt : debt ≤ maxMintCents) (what : String)
    (pMint reportedCents reportedZat : Int) :
    Safe (checkProtocolFee what debt pMint reportedCents reportedZat) fun _ ↦ True :=
  (safe_protocolFeeCents hdebt).bind fun _ _ ↦ .guard fun _ ↦ .ite
    (fun _ ↦ (safe_protocolFeeZat hdebt pMint).bind fun _ _ ↦ .guard fun _ ↦ .of_ok trivial)
    fun _ ↦ .of_ok trivial

/-! ## The whole check -/

/-- What an accepted estimate says. -/
structure Accepted (network : Network) (cents : UInt64) (lockBlocks : UInt32)
    (e : YedCollateralEstimate) (c : TermClass) : Prop where
  isClass : classForLockBlocks network lockBlocks = some c
  refHeight : 1 ≤ e.refHeight.toInt
  claimHeight :
    e.claimHeight.toInt = e.refHeight.toInt % 2 ^ 32 + lockBlocks.toNat + graceOf network
  below : e.claimHeight.toInt < locktimeThreshold
  collateral : collateralFor e.requiredZat.toInt =
    .ok (roundUp (exactRequirement cents.toNat c.baseRatioBps e.pMint.toInt)
      requiredGranularityZat)

theorem safe_checkEstimate (network : Network) (tip cents : UInt64) (lockBlocks : UInt32)
    (e : YedCollateralEstimate) :
    Safe (checkEstimate network tip cents lockBlocks e) (Accepted network cents lockBlocks e) := by
  refine (safe_checkCents cents).bind fun _ hcents ↦ ?_
  refine (safe_classFor network lockBlocks).bind fun c hc ↦ .guard fun _ ↦ .guard fun _ ↦ ?_
  refine (safe_checkHeights network tip lockBlocks e).bind fun _ hheights ↦ ?_
  refine (safe_checkPrice e).bind fun _ hprice ↦ ?_
  refine (safe_checkRatio (ratio_of_class hc) e).bind ?_
  rintro _ rfl
  refine (safe_requiredZat hcents.2 (ratio_of_class hc) hprice).bind fun o hlower ↦ ?_
  cases o with
  | none => exact .of_error _
  | some lower =>
    obtain ⟨rfl, hpos, -⟩ := hlower lower rfl
    refine (safe_checkRequired hpos e).bind fun _ hrequired ↦ ?_
    refine (safe_checkProtocolFee hcents.2 _ _ _ _).bind fun _ _ ↦ .of_ok ?_
    exact ⟨hc, hheights.1, hheights.2.1, hheights.2.2,
      collateralFor_eq hpos hrequired.1 hrequired.2.1 hrequired.2.2⟩

/-- An estimate of the class `c` locks the exact requirement, rounded up, and counts its claim
height from its reference height. -/
structure Exact (network : Network) (cents : UInt64) (lockBlocks : UInt32)
    (e : YedCollateralEstimate) (c : TermClass) : Prop where
  isClass : classForLockBlocks network lockBlocks = some c
  collateral : collateralFor e.requiredZat.toInt =
    .ok (roundUp (exactRequirement cents.toNat c.baseRatioBps e.pMint.toInt)
      requiredGranularityZat)
  claimHeight : e.claimHeight.toInt = e.refHeight.toInt + lockBlocks.toNat + graceOf network
  below : e.claimHeight.toInt < locktimeThreshold

/-- Nothing overflows, and what is accepted is exact, up to a reference height of 32 bits. -/
theorem checkEstimate_exact_iff (network : Network) (tip cents : UInt64) (lockBlocks : UInt32)
    (e : YedCollateralEstimate) :
    checkEstimate network tip cents lockBlocks e ≠ .error .panic ∧
      ∀ c, checkEstimate network tip cents lockBlocks e = .ok c →
        (Exact network cents lockBlocks e c ↔ e.refHeight.toInt < 2 ^ 32) := by
  have hsafe := safe_checkEstimate network tip cents lockBlocks e
  refine ⟨hsafe.ne_panic, fun c hc ↦ ?_⟩
  have haccepted := hsafe.of_eq_ok hc
  have href := haccepted.refHeight
  have hclaim := haccepted.claimHeight
  constructor
  · intro hexact
    have hclaim' := hexact.claimHeight
    omega
  · intro hlt
    exact ⟨haccepted.isClass, haccepted.collateral, by omega, haccepted.below⟩

/-- The smallest mint on regtest at one dollar, with the reference height ten below the tip. -/
def sampleEstimate (refHeight lockHeight claimHeight : Int64) : YedCollateralEstimate where
  termClass := "A"
  refHeight
  lockHeight
  claimHeight
  armed := false
  pMint := 1000000
  xMint := 0
  aMint := 0
  baseRatioBps := 30000
  sigmaMultBps := 10000
  minRatioBps := 30000
  requiredZat := 30000000000
  protocolFeeCents := 0
  protocolFeeZat := 0
  mintBlocked := false
  mintBlockedReason := ""

theorem sampleEstimate_accepted :
    checkEstimate .regtest 110 10000 48 (sampleEstimate 100 148 172) =
        .ok ⟨"A", 48, 96, 30000, 500⟩ ∧
      checkEstimate .regtest 4294967406 10000 48 (sampleEstimate 4294967396 148 172) =
        .ok ⟨"A", 48, 96, 30000, 500⟩ := by
  decide +kernel

theorem checkEstimate_exact_sample :
    Exact .regtest 10000 48 (sampleEstimate 100 148 172) ⟨"A", 48, 96, 30000, 500⟩ :=
  ((checkEstimate_exact_iff ..).2 _ sampleEstimate_accepted.1).mpr (by decide)

/-- A tip past `2 ^ 32`: the heights are counted from what the cast leaves. -/
theorem not_exact_truncated :
    checkEstimate .regtest 4294967406 10000 48 (sampleEstimate 4294967396 148 172) =
        .ok ⟨"A", 48, 96, 30000, 500⟩ ∧
      (sampleEstimate 4294967396 148 172).claimHeight.toInt ≠
        (sampleEstimate 4294967396 148 172).refHeight.toInt + 48 + graceOf .regtest := by
  exact ⟨sampleEstimate_accepted.2, by decide⟩

end Yew.Build
