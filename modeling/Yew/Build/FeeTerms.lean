import Yew.Build.VaultCheck

/-!
# The fee terms of a server

A server reports two rates per kilobyte, the price and the targets they come from, a flat fee and a
cap.  The wallet recomputes the rates and bounds the rest.  A fee is then the larger of the flat fee
and the rate times the size, up to the cap.

A size is a `usize`, which the code casts to an `i64`.

What is proved of the terms is proved of every server: the rates, the flat fee and the cap are
arguments, and the bounds are what the check leaves of them.

## Source

* `core/src/build/terms.rs`: `PqTerms::fee`, `pq_terms`, `check_falcon_activation`
* `core/src/params.rs`: `Network::pq_falcon_height`, `pq_size_fee`, `attested_rate_zat_per_kb`
* `core/src/wallet.rs`: `Wallet::pq_terms`
-/

namespace Yew.Build

open Keys Pq Checked

/-! ## What a server reports -/

/-- The fields of `YellowbackPqParams`. -/
structure YellowbackPqParams where
  schemes : List Int
  falconActive : Bool
  falconHeight : Int
  feeRateZatPerKb : Int
deriving DecidableEq

/-- The fields of a `YellowbackNetworkRate` that are read. -/
structure YellowbackNetworkRate where
  usdPerKbMicro : Int
  zatPerKb : Int
  maxTxFeeZat : Int
deriving DecidableEq

/-- The fields of a `YellowbackNetworkFee` that are read. -/
structure YellowbackNetworkFee where
  plain : Option YellowbackNetworkRate
  yellowback : Option YellowbackNetworkRate
  floorZatPerKb : Int
  fallbackZatPerKb : Int
  flatZat : Int
  priceMicroUsd : Int
deriving DecidableEq

/-- The fields of `YellowbackParams` that `pq_terms` reads.  Of `attest` it reads the
`mintPayloadVersion`, and of `fees` the `network`. -/
structure YellowbackParams where
  pq : Option YellowbackPqParams
  attest : Option Int
  fees : Option (Option YellowbackNetworkFee)
deriving DecidableEq

/-- `RELAY_FLOOR_ZAT_PER_KB`. -/
def relayFloorZatPerKb : Int := 100

/-- `MAX_PQ_FEE_RATE_ZAT_PER_KB`. -/
def maxPqFeeRateZatPerKb : Int := 100 * relayFloorZatPerKb

/-- `ATTESTED_FEE_FLOOR_ZAT_PER_KB`. -/
def attestedFeeFloorZatPerKb : Int := 5000

/-- `MAX_USD_PER_KB_MICRO`. -/
def maxUsdPerKbMicro : Int := 1000000

/-- `MAX_FEE_FLOOR_ZAT_PER_KB`. -/
def maxFeeFloorZatPerKb : Int := 20 * attestedFeeFloorZatPerKb

/-- `MAX_YED_TX_FEE_ZAT`: 10 YEC. -/
def maxYedTxFeeZat : Int := 10 * coin

/-- `MINT_VERSION` of a payload. -/
def mintPayloadVersion : Int := 4

/-- `pq_falcon_height`. -/
def pqFalconHeight : Network → Option Nat
  | .mainnet | .testnet => some 0
  | .regtest => none

/-- `attested_rate_zat_per_kb`. -/
def attestedRateZatPerKb (usdPerKbMicro priceMicroUsd floor : Int) : Int :=
  if usdPerKbMicro ≤ 0 ∨ priceMicroUsd ≤ 0 then max floor 0
  else max ((toI64? (divCeil (usdPerKbMicro.toNat * coin) priceMicroUsd.toNat)).getD i64Max)
    (max floor 0)

/-- `u64::try_from` of an `i64`. -/
def toU64? (n : Int) : Option Nat := if 0 ≤ n then some n.toNat else none

/-- `u8::try_from` of an `i64`. -/
def toU8? (n : Int) : Option UInt8 :=
  if 0 ≤ n ∧ n < 256 then some (UInt8.ofNat n.toNat) else none

/-- A `bool` as `Display` writes it. -/
def showBool (b : Bool) : String := if b then "true" else "false"

/-- `check_falcon_activation`. -/
def checkFalconActivation (network : Network) (pq : YellowbackPqParams) : Checks Unit :=
  match pqFalconHeight network with
  | none => .ok ()
  | some expected =>
    if toU64? pq.falconHeight ≠ some expected ∨ (expected = 0 ∧ pq.falconActive = false) then
      inconsistent ("params.pq.falconHeight " ++ Text.decimalInt pq.falconHeight ++
        " / falconActive " ++ showBool pq.falconActive ++ " (this build expects " ++
        Text.decimal expected ++ " / active on " ++ network.chainName ++ ")")
    else .ok ()

/-- The schemes of `pq_terms`. -/
def checkSchemes (pq : YellowbackPqParams) : Checks Unit :=
  if !pq.schemes.contains (schemeSlhDsa.toNat : Int) ||
      (pq.schemes.any fun s ↦ !(toU8? s).any isKnownScheme) ||
      (pq.schemes.contains (schemeFnDsa.toNat : Int) && !pq.falconActive) then
    inconsistent ("params.pq.schemes " ++ Text.debugList (pq.schemes.map Text.decimalInt) ++
      " (falconActive " ++ showBool pq.falconActive ++ ")")
  else .ok ()

/-- The payload version of `pq_terms`. -/
def checkMintVersion (attest : Option Int) : Checks Unit :=
  match attest with
  | none => .ok ()
  | some version =>
    if version ≠ mintPayloadVersion then
      inconsistent ("params.attest.mintPayloadVersion " ++ Text.decimalInt version ++
        " (this build writes " ++ Text.decimalInt mintPayloadVersion ++ ")")
    else .ok ()

/-- A refusal of a field of `params.fees.network`. -/
def badNetwork {α : Type} (what : String) : Checks α := inconsistent ("params.fees.network." ++ what)

/-- The bounds of `params.fees.network`. -/
def checkNetworkFee (n : YellowbackNetworkFee) : Checks Unit :=
  if n.fallbackZatPerKb < 0 ∨ maxPqFeeRateZatPerKb < n.fallbackZatPerKb then
    badNetwork ("fallbackZatPerKB " ++ Text.decimalInt n.fallbackZatPerKb ++
      " (YEW accepts 0..=" ++ Text.decimalInt maxPqFeeRateZatPerKb ++ ")")
  else if n.floorZatPerKb < 0 ∨ maxFeeFloorZatPerKb < n.floorZatPerKb then
    badNetwork ("floorZatPerKB " ++ Text.decimalInt n.floorZatPerKb ++ " (YEW accepts 0..=" ++
      Text.decimalInt maxFeeFloorZatPerKb ++ ")")
  else if n.priceMicroUsd < 0 ∨ priceMaxMicroUsd < n.priceMicroUsd then
    badNetwork ("priceMicroUsd " ++ Text.decimalInt n.priceMicroUsd)
  else if n.flatZat < feeZat ∨ maxYedTxFeeZat < n.flatZat then
    badNetwork ("flatZat " ++ Text.decimalInt n.flatZat ++ " (at least " ++
      Text.decimalInt feeZat ++ ")")
  else .ok ()

/-- The floor of an attested rate. -/
def YellowbackNetworkFee.floorEff (n : YellowbackNetworkFee) : Int :=
  max n.floorZatPerKb n.fallbackZatPerKb

/-- What a rate has to be: the attested rate, or the fallback without a price or a target. -/
def YellowbackNetworkFee.wanted (n : YellowbackNetworkFee) (r : YellowbackNetworkRate) : Int :=
  if 0 < n.priceMicroUsd ∧ 0 < r.usdPerKbMicro then
    attestedRateZatPerKb r.usdPerKbMicro n.priceMicroUsd n.floorEff
  else n.fallbackZatPerKb

/-- A number with at least six digits. -/
def sixDigits (n : Nat) : String :=
  let ds := Nat.toDigits 10 n
  String.ofList (List.replicate (6 - ds.length) '0' ++ ds)

/-- `rate_of` of `pq_terms`. -/
def rateOf (n : YellowbackNetworkFee) (what : String) (r : Option YellowbackNetworkRate) :
    Checks Int :=
  match r with
  | none => badNetwork (what ++ " missing")
  | some r =>
    if r.usdPerKbMicro < 0 ∨ maxUsdPerKbMicro < r.usdPerKbMicro then
      badNetwork (what ++ ".usdPerKBMicro " ++ Text.decimalInt r.usdPerKbMicro ++
        " (YEW accepts 0..=" ++ Text.decimalInt maxUsdPerKbMicro ++ ")")
    else if r.zatPerKb ≠ n.wanted r then
      badNetwork (what ++ ".zatPerKB " ++ Text.decimalInt r.zatPerKb ++ " ($" ++
        Text.decimalInt (r.usdPerKbMicro.tdiv 1000000) ++ "." ++
        sixDigits (r.usdPerKbMicro.tmod 1000000).toNat ++ "/KB at " ++
        Text.decimalInt n.priceMicroUsd ++ " µUSD gives " ++ Text.decimalInt (n.wanted r) ++ ")")
    else .ok (max (n.wanted r) relayFloorZatPerKb)

/-- `pq_terms`. -/
def pqTerms (p : YellowbackParams) (network : Network) : Checks PqTerms :=
  match p.pq with
  | none => inconsistent "params.pq missing (rpcversion 7)"
  | some pq => do
    checkFalconActivation network pq
    checkSchemes pq
    checkMintVersion p.attest
    match p.fees.join with
    | none => inconsistent "params.fees.network missing (rpcversion 8)"
    | some n =>
      checkNetworkFee n
      let plain ← rateOf n "plain" n.plain
      let yed ← rateOf n "yellowback" n.yellowback
      if max pq.feeRateZatPerKb relayFloorZatPerKb ≠ plain then
        inconsistent ("params.pq.feeRateZatPerKB " ++ Text.decimalInt pq.feeRateZatPerKb ++
          " is not params.fees.network.plain.zatPerKB " ++ Text.decimalInt plain)
      else
        let cap := (n.yellowback.map YellowbackNetworkRate.maxTxFeeZat).getD 0
        if cap < n.flatZat then
          badNetwork ("yellowback.maxTxFeeZat " ++ Text.decimalInt cap ++ " (below flatZat " ++
            Text.decimalInt n.flatZat ++ ")")
        else return {
          feeRateZatPerKb := plain
          yedRateZatPerKb := yed
          floorRateZatPerKb := max (if 0 < n.priceMicroUsd then n.floorEff else n.fallbackZatPerKb)
            relayFloorZatPerKb
          flatZat := n.flatZat
          maxFeeZat := min cap maxYedTxFeeZat
          falconHeight := toU64? pq.falconHeight
          falconActive := pq.falconActive }

/-! ## Fees by size -/

/-- A `usize` cast to an `i64`. -/
def sizeI64 (size : UInt64) : Int := size.toInt64.toInt

/-- `pq_size_fee`. -/
def pqSizeFee (floor rateZatPerKb : Int) (size : UInt64) : Int :=
  let rate := max rateZatPerKb relayFloorZatPerKb
  let f := (saturate (rate * sizeI64 size)).tdiv 1000
  max floor (if f = 0 then rate else f)

/-- `rate_fee` of a `usize`. -/
def rateFeeOf (rateZatPerKb : Int) (size : UInt64) : Int :=
  let f := (saturate (max rateZatPerKb 0 * sizeI64 size)).tdiv 1000
  if f = 0 ∧ 0 < rateZatPerKb then rateZatPerKb else f

/-- The bytes of `yed_conventional_fee_estimate`, as a `usize`. -/
def yedInBytes (otherInputs : UInt64) (pqSchemes : List UInt8) : UInt64 :=
  UInt64.ofNat (150 * (otherInputs.toNat + 1) + (pqSchemes.map pqSpendInputSize).sum)

namespace PqTerms

/-- `fee`. -/
def fee (t : PqTerms) (size : UInt64) : Int :=
  max (min (pqSizeFee t.flatZat t.feeRateZatPerKb size) t.maxFeeZat) t.flatZat

/-- `yed_fee` of a `usize`. -/
def yedFeeOf (t : PqTerms) (size : UInt64) : Int :=
  max (min (max (rateFeeOf t.yedRateZatPerKb size) t.flatZat) t.maxFeeZat) t.flatZat

end PqTerms

/-- `yed_estimated_size` as a `usize`. -/
def yedEstimatedSizeOf (otherInputs : UInt64) (pqSchemes : List UInt8) : UInt64 :=
  UInt64.ofNat (yedEstimatedSize otherInputs.toNat pqSchemes)

/-- `yed_conventional_fee_estimate` of a `usize`. -/
def yedConventionalFeeEstimateOf (otherInputs : UInt64) (pqSchemes : List UInt8) : Int :=
  if pqSchemes.isEmpty then 0
  else zip317ConventionalFee (yedInBytes otherInputs pqSchemes).toNat yedOutputBytesEstimate 0

/-- `yed_network_fee` of a `usize`. -/
def PqTerms.yedNetworkFeeOf (t : PqTerms) (otherInputs : UInt64) (pqSchemes : List UInt8) : Int :=
  max (t.yedFeeOf (yedEstimatedSizeOf otherInputs pqSchemes))
    (yedConventionalFeeEstimateOf otherInputs pqSchemes)

/-! ## What was accepted -/

/-- The terms of a network fee that was accepted. -/
structure Accepts (n : YellowbackNetworkFee) (plain yellowback : YellowbackNetworkRate)
    (t : PqTerms) : Prop where
  isPlain : n.plain = some plain
  isYellowback : n.yellowback = some yellowback
  feeRate : t.feeRateZatPerKb = max (n.wanted plain) relayFloorZatPerKb
  yedRate : t.yedRateZatPerKb = max (n.wanted yellowback) relayFloorZatPerKb
  flat : t.flatZat = n.flatZat
  flat_le : feeZat ≤ n.flatZat ∧ n.flatZat ≤ maxYedTxFeeZat
  cap : t.maxFeeZat = min yellowback.maxTxFeeZat maxYedTxFeeZat
  cap_le : n.flatZat ≤ yellowback.maxTxFeeZat

theorem rateOf_eq_ok {n : YellowbackNetworkFee} {what : String} {r : Option YellowbackNetworkRate}
    {rate : Int} (h : rateOf n what r = .ok rate) :
    ∃ r', r = some r' ∧ rate = max (n.wanted r') relayFloorZatPerKb := by
  unfold rateOf at h
  split at h
  · cases h
  · rename_i r'
    obtain ⟨-, -, h⟩ := Result.guard_eq_ok.mp h |>.imp_right Result.guard_eq_ok.mp
    exact ⟨r', rfl, (Except.ok.inj h).symm⟩

theorem flat_of_checkNetworkFee {n : YellowbackNetworkFee} {u : Unit}
    (h : checkNetworkFee n = .ok u) : feeZat ≤ n.flatZat ∧ n.flatZat ≤ maxYedTxFeeZat := by
  obtain ⟨-, h⟩ := Result.guard_eq_ok.mp h
  obtain ⟨-, h⟩ := Result.guard_eq_ok.mp h
  obtain ⟨-, h⟩ := Result.guard_eq_ok.mp h
  obtain ⟨h, -⟩ := Result.guard_eq_ok.mp h
  rw [not_or, not_lt, not_lt] at h
  exact h

theorem pqTerms_eq_ok {p : YellowbackParams} {network : Network} {t : PqTerms}
    (h : pqTerms p network = .ok t) :
    ∃ n plain yellowback, p.fees = some (some n) ∧ Accepts n plain yellowback t := by
  unfold pqTerms at h
  split at h
  · cases h
  obtain ⟨_, -, h⟩ := Result.bind_eq_ok.mp h
  obtain ⟨_, -, h⟩ := Result.bind_eq_ok.mp h
  obtain ⟨_, -, h⟩ := Result.bind_eq_ok.mp h
  split at h
  · cases h
  rename_i n hn
  obtain ⟨_, hchecked, h⟩ := Result.bind_eq_ok.mp h
  obtain ⟨plain, hplain, h⟩ := Result.bind_eq_ok.mp h
  obtain ⟨yed, hyed, h⟩ := Result.bind_eq_ok.mp h
  obtain ⟨-, hcap, h⟩ := Result.guard_eq_ok.mp h |>.imp_right Result.guard_eq_ok.mp
  obtain ⟨r, hr, rfl⟩ := rateOf_eq_ok hplain
  obtain ⟨y, hy, rfl⟩ := rateOf_eq_ok hyed
  rw [hy] at hcap h
  obtain rfl := Except.ok.inj h
  exact ⟨n, r, y, Option.join_eq_some_iff.mp hn, hr, hy, rfl, rfl, rfl,
    flat_of_checkNetworkFee hchecked, rfl, not_lt.mp hcap⟩

/-! ## The order of fees -/

section Sizes

variable {size size' : UInt64}

theorem sizeI64_eq (h : (size.toNat : Int) ≤ i64Max) : sizeI64 size = size.toNat := by
  have hmax : i64Max = 9223372036854775807 := rfl
  show size.toBitVec.toInt = _
  rw [BitVec.toInt_eq_toNat_bmod, UInt64.toNat_toBitVec]
  exact Int.bmod_eq_of_le (by omega) (by omega)

/-- From one byte on, the rounding of `CFeeRate::GetFee` does not reach above a flat fee. -/
theorem max_roundUp_eq {flat rate : Int} (hflat : feeZat ≤ flat) (hrate : 0 < rate)
    (h : 1 ≤ size.toNat) (hfits : (size.toNat : Int) ≤ i64Max) :
    max flat (if (saturate (rate * sizeI64 size)).tdiv 1000 = 0 then rate
        else (saturate (rate * sizeI64 size)).tdiv 1000) =
      max flat (min (rate * size.toNat) i64Max / 1000) := by
  have hmax : i64Max = 9223372036854775807 := rfl
  have hfee : feeZat = 1000 := rfl
  have hle : rate ≤ rate * size.toNat := le_mul_of_one_le_right hrate.le (by exact_mod_cast h)
  rw [sizeI64_eq hfits]
  generalize rate * (size.toNat : Int) = product at hle ⊢
  have hsat : saturate product = min product i64Max := by
    unfold saturate
    omega
  rw [hsat, Int.tdiv_eq_ediv_of_nonneg (by omega)]
  split
  · omega
  · rfl

/-- The fee of a rate, a flat fee and a cap. -/
theorem clamped_mono {flat cap rate : Int} (hrate : 0 ≤ rate) (hle : size ≤ size') :
    max (min (max flat (min (rate * size.toNat) i64Max / 1000)) cap) flat ≤
      max (min (max flat (min (rate * size'.toNat) i64Max / 1000)) cap) flat := by
  refine max_le_max_right _ (min_le_min_right _ (max_le_max_left _ ?_))
  refine Int.ediv_le_ediv (by decide) (min_le_min_right _ ?_)
  exact mul_le_mul_of_nonneg_left (by exact_mod_cast UInt64.le_iff_toNat_le.mp hle) hrate

end Sizes

/-- Fees that no server can inflate, nor turn down as a transaction grows. -/
structure PqTerms.Bounded (t : PqTerms) : Prop where
  flat : feeZat ≤ t.flatZat
  fee : ∀ size, t.flatZat ≤ t.fee size ∧ t.fee size ≤ maxYedTxFeeZat
  yedFee : ∀ size, t.flatZat ≤ t.yedFeeOf size ∧ t.yedFeeOf size ≤ maxYedTxFeeZat
  fee_mono : ∀ size size' : UInt64, 1 ≤ size → size ≤ size' → (size'.toNat : Int) ≤ i64Max →
    t.fee size ≤ t.fee size'
  yedFee_mono : ∀ size size' : UInt64, 1 ≤ size → size ≤ size' → (size'.toNat : Int) ≤ i64Max →
    t.yedFeeOf size ≤ t.yedFeeOf size'
  network : ∀ otherInputs pqSchemes, t.yedNetworkFeeOf otherInputs pqSchemes ≤
    max maxYedTxFeeZat (yedConventionalFeeEstimateOf otherInputs pqSchemes)
  network_mono : ∀ (n n' : UInt64) (pq more : List UInt8), n ≤ n' →
    (yedEstimatedSize n'.toNat (pq ++ more) : Int) ≤ i64Max →
    t.yedNetworkFeeOf n pq ≤ t.yedNetworkFeeOf n' (pq ++ more)

section Terms

variable {n : YellowbackNetworkFee} {plain yellowback : YellowbackNetworkRate} {t : PqTerms}

theorem Accepts.rates_pos (h : Accepts n plain yellowback t) :
    relayFloorZatPerKb ≤ t.feeRateZatPerKb ∧ relayFloorZatPerKb ≤ t.yedRateZatPerKb := by
  rw [h.feeRate, h.yedRate]
  exact ⟨le_max_right _ _, le_max_right _ _⟩

theorem Accepts.within (h : Accepts n plain yellowback t) (x : Int) :
    t.flatZat ≤ max (min x t.maxFeeZat) t.flatZat ∧
      max (min x t.maxFeeZat) t.flatZat ≤ maxYedTxFeeZat := by
  refine ⟨le_max_right _ _, max_le ((min_le_right _ _).trans ?_) ?_⟩
  · rw [h.cap]
    exact min_le_right _ _
  · rw [h.flat]
    exact h.flat_le.2

theorem Accepts.fee_eq (h : Accepts n plain yellowback t) {size : UInt64} (hone : 1 ≤ size)
    (hfits : (size.toNat : Int) ≤ i64Max) :
    t.fee size = max (min (max t.flatZat (min (t.feeRateZatPerKb * size.toNat) i64Max / 1000))
      t.maxFeeZat) t.flatZat := by
  have hrate := h.rates_pos.1
  have hpos : 0 < t.feeRateZatPerKb := lt_of_lt_of_le (by decide) hrate
  rw [PqTerms.fee, pqSizeFee, max_eq_left hrate, max_roundUp_eq (by rw [h.flat]; exact h.flat_le.1) hpos
    (UInt64.le_iff_toNat_le.mp hone) hfits]

theorem Accepts.yedFeeOf_eq (h : Accepts n plain yellowback t) {size : UInt64} (hone : 1 ≤ size)
    (hfits : (size.toNat : Int) ≤ i64Max) :
    t.yedFeeOf size = max (min (max t.flatZat (min (t.yedRateZatPerKb * size.toNat) i64Max / 1000))
      t.maxFeeZat) t.flatZat := by
  have hpos : 0 < t.yedRateZatPerKb := lt_of_lt_of_le (by decide) h.rates_pos.2
  rw [PqTerms.yedFeeOf, rateFeeOf, max_comm (ite _ _ _)]
  simp only [hpos, and_true, max_eq_left hpos.le]
  rw [max_roundUp_eq (by rw [h.flat]; exact h.flat_le.1) hpos (UInt64.le_iff_toNat_le.mp hone)
    hfits]

theorem Accepts.fee_mono (h : Accepts n plain yellowback t) {size size' : UInt64} (hone : 1 ≤ size)
    (hle : size ≤ size') (hfits : (size'.toNat : Int) ≤ i64Max) : t.fee size ≤ t.fee size' := by
  have hnat := UInt64.le_iff_toNat_le.mp hle
  rw [h.fee_eq hone (by omega), h.fee_eq (UInt64.le_trans hone hle) hfits]
  exact clamped_mono (le_trans (by decide) h.rates_pos.1) hle

theorem Accepts.yedFeeOf_mono (h : Accepts n plain yellowback t) {size size' : UInt64}
    (hone : 1 ≤ size) (hle : size ≤ size') (hfits : (size'.toNat : Int) ≤ i64Max) :
    t.yedFeeOf size ≤ t.yedFeeOf size' := by
  have hnat := UInt64.le_iff_toNat_le.mp hle
  rw [h.yedFeeOf_eq hone (by omega), h.yedFeeOf_eq (UInt64.le_trans hone hle) hfits]
  exact clamped_mono (le_trans (by decide) h.rates_pos.2) hle

/-! ## The fee of a Yellowback transaction -/

theorem yedFeeOf_le_network (t : PqTerms) (otherInputs : UInt64) (pqSchemes : List UInt8)
    (hle : ∀ size, t.yedFeeOf size ≤ maxYedTxFeeZat) :
    t.yedNetworkFeeOf otherInputs pqSchemes ≤
      max maxYedTxFeeZat (yedConventionalFeeEstimateOf otherInputs pqSchemes) :=
  max_le_max_right _ (hle _)

/-- A size that fits is estimated as it is. -/
theorem toNat_yedEstimatedSizeOf {m : UInt64} {pq : List UInt8}
    (hfits : (yedEstimatedSize m.toNat pq : Int) ≤ i64Max) :
    (yedEstimatedSizeOf m pq).toNat = yedEstimatedSize m.toNat pq := by
  have hmax : i64Max = 9223372036854775807 := rfl
  have hsize : UInt64.size = 18446744073709551616 := rfl
  exact UInt64.toNat_ofNat_of_lt' (by omega)

theorem yedConventionalFeeEstimateOf_eq {m : UInt64} {pq : List UInt8}
    (hfits : (yedEstimatedSize m.toNat pq : Int) ≤ i64Max) :
    yedConventionalFeeEstimateOf m pq = yedConventionalFeeEstimate m.toNat pq := by
  have hmax : i64Max = 9223372036854775807 := rfl
  have hsize : UInt64.size = 18446744073709551616 := rfl
  have hbytes : (yedInBytes m pq).toNat = 150 * (m.toNat + 1) + (pq.map pqSpendInputSize).sum := by
    rw [yedEstimatedSize] at hfits
    exact UInt64.toNat_ofNat_of_lt' (by omega)
  rw [yedConventionalFeeEstimateOf, hbytes, yedConventionalFeeEstimate]

theorem Accepts.network_mono (h : Accepts n plain yellowback t) {m m' : UInt64}
    {pq more : List UInt8} (hle : m ≤ m')
    (hfits : (yedEstimatedSize m'.toNat (pq ++ more) : Int) ≤ i64Max) :
    t.yedNetworkFeeOf m pq ≤ t.yedNetworkFeeOf m' (pq ++ more) := by
  have hnat := UInt64.le_iff_toNat_le.mp hle
  have hsize := @yedEstimatedSize_mono m.toNat m'.toNat pq more hnat
  have hfits' : (yedEstimatedSize m.toNat pq : Int) ≤ i64Max :=
    (Int.ofNat_le.mpr hsize).trans hfits
  refine max_le_max (h.yedFeeOf_mono ?_ ?_ ?_) ?_
  · rw [UInt64.le_iff_toNat_le, toNat_yedEstimatedSizeOf hfits', yedEstimatedSize]
    exact (Nat.le_add_right 1 999).trans (Nat.le_add_right_of_le (Nat.le_add_right _ _))
  · rw [UInt64.le_iff_toNat_le, toNat_yedEstimatedSizeOf hfits', toNat_yedEstimatedSizeOf hfits]
    exact hsize
  · rw [toNat_yedEstimatedSizeOf hfits]
    exact hfits
  · rw [yedConventionalFeeEstimateOf_eq hfits', yedConventionalFeeEstimateOf_eq hfits]
    exact yedConventionalFeeEstimate_mono hnat

theorem Accepts.bounded (h : Accepts n plain yellowback t) : t.Bounded where
  flat := by
    rw [h.flat]
    exact h.flat_le.1
  fee _ := h.within _
  yedFee _ := h.within _
  fee_mono _ _ := h.fee_mono
  yedFee_mono _ _ := h.yedFeeOf_mono
  network _ _ := yedFeeOf_le_network t _ _ fun _ ↦ (h.within _).2
  network_mono _ _ _ _ := h.network_mono

end Terms

/-- **Fee terms are bounded.**  Whatever a server reports, the terms that are accepted keep every fee
between the flat fee and 10 YEC and in the order of sizes, and both rates are those of the reported
targets at the reported price, or the fallback, raised to the relay floor. -/
theorem pqTerms_bounded {p : YellowbackParams} {network : Network} {t : PqTerms}
    (h : pqTerms p network = .ok t) :
    t.Bounded ∧ ∃ n plain yellowback, p.fees = some (some n) ∧ n.plain = some plain ∧
      n.yellowback = some yellowback ∧
      ∀ rate r, (rate = t.feeRateZatPerKb ∧ r = plain) ∨
          (rate = t.yedRateZatPerKb ∧ r = yellowback) →
        (0 < n.priceMicroUsd → 0 < r.usdPerKbMicro →
          rate = max (attestedRateZatPerKb r.usdPerKbMicro n.priceMicroUsd
            (max n.floorZatPerKb n.fallbackZatPerKb)) relayFloorZatPerKb) ∧
        (n.priceMicroUsd ≤ 0 ∨ r.usdPerKbMicro ≤ 0 →
          rate = max n.fallbackZatPerKb relayFloorZatPerKb) := by
  obtain ⟨n, plain, yellowback, hfees, ha⟩ := pqTerms_eq_ok h
  refine ⟨ha.bounded, n, plain, yellowback, hfees, ha.isPlain, ha.isYellowback, fun rate r hr ↦ ?_⟩
  have hrate : rate = max (n.wanted r) relayFloorZatPerKb := by
    rcases hr with ⟨rfl, rfl⟩ | ⟨rfl, rfl⟩
    · exact ha.feeRate
    · exact ha.yedRate
  constructor
  · intro hprice htarget
    rw [hrate, YellowbackNetworkFee.wanted, if_pos ⟨hprice, htarget⟩]
    rfl
  · intro hnone
    rw [hrate, YellowbackNetworkFee.wanted, if_neg]
    rintro ⟨hprice, htarget⟩
    exact hnone.elim hprice.not_ge htarget.not_ge

/-- What a server reports at a dollar for a YEC: both rates with the same target, the floor and the
fallback. -/
def sampleParams (target rate floor fallback : Int) : YellowbackParams where
  pq := some ⟨[1], false, -1, rate⟩
  attest := none
  fees := some (some ⟨some ⟨target, rate, 0⟩, some ⟨target, rate, 1000000000⟩, floor, fallback, 1000,
    1000000⟩)

/-- The terms of such a rate. -/
def sampleTerms (rate floor : Int) : PqTerms := ⟨rate, rate, floor, 1000, 1000000000, none, false⟩

/-- Two cents a kilobyte. -/
theorem pqTerms_bounded_sample :
    pqTerms (sampleParams 20000 2000000 5000 100) .regtest = .ok (sampleTerms 2000000 5000) ∧
      (sampleTerms 2000000 5000).Bounded := by
  have h : pqTerms (sampleParams 20000 2000000 5000 100) .regtest =
      .ok (sampleTerms 2000000 5000) := by decide
  exact ⟨h, (pqTerms_bounded h).1⟩

/-- No byte costs more than one byte, and `2 ^ 63` bytes, whose cast is negative, cost less than one
byte fewer.  With a price and without a target the rate is the fallback, though a floor above it is
reported, and a rate may come from a fallback above the floor. -/
theorem not_pqTerms_bounded :
    (pqTerms (sampleParams 20000 2000000 5000 100) .regtest = .ok (sampleTerms 2000000 5000) ∧
      (sampleTerms 2000000 5000).fee 1 < (sampleTerms 2000000 5000).fee 0 ∧
      (sampleTerms 2000000 5000).yedFeeOf 1 < (sampleTerms 2000000 5000).yedFeeOf 0 ∧
      (sampleTerms 2000000 5000).fee 9223372036854775808 <
        (sampleTerms 2000000 5000).fee 9223372036854775807 ∧
      (sampleTerms 2000000 5000).yedNetworkFeeOf 61489146912365166 [] <
        (sampleTerms 2000000 5000).yedNetworkFeeOf 61489146912365165 []) ∧
    (pqTerms (sampleParams 0 100 5000 100) .regtest = .ok (sampleTerms 100 5000) ∧
      (sampleTerms 100 5000).feeRateZatPerKb ≠
        max (attestedRateZatPerKb 0 1000000 5000) relayFloorZatPerKb) ∧
    (pqTerms (sampleParams 1 10000 5000 10000) .regtest = .ok (sampleTerms 10000 10000) ∧
      (sampleTerms 10000 10000).feeRateZatPerKb ≠
        max (attestedRateZatPerKb 1 1000000 5000) relayFloorZatPerKb) := by
  decide

end Yew.Build
