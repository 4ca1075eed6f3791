import Yew.Core.Coins

/-!
# What a Yellowback transaction pays the network

The fee is priced by an estimate of the size: a base, so much for every ordinary input, and the
spend size of every post-quantum one.  It follows the coins a builder selects, so a builder has to
price again after it selected.

Amounts are integers; the source's are `i64`, and only the product of rate and size can leave that
range, where it saturates.

The light wallet and the daemon price by the same functions, so the daemon's modules import these.

## Source

* `core/src/params.rs`: `rate_fee`, `pq_spend_input_size`, `yed_estimated_size`,
  `zip317_conventional_fee`, `yed_conventional_fee_estimate`
* `core/src/build/terms.rs`: `PqTerms`, `PqTerms::falcon_at`, `PqTerms::yed_fee`,
  `PqTerms::yed_network_fee`
* `core/src/pq.rs`: `pub_key_size`, `sig_size`, `pq_sig_pushes_size`
* `core/src/build/yec_private.rs`: `YecSendPlan::fee_zat`
-/

namespace Yew.Build

open Pq Coins

/-- `FEE_ZAT`: the flat fee. -/
def feeZat : Int := 1000

/-- `TOKEN_VALUE`. -/
def tokenZat : Int := tokenValue.toInt

/-- `CARRIER_VALUE`. -/
def carrierZat : Int := carrierValue.toInt

/-- `MIN_CHANGE`: less than this is not worth an output. -/
def minChange : Int := 100

/-- `MIN_OUTPUT_CENTS`. -/
def minOutputCents : Nat := 100

/-- `MAX_OUTPUT_CENTS`. -/
def maxOutputCents : Nat := 10000000

/-- `MAX_INPUTS`. -/
def maxInputs : Nat := 250

/-- `TX_EXPIRY_DELTA`. -/
def txExpiryDelta : Nat := 40

/-- `SEQUENCE_LOCKTIME`. -/
def sequenceLocktime : UInt32 := 0xFFFFFFFE

/-- The largest `i64`. -/
def i64Max : Int := 9223372036854775807

@[simp] theorem tokenZat_eq : tokenZat = 10000 := rfl

@[simp] theorem carrierZat_eq : carrierZat = 10000 := rfl

/-! ## Sizes -/

/-- `pub_key_size`. -/
def pubKeySize (scheme : UInt8) : Nat :=
  if scheme = schemeSlhDsa then 32 else if scheme = schemeFnDsa then 897 else 0

/-- `sig_size`. -/
def sigSize (scheme : UInt8) : Nat :=
  if scheme = schemeSlhDsa then 7856 else if scheme = schemeFnDsa then 666 else 0

/-- The size of the push of `n` bytes. -/
def pushLen (n : Nat) : Nat :=
  if n < Script.opPushdata1.toNat then 1 + n else if n ≤ 0xff then 2 + n else 3 + n

/-- The size of `n` bytes pushed in chunks, with their count. -/
def chunked (n : Nat) : Nat :=
  n / maxChunk * pushLen maxChunk + (if n % maxChunk > 0 then pushLen (n % maxChunk) else 0) + 1

/-- `pq_sig_pushes_size`. -/
def pqSigPushesSize (scheme : UInt8) : Option Nat :=
  if isKnownScheme scheme then some (chunked (sigSize scheme + 1) + chunked (pubKeySize scheme))
  else none

/-- `pq_spend_input_size`. -/
def pqSpendInputSize (scheme : UInt8) : Nat :=
  match pqSigPushesSize scheme with
  | some ss => 40 + (if ss > 252 then 3 else 1) + ss
  | none => 0

/-- `yed_estimated_size`. -/
def yedEstimatedSize (otherInputs : Nat) (pqSchemes : List UInt8) : Nat :=
  1000 + 150 * otherInputs + (pqSchemes.map pqSpendInputSize).sum

/-! ## Fees -/

/-- `rate_fee`. -/
def rateFee (rate : Int) (size : Nat) : Int :=
  let f := min (max rate 0 * size) i64Max / 1000
  if f = 0 ∧ rate > 0 then rate else f

/-- `zip317_conventional_fee`. -/
def zip317ConventionalFee (inBytes outBytes shieldedActions : Nat) : Int :=
  let actions := max ((inBytes + 149) / 150) ((outBytes + 33) / 34) + shieldedActions
  min (500 * (max actions 2 : Nat)) i64Max

/-- `YED_OUTPUT_BYTES_ESTIMATE`. -/
def yedOutputBytesEstimate : Nat := 600

/-- `yed_conventional_fee_estimate`. -/
def yedConventionalFeeEstimate (otherInputs : Nat) (pqSchemes : List UInt8) : Int :=
  if pqSchemes.isEmpty then 0
  else zip317ConventionalFee (150 * (otherInputs + 1) + (pqSchemes.map pqSpendInputSize).sum)
    yedOutputBytesEstimate 0

/-- `PqTerms`. -/
structure PqTerms where
  feeRateZatPerKb : Int
  yedRateZatPerKb : Int
  floorRateZatPerKb : Int
  flatZat : Int
  maxFeeZat : Int
  falconHeight : Option Nat
  falconActive : Bool
deriving DecidableEq

namespace PqTerms

/-- `falcon_at`. -/
def falconAt (t : PqTerms) (height : Nat) : Bool :=
  t.falconActive || t.falconHeight.any (· ≤ height)

/-- `yed_fee`. -/
def yedFee (t : PqTerms) (size : Nat) : Int :=
  max (min (max (rateFee t.yedRateZatPerKb size) t.flatZat) t.maxFeeZat) t.flatZat

/-- `yed_network_fee`. -/
def yedNetworkFee (t : PqTerms) (otherInputs : Nat) (pqSchemes : List UInt8) : Int :=
  max (t.yedFee (yedEstimatedSize otherInputs pqSchemes))
    (yedConventionalFeeEstimate otherInputs pqSchemes)

/-- The fee priced for the inputs of a transaction: the post-quantum ones by their schemes, the
others by their number.  `priced_for` of a transfer, `mint_network_fee` and `claim_network_fee`. -/
def networkFee (t : PqTerms) (inputs : List Utxo) : Int :=
  let pq := inputs.filterMap fun u ↦ (pqpkhOf u.script).map PqKeyId.scheme
  t.yedNetworkFee (inputs.length - pq.length) pq

end PqTerms

/-! ## Larger transactions -/

theorem rateFee_of_le {rate : Int} {size : Nat} (h : 1000 ≤ size) :
    rateFee rate size = min (max rate 0 * size) i64Max / 1000 := by
  rw [rateFee, if_neg]
  rintro ⟨hzero, hpos⟩
  have hmul : rate * 1000 ≤ max rate 0 * size := by
    rw [max_eq_left hpos.le]
    exact mul_le_mul_of_nonneg_left (by exact_mod_cast h) hpos.le
  have hmax : i64Max = 9223372036854775807 := rfl
  rcases min_choice (max rate 0 * (size : Int)) i64Max with hmin | hmin
  · rw [hmin] at hzero
    omega
  · rw [hmin, hmax] at hzero
    omega

/-- A larger transaction is not cheaper. -/
theorem rateFee_mono {rate : Int} {size size' : Nat} (h : 1000 ≤ size) (hle : size ≤ size') :
    rateFee rate size ≤ rateFee rate size' := by
  rw [rateFee_of_le h, rateFee_of_le (h.trans hle)]
  refine Int.ediv_le_ediv (by decide) (min_le_min_right _ ?_)
  exact mul_le_mul_of_nonneg_left (by exact_mod_cast hle) (le_max_right _ _)

theorem PqTerms.yedFee_mono (t : PqTerms) {size size' : Nat} (h : 1000 ≤ size) (hle : size ≤ size') :
    t.yedFee size ≤ t.yedFee size' :=
  max_le_max_right _ (min_le_min_right _ (max_le_max_right _ (rateFee_mono h hle)))

theorem zip317ConventionalFee_mono {inBytes inBytes' outBytes outBytes' : Nat} (actions : Nat)
    (hin : inBytes ≤ inBytes') (hout : outBytes ≤ outBytes') :
    zip317ConventionalFee inBytes outBytes actions ≤
      zip317ConventionalFee inBytes' outBytes' actions := by
  rw [zip317ConventionalFee, zip317ConventionalFee]
  refine min_le_min_right _ ?_
  have : (inBytes + 149) / 150 ≤ (inBytes' + 149) / 150 := Nat.div_le_div_right (by omega)
  have : (outBytes + 33) / 34 ≤ (outBytes' + 33) / 34 := Nat.div_le_div_right (by omega)
  push_cast
  omega

theorem pqSpendInputSize_sum_mono (pq more : List UInt8) :
    (pq.map pqSpendInputSize).sum ≤ ((pq ++ more).map pqSpendInputSize).sum := by
  rw [List.map_append, List.sum_append]
  omega

theorem yedEstimatedSize_mono {n n' : Nat} {pq more : List UInt8} (h : n ≤ n') :
    yedEstimatedSize n pq ≤ yedEstimatedSize n' (pq ++ more) := by
  have hsum := pqSpendInputSize_sum_mono pq more
  rw [yedEstimatedSize, yedEstimatedSize]
  omega

theorem yedConventionalFeeEstimate_mono {n n' : Nat} {pq more : List UInt8} (h : n ≤ n') :
    yedConventionalFeeEstimate n pq ≤ yedConventionalFeeEstimate n' (pq ++ more) := by
  have hsum := pqSpendInputSize_sum_mono pq more
  rw [yedConventionalFeeEstimate, yedConventionalFeeEstimate]
  split
  · split
    · exact le_refl _
    · rw [zip317ConventionalFee]
      have : i64Max = 9223372036854775807 := rfl
      omega
  · rename_i hne
    rw [if_neg]
    · exact zip317ConventionalFee_mono _ (by omega) (le_refl _)
    · intro hempty
      rw [List.isEmpty_iff, List.append_eq_nil_iff] at hempty
      exact hne (List.isEmpty_iff.mpr hempty.1)

theorem PqTerms.yedNetworkFee_mono (t : PqTerms) {n n' : Nat} {pq more : List UInt8} (h : n ≤ n') :
    t.yedNetworkFee n pq ≤ t.yedNetworkFee n' (pq ++ more) := by
  refine max_le_max ?_ (yedConventionalFeeEstimate_mono h)
  refine yedFee_mono t ?_ (yedEstimatedSize_mono h)
  rw [yedEstimatedSize]
  omega

/-- More inputs are not cheaper. -/
theorem PqTerms.networkFee_mono (t : PqTerms) (us more : List Utxo) :
    t.networkFee us ≤ t.networkFee (us ++ more) := by
  rw [PqTerms.networkFee, PqTerms.networkFee, List.filterMap_append]
  refine yedNetworkFee_mono t ?_
  have := us.length_filterMap_le fun u ↦ (pqpkhOf u.script).map PqKeyId.scheme
  have := more.length_filterMap_le fun u ↦ (pqpkhOf u.script).map PqKeyId.scheme
  rw [List.length_append, List.length_append]
  omega

end Yew.Build
