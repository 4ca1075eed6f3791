import Yew.Build.Residual
import Yew.Util.Checked
import Mathlib.Data.Rat.Floor

/-!
# The check of a collateral estimate

A server says what a mint has to lock: the class and the ratio, the price, the heights and the
requirement in zatoshi.  The wallet recomputes all of it from its own tables; the price stays the
server's.  The requirement is accepted between the exact figure and that figure rounded up, and
what is locked is rounded up again.

Sums and products are those of a build that checks for overflow.

A call that would overflow panics in a debug build and wraps in a release build; `Checked` says both
at once.

## Source

* `core/src/params.rs`: `TermClass`, `Network::term_classes`, `class_for_lock_blocks`,
  `Network::max_mint_cents`, `protocol_fee_units`, `protocol_fee_cents`, `protocol_fee_zat`,
  `required_zat`
* `core/src/build/terms.rs`: `inconsistent`, `check_cents`, `mint_blocked_sentence`, `class_for`,
  `check_estimate`, `check_protocol_fee`
* `core/src/build/mint.rs`: `collateral_for`
-/

namespace Yew.Build

open Keys Script Checked

/-! ## Terms of a network -/

/-- `TermClass`, without its index. -/
structure TermClass where
  letter : String
  minBlocks : UInt32
  maxBlocks : UInt32
  baseRatioBps : Int
  earlyRedeemFeeBps : Int
deriving DecidableEq

/-- `term_classes`. -/
def termClasses : Network → List TermClass
  | .mainnet | .testnet =>
    [⟨"A", 34560, 103680, 30000, 500⟩, ⟨"B", 103681, 207360, 40000, 250⟩,
      ⟨"C", 207361, 420480, 50000, 100⟩]
  | .regtest =>
    [⟨"A", 48, 96, 30000, 500⟩, ⟨"B", 97, 144, 40000, 250⟩, ⟨"C", 145, 240, 50000, 100⟩]

/-- `class_for_lock_blocks`. -/
def classForLockBlocks (network : Network) (lockBlocks : UInt32) : Option TermClass :=
  (termClasses network).find? fun c ↦ c.minBlocks ≤ lockBlocks ∧ lockBlocks ≤ c.maxBlocks

/-- `GRACE`. -/
def graceOf : Network → Nat
  | .mainnet | .testnet => 34560
  | .regtest => 24

/-- `MIN_MINT_CENTS`. -/
def minMintCents : Nat := 10000

/-- `MAX_MINT_CENTS`, on every network. -/
def maxMintCents : Nat := 10000000

/-- `REF_WINDOW`. -/
def refWindow : Nat := 40

/-- `SIGMA_MULT_MIN_BPS`. -/
def sigmaMultMinBps : Int := 10000

/-- `SIGMA_MULT_MAX_BPS`. -/
def sigmaMultMaxBps : Int := 10000

/-- `REQUIRED_GRANULARITY_ZAT`. -/
def requiredGranularityZat : Int := 1000

/-- A call that refuses with a `MintError`. -/
abbrev Checks (α : Type) := Except (Halt MintError) α

/-- `inconsistent`. -/
def inconsistent {α : Type} (what : String) : Checks α := .error (.error (.inconsistent what))

/-- `check_cents`. -/
def checkCents (cents : UInt64) : Checks Unit :=
  if ¬ (minMintCents ≤ cents.toNat ∧ cents.toNat ≤ maxMintCents) then
    .error (.error (.badAmount cents.toNat minMintCents maxMintCents))
  else .ok ()

/-- `class_for`. -/
def classFor (network : Network) (lockBlocks : UInt32) : Checks TermClass :=
  match classForLockBlocks network lockBlocks with
  | some c => .ok c
  | none => .error (.error (.badLock lockBlocks network))

/-! ## The requirement and the protocol fee -/

/-- `required_zat`: rounded up, if it fits. -/
def requiredZat (cents : Nat) (minRatioBps pMint : Int) : Checks (Option Int) :=
  if pMint ≤ 0 ∨ minRatioBps ≤ 0 then .ok none
  else do
    let n ← u128 (cents * minRatioBps)
    let num ← u128 (n * coin)
    return toI64? (divCeil num.toNat pMint.toNat)

/-- `collateral_for`: the requirement rounded up to 1,000 zat. -/
def collateralFor (requiredZat : Int) : Checks Int :=
  if requiredZat.tmod 1000 ≠ 0 then do
    let d ← i64 (1000 - requiredZat.tmod 1000)
    i64 (requiredZat + d)
  else .ok requiredZat

/-- `PROTOCOL_FEE_BANDS`. -/
def protocolFeeBands : List (Int × Int) := [(100000, 100), (1000000, 50), (0, 10)]

/-- `PROTOCOL_FEE_FLOOR_CENTS`. -/
def protocolFeeFloorCents : Int := 100

/-- The loop of `protocol_fee_units`: the debt above `lo`, band by band. -/
def bandUnits (debt : Int) : List (Int × Int) → Int → Int → Checks Int
  | [], _, units => .ok units
  | (hi, rate) :: bands, lo, units => do
    let inBand ← i64 ((if hi = 0 then debt else min debt hi) - lo)
    if inBand ≤ 0 then .ok units
    else
      let units := saturate (units + saturate (inBand * max rate 0))
      if hi = 0 then .ok units else bandUnits debt bands hi units

/-- `protocol_fee_units`. -/
def protocolFeeUnits (debtCents : Nat) : Checks Int :=
  if debtCents = 0 then .ok 0
  else do
    let units ← bandUnits (min debtCents i64Max) protocolFeeBands 0 0
    let floor ← i64 (protocolFeeFloorCents * bps)
    return max units floor

/-- `protocol_fee_cents`. -/
def protocolFeeCents (debtCents : Nat) : Checks Int := do
  let units ← protocolFeeUnits debtCents
  let n ← i64 (units + bps)
  let n ← i64 (n - 1)
  return n.tdiv bps

/-- `protocol_fee_zat`. -/
def protocolFeeZat (debtCents : Nat) (pMint : Int) : Checks (Option Int) :=
  if pMint ≤ 0 then .ok none
  else do
    let units ← protocolFeeUnits debtCents
    -- `units` is not negative, so that its cast to `u128` keeps it
    let num ← u128 (units * coin)
    return some ((toI64? (divCeil num.toNat pMint.toNat)).getD i64Max)

/-- `check_protocol_fee`. -/
def checkProtocolFee (what : String) (debtCents : Nat) (pMint reportedCents reportedZat : Int) :
    Checks Unit := do
  let cents ← protocolFeeCents debtCents
  if reportedCents ≠ 0 ∧ reportedCents ≠ cents then
    inconsistent (what ++ ": protocolFeeCents " ++ Text.decimalInt reportedCents ++
      " for a debt of " ++ Text.decimal debtCents ++ " cents (FEE-1′ gives " ++
      Text.decimalInt cents ++ ")")
  else if reportedZat ≠ 0 then do
    let fee ← protocolFeeZat debtCents pMint
    let zat := fee.getD (-1)
    if reportedZat ≠ zat then
      inconsistent (what ++ ": protocolFeeZat " ++ Text.decimalInt reportedZat ++
        " for a debt of " ++ Text.decimal debtCents ++ " cents at pMint " ++
        Text.decimalInt pMint ++ " (FEE-1′ gives " ++ Text.decimalInt zat ++ ")")
    else .ok ()
  else .ok ()

/-! ## The estimate -/

/-- The fields of a `YedCollateralEstimate` that are read. -/
structure YedCollateralEstimate where
  termClass : String
  refHeight : Int64
  lockHeight : Int64
  claimHeight : Int64
  armed : Bool
  pMint : Int64
  xMint : Int64
  aMint : Int64
  baseRatioBps : Int64
  sigmaMultBps : Int64
  minRatioBps : Int64
  requiredZat : Int64
  protocolFeeCents : Int64
  protocolFeeZat : Int64
  mintBlocked : Bool
  mintBlockedReason : String
deriving DecidableEq

/-- `WAITING_FOR_PRICE`. -/
def waitingForPrice : String := "Waiting for a price: the attestors have not published a YEC " ++
  "price the network can mint at yet. Try again in a few blocks; redeeming is not affected."

/-- `mint_blocked_sentence`. -/
def mintBlockedSentence (identifier : String) : String :=
  let id := Text.trim (String.ofList (identifier.toList.takeWhile (· ≠ ':')))
  if id = "mintpol-no-price" then waitingForPrice
  else if id = "mintpol-unarmed" then "Minting is paused: the price feed is not armed yet. " ++
    "Redeeming and claiming are not affected."
  else if id = "mintpol-global-ratio" then "Minting is paused for this term: the system's " ++
    "collateral ratio is below its safety floor, so only the most collateralised term classes " ++
    "can mint."
  else if id = "mintpol-divergence" then "Minting is paused: the short- and long-term YEC " ++
    "prices disagree too much to price a mint safely. Try again later."
  else if id = "mintpol-cap" then "Minting is paused: the YED supply cap is reached."
  else if id = "mintpol-not-active" then "Minting is not possible: Yellowback is not active on " ++
    "the network now."
  else if id = "" then "Minting is not possible now (the server gave no reason)."
  else "Minting is not possible now (" ++ identifier ++ ")."

/-- The refusal of a reference height. -/
def outsideWindow (refHeight : Int) (tip : UInt64) : Checks Unit :=
  inconsistent ("refHeight " ++ Text.decimalInt refHeight ++ " outside [tip − " ++
    Text.decimal refWindow ++ ", tip − 1] at tip " ++ Text.decimal tip.toNat)

/-- The heights of `check_estimate`. -/
def checkHeights (network : Network) (tip : UInt64) (lockBlocks : UInt32)
    (e : YedCollateralEstimate) : Checks Unit :=
  if e.refHeight.toInt < 1 ∨ tip.toNat ≤ e.refHeight.toInt then outsideWindow e.refHeight.toInt tip
  else do
    let last ← u64 (e.refHeight.toInt + refWindow)
    if last < tip.toNat then outsideWindow e.refHeight.toInt tip
    else
      -- `as u32`: from here on the height has lost its high bits
      let r := e.refHeight.toInt % 2 ^ 32
      let lockHeight ← i64 (r + lockBlocks.toNat)
      if e.lockHeight.toInt ≠ lockHeight then
        inconsistent ("lockHeight " ++ Text.decimalInt e.lockHeight.toInt ++
          " is not refHeight " ++ Text.decimalInt r ++ " + " ++ Text.decimal lockBlocks.toNat)
      else
        let claimHeight ← i64 (e.lockHeight.toInt + graceOf network)
        if e.claimHeight.toInt ≠ claimHeight then
          inconsistent ("claimHeight " ++ Text.decimalInt e.claimHeight.toInt ++
            " is not lockHeight " ++ Text.decimalInt e.lockHeight.toInt ++ " + GRACE " ++
            Text.decimal (graceOf network))
        else if (locktimeThreshold : Int) ≤ e.claimHeight.toInt then
          inconsistent ("claimHeight " ++ Text.decimalInt e.claimHeight.toInt ++
            " at or above LOCKTIME_THRESHOLD")
        else .ok ()

/-- The price of `check_estimate`. -/
def checkPrice (e : YedCollateralEstimate) : Checks Unit :=
  if e.pMint.toInt ≤ 0 then .error (.error (.blocked waitingForPrice))
  else if e.armed ∧ (e.xMint.toInt ≤ 0 ∨ e.aMint.toInt ≤ 0 ∨
      e.pMint.toInt ≠ min e.xMint.toInt e.aMint.toInt) then
    inconsistent ("pMint " ++ Text.decimalInt e.pMint.toInt ++ " is not min(xMint " ++
      Text.decimalInt e.xMint.toInt ++ ", aMint " ++ Text.decimalInt e.aMint.toInt ++ ")")
  else .ok ()

/-- The ratio of `check_estimate`. -/
def checkRatio (c : TermClass) (e : YedCollateralEstimate) : Checks Int :=
  if e.baseRatioBps.toInt ≠ c.baseRatioBps then
    inconsistent ("baseRatioBps " ++ Text.decimalInt e.baseRatioBps.toInt ++ " for class " ++
      c.letter ++ " (spec " ++ Text.decimalInt c.baseRatioBps ++ ")")
  else if e.sigmaMultBps.toInt < sigmaMultMinBps ∨ sigmaMultMaxBps < e.sigmaMultBps.toInt then
    inconsistent ("sigmaMultBps " ++ Text.decimalInt e.sigmaMultBps.toInt ++ " outside [" ++
      Text.decimalInt sigmaMultMinBps ++ ", " ++ Text.decimalInt sigmaMultMaxBps ++ "]")
  else do
    let product ← i64 (c.baseRatioBps * e.sigmaMultBps.toInt)
    let minRatio := product.tdiv bps
    if e.minRatioBps.toInt ≠ minRatio then
      inconsistent ("minRatioBps " ++ Text.decimalInt e.minRatioBps.toInt ++
        " is not baseRatioBps · sigmaMultBps / 10⁴ = " ++ Text.decimalInt minRatio)
    else .ok minRatio

/-- The refusal of a requirement that does not fit. -/
def unsatisfiable {α : Type} : Checks α :=
  inconsistent "requiredZat unsatisfiable at this price (K14)"

/-- `checked_add` of two `i64`. -/
def checkedAdd (a b : Int) : Option Int := if a + b ≤ i64Max then some (a + b) else none

/-- The requirement of `check_estimate`, between `lower` and `lower` rounded up. -/
def checkRequired (lower : Int) (e : YedCollateralEstimate) : Checks Unit :=
  if e.requiredZat.toInt < lower then
    inconsistent ("requiredZat " ++ Text.decimalInt e.requiredZat.toInt ++ " below the rule's " ++
      Text.decimalInt lower ++ " (the mint would be VOID)")
  else do
    let d ← i64 (requiredGranularityZat - lower.tmod requiredGranularityZat)
    match checkedAdd lower (d.tmod requiredGranularityZat) with
    | none => unsatisfiable
    | some rounded =>
      if rounded < e.requiredZat.toInt then
        inconsistent ("requiredZat " ++ Text.decimalInt e.requiredZat.toInt ++
          " above the rule's " ++ Text.decimalInt lower ++ " (rounded " ++
          Text.decimalInt rounded ++ ")")
      else .ok ()

/-- `check_estimate`. -/
def checkEstimate (network : Network) (tip cents : UInt64) (lockBlocks : UInt32)
    (e : YedCollateralEstimate) : Checks TermClass := do
  let _ ← checkCents cents
  let c ← classFor network lockBlocks
  if e.mintBlocked then .error (.error (.blocked (mintBlockedSentence e.mintBlockedReason)))
  else if e.termClass ≠ c.letter then
    inconsistent ("termClass " ++ Text.debugStr e.termClass ++ " for a lock of " ++
      Text.decimal lockBlocks.toNat ++ " blocks (class " ++ c.letter ++ ")")
  else
    let _ ← checkHeights network tip lockBlocks e
    let _ ← checkPrice e
    let minRatio ← checkRatio c e
    match ← requiredZat cents.toNat minRatio e.pMint.toInt with
    | none => unsatisfiable
    | some lower =>
      let _ ← checkRequired lower e
      let _ ← checkProtocolFee "EstimateCollateral" cents.toNat e.pMint.toInt
        e.protocolFeeCents.toInt e.protocolFeeZat.toInt
      return c

end Yew.Build
