import Yew.Build.Wallet

/-!
# What a claim returns to the owner

A claim pays the claimant at most a cap, priced from the debt, and returns what is left of the
collateral to the owner, unless that is too little to be worth an output.  This is the light
wallet's figure, and its check of a claimable vault that the server lists.

Products are `u128`, which the debt of at most 64 bits and the constants leave room for.

The daemon has a rule of its own, with a second floor; it stands in `Yew.Daemon.ClaimResidual`,
where the two are compared.

## Source

* `core/src/params.rs`: `emergency_price`, `residual_zat_for`
* `core/src/build/terms.rs`: `check_claimable`
-/

namespace Yew.Build

/-- `CLAIM_THRESHOLD_BPS`. -/
def claimThresholdBps : Nat := 12500

/-- `BPS`. -/
def bps : Nat := 10000

/-- `COIN`. -/
def coin : Nat := 100000000

/-- `RESIDUAL_MIN_ZAT`: a smaller residual is not paid. -/
def residualMinZat : Int := 100000

/-- `div_ceil`. -/
def divCeil (a b : Nat) : Nat := (a + b - 1) / b

/-- `i64::try_from` of a `u128`. -/
def toI64? (n : Nat) : Option Int := if (n : Int) ≤ i64Max then some n else none

/-- The margin of a clause: the threshold under `"a"`, no more than the debt under any other. -/
def marginOf (claimPath : String) : Nat := if claimPath = "a" then claimThresholdBps else bps

/-- The claimant's cap in zatoshi, rounded up. -/
def claimantMax (mintedCents margin : Nat) (price : Int) : Nat :=
  divCeil (mintedCents * margin * coin) price.toNat

/-- What the cap leaves of the collateral; nothing if the cap does not fit an `i64`. -/
def leftOver (collateralZat : Int) (max : Nat) : Int :=
  match toI64? max with
  | some m => if m < collateralZat then collateralZat - m else 0
  | none => 0

/-- `emergency_price`. -/
def emergencyPrice (xClaim aClaim : Int) : Option Int :=
  if xClaim ≤ 0 ∨ aClaim ≤ 0 then none else some (min xClaim aClaim)

/-- `residual_zat_for`. -/
def residualZatFor (collateralZat : Int) (mintedCents : Nat) (price : Int) (claimPath : String) :
    Option Int :=
  if price ≤ 0 ∨ mintedCents = 0 then none
  else
    let residual := leftOver collateralZat (claimantMax mintedCents (marginOf claimPath) price)
    some (if residualMinZat ≤ residual then residual else 0)

/-- The fields of a `ListClaimable` row that `check_claimable` reads. -/
structure YedClaimable where
  claimable : Bool
  claimPath : String
  collateralZat : Int
  mintedCents : Int
  pClaim : Int
  residualZat : Int
  vault : String
deriving DecidableEq

/-- The price that sizes the cap of a row. -/
def YedClaimable.capPrice (c : YedClaimable) (pEmerg : Option Int) : Except MintError Int :=
  if c.claimPath = "b" then
    match pEmerg with
    | some p =>
      if 0 < p then .ok p else .error (.inconsistent (unknownEmergency c.vault))
    | none => .error (.inconsistent (unknownEmergency c.vault))
  else .ok c.pClaim
where
  unknownEmergency (vault : String) : String := "pEmerg unknown for vault " ++ vault ++
    ": path (b) sizes the claimant cap at the emergency price min(xClaim, aClaim), not at " ++
    "pClaim, and that price cannot be known"

/-- The name of that price. -/
def YedClaimable.capName (c : YedClaimable) : String :=
  if c.claimPath = "b" then "pEmerg" else "pClaim"

/-- `check_claimable`: the residual the claim of a listed vault pays. -/
def checkClaimable (c : YedClaimable) (pEmerg : Option Int) : Except MintError Int :=
  -- a row above the threshold is shown and never claimed
  if !c.claimable then .ok 0
  else if c.claimPath ≠ "a" ∧ c.claimPath ≠ "b" then
    .error (.inconsistent ("claimPath " ++ Text.debugStr c.claimPath ++ " for vault " ++ c.vault))
  else if c.mintedCents ≤ 0 ∨ c.collateralZat ≤ 0 then
    .error (.inconsistent ("vault " ++ c.vault ++ " has no debt or no collateral"))
  else do
    let cents := c.mintedCents.toNat
    let price ← c.capPrice pEmerg
    match residualZatFor c.collateralZat cents price c.claimPath with
    | none => .error (.inconsistent (c.capName ++ " undefined for vault " ++ c.vault))
    | some floored =>
      -- the server may report the figure before the floor
      let raw := if 0 < floored then floored else
        leftOver c.collateralZat (claimantMax cents (marginOf c.claimPath) price)
      if c.residualZat ≠ floored ∧ c.residualZat ≠ raw then
        .error (.inconsistent ("residualZat " ++ Text.decimalInt c.residualZat ++ " for vault " ++
          c.vault ++ " (RED-5 at " ++ c.capName ++ " " ++ Text.decimalInt price ++ " gives " ++
          Text.decimalInt floored ++ ")"))
      else if c.claimPath = "a" ∧
          cents * claimThresholdBps * coin ≤ c.collateralZat.toNat * c.pClaim.toNat then
        .error (.inconsistent ("vault " ++ c.vault ++ " is not underwater at pClaim " ++
          Text.decimalInt c.pClaim ++ " (clause a)"))
      else .ok floored

/-! ## What the figures say -/

theorem divCeil_le {a b : Nat} (ha : 0 < a) (hb : 0 < b) : divCeil a b ≤ a := by
  obtain ⟨a, rfl⟩ := Nat.exists_eq_succ_of_ne_zero ha.ne'
  obtain ⟨b, rfl⟩ := Nat.exists_eq_succ_of_ne_zero hb.ne'
  refine Nat.div_le_of_le_mul ?_
  rw [Nat.succ_mul, Nat.mul_succ]
  omega

/-- The residual before the floor, as one difference. -/
theorem leftOver_eq {collateralZat : Int} {m : Nat} (h : collateralZat ≤ i64Max) :
    leftOver collateralZat m = max (collateralZat - m) 0 := by
  unfold leftOver toI64?
  split_ifs with hm
  · dsimp only
    split_ifs <;> omega
  · dsimp only
    omega

theorem residualZatFor_eq {collateralZat price : Int} {mintedCents : Nat} (claimPath : String)
    (hprice : 0 < price) (hcents : 0 < mintedCents) :
    residualZatFor collateralZat mintedCents price claimPath =
      some (if residualMinZat ≤
          leftOver collateralZat (claimantMax mintedCents (marginOf claimPath) price)
        then leftOver collateralZat (claimantMax mintedCents (marginOf claimPath) price)
        else 0) := by
  rw [residualZatFor, if_neg (by omega)]

/-- A row that is accepted is paid by the formula, at the price of its clause. -/
theorem checkClaimable_eq_ok {c : YedClaimable} {pEmerg : Option Int} {r : Int}
    (h : checkClaimable c pEmerg = .ok r) (hc : c.claimable = true) :
    ∃ price, c.capPrice pEmerg = .ok price ∧
      residualZatFor c.collateralZat c.mintedCents.toNat price c.claimPath = some r := by
  simp only [checkClaimable, hc, Bool.not_true, Bool.false_eq_true, if_false,
    Result.guard_eq_ok, Result.bind_eq_ok] at h
  obtain ⟨-, -, price, hprice, h⟩ := h
  refine ⟨price, hprice, ?_⟩
  split at h
  · cases h
  · rename_i floored hfloored
    obtain ⟨-, -, h⟩ := Result.guard_eq_ok.mp h |>.imp_right Result.guard_eq_ok.mp
    cases h
    exact hfloored

end Yew.Build
