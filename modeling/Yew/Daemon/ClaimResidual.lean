import Yew.Build.Residual

/-!
# The daemon's residual

The daemon sizes the residual of a claim itself.  It finds the clause from the prices, where the
light wallet is told the clause, and it has a second floor: a residual must be worth 48 cents at
the price the vault was minted at.  The two wallets agree outside the gap between the two floors.

The gap is an interval of collateral between the floor in zatoshi of both wallets and the floor in
cents of the daemon's.

## Source

* `yewd/wallet/src/claim.rs`: `residual_min_zat`, `claim_residual`
* `yewd/wallet/src/armed.rs`: `is_underwater`
-/

namespace Yew.Daemon

open Build

/-- `RESIDUAL_MIN_CENTS`. -/
def residualMinCents : Nat := 48

/-- `is_underwater` of the daemon: an unknown price is never under water. -/
def isUnderwater (collateralZat : Int) (price : Option Int) (mintedCents thresholdBps : Int) :
    Bool :=
  match price with
  | none => false
  | some p =>
    if p ≤ 0 ∨ mintedCents ≤ 0 ∨ thresholdBps ≤ 0 then false
    else (max collateralZat 0).toNat * p.toNat <
      mintedCents.toNat * thresholdBps.toNat * coin % 2 ^ 128

/-- `residual_min_zat`. -/
def residualMinZatAt (pMint : Int) : Int :=
  if pMint ≤ 0 then residualMinZat
  else match toI64? (divCeil (residualMinCents * bps * coin) pMint.toNat) with
    | some z => max z residualMinZat
    | none => residualMinZat

/-- `claim_residual`: the clause and the residual, if the clause's price is defined. -/
def claimResidual (collateral minted pMint : Int) (pClaim pEmerg : Option Int) :
    Option (String × Int) :=
  let a := isUnderwater collateral pClaim minted claimThresholdBps
  match if a then pClaim else pEmerg with
  | none => none
  | some cap =>
    if cap ≤ 0 then none
    else
      let margin := if a then claimThresholdBps else bps
      let r := leftOver collateral (claimantMax (max minted 0).toNat margin cap)
      let r := if residualMinZatAt pMint ≤ r then r else 0
      some (if a then "a" else "b", r)

/-- The price of a clause: `pClaim` under `"a"`, `pEmerg` under `"b"`. -/
def pathPrice (path : String) (pClaim pEmerg : Option Int) : Option Int :=
  if path = "a" then pClaim else pEmerg

theorem guard_eq_some {α : Type} {c : Prop} [Decidable c] {x : Option α} {a : α} :
    (if c then none else x) = some a ↔ ¬ c ∧ x = some a := by
  by_cases h : c <;> simp [h]

/-- What `claim_residual` found: the clause has a positive price, and the residual is the left
over collateral above the daemon's floor. -/
theorem claimResidual_eq_some {collateral minted pMint : Int} {pClaim pEmerg : Option Int}
    {path : String} {r : Int} (h : claimResidual collateral minted pMint pClaim pEmerg =
      some (path, r)) (hminted : 0 < minted) :
    (path = "a" ∨ path = "b") ∧ ∃ price, pathPrice path pClaim pEmerg = some price ∧ 0 < price ∧
      r = if residualMinZatAt pMint ≤
          leftOver collateral (claimantMax minted.toNat (marginOf path) price)
        then leftOver collateral (claimantMax minted.toNat (marginOf path) price) else 0 := by
  have hmax : max minted 0 = minted := by omega
  unfold claimResidual at h
  rw [hmax] at h
  cases ha : isUnderwater collateral pClaim minted claimThresholdBps with
  | true =>
    simp only [ha, if_true] at h
    cases pClaim with
    | none => cases h
    | some cap =>
      obtain ⟨hcap, hr⟩ := guard_eq_some.mp h
      simp only [Option.some.injEq, Prod.mk.injEq] at hr
      obtain ⟨rfl, rfl⟩ := hr
      exact ⟨Or.inl rfl, cap, rfl, by omega, rfl⟩
  | false =>
    simp only [ha, Bool.false_eq_true, if_false] at h
    cases pEmerg with
    | none => cases h
    | some cap =>
      obtain ⟨hcap, hr⟩ := guard_eq_some.mp h
      simp only [Option.some.injEq, Prod.mk.injEq] at hr
      obtain ⟨rfl, rfl⟩ := hr
      exact ⟨Or.inr rfl, cap, rfl, by omega, rfl⟩

/-- The left over collateral lies between the two floors: the light wallet pays it to the owner
and the daemon does not. -/
def BetweenFloors (collateral minted pMint price : Int) (path : String) : Prop :=
  residualMinZat ≤ collateral - claimantMax minted.toNat (marginOf path) price ∧
    collateral - claimantMax minted.toNat (marginOf path) price <
      divCeil (residualMinCents * bps * coin) pMint.toNat

instance (collateral minted pMint price : Int) (path : String) :
    Decidable (BetweenFloors collateral minted pMint price path) :=
  inferInstanceAs (Decidable (_ ∧ _))

/-- The daemon's floor at a positive mint price. -/
theorem residualMinZatAt_eq {pMint : Int} (h : 0 < pMint) :
    residualMinZatAt pMint =
      max (divCeil (residualMinCents * bps * coin) pMint.toNat : Int) residualMinZat := by
  have hle : divCeil (residualMinCents * bps * coin) pMint.toNat ≤ residualMinCents * bps * coin :=
    divCeil_le (by decide) (by omega)
  have hfit : (divCeil (residualMinCents * bps * coin) pMint.toNat : Int) ≤ i64Max := by
    have : ((residualMinCents * bps * coin : Nat) : Int) ≤ i64Max := by decide
    omega
  rw [residualMinZatAt, if_neg (by omega), toI64?, if_pos hfit]

/-- The two floors treat a left over alike unless it lies between them. -/
theorem floors_agree_iff {low high x : Int} (hlow : 0 < low) (hx : 0 ≤ x) :
    ((if low ≤ x then x else 0) = if max high low ≤ x then x else 0) ↔
      ¬ (low ≤ x ∧ x < high) := by
  split_ifs <;> omega

/-- The light wallet's residual at the daemon's clause and its price is the daemon's residual
exactly when the left over collateral does not lie between the two floors; and so is the residual
of every row of the same vault that the light wallet accepts. -/
theorem claimResidual_agrees_iff {collateral minted pMint : Int} {pClaim pEmerg : Option Int}
    {path : String} {r : Int} (hcollateral : 0 < collateral) (hfits : collateral ≤ i64Max)
    (hminted : 0 < minted) (hpMint : 0 < pMint)
    (h : claimResidual collateral minted pMint pClaim pEmerg = some (path, r)) :
    ∃ price, pathPrice path pClaim pEmerg = some price ∧
      (residualZatFor collateral minted.toNat price path = some r ↔
        ¬ BetweenFloors collateral minted pMint price path) ∧
      ∀ (c : YedClaimable) (paid : Int), c.claimable = true → c.claimPath = path →
        c.collateralZat = collateral → c.mintedCents = minted → (path = "a" → c.pClaim = price) →
        checkClaimable c pEmerg = .ok paid →
          (paid = r ↔ ¬ BetweenFloors collateral minted pMint price path) := by
  obtain ⟨hpath, price, hprice, hpos, hr⟩ := claimResidual_eq_some h hminted
  have hcents : 0 < minted.toNat := by omega
  have hcore := (@residualZatFor_eq collateral _ _) path hpos hcents
  have hagree : (if residualMinZat ≤ leftOver collateral
        (claimantMax minted.toNat (marginOf path) price)
      then leftOver collateral (claimantMax minted.toNat (marginOf path) price) else 0) = r ↔
      ¬ BetweenFloors collateral minted pMint price path := by
    rw [hr, residualMinZatAt_eq hpMint, leftOver_eq hfits,
      floors_agree_iff (by decide) (le_max_right _ _), BetweenFloors]
    have : (0 : Int) < residualMinZat := by decide
    omega
  refine ⟨price, hprice, ?_, ?_⟩
  · rw [hcore, Option.some.injEq]
    exact hagree
  · rintro c paid hclaimable rfl rfl rfl hclause hpaid
    obtain ⟨price', hcap, hpaid'⟩ := checkClaimable_eq_ok hpaid hclaimable
    have hsame : price' = price := by
      unfold YedClaimable.capPrice at hcap
      rcases hpath with ha | hb
      · rw [ha, if_neg (by decide)] at hcap
        cases hcap
        exact hclause ha
      · rw [hb, if_pos rfl] at hcap
        rw [pathPrice, hb, if_neg (by decide)] at hprice
        rw [hprice] at hcap
        dsimp only at hcap
        rw [if_pos hpos] at hcap
        cases hcap
        rfl
    rw [hsame, hcore, Option.some.injEq] at hpaid'
    rw [← hpaid']
    exact hagree

/-- A vault under water at the emergency price, with 75 coins to return. -/
theorem claimResidual_agrees_iff_sample :
    claimResidual 20000000000 10000 1000000 (some 1000000) (some 800000) = some ("b", 7500000000) ∧
      residualZatFor 20000000000 10000 800000 "b" = some 7500000000 := by
  have h : claimResidual 20000000000 10000 1000000 (some 1000000) (some 800000) =
      some ("b", 7500000000) := by decide +kernel
  refine ⟨h, ?_⟩
  obtain ⟨price, hprice, hiff, -⟩ :=
    claimResidual_agrees_iff (by decide) (by decide) (by decide) (by decide) h
  cases hprice
  exact hiff.mpr (by decide +kernel)

/-- 0.47 coins are left over: above the light wallet's floor, below 48 cents at a mint price of
one dollar. -/
theorem not_claimResidual_agrees :
    claimResidual 12547000000 10000 1000000 (some 1000000) (some 800000) = some ("b", 0) ∧
      residualZatFor 12547000000 10000 800000 "b" = some 47000000 ∧
      ¬ ∀ (collateral minted pMint : Int) (pClaim pEmerg : Option Int) (path : String)
        (r price : Int), 0 < collateral → 0 < minted → 0 < pMint →
        claimResidual collateral minted pMint pClaim pEmerg = some (path, r) →
        pathPrice path pClaim pEmerg = some price →
        residualZatFor collateral minted.toNat price path = some r := by
  have hdaemon : claimResidual 12547000000 10000 1000000 (some 1000000) (some 800000) =
      some ("b", 0) := by decide +kernel
  have hcore : residualZatFor 12547000000 10000 800000 "b" = some 47000000 := by decide +kernel
  refine ⟨hdaemon, hcore, fun h ↦ ?_⟩
  have hsame := h 12547000000 10000 1000000 (some 1000000) (some 800000) "b" 0 800000 (by decide)
    (by decide) (by decide) hdaemon rfl
  revert hsame
  decide +kernel

end Yew.Daemon
