import Yew.Build.ResidualRule
import Yew.Util.Brackets

/-!
# The protocol fee

The protocol fee of a debt is charged by bands: each cent at the rate of the band it lies in, with a
floor of one dollar.  Here the loop over the bands is that charge, so that the fee grows with the debt
and is subadditive; in zatoshi it is rounded up at the price.  A share of it is the attestors'.

The bands, the floor and the share are constants of `core/src/params.rs`; the general part, a charge
by brackets, is `Yew.Util.Brackets` and names none of them.

## Source

* `core/src/params.rs`: `Network::attest_fee_bps`, `attest_fee_zat_for`
-/

namespace Yew.Build

open Keys Checked Brackets

/-! ## The attestors' share -/

/-- `attest_fee_bps`. -/
def attestFeeBps : Network → Int
  | .mainnet | .testnet => 5000
  | .regtest => 2500

/-- `attest_fee_zat_for`. -/
def attestFeeZatFor (network : Network) (feeZat : Int) : Int :=
  if feeZat ≤ 0 then 0 else (saturate (feeZat * attestFeeBps network)).tdiv bps

theorem attestFeeZatFor_le (network : Network) (feeZat : Int) :
    0 ≤ attestFeeZatFor network feeZat ∧ attestFeeZatFor network feeZat ≤ max feeZat 0 := by
  unfold attestFeeZatFor
  split
  · exact ⟨le_rfl, le_max_right _ _⟩
  · rename_i hpos
    have hbps : 0 ≤ attestFeeBps network ∧ attestFeeBps network ≤ 10000 := by
      cases network <;> decide
    have hprod : 0 ≤ feeZat * attestFeeBps network ∧
        feeZat * attestFeeBps network ≤ feeZat * 10000 :=
      ⟨Int.mul_nonneg (by omega) hbps.1, Int.mul_le_mul_of_nonneg_left hbps.2 (by omega)⟩
    generalize feeZat * attestFeeBps network = share at hprod ⊢
    have hsat : 0 ≤ saturate share ∧ saturate share ≤ share := by
      unfold saturate
      omega
    rw [show ((bps : Nat) : Int) = 10000 from rfl, Int.tdiv_eq_ediv_of_nonneg hsat.1]
    omega

/-! ## The loop over the bands -/

/-- The rate of a cent: that of the first band it is below the end of. -/
def bandRate : List (Int × Int) → Nat → Nat
  | [], _ => 0
  | (hi, rate) :: bands, x =>
    if hi = 0 ∨ (x : Int) < hi then (max rate 0).toNat else bandRate bands x

/-- Bands that end one after another, from `lo` on, within the range of `i64`; 0 is no end. -/
def Ascends : Int → List (Int × Int) → Prop
  | _, [] => True
  | lo, (hi, _) :: bands => hi = 0 ∨ lo < hi ∧ hi ≤ i64Max ∧ Ascends hi bands

/-- Rewriting with this keeps the kernel from computing with the bound of a checked product. -/
theorem ok_bind {ε α β : Type} (a : α) (f : α → Except ε β) : (Except.ok a >>= f) = f a := rfl

/-- A sum that saturates, of amounts that are not negative. -/
theorem saturate_add {u p : Nat} :
    saturate (min (u : Int) i64Max + saturate p) = min ((u + p : Nat) : Int) i64Max := by
  unfold saturate i64Max
  omega

/-- One band of the loop; `top` is where the debt within it ends. -/
theorem bandUnits_step {debt lo top u : Nat} {hi rate : Int} {bands : List (Int × Int)}
    (htop : (if hi = 0 then (debt : Int) else min (debt : Int) hi) = top) (hdebt : (top : Int) ≤ i64Max)
    (hlo : (lo : Int) ≤ i64Max) : bandUnits debt ((hi, rate) :: bands) lo (min (u : Int) i64Max) =
      if top ≤ lo then .ok (min (u : Int) i64Max)
      else if hi = 0 then .ok (min ((u + (top - lo) * (max rate 0).toNat : Nat) : Int) i64Max)
      else bandUnits debt bands hi
        (min ((u + (top - lo) * (max rate 0).toNat : Nat) : Int) i64Max) := by
  have hi64 : (i64 ((top : Int) - lo) : Checks Int) = .ok ((top : Int) - lo) := by
    unfold i64Max at hdebt hlo
    exact if_pos ⟨by omega, by omega⟩
  rw [bandUnits, htop, hi64, ok_bind]
  by_cases hle : top ≤ lo
  · rw [if_pos hle, if_pos (by omega)]
  · have hprod : ((top : Int) - lo) * max rate 0 = ((top - lo) * (max rate 0).toNat : Nat) := by
      rw [Nat.cast_mul, Nat.cast_sub (by omega), Int.toNat_of_nonneg (le_max_right _ _)]
    rw [if_neg hle, if_neg (by omega), hprod, saturate_add]

/-- The loop charges what is above `lo`, as far as `i64` goes. -/
theorem bandUnits_eq {debt lo u : Nat} {bands : List (Int × Int)} (hdebt : (debt : Int) ≤ i64Max)
    (hlo : (lo : Int) ≤ i64Max) (hbands : Ascends lo bands) :
    bandUnits debt bands lo (min (u : Int) i64Max) =
      .ok (min ((u + charge (bandRate bands) lo debt : Nat) : Int) i64Max) := by
  induction bands generalizing lo u with
  | nil =>
    have hzero : charge (bandRate []) lo debt = 0 := charge_const fun _ _ _ ↦ rfl
    rw [hzero]
    rfl
  | cons band bands ih =>
    obtain ⟨hi, rate⟩ := band
    by_cases hend : hi = 0
    · -- the last band has no end
      have hall : charge (bandRate ((hi, rate) :: bands)) lo debt =
          (debt - lo) * (max rate 0).toNat :=
        charge_const fun x _ _ ↦ if_pos (.inl hend)
      rw [bandUnits_step (if_pos hend) hdebt hlo, if_pos hend, hall]
      split
      · rename_i hle
        rw [Nat.sub_eq_zero_of_le hle, Nat.zero_mul, Nat.add_zero]
      · rfl
    · obtain ⟨hlt, hmax, hrest⟩ := hbands.resolve_left hend
      obtain ⟨h, rfl⟩ : ∃ h : Nat, hi = h := ⟨hi.toNat, by omega⟩
      have hwithin : charge (bandRate ((↑h, rate) :: bands)) lo (min debt h) =
          (min debt h - lo) * (max rate 0).toNat :=
        charge_const fun x _ hx ↦ if_pos (.inr (by omega))
      have habove : charge (bandRate ((↑h, rate) :: bands)) (min debt h) debt =
          charge (bandRate bands) h debt := by
        rcases le_total debt h with hle | hle
        · rw [min_eq_left hle, charge_self, charge_of_le hle]
        · rw [min_eq_right hle]
          exact charge_congr fun x hx _ ↦ if_neg (by omega)
      have htop : (if (h : Int) = 0 then (debt : Int) else min (debt : Int) h) =
          (min debt h : Nat) := by
        rw [if_neg hend, Nat.cast_min]
      have hle : min debt h ≤ debt := min_le_left debt h
      rw [bandUnits_step htop (by omega) hlo, if_neg hend]
      split
      · rename_i hshort
        rw [charge_of_le (by omega), Nat.add_zero]
      · rename_i hreach
        have hsplit : charge (bandRate ((↑h, rate) :: bands)) lo debt =
            (min debt h - lo) * (max rate 0).toNat + charge (bandRate bands) h debt := by
          rw [charge_append (by omega) hle, hwithin, habove]
        rw [ih hmax hrest, hsplit, Nat.add_assoc]

/-! ## The fee of a debt -/

/-- The rate of a cent, in basis points: 1 % of the first $1,000, 0.5 % up to $10,000, 0.1 % above. -/
def marginalRate (x : Nat) : Nat := if x < 100000 then 100 else if x < 1000000 then 50 else 10

theorem bandRate_protocolFeeBands : bandRate protocolFeeBands = marginalRate := by
  funext x
  rw [marginalRate, protocolFeeBands, bandRate, bandRate, bandRate]
  split_ifs <;> omega

theorem antitone_marginalRate : Antitone marginalRate := by
  intro x y hxy
  unfold marginalRate
  split_ifs <;> omega

/-- The rates over a whole debt, in cents times basis points. -/
def marginalFee (debt : Nat) : Nat := charge marginalRate 0 debt

/-- The floor of the fee: one dollar. -/
def feeFloor : Nat := 1000000

/-- The fee by the schedule; no debt, no fee. -/
def scheduleFee (debt : Nat) : Nat := if debt = 0 then 0 else max (marginalFee debt) feeFloor

theorem scheduleFee_of_pos {debt : Nat} (h : 0 < debt) :
    scheduleFee debt = max (marginalFee debt) feeFloor :=
  if_neg h.ne'

theorem scheduleFee_mono : Monotone scheduleFee := by
  intro a b hab
  rcases Nat.eq_zero_or_pos a with rfl | ha
  · exact Nat.zero_le _
  · rw [scheduleFee_of_pos ha, scheduleFee_of_pos (ha.trans_le hab)]
    exact max_le_max (charge_mono hab) le_rfl

/-- Splitting a debt never makes its fee smaller. -/
theorem scheduleFee_add_le (a b : Nat) : scheduleFee (a + b) ≤ scheduleFee a + scheduleFee b := by
  rcases Nat.eq_zero_or_pos a with rfl | ha
  · rw [Nat.zero_add]
    exact Nat.le_add_left _ _
  rcases Nat.eq_zero_or_pos b with rfl | hb
  · exact Nat.le_add_right _ _
  rw [scheduleFee_of_pos ha, scheduleFee_of_pos hb, scheduleFee_of_pos (Nat.add_pos_left ha b)]
  exact max_add_le (charge_add_le antitone_marginalRate a b)

/-- A debt up to 9·10^17 cents is charged less than `i64` holds. -/
theorem marginalFee_lt {debt : Nat} (h : debt ≤ 900000000000000000) :
    (marginalFee debt : Int) < i64Max := by
  have hfirst : charge marginalRate 0 100000 = (100000 - 0) * 100 :=
    charge_const fun x _ hx ↦ if_pos hx
  have hsecond : charge marginalRate 100000 1000000 = (1000000 - 100000) * 50 := by
    refine charge_const fun x hx hx' ↦ ?_
    rw [marginalRate, if_neg (by omega), if_pos hx']
  have hhead : charge marginalRate 0 1000000 = 55000000 := by
    rw [@charge_append _ 0 100000 1000000 (by decide) (by decide), hfirst, hsecond]
  rcases le_total debt 1000000 with hle | hle
  · have hmono : marginalFee debt ≤ 55000000 := hhead ▸ charge_mono hle
    unfold i64Max
    omega
  · have htail : charge marginalRate 1000000 debt = (debt - 1000000) * 10 := by
      refine charge_const fun x hx _ ↦ ?_
      rw [marginalRate, if_neg (by omega), if_neg (by omega)]
    rw [marginalFee, charge_append (Nat.zero_le 1000000) hle, hhead, htail]
    unfold i64Max
    omega

/-- What a debt that can be minted is charged: one percent at most. -/
theorem scheduleFee_le {debt : Nat} (hmin : minMintCents ≤ debt) :
    scheduleFee debt ≤ 100 * debt := by
  have hmarginal : marginalFee debt ≤ (debt - 0) * 100 := by
    refine charge_le fun x ↦ ?_
    unfold marginalRate
    split_ifs <;> omega
  unfold minMintCents at hmin
  rw [scheduleFee_of_pos (by omega), feeFloor]
  omega

/-- `protocol_fee_units` charges by the schedule, as far as `i64` goes. -/
theorem protocolFeeUnits_eq {debt : Nat} (hdebt : (debt : Int) ≤ i64Max) :
    protocolFeeUnits debt = .ok (min (scheduleFee debt : Int) i64Max) := by
  rcases Nat.eq_zero_or_pos debt with rfl | hpos
  · rfl
  have hloop : bandUnits debt protocolFeeBands 0 0 =
      .ok (min ((0 + charge (bandRate protocolFeeBands) 0 debt : Nat) : Int) i64Max) :=
    @bandUnits_eq debt 0 0 protocolFeeBands hdebt (by decide)
      (by simp [Ascends, protocolFeeBands, i64Max])
  rw [Nat.zero_add, bandRate_protocolFeeBands] at hloop
  rw [protocolFeeUnits, if_neg (by omega), min_eq_left hdebt, hloop, scheduleFee_of_pos hpos]
  show Except.ok (max (min (marginalFee debt : Int) i64Max) 1000000) = _
  congr 1
  unfold feeFloor i64Max
  omega

theorem protocolFeeUnits_exact {debt : Nat} (h : debt ≤ 900000000000000000) :
    protocolFeeUnits debt = .ok (scheduleFee debt : Int) := by
  have hlt := marginalFee_lt h
  rw [protocolFeeUnits_eq (by unfold i64Max; omega), min_eq_left]
  unfold scheduleFee feeFloor i64Max at *
  split <;> omega

/-! ## The fee in zatoshi -/

theorem getD_toI64? (n : Nat) : (toI64? n).getD i64Max = min (n : Int) i64Max := by
  unfold toI64?
  split
  · rename_i hle
    exact (min_eq_left hle).symm
  · rename_i hlt
    exact (min_eq_right (le_of_not_ge hlt)).symm

theorem protocolFeeZat_eq {debt units : Nat} {pMint : Int} (hp : 0 < pMint)
    (hunits : protocolFeeUnits debt = .ok units)
    (hfits : units * coin < 340282366920938463463374607431768211456) :
    protocolFeeZat debt pMint =
      .ok (some ((toI64? (divCeil (units * coin) pMint.toNat)).getD i64Max)) := by
  have hu128 : (u128 (units * coin) : Checks Int) = .ok (units * coin) := by
    rw [u128, within, if_pos]
    exact_mod_cast And.intro (Nat.zero_le (units * coin)) hfits
  rw [protocolFeeZat, if_neg (not_le.mpr hp), hunits, ok_bind, hu128, ok_bind, ← Nat.cast_mul,
    Int.toNat_natCast]
  rfl

/-- The fee at a price, rounded up, as far as `i64` goes. -/
theorem protocolFeeZat_exact {debt : Nat} {p : Int} (h : debt ≤ 900000000000000000) (hp : 0 < p) :
    protocolFeeZat debt p =
      .ok (some (min (divCeil (scheduleFee debt * coin) p.toNat : Int) i64Max)) := by
  have hfits : scheduleFee debt * coin < 340282366920938463463374607431768211456 := by
    have hlt := marginalFee_lt h
    have hle : scheduleFee debt ≤ 9223372036854775807 := by
      unfold scheduleFee feeFloor i64Max at *
      split <;> omega
    exact (Nat.mul_le_mul_right coin hle).trans_lt (by decide)
  rw [protocolFeeZat_eq hp (protocolFeeUnits_exact h) hfits, getD_toI64?]

/-- The fee falls as the price grows. -/
theorem divCeil_scheduleFee_anti {debt : Nat} {p q : Int} (hp : 0 < p) (hpq : p ≤ q) :
    min (divCeil (scheduleFee debt * coin) q.toNat : Int) i64Max ≤
      min (divCeil (scheduleFee debt * coin) p.toNat : Int) i64Max := by
  refine min_le_min_right _ (Int.ofNat_le.mpr (divCeil_le_divCeil ?_ le_rfl ?_))
  · exact Int.pos_iff_toNat_pos.mp hp
  · exact Int.toNat_le_toNat hpq

/-- For any two debts up to 9·10^17 cents and prices above 0: the fee of a debt is nothing for no
debt, else the larger of the floor and the marginal rates over the debt; it grows with the debt and
is subadditive; in zatoshi it is the ceiling at the price, at most what `i64` holds, and falls as the
price grows; and the attestors' share is no more than the fee. -/
theorem protocol_fee_schedule {a b : Nat} {p q : Int} (ha : a ≤ 900000000000000000)
    (hb : b ≤ 900000000000000000) (hp : 0 < p) (hpq : p ≤ q) :
    (∀ debt ∈ [a, b], protocolFeeUnits debt =
      .ok (if debt = 0 then 0 else max (marginalFee debt : Int) feeFloor)) ∧
    (∃ u v w, protocolFeeUnits a = .ok u ∧ protocolFeeUnits b = .ok v ∧
      protocolFeeUnits (a + b) = .ok w ∧ (a ≤ b → u ≤ v) ∧ w ≤ u + v) ∧
    (∃ u fee fee', protocolFeeUnits a = .ok u ∧ protocolFeeZat a p = .ok (some fee) ∧
      protocolFeeZat a q = .ok (some fee') ∧ fee = min ⌈(u * coin : ℚ) / p⌉ i64Max ∧ fee' ≤ fee) ∧
    ∀ network fee, attestFeeZatFor network fee ≤ max fee 0 := by
  refine ⟨?_, ?_, ?_, fun network fee ↦ (attestFeeZatFor_le network fee).2⟩
  · intro debt hdebt
    have hle : debt ≤ 900000000000000000 := by
      rcases List.mem_pair.mp hdebt with rfl | rfl
      · exact ha
      · exact hb
    rw [protocolFeeUnits_exact hle, scheduleFee]
    split <;> simp
  · refine ⟨_, _, _, protocolFeeUnits_exact ha, protocolFeeUnits_exact hb,
      protocolFeeUnits_eq (by unfold i64Max; omega), ?_, ?_⟩
    · intro hab
      exact Int.ofNat_le.mpr (scheduleFee_mono hab)
    · exact (min_le_left _ _).trans (Int.ofNat_le.mpr (scheduleFee_add_le a b))
  · refine ⟨_, _, _, protocolFeeUnits_exact ha, protocolFeeZat_exact ha hp,
      protocolFeeZat_exact ha (hp.trans_le hpq), ?_, divCeil_scheduleFee_anti hp hpq⟩
    obtain ⟨n, rfl⟩ := Int.eq_ofNat_of_zero_le hp.le
    rw [Int.toNat_natCast, ← ceil_eq_divCeil _ (Int.ofNat_lt.mp hp)]
    push_cast
    rfl

/-- Debts of $100 and $2,000 at prices of $1 and $2. -/
theorem protocol_fee_schedule_sample : ∃ u v w, protocolFeeUnits 10000 = .ok u ∧
    protocolFeeUnits 200000 = .ok v ∧ protocolFeeUnits 210000 = .ok w ∧ u ≤ v ∧ w ≤ u + v := by
  obtain ⟨-, ⟨u, v, w, hu, hv, hw, hmono, hadd⟩, -, -⟩ :=
    @protocol_fee_schedule 10000 200000 1000000 2000000 (by decide) (by decide) (by decide)
      (by decide)
  exact ⟨u, v, w, hu, hv, hw, hmono (by decide), hadd⟩

/-- No debt is charged nothing, below the floor; and a fee above what `i64` holds is charged that. -/
theorem not_protocol_fee_exact :
    (¬ ∀ debt ≤ 900000000000000000,
      protocolFeeUnits debt = .ok (max (marginalFee debt : Int) feeFloor)) ∧
    ¬ ∀ debt ≤ 900000000000000000, ∀ p > 0, ∃ u, protocolFeeUnits debt = .ok u ∧
      protocolFeeZat debt p = .ok (some ⌈(u * coin : ℚ) / p⌉) := by
  constructor
  · intro h
    have hzero : marginalFee 0 = 0 := charge_self 0
    have hfloor := h 0 (Nat.zero_le _)
    rw [hzero] at hfloor
    revert hfloor
    decide
  · intro h
    obtain ⟨u, hu, hfee⟩ := h 1000000000000 (by decide) 1 (by decide)
    have hunits : protocolFeeUnits 1000000000000 = .ok 10000045000000 := by decide
    have hcap : protocolFeeZat 1000000000000 1 = .ok (some i64Max) := by decide
    obtain rfl : u = 10000045000000 := Except.ok.inj (hu.symm.trans hunits)
    rw [hcap, Except.ok.injEq, Option.some.injEq] at hfee
    norm_num [coin, i64Max] at hfee

end Yew.Build
