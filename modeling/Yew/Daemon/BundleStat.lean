import Yew.Build.ResidualRule
import Yew.Util.Quantile
import Yew.Util.Sorted

/-!
# The prices of a bundle

A bundle of attestations gives two prices, the weighted quantiles at a low and a high share of its
weight.  The loop runs over the attestations sorted by price, and its sums are `u128`.

The general part, weighted quantiles and what a coalition can do to them, is `Yew.Util.Quantile`.

## Source

* `yewd/wallet/src/armed.rs`: `weighted_quantile`, `bundle_stat`
-/

namespace Yew.Daemon

open Build Quantile Sorted

/-- An attestation of a bundle: the number of the member, its price and its weight. -/
structure Attested where
  seq : UInt16
  price : Int
  weight : Nat
deriving DecidableEq

/-- A sum or product of `u128` numbers. -/
def wrap128 (n : Nat) : Nat := n % 2 ^ 128

theorem wrap128_of_lt {n : Nat} (h : n < 2 ^ 128) : wrap128 n = n := Nat.mod_eq_of_lt h

/-- The loop of `weighted_quantile` over the entries that are left. -/
def reachPrice (threshold : Nat) : Nat → List (Int × Nat) → Option Int
  | _, [] => none
  | cum, (price, w) :: es =>
    let cum := wrap128 (cum + w)
    if cum ≥ threshold then some price else reachPrice threshold cum es

/-- `weighted_quantile`. -/
def weightedQuantile (entries : List (Int × Nat)) (qBps : Int) : Option Int :=
  if entries.isEmpty then none
  else
    let q := (max qBps 0).toNat
    let total := wrap128 (entries.map Prod.snd).sum
    let threshold := divCeil (wrap128 (total * q)) bps
    reachPrice threshold 0 entries

/-- By price, then by member. -/
def attestedOrder (a b : Attested) : Ordering :=
  (compare a.price b.price).then (compare a.seq b.seq)

/-- `bundle_stat`. -/
def bundleStat (atts : List Attested) (mSelect : Nat) (qLow qHigh : Int) :
    Option Int × Option Int :=
  if atts.isEmpty ∨ atts.length < mSelect then (none, none)
  else if ¬ (0 ≤ qLow ∧ qLow ≤ 10000) ∨ ¬ (0 ≤ qHigh ∧ qHigh ≤ 10000) then (none, none)
  else
    let sorted := atts.insertionSort fun a b ↦ attestedOrder a b ≠ .gt
    let e := sorted.map fun a ↦ (a.price, a.weight)
    (weightedQuantile e qLow, weightedQuantile e qHigh)

/-! ## The loop finds the quantile -/

instance instTransCmpAttestedOrder : Std.TransCmp attestedOrder :=
  inferInstanceAs (Std.TransCmp (compareLex (compareOn Attested.price) (compareOn Attested.seq)))

theorem price_le_of_attestedOrder {a b : Attested} (h : attestedOrder a b ≠ .gt) :
    a.price ≤ b.price := by
  by_contra hlt
  have hgt : compare a.price b.price = .gt := compare_gt_iff_gt.mpr (not_le.mp hlt)
  rw [attestedOrder, hgt] at h
  exact h rfl

/-- The weight of a bundle. -/
def totalWeight (atts : List Attested) : Nat := (atts.map Attested.weight).sum

/-- The share of the weight that a price has to reach. -/
def shareOf (atts : List Attested) (q : Int) : Nat := ⌈(totalWeight atts * q : ℚ) / 10000⌉₊

theorem shareOf_eq {atts : List Attested} {q : Int} (hq : 0 ≤ q) :
    shareOf atts q = divCeil (totalWeight atts * q.toNat) bps := by
  obtain ⟨q, rfl⟩ := Int.eq_ofNat_of_zero_le hq
  have hceil := ceil_eq_divCeil (totalWeight atts * q) (b := bps) (by decide)
  rw [shareOf, ← Int.ceil_toNat, Int.toNat_natCast]
  push_cast at hceil ⊢
  rw [show ((bps : Nat) : ℚ) = 10000 from by norm_num [bps]] at hceil
  rw [hceil, Int.toNat_natCast]

theorem shareOf_le {atts : List Attested} {q : Int} (hq : 0 ≤ q) (hq' : q ≤ 10000) :
    shareOf atts q ≤ totalWeight atts := by
  rw [shareOf_eq hq, divCeil_le_iff (by decide)]
  exact Nat.mul_le_mul_left _ (show q.toNat ≤ 10000 by omega)

theorem shareOf_mono {atts : List Attested} {q q' : Int} (h : q ≤ q') :
    shareOf atts q ≤ shareOf atts q' := by
  refine Nat.ceil_mono (div_le_div_of_nonneg_right ?_ (by norm_num))
  exact mul_le_mul_of_nonneg_left (by exact_mod_cast h) (Nat.cast_nonneg _)

/-- The quantile of a bundle at a share of its weight. -/
abbrev Quantiled (atts : List Attested) (q p : Int) : Prop :=
  IsQuantile Attested.price Attested.weight atts (shareOf atts q) p

/-- With sums that fit, the loop is that over plain numbers. -/
theorem reachPrice_eq {t cum : Nat} {l : List Attested}
    (h : cum + (l.map Attested.weight).sum < 2 ^ 128) :
    reachPrice t cum (l.map fun a ↦ (a.price, a.weight)) =
      firstReaching Attested.price Attested.weight t cum l := by
  induction l generalizing cum with
  | nil => rfl
  | cons a l ih =>
    rw [List.map_cons, List.sum_cons] at h
    rw [List.map_cons, reachPrice, firstReaching, wrap128_of_lt (by omega)]
    rw [ih (by omega)]

theorem perm_sort (atts : List Attested) :
    (atts.insertionSort fun a b ↦ attestedOrder a b ≠ .gt).Perm atts :=
  List.perm_insertionSort _ atts

/-- `weighted_quantile` of a bundle is its quantile. -/
theorem exists_weightedQuantile {atts : List Attested} {q : Int} (hne : atts ≠ [])
    (hweight : totalWeight atts < 2 ^ 100) (hq : 0 ≤ q) (hq' : q ≤ 10000) :
    ∃ p, weightedQuantile ((atts.insertionSort fun a b ↦ attestedOrder a b ≠ .gt).map
        fun a ↦ (a.price, a.weight)) q = some p ∧ Quantiled atts q p := by
  have hperm := perm_sort atts
  have hsorted : (atts.insertionSort fun a b ↦ attestedOrder a b ≠ .gt).Pairwise
      fun a b ↦ attestedOrder a b ≠ .gt := pairwise_sort atts
  generalize atts.insertionSort (fun a b ↦ attestedOrder a b ≠ .gt) = sorted at hperm hsorted
  have hsum : (sorted.map Attested.weight).sum = totalWeight atts := (hperm.map _).sum_eq
  have hne' : sorted ≠ [] := fun hnil ↦ hne (List.perm_nil.mp (hnil ▸ hperm).symm)
  have hmul : totalWeight atts * q.toNat < 2 ^ 128 := by
    have hle := Nat.mul_le_mul hweight.le (show q.toNat ≤ 10000 by omega)
    omega
  have hmap : ((sorted.map fun a ↦ (a.price, a.weight)).map Prod.snd).sum = totalWeight atts := by
    rw [List.map_map]
    exact hsum
  have hshare : divCeil (wrap128 (wrap128 (totalWeight atts) * (max q 0).toNat)) bps =
      shareOf atts q := by
    have htotal : wrap128 (totalWeight atts) = totalWeight atts := wrap128_of_lt (by omega)
    rw [max_eq_left hq, htotal, wrap128_of_lt hmul, shareOf_eq hq]
  have hreach : shareOf atts q ≤ 0 + (sorted.map Attested.weight).sum := by
    rw [Nat.zero_add, hsum]
    exact shareOf_le hq hq'
  have hsome : (firstReaching Attested.price Attested.weight (shareOf atts q) 0 sorted).isSome :=
    isSome_firstReaching hne' hreach
  obtain ⟨p, hp⟩ := Option.isSome_iff_exists.mp hsome
  refine ⟨p, ?_, ?_⟩
  · rw [weightedQuantile, if_neg (by simpa using hne'), hmap]
    dsimp only
    rw [hshare, reachPrice_eq (by omega), hp]
  · have hprices : ([] ++ sorted).Pairwise fun (a b : Attested) ↦ a.price ≤ b.price :=
      hsorted.imp price_le_of_attestedOrder
    exact (isQuantile_firstReaching hprices (fun h ↦ absurd rfl h) hp).perm hperm

/-! ## What no coalition can change -/

/-- A price that a bundle stands for, at a share of its weight. -/
structure StandsFor (atts : List Attested) (q p : Int) : Prop where
  occurs : ∃ a ∈ atts, a.price = p
  /-- Those who name the price or less weigh the share, and those of no lower price do. -/
  smallest : shareOf atts q ≤ weighing Attested.weight (·.price ≤ p) atts ∧
    ∀ a ∈ atts, shareOf atts q ≤ weighing Attested.weight (·.price ≤ a.price) atts → p ≤ a.price
  /-- Members that weigh less than the share, where the others weigh it, leave the price within
  those of the others. -/
  coalition : ∀ S : UInt16 → Bool, weighing Attested.weight (S ·.seq) atts < shareOf atts q →
    shareOf atts q ≤ weighing Attested.weight (fun a ↦ ¬ S a.seq) atts →
    (∃ a ∈ atts, ¬ S a.seq ∧ a.price ≤ p) ∧ ∃ a ∈ atts, ¬ S a.seq ∧ p ≤ a.price

theorem standsFor_of_quantiled {atts : List Attested} {q p : Int} (h : Quantiled atts q p) :
    StandsFor atts q p := by
  refine ⟨h.occurs, ⟨h.reaches, h.least⟩, fun S hS hothers ↦ ⟨h.exists_le hS, ?_⟩⟩
  have hpos : 0 < weighing Attested.weight (fun a ↦ ¬ S a.seq) atts := by omega
  exact h.exists_ge (exists_of_weighing_pos hpos) hothers

/-- The same members, of which none names a lower price. -/
def RaisedTo (atts atts' : List Attested) : Prop :=
  List.Forall₂ (fun a b ↦ a.seq = b.seq ∧ a.weight = b.weight ∧ a.price ≤ b.price) atts atts'

theorem bundleStat_eq {atts : List Attested} {mSelect : Nat} {qLow qHigh : Int} (hne : atts ≠ [])
    (hweight : totalWeight atts < 2 ^ 100) (hm : mSelect ≤ atts.length) (hlow : 0 ≤ qLow)
    (hle : qLow ≤ qHigh) (hhigh : qHigh ≤ 10000) :
    ∃ aMint aClaim, bundleStat atts mSelect qLow qHigh = (some aMint, some aClaim) ∧
      Quantiled atts qLow aMint ∧ Quantiled atts qHigh aClaim := by
  obtain ⟨aMint, hmint, hqmint⟩ := exists_weightedQuantile hne hweight hlow (hle.trans hhigh)
  obtain ⟨aClaim, hclaim, hqclaim⟩ := exists_weightedQuantile hne hweight (hlow.trans hle) hhigh
  refine ⟨aMint, aClaim, ?_, hqmint, hqclaim⟩
  rw [bundleStat, if_neg (by simpa [hne] using hm), if_neg (by omega)]
  exact Prod.ext hmint hclaim

/-- A bundle that is not empty: its prices occur in it, the one to mint at is no
higher than the one to claim at, they stand for the bundle, they depend on no order, and raising
prices never lowers them. -/
theorem bundle_resists {atts : List Attested} {mSelect : Nat} {qLow qHigh : Int} (hne : atts ≠ [])
    (hweight : totalWeight atts < 2 ^ 100)
    (hm : mSelect ≤ atts.length) (hlow : 0 ≤ qLow) (hle : qLow ≤ qHigh) (hhigh : qHigh ≤ 10000) :
    ∃ aMint aClaim, bundleStat atts mSelect qLow qHigh = (some aMint, some aClaim) ∧
      aMint ≤ aClaim ∧ StandsFor atts qLow aMint ∧ StandsFor atts qHigh aClaim ∧
      (∀ atts' : List Attested, atts'.Perm atts →
        bundleStat atts' mSelect qLow qHigh = bundleStat atts mSelect qLow qHigh) ∧
      ∀ atts', RaisedTo atts atts' → ∃ aMint' aClaim',
        bundleStat atts' mSelect qLow qHigh = (some aMint', some aClaim') ∧
          aMint ≤ aMint' ∧ aClaim ≤ aClaim' := by
  obtain ⟨aMint, aClaim, hstat, hmint, hclaim⟩ := bundleStat_eq hne hweight hm hlow hle hhigh
  refine ⟨aMint, aClaim, hstat, hmint.mono hclaim (shareOf_mono hle), standsFor_of_quantiled hmint,
    standsFor_of_quantiled hclaim, ?_, ?_⟩
  · intro atts' hperm
    have hsum : totalWeight atts' = totalWeight atts := (hperm.map _).sum_eq
    have hne' : atts' ≠ [] := fun hnil ↦ hne (List.perm_nil.mp (hnil ▸ hperm).symm)
    obtain ⟨aMint', aClaim', hstat', hmint', hclaim'⟩ := bundleStat_eq hne' (hsum.trans_lt hweight)
      (hperm.length_eq ▸ hm) hlow hle hhigh
    rw [Quantiled, shareOf, hsum, ← shareOf] at hmint' hclaim'
    rw [hstat, hstat', (hmint'.perm hperm).unique hmint, (hclaim'.perm hperm).unique hclaim]
  · intro atts' hraised
    have hraise : Raised Attested.price Attested.weight atts atts' := hraised.imp fun _ _ h ↦ h.2
    have hsum : totalWeight atts' = totalWeight atts := hraise.sum_eq.symm
    have hne' : atts' ≠ [] := by
      rintro rfl
      exact hne (List.forall₂_nil_right_iff.mp hraised)
    obtain ⟨aMint', aClaim', hstat', hmint', hclaim'⟩ := bundleStat_eq hne' (hsum.trans_lt hweight)
      (hraised.length_eq ▸ hm) hlow hle hhigh
    rw [Quantiled, shareOf, hsum, ← shareOf] at hmint' hclaim'
    exact ⟨aMint', aClaim', hstat', hmint.raise hmint' hraise, hclaim.raise hclaim' hraise⟩

/-- Three members of one weight: the lowest price to mint at, the highest to claim at. -/
theorem bundle_resists_sample :
    bundleStat [⟨1, 300, 1⟩, ⟨2, 100, 1⟩, ⟨3, 200, 1⟩] 2 3333 6667 = (some 100, some 300) ∧
      StandsFor [⟨1, 300, 1⟩, ⟨2, 100, 1⟩, ⟨3, 200, 1⟩] 3333 100 := by
  obtain ⟨aMint, aClaim, hstat, -, hmint, -⟩ :=
    @bundle_resists [⟨1, 300, 1⟩, ⟨2, 100, 1⟩, ⟨3, 200, 1⟩] 2 3333 6667 nofun (by decide) (by decide)
      (by decide) (by decide) (by decide)
  have hprices : bundleStat [⟨1, 300, 1⟩, ⟨2, 100, 1⟩, ⟨3, 200, 1⟩] 2 3333 6667 =
      (some 100, some 300) := by
    decide +kernel
  rw [hprices, Prod.mk.injEq, Option.some.injEq] at hstat
  exact ⟨hprices, hstat.1 ▸ hmint⟩

/-- Where no member has to be there, an empty bundle gives no price. -/
theorem not_bundle_gives :
    totalWeight [] < 2 ^ 100 ∧ 0 ≤ ([] : List Attested).length ∧
      ¬ ∃ aMint aClaim, bundleStat [] 0 3333 6667 = (some aMint, some aClaim) := by
  refine ⟨by decide, le_rfl, ?_⟩
  rintro ⟨aMint, aClaim, hstat⟩
  cases hstat

end Yew.Daemon
