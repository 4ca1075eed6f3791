import Yew.Core.CoinSound

/-!
# How much the selector overpays

A selection that is neither exact nor a single coin is made of coins that are each below the target
and the floor, and it stops as soon as it can, so it overpays by less than that again.  Only a
single coin can leave more change, and the selector takes the least that does.

The selector is `select_floor_aware` of `core/src/coinselect.rs`; the bound is what a caller may
rely on when it takes the change for granted.

## Source

* `core/src/shielded.rs`: `Shielded::open`
-/

namespace Yew.CoinSelect

variable {coins : List Int} {target minOutput : Int} {cap : Nat}

/-! ## The walk -/

namespace Walk

variable {w : Walk} {s : State} {k i : Nat} {sum : Int}

/-- A sum that the walk adds coins to. -/
def Open (w : Walk) (sum : Int) : Prop := sum = 0 ∨ w.goesOn sum = true

/-- The induction rule of the walk, for what depends on the sums that it adds coins to. -/
theorem loop_keeps_open {P : State → Prop}
    (hP : ∀ s b p, P s → P { s with budget := b, pick := p })
    (hvisit : ∀ i sum s, i < w.order.length → w.Open sum → P s →
      P (w.visit i (sum + w.value i) s))
    (hk : i + k ≤ w.order.length) (hsum : w.Open sum) (h : P s) : P (w.loop k i sum s) := by
  induction k generalizing i sum s with
  | zero => exact h
  | succ k ih =>
    simp only [loop]
    split
    · exact h
    · split
      · exact h
      · refine ih (by omega) hsum ?_
        have hv := hvisit i sum s (by omega) hsum h
        simp only [turn]
        refine hP _ _ _ ?_
        split
        · rename_i hgo
          unfold enter
          split
          · exact hv
          · exact ih (by omega) (.inr hgo.2) (hP _ _ _ hv)
        · exact hv

/-- What a walk records is less than a sum it adds to and a coin. -/
theorem bestSum_lt {bound : Int} (hopen : ∀ sum, w.Open sum → sum < bound)
    (hvalue : ∀ p < w.order.length, w.value p ≤ bound) (h : w.run.found = true) :
    w.run.bestSum < bound + bound := by
  have hrun : w.run.found = true → w.run.bestSum < bound + bound := by
    rw [run, descend, enter]
    split
    · intro hfound
      cases hfound
    · refine loop_keeps_open (P := fun s ↦ s.found = true → s.bestSum < bound + bound)
        (fun _ _ _ h ↦ h) (fun i sum s hi hsum h ↦ ?_) (by omega) (.inl rfl)
        (fun hfound ↦ absurd hfound Bool.false_ne_true)
      have hlt := hopen sum hsum
      have hle := hvalue i hi
      simp only [visit, record]
      split
      · split
        · intro _
          dsimp only
          omega
        · exact h
      · exact h
  exact hrun h

end Walk

/-! ## The stages -/

/-- The smallest coins first come to less than a sum that is not enough and a coin. -/
theorem greedy_sum_lt (hmin : 0 ≤ minOutput) {asc pick r : List Nat} {sum : Int}
    (h : greedy coins target minOutput cap asc pick sum = some r)
    (hsum : (pick.map (coin coins)).sum = sum) (hlt : sum < target + minOutput)
    (hcoin : ∀ i ∈ asc, coin coins i < target + minOutput) :
    (r.map (coin coins)).sum < (target + minOutput) + (target + minOutput) := by
  induction asc generalizing pick sum with
  | nil => cases h
  | cons i asc ih =>
    have hrest := fun j hj ↦ hcoin j (List.mem_cons_of_mem i hj)
    have hi := hcoin i List.mem_cons_self
    rw [greedy] at h
    split at h
    · exact ih h hsum hlt hrest
    · split at h
      · cases h
      · have hsum' : ((pick ++ [i]).map (coin coins)).sum = sum + coin coins i := by
          simp [hsum]
        dsimp only at h
        split at h
        · exact ih h hsum' (by omega) hrest
        · split at h
          · cases h
            omega
          · exact ih h hsum' (by omega) hrest

theorem coin_mem {i : Nat} (h : i < coins.length) : coin coins i ∈ coins := by
  rw [coin, List.getD_eq_getElem _ _ h]
  exact List.getElem_mem h

theorem exists_coin_eq {c : Int} (h : c ∈ coins) : ∃ i < coins.length, coin coins i = c := by
  obtain ⟨i, hi, rfl⟩ := List.mem_iff_getElem.mp h
  exact ⟨i, hi, by rw [coin, List.getD_eq_getElem _ _ hi]⟩

/-- The coins leave less than `bound` of change: they add up to the target, one coin pays it with
less change, or no coin pays it with change above the floor. -/
def Snug (coins : List Int) (target minOutput : Int) (cap : Nat) (bound : Int) : Prop :=
  (walkOf coins target minOutput cap .exact).run.found = true ∨
    (∃ c ∈ coins, target + minOutput ≤ c ∧ c < target + bound) ∨
    ∀ c ∈ coins, c < target + minOutput

/-- The change of a selection is below a bound that is large enough exactly when the coins are
snug. -/
theorem change_lt_iff {s : Selection} {bound : Int} (htarget : 0 < target) (hmin : 0 ≤ minOutput)
    (hcap : 0 < cap) (hbound : target + 2 * minOutput ≤ bound)
    (h : selectStages coins (rankDescending coins) target minOutput cap = some s) :
    s.change < bound ↔ Snug coins target minOutput cap bound := by
  rcases selectStages_eq_some h with ⟨hfound, rfl⟩ | ⟨hexact, ⟨i, hi, hcoin, hleast, rfl⟩ |
    ⟨hnone, hstage⟩⟩
  · have hs := Walk.run_sound hcap hfound
    refine iff_of_true ?_ (.inl hfound)
    simp only [make]
    rw [show ((Walk.result _ _).map (coin coins)).sum = _ from hs.sum_result,
      hits_exact.mp hs.hits]
    omega
  · have hchange : (make .single coins [i] target 0).change = coin coins i - target := by
      simp [make]
    rw [hchange]
    constructor
    · intro hlt
      exact .inr (.inl ⟨_, coin_mem hi, hcoin, by omega⟩)
    · rintro (hfound | ⟨c, hc, hge, hlt⟩ | hall)
      · exact absurd hfound hexact
      · obtain ⟨j, hj, rfl⟩ := exists_coin_eq hc
        have := hleast j hj hge
        omega
      · have := hall _ (coin_mem hi)
        omega
  · have hall : ∀ c ∈ coins, c < target + minOutput := by
      intro c hc
      obtain ⟨j, hj, rfl⟩ := exists_coin_eq hc
      exact hnone j hj
    refine iff_of_true ?_ (.inr (.inr hall))
    rcases hstage with ⟨pick, hpick, rfl⟩ | ⟨-, hfound, rfl⟩
    · have hlt := (@greedy_sum_lt _ _ _ _ hmin _ _ _ 0) hpick rfl (by omega) fun j hj ↦
        hnone j (List.mem_range.mp (perm_rankAscending.mem_iff.mp hj))
      have hsum := @sum_insertionSort coins pick
      simp only [make]
      omega
    · have hs := Walk.run_sound hcap hfound
      have hlt := (@Walk.bestSum_lt _ (target + minOutput)) (fun sum hopen ↦ ?_)
        (fun p hp ↦ ?_) hfound
      · simp only [make]
        rw [show ((Walk.result _ _).map (coin coins)).sum = _ from hs.sum_result]
        omega
      · rcases hopen with rfl | hgo
        · omega
        · by_contra hge
          have hhits := (@hits_validChange coins _ _ cap _).mpr
            (.inr (not_lt.mp hge))
          simp [Walk.goesOn, hhits] at hgo
      · have := hnone _ (Walk.getD_order_lt rfl hp)
        exact this.le

/-! ## The selector -/

/-- What the selector answers without leave to burn comes from a stage that burns nothing. -/
theorem selectStages_of_ok (htarget : 0 < target)
    (h : (selectFloorAware coins target minOutput cap false).ok = true) :
    selectStages coins (rankDescending coins) target minOutput cap =
      some (selectFloorAware coins target minOutput cap false) := by
  unfold selectFloorAware at h ⊢
  rw [if_neg (by omega), if_neg (by omega)] at h ⊢
  split at h
  · cases h
  · rename_i hsum
    rw [if_neg hsum]
    dsimp only at h ⊢
    split at h
    · cases h
    · rename_i hreach
      rw [if_neg hreach]
      split at h
      · rename_i s hs
        rw [hs]
      · cases h

end Yew.CoinSelect
