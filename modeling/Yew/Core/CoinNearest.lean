import Mathlib.Algebra.Order.BigOperators.Group.Finset
import Mathlib.Order.Bounds.Basic
import Yew.Core.CoinSound

/-!
# The nearest workable amounts

An amount is workable when some coins pay it exactly or with a change that clears the floor.  Around
an amount that is not, the workable amounts above it are sums of coins, and those below it are sums
of coins or leave the floor of all that can be spent.  Of few coins `nearest_workable` misses none.

The function is `nearest_workable` of `core/src/coinselect.rs`, which the wallet shows when a
selection fails.  *Workable* is defined over all choices of coins, not over the ones the function
looks at.
-/

namespace Yew.CoinSelect

variable {coins : List Int} {target minOutput x : Int} {cap : Nat}

/-- Some choice of at most `cap` coins pays the amount. -/
def Workable (coins : List Int) (cap : Nat) (minOutput x : Int) : Prop :=
  ∃ c : Choice coins cap, c.Valid x minOutput

/-- The workable amounts above the target. -/
def workableAbove (coins : List Int) (cap : Nat) (minOutput target : Int) : Set Int :=
  { x | target < x ∧ Workable coins cap minOutput x }

/-- The workable amounts from the floor up to the target. -/
def workableBelow (coins : List Int) (cap : Nat) (minOutput target : Int) : Set Int :=
  { x | minOutput ≤ x ∧ x < target ∧ Workable coins cap minOutput x }

/-- The extreme element of a set, or nothing where the set is empty. -/
def Extreme (extreme : Set Int → Int → Prop) (s : Set Int) : Option Int → Prop
  | some x => extreme s x
  | none => s = ∅

/-! ## The largest coins -/

/-- The largest coins are a choice. -/
theorem exists_total_eq_largest (hpos : ∀ c ∈ coins, 0 < c) (cap : Nat) :
    ∃ c : Choice coins cap, c.total = largest coins cap := by
  let w := walkOf coins 0 0 cap .exact
  have hw : w.Ranked := ranked_walkOf hpos .exact
  have hle : min cap coins.length ≤ w.order.length := by
    rw [hw.length_eq]
    exact min_le_right _ _
  have hsub : (List.range (min cap coins.length)).Sublist (List.range w.order.length) :=
    Walk.sublist_range_of_le (List.Sublist.refl _) hle
  have hlen : (List.range (min cap coins.length)).length ≤ w.maxInputs := by simp [w]
  refine ⟨Choice.ofPicks hw hsub hlen, ?_⟩
  rw [Choice.total_ofPicks, hw.sumOf_range _ hle]
  exact largest_min cap

theorem Choice.total_nonneg (hpos : ∀ c ∈ coins, 0 < c) (c : Choice coins cap) : 0 ≤ c.total := by
  refine Finset.sum_nonneg fun i hi ↦ ?_
  have hlt : i < coins.length := Finset.mem_range.mp (c.subset hi)
  rw [coin, List.getD_eq_getElem _ _ hlt]
  exact (hpos _ (List.getElem_mem hlt)).le

theorem largest_pos (hpos : ∀ c ∈ coins, 0 < c) (hne : coins ≠ []) (hcap : 1 ≤ cap) :
    0 < largest coins cap := by
  have hone : 0 < largest coins 1 := by
    have hperm := List.perm_insertionSort (· ≥ ·) coins
    rw [largest]
    cases hsort : coins.insertionSort (· ≥ ·) with
    | nil =>
      rw [hsort] at hperm
      exact absurd hperm.symm.eq_nil hne
    | cons c cs =>
      rw [hsort] at hperm
      simpa using hpos c (hperm.mem_iff.mp List.mem_cons_self)
  exact hone.trans_le (largest_mono hpos hcap)

/-! ## Around an amount that is not workable -/

theorem workable_total (c : Choice coins cap) : Workable coins cap minOutput c.total := ⟨c, .inl rfl⟩

theorem workable_of_le (hpos : ∀ c ∈ coins, 0 < c) (h : x + minOutput ≤ largest coins cap) :
    Workable coins cap minOutput x := by
  obtain ⟨c, hc⟩ := exists_total_eq_largest hpos cap
  exact ⟨c, .inr (h.trans_eq hc.symm)⟩

/-- Whatever a target that is not workable is paid with falls short of the target and the floor. -/
theorem largest_lt (hpos : ∀ c ∈ coins, 0 < c) (hnot : ¬ Workable coins cap minOutput target) :
    largest coins cap < target + minOutput := by
  by_contra hle
  exact hnot (workable_of_le hpos (not_lt.mp hle))

/-- The workable amounts above it are sums of coins. -/
theorem mem_workableAbove (hnot : ¬ Workable coins cap minOutput target) :
    x ∈ workableAbove coins cap minOutput target ↔
      target < x ∧ ∃ c : Choice coins cap, c.total = x := by
  constructor
  · rintro ⟨hlt, c, hc | hc⟩
    · exact ⟨hlt, c, hc⟩
    · exact absurd ⟨c, .inr (by omega)⟩ hnot
  · rintro ⟨hlt, c, rfl⟩
    exact ⟨hlt, workable_total c⟩

/-- The workable amounts below it are sums of coins, or leave the floor of the largest coins. -/
theorem mem_workableBelow (hpos : ∀ c ∈ coins, 0 < c) :
    x ∈ workableBelow coins cap minOutput target ↔ minOutput ≤ x ∧ x < target ∧
      ((∃ c : Choice coins cap, c.total = x) ∨ x ≤ largest coins cap - minOutput) := by
  refine and_congr_right fun _ ↦ and_congr_right fun _ ↦ ⟨?_, ?_⟩
  · rintro ⟨c, hc | hc⟩
    · exact .inl ⟨c, hc⟩
    · have := c.total_le_largest hpos
      exact .inr (by omega)
  · rintro (⟨c, rfl⟩ | hle)
    · exact workable_total c
    · exact workable_of_le hpos (by omega)

/-! ## What the walks find -/

section Walks

variable (hpos : ∀ c ∈ coins, 0 < c) (hfew : coins.length ≤ 17) (hcap : 1 ≤ cap)
include hpos hfew hcap

/-- The walk above the target has the smallest sum above it. -/
theorem above_spec (htarget : 0 ≤ target) :
    Extreme IsLeast { x | target < x ∧ ∃ c : Choice coins cap, c.total = x }
      (let s := (walkOf coins target minOutput cap .above).run
       if s.found then some s.bestSum else none) := by
  dsimp only
  have hsettled (c : Choice coins cap) (hc : target < c.total) :=
    @settled_of_pos coins target minOutput cap .above hpos nofun hfew c (by omega)
      (decide_eq_true hc)
  split
  · rename_i hfound
    obtain ⟨c, hc, hhits⟩ := exists_choice_of_found hpos hcap hfound
    refine ⟨⟨?_, c, hc⟩, ?_⟩
    · rw [← hc]
      exact of_decide_eq_true hhits
    · rintro _ ⟨hlt, c, rfl⟩
      rcases hsettled c hlt with h | h
      · simp only [Walk.better, hfound, if_true] at h
        exact not_lt.mp (of_decide_eq_false h)
      · simp [Walk.done] at h
  · rename_i hfound
    refine Set.eq_empty_of_forall_notMem ?_
    rintro _ ⟨hlt, c, rfl⟩
    exact hfound (found_of_settled (hsettled c hlt))

/-- The walk below the target has the largest sum of some coins below it. -/
theorem below_spec :
    Extreme IsGreatest { x | 0 < x ∧ x < target ∧ ∃ c : Choice coins cap, c.total = x }
      (let s := (walkOf coins target minOutput cap .below).run
       if s.found then some s.bestSum else none) := by
  dsimp only
  have hsettled (c : Choice coins cap) (hc : 0 < c.total) (hlt : c.total < target) :=
    @settled_of_pos coins target minOutput cap .below hpos nofun hfew c hc (decide_eq_true hlt)
  split
  · rename_i hfound
    have hsound := @Walk.run_sound (walkOf coins target minOutput cap .below) hcap hfound
    obtain ⟨c, hc, hhits⟩ := exists_choice_of_found hpos hcap hfound
    refine ⟨⟨?_, ?_, c, hc⟩, ?_⟩
    · rw [← hsound.sum_eq]
      exact Walk.sumOf_pos (ranked_walkOf hpos .below).positive hsound.ne_nil
        fun p hp ↦ List.mem_range.mp (hsound.sublist.subset hp)
    · rw [← hc]
      exact of_decide_eq_true hhits
    · rintro _ ⟨hc, hlt, c, rfl⟩
      rcases hsettled c hc hlt with h | h
      · simp only [Walk.better, hfound, if_true] at h
        exact not_lt.mp (of_decide_eq_false h)
      · simp [Walk.done] at h
  · rename_i hfound
    refine Set.eq_empty_of_forall_notMem ?_
    rintro _ ⟨hc, hlt, c, rfl⟩
    exact hfound (found_of_settled (hsettled c hc hlt))

end Walks

/-! ## The nearest -/

/-- The two amounts are the nearest there are. -/
structure Nearest (coins : List Int) (target minOutput : Int) (cap : Nat) (alt : Alternatives) :
    Prop where
  above : Extreme IsLeast (workableAbove coins cap minOutput target) alt.above
  below : Extreme IsGreatest (workableBelow coins cap minOutput target) alt.below

/-- Where there is nothing to spend there is nothing near. -/
theorem nearest_nil (hmin : 0 < minOutput) (htarget : minOutput ≤ target) :
    Nearest [] target minOutput cap (nearestWorkable [] target minOutput cap) := by
  have htotal (c : Choice [] cap) : c.total = 0 :=
    le_antisymm ((c.total_le_largest (by simp)).trans_eq (by simp [largest]))
      (c.total_nonneg (by simp))
  have hnot {x : Int} (hx : 0 < x) : ¬ Workable [] cap minOutput x := by
    rintro ⟨c, hc | hc⟩
    all_goals
      rw [htotal] at hc
      omega
  have hnone : nearestWorkable [] target minOutput cap = {} := by
    simp [nearestWorkable, reachable, rankDescending]
  rw [hnone]
  constructor
  · refine Set.eq_empty_of_forall_notMem ?_
    rintro x ⟨hlt, hx⟩
    exact hnot (by omega) hx
  · refine Set.eq_empty_of_forall_notMem ?_
    rintro x ⟨hle, -, hx⟩
    exact hnot (by omega) hx

section Around

variable (hpos : ∀ c ∈ coins, 0 < c) (hfew : coins.length ≤ 17) (hcap : 1 ≤ cap)
  (hreach : 0 < largest coins cap) (hnot : ¬ Workable coins cap minOutput target)
include hpos hfew hcap hreach hnot

theorem nearest_above (htarget : 0 ≤ target) :
    Extreme IsLeast (workableAbove coins cap minOutput target)
      (nearestWorkable coins target minOutput cap).above := by
  obtain ⟨all, hall⟩ := exists_total_eq_largest hpos cap
  have hset : workableAbove coins cap minOutput target =
      { x | target < x ∧ ∃ c : Choice coins cap, c.total = x } :=
    Set.ext fun x ↦ mem_workableAbove hnot
  have hup := @above_spec coins target minOutput cap hpos hfew hcap htarget
  unfold nearestWorkable
  simp only [reachable_eq_largest, if_neg (not_le.mpr hreach)]
  set up := (walkOf coins target minOutput cap .above).run
  rw [hset]
  dsimp only at hup ⊢
  cases hfound : up.found with
  | true =>
    rw [hfound, if_pos rfl] at hup
    have hle : ¬ (target < largest coins cap ∧ largest coins cap < up.bestSum) := fun h ↦
      absurd (hup.2 ⟨h.1, all, hall⟩) (not_le.mpr h.2)
    simp only [Bool.not_true, Bool.false_eq_true, false_or, if_neg hle, if_true, if_pos hup.1.1]
    exact hup
  | false =>
    rw [hfound, if_neg Bool.false_ne_true] at hup
    have hle : largest coins cap ≤ target := by
      by_contra hlt
      exact Set.eq_empty_iff_forall_notMem.mp hup _ ⟨not_le.mp hlt, all, hall⟩
    simp only [Bool.not_false, true_or, and_true, if_neg (not_lt.mpr hle), Bool.false_eq_true,
      if_false, if_neg (not_lt.mpr htarget)]
    exact hup

theorem nearest_below :
    Extreme IsGreatest (workableBelow coins cap minOutput target)
      (nearestWorkable coins target minOutput cap).below := by
  have hshort := largest_lt hpos hnot
  have hdown := @below_spec coins target minOutput cap hpos hfew hcap
  unfold nearestWorkable
  simp only [reachable_eq_largest, if_neg (not_le.mpr hreach)]
  set down := (walkOf coins target minOutput cap .below).run
  dsimp only at hdown ⊢
  set below := if down.found = true ∧ largest coins cap - minOutput < down.bestSum then
    down.bestSum else largest coins cap - minOutput with hbelow
  have hsum (c : Choice coins cap) (hc : 0 < c.total) (hlt : c.total < target) :
      down.found = true ∧ c.total ≤ down.bestSum := by
    cases hfound : down.found with
    | true =>
      rw [hfound, if_pos rfl] at hdown
      exact ⟨rfl, hdown.2 ⟨hc, hlt, c, rfl⟩⟩
    | false =>
      rw [hfound, if_neg Bool.false_ne_true] at hdown
      exact absurd ⟨hc, hlt, c, rfl⟩ (Set.eq_empty_iff_forall_notMem.mp hdown _)
  have hmem : below < target ∧
      ((∃ c : Choice coins cap, c.total = below) ∨ below ≤ largest coins cap - minOutput) := by
    rw [hbelow]
    split
    · rename_i h
      rw [h.1, if_pos rfl] at hdown
      exact ⟨hdown.1.2.1, .inl hdown.1.2.2⟩
    · exact ⟨by omega, .inr (le_refl _)⟩
  have hupper : ∀ y ∈ workableBelow coins cap minOutput target, y ≤ below := by
    intro y hy
    obtain ⟨hy, hlt, ⟨c, rfl⟩ | hle⟩ := (mem_workableBelow hpos).mp hy
    · rcases (c.total_nonneg hpos).eq_or_lt with hzero | hc
      · -- the empty choice: the floor is not above nothing
        rw [hbelow]
        split <;> omega
      · obtain ⟨hfound, hle⟩ := hsum c hc hlt
        rw [hbelow]
        split
        · exact hle
        · rename_i h
          exact hle.trans (not_lt.mp fun hlt ↦ h ⟨hfound, hlt⟩)
    · rw [hbelow]
      split <;> omega
  split
  · rename_i h
    exact ⟨(mem_workableBelow hpos).mpr ⟨h.1, hmem⟩, hupper⟩
  · rename_i h
    refine Set.eq_empty_of_forall_notMem fun y hy ↦ ?_
    exact h ⟨hy.1.trans (hupper y hy), hmem.1⟩

end Around

/-- Of few coins, `nearest_workable` names the nearest workable amounts around one that is not
workable.  (With no coins at all, only a floor above nothing keeps the empty choice from being
workable.) -/
theorem nearestWorkable_nearest (coins : List Int) (target minOutput : Int) (cap : Nat)
    (hfew : coins.length ≤ 17) (hpos : ∀ c ∈ coins, 0 < c) (hcap : 1 ≤ cap)
    (htarget : minOutput ≤ target) (hmin : coins = [] → 0 < minOutput)
    (hnot : ¬ Workable coins cap minOutput target) :
    Nearest coins target minOutput cap (nearestWorkable coins target minOutput cap) := by
  by_cases hne : coins = []
  · subst hne
    exact nearest_nil (hmin rfl) htarget
  · have hreach := largest_pos hpos hne hcap
    have hshort := largest_lt hpos hnot
    exact ⟨nearest_above hpos hfew hcap hreach hnot (by omega),
      nearest_below hpos hfew hcap hreach hnot⟩

theorem nearestWorkable_nearest_single : Nearest [10000] 9950 100 250 ⟨some 9900, some 10000⟩ := by
  have hnot : ¬ Workable [10000] 250 100 9950 := by
    rintro ⟨c, hc⟩
    obtain ⟨picks, hsub, -, hsum⟩ :=
      Choice.exists_picks (@ranked_walkOf [10000] 0 0 250 (by decide) .exact) c
    have : picks = [] ∨ picks = [0] := List.sublist_singleton.mp hsub
    rcases this with rfl | rfl
    all_goals
      have : c.total = _ := hsum.symm
      simp [Walk.sumOf, Walk.value, coin, rankDescending] at this
      rcases hc with hc | hc <;> omega
  have h : nearestWorkable [10000] 9950 100 250 = ⟨some 9900, some 10000⟩ := by decide +kernel
  rw [← h]
  exact nearestWorkable_nearest [10000] 9950 100 250 (by decide) (by decide) (by decide) (by decide)
    (fun hnil ↦ absurd hnil (List.cons_ne_nil _ _)) hnot

end Yew.CoinSelect
