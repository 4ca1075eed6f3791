import Mathlib.Algebra.Order.BigOperators.Group.List
import Mathlib.Algebra.Order.Ring.Int
import Yew.Core.CoinExcess
import Yew.Core.CoinOrder

/-!
# Change past a bound

The coins and what is paid may all be within a bound that the change is not.  A selection of several
coins stops with the coin that lifts the change over the floor: where the coins before it fall short
of the target it leaves less change than that coin, but where they are past the target, by less than
the floor, it leaves more.  The search goes on to a smaller coin there; smallest first does not.

The selector is `select_floor_aware` of `core/src/coinselect.rs`.  The bound of the protocol is that
of a 32-bit assignment, and that of the two wallets a hundred thousand dollars; the lemmas are
stated for any bound.
-/

namespace Yew.CoinSelect

variable {coins : List Int} {target minOutput bound : Int} {cap : Nat}

/-- A sum that a selection stops at. -/
def Stops (target minOutput sum : Int) : Prop := sum = target ∨ target + minOutput ≤ sum

/-! ## The smallest coins -/

/-- The sum of the `k` smallest coins. -/
def smallest (coins : List Int) (k : Nat) : Int := ((coins.insertionSort (· ≤ ·)).take k).sum

@[simp] theorem smallest_zero : smallest coins 0 = 0 := rfl

theorem smallest_eq (k : Nat) :
    (((rankAscending coins).take k).map (coin coins)).sum = smallest coins k := by
  rw [smallest, ← map_coin_rankAscending, List.map_take]

theorem length_rankAscending : (rankAscending coins).length = coins.length := by
  simpa using (@perm_rankAscending coins).length_eq

theorem smallest_length : smallest coins coins.length = coins.sum := by
  rw [smallest, List.take_of_length_le (by rw [List.length_insertionSort])]
  exact (List.perm_insertionSort _ _).sum_eq

/-- The next smallest coin. -/
theorem exists_smallest_succ {k : Nat} (hk : k < coins.length) :
    ∃ c ∈ coins, smallest coins (k + 1) = smallest coins k + c := by
  have hlt : k < (coins.insertionSort (· ≤ ·)).length := by rwa [List.length_insertionSort]
  refine ⟨(coins.insertionSort (· ≤ ·))[k], ?_, ?_⟩
  · exact (List.perm_insertionSort (· ≤ ·) coins).mem_iff.mp (List.getElem_mem hlt)
  · rw [smallest, smallest, List.sum_take_succ _ _ hlt]

theorem smallest_succ_of_le {k : Nat} (hk : coins.length ≤ k) :
    smallest coins (k + 1) = smallest coins k := by
  rw [smallest, smallest, List.take_of_length_le (by rw [List.length_insertionSort]; omega),
    List.take_of_length_le (by rw [List.length_insertionSort]; omega)]

/-- Fewer coins are worth less, by a coin at least. -/
theorem smallest_add_le (hmin : 0 ≤ minOutput) (hcoins : ∀ c ∈ coins, minOutput ≤ c) {j k : Nat}
    (hjk : j < k) (hk : k ≤ coins.length) : smallest coins j + minOutput ≤ smallest coins k := by
  induction k with
  | zero => omega
  | succ k ih =>
    obtain ⟨c, hc, hsucc⟩ := exists_smallest_succ (show k < coins.length by omega)
    have hle := hcoins c hc
    rcases Nat.lt_or_eq_of_le (Nat.le_of_lt_succ hjk) with hlt | rfl
    · have := ih hlt (by omega)
      omega
    · omega

/-! ## Smallest first -/

/-- Smallest first takes coins up to the first sum it stops at. -/
theorem greedy_eq_some_take {asc pick r : List Nat} {sum : Int}
    (h : greedy coins target minOutput cap asc pick sum = some r) (hmin : 0 ≤ minOutput)
    (hpos : ∀ i ∈ asc, 0 < coin coins i) (hpick : pick.length ≤ cap) :
    ∃ k, 0 < k ∧ k ≤ asc.length ∧ pick.length + k ≤ cap ∧ r = pick ++ asc.take k ∧
      Stops target minOutput (sum + ((asc.take k).map (coin coins)).sum) ∧
      ∀ j, 0 < j → j < k →
        ¬ Stops target minOutput (sum + ((asc.take j).map (coin coins)).sum) := by
  induction asc generalizing pick sum with
  | nil => cases h
  | cons i asc ih =>
    obtain ⟨hi, hasc⟩ := List.forall_mem_cons.mp hpos
    rw [greedy, if_neg (by omega)] at h
    split at h
    · cases h
    · rename_i hroom
      dsimp only at h
      by_cases hstop : Stops target minOutput (sum + coin coins i)
      · have hr : r = pick ++ [i] := by
          rw [if_neg (by rcases hstop with h | h <;> omega),
            if_pos (by rcases hstop with h | h <;> omega)] at h
          exact (Option.some.inj h).symm
        refine ⟨1, by omega, by simp, by omega, hr, by simpa using hstop, ?_⟩
        intro j hj hlt
        omega
      · have hrest : greedy coins target minOutput cap asc (pick ++ [i]) (sum + coin coins i) =
            some r := by
          split at h
          · exact h
          · rw [if_neg (fun hstop' ↦ hstop (by unfold Stops; omega))] at h
            exact h
        obtain ⟨k, hk, hkl, hlen, hr, hstops, hfirst⟩ := ih hrest hasc (by
          rw [List.length_append, List.length_singleton]
          omega)
        rw [List.length_append, List.length_singleton] at hlen
        refine ⟨k + 1, by omega, by simpa using hkl, by omega, by simpa using hr, ?_, ?_⟩
        · simpa [add_assoc] using hstops
        · intro j hj hlt
          obtain ⟨j, rfl⟩ : ∃ n, j = n + 1 := ⟨j - 1, by omega⟩
          rcases Nat.eq_zero_or_pos j with rfl | hj
          · simpa using hstop
          · simpa [add_assoc] using hfirst j hj (by omega)

/-- Smallest first gives up where no sum it comes to is one it stops at. -/
theorem greedy_eq_none {asc pick : List Nat} {sum : Int}
    (h : greedy coins target minOutput cap asc pick sum = none) (hmin : 0 ≤ minOutput)
    (hpos : ∀ i ∈ asc, 0 < coin coins i) {j : Nat} (hj : 0 < j) (hjl : j ≤ asc.length)
    (hlen : pick.length + j ≤ cap) :
    ¬ Stops target minOutput (sum + ((asc.take j).map (coin coins)).sum) := by
  induction asc generalizing pick sum j with
  | nil =>
    rw [List.length_nil] at hjl
    omega
  | cons i asc ih =>
    obtain ⟨hi, hasc⟩ := List.forall_mem_cons.mp hpos
    rw [greedy, if_neg (by omega), if_neg (by omega)] at h
    dsimp only at h
    obtain ⟨j, rfl⟩ : ∃ n, j = n + 1 := ⟨j - 1, by omega⟩
    have hstop : ¬ Stops target minOutput (sum + coin coins i) := by
      intro hstop
      rw [if_neg (by rcases hstop with h | h <;> omega),
        if_pos (by rcases hstop with h | h <;> omega)] at h
      cases h
    have hrest : greedy coins target minOutput cap asc (pick ++ [i]) (sum + coin coins i) =
        none := by
      split at h
      · exact h
      · rw [if_neg (fun hstop' ↦ hstop (by unfold Stops; omega))] at h
        exact h
    rcases Nat.eq_zero_or_pos j with rfl | hj
    · simpa using hstop
    · have := ih hrest hasc hj (by simpa using hjl) (by
        rw [List.length_append, List.length_singleton]
        omega)
      simpa [add_assoc] using this

/-! ## The search -/

namespace Walk

variable {w : Walk} {s : State} {k i : Nat} {sum : Int}

/-- Once a sum that answers was visited, none larger is on record. -/
theorem visit_bestSum_le (hgoal : w.goal = .validChange) {next : Int} (hnext : w.hits next = true) :
    (w.visit i next s).found = true ∧ (w.visit i next s).bestSum ≤ next := by
  simp only [visit, hnext, if_true, record]
  split
  · exact ⟨rfl, le_refl _⟩
  · rename_i hb
    cases hf : s.found with
    | false => exact absurd (by simp [better, hf]) hb
    | true =>
      simp only [better, hf, if_true, hgoal] at hb
      simp only [Bool.or_eq_true, decide_eq_true_eq, not_or] at hb
      refine ⟨rfl, ?_⟩
      dsimp only
      omega

/-- A coin that answers is not gone on from. -/
theorem turn_eq_visit {descend : Int → State → State} (hgoal : w.goal = .validChange)
    (hnext : w.hits (sum + w.value i) = true) :
    w.turn descend i sum s = { w.visit i (sum + w.value i) s with
      pick := (w.visit i (sum + w.value i) s).pick.dropLast } := by
  have hgo : w.goesOn (sum + w.value i) = false := by simp [goesOn, hgoal, hnext]
  simp [turn, hgo]

/-- Past the target every further coin answers, and the last of them, the smallest, is not
missed. -/
theorem loop_past (hgoal : w.goal = .validChange)
    (hvalue : ∀ p < w.order.length, w.minOutput ≤ w.value p) (hw : w.Positive)
    (hk : i + k = w.order.length) (hlast : 0 < k) (hsum : w.target < sum)
    (hstop : w.stopped s = false) :
    (w.loop k i sum s).found = true ∧
      (w.loop k i sum s).bestSum ≤ sum + w.value (w.order.length - 1) := by
  induction k generalizing i s with
  | zero => omega
  | succ k ih =>
    have hi := hvalue i (by omega)
    have hhits : w.hits (sum + w.value i) = true := by
      simp only [hits, hgoal, Bool.or_eq_true, decide_eq_true_eq]
      omega
    have hcut : ¬ (w.goal ≠ .below ∧ sum + w.suffix i < w.target) := by
      rintro ⟨-, hlt⟩
      have := sumOf_le_suffix hw hk (List.nil_sublist _)
      rw [sumOf_nil] at this
      omega
    obtain ⟨hfound, hbest⟩ := @visit_bestSum_le w s i hgoal _ hhits
    rw [loop, if_neg (by simp [hstop]), if_neg hcut, turn_eq_visit hgoal hhits]
    rcases Nat.eq_zero_or_pos k with rfl | hk'
    · rw [show w.order.length - 1 = i by omega]
      exact ⟨hfound, hbest⟩
    · generalize hs : ({ w.visit i (sum + w.value i) s with
        pick := (w.visit i (sum + w.value i) s).pick.dropLast } : State) = s'
      have hfound' : s'.found = true := hs ▸ hfound
      have hbudget : s'.budget = s.budget := by
        rw [← hs]
        exact visit_budget _
      cases hstop' : w.stopped s' with
      | false => exact ih (by omega) hk' hstop'
      | true =>
        -- the budget is what it was, so nothing can be improved: the target itself is on record
        have hdone : s'.bestSum = w.target := by
          rw [stopped, Bool.or_eq_true, decide_eq_true_eq] at hstop'
          rw [stopped, Bool.or_eq_false_iff, decide_eq_false_iff_not] at hstop
          exact bestSum_eq_of_done (.inl hgoal) (hstop'.resolve_left (by omega))
        have hloop : w.loop k (i + 1) sum s' = s' := by
          obtain ⟨k, rfl⟩ : ∃ n, k = n + 1 := ⟨k - 1, by omega⟩
          rw [loop, if_pos hstop']
        have := hw (w.order.length - 1) (by omega)
        rw [hloop]
        exact ⟨hfound', by omega⟩

/-- What the search has on record leaves no more change than a coin, if the smallest coin and a
remainder below the floor do not. -/
theorem loop_change_le (hgoal : w.goal = .validChange)
    (hvalue : ∀ p < w.order.length, w.minOutput ≤ w.value p ∧ w.value p ≤ bound) (hw : w.Positive)
    (hlast : w.value (w.order.length - 1) + w.minOutput ≤ bound + 1)
    (hk : i + k = w.order.length) (hsum : sum < w.target)
    (h : s.found = true → s.bestSum ≤ w.target + bound) :
    (w.loop k i sum s).found = true → (w.loop k i sum s).bestSum ≤ w.target + bound := by
  induction k generalizing i sum s with
  | zero => exact h
  | succ k ih =>
    have hi := hvalue i (by omega)
    rw [loop]
    split
    · exact h
    · split
      · exact h
      · refine ih (by omega) hsum ?_
        cases hhits : w.hits (sum + w.value i) with
        | true =>
          rw [turn_eq_visit hgoal hhits]
          have := (@visit_bestSum_le w s i hgoal _ hhits).2
          intro _
          dsimp only
          omega
        | false =>
          have hvisit : w.visit i (sum + w.value i) s = { s with pick := s.pick ++ [i] } := by
            simp [visit, hhits]
          simp only [turn, hvisit]
          split
          · unfold enter
            split
            · exact h
            · rcases lt_or_ge (sum + w.value i) w.target with hlt | hge
              · exact ih (by omega) hlt h
              · -- the coin lands below the floor: whatever comes next is a coin more
                have hband : w.target < sum + w.value i ∧
                    sum + w.value i < w.target + w.minOutput := by
                  simp only [hits, hgoal, Bool.or_eq_false_iff, decide_eq_false_iff_not] at hhits
                  omega
                rcases Nat.eq_zero_or_pos k with rfl | hk'
                · exact h
                · cases hstop : w.stopped ({ s with budget := s.budget - 1, pick := s.pick ++ [i] }) with
                  | true =>
                    obtain ⟨k, rfl⟩ : ∃ n, k = n + 1 := ⟨k - 1, by omega⟩
                    rw [loop, if_pos hstop]
                    exact h
                  | false =>
                    have hk : i + 1 + k = w.order.length := by omega
                    have := (loop_past hgoal (fun p hp ↦ (hvalue p hp).1) hw hk hk' hband.1 hstop).2
                    intro _
                    dsimp only
                    omega
          · exact h

/-- No coin is smaller than the last in the order. -/
theorem Ranked.value_last_le (h : w.Ranked) {c : Int} (hc : c ∈ w.coins) :
    w.value (w.order.length - 1) ≤ c := by
  obtain ⟨j, hj, rfl⟩ := exists_coin_eq hc
  have hmem : j ∈ w.order := by
    rw [h.order_eq]
    exact mem_rankDescending.mpr hj
  obtain ⟨p, hp, rfl⟩ := List.mem_iff_getElem.mp hmem
  have hvalue : coin w.coins w.order[p] = w.value p := by rw [value, List.getD_eq_getElem _ _ hp]
  rw [hvalue]
  exact h.value_le (Nat.le_sub_one_of_lt hp) (by omega)

end Walk

/-! ## The stages -/

/-- Nothing adds up to the target, no coin pays it alone, and the smallest coins are past the target
by less than the floor when the next of them leaves more change than the bound. -/
def Overfull (coins : List Int) (target minOutput : Int) (cap : Nat) (bound : Int) : Prop :=
  (walkOf coins target minOutput cap .exact).run.found = false ∧
    (∀ c ∈ coins, c < target + minOutput) ∧
    ∃ k < cap, target < smallest coins k ∧ smallest coins k < target + minOutput ∧
      target + bound < smallest coins (k + 1)

section Bound

variable (hmin : 0 < minOutput) (hcoins : ∀ c ∈ coins, minOutput ≤ c ∧ c ≤ bound)
include hmin hcoins

/-- Where the smallest coins leave too much change, smallest first takes them. -/
theorem greedy_overfull {k : Nat} (hbound : minOutput ≤ bound) (hk : k < cap)
    (hpast : target < smallest coins k) (hband : smallest coins k < target + minOutput)
    (hover : target + bound < smallest coins (k + 1)) :
    greedy coins target minOutput cap (rankAscending coins) [] 0 =
      some ((rankAscending coins).take (k + 1)) := by
  have hpos : ∀ i ∈ rankAscending coins, 0 < coin coins i := by
    intro i hi
    have := (hcoins _ (coin_mem (List.mem_range.mp (perm_rankAscending.mem_iff.mp hi)))).1
    omega
  have hlength : k < coins.length := by
    by_contra hle
    rw [smallest_succ_of_le (not_lt.mp hle)] at hover
    omega
  have hstops : Stops target minOutput (smallest coins (k + 1)) := .inr (by omega)
  have hnot : ∀ j ≤ k, ¬ Stops target minOutput (smallest coins j) := by
    intro j hj hstop
    rcases Nat.lt_or_eq_of_le hj with hlt | rfl
    · have := smallest_add_le hmin.le (fun c hc ↦ (hcoins c hc).1) hlt hlength.le
      rcases hstop with h | h <;> omega
    · rcases hstop with h | h <;> omega
  cases hgreedy : greedy coins target minOutput cap (rankAscending coins) [] 0 with
  | none =>
    have hno := greedy_eq_none hgreedy hmin.le hpos (Nat.succ_pos k)
      (by rw [length_rankAscending]; omega) (by rw [List.length_nil]; omega)
    rw [zero_add, smallest_eq] at hno
    exact absurd hstops hno
  | some r =>
    obtain ⟨n, hn, -, -, rfl, hstop, hfirst⟩ :=
      greedy_eq_some_take hgreedy hmin.le hpos (Nat.zero_le cap)
    rw [zero_add, smallest_eq] at hstop
    have hle : ¬ n ≤ k := fun hle ↦ hnot n hle hstop
    have hge : ¬ k + 1 < n := by
      intro hlt
      have hno := hfirst (k + 1) (Nat.succ_pos k) hlt
      rw [zero_add, smallest_eq] at hno
      exact hno hstops
    rw [show n = k + 1 by omega, List.nil_append]

/-- Where smallest first finds nothing, what the search finds leaves no more than the bound. -/
theorem search_change_le (htarget : 0 < target) (hbound : minOutput ≤ bound) (hcap : 0 < cap)
    (hroom : target + minOutput ≤ cap * (bound + 1 - minOutput))
    (hgreedy : greedy coins target minOutput cap (rankAscending coins) [] 0 = none)
    (hfound : (walkOf coins target minOutput cap .validChange).run.found = true) :
    (walkOf coins target minOutput cap .validChange).run.bestSum ≤ target + bound := by
  have hpos : ∀ c ∈ coins, 0 < c := fun c hc ↦ hmin.trans_le (hcoins c hc).1
  have hasc : ∀ i ∈ rankAscending coins, 0 < coin coins i := fun i hi ↦
    hpos _ (coin_mem (List.mem_range.mp (perm_rankAscending.mem_iff.mp hi)))
  have hno : ∀ j, 0 < j → j ≤ coins.length → j ≤ cap → smallest coins j < target + minOutput := by
    intro j hj hjl hjc
    have hno := greedy_eq_none hgreedy hmin.le hasc hj (by rwa [length_rankAscending])
      (by rw [List.length_nil]; omega)
    rw [zero_add, smallest_eq] at hno
    by_contra hle
    exact hno (.inr (not_lt.mp hle))
  have hne : 0 < coins.length := by
    obtain ⟨c, hc, hhits⟩ := exists_choice_of_found hpos hcap hfound
    by_contra hzero
    have hnil : coins = [] := List.eq_nil_of_length_eq_zero (by omega)
    subst hnil
    have := c.total_le_largest hpos
    rw [hits_validChange] at hhits
    simp only [largest, List.insertionSort_nil, List.take_nil, List.sum_nil] at this
    omega
  rcases Nat.lt_or_ge cap coins.length with hlt | hge
  · -- too few of the coins may be spent: then the smallest coin is small
    let w := walkOf coins target minOutput cap .validChange
    have hw : w.Ranked := ranked_walkOf hpos .validChange
    have hlast : w.value (w.order.length - 1) + minOutput ≤ bound + 1 := by
      have hmany : cap * w.value (w.order.length - 1) ≤ smallest coins cap := by
        have hlen : ((coins.insertionSort (· ≤ ·)).take cap).length = cap := by
          rw [List.length_take, List.length_insertionSort]
          omega
        have hsum := List.card_nsmul_le_sum ((coins.insertionSort (· ≤ ·)).take cap)
          (w.value (w.order.length - 1)) fun c hc ↦ hw.value_last_le
            ((List.perm_insertionSort (· ≤ ·) coins).mem_iff.mp (List.mem_of_mem_take hc))
        rw [hlen] at hsum
        simpa [smallest] using hsum
      have hcovered := hno cap hcap hlt.le (le_refl _)
      have hlt : (cap : Int) * w.value (w.order.length - 1) < cap * (bound + 1 - minOutput) := by
        omega
      have := Int.lt_of_mul_lt_mul_left hlt (by omega)
      omega
    have hvalue : ∀ p < w.order.length, minOutput ≤ w.value p ∧ w.value p ≤ bound := fun p hp ↦
      hcoins _ (coin_mem (Walk.getD_order_lt rfl hp))
    revert hfound
    rw [Walk.run_eq]
    exact Walk.loop_change_le rfl hvalue hw.positive hlast (Nat.zero_add _) htarget
      (fun hfound ↦ absurd hfound Bool.false_ne_true)
  · -- all the coins together are not enough for a valid change
    have htotal := hno coins.length hne (le_refl _) hge
    rw [smallest_length] at htotal
    obtain ⟨c, hc, -⟩ := exists_choice_of_found hpos hcap hfound
    have := (c.total_le_largest hpos).trans (largest_le_sum hpos cap)
    omega

/-- The change is within the bound of the coins exactly when they are not overfull. -/
theorem change_le_iff {s : Selection} (htarget : 0 < target) (hbound : minOutput ≤ bound) (hcap : 0 < cap)
    (hroom : target + minOutput ≤ cap * (bound + 1 - minOutput))
    (h : selectStages coins (rankDescending coins) target minOutput cap = some s) :
    s.change ≤ bound ↔ ¬ Overfull coins target minOutput cap bound := by
  have hpos : ∀ c ∈ coins, 0 < c := fun c hc ↦ hmin.trans_le (hcoins c hc).1
  rcases selectStages_eq_some h with ⟨hfound, rfl⟩ | ⟨hexact, ⟨i, hi, hcoin, -, rfl⟩ |
    ⟨hnone, ⟨pick, hpick, rfl⟩ | ⟨hgreedy, hfound, rfl⟩⟩⟩
  · have hs := Walk.run_sound hcap hfound
    refine iff_of_true ?_ fun hover ↦ absurd (hfound.symm.trans hover.1) nofun
    simp only [make]
    rw [show ((Walk.result _ _).map (coin coins)).sum = _ from hs.sum_result,
      hits_exact.mp hs.hits]
    omega
  · have hle := (hcoins _ (coin_mem hi)).2
    refine iff_of_true ?_ fun hover ↦ ?_
    · simp only [make, List.map_cons, List.map_nil, List.sum_cons, List.sum_nil]
      omega
    · have := hover.2.1 _ (coin_mem hi)
      omega
  · have hasc : ∀ i ∈ rankAscending coins, 0 < coin coins i := fun i hi ↦
      hpos _ (coin_mem (List.mem_range.mp (perm_rankAscending.mem_iff.mp hi)))
    obtain ⟨k, hk, hkl, hkc, rfl, -, hfirst⟩ :=
      greedy_eq_some_take hpick hmin.le hasc (Nat.zero_le cap)
    rw [length_rankAscending] at hkl
    rw [List.length_nil] at hkc
    have hchange : (make .greedy coins (([] ++ (rankAscending coins).take k).insertionSort (· ≤ ·))
        target 0).change = smallest coins k - target := by
      simp only [make]
      rw [sum_insertionSort, List.nil_append, smallest_eq, sub_zero]
    rw [hchange]
    constructor
    · rintro hle ⟨-, -, n, hn, hpast, hband, hover⟩
      rw [greedy_overfull hmin hcoins hbound hn hpast hband hover] at hpick
      have htake := congrArg (fun l ↦ (l.map (coin coins)).sum) (Option.some.inj hpick)
      simp only [List.nil_append] at htake
      rw [smallest_eq, smallest_eq] at htake
      omega
    · intro hnot
      by_contra hgt
      obtain ⟨j, rfl⟩ : ∃ n, k = n + 1 := ⟨k - 1, by omega⟩
      obtain ⟨c, hc, hsucc⟩ := exists_smallest_succ (show j < coins.length by omega)
      have hle := (hcoins c hc).2
      have hj : 0 < j := by
        by_contra hzero
        obtain rfl : j = 0 := by omega
        rw [smallest_zero] at hsucc
        omega
      have hno := hfirst j hj (by omega)
      rw [zero_add, smallest_eq] at hno
      refine hnot ⟨by simpa using hexact, fun c hc ↦ ?_, j, by omega, by omega, ?_, by omega⟩
      · obtain ⟨i, hi, rfl⟩ := exists_coin_eq hc
        exact hnone i hi
      · by_contra hge
        exact hno (.inr (not_lt.mp hge))
  · have hs := Walk.run_sound hcap hfound
    have hle := search_change_le hmin hcoins htarget hbound hcap hroom hgreedy hfound
    refine iff_of_true ?_ ?_
    · simp only [make]
      rw [show ((Walk.result _ _).map (coin coins)).sum = _ from hs.sum_result]
      omega
    · rintro ⟨-, -, n, hn, hpast, hband, hover⟩
      rw [greedy_overfull hmin hcoins hbound hn hpast hband hover] at hgreedy
      cases hgreedy

end Bound

end Yew.CoinSelect
