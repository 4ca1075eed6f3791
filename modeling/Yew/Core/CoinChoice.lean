import Mathlib.Algebra.BigOperators.Group.Finset.Basic
import Mathlib.Data.List.GetD
import Yew.Core.CoinWalk

/-!
# Choices of coins

What the selector chooses from, without its order: sets of at most so many coins.  The positions of
a walk's pick and the choices of coins are the same thing seen through the walk's order
(`Choice.ofPicks`, `Choice.exists_picks`), and no choice is worth more than the largest coins
(`Choice.total_le_largest`).

Nothing here is of the source, which has indices only.  A choice is a finite set of positions with a
bound on its size, so that sums over it are Mathlib's.
-/

namespace Yew.CoinSelect

/-- A set of at most `cap` coins. -/
structure Choice (coins : List Int) (cap : Nat) where
  indices : Finset Nat
  subset : indices ⊆ Finset.range coins.length
  card_le : indices.card ≤ cap

/-- The value of a choice. -/
def Choice.total {coins : List Int} {cap : Nat} (c : Choice coins cap) : Int :=
  ∑ i ∈ c.indices, coin coins i

/-- The choice pays the target, with no change or with a change that clears the floor. -/
def Choice.Valid {coins : List Int} {cap : Nat} (c : Choice coins cap) (target minOutput : Int) :
    Prop := c.total = target ∨ target + minOutput ≤ c.total

/-- The sum of the `cap` largest coins. -/
def largest (coins : List Int) (cap : Nat) : Int := ((coins.insertionSort (· ≥ ·)).take cap).sum

variable {coins : List Int}

/-! ## The order -/

/-- The order of `rank_descending`. -/
def descends (coins : List Int) (a b : Nat) : Prop :=
  coin coins b < coin coins a ∨ coin coins a = coin coins b ∧ a ≤ b

instance : DecidableRel (descends coins) := fun a b ↦
  inferInstanceAs (Decidable (coin coins b < coin coins a ∨ coin coins a = coin coins b ∧ a ≤ b))

instance : Std.Total (descends coins) where
  total a b := by
    unfold descends
    omega

instance : IsTrans Nat (descends coins) where
  trans a b c := by
    unfold descends
    omega

theorem perm_rankDescending : (rankDescending coins).Perm (List.range coins.length) :=
  List.perm_insertionSort _ _

theorem perm_rankAscending : (rankAscending coins).Perm (List.range coins.length) :=
  List.perm_insertionSort _ _

theorem nodup_rankDescending : (rankDescending coins).Nodup :=
  perm_rankDescending.nodup_iff.mpr List.nodup_range

theorem length_rankDescending : (rankDescending coins).length = coins.length := by
  simpa using (@perm_rankDescending coins).length_eq

theorem mem_rankDescending {i : Nat} : i ∈ rankDescending coins ↔ i < coins.length := by
  rw [perm_rankDescending.mem_iff, List.mem_range]

theorem pairwise_rankDescending :
    (rankDescending coins).Pairwise fun a b ↦ coin coins b ≤ coin coins a := by
  have h : (rankDescending coins).Pairwise (descends coins) :=
    List.pairwise_insertionSort (descends coins) _
  refine h.imp fun {a b} hab ↦ ?_
  unfold descends at hab
  omega

/-- The order of `rank_ascending`. -/
def ascends (coins : List Int) (a b : Nat) : Prop :=
  coin coins a < coin coins b ∨ coin coins a = coin coins b ∧ a ≤ b

instance : DecidableRel (ascends coins) := fun a b ↦
  inferInstanceAs (Decidable (coin coins a < coin coins b ∨ coin coins a = coin coins b ∧ a ≤ b))

instance : Std.Total (ascends coins) where
  total a b := by
    unfold ascends
    omega

instance : IsTrans Nat (ascends coins) where
  trans a b c := by
    unfold ascends
    omega

theorem pairwise_rankAscending :
    (rankAscending coins).Pairwise fun a b ↦ coin coins a ≤ coin coins b := by
  have h : (rankAscending coins).Pairwise (ascends coins) :=
    List.pairwise_insertionSort (ascends coins) _
  refine h.imp fun {a b} hab ↦ ?_
  unfold ascends at hab
  omega

theorem map_coin_range : (List.range coins.length).map (coin coins) = coins := by
  apply List.ext_getElem
  · simp
  · intro n h₁ h₂
    simp [coin, List.getD_eq_getElem?_getD, List.getElem?_eq_getElem h₂]

/-- The values in the order: the coins, the largest first. -/
theorem map_coin_rankDescending :
    (rankDescending coins).map (coin coins) = coins.insertionSort (· ≥ ·) := by
  refine List.Perm.eq_of_pairwise' (r := (· ≥ ·)) ?_ ?_ ?_
  · exact List.pairwise_map.mpr pairwise_rankDescending
  · exact List.pairwise_insertionSort _ _
  · refine ((perm_rankDescending.map _).trans ?_).trans (List.perm_insertionSort _ _).symm
    rw [map_coin_range]

theorem reachable_eq_largest (cap : Nat) :
    reachable coins (rankDescending coins) cap = largest coins cap := by
  rw [reachable, largest, List.map_take, map_coin_rankDescending]

/-! ## Picks and choices -/

namespace Walk

variable {w : Walk}

theorem map_range (w : Walk) :
    (List.range w.order.length).map (fun p ↦ w.order.getD p 0) = w.order := by
  apply List.ext_getElem
  · simp
  · intro n h₁ h₂
    simp [List.getD_eq_getElem?_getD, List.getElem?_eq_getElem h₂]

theorem getD_order_lt (h : w.order = rankDescending w.coins) {p : Nat} (hp : p < w.order.length) :
    w.order.getD p 0 < w.coins.length := by
  rw [List.getD_eq_getElem _ _ hp, ← mem_rankDescending, ← h]
  exact List.getElem_mem hp

/-- The coins at different positions are different. -/
theorem nodup_map_order (h : w.order = rankDescending w.coins) {picks : List Nat}
    (hsub : picks.Sublist (List.range w.order.length)) :
    (picks.map fun p ↦ w.order.getD p 0).Nodup := by
  have hmap := hsub.map fun p ↦ w.order.getD p 0
  rw [map_range] at hmap
  have hnodup : w.order.Nodup := by
    rw [h]
    exact nodup_rankDescending
  exact hnodup.sublist hmap

end Walk

/-- A walk over all the coins, the largest first. -/
structure Walk.Ranked (w : Walk) : Prop where
  order_eq : w.order = rankDescending w.coins
  pos : ∀ c ∈ w.coins, 0 < c

namespace Walk.Ranked

variable {w : Walk}

theorem length_eq (h : w.Ranked) : w.order.length = w.coins.length := by
  rw [h.order_eq, length_rankDescending]

theorem nodup (h : w.Ranked) : w.order.Nodup := by
  rw [h.order_eq]
  exact nodup_rankDescending

theorem coin_pos (h : w.Ranked) {i : Nat} (hi : i < w.coins.length) : 0 < coin w.coins i := by
  refine h.pos _ ?_
  rw [coin, List.getD_eq_getElem _ _ hi]
  exact List.getElem_mem hi

theorem positive (h : w.Ranked) : w.Positive :=
  fun _ hp ↦ h.coin_pos (getD_order_lt h.order_eq hp)

end Walk.Ranked

namespace Choice

variable {w : Walk}

/-- The coins at the positions of a pick. -/
def ofPicks (h : w.Ranked) {picks : List Nat} (hsub : picks.Sublist (List.range w.order.length))
    (hlen : picks.length ≤ w.maxInputs) : Choice w.coins w.maxInputs where
  indices := (picks.map fun p ↦ w.order.getD p 0).toFinset
  subset i hi := by
    obtain ⟨p, hp, rfl⟩ := List.mem_map.mp (List.mem_toFinset.mp hi)
    exact Finset.mem_range.mpr (Walk.getD_order_lt h.order_eq (List.mem_range.mp (hsub.subset hp)))
  card_le := by
    rw [List.toFinset_card_of_nodup (Walk.nodup_map_order h.order_eq hsub)]
    simpa using hlen

theorem total_ofPicks (h : w.Ranked) {picks : List Nat}
    (hsub : picks.Sublist (List.range w.order.length)) (hlen : picks.length ≤ w.maxInputs) :
    (ofPicks h hsub hlen).total = w.sumOf picks := by
  rw [total, ofPicks, List.sum_toFinset _ (Walk.nodup_map_order h.order_eq hsub), List.map_map]
  rfl

/-- Every choice is that of a pick. -/
theorem exists_picks (h : w.Ranked) {cap : Nat} (c : Choice w.coins cap) :
    ∃ picks : List Nat, picks.Sublist (List.range w.order.length) ∧
      picks.length = c.indices.card ∧ w.sumOf picks = c.total := by
  -- the positions of the coins chosen
  let picks := (List.range w.order.length).filter fun p ↦ decide (w.order.getD p 0 ∈ c.indices)
  have hmap : picks.map (fun p ↦ w.order.getD p 0) =
      w.order.filter fun i ↦ decide (i ∈ c.indices) := by
    conv_rhs => rw [← Walk.map_range w, List.filter_map]
    rfl
  have hset : (w.order.filter fun i ↦ decide (i ∈ c.indices)).toFinset = c.indices := by
    ext i
    simp only [List.mem_toFinset, List.mem_filter, decide_eq_true_eq, and_iff_right_iff_imp]
    intro hi
    rw [h.order_eq, mem_rankDescending]
    exact Finset.mem_range.mp (c.subset hi)
  have hnodup : (w.order.filter fun i ↦ decide (i ∈ c.indices)).Nodup := h.nodup.filter _
  refine ⟨picks, List.filter_sublist, ?_, ?_⟩
  · rw [← hset, List.toFinset_card_of_nodup hnodup, ← hmap, List.length_map]
  · rw [total, ← hset, List.sum_toFinset _ hnodup, ← hmap, List.map_map]
    rfl

end Choice

/-! ## The largest coins -/

namespace Walk.Ranked

variable {w : Walk}

theorem value_le (h : w.Ranked) {p q : Nat} (hpq : p ≤ q) (hq : q < w.order.length) :
    w.value q ≤ w.value p := by
  rcases Nat.lt_or_eq_of_le hpq with hlt | rfl
  · have hpair := @pairwise_rankDescending w.coins
    rw [← h.order_eq] at hpair
    have := List.pairwise_iff_getElem.mp hpair p q (by omega) hq hlt
    rwa [value, value, List.getD_eq_getElem _ _ hq, List.getD_eq_getElem _ _ (by omega)]
  · exact le_refl _

theorem sumOf_shift (h : w.Ranked) {i m : Nat} (him : i + 1 + m ≤ w.order.length) :
    w.sumOf (List.range' (i + 1) m) ≤ w.sumOf (List.range' i m) := by
  induction m generalizing i with
  | zero => simp
  | succ m ih =>
    have hhead : w.value (i + 1) ≤ w.value i := h.value_le (Nat.le_succ i) (by omega)
    have htail := ih (i := i + 1) (by omega)
    rw [List.range'_succ, List.range'_succ, sumOf_cons, sumOf_cons]
    omega

/-- A pick is worth no more than as many coins from the first position on. -/
theorem sumOf_le_first (h : w.Ranked) {i k : Nat} (hk : i + k = w.order.length)
    {picks : List Nat} (hsub : picks.Sublist (List.range' i k)) :
    w.sumOf picks ≤ w.sumOf (List.range' i picks.length) := by
  induction k generalizing i picks with
  | zero => simp [List.sublist_nil.mp hsub]
  | succ k ih =>
    have hlen := hsub.length_le
    rw [List.range'_succ] at hsub
    rcases hsub with _ | ⟨_, hsub⟩ | ⟨_, hsub⟩
    · have hle := hsub.length_le
      rw [List.length_range'] at hle
      exact (ih (by omega) hsub).trans (h.sumOf_shift (by omega))
    · have := ih (by omega) hsub
      rw [List.length_cons, List.range'_succ, sumOf_cons, sumOf_cons]
      omega

/-- The first positions hold the largest coins. -/
theorem sumOf_range (h : w.Ranked) (m : Nat) (hm : m ≤ w.order.length) :
    w.sumOf (List.range m) = largest w.coins m := by
  rw [← reachable_eq_largest, reachable, ← h.order_eq, sumOf]
  congr 1
  apply List.ext_getElem
  · simpa using hm
  · intro n h₁ h₂
    simp only [List.length_map, List.length_range] at h₁
    have hn : n < w.order.length := by omega
    simp [value, List.getElem?_eq_getElem hn]

end Walk.Ranked

theorem largest_le_sum (hpos : ∀ c ∈ coins, 0 < c) (cap : Nat) :
    largest coins cap ≤ coins.sum := by
  have hperm := List.perm_insertionSort (· ≥ ·) coins
  calc largest coins cap ≤ (coins.insertionSort (· ≥ ·)).sum :=
        (List.take_sublist _ _).sum_le_sum fun c hc ↦ (hpos c (hperm.mem_iff.mp hc)).le
    _ = coins.sum := hperm.sum_eq

theorem largest_min (cap : Nat) : largest coins (min cap coins.length) = largest coins cap := by
  rcases Nat.le_total cap coins.length with h | h
  · rw [Nat.min_eq_left h]
  · have hlength : (coins.insertionSort (· ≥ ·)).length = coins.length :=
      List.length_insertionSort _ _
    rw [Nat.min_eq_right h, largest, largest, List.take_of_length_le (by omega),
      List.take_of_length_le (by omega)]

theorem largest_mono (hpos : ∀ c ∈ coins, 0 < c) {m n : Nat} (hmn : m ≤ n) :
    largest coins m ≤ largest coins n := by
  have hperm := List.perm_insertionSort (· ≥ ·) coins
  refine (List.take_sublist_take_left hmn).sum_le_sum fun c hc ↦ ?_
  exact (hpos c (hperm.mem_iff.mp (List.mem_of_mem_take hc))).le

/-- No choice is worth more than the largest coins. -/
theorem Choice.total_le_largest (hpos : ∀ c ∈ coins, 0 < c) {cap : Nat} (c : Choice coins cap) :
    c.total ≤ largest coins cap := by
  let w : Walk := ⟨coins, rankDescending coins, 0, 0, cap, .exact⟩
  have hw : w.Ranked := ⟨rfl, hpos⟩
  obtain ⟨picks, hsub, hlen, hsum⟩ := exists_picks hw c
  have hle := hsub.length_le
  rw [List.length_range] at hle
  calc c.total = w.sumOf picks := hsum.symm
    _ ≤ w.sumOf (List.range picks.length) := by
      rw [List.range_eq_range'] at hsub ⊢
      exact hw.sumOf_le_first (by omega) hsub
    _ = largest coins picks.length := hw.sumOf_range _ hle
    _ ≤ largest coins cap := largest_mono hpos (hlen ▸ c.card_le)

end Yew.CoinSelect
