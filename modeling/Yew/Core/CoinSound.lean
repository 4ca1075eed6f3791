import Yew.Core.CoinChoice

/-!
# What the selector answers

Every stage of the selector meets one postcondition (`Answers`).  Outside the band where only dust
is left over it always answers, however soon its searches run out; and for few coins, where they
cannot, its answer is the best there is (`Best`).

The selector is `select_floor_aware` of `core/src/coinselect.rs`.  Completeness for few coins goes
by counting: a walk over seventeen coins visits fewer nodes than its budget of 200,000.
-/

namespace Yew.CoinSelect

variable {coins : List Int} {target minOutput : Int} {cap : Nat}

/-! ## The postcondition -/

/-- An answer: indexes of coins, in order and no more than the cap, that pay the target, the change
and what is burned. -/
structure Answers (coins : List Int) (target minOutput : Int) (cap : Nat) (allowBurn : Bool)
    (s : Selection) : Prop where
  ascending : s.inputs.Pairwise (· < ·)
  bounded : ∀ i ∈ s.inputs, i < coins.length
  length_le : s.inputs.length ≤ cap
  sum_eq : (s.inputs.map (coin coins)).sum = s.selected
  balance : s.selected = target + s.change + s.extraBurn
  change : s.change = 0 ∨ minOutput ≤ s.change
  noBurn : s.stage ≠ .burn → s.extraBurn = 0
  burn : s.stage = .burn →
    allowBurn = true ∧ s.change = 0 ∧ 0 < s.extraBurn ∧ s.extraBurn < minOutput

/-- Things at some indexes are worth what the selector counts. -/
theorem sum_filterMap_getElem? {α : Type} (f : α → Int) {l : List α} {idx : List Nat}
    (h : ∀ i ∈ idx, i < l.length) :
    ((idx.filterMap (l[·]?)).map f).sum = (idx.map (coin (l.map f))).sum := by
  induction idx with
  | nil => rfl
  | cons i idx ih =>
    have hi := h i List.mem_cons_self
    have hcoin : coin (l.map f) i = f l[i] := by
      rw [coin, List.getD_eq_getElem _ _ (by simpa using hi), List.getElem_map]
    rw [List.filterMap_cons, List.getElem?_eq_getElem hi, List.map_cons, List.sum_cons,
      List.map_cons, List.sum_cons, hcoin, ih fun j hj ↦ h j (List.mem_cons_of_mem i hj)]

/-- Things at ascending indexes are in their order, none of them twice. -/
theorem sublist_filterMap_getElem? {α : Type} (l : List α) {idx : List Nat}
    (h : idx.Pairwise (· < ·)) : (idx.filterMap (l[·]?)).Sublist l := by
  suffices hdrop : ∀ k, (∀ i ∈ idx, k ≤ i) → (idx.filterMap (l[·]?)).Sublist (l.drop k) by
    simpa using hdrop 0 fun i _ ↦ Nat.zero_le i
  induction idx with
  | nil => exact fun k _ ↦ List.nil_sublist _
  | cons i idx ih =>
    obtain ⟨hi, hidx⟩ := List.pairwise_cons.mp h
    intro k hk
    have hrest := ih hidx (i + 1) hi
    have hfront : (l.drop i).Sublist (l.drop k) := by
      rw [← Nat.add_sub_cancel' (hk i List.mem_cons_self), ← List.drop_drop]
      exact List.drop_sublist _ _
    rw [List.filterMap_cons]
    by_cases hlt : i < l.length
    · rw [List.getElem?_eq_getElem hlt]
      refine List.Sublist.trans ?_ hfront
      rw [List.drop_eq_getElem_cons hlt]
      exact hrest.cons_cons _
    · rw [List.getElem?_eq_none (not_lt.mp hlt)]
      exact hrest.trans ((List.drop_sublist_drop_left _ (Nat.le_succ i)).trans hfront)

/-- Indexes that may be spent together. -/
structure Spendable (coins : List Int) (cap : Nat) (idx : List Nat) : Prop where
  ascending : idx.Pairwise (· < ·)
  bounded : ∀ i ∈ idx, i < coins.length
  length_le : idx.length ≤ cap

/-- Different indexes, sorted. -/
theorem Spendable.insertionSort {idx : List Nat} (hnodup : idx.Nodup)
    (hbounded : ∀ i ∈ idx, i < coins.length) (hlen : idx.length ≤ cap) :
    Spendable coins cap (idx.insertionSort (· ≤ ·)) where
  ascending := by
    have hle : (idx.insertionSort (· ≤ ·)).Pairwise (· ≤ ·) := List.pairwise_insertionSort _ _
    have hne : (idx.insertionSort (· ≤ ·)).Nodup :=
      (List.perm_insertionSort _ _).nodup_iff.mpr hnodup
    refine (hle.and hne).imp fun {a b} h ↦ ?_
    omega
  bounded i hi := hbounded i ((List.perm_insertionSort _ _).mem_iff.mp hi)
  length_le := by simpa using hlen

theorem sum_insertionSort (idx : List Nat) :
    ((idx.insertionSort (· ≤ ·)).map (coin coins)).sum = (idx.map (coin coins)).sum :=
  ((List.perm_insertionSort _ _).map _).sum_eq

/-- A stage that burns nothing. -/
theorem answers_make {stage : SelectStage} {idx : List Nat} {allowBurn : Bool}
    (h : Spendable coins cap idx) (hstage : stage ≠ .burn)
    (hsum : (idx.map (coin coins)).sum = target ∨
      target + minOutput ≤ (idx.map (coin coins)).sum) :
    Answers coins target minOutput cap allowBurn (make stage coins idx target 0) where
  ascending := h.ascending
  bounded := h.bounded
  length_le := h.length_le
  sum_eq := rfl
  balance := by
    simp only [make]
    omega
  change := by
    simp only [make]
    omega
  noBurn _ := rfl
  burn hburn := absurd hburn hstage

/-- The stage that burns. -/
theorem answers_make_burn {idx : List Nat} {extra : Int} (h : Spendable coins cap idx)
    (hsum : (idx.map (coin coins)).sum = target + extra) (hpos : 0 < extra)
    (hlt : extra < minOutput) :
    Answers coins target minOutput cap true (make .burn coins idx target extra) where
  ascending := h.ascending
  bounded := h.bounded
  length_le := h.length_le
  sum_eq := rfl
  balance := by
    simp only [make]
    omega
  change := by
    simp only [make]
    omega
  noBurn hburn := absurd rfl hburn
  burn _ := ⟨rfl, by simp only [make]; omega, hpos, hlt⟩

/-! ## The stages -/

/-- What a walk found, as indexes. -/
theorem Walk.Sound.spendable {w : Walk} {s : State} (hs : Sound w s)
    (h : w.order = rankDescending w.coins) : Spendable w.coins w.maxInputs (w.result s) := by
  refine Spendable.insertionSort (nodup_map_order h hs.sublist) (fun i hi ↦ ?_) ?_
  · obtain ⟨p, hp, rfl⟩ := List.mem_map.mp hi
    exact getD_order_lt h (List.mem_range.mp (hs.sublist.subset hp))
  · simpa using hs.length_le

theorem Walk.Sound.sum_result {w : Walk} {s : State} (hs : Sound w s) :
    ((w.result s).map (coin w.coins)).sum = s.bestSum := by
  rw [Walk.result, sum_insertionSort, List.map_map]
  exact hs.sum_eq

theorem Walk.length_result (w : Walk) (s : State) : (w.result s).length = s.bestPick.length := by
  simp [Walk.result]

/-- What the smallest coins first come to. -/
theorem greedy_eq_some {asc pick r : List Nat} {sum : Int}
    (h : greedy coins target minOutput cap asc pick sum = some r)
    (hsum : (pick.map (coin coins)).sum = sum) (hlen : pick.length ≤ cap) :
    ∃ more, more.Sublist asc ∧ r = pick ++ more ∧ r.length ≤ cap ∧
      ((r.map (coin coins)).sum = target ∨ target + minOutput ≤ (r.map (coin coins)).sum) := by
  induction asc generalizing pick sum with
  | nil => cases h
  | cons i asc ih =>
    rw [greedy] at h
    split at h
    · obtain ⟨more, hsub, hr⟩ := ih h hsum hlen
      exact ⟨more, hsub.cons i, hr⟩
    · split at h
      · cases h
      · rename_i hpick
        have hsum' : ((pick ++ [i]).map (coin coins)).sum = sum + coin coins i := by
          simp [hsum]
        have hlen' : (pick ++ [i]).length ≤ cap := by
          simp
          omega
        have hmore (h : greedy coins target minOutput cap asc (pick ++ [i])
            (sum + coin coins i) = some r) :
            ∃ more, more.Sublist (i :: asc) ∧ r = pick ++ more ∧ r.length ≤ cap ∧
              ((r.map (coin coins)).sum = target ∨
                target + minOutput ≤ (r.map (coin coins)).sum) := by
          obtain ⟨more, hsub, hr, hrest⟩ := ih h hsum' hlen'
          exact ⟨i :: more, hsub.cons_cons i, by rw [hr]; simp, hrest⟩
        dsimp only at h
        split at h
        · exact hmore h
        · split at h
          · rename_i hchange
            cases h
            refine ⟨[i], (List.nil_sublist asc).cons_cons i, rfl, hlen', ?_⟩
            rw [hsum']
            omega
          · exact hmore h

/-- The walk of a selection. -/
abbrev walkOf (coins : List Int) (target minOutput : Int) (cap : Nat) (goal : Goal) : Walk :=
  ⟨coins, rankDescending coins, target, minOutput, cap, goal⟩

theorem ranked_walkOf (hpos : ∀ c ∈ coins, 0 < c) (goal : Goal) :
    (walkOf coins target minOutput cap goal).Ranked := ⟨rfl, hpos⟩

theorem hits_exact {x : Int} :
    (walkOf coins target minOutput cap .exact).hits x = true ↔ x = target := decide_eq_true_iff

theorem hits_validChange {x : Int} :
    (walkOf coins target minOutput cap .validChange).hits x = true ↔
      x = target ∨ target + minOutput ≤ x := by
  rw [Walk.hits]
  exact (Bool.or_eq_true _ _).to_iff.trans (or_congr decide_eq_true_iff decide_eq_true_iff)

theorem hits_overshoot {x : Int} :
    (walkOf coins target minOutput cap .overshoot).hits x = true ↔ target ≤ x :=
  decide_eq_true_iff

/-- The first coin found in ascending order is the least. -/
theorem le_of_find?_rankAscending {p : Nat → Bool} {i j : Nat}
    (hi : (rankAscending coins).find? p = some i) (hj : j < coins.length) (hp : p j = true) :
    coin coins i ≤ coin coins j := by
  have hmem : j ∈ rankAscending coins := perm_rankAscending.mem_iff.mpr (List.mem_range.mpr hj)
  have hsorted := @pairwise_rankAscending coins
  obtain ⟨-, before, after, heq, hbefore⟩ := List.find?_eq_some_iff_append.mp hi
  rw [heq] at hmem hsorted
  rcases List.mem_append.mp hmem with hmem | hmem
  · have := hbefore j hmem
    simp [hp] at this
  · rcases List.mem_cons.mp hmem with rfl | hmem
    · exact le_refl _
    · exact List.rel_of_pairwise_cons (List.pairwise_append.mp hsorted).2.1 hmem

/-- The stages that burn nothing, one by one. -/
theorem selectStages_eq_some {s : Selection}
    (h : selectStages coins (rankDescending coins) target minOutput cap = some s) :
    ((walkOf coins target minOutput cap .exact).run.found ∧
        s = make .exact coins ((walkOf coins target minOutput cap .exact).result
          (walkOf coins target minOutput cap .exact).run) target 0) ∨
      ¬ (walkOf coins target minOutput cap .exact).run.found ∧
        ((∃ i, i < coins.length ∧ target + minOutput ≤ coin coins i ∧
            (∀ j < coins.length, target + minOutput ≤ coin coins j → coin coins i ≤ coin coins j) ∧
            s = make .single coins [i] target 0) ∨
          (∀ j < coins.length, coin coins j < target + minOutput) ∧
            ((∃ pick, greedy coins target minOutput cap (rankAscending coins) [] 0 = some pick ∧
                s = make .greedy coins (pick.insertionSort (· ≤ ·)) target 0) ∨
              greedy coins target minOutput cap (rankAscending coins) [] 0 = none ∧
                (walkOf coins target minOutput cap .validChange).run.found ∧
                s = make .search coins ((walkOf coins target minOutput cap .validChange).result
                  (walkOf coins target minOutput cap .validChange).run) target 0)) := by
  unfold selectStages at h
  dsimp only at h
  split at h
  · rename_i hfound
    exact .inl ⟨hfound, (Option.some.inj h).symm⟩
  · rename_i hexact
    refine .inr ⟨hexact, ?_⟩
    split at h
    · rename_i i hi
      have hmem := perm_rankAscending.mem_iff.mp (List.mem_of_find?_eq_some hi)
      refine .inl ⟨i, List.mem_range.mp hmem, by simpa using List.find?_some hi, fun j hj hcoin ↦ ?_,
        (Option.some.inj h).symm⟩
      exact le_of_find?_rankAscending hi hj (by simpa using hcoin)
    · rename_i hnone
      refine .inr ⟨fun j hj ↦ ?_, ?_⟩
      · have hmem := perm_rankAscending.mem_iff.mpr (List.mem_range.mpr hj)
        simpa using List.find?_eq_none.mp hnone j hmem
      · split at h
        · rename_i pick hpick
          exact .inl ⟨pick, hpick, (Option.some.inj h).symm⟩
        · rename_i hgreedy
          split at h
          · rename_i hfound
            exact .inr ⟨hgreedy, hfound, (Option.some.inj h).symm⟩
          · cases h

theorem selectStages_eq_none
    (h : selectStages coins (rankDescending coins) target minOutput cap = none) :
    ¬ (walkOf coins target minOutput cap .exact).run.found ∧
      ¬ (walkOf coins target minOutput cap .validChange).run.found := by
  unfold selectStages at h
  dsimp only at h
  split at h
  · cases h
  · rename_i hexact
    refine ⟨hexact, fun hfound ↦ ?_⟩
    split at h
    · cases h
    · split at h
      · cases h
      · split at h
        · cases h
        · rename_i hsearch
          exact hsearch hfound

/-- The four stages that burn nothing answer. -/
theorem answers_selectStages (hcap : 0 < cap) {allowBurn : Bool} {s : Selection}
    (h : selectStages coins (rankDescending coins) target minOutput cap = some s) :
    s.ok = true ∧ s.stage ≠ .burn ∧ Answers coins target minOutput cap allowBurn s := by
  rcases selectStages_eq_some h with ⟨hfound, rfl⟩ | ⟨-, ⟨i, hi, hcoin, -, rfl⟩ |
    ⟨-, ⟨pick, hpick, rfl⟩ | ⟨-, hfound, rfl⟩⟩⟩
  · have hs := Walk.run_sound hcap hfound
    refine ⟨rfl, nofun, answers_make (hs.spendable rfl) nofun (.inl ?_)⟩
    exact hs.sum_result.trans (hits_exact.mp hs.hits)
  · refine ⟨rfl, nofun, answers_make ⟨List.pairwise_singleton _ _, ?_, hcap⟩ nofun (.inr ?_)⟩
    · simpa using hi
    · simpa using hcoin
  · obtain ⟨more, hsub, hr, hlen, hsum⟩ := greedy_eq_some hpick rfl (Nat.zero_le cap)
    rw [List.nil_append] at hr
    subst hr
    have hnodup := (perm_rankAscending.nodup_iff.mpr List.nodup_range).sublist hsub
    refine ⟨rfl, nofun, answers_make (Spendable.insertionSort hnodup (fun i hi ↦ ?_) hlen) nofun ?_⟩
    · exact List.mem_range.mp (perm_rankAscending.mem_iff.mp (hsub.subset hi))
    · rwa [sum_insertionSort]
  · have hs := Walk.run_sound hcap hfound
    refine ⟨rfl, nofun, answers_make (hs.spendable rfl) nofun ?_⟩
    rw [show ((Walk.result _ _).map (coin coins)).sum = _ from hs.sum_result]
    exact hits_validChange.mp hs.hits

/-- What the stage that burns found. -/
theorem selectBurn_eq_some {s : Selection}
    (h : selectBurn coins (rankDescending coins) target minOutput cap = some s) :
    (walkOf coins target minOutput cap .overshoot).run.found ∧
      ∃ extra, extra = (walkOf coins target minOutput cap .overshoot).run.bestSum - target ∧
        0 < extra ∧ extra < minOutput ∧
        s = make .burn coins ((walkOf coins target minOutput cap .overshoot).result
          (walkOf coins target minOutput cap .overshoot).run) target extra := by
  unfold selectBurn at h
  dsimp only at h
  split at h
  · rename_i hburn
    exact ⟨hburn.1, _, rfl, hburn.2.1, hburn.2.2, (Option.some.inj h).symm⟩
  · cases h

/-- The stage that burns answers. -/
theorem answers_selectBurn (hcap : 0 < cap) {s : Selection}
    (h : selectBurn coins (rankDescending coins) target minOutput cap = some s) :
    s.ok = true ∧ s.stage = .burn ∧ Answers coins target minOutput cap true s := by
  obtain ⟨hfound, extra, hextra, hburn, hlt, rfl⟩ := selectBurn_eq_some h
  have hs := Walk.run_sound hcap hfound
  refine ⟨rfl, rfl, answers_make_burn (hs.spendable rfl) ?_ hburn hlt⟩
  rw [show ((Walk.result _ _).map (coin coins)).sum = _ from hs.sum_result]
  omega

/-! ## The selector -/

theorem largest_zero : largest coins 0 = 0 := rfl

/-- What the selector does, case by case, for a target to be paid. -/
theorem selectFloorAware_cases (hpos : ∀ c ∈ coins, 0 < c) (htarget : 0 < target)
    (allowBurn : Bool) :
    (coins.sum < target ∧
        selectFloorAware coins target minOutput cap allowBurn = { insufficient := true }) ∨
      (target ≤ coins.sum ∧ largest coins cap < target ∧
        selectFloorAware coins target minOutput cap allowBurn = { tooManyInputs := true }) ∨
      target ≤ coins.sum ∧ target ≤ largest coins cap ∧
        ((∃ s, selectStages coins (rankDescending coins) target minOutput cap = some s ∧
            selectFloorAware coins target minOutput cap allowBurn = s) ∨
          selectStages coins (rankDescending coins) target minOutput cap = none ∧
            ((allowBurn = true ∧
                ∃ s, selectBurn coins (rankDescending coins) target minOutput cap = some s ∧
                  selectFloorAware coins target minOutput cap allowBurn = s) ∨
              selectFloorAware coins target minOutput cap allowBurn = {})) := by
  have hfilter : coins.filter (0 < ·) = coins :=
    List.filter_eq_self.mpr fun c hc ↦ decide_eq_true (hpos c hc)
  unfold selectFloorAware
  rw [if_neg (by omega), if_neg (by omega), hfilter]
  split
  · exact .inl ⟨‹_›, rfl⟩
  · rename_i htotal
    dsimp only
    rw [reachable_eq_largest]
    split
    · exact .inr (.inl ⟨by omega, ‹_›, rfl⟩)
    · rename_i hreach
      refine .inr (.inr ⟨by omega, by omega, ?_⟩)
      split
      · rename_i s hs
        exact .inl ⟨s, hs, rfl⟩
      · rename_i hs
        refine .inr ⟨hs, ?_⟩
        split
        · rename_i hallow
          cases hburn : selectBurn coins (rankDescending coins) target minOutput cap with
          | none => exact .inr rfl
          | some s => exact .inl ⟨hallow, s, rfl, rfl⟩
        · exact .inr rfl

theorem cap_pos_of_le_largest (htarget : 0 < target) (h : target ≤ largest coins cap) :
    0 < cap := by
  rcases Nat.eq_zero_or_pos cap with rfl | hcap
  · rw [largest_zero] at h
    omega
  · exact hcap

/-- An answer pays the target within the rules, and a refusal says why. -/
theorem selectFloorAware_sound (coins : List Int) (target minOutput : Int) (cap : Nat)
    (allowBurn : Bool) (hpos : ∀ c ∈ coins, 0 < c) (htarget : 0 < target) :
    ((selectFloorAware coins target minOutput cap allowBurn).ok = true →
      Answers coins target minOutput cap allowBurn
        (selectFloorAware coins target minOutput cap allowBurn)) ∧
    ((selectFloorAware coins target minOutput cap allowBurn).ok = false →
      ((selectFloorAware coins target minOutput cap allowBurn).insufficient = true ↔
        coins.sum < target) ∧
      ((selectFloorAware coins target minOutput cap allowBurn).tooManyInputs = true ↔
        target ≤ coins.sum ∧ largest coins cap < target)) := by
  rcases (@selectFloorAware_cases _ _ minOutput cap) hpos htarget allowBurn with
    ⟨htotal, h⟩ | ⟨htotal, hreach, h⟩ | ⟨htotal, hreach, ⟨s, hs, h⟩ | ⟨-, ⟨hallow, s, hs, h⟩ | h⟩⟩
  · rw [h]
    refine ⟨nofun, fun _ ↦ ⟨by simp [htotal], ?_⟩⟩
    simp
    omega
  · rw [h]
    refine ⟨nofun, fun _ ↦ ⟨?_, by simp [htotal, hreach]⟩⟩
    simp
    omega
  · obtain ⟨hok, -, hanswers⟩ :=
      answers_selectStages (cap_pos_of_le_largest htarget hreach) hs
    rw [h]
    exact ⟨fun _ ↦ hanswers, fun hno ↦ absurd (hok.symm.trans hno) nofun⟩
  · obtain ⟨hok, -, hanswers⟩ :=
      answers_selectBurn (cap_pos_of_le_largest htarget hreach) hs
    rw [h, hallow]
    exact ⟨fun _ ↦ hanswers, fun hno ↦ absurd (hok.symm.trans hno) nofun⟩
  · rw [h]
    refine ⟨nofun, fun _ ↦ ⟨?_, ?_⟩⟩
    · simp
      omega
    · simp
      omega

/-- A coin of a dollar lifts the change of a hundred out of the forbidden band. -/
theorem selectFloorAware_sound_band :
    (selectFloorAware [100, 10000] 9950 100 250 false).ok = true ∧
      Answers [100, 10000] 9950 100 250 false
        (selectFloorAware [100, 10000] 9950 100 250 false) := by
  have hok : (selectFloorAware [100, 10000] 9950 100 250 false).ok = true := by decide +kernel
  exact ⟨hok, (selectFloorAware_sound [100, 10000] 9950 100 250 false (by decide) (by decide)).1 hok⟩

/-- With the largest coins worth the target and the floor, the selector answers: if nothing else
does, the first descent of the last search finds a valid change. -/
theorem selectFloorAware_complete (coins : List Int) (target minOutput : Int) (cap : Nat)
    (allowBurn : Bool) (hpos : ∀ c ∈ coins, 0 < c) (htarget : 0 < target) (hmin : 0 ≤ minOutput)
    (hcap : 1 ≤ cap) (hcap' : cap ≤ 250) (hlargest : target + minOutput ≤ largest coins cap) :
    (selectFloorAware coins target minOutput cap allowBurn).ok = true := by
  have htotal := largest_le_sum hpos cap
  rcases (@selectFloorAware_cases _ _ minOutput cap) hpos htarget allowBurn with
    ⟨hlt, h⟩ | ⟨-, hlt, h⟩ | ⟨-, -, ⟨s, hs, h⟩ | ⟨hnone, -⟩⟩
  · omega
  · omega
  · rw [h]
    exact (@answers_selectStages _ _ _ _ hcap allowBurn _ hs).1
  · have hw : (walkOf coins target minOutput cap .validChange).Ranked := ranked_walkOf hpos _
    have hlength : (walkOf coins target minOutput cap .validChange).order.length = coins.length :=
      hw.length_eq
    have hsum : target + minOutput ≤ largest coins (min cap coins.length) := by
      rwa [largest_min]
    have hm : 0 < min cap coins.length := by
      rcases Nat.eq_zero_or_pos (min cap coins.length) with hzero | hm
      · rw [hzero, largest_zero] at hsum
        omega
      · exact hm
    have hbudget : (↑(min cap coins.length) : Int) < selectSearchBudget := by
      rw [selectSearchBudget]
      omega
    have hfirst : target + minOutput ≤ (walkOf coins target minOutput cap .validChange).sumOf
        (List.range (min cap coins.length)) := by
      rw [hw.sumOf_range _ (by omega)]
      exact hsum
    have hfound := Walk.run_found hw.positive hmin rfl hm (by omega) (Nat.min_le_left _ _) hbudget
      hfirst
    exact absurd hfound (selectStages_eq_none hnone).2

theorem selectFloorAware_complete_band :
    (selectFloorAware [100, 10000] 9950 100 250 false).ok = true :=
  selectFloorAware_complete [100, 10000] 9950 100 250 false (by decide) (by decide) (by decide)
    (by decide) (by decide) (by decide +kernel)

/-! ## Few coins -/

/-- The choice an answer makes. -/
theorem Answers.exists_choice {allowBurn : Bool} {s : Selection}
    (h : Answers coins target minOutput cap allowBurn s) :
    ∃ c : Choice coins cap, c.total = s.selected ∧ c.indices.card = s.inputs.length := by
  have hnodup : s.inputs.Nodup := h.ascending.imp Nat.ne_of_lt
  have hcard := List.toFinset_card_of_nodup hnodup
  refine ⟨⟨s.inputs.toFinset, fun i hi ↦ ?_, hcard ▸ h.length_le⟩, ?_, hcard⟩
  · exact Finset.mem_range.mpr (h.bounded i (List.mem_toFinset.mp hi))
  · rw [Choice.total, List.sum_toFinset _ hnodup, h.sum_eq]

section Few

variable {goal : Goal}

/-- The choice a walk found. -/
theorem exists_choice_of_found (hpos : ∀ c ∈ coins, 0 < c) (hcap : 0 < cap)
    (h : (walkOf coins target minOutput cap goal).run.found) :
    ∃ c : Choice coins cap, c.total = (walkOf coins target minOutput cap goal).run.bestSum ∧
      (walkOf coins target minOutput cap goal).hits c.total = true := by
  have hs := Walk.run_sound hcap h
  have htotal : (Choice.ofPicks (ranked_walkOf hpos goal) hs.sublist hs.length_le).total =
      (walkOf coins target minOutput cap goal).run.bestSum := by
    rw [Choice.total_ofPicks]
    exact hs.sum_eq
  refine ⟨Choice.ofPicks (ranked_walkOf hpos goal) hs.sublist hs.length_le, htotal, ?_⟩
  rw [htotal]
  exact hs.hits

/-- Of few coins a walk settles every choice of some coin that answers its goal. -/
theorem settled_of_pos (hpos : ∀ c ∈ coins, 0 < c) (hmin : goal = .validChange → 0 ≤ minOutput)
    (hfew : coins.length ≤ 17) {c : Choice coins cap} (hc : 0 < c.total)
    (hhits : (walkOf coins target minOutput cap goal).hits c.total = true) :
    Walk.Settled (walkOf coins target minOutput cap goal) c.total c.indices.card
      (walkOf coins target minOutput cap goal).run := by
  have hw : (walkOf coins target minOutput cap goal).Ranked := ranked_walkOf hpos goal
  obtain ⟨picks, hsub, hlen, hsum⟩ := Choice.exists_picks hw c
  have hne : picks ≠ [] := by
    rintro rfl
    rw [Walk.sumOf_nil] at hsum
    omega
  rw [← hsum, ← hlen]
  refine Walk.run_settles hw.positive hmin (hw.length_eq.trans_le hfew) hsub hne ?_ ?_
  · exact hlen ▸ c.card_le
  · rw [hsum]
    exact hhits

theorem settled_of_hits (hpos : ∀ c ∈ coins, 0 < c) (htarget : 0 < target) (hmin : 0 ≤ minOutput)
    (hfew : coins.length ≤ 17) (hbelow : goal ≠ .below) (c : Choice coins cap)
    (hhits : (walkOf coins target minOutput cap goal).hits c.total = true) :
    Walk.Settled (walkOf coins target minOutput cap goal) c.total c.indices.card
      (walkOf coins target minOutput cap goal).run := by
  have hreach : target ≤ c.total := Walk.target_le_of_hits (fun _ ↦ hmin) hbelow hhits
  exact settled_of_pos hpos (fun _ ↦ hmin) hfew (htarget.trans_le hreach) hhits

theorem found_of_settled {w : Walk} {s : State} {x : Int} {n : Nat} (h : Walk.Settled w x n s) :
    s.found = true := by
  rcases h with h | h
  · by_contra hf
    simp [Walk.better, hf] at h
  · rw [Walk.done, Bool.and_eq_true] at h
    exact h.1

theorem exact_found_iff (hpos : ∀ c ∈ coins, 0 < c) (htarget : 0 < target) (hmin : 0 ≤ minOutput)
    (hfew : coins.length ≤ 17) (hcap : 0 < cap) :
    (walkOf coins target minOutput cap .exact).run.found ↔
      ∃ c : Choice coins cap, c.total = target := by
  constructor
  · intro h
    obtain ⟨c, -, hc⟩ := exists_choice_of_found hpos hcap h
    exact ⟨c, hits_exact.mp hc⟩
  · rintro ⟨c, hc⟩
    exact found_of_settled ((@settled_of_hits _ _ _ _ .exact) hpos htarget hmin hfew nofun c
      (hits_exact.mpr hc))

theorem search_found_iff (hpos : ∀ c ∈ coins, 0 < c) (htarget : 0 < target) (hmin : 0 ≤ minOutput)
    (hfew : coins.length ≤ 17) (hcap : 0 < cap) :
    (walkOf coins target minOutput cap .validChange).run.found ↔
      ∃ c : Choice coins cap, c.Valid target minOutput := by
  constructor
  · intro h
    obtain ⟨c, -, hc⟩ := exists_choice_of_found hpos hcap h
    exact ⟨c, hits_validChange.mp hc⟩
  · rintro ⟨c, hc⟩
    exact found_of_settled ((@settled_of_hits _ _ _ _ .validChange) hpos htarget hmin hfew nofun c
      (hits_validChange.mpr hc))

/-- No exact choice has fewer coins than the one recorded. -/
theorem exact_fewest (hpos : ∀ c ∈ coins, 0 < c) (htarget : 0 < target) (hmin : 0 ≤ minOutput)
    (hfew : coins.length ≤ 17) (c : Choice coins cap) (hc : c.total = target) :
    (walkOf coins target minOutput cap .exact).run.bestPick.length ≤ c.indices.card := by
  have hsettled := (@settled_of_hits _ _ minOutput _ .exact) hpos htarget hmin hfew
    nofun c (hits_exact.mpr hc)
  have hfound := found_of_settled hsettled
  have hcard : 0 < c.indices.card := by
    rw [Finset.card_pos, Finset.nonempty_iff_ne_empty]
    intro hempty
    rw [Choice.total, hempty, Finset.sum_empty] at hc
    omega
  rcases hsettled with h | h
  · simp only [Walk.better, hfound, if_true] at h
    exact not_lt.mp (of_decide_eq_false h)
  · simp only [Walk.done, walkOf] at h hfound ⊢
    simp [hfound] at h
    omega

theorem bestSum_le_of_not_better {w : Walk} {s : State} {x : Int} {n : Nat}
    (hgoal : w.goal = .validChange ∨ w.goal = .overshoot) (h : w.better s x n = false) :
    s.bestSum < x ∨ s.bestSum = x ∧ s.bestPick.length ≤ n := by
  cases hf : s.found with
  | false => simp [Walk.better, hf] at h
  | true =>
    rcases hgoal with hg | hg
    all_goals
      simp [Walk.better, hf, hg] at h
      omega

theorem bestSum_eq_of_done {w : Walk} {s : State}
    (hgoal : w.goal = .validChange ∨ w.goal = .overshoot) (h : w.done s = true) :
    s.bestSum = w.target := by
  simp only [Walk.done, Bool.and_eq_true, Bool.or_eq_true, decide_eq_true_eq] at h
  rcases h.2 with h | h
  · rcases hgoal with hg | hg
    all_goals
      rw [hg] at h
      cases h.1
  · exact h.2

/-- Where no choice is exact, a walk for a small sum has recorded the smallest, with the fewest
coins. -/
theorem smallest_of_settled (hpos : ∀ c ∈ coins, 0 < c) (hcap : 0 < cap)
    (hgoal : goal = .validChange ∨ goal = .overshoot)
    (hno : ¬ ∃ c : Choice coins cap, c.total = target) {x : Int} {n : Nat}
    (h : Walk.Settled (walkOf coins target minOutput cap goal) x n
      (walkOf coins target minOutput cap goal).run) :
    (walkOf coins target minOutput cap goal).run.bestSum < x ∨
      (walkOf coins target minOutput cap goal).run.bestSum = x ∧
        (walkOf coins target minOutput cap goal).run.bestPick.length ≤ n := by
  obtain ⟨c, hc, -⟩ := exists_choice_of_found hpos hcap (found_of_settled h)
  rcases h with h | h
  · exact bestSum_le_of_not_better hgoal h
  · exact absurd ⟨c, hc.trans (bestSum_eq_of_done hgoal h)⟩ hno

/-- The answer is the best there is. -/
structure Best (coins : List Int) (target minOutput : Int) (cap : Nat) (s : Selection) : Prop where
  refuses : s.ok = false ∨ s.stage = .burn ↔
    ¬ ∃ c : Choice coins cap, c.Valid target minOutput
  exact : s.stage = .exact ↔ ∃ c : Choice coins cap, c.total = target
  fewest : s.stage = .exact → ∀ c : Choice coins cap, c.total = target →
    s.inputs.length ≤ c.indices.card
  search : s.stage = .search → ∀ c : Choice coins cap, c.Valid target minOutput →
    s.change < c.total - target ∨
      s.change = c.total - target ∧ s.inputs.length ≤ c.indices.card
  burn : s.stage = .burn → (¬ ∃ c : Choice coins cap, c.Valid target minOutput) ∧
    ∀ c : Choice coins cap, target ≤ c.total → s.extraBurn ≤ c.total - target

/-- A refusal for want of coins: no choice reaches the target. -/
theorem best_of_unreachable (hpos : ∀ c ∈ coins, 0 < c) (hmin : 0 ≤ minOutput)
    (hlargest : largest coins cap < target) {s : Selection} (hok : s.ok = false)
    (hstage : s.stage = .none) : Best coins target minOutput cap s := by
  have hlt (c : Choice coins cap) : c.total < target :=
    (c.total_le_largest hpos).trans_lt hlargest
  refine ⟨?_, ?_, ?_, ?_, ?_⟩
  · refine ⟨fun _ ↦ ?_, fun _ ↦ .inl hok⟩
    rintro ⟨c, hc⟩
    have := hlt c
    unfold Choice.Valid at hc
    omega
  · rw [hstage]
    refine ⟨nofun, ?_⟩
    rintro ⟨c, hc⟩
    exact absurd hc (hlt c).ne
  all_goals
    rw [hstage]
    nofun

/-- An answer that burns nothing is a valid choice. -/
theorem Answers.exists_valid {allowBurn : Bool} {s : Selection}
    (h : Answers coins target minOutput cap allowBurn s) (hstage : s.stage ≠ .burn) :
    ∃ c : Choice coins cap, c.Valid target minOutput := by
  obtain ⟨c, hc, -⟩ := h.exists_choice
  refine ⟨c, ?_⟩
  have hbalance := h.balance
  have hburn := h.noBurn hstage
  have hchange := h.change
  unfold Choice.Valid
  omega

/-- The stages that burn nothing give the best there is. -/
theorem best_of_stages (hpos : ∀ c ∈ coins, 0 < c) (htarget : 0 < target) (hmin : 0 ≤ minOutput)
    (hfew : coins.length ≤ 17) (hcap : 0 < cap) {s : Selection}
    (h : selectStages coins (rankDescending coins) target minOutput cap = some s) :
    Best coins target minOutput cap s := by
  obtain ⟨hok, hstage, hanswers⟩ := @answers_selectStages _ _ _ _ hcap false _ h
  have hrefuses : s.ok = false ∨ s.stage = .burn ↔
      ¬ ∃ c : Choice coins cap, c.Valid target minOutput := by
    refine iff_of_false ?_ fun hno ↦ hno (hanswers.exists_valid hstage)
    rintro (hno | hburn)
    · exact absurd (hok.symm.trans hno) nofun
    · exact hstage hburn
  have hexact := (@exact_found_iff _ _ minOutput _) hpos htarget hmin hfew hcap
  rcases selectStages_eq_some h with ⟨hfound, rfl⟩ | ⟨hnot, ⟨i, hi, hcoin, -, rfl⟩ |
    ⟨-, ⟨pick, hpick, rfl⟩ | ⟨-, hfound, rfl⟩⟩⟩
  · refine ⟨hrefuses, iff_of_true rfl (hexact.mp hfound), fun _ c hc ↦ ?_, nofun, nofun⟩
    simp only [make, Walk.length_result]
    exact exact_fewest hpos htarget hmin hfew c hc
  · exact ⟨hrefuses, iff_of_false nofun fun hc ↦ hnot (hexact.mpr hc), nofun, nofun, nofun⟩
  · exact ⟨hrefuses, iff_of_false nofun fun hc ↦ hnot (hexact.mpr hc), nofun, nofun, nofun⟩
  · have hno := fun hc ↦ hnot (hexact.mpr hc)
    refine ⟨hrefuses, iff_of_false nofun hno, nofun, fun _ c hc ↦ ?_, nofun⟩
    have hsettled := (@settled_of_hits _ _ _ _ .validChange) hpos htarget hmin hfew nofun c
      (hits_validChange.mpr hc)
    have hsmallest := smallest_of_settled hpos hcap (.inl rfl) hno hsettled
    have hs := Walk.run_sound hcap hfound
    simp only [make, Walk.length_result]
    rw [hs.sum_result]
    omega

/-- A refusal, or a burn, when no other stage answers. -/
theorem best_of_none (hpos : ∀ c ∈ coins, 0 < c) (htarget : 0 < target) (hmin : 0 ≤ minOutput)
    (hfew : coins.length ≤ 17) (hcap : 0 < cap)
    (h : selectStages coins (rankDescending coins) target minOutput cap = none) :
    (∀ s, selectBurn coins (rankDescending coins) target minOutput cap = some s →
      Best coins target minOutput cap s) ∧ Best coins target minOutput cap {} := by
  obtain ⟨hexact, hsearch⟩ := selectStages_eq_none h
  rw [exact_found_iff hpos htarget hmin hfew hcap] at hexact
  rw [search_found_iff hpos htarget hmin hfew hcap] at hsearch
  constructor
  · intro s hs
    obtain ⟨hok, hstage, -⟩ := answers_selectBurn hcap hs
    obtain ⟨hfound, extra, hextra, -, -, rfl⟩ := selectBurn_eq_some hs
    refine ⟨iff_of_true (.inr hstage) hsearch, iff_of_false nofun hexact, nofun, nofun,
      fun _ ↦ ⟨hsearch, fun c hc ↦ ?_⟩⟩
    have hsettled := (@settled_of_hits _ _ _ _ .overshoot) hpos htarget hmin hfew nofun c
      (hits_overshoot.mpr hc)
    have hsmallest := smallest_of_settled hpos hcap (.inr rfl) hexact hsettled
    simp only [make]
    omega
  · exact ⟨iff_of_true (.inl rfl) hsearch, iff_of_false nofun hexact, nofun, nofun, nofun⟩

theorem stage_ne_burn (hpos : ∀ c ∈ coins, 0 < c) (htarget : 0 < target) (hcap : 0 < cap) :
    (selectFloorAware coins target minOutput cap false).stage ≠ .burn := by
  rcases (@selectFloorAware_cases _ _ minOutput cap) hpos htarget false with
    ⟨-, h⟩ | ⟨-, -, h⟩ | ⟨-, -, ⟨s, hs, h⟩ | ⟨-, ⟨hallow, -⟩ | h⟩⟩
  · rw [h]
    nofun
  · rw [h]
    nofun
  · rw [h]
    exact (@answers_selectStages _ _ _ _ hcap false _ hs).2.1
  · cases hallow
  · rw [h]
    nofun

/-- For at most 17 coins the searches cannot run out, and the answer is the best there is; without
leave to burn, a refusal means that there is no valid choice. -/
theorem selectFloorAware_best (coins : List Int) (target minOutput : Int) (cap : Nat)
    (allowBurn : Bool) (hfew : coins.length ≤ 17) (hpos : ∀ c ∈ coins, 0 < c)
    (htarget : 0 < target) (hmin : 0 < minOutput) (hcap : 1 ≤ cap) :
    Best coins target minOutput cap (selectFloorAware coins target minOutput cap allowBurn) ∧
      ((selectFloorAware coins target minOutput cap false).ok = false ↔
        ¬ ∃ c : Choice coins cap, c.Valid target minOutput) := by
  have hbest (allow : Bool) :
      Best coins target minOutput cap (selectFloorAware coins target minOutput cap allow) := by
    rcases (@selectFloorAware_cases _ _ minOutput cap) hpos htarget allow with
      ⟨htotal, h⟩ | ⟨-, hlt, h⟩ | ⟨-, -, ⟨s, hs, h⟩ | ⟨hnone, ⟨-, s, hs, h⟩ | h⟩⟩
    · rw [h]
      exact best_of_unreachable hpos hmin.le ((largest_le_sum hpos cap).trans_lt htotal) rfl rfl
    · rw [h]
      exact best_of_unreachable hpos hmin.le hlt rfl rfl
    · rw [h]
      exact best_of_stages hpos htarget hmin.le hfew hcap hs
    · rw [h]
      exact (best_of_none hpos htarget hmin.le hfew hcap hnone).1 s hs
    · rw [h]
      exact (best_of_none hpos htarget hmin.le hfew hcap hnone).2
  refine ⟨hbest allowBurn, ?_⟩
  rw [← (hbest false).refuses]
  exact ⟨.inl, fun h ↦ h.resolve_right (stage_ne_burn hpos htarget hcap)⟩

/-- Of a dollar and a hundred, a choice for 99.50 and its change. -/
theorem selectFloorAware_best_band : Best [100, 10000] 9950 100 250
      (selectFloorAware [100, 10000] 9950 100 250 true) ∧
    ((selectFloorAware [100, 10000] 9950 100 250 false).ok = false ↔
      ¬ ∃ c : Choice [100, 10000] 250, c.Valid 9950 100) :=
  selectFloorAware_best [100, 10000] 9950 100 250 true (by decide) (by decide) (by decide)
    (by decide) (by decide)

end Few

end Yew.CoinSelect
