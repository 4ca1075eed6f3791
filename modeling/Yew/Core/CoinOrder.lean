import Yew.Core.CoinSound

/-!
# The selector and the order of the coins

The selector ranks the coins by value and breaks ties by position.  Two lists of the same coins are
ranked to the same values, so the walks over them go through the same states, position by position
of the rank, however much budget is left; only the indexes they stand for differ.

The ranking is the sort in `select_floor_aware` of `core/src/coinselect.rs`.  Two runs are related
state by state; the relation forgets indices and keeps values, positions, budget and results.
-/

namespace Yew.CoinSelect

variable {coins coins' : List Int} {target minOutput : Int} {cap : Nat}

/-! ## The ranks -/

theorem map_coin_rankAscending :
    (rankAscending coins).map (coin coins) = coins.insertionSort (· ≤ ·) := by
  refine List.Perm.eq_of_pairwise' (r := (· ≤ ·)) ?_ ?_ ?_
  · exact List.pairwise_map.mpr pairwise_rankAscending
  · exact List.pairwise_insertionSort _ _
  · refine ((perm_rankAscending.map _).trans ?_).trans (List.perm_insertionSort _ _).symm
    rw [map_coin_range]

theorem map_rankAscending_perm (h : coins.Perm coins') :
    (rankAscending coins).map (coin coins) = (rankAscending coins').map (coin coins') := by
  rw [map_coin_rankAscending, map_coin_rankAscending]
  refine List.Perm.eq_of_pairwise' (r := (· ≤ ·)) ?_ ?_ ?_
  · exact List.pairwise_insertionSort _ _
  · exact List.pairwise_insertionSort _ _
  · exact ((List.perm_insertionSort _ _).trans h).trans (List.perm_insertionSort _ _).symm

theorem map_rankDescending_perm (h : coins.Perm coins') :
    (rankDescending coins).map (coin coins) = (rankDescending coins').map (coin coins') := by
  rw [map_coin_rankDescending, map_coin_rankDescending]
  refine List.Perm.eq_of_pairwise' (r := (· ≥ ·)) ?_ ?_ ?_
  · exact List.pairwise_insertionSort _ _
  · exact List.pairwise_insertionSort _ _
  · exact ((List.perm_insertionSort _ _).trans h).trans (List.perm_insertionSort _ _).symm

/-! ## The walks -/

namespace Walk

/-- Two walks with one question, over orders of the same values. -/
structure Alike (w w' : Walk) : Prop where
  values : w.order.map (coin w.coins) = w'.order.map (coin w'.coins)
  target : w.target = w'.target
  minOutput : w.minOutput = w'.minOutput
  maxInputs : w.maxInputs = w'.maxInputs
  goal : w.goal = w'.goal

variable {w w' : Walk}

namespace Alike

theorem length (h : Alike w w') : w.order.length = w'.order.length := by
  simpa using congrArg List.length h.values

theorem value {i : Nat} (h : Alike w w') (hi : i < w.order.length) : w.value i = w'.value i := by
  have hi' : i < w'.order.length := h.length ▸ hi
  have hget := congrArg (·[i]?) h.values
  simp only [List.getElem?_map, List.getElem?_eq_getElem hi, List.getElem?_eq_getElem hi',
    Option.map_some, Option.some.injEq] at hget
  rw [Walk.value, Walk.value, List.getD_eq_getElem _ _ hi, List.getD_eq_getElem _ _ hi', hget]

theorem suffix (h : Alike w w') (i : Nat) : w.suffix i = w'.suffix i := by
  rw [Walk.suffix, Walk.suffix, List.map_drop, List.map_drop, h.values]

theorem hits (h : Alike w w') (next : Int) : w.hits next = w'.hits next := by
  rw [Walk.hits, Walk.hits, h.goal, h.target, h.minOutput]

theorem goesOn (h : Alike w w') (next : Int) : w.goesOn next = w'.goesOn next := by
  rw [Walk.goesOn, Walk.goesOn, h.goal, h.target, h.hits]

theorem stopped (h : Alike w w') (s : State) : w.stopped s = w'.stopped s := by
  rw [Walk.stopped, Walk.stopped, done, done, h.goal, h.target]

theorem visit (h : Alike w w') (i : Nat) (next : Int) (s : State) :
    w.visit i next s = w'.visit i next s := by
  simp only [Walk.visit, record, better, h.hits, h.goal]

theorem turn (h : Alike w w') {i : Nat} (hi : i < w.order.length)
    {descend descend' : Int → State → State} (hdescend : ∀ next s, descend next s = descend' next s)
    (sum : Int) (s : State) : w.turn descend i sum s = w'.turn descend' i sum s := by
  simp only [Walk.turn, enter, h.value hi, h.visit, h.goesOn, h.stopped, h.maxInputs, hdescend]

/-- The walks go through the same states. -/
theorem loop (h : Alike w w') {k i : Nat} (hk : i + k ≤ w.order.length) (sum : Int) (s : State) :
    w.loop k i sum s = w'.loop k i sum s := by
  induction k generalizing i sum s with
  | zero => rfl
  | succ k ih =>
    have hturn := h.turn (i := i) (by omega) (fun next s ↦ ih (i := i + 1) (by omega) next s) sum s
    simp only [Walk.loop, h.stopped, h.suffix, h.goal, h.target, hturn]
    rw [ih (by omega)]

theorem run (h : Alike w w') : w.run = w'.run := by
  rw [run_eq, run_eq, h.length]
  exact h.loop (by rw [h.length, Nat.zero_add]) _ _

/-- What is found stands for coins of the same values. -/
theorem result (h : Alike w w') (hmax : 0 < w.maxInputs) (hfound : w.run.found = true) :
    ((w.result w.run).map (coin w.coins)).Perm ((w'.result w'.run).map (coin w'.coins)) := by
  have hvalues (w : Walk) (s : State) :
      ((w.result s).map (coin w.coins)).Perm (s.bestPick.map w.value) := by
    rw [show s.bestPick.map w.value = (s.bestPick.map fun p ↦ w.order.getD p 0).map (coin w.coins)
      from by rw [List.map_map]; rfl]
    exact (List.perm_insertionSort _ _).map _
  refine (hvalues w w.run).trans (List.Perm.trans ?_ (hvalues w' w'.run).symm)
  have hpick : w.run.bestPick.map w.value = w'.run.bestPick.map w'.value := by
    rw [← h.run]
    refine List.map_congr_left fun p hp ↦ h.value ?_
    exact List.mem_range.mp ((run_sound hmax hfound).sublist.subset hp)
  rw [hpick]

end Alike

end Walk

theorem alike_walkOf (h : coins.Perm coins') (goal : Goal) :
    Walk.Alike (walkOf coins target minOutput cap goal)
      (walkOf coins' target minOutput cap goal) :=
  ⟨map_rankDescending_perm h, rfl, rfl, rfl, rfl⟩

/-! ## The stages -/

/-- Two selections that differ only in which coins of a value they take. -/
structure Selection.Alike (coins coins' : List Int) (s s' : Selection) : Prop where
  ok : s.ok = s'.ok
  insufficient : s.insufficient = s'.insufficient
  tooManyInputs : s.tooManyInputs = s'.tooManyInputs
  stage : s.stage = s'.stage
  selected : s.selected = s'.selected
  change : s.change = s'.change
  extraBurn : s.extraBurn = s'.extraBurn
  values : (s.inputs.map (coin coins)).Perm (s'.inputs.map (coin coins'))

theorem alike_make {idx idx' : List Nat} (h : (idx.map (coin coins)).Perm (idx'.map (coin coins')))
    (stage : SelectStage) (target extraBurn : Int) :
    Selection.Alike coins coins' (make stage coins idx target extraBurn)
      (make stage coins' idx' target extraBurn) := by
  have hsum := h.sum_eq
  constructor
  case values => exact h
  case selected => exact hsum
  case change => exact congrArg (· - target - extraBurn) hsum
  all_goals rfl

/-- A selection of nothing takes the same values. -/
theorem alike_of_inputs_eq_nil {s : Selection} (h : s.inputs = []) :
    Selection.Alike coins coins' s s := by
  refine ⟨rfl, rfl, rfl, rfl, rfl, rfl, rfl, ?_⟩
  rw [h]
  exact List.Perm.refl _

/-- The smallest coins first, over ranks of the same values. -/
theorem greedy_alike {asc asc' pick pick' : List Nat}
    (hasc : asc.map (coin coins) = asc'.map (coin coins'))
    (hpick : pick.map (coin coins) = pick'.map (coin coins')) (sum : Int) :
    (greedy coins target minOutput cap asc pick sum).map (List.map (coin coins)) =
      (greedy coins' target minOutput cap asc' pick' sum).map (List.map (coin coins')) := by
  induction asc generalizing asc' pick pick' sum with
  | nil =>
    cases asc' with
    | nil => rfl
    | cons i' asc' => cases hasc
  | cons i asc ih =>
    cases asc' with
    | nil => cases hasc
    | cons i' asc' =>
      obtain ⟨hcoin, hasc⟩ := List.cons.inj hasc
      have hlength : pick.length = pick'.length := by simpa using congrArg List.length hpick
      have hmore : (pick ++ [i]).map (coin coins) = (pick' ++ [i']).map (coin coins') := by
        simp [hpick, hcoin]
      simp only [greedy, hcoin, hlength]
      split
      · exact ih hasc hpick sum
      · split
        · rfl
        · split
          · exact ih hasc hmore _
          · split
            · exact congrArg some hmore
            · exact ih hasc hmore _

theorem find?_alike {asc asc' : List Nat} (hasc : asc.map (coin coins) = asc'.map (coin coins'))
    (p : Int → Bool) :
    (asc.find? fun i ↦ p (coin coins i)).map (coin coins) =
      (asc'.find? fun i ↦ p (coin coins' i)).map (coin coins') := by
  have hmap (coins : List Int) (asc : List Nat) :
      (asc.find? fun i ↦ p (coin coins i)).map (coin coins) = (asc.map (coin coins)).find? p := by
    rw [List.find?_map]
    rfl
  rw [hmap, hmap, hasc]

theorem selectStages_alike (h : coins.Perm coins') (hcap : 0 < cap) :
    Option.Rel (Selection.Alike coins coins')
      (selectStages coins (rankDescending coins) target minOutput cap)
      (selectStages coins' (rankDescending coins') target minOutput cap) := by
  have hasc := map_rankAscending_perm h
  have hexact := @alike_walkOf coins coins' target minOutput cap h .exact
  have hsearch := @alike_walkOf coins coins' target minOutput cap h .validChange
  have hsingle := find?_alike hasc fun c ↦ decide (target + minOutput ≤ c)
  have hgreedy := @greedy_alike coins coins' target minOutput cap _ _ [] [] hasc rfl 0
  unfold selectStages
  dsimp only
  rw [← hexact.run, ← hsearch.run]
  split
  · rename_i hfound
    refine .some (alike_make ?_ _ _ _)
    have := hexact.result hcap hfound
    rwa [← hexact.run] at this
  · revert hsingle
    generalize (rankAscending coins).find? (fun i ↦ decide (target + minOutput ≤ coin coins i)) = o
    generalize (rankAscending coins').find? (fun i ↦ decide (target + minOutput ≤ coin coins' i)) =
      o'
    intro hsingle
    match o, o' with
    | some i, some i' =>
      have hcoin : coin coins i = coin coins' i' := Option.some.inj hsingle
      refine .some (alike_make ?_ _ _ _)
      rw [List.map_singleton, List.map_singleton, hcoin]
    | none, none =>
      revert hgreedy
      generalize greedy coins target minOutput cap (rankAscending coins) [] 0 = o
      generalize greedy coins' target minOutput cap (rankAscending coins') [] 0 = o'
      intro hgreedy
      match o, o' with
      | some pick, some pick' =>
        have hpick : pick.map (coin coins) = pick'.map (coin coins') := Option.some.inj hgreedy
        refine .some (alike_make ?_ _ _ _)
        have hsort (coins : List Int) (pick : List Nat) :
            ((pick.insertionSort (· ≤ ·)).map (coin coins)).Perm (pick.map (coin coins)) :=
          (List.perm_insertionSort _ _).map _
        refine (hsort coins pick).trans ?_
        rw [hpick]
        exact (hsort coins' pick').symm
      | none, none =>
        dsimp only
        split
        · rename_i hfound
          refine .some (alike_make ?_ _ _ _)
          have := hsearch.result hcap hfound
          rwa [← hsearch.run] at this
        · exact .none
      | some _, none => cases hgreedy
      | none, some _ => cases hgreedy
    | some _, none => cases hsingle
    | none, some _ => cases hsingle

theorem selectBurn_alike (h : coins.Perm coins') (hcap : 0 < cap) :
    Option.Rel (Selection.Alike coins coins')
      (selectBurn coins (rankDescending coins) target minOutput cap)
      (selectBurn coins' (rankDescending coins') target minOutput cap) := by
  have hburn := @alike_walkOf coins coins' target minOutput cap h .overshoot
  unfold selectBurn
  dsimp only
  rw [← hburn.run]
  split
  · rename_i hfound
    refine .some (alike_make ?_ _ _ _)
    have := hburn.result hcap hfound.1
    rwa [← hburn.run] at this
  · exact .none

/-! ## The selector -/

/-- However the coins are listed, the selector makes the same selection up to coins of one value. -/
theorem selectFloorAware_perm (coins coins' : List Int) (target minOutput : Int) (cap : Nat)
    (allowBurn : Bool) (h : coins.Perm coins') :
    Selection.Alike coins coins' (selectFloorAware coins target minOutput cap allowBurn)
      (selectFloorAware coins' target minOutput cap allowBurn) := by
  have htotal : (coins.filter (0 < ·)).sum = (coins'.filter (0 < ·)).sum := (h.filter _).sum_eq
  have hreach : reachable coins (rankDescending coins) cap =
      reachable coins' (rankDescending coins') cap := by
    rw [reachable, reachable, List.map_take, List.map_take, map_rankDescending_perm h]
  unfold selectFloorAware
  dsimp only
  rw [htotal, hreach]
  split
  · exact alike_of_inputs_eq_nil rfl
  · split
    · exact alike_of_inputs_eq_nil rfl
    · split
      · exact alike_of_inputs_eq_nil rfl
      · split
        · exact alike_of_inputs_eq_nil rfl
        · rename_i hneg hzero _ hle
          rw [← hreach, reachable_eq_largest] at hle
          have hcap : 0 < cap := cap_pos_of_le_largest (by omega) (not_lt.mp hle)
          have hstages := @selectStages_alike coins coins' target minOutput cap h hcap
          have hburn := @selectBurn_alike coins coins' target minOutput cap h hcap
          revert hstages
          generalize selectStages coins (rankDescending coins) target minOutput cap = o
          generalize selectStages coins' (rankDescending coins') target minOutput cap = o'
          rintro (hs | -)
          · exact hs
          · dsimp only
            split
            · revert hburn
              generalize selectBurn coins (rankDescending coins) target minOutput cap = b
              generalize selectBurn coins' (rankDescending coins') target minOutput cap = b'
              rintro (hs | -)
              · exact hs
              · exact alike_of_inputs_eq_nil rfl
            · exact alike_of_inputs_eq_nil rfl

theorem selectFloorAware_perm_ties : Selection.Alike [300, 200, 300] [300, 300, 200]
      (selectFloorAware [300, 200, 300] 500 100 250 false)
      (selectFloorAware [300, 300, 200] 500 100 250 false) ∧
    (selectFloorAware [300, 200, 300] 500 100 250 false).inputs ≠
      (selectFloorAware [300, 300, 200] 500 100 250 false).inputs :=
  ⟨selectFloorAware_perm _ _ 500 100 250 false (by decide), by decide +kernel⟩

end Yew.CoinSelect
