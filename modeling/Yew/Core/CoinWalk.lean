import Mathlib.Algebra.Order.BigOperators.Group.List
import Yew.Core.CoinSelect

/-!
# The selector's walk

A walk goes through the picks of positions depth first.  Whatever it records answers its goal
(`Walk.Sound`).  With enough budget it misses nothing: at the end every pick that answers the goal
is *settled*, no better than what was recorded (`Walk.loop_settles`).  Out of budget it has still
made its first descent, which takes the largest coins one after another
(`Walk.found_of_largest`).

The walk is the struct `Walk` of `core/src/coinselect.rs`, whose `descend` recurses under a budget
of nodes that all of its calls share.
-/

namespace Yew.CoinSelect.Walk

variable {w : Walk} {s : State} {k i : Nat} {sum : Int}

/-- The sum of the coins at some positions. -/
def sumOf (w : Walk) (picks : List Nat) : Int := (picks.map w.value).sum

@[simp] theorem sumOf_nil : w.sumOf [] = 0 := rfl

@[simp] theorem sumOf_cons (p : Nat) (picks : List Nat) :
    w.sumOf (p :: picks) = w.value p + w.sumOf picks := rfl

@[simp] theorem sumOf_append (picks more : List Nat) :
    w.sumOf (picks ++ more) = w.sumOf picks + w.sumOf more := by
  simp [sumOf]

/-- The coins of the order are positive. -/
def Positive (w : Walk) : Prop := ∀ p < w.order.length, 0 < w.value p

theorem sumOf_nonneg (hw : w.Positive) {picks : List Nat}
    (h : ∀ p ∈ picks, p < w.order.length) : 0 ≤ w.sumOf picks := by
  refine List.sum_nonneg fun x hx ↦ ?_
  obtain ⟨p, hp, rfl⟩ := List.mem_map.mp hx
  exact (hw p (h p hp)).le

theorem sumOf_pos (hw : w.Positive) {picks : List Nat} (hne : picks ≠ [])
    (h : ∀ p ∈ picks, p < w.order.length) : 0 < w.sumOf picks := by
  cases picks with
  | nil => exact absurd rfl hne
  | cons p picks =>
    have hp := hw p (h p List.mem_cons_self)
    have hrest := sumOf_nonneg hw fun q hq ↦ h q (List.mem_cons_of_mem p hq)
    rw [sumOf_cons]
    omega

theorem sumOf_le_of_sublist (hw : w.Positive) {picks more : List Nat} (hsub : picks.Sublist more)
    (h : ∀ p ∈ more, p < w.order.length) : w.sumOf picks ≤ w.sumOf more := by
  refine (hsub.map w.value).sum_le_sum fun x hx ↦ ?_
  obtain ⟨p, hp, rfl⟩ := List.mem_map.mp hx
  exact (hw p (h p hp)).le

theorem suffix_eq (h : i ≤ w.order.length) :
    w.suffix i = w.sumOf (List.range' i (w.order.length - i)) := by
  unfold suffix sumOf
  congr 1
  apply List.ext_getElem
  · simp
  · intro n h₁ h₂
    simp only [List.length_map, List.length_drop] at h₁
    have hn : i + n < w.order.length := by omega
    simp [value, List.getD_eq_getElem?_getD, List.getElem?_eq_getElem hn]

/-- No pick from a position on is worth more than everything from there on. -/
theorem sumOf_le_suffix (hw : w.Positive) (h : i + k = w.order.length) {picks : List Nat}
    (hsub : picks.Sublist (List.range' i k)) : w.sumOf picks ≤ w.suffix i := by
  rw [suffix_eq (by omega), show w.order.length - i = k by omega]
  refine sumOf_le_of_sublist hw hsub fun p hp ↦ ?_
  have := (List.mem_range'_1.mp hp).2
  omega

/-! ## One turn -/

@[simp] theorem visit_pick (next : Int) : (w.visit i next s).pick = s.pick ++ [i] := by
  simp only [visit, record]
  split
  · split <;> rfl
  · rfl

@[simp] theorem visit_budget (next : Int) : (w.visit i next s).budget = s.budget := by
  simp only [visit, record]
  split
  · split <;> rfl
  · rfl

theorem turn_pick {descend : Int → State → State}
    (h : ∀ next s, (descend next s).pick = s.pick) :
    (w.turn descend i sum s).pick = s.pick := by
  simp only [turn, enter]
  split
  · split
    · simp
    · simp [h]
  · simp

theorem loop_pick : (w.loop k i sum s).pick = s.pick := by
  induction k generalizing i sum s with
  | zero => rfl
  | succ k ih =>
    simp only [loop]
    split
    · rfl
    · split
      · rfl
      · rw [ih, turn_pick fun _ _ ↦ ih]

/-- Where the walk stands before position `i`: its pick is of positions before, its sum is the
pick's, and there is room for one coin more. -/
structure Here (w : Walk) (i : Nat) (sum : Int) (s : State) : Prop where
  sublist : s.pick.Sublist (List.range i)
  sum_eq : w.sumOf s.pick = sum
  room : s.pick.length < w.maxInputs

theorem Here.next (h : Here w i sum s) : Here w (i + 1) sum s where
  sublist := h.sublist.trans (by
    rw [List.range_succ]
    exact List.sublist_append_left _ _)
  sum_eq := h.sum_eq
  room := h.room

theorem Here.congr {s' : State} (h : Here w i sum s) (hs : s'.pick = s.pick) :
    Here w i sum s' where
  sublist := hs ▸ h.sublist
  sum_eq := hs ▸ h.sum_eq
  room := hs ▸ h.room

/-- The pick with one coin more. -/
theorem Here.push (h : Here w i sum s) :
    (s.pick ++ [i]).Sublist (List.range (i + 1)) ∧
      w.sumOf (s.pick ++ [i]) = sum + w.value i ∧ (s.pick ++ [i]).length ≤ w.maxInputs := by
  refine ⟨?_, by simp [h.sum_eq], ?_⟩
  · rw [List.range_succ]
    exact h.sublist.append (List.Sublist.refl _)
  · have := h.room
    simp
    omega

/-- Where a descent begins. -/
theorem Here.visit {next : Int} (h : Here w i sum s) (hnext : next = sum + w.value i)
    (hroom : (w.visit i next s).pick.length < w.maxInputs) (b : Int) :
    Here w (i + 1) next { w.visit i next s with budget := b } where
  sublist := by simpa using h.push.1
  sum_eq := by simpa [hnext] using h.push.2.1
  room := hroom

/-- A property of what was recorded holds after a turn when the visit leaves it and the descent
keeps it. -/
theorem turn_keeps {P : State → Prop} {descend : Int → State → State}
    (hP : ∀ s b p, P s → P { s with budget := b, pick := p })
    (hdescend : ∀ next s, Here w (i + 1) next s → P s → P (descend next s)) (hs : Here w i sum s)
    (h : P (w.visit i (sum + w.value i) s)) : P (w.turn descend i sum s) := by
  simp only [turn]
  split
  · rename_i hgo
    refine hP _ _ _ ?_
    unfold enter
    split
    · exact h
    · exact hdescend _ _ (hs.visit rfl hgo.1 _) (hP _ _ _ h)
  · exact hP _ _ _ h

/-- The induction rule of the walk: a property of what was recorded holds at the end of the loop
when every visit keeps it. -/
theorem loop_keeps {P : State → Prop} (hP : ∀ s b p, P s → P { s with budget := b, pick := p })
    (hvisit : ∀ i sum s, i < w.order.length → Here w i sum s → w.stopped s = false → P s →
      P (w.visit i (sum + w.value i) s))
    (hk : i + k ≤ w.order.length) (hs : Here w i sum s) (h : P s) : P (w.loop k i sum s) := by
  induction k generalizing i sum s with
  | zero => exact h
  | succ k ih =>
    simp only [loop]
    split
    · exact h
    · rename_i hstop
      split
      · exact h
      · refine ih (by omega) (hs.next.congr (turn_pick fun _ _ ↦ loop_pick)) ?_
        refine turn_keeps hP (fun _ _ hs h ↦ ih (by omega) hs h) hs ?_
        exact hvisit i sum s (by omega) hs (by simpa using hstop) h

/-! ## What is recorded -/

/-- What was recorded is a pick that answers the goal. -/
structure Sound (w : Walk) (s : State) : Prop where
  sublist : s.bestPick.Sublist (List.range w.order.length)
  ne_nil : s.bestPick ≠ []
  length_le : s.bestPick.length ≤ w.maxInputs
  sum_eq : w.sumOf s.bestPick = s.bestSum
  hits : w.hits s.bestSum = true

theorem sublist_range_of_le {picks : List Nat} {m n : Nat} (h : picks.Sublist (List.range m))
    (hmn : m ≤ n) : picks.Sublist (List.range n) := by
  refine h.trans ?_
  rw [← Nat.add_sub_cancel' hmn, List.range_add]
  exact List.sublist_append_left _ _

/-- A visit records only picks that answer the goal. -/
theorem sound_visit (hi : i < w.order.length) (hs : Here w i sum s)
    (h : s.found → Sound w s) :
    (w.visit i (sum + w.value i) s).found → Sound w (w.visit i (sum + w.value i) s) := by
  simp only [visit, record]
  split
  · rename_i hhits
    split
    · intro _
      obtain ⟨hsub, hsum, hlen⟩ := hs.push
      exact ⟨sublist_range_of_le hsub (by omega), by simp, hlen, hsum, hhits⟩
    · intro hf
      obtain ⟨h₁, h₂, h₃, h₄, h₅⟩ := h hf
      exact ⟨h₁, h₂, h₃, h₄, h₅⟩
  · intro hf
    obtain ⟨h₁, h₂, h₃, h₄, h₅⟩ := h hf
    exact ⟨h₁, h₂, h₃, h₄, h₅⟩

theorem loop_sound (hk : i + k ≤ w.order.length) (hs : Here w i sum s)
    (h : s.found → Sound w s) : (w.loop k i sum s).found → Sound w (w.loop k i sum s) :=
  loop_keeps (P := fun s ↦ s.found → Sound w s)
    (fun _ _ _ h hf ↦ ⟨(h hf).1, (h hf).2, (h hf).3, (h hf).4, (h hf).5⟩)
    (fun _ _ _ hi hs _ h ↦ sound_visit hi hs h) hk hs h

theorem visit_found (next : Int) (h : s.found) : (w.visit i next s).found := by
  simp only [visit, record]
  split
  · split
    · rfl
    · exact h
  · exact h

theorem loop_found (hk : i + k ≤ w.order.length) (hs : Here w i sum s) (h : s.found) :
    (w.loop k i sum s).found :=
  loop_keeps (P := fun s ↦ s.found = true) (fun _ _ _ h ↦ h) (fun _ _ _ _ _ _ h ↦ visit_found _ h)
    hk hs h

/-! ## What is missed -/

/-- A sum of so many coins is no better than what was recorded, or nothing can be. -/
def Settled (w : Walk) (sum : Int) (count : Nat) (s : State) : Prop :=
  w.better s sum count = false ∨ w.done s = true

/-- What is no better than a recorded pick is no better than one that replaced it. -/
theorem not_better_of_better {s' : State} {x y : Int} {c : Nat} (hx : w.better s x c = false)
    (hy : w.better s y s'.bestPick.length = true) (hfound : s'.found = true)
    (hsum : s'.bestSum = y) : w.better s' x c = false := by
  cases hf : s.found with
  | false => simp [better, hf] at hx
  | true =>
    simp only [better, hf, hfound, if_true, hsum] at hx hy ⊢
    cases hg : w.goal <;> simp_all <;> omega

theorem settled_visit {x : Int} {c : Nat} (next : Int) (hstop : w.stopped s = false)
    (h : Settled w x c s) : Settled w x c (w.visit i next s) := by
  have hdone : w.done s = false := by
    rw [stopped, Bool.or_eq_false_iff] at hstop
    exact hstop.2
  have hx : w.better s x c = false := by
    rcases h with h | h
    · exact h
    · rw [hdone] at h
      cases h
  left
  simp only [visit, record]
  split
  · split
    · rename_i hbetter
      exact not_better_of_better hx hbetter rfl rfl
    · exact hx
  · exact hx

theorem loop_settled {x : Int} {c : Nat} (hk : i + k ≤ w.order.length) (hs : Here w i sum s)
    (h : Settled w x c s) : Settled w x c (w.loop k i sum s) :=
  loop_keeps (P := Settled w x c) (fun _ _ _ h ↦ h) (fun _ _ _ _ _ hstop h ↦ settled_visit _ hstop h)
    hk hs h

/-- A visit settles the pick it makes. -/
theorem visit_settles {next : Int} (h : w.hits next = true) :
    Settled w next (s.pick.length + 1) (w.visit i next s) := by
  left
  simp only [visit, h, if_true, record]
  split
  · cases hg : w.goal <;> simp [better, hg]
  · rename_i hb
    simpa [better] using hb

/-- Where the goal is a small sum, a larger sum than a settled one is settled. -/
theorem Settled.of_lt {x y : Int} {c d : Nat} (h : Settled w x c s) (hxy : x < y)
    (hexact : w.goal ≠ .exact) (hbelow : w.goal ≠ .below) : Settled w y d s := by
  rcases h with h | h
  · left
    cases hf : s.found with
    | false => simp [better, hf] at h
    | true =>
      simp only [better, hf, if_true] at h ⊢
      cases hg : w.goal <;> simp_all <;> omega
  · exact .inr h

/-- A turn keeps settled what its visit leaves settled. -/
theorem turn_settled {x : Int} {c : Nat} (hk : i + 1 + k ≤ w.order.length) (hs : Here w i sum s)
    (h : Settled w x c (w.visit i (sum + w.value i) s)) :
    Settled w x c (w.turn (w.loop k (i + 1)) i sum s) :=
  turn_keeps (P := Settled w x c) (fun _ _ _ h ↦ h) (fun _ _ hs h ↦ loop_settled hk hs h) hs h

/-! ## The budget -/

theorem turn_budget {descend : Int → State → State} {cost : Int} (hcost : 0 ≤ cost)
    (h : ∀ next s, s.budget - cost ≤ (descend next s).budget) :
    s.budget - (cost + 1) ≤ (w.turn descend i sum s).budget := by
  simp only [turn, enter]
  split
  · split
    · simp
      omega
    · have := h (sum + w.value i) { w.visit i (sum + w.value i) s with budget := s.budget - 1 }
      simp only [visit_budget] at this ⊢
      omega
  · simp
    omega

/-- The loop over `k` positions makes at most `2 ^ k - 1` descents. -/
theorem loop_budget : s.budget - (2 ^ k - 1) ≤ (w.loop k i sum s).budget := by
  induction k generalizing i sum s with
  | zero => simp [loop]
  | succ k ih =>
    have hpow : (0 : Int) < 2 ^ k := Int.pow_pos (by decide)
    have hturn := (@turn_budget w s i sum
      (w.loop k (i + 1)) (2 ^ k - 1)) (by omega) fun _ _ ↦ ih
    simp only [loop]
    rw [pow_succ]
    split
    · omega
    · split
      · omega
      · have := @ih (w.turn (w.loop k (i + 1)) i sum s) (i + 1) sum
        omega

/-! ## Every pick -/

theorem target_le_of_hits (hmin : w.goal = .validChange → 0 ≤ w.minOutput)
    (hbelow : w.goal ≠ .below) {x : Int} (h : w.hits x = true) : w.target ≤ x := by
  unfold hits at h
  cases hg : w.goal <;> simp_all <;> omega

/-- A coin that does not answer the goal is gone on from, if a larger sum answers it. -/
theorem goesOn_of_hits {next x : Int} (hlt : next < x) (hx : w.hits x = true)
    (hnext : w.hits next = false) (hbelow : w.goal ≠ .below) : w.goesOn next = true := by
  unfold hits at hx hnext
  unfold goesOn hits
  cases hg : w.goal <;> simp_all

theorem lt_length_of_sublist (h : i + k = w.order.length) {picks : List Nat}
    (hsub : picks.Sublist (List.range' i k)) : ∀ p ∈ picks, p < w.order.length := by
  intro p hp
  have := (List.mem_range'_1.mp (hsub.subset hp)).2
  omega

/-- A coin that answers the goal settles every pick that begins with it. -/
theorem visit_settles_all (hw : w.Positive) (hbelow : w.goal ≠ .below) {rest : List Nat}
    (hrest : ∀ p ∈ rest, p < w.order.length) (hnext : w.hits (sum + w.value i) = true)
    (hhits : w.hits (sum + w.sumOf (i :: rest)) = true) :
    Settled w (sum + w.sumOf (i :: rest)) (s.pick.length + (i :: rest).length)
      (w.visit i (sum + w.value i) s) := by
  have hv := visit_settles (s := s) (i := i) hnext
  by_cases hne : rest = []
  · subst hne
    simpa using hv
  · have hpos := sumOf_pos hw hne hrest
    have hlt : sum + w.value i < sum + w.sumOf (i :: rest) := by
      rw [sumOf_cons]
      omega
    refine hv.of_lt hlt (fun hexact ↦ ?_) hbelow
    simp only [hits, hexact, decide_eq_true_eq] at hnext hhits
    omega

/-- A coin that is no answer, and is gone on from: the turn is the descent. -/
theorem turn_eq_descend {descend : Int → State → State} (hstop : w.stopped s = false)
    (hnext : w.hits (sum + w.value i) = false) (hgo : w.goesOn (sum + w.value i) = true)
    (hroom : s.pick.length + 1 < w.maxInputs) :
    w.turn descend i sum s =
      { descend (sum + w.value i) ⟨s.budget - 1, s.found, s.bestSum, s.bestPick, s.pick ++ [i]⟩ with
        pick := (descend (sum + w.value i)
          ⟨s.budget - 1, s.found, s.bestSum, s.bestPick, s.pick ++ [i]⟩).pick.dropLast } := by
  have hstop' : ¬ w.stopped { s with pick := s.pick ++ [i] } = true := by
    simpa [stopped, done] using hstop
  have hroom' : (s.pick ++ [i]).length < w.maxInputs := by simpa using hroom
  simp only [turn, visit, hnext]
  rw [if_neg Bool.false_ne_true, if_pos ⟨hroom', hgo⟩, enter, if_neg hstop']

/-- Where that descent begins. -/
theorem Here.descend (hs : Here w i sum s) (hroom : s.pick.length + 1 < w.maxInputs) :
    Here w (i + 1) (sum + w.value i)
      ⟨s.budget - 1, s.found, s.bestSum, s.bestPick, s.pick ++ [i]⟩ where
  sublist := hs.push.1
  sum_eq := hs.push.2.1
  room := by simpa using hroom

/-- With a unit of budget for every pick, the loop settles every pick that answers the goal. -/
theorem loop_settles (hw : w.Positive) (hmin : w.goal = .validChange → 0 ≤ w.minOutput)
    (hbelow : w.goal ≠ .below) (hk : i + k = w.order.length) (hs : Here w i sum s)
    (hbudget : 2 ^ k ≤ s.budget)
    {picks : List Nat} (hsub : picks.Sublist (List.range' i k)) (hne : picks ≠ [])
    (hlen : s.pick.length + picks.length ≤ w.maxInputs)
    (hhits : w.hits (sum + w.sumOf picks) = true) :
    Settled w (sum + w.sumOf picks) (s.pick.length + picks.length) (w.loop k i sum s) := by
  induction k generalizing i sum s picks with
  | zero => exact absurd (List.sublist_nil.mp hsub) hne
  | succ k ih =>
    have hpow : (0 : Int) < 2 ^ k := Int.pow_pos (by decide)
    rw [pow_succ] at hbudget
    have hall := lt_length_of_sublist hk hsub
    simp only [loop]
    split
    · -- stopped with budget left: nothing can be improved
      rename_i hstop
      rw [stopped, Bool.or_eq_true, decide_eq_true_eq] at hstop
      exact .inr (hstop.resolve_left (by omega))
    · rename_i hstop
      split
      · -- cut: the pick would not reach the target either
        rename_i hcut
        have h₁ := sumOf_le_suffix hw hk hsub
        have h₂ := target_le_of_hits hmin hbelow hhits
        omega
      · have hpick : (w.turn (w.loop k (i + 1)) i sum s).pick = s.pick :=
          turn_pick fun _ _ ↦ loop_pick
        have hhere := hs.next.congr hpick
        rw [List.range'_succ] at hsub
        rcases hsub with _ | ⟨_, hsub⟩ | ⟨_, hsub⟩
        · -- without this coin: the rest of the loop
          have hcost := (@turn_budget w s i sum
            (w.loop k (i + 1)) (2 ^ k - 1)) (by omega) fun _ _ ↦ loop_budget
          have := ih (by omega) hhere (by omega) hsub hne (by rwa [hpick]) hhits
          rwa [hpick] at this
        · rename_i rest
          refine loop_settled (by omega) hhere ?_
          have hrest : ∀ p ∈ rest, p < w.order.length :=
            fun p hp ↦ hall p (List.mem_cons_of_mem i hp)
          cases hnext : w.hits (sum + w.value i) with
          | true =>
            exact turn_settled (by omega) hs (visit_settles_all hw hbelow hrest hnext hhits)
          | false =>
            -- the coin alone is no answer: the descent settles the pick
            have hrne : rest ≠ [] := by
              rintro rfl
              simp [hnext] at hhits
            have hpos := sumOf_pos hw hrne hrest
            have hgo : w.goesOn (sum + w.value i) = true := by
              refine goesOn_of_hits (x := sum + w.sumOf (i :: rest)) ?_ hhits hnext hbelow
              rw [sumOf_cons]
              omega
            have hroom : s.pick.length + 1 < w.maxInputs := by
              have : 0 < rest.length := List.length_pos_iff.mpr hrne
              rw [List.length_cons] at hlen
              omega
            have hsettles := ih (by omega) (hs.descend hroom) (by dsimp only; omega) hsub hrne
              (by simp only [List.length_append, List.length_cons, List.length_nil] at hlen ⊢; omega)
              (by rwa [sumOf_cons, ← add_assoc] at hhits)
            have hcount : s.pick.length + (i :: rest).length =
                (s.pick ++ [i]).length + rest.length := by
              simp only [List.length_append, List.length_cons, List.length_nil]
              omega
            rw [turn_eq_descend (by simpa using hstop) hnext hgo hroom, hcount, sumOf_cons,
              ← add_assoc]
            exact hsettles

/-- A coin that leaves the sum below the target is recorded and gone on from. -/
theorem turn_eq_descend_below {descend : Int → State → State} (hgoal : w.goal = .below)
    (hbudget : 0 < s.budget) (hnext : sum + w.value i < w.target)
    (hroom : s.pick.length + 1 < w.maxInputs) :
    w.turn descend i sum s =
      { descend (sum + w.value i)
          { w.visit i (sum + w.value i) s with budget := s.budget - 1 } with
        pick := (descend (sum + w.value i)
          { w.visit i (sum + w.value i) s with budget := s.budget - 1 }).pick.dropLast } := by
  have hgo : w.goesOn (sum + w.value i) = true := by simp [goesOn, hits, hgoal, hnext]
  have hstop : ¬ w.stopped (w.visit i (sum + w.value i) s) = true := by
    simp only [stopped, done, hgoal, visit_budget]
    simpa using hbudget
  have hroom' : (w.visit i (sum + w.value i) s).pick.length < w.maxInputs := by simpa using hroom
  simp only [turn]
  rw [if_pos ⟨hroom', hgo⟩, enter, if_neg hstop, visit_budget]

/-- With a unit of budget for every pick, the loop settles every pick below the target: whatever it
begins with is below the target too. -/
theorem loop_settles_below (hw : w.Positive) (hgoal : w.goal = .below)
    (hk : i + k = w.order.length) (hs : Here w i sum s) (hbudget : 2 ^ k ≤ s.budget)
    {picks : List Nat} (hsub : picks.Sublist (List.range' i k)) (hne : picks ≠ [])
    (hlen : s.pick.length + picks.length ≤ w.maxInputs) (hlt : sum + w.sumOf picks < w.target) :
    Settled w (sum + w.sumOf picks) (s.pick.length + picks.length) (w.loop k i sum s) := by
  induction k generalizing i sum s picks with
  | zero => exact absurd (List.sublist_nil.mp hsub) hne
  | succ k ih =>
    have hpow : (0 : Int) < 2 ^ k := Int.pow_pos (by decide)
    rw [pow_succ] at hbudget
    have hall := lt_length_of_sublist hk hsub
    have hstop : ¬ w.stopped s = true := by
      simp only [stopped, done, hgoal, Bool.or_eq_true, decide_eq_true_eq]
      simp
      omega
    rw [loop, if_neg hstop, if_neg fun hcut ↦ hcut.1 hgoal]
    have hpick : (w.turn (w.loop k (i + 1)) i sum s).pick = s.pick :=
      turn_pick fun _ _ ↦ loop_pick
    have hhere := hs.next.congr hpick
    rw [List.range'_succ] at hsub
    rcases hsub with _ | ⟨_, hsub⟩ | ⟨_, hsub⟩
    · -- without this coin: the rest of the loop
      have hcost := (@turn_budget w s i sum
        (w.loop k (i + 1)) (2 ^ k - 1)) (by omega) fun _ _ ↦ loop_budget
      have := ih (by omega) hhere (by omega) hsub hne (by rwa [hpick]) hlt
      rwa [hpick] at this
    · rename_i rest
      refine loop_settled (by omega) hhere ?_
      have hrest : ∀ p ∈ rest, p < w.order.length :=
        fun p hp ↦ hall p (List.mem_cons_of_mem i hp)
      rw [sumOf_cons, ← add_assoc] at hlt ⊢
      have hnonneg := sumOf_nonneg hw hrest
      by_cases hrne : rest = []
      · subst hrne
        rw [sumOf_nil, add_zero] at hlt ⊢
        exact turn_settled (by omega) hs (visit_settles (by simp [hits, hgoal, hlt]))
      · have hroom : s.pick.length + 1 < w.maxInputs := by
          have : 0 < rest.length := List.length_pos_iff.mpr hrne
          rw [List.length_cons] at hlen
          omega
        have hvisit := hs.visit rfl (by simpa using hroom) (s.budget - 1)
        have hsettles := ih (by omega) hvisit (by dsimp only; omega) hsub hrne
          (by simp only [visit_pick, List.length_append, List.length_cons, List.length_nil] at hlen ⊢
              omega) hlt
        have hcount : s.pick.length + (i :: rest).length =
            (w.visit i (sum + w.value i) s).pick.length + rest.length := by
          simp only [visit_pick, List.length_append, List.length_cons, List.length_nil]
          omega
        rw [turn_eq_descend_below hgoal (by omega) (by omega) hroom, hcount]
        exact hsettles

/-! ## The first descent -/

theorem visit_finds (hnext : w.hits (sum + w.value i) = true) :
    (w.visit i (sum + w.value i) s).found := by
  simp only [visit, hnext, if_true, record]
  split
  · rfl
  · rename_i hb
    cases hf : s.found with
    | true => rfl
    | false => exact absurd (by simp [better, hf]) hb

/-- However little budget there is beyond one unit for each of `m` coins, the walk finds a valid
change when the next `m` coins together have one. -/
theorem found_of_first (hw : w.Positive) (hmin : 0 ≤ w.minOutput) (hgoal : w.goal = .validChange)
    (hk : i + k = w.order.length) (hs : Here w i sum s) {m : Nat} (hm : 0 < m) (hmk : m ≤ k)
    (hbudget : (m : Int) ≤ s.budget) (hlen : s.pick.length + m ≤ w.maxInputs)
    (hsum : w.target + w.minOutput ≤ sum + w.sumOf (List.range' i m)) :
    (w.loop k i sum s).found := by
  induction k generalizing i sum s m with
  | zero => omega
  | succ k ih =>
    have hfront : (List.range' i m).Sublist (List.range' i (k + 1)) := by
      rw [← Nat.add_sub_cancel' hmk, ← List.range'_append_1]
      exact List.sublist_append_left _ _
    obtain ⟨m, rfl⟩ : ∃ n, m = n + 1 := ⟨m - 1, by omega⟩
    simp only [loop]
    split
    · rename_i hstop
      rw [stopped, Bool.or_eq_true, decide_eq_true_eq] at hstop
      have hdone := hstop.resolve_left (by omega)
      rw [done, Bool.and_eq_true] at hdone
      exact hdone.1
    · rename_i hstop
      split
      · rename_i hcut
        have := sumOf_le_suffix hw hk hfront
        omega
      · refine loop_found (by omega) (hs.next.congr (turn_pick fun _ _ ↦ loop_pick)) ?_
        cases hnext : w.hits (sum + w.value i) with
        | true =>
          exact turn_keeps (P := fun s ↦ s.found = true) (fun _ _ _ h ↦ h)
            (fun _ _ hs h ↦ loop_found (by omega) hs h) hs (visit_finds hnext)
        | false =>
          rw [List.range'_succ, sumOf_cons] at hsum
          have hgo : w.goesOn (sum + w.value i) = true := by
            simp [goesOn, hgoal, hnext]
          have hmore : m ≠ 0 := by
            rintro rfl
            simp only [hits, hgoal, Bool.or_eq_false_iff, decide_eq_false_iff_not] at hnext
            simp only [List.range'_zero, sumOf_nil] at hsum
            omega
          have hroom : s.pick.length + 1 < w.maxInputs := by omega
          rw [turn_eq_descend (by simpa using hstop) hnext hgo hroom]
          refine ih (m := m) (by omega) (hs.descend hroom) (by omega) (by omega)
            (by dsimp only; omega) ?_ (by omega)
          simp only [List.length_append, List.length_cons, List.length_nil]
          omega

/-! ## The whole walk -/

theorem run_eq :
    w.run = w.loop w.order.length 0 0 { start with budget := selectSearchBudget - 1 } := by
  simp [run, descend, enter, stopped, done, start, selectSearchBudget]

theorem here_start (h : 0 < w.maxInputs) (b : Int) : Here w 0 0 { start with budget := b } where
  sublist := List.nil_sublist _
  sum_eq := rfl
  room := h

/-- Whatever the walk found is a pick that answers its goal. -/
theorem run_sound (hmax : 0 < w.maxInputs) (h : w.run.found) : Sound w w.run := by
  rw [run_eq] at h ⊢
  exact loop_sound (by omega) (here_start hmax _) (by simp [start]) h

/-- Of at most 17 coins the walk misses no pick. -/
theorem run_settles (hw : w.Positive) (hmin : w.goal = .validChange → 0 ≤ w.minOutput)
    (hlength : w.order.length ≤ 17) {picks : List Nat}
    (hsub : picks.Sublist (List.range w.order.length)) (hne : picks ≠ [])
    (hlen : picks.length ≤ w.maxInputs) (hhits : w.hits (w.sumOf picks) = true) :
    Settled w (w.sumOf picks) picks.length w.run := by
  have hmax : 0 < w.maxInputs := by
    have := List.length_pos_iff.mpr hne
    omega
  have hbudget : (2 : Int) ^ w.order.length ≤ selectSearchBudget - 1 := by
    calc (2 : Int) ^ w.order.length ≤ 2 ^ 17 := by
          exact_mod_cast Nat.pow_le_pow_right (by decide) hlength
      _ ≤ selectSearchBudget - 1 := by decide
  rw [run_eq]
  rw [List.range_eq_range'] at hsub
  by_cases hbelow : w.goal = .below
  · have hlt : w.sumOf picks < w.target := by simpa [hits, hbelow] using hhits
    simpa [start] using loop_settles_below hw hbelow (by omega) (here_start hmax _) hbudget hsub hne
      (by simpa [start] using hlen) (by simpa using hlt)
  · simpa [start] using loop_settles hw hmin hbelow (by omega) (here_start hmax _) hbudget hsub hne
      (by simpa [start] using hlen) (by simpa using hhits)

/-- The walk finds a valid change when the largest coins, as many as may be spent, have one. -/
theorem run_found (hw : w.Positive) (hmin : 0 ≤ w.minOutput) (hgoal : w.goal = .validChange)
    {m : Nat} (hm : 0 < m) (hlength : m ≤ w.order.length) (hmax : m ≤ w.maxInputs)
    (hbudget : (m : Int) < selectSearchBudget)
    (hsum : w.target + w.minOutput ≤ w.sumOf (List.range m)) : w.run.found := by
  rw [run_eq]
  refine found_of_first hw hmin hgoal (by omega) (here_start (by omega) _) hm hlength
    (by dsimp only; omega) (by simpa [start] using hmax) ?_
  rwa [zero_add, ← List.range_eq_range']

end Yew.CoinSelect.Walk
