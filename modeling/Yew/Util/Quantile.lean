import Mathlib.Algebra.GroupWithZero.Nat
import Mathlib.Algebra.BigOperators.Group.List.Basic
import Mathlib.Algebra.Order.BigOperators.Group.List
import Mathlib.Data.List.Forall2
import Mathlib.Data.List.MinMax

/-!
# Weighted quantiles

Voters name prices and have weights.  The quantile at a threshold is the smallest price named such
that those who name no more weigh the threshold.  A coalition that weighs less than the threshold,
against others that weigh it, cannot move it out of the others' range.
-/

namespace Yew.Quantile

variable {ι α : Type} [LinearOrder α] (price : ι → α) (weight : ι → Nat)

/-- What the voters of a kind weigh. -/
def weighing (P : ι → Prop) [DecidablePred P] (l : List ι) : Nat :=
  ((l.filter fun a ↦ P a).map weight).sum

/-- The smallest price whose holders of that price or less weigh the threshold. -/
structure IsQuantile (l : List ι) (t : Nat) (p : α) : Prop where
  occurs : ∃ a ∈ l, price a = p
  reaches : t ≤ weighing weight (price · ≤ p) l
  least : ∀ a ∈ l, t ≤ weighing weight (price · ≤ price a) l → p ≤ price a

variable {price weight}

section Weighing

variable {P Q : ι → Prop} [DecidablePred P] [DecidablePred Q] {l l' : List ι}

theorem weighing_cons (a : ι) (l : List ι) :
    weighing weight P (a :: l) = (if P a then weight a else 0) + weighing weight P l := by
  by_cases h : P a
  · simp [weighing, h]
  · simp [weighing, h]

theorem weighing_append (l l' : List ι) :
    weighing weight P (l ++ l') = weighing weight P l + weighing weight P l' := by
  simp [weighing]

theorem weighing_mono (h : ∀ a ∈ l, P a → Q a) : weighing weight P l ≤ weighing weight Q l := by
  induction l with
  | nil => exact le_rfl
  | cons a l ih =>
    have hl := ih fun b hb ↦ h b (List.mem_cons_of_mem a hb)
    have ha := h a List.mem_cons_self
    rw [weighing_cons, weighing_cons]
    split_ifs <;> first | omega | exact absurd (ha ‹_›) ‹_›

theorem weighing_perm (h : l.Perm l') : weighing weight P l = weighing weight P l' :=
  ((h.filter _).map _).sum_eq

theorem weighing_true (l : List ι) : weighing weight (fun _ ↦ True) l = (l.map weight).sum := by
  simp [weighing]

theorem weighing_le_sum (l : List ι) : weighing weight P l ≤ (l.map weight).sum := by
  rw [← weighing_true]
  exact weighing_mono fun _ _ _ ↦ trivial

/-- Voters that are not there weigh nothing. -/
theorem weighing_eq_zero (h : ∀ a ∈ l, ¬ P a) : weighing weight P l = 0 := by
  have hnil : l.filter (fun a ↦ P a) = [] :=
    List.filter_eq_nil_iff.mpr fun a ha ↦ by simpa using h a ha
  rw [weighing, hnil, List.map_nil, List.sum_nil]

/-- Voters that are all there weigh all. -/
theorem weighing_eq_sum (h : ∀ a ∈ l, P a) : weighing weight P l = (l.map weight).sum := by
  have hall : l.filter (fun a ↦ P a) = l := List.filter_eq_self.mpr fun a ha ↦ by simpa using h a ha
  rw [weighing, hall]

/-- Voters that weigh something are there. -/
theorem exists_of_weighing_pos (h : 0 < weighing weight P l) : ∃ a ∈ l, P a := by
  by_contra hnone
  have hzero : weighing weight P l = 0 := weighing_eq_zero fun a ha hP ↦ hnone ⟨a, ha, hP⟩
  omega

end Weighing

/-- The largest price named by the voters of a kind. -/
theorem exists_max (price : ι → α) {P : ι → Prop} [DecidablePred P] {l : List ι} (h : ∃ a ∈ l, P a) :
    ∃ a ∈ l, P a ∧ ∀ b ∈ l, P b → price b ≤ price a := by
  obtain ⟨a, ha, hPa⟩ := h
  cases hmax : (l.filter fun a ↦ P a).argmax price with
  | none =>
    rw [List.argmax_eq_none] at hmax
    exact absurd (List.mem_filter.mpr ⟨ha, decide_eq_true hPa⟩) (hmax ▸ List.not_mem_nil)
  | some m =>
    obtain ⟨hm, hPm⟩ := List.mem_filter.mp (List.argmax_mem hmax)
    refine ⟨m, hm, of_decide_eq_true hPm, fun b hb hPb ↦ ?_⟩
    exact List.le_of_mem_argmax (List.mem_filter.mpr ⟨hb, decide_eq_true hPb⟩) hmax

/-- The same voters with prices that are not lower. -/
def Raised (price : ι → α) (weight : ι → Nat) : List ι → List ι → Prop :=
  List.Forall₂ fun a b ↦ weight a = weight b ∧ price a ≤ price b

namespace Raised

variable {l l' : List ι}

theorem exists_left (h : Raised price weight l l') {b : ι} (hb : b ∈ l') :
    ∃ a ∈ l, price a ≤ price b := by
  induction h with
  | nil => cases hb
  | cons hab _ ih =>
    rcases List.mem_cons.mp hb with rfl | hb
    · exact ⟨_, List.mem_cons_self, hab.2⟩
    · obtain ⟨c, hc, hle⟩ := ih hb
      exact ⟨c, List.mem_cons_of_mem _ hc, hle⟩

theorem weighing_le (h : Raised price weight l l') (x : α) :
    weighing weight (price · ≤ x) l' ≤ weighing weight (price · ≤ x) l := by
  induction h with
  | nil => exact le_rfl
  | cons hab _ ih =>
    obtain ⟨hweight, hle⟩ := hab
    rw [weighing_cons, weighing_cons, hweight]
    split_ifs with hb ha
    · omega
    · exact absurd (hle.trans hb) ha
    · omega
    · omega

theorem sum_eq (h : Raised price weight l l') : (l.map weight).sum = (l'.map weight).sum := by
  induction h with
  | nil => rfl
  | cons hab _ ih => rw [List.map_cons, List.map_cons, List.sum_cons, List.sum_cons, hab.1, ih]

end Raised

namespace IsQuantile

variable {l l' : List ι} {t t' : Nat} {p p' : α}

/-- Holders of at most `x`, if there are any, hold at most some price named. -/
theorem le_of_weighing (h : IsQuantile price weight l t p) {x : α} (hx : ∃ a ∈ l, price a ≤ x)
    (ht : t ≤ weighing weight (price · ≤ x) l) : p ≤ x := by
  -- the largest price named that is at most `x`
  obtain ⟨a, ha, hle, hmax⟩ := exists_max price hx
  refine (h.least a ha (ht.trans (weighing_mono fun b hb hbx ↦ ?_))).trans hle
  exact hmax b hb hbx

/-- At a higher threshold there is no lower quantile. -/
theorem mono (h : IsQuantile price weight l t p) (h' : IsQuantile price weight l t' p')
    (ht : t ≤ t') : p ≤ p' := by
  obtain ⟨a, ha, rfl⟩ := h'.occurs
  exact h.least a ha (ht.trans h'.reaches)

theorem unique (h : IsQuantile price weight l t p) (h' : IsQuantile price weight l t p') : p = p' :=
  le_antisymm (h.mono h' le_rfl) (h'.mono h le_rfl)

theorem perm (h : IsQuantile price weight l t p) (hperm : l.Perm l') :
    IsQuantile price weight l' t p := by
  refine ⟨?_, ?_, ?_⟩
  · obtain ⟨a, ha, hp⟩ := h.occurs
    exact ⟨a, hperm.mem_iff.mp ha, hp⟩
  · rw [← weighing_perm hperm]
    exact h.reaches
  · intro a ha ht
    rw [← weighing_perm hperm] at ht
    exact h.least a (hperm.mem_iff.mpr ha) ht

/-- Where no price is lowered, neither is the quantile. -/
theorem raise (h : IsQuantile price weight l t p) (h' : IsQuantile price weight l' t p')
    (hraise : Raised price weight l l') : p ≤ p' := by
  refine h.le_of_weighing ?_ (h'.reaches.trans (hraise.weighing_le p'))
  obtain ⟨b, hb, rfl⟩ := h'.occurs
  exact hraise.exists_left hb

/-- A coalition below the threshold does not move the quantile below the others. -/
theorem exists_le (h : IsQuantile price weight l t p) {S : ι → Prop} [DecidablePred S]
    (hS : weighing weight S l < t) : ∃ a ∈ l, ¬ S a ∧ price a ≤ p := by
  by_contra hnone
  have hle : weighing weight (price · ≤ p) l ≤ weighing weight S l := by
    refine weighing_mono fun a ha hap ↦ ?_
    by_contra hSa
    exact hnone ⟨a, ha, hSa, hap⟩
  have := h.reaches
  omega

/-- Others that weigh the threshold do not leave the quantile above them. -/
theorem exists_ge (h : IsQuantile price weight l t p) {S : ι → Prop} [DecidablePred S]
    (hsome : ∃ a ∈ l, ¬ S a) (hothers : t ≤ weighing weight (fun a ↦ ¬ S a) l) :
    ∃ a ∈ l, ¬ S a ∧ p ≤ price a := by
  obtain ⟨a, ha, hSa, hmax⟩ := exists_max price hsome
  exact ⟨a, ha, hSa, h.least a ha (hothers.trans (weighing_mono hmax))⟩

end IsQuantile

/-! ## A loop over sorted voters -/

/-- The price at which the weights, from `cum` on, reach the threshold. -/
def firstReaching (price : ι → α) (weight : ι → Nat) (t : Nat) : Nat → List ι → Option α
  | _, [] => none
  | cum, a :: l =>
    if t ≤ cum + weight a then some (price a) else firstReaching price weight t (cum + weight a) l

/-- The loop behind voters that do not reach the threshold comes out with the quantile of all. -/
theorem isQuantile_firstReaching {t : Nat} {pre l : List ι} {p : α}
    (hsorted : (pre ++ l).Pairwise fun a b ↦ price a ≤ price b)
    (hpre : pre ≠ [] → (pre.map weight).sum < t)
    (h : firstReaching price weight t (pre.map weight).sum l = some p) :
    IsQuantile price weight (pre ++ l) t p := by
  induction l generalizing pre with
  | nil => cases h
  | cons a l ih =>
    have hsum : (pre.map weight).sum + weight a = ((pre ++ [a]).map weight).sum := by simp
    have happend : pre ++ a :: l = (pre ++ [a]) ++ l := by simp
    rw [firstReaching] at h
    split at h
    · rename_i hreach
      cases h
      obtain ⟨-, htail, hcross⟩ := List.pairwise_append.mp hsorted
      have hbelow : ∀ b ∈ pre, price b ≤ price a := fun b hb ↦ hcross b hb a List.mem_cons_self
      have habove : ∀ b ∈ a :: l, price a ≤ price b := by
        rintro b (_ | ⟨_, hb⟩)
        · exact le_rfl
        · exact List.rel_of_pairwise_cons htail hb
      refine ⟨⟨a, List.mem_append_right pre List.mem_cons_self, rfl⟩, ?_, ?_⟩
      · rw [weighing_append, weighing_eq_sum hbelow, weighing_cons, if_pos le_rfl]
        omega
      · intro b hb hreach'
        by_contra hlt
        rw [not_le] at hlt
        have hbpre : b ∈ pre := by
          rcases List.mem_append.mp hb with hb | hb
          · exact hb
          · exact absurd (habove b hb) (not_le.mpr hlt)
        have hnone : weighing weight (price · ≤ price b) (a :: l) = 0 :=
          weighing_eq_zero fun c hc hcb ↦ absurd ((habove c hc).trans hcb) (not_le.mpr hlt)
        have hsome : weighing weight (price · ≤ price b) pre ≤ (pre.map weight).sum :=
          weighing_le_sum pre
        have hshort := hpre (List.ne_nil_of_mem hbpre)
        rw [weighing_append, hnone] at hreach'
        omega
    · rename_i hshort
      rw [happend] at hsorted ⊢
      rw [hsum] at h hshort
      exact ih hsorted (fun _ ↦ not_le.mp hshort) h

omit [LinearOrder α] in
theorem isSome_firstReaching {t cum : Nat} {l : List ι} (hne : l ≠ [])
    (ht : t ≤ cum + (l.map weight).sum) : (firstReaching price weight t cum l).isSome := by
  induction l generalizing cum with
  | nil => exact absurd rfl hne
  | cons a l ih =>
    rw [firstReaching]
    split
    · rfl
    · rename_i hshort
      rw [List.map_cons, List.sum_cons] at ht
      refine ih ?_ (by omega)
      rintro rfl
      rw [List.map_nil, List.sum_nil] at ht
      omega

end Yew.Quantile
