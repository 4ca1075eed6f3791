import Mathlib.Algebra.BigOperators.Intervals
import Mathlib.Algebra.Order.BigOperators.Group.Finset
import Mathlib.Order.Interval.Finset.Nat

/-!
# Marginal rates

What a sum is charged where each of its units is charged at its own rate, as with tax brackets.  A
charge whose rates fall is subadditive: two sums are never charged less than the one they make up.
-/

namespace Yew.Brackets

/-- The charge for the units from `lo` on and below `hi`, each at its own rate. -/
def charge (rate : Nat → Nat) (lo hi : Nat) : Nat := ∑ x ∈ Finset.Ico lo hi, rate x

section Charge

variable {rate : Nat → Nat}

@[simp] theorem charge_self (lo : Nat) : charge rate lo lo = 0 := by
  rw [charge, Finset.Ico_self, Finset.sum_empty]

theorem charge_of_le {lo hi : Nat} (h : hi ≤ lo) : charge rate lo hi = 0 := by
  rw [charge, Finset.Ico_eq_empty_of_le h, Finset.sum_empty]

theorem charge_append {lo mid hi : Nat} (h : lo ≤ mid) (h' : mid ≤ hi) :
    charge rate lo hi = charge rate lo mid + charge rate mid hi :=
  (Finset.sum_Ico_consecutive rate h h').symm

/-- Where the rate is the same throughout. -/
theorem charge_const {lo hi c : Nat} (h : ∀ x, lo ≤ x → x < hi → rate x = c) :
    charge rate lo hi = (hi - lo) * c := by
  rw [charge, Finset.sum_const_nat (m := c), Nat.card_Ico]
  intro x hx
  obtain ⟨hle, hlt⟩ := Finset.mem_Ico.mp hx
  exact h x hle hlt

/-- Charges at rates that agree. -/
theorem charge_congr {rate' : Nat → Nat} {lo hi : Nat}
    (h : ∀ x, lo ≤ x → x < hi → rate x = rate' x) : charge rate lo hi = charge rate' lo hi := by
  refine Finset.sum_congr rfl fun x hx ↦ ?_
  obtain ⟨hle, hlt⟩ := Finset.mem_Ico.mp hx
  exact h x hle hlt

theorem charge_mono {lo hi hi' : Nat} (h : hi ≤ hi') : charge rate lo hi ≤ charge rate lo hi' :=
  Finset.sum_le_sum_of_subset (Finset.Ico_subset_Ico_right h)

/-- Where no rate is above `c`. -/
theorem charge_le {lo hi c : Nat} (h : ∀ x, rate x ≤ c) : charge rate lo hi ≤ (hi - lo) * c := by
  calc
    charge rate lo hi ≤ charge (fun _ ↦ c) lo hi := Finset.sum_le_sum fun x _ ↦ h x
    _ = (hi - lo) * c := charge_const fun _ _ _ ↦ rfl

/-- At rates that fall, splitting never makes the charge smaller. -/
theorem charge_add_le (hrate : Antitone rate) (a b : Nat) :
    charge rate 0 (a + b) ≤ charge rate 0 a + charge rate 0 b := by
  rw [charge_append (Nat.zero_le a) (Nat.le_add_right a b)]
  refine Nat.add_le_add_left ?_ _
  calc
    charge rate a (a + b) = ∑ x ∈ Finset.Ico 0 b, rate (a + x) := by
      rw [charge, Finset.sum_Ico_add, Nat.zero_add, Nat.add_comm b a]
    _ ≤ charge rate 0 b := Finset.sum_le_sum fun x _ ↦ hrate (Nat.le_add_left x a)

end Charge

/-- A floor keeps a charge subadditive. -/
theorem max_add_le {f a b c : Nat} (h : c ≤ a + b) : max c f ≤ max a f + max b f := by
  omega

end Yew.Brackets
