import Yew.Util.Text

/-!
# Arithmetic that may not overflow

A sum or a product of a machine type is computed as an integer and has to lie in the range of the
type; outside, the call panics.  A build that wraps instead computes the same as long as nothing
panics, so that a call that is safe means the same in both.

`Safe x P` is the specification of a call: it does not panic, and what it returns satisfies `P`.
-/

namespace Yew.Checked

variable {ε α β : Type}

/-- An integer of a type that holds those from `lo` on and below `hi`. -/
def within (lo hi n : Int) : Except (Halt ε) Int :=
  if lo ≤ n ∧ n < hi then .ok n else .error .panic

/-- A value of type `i64`. -/
def i64 (n : Int) : Except (Halt ε) Int := within (-9223372036854775808) 9223372036854775808 n

/-- A value of type `u64`. -/
def u64 (n : Int) : Except (Halt ε) Int := within 0 18446744073709551616 n

/-- A value of type `u128`. -/
def u128 (n : Int) : Except (Halt ε) Int := within 0 340282366920938463463374607431768211456 n

/-- A saturating result of type `i64`. -/
def saturate (n : Int) : Int := max (-9223372036854775808) (min n 9223372036854775807)

/-- A call does not panic, and what it returns satisfies `P`. -/
inductive Safe : Except (Halt ε) α → (α → Prop) → Prop
  | of_ok {P : α → Prop} {a : α} (h : P a) : Safe (.ok a) P
  | of_error {P : α → Prop} (e : ε) : Safe (.error (.error e)) P

namespace Safe

variable {x : Except (Halt ε) α} {P Q : α → Prop}

theorem ne_panic (h : Safe x P) : x ≠ .error .panic := by
  rintro rfl
  cases h

theorem of_eq_ok (h : Safe x P) {a : α} (hx : x = .ok a) : P a := by
  subst hx
  cases h with
  | of_ok h => exact h

theorem bind {f : α → Except (Halt ε) β} {R : β → Prop} (hx : Safe x P)
    (hf : ∀ a, P a → Safe (f a) R) : Safe (x >>= f) R := by
  cases hx with
  | of_ok h => exact hf _ h
  | of_error e => exact .of_error e

/-- After a check that refuses. -/
theorem guard {c : Prop} [Decidable c] {e : ε} (h : ¬ c → Safe x P) :
    Safe (if c then .error (.error e) else x) P := by
  split_ifs with hc
  · exact .of_error e
  · exact h hc

theorem ite {c : Prop} [Decidable c] {y : Except (Halt ε) α} (hx : c → Safe x P)
    (hy : ¬ c → Safe y P) : Safe (if c then x else y) P := by
  split_ifs with hc
  · exact hx hc
  · exact hy hc

theorem within {lo hi n : Int} (h : lo ≤ n ∧ n < hi) :
    Safe (Checked.within lo hi n : Except (Halt ε) Int) (· = n) := by
  rw [Checked.within, if_pos h]
  exact .of_ok rfl

theorem i64 {n : Int} (h : -9223372036854775808 ≤ n ∧ n < 9223372036854775808) :
    Safe (Checked.i64 n : Except (Halt ε) Int) (· = n) := within h

theorem u64 {n : Int} (h : 0 ≤ n ∧ n < 18446744073709551616) :
    Safe (Checked.u64 n : Except (Halt ε) Int) (· = n) := within h

theorem u128 {n : Int} (h : 0 ≤ n ∧ n < 340282366920938463463374607431768211456) :
    Safe (Checked.u128 n : Except (Halt ε) Int) (· = n) := within h

theorem u128_natCast {n : Nat} (h : n < 340282366920938463463374607431768211456) :
    Safe (Checked.u128 n : Except (Halt ε) Int) (· = (n : Int)) := u128 (by omega)

end Safe

theorem saturate_of_fits {n : Int} (h : -9223372036854775808 ≤ n ∧ n < 9223372036854775808) :
    saturate n = n := by
  unfold saturate
  omega

end Yew.Checked
