import Yew.Util.Text
import Mathlib.Tactic

/-!
# Decimals

What a text of digits says: an integer with an optional sign, and a decimal with an optional sign, a
point somewhere among its digits and an optional exponent.
-/

namespace Yew.Decimal

open Text

/-! ## Reading -/

/-- `str::split_once`: what stands before the first such character, and what stands behind it. -/
def splitOnce (p : Char → Bool) : List Char → Option (List Char × List Char)
  | [] => none
  | c :: cs => if p c then some ([], cs) else (splitOnce p cs).map fun s ↦ (c :: s.1, s.2)

/-- The digits before and behind the point. -/
def parts (cs : List Char) : List Char × List Char := (splitOnce (· = '.') cs).getD (cs, [])

/-- The characters an exponent begins with. -/
def isE (c : Char) : Bool := c = 'e' || c = 'E'

/-- At least one digit, and only digits. -/
def natural? (cs : List Char) : Option Nat := if cs = [] then none else digits? decDigit? 10 0 cs

/-- A natural number with an optional sign. -/
def integer? : List Char → Option Int
  | '-' :: cs => (natural? cs).map fun n : Nat ↦ -(n : Int)
  | '+' :: cs => (natural? cs).map fun n : Nat ↦ (n : Int)
  | cs => (natural? cs).map fun n : Nat ↦ (n : Int)

/-- Digits with at most one point among them, times a power of ten. -/
def scaled? (cs : List Char) (exp : Int) : Option ℚ :=
  (natural? ((parts cs).1 ++ (parts cs).2)).map fun n : Nat ↦
    (n : ℚ) * 10 ^ (exp - (parts cs).2.length)

/-- A decimal without a sign. -/
def unsigned? (cs : List Char) : Option ℚ :=
  match splitOnce isE cs with
  | some (mant, exp) => (integer? exp).bind (scaled? mant)
  | none => scaled? cs 0

/-- The decimal a text spells. -/
def value? : List Char → Option ℚ
  | '-' :: cs => (unsigned? cs).map fun q ↦ -q
  | '+' :: cs => unsigned? cs
  | cs => unsigned? cs

/-- `str::parse` for the signed integers of some width. -/
def parseSigned (bits : Nat) (cs : List Char) : Option Int :=
  (integer? cs).filter fun n ↦ -2 ^ (bits - 1) ≤ n ∧ n < 2 ^ (bits - 1)

/-! ## Splitting -/

theorem splitOnce_eq_none {p : Char → Bool} {cs : List Char} :
    splitOnce p cs = none ↔ ∀ c ∈ cs, p c = false := by
  induction cs with
  | nil => simp [splitOnce]
  | cons c cs ih =>
    rw [splitOnce, List.forall_mem_cons, ← ih]
    cases p c with
    | true => simp
    | false => simp

theorem splitOnce_append {p : Char → Bool} {as : List Char} (ha : ∀ c ∈ as, p c = false)
    {c : Char} (hc : p c = true) (bs : List Char) :
    splitOnce p (as ++ c :: bs) = some (as, bs) := by
  induction as with
  | nil => exact if_pos hc
  | cons a as ih =>
    obtain ⟨h, has⟩ := List.forall_mem_cons.mp ha
    rw [List.cons_append, splitOnce, h, ih has]
    rfl

theorem toNat_of_isDigit {c : Char} (h : c.isDigit) : 48 ≤ c.toNat ∧ c.toNat ≤ 57 := by
  rw [Char.isDigit, Bool.and_eq_true, decide_eq_true_eq, decide_eq_true_eq] at h
  exact h

theorem isDigit_ne_point {c : Char} (h : c.isDigit) : decide (c = '.') = false := by
  refine decide_eq_false ?_
  rintro rfl
  cases h

theorem isE_of_isDigit {c : Char} (h : c.isDigit) : isE c = false := by
  rw [isE, Bool.or_eq_false_iff]
  constructor <;> refine decide_eq_false ?_ <;> rintro rfl <;> cases h

/-- Digits, a point and digits are split at the point. -/
theorem parts_point {as : List Char} (ha : ∀ c ∈ as, c.isDigit) (bs : List Char) :
    parts (as ++ '.' :: bs) = (as, bs) := by
  rw [parts, splitOnce_append (fun c hc ↦ isDigit_ne_point (ha c hc)) (decide_eq_true rfl)]
  rfl

/-! ## Digits -/

theorem isWhitespace_of_isDigit {c : Char} (h : c.isDigit) : isWhitespace c = false := by
  obtain ⟨hlo, hhi⟩ := toNat_of_isDigit h
  rw [isWhitespace]
  generalize c.toNat = n at hlo hhi
  interval_cases n <;> rfl

theorem byteLen_of_isDigit {cs : List Char} (h : ∀ c ∈ cs, c.isDigit) : byteLen cs = cs.length := by
  induction cs with
  | nil => rfl
  | cons c cs ih =>
    obtain ⟨hc, hcs⟩ := List.forall_mem_cons.mp h
    have hhi : c.val ≤ 57 := (toNat_of_isDigit hc).2
    have hsize : c.utf8Size = 1 := if_pos (UInt32.le_trans hhi (by decide))
    rw [byteLen, List.map_cons, List.sum_cons, hsize, List.length_cons, Nat.add_comm]
    exact congrArg (· + 1) (ih hcs)

theorem natural?_of_isDigit {cs : List Char} (hne : cs ≠ []) (h : ∀ c ∈ cs, c.isDigit) :
    natural? cs = some (Nat.ofDigitChars 10 cs 0) := by
  rw [natural?, if_neg hne, digits?_of_isDigit h]

theorem natural?_sign {c : Char} (h : decDigit? c = none) (cs : List Char) :
    natural? (c :: cs) = none := by
  rw [natural?, if_neg (List.cons_ne_nil c cs), digits?, h]

theorem integer?_of_isDigit {cs : List Char} (hne : cs ≠ []) (h : ∀ c ∈ cs, c.isDigit) :
    integer? cs = some (Nat.ofDigitChars 10 cs 0 : Int) := by
  obtain ⟨c, cs, rfl⟩ := List.exists_cons_of_ne_nil hne
  have hc : c.isDigit := h c List.mem_cons_self
  have hplus : c ≠ '+' := by rintro rfl; cases hc
  have hminus : c ≠ '-' := by rintro rfl; cases hc
  unfold integer?
  split
  · rename_i heq
    exact absurd (List.cons.inj heq).1 hminus
  · rename_i heq
    exact absurd (List.cons.inj heq).1 hplus
  · rw [natural?_of_isDigit hne h]
    rfl

/-- The digits before the point weigh as much more as there are digits behind it. -/
theorem ofDigitChars_parts (as bs : List Char) : Nat.ofDigitChars 10 (as ++ bs) 0 =
    Nat.ofDigitChars 10 as 0 * 10 ^ bs.length + Nat.ofDigitChars 10 bs 0 := by
  rw [Nat.ofDigitChars_append, Nat.ofDigitChars_eq_ofDigitChars_zero, Nat.mul_comm]

theorem ofDigitChars_lt {cs : List Char} (h : ∀ c ∈ cs, c.isDigit) :
    Nat.ofDigitChars 10 cs 0 < 10 ^ cs.length := by
  induction cs with
  | nil => decide
  | cons c cs ih =>
    obtain ⟨hc, hcs⟩ := List.forall_mem_cons.mp h
    have hdigit : c.toNat - '0'.toNat ≤ 9 := Nat.sub_le_sub_right (toNat_of_isDigit hc).2 48
    have hrest := ih hcs
    rw [Nat.ofDigitChars_cons, Nat.ofDigitChars_eq_ofDigitChars_zero, List.length_cons, pow_succ]
    nlinarith

/-! ## Signs -/

theorem unsigned?_sign {c : Char} (hE : isE c = false) (hpoint : c ≠ '.')
    (hdigit : decDigit? c = none) (cs : List Char) : unsigned? (c :: cs) = none := by
  have hscaled (cs : List Char) (exp : Int) : scaled? (c :: cs) exp = none := by
    have hparts : ∃ as, (parts (c :: cs)).1 = c :: as := by
      rw [parts, splitOnce, decide_eq_false hpoint]
      cases splitOnce (· = '.') cs with
      | none => exact ⟨cs, rfl⟩
      | some s => exact ⟨s.1, rfl⟩
    obtain ⟨as, has⟩ := hparts
    rw [scaled?, has, List.cons_append, natural?_sign hdigit]
    rfl
  rw [unsigned?, splitOnce, hE]
  cases splitOnce isE cs with
  | none => exact hscaled cs 0
  | some s =>
    show (integer? s.2).bind (scaled? (c :: s.1)) = none
    cases integer? s.2 with
    | none => rfl
    | some n => exact hscaled s.1 n

/-- What is a decimal without a sign is that decimal. -/
theorem value?_of_unsigned? {cs : List Char} {q : ℚ} (h : unsigned? cs = some q) :
    value? cs = some q := by
  unfold value?
  split
  · rw [unsigned?_sign (by decide) (by decide) (by decide)] at h
    cases h
  · rw [unsigned?_sign (by decide) (by decide) (by decide)] at h
    cases h
  · exact h

theorem unsigned?_nonneg {cs : List Char} {q : ℚ} (h : unsigned? cs = some q) : 0 ≤ q := by
  have hscaled {cs : List Char} {exp : Int} {q : ℚ} (h : scaled? cs exp = some q) : 0 ≤ q := by
    obtain ⟨n, -, rfl⟩ := Option.map_eq_some_iff.mp h
    exact mul_nonneg (Nat.cast_nonneg n) (zpow_nonneg (by norm_num) _)
  rw [unsigned?] at h
  split at h
  · obtain ⟨n, -, hn⟩ := Option.bind_eq_some_iff.mp h
    exact hscaled hn
  · exact hscaled h

end Yew.Decimal
