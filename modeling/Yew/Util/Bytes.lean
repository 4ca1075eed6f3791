import Mathlib.Data.Vector.Basic

/-!
# Bytes and fixed-width integers on the wire

Byte strings are lists of `UInt8`; a fixed-size array is a `List.Vector`, so its length is part
of its type.  Integers are written little-endian, least significant byte first.
-/

namespace Yew

/-- A byte string. -/
abbrev Bytes := List UInt8

/-- A byte array of fixed length. -/
abbrev Arr (n : Nat) := List.Vector UInt8 n

instance instLawfulBEqArr33 : LawfulBEq (Arr 33) := inferInstance

namespace Bytes

/-- The low `k` bytes of `n`, least significant first. -/
def leOfNat : Nat → Nat → Bytes
  | 0, _ => []
  | k + 1, n => UInt8.ofNat (n % 256) :: leOfNat k (n / 256)

/-- The number a little-endian byte string spells. -/
def leToNat : Bytes → Nat
  | [] => 0
  | b :: bs => b.toNat + 256 * leToNat bs

/-- The first `n` bytes and the rest, if there are that many (`slice::get(..n)`). -/
def split? (n : Nat) (b : Bytes) : Option (Bytes × Bytes) :=
  if n ≤ b.length then some (b.take n, b.drop n) else none

theorem split?_eq_some {n : Nat} {b u v : Bytes} :
    split? n b = some (u, v) ↔ b = u ++ v ∧ u.length = n := by
  unfold split?
  constructor
  · intro h
    split at h
    · rename_i hn
      simp only [Option.some.injEq, Prod.mk.injEq] at h
      obtain ⟨rfl, rfl⟩ := h
      exact ⟨(List.take_append_drop n b).symm, by simp [hn]⟩
    · cases h
  · rintro ⟨rfl, rfl⟩
    simp

/-- The array of exactly the bytes of `b`, if it has `n` of them (`try_into`). -/
def toArr? (n : Nat) (b : Bytes) : Option (Arr n) :=
  if h : b.length = n then some ⟨b, h⟩ else none

theorem toArr?_eq_some {n : Nat} {b : Bytes} {a : Arr n} :
    toArr? n b = some a ↔ b = a.toList := by
  unfold toArr?
  constructor
  · intro h
    split at h
    · cases h; rfl
    · cases h
  · rintro rfl
    rw [dif_pos a.toList_length]
    rfl

@[simp] theorem toArr?_toList {n : Nat} (a : Arr n) : toArr? n a.toList = some a :=
  toArr?_eq_some.mpr rfl

@[simp] theorem length_leOfNat (k n : Nat) : (leOfNat k n).length = k := by
  induction k generalizing n with
  | zero => rfl
  | succ k ih => simp [leOfNat, ih]

/-- A number that fits is read back. -/
theorem leToNat_leOfNat {k n : Nat} (h : n < 256 ^ k) : leToNat (leOfNat k n) = n := by
  induction k generalizing n with
  | zero =>
    simp only [pow_zero, Nat.lt_one_iff] at h
    simp [leOfNat, leToNat, h]
  | succ k ih =>
    have hdiv : n / 256 < 256 ^ k := Nat.div_lt_of_lt_mul (by rwa [← pow_succ'])
    simp only [leOfNat, leToNat, ih hdiv, UInt8.toNat_ofNat']
    omega

theorem leToNat_lt (b : Bytes) : leToNat b < 256 ^ b.length := by
  induction b with
  | nil => simp [leToNat]
  | cons x b ih =>
    have hx : x.toNat < 256 := x.toNat_lt
    rw [leToNat, List.length_cons, pow_succ']
    omega

/-- Bytes are written back as they were read. -/
theorem leOfNat_leToNat (b : Bytes) : leOfNat b.length (leToNat b) = b := by
  induction b with
  | nil => rfl
  | cons x b ih =>
    have hx : x.toNat < 256 := x.toNat_lt
    have hmod : (x.toNat + 256 * leToNat b) % 256 = x.toNat := by omega
    have hdiv : (x.toNat + 256 * leToNat b) / 256 = leToNat b := by omega
    rw [List.length_cons, leToNat, leOfNat, hmod, hdiv, ih]
    simp

/-- A prefix of the right length is split off. -/
theorem split?_append {n : Nat} {u : Bytes} (v : Bytes) (h : u.length = n) :
    split? n (u ++ v) = some (u, v) :=
  split?_eq_some.mpr ⟨rfl, h⟩

end Bytes

namespace Arr

/-- The array with its bytes in the opposite order. -/
def rev {n : Nat} (a : Arr n) : Arr n := ⟨a.toList.reverse, by simp⟩

@[simp] theorem toList_rev {n : Nat} (a : Arr n) : a.rev.toList = a.toList.reverse := rfl

@[simp] theorem rev_rev {n : Nat} (a : Arr n) : a.rev.rev = a := by
  apply List.Vector.toList_injective
  simp

end Arr

end Yew
