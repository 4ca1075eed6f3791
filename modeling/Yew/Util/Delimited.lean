import Mathlib.Data.List.Basic
import Yew.Util.Bytes

/-!
# Writers that say where they end

A hash binds what it is computed over only if the bytes tell the fields apart.  `Delimits write`
says that what follows the bytes of a value never changes which value they are; so fields written
one after another are read off one by one.
-/

namespace Yew.Bytes

variable {α β : Type*}

/-- The bytes of a value are told apart from those of another of its kind, whatever follows. -/
def Delimits (write : α → Bytes) : Prop :=
  ∀ ⦃a b : α⦄ ⦃s t : Bytes⦄, write a ++ s = write b ++ t → a = b ∧ s = t

/-- The same among the values that are `P`. -/
def DelimitsOn (P : α → Prop) (write : α → Bytes) : Prop :=
  ∀ ⦃a b : α⦄, P a → P b → ∀ ⦃s t : Bytes⦄, write a ++ s = write b ++ t → a = b ∧ s = t

theorem Delimits.on {write : α → Bytes} (h : Delimits write) (P : α → Prop) :
    DelimitsOn P write := fun _ _ _ _ _ _ heq ↦ h heq

/-- Bytes of one length, different for different values. -/
theorem Delimits.of_length {write : α → Bytes} {n : Nat} (hlen : ∀ a, (write a).length = n)
    (hinj : Function.Injective write) : Delimits write := by
  intro a b s t h
  obtain ⟨hab, hst⟩ := List.append_inj h ((hlen a).trans (hlen b).symm)
  exact ⟨hinj hab, hst⟩

/-- Values that were written last. -/
theorem Delimits.injective {write : α → Bytes} (h : Delimits write) :
    Function.Injective write := by
  intro a b heq
  exact (h (s := []) (t := []) (by simpa using heq)).1

/-- A list without its length is read off element by element, if no element is empty. -/
theorem DelimitsOn.flatMap {P : α → Prop} {write : α → Bytes} (h : DelimitsOn P write)
    (hne : ∀ a, write a ≠ []) {as bs : List α} (has : ∀ a ∈ as, P a) (hbs : ∀ b ∈ bs, P b)
    (heq : as.flatMap write = bs.flatMap write) : as = bs := by
  induction as generalizing bs with
  | nil =>
    cases bs with
    | nil => rfl
    | cons b bs => simp [hne b] at heq
  | cons a as ih =>
    cases bs with
    | nil => simp [hne a] at heq
    | cons b bs =>
      rw [List.flatMap_cons, List.flatMap_cons] at heq
      obtain ⟨rfl, htail⟩ := h (has a List.mem_cons_self) (hbs b List.mem_cons_self) heq
      rw [ih (fun x hx ↦ has x (List.mem_cons_of_mem a hx))
        (fun x hx ↦ hbs x (List.mem_cons_of_mem a hx)) htail]

/-! ## Fields of fixed width -/

theorem delimits_arr (n : Nat) : Delimits fun a : Arr n ↦ a.toList :=
  .of_length (fun a ↦ a.toList_length) List.Vector.toList_injective

theorem delimits_byte : Delimits fun b : UInt8 ↦ [b] :=
  .of_length (n := 1) (fun _ ↦ rfl) fun _ _ h ↦ (List.cons.inj h).1

/-- Numbers that fit their width. -/
theorem delimits_le {num : α → Nat} {k : Nat} (hinj : Function.Injective num)
    (hlt : ∀ a, num a < 256 ^ k) : Delimits fun a ↦ leOfNat k (num a) := by
  refine .of_length (fun a ↦ length_leOfNat k _) fun a b h ↦ hinj ?_
  have hval := congrArg leToNat h
  rwa [leToNat_leOfNat (hlt a), leToNat_leOfNat (hlt b)] at hval

theorem delimits_u16 : Delimits fun n : UInt16 ↦ leOfNat 2 n.toNat :=
  delimits_le (fun _ _ h ↦ UInt16.toNat_inj.mp h) fun n ↦ n.toNat_lt

theorem delimits_u32 : Delimits fun n : UInt32 ↦ leOfNat 4 n.toNat :=
  delimits_le (fun _ _ h ↦ UInt32.toNat_inj.mp h) fun n ↦ n.toNat_lt

theorem delimits_u64 : Delimits fun n : UInt64 ↦ leOfNat 8 n.toNat :=
  delimits_le (fun _ _ h ↦ UInt64.toNat_inj.mp h) fun n ↦ n.toNat_lt

end Yew.Bytes
