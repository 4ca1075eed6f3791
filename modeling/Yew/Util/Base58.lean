import Mathlib.Data.List.TakeWhile
import Mathlib.Data.Nat.Digits.Lemmas

/-!
# Base58

A word of digits written in another base, with a leading zero kept for each leading zero, and Base58
as that change of base over the 58 letters.
-/

namespace Yew.Base58

/-! ## Another base -/

/-- The digits of a word, most significant first, in another base: one zero for each leading zero,
then the digits of its value. -/
def rebase (b c : Nat) (ds : List Nat) : List Nat :=
  List.replicate (ds.takeWhile (· == 0)).length 0 ++ (Nat.digits c (Nat.ofDigits b ds.reverse)).reverse

theorem takeWhile_eq_replicate (ds : List Nat) :
    ds.takeWhile (· == 0) = List.replicate (ds.takeWhile (· == 0)).length 0 := by
  refine List.eq_replicate_of_mem fun d hd ↦ ?_
  have hzero := List.mem_takeWhile_imp hd
  simpa using hzero

/-- Zeros before a word do not change its value. -/
theorem ofDigits_reverse_replicate_append (b z : Nat) (ds : List Nat) :
    Nat.ofDigits b (List.replicate z 0 ++ ds).reverse = Nat.ofDigits b ds.reverse := by
  rw [List.reverse_append, List.reverse_replicate, Nat.ofDigits_append_replicate_zero]

theorem takeWhile_replicate_append_digits (c z n : Nat) :
    (List.replicate z 0 ++ (Nat.digits c n).reverse).takeWhile (· == 0) = List.replicate z 0 := by
  rw [List.takeWhile_append_of_pos (by simp)]
  suffices h : (Nat.digits c n).reverse.takeWhile (· == 0) = [] by rw [h, List.append_nil]
  rcases eq_or_ne n 0 with rfl | hn
  · simp
  · have hlast := Nat.getLast_digit_ne_zero c hn
    cases hrev : (Nat.digits c n).reverse with
    | nil => rfl
    | cons d ds =>
      have hd : d ≠ 0 := by
        rw [List.getLast_eq_head_reverse] at hlast
        simpa [hrev] using hlast
      simp [hd]

/-- A word is read back from its digits in another base. -/
theorem rebase_rebase {b c : Nat} (hb : 1 < b) {ds : List Nat} (h : ∀ d ∈ ds, d < b) :
    rebase c b (rebase b c ds) = ds := by
  obtain ⟨z, es, hds, hhead⟩ : ∃ z es, ds = List.replicate z 0 ++ es ∧
      ∀ h : es ≠ [], es.head h ≠ 0 := by
    refine ⟨(ds.takeWhile (· == 0)).length, ds.dropWhile (· == 0), ?_, fun h ↦ ?_⟩
    · rw [← takeWhile_eq_replicate, List.takeWhile_append_dropWhile]
    · simpa using List.head_dropWhile_not (· == 0) h
  have hes : ∀ d ∈ es, d < b := fun d hd ↦ h d (by rw [hds]; simp [hd])
  have hzeros : (ds.takeWhile (· == 0)).length = z := by
    rw [hds, List.takeWhile_append_of_pos (by simp)]
    cases es with
    | nil => simp
    | cons e es =>
      have he : e ≠ 0 := hhead (by simp)
      simp [he]
  have hvalue : Nat.ofDigits b ds.reverse = Nat.ofDigits b es.reverse := by
    rw [hds, ofDigits_reverse_replicate_append]
  have hword : rebase b c ds =
      List.replicate z 0 ++ (Nat.digits c (Nat.ofDigits b es.reverse)).reverse := by
    rw [rebase, hzeros, hvalue]
  rw [rebase, hword, takeWhile_replicate_append_digits, ofDigits_reverse_replicate_append,
    List.reverse_reverse, Nat.ofDigits_digits, List.length_replicate,
    Nat.digits_ofDigits b hb _ (by simpa using hes) ?_, List.reverse_reverse, hds]
  intro hne
  rw [List.getLast_reverse]
  exact hhead (by simpa using hne)

theorem rebase_lt {b c : Nat} (hc : 1 < c) {ds : List Nat} : ∀ d ∈ rebase b c ds, d < c := by
  intro d hd
  rcases List.mem_append.mp hd with hd | hd
  · rw [List.eq_of_mem_replicate hd]
    exact Nat.zero_lt_of_lt hc
  · exact Nat.digits_lt_base hc (List.mem_reverse.mp hd)

/-! ## The letters -/

/-- The 58 letters: neither `0`, `O`, `I` nor `l`. -/
def alphabet : List Char :=
  "123456789ABCDEFGHJKLMNPQRSTUVWXYZabcdefghijkmnopqrstuvwxyz".toList

/-- The letter of a digit. -/
def letter (n : Nat) : Char := alphabet.getD n '1'

/-- The digit of a letter. -/
def digit? (c : Char) : Option Nat := alphabet.idxOf? c

theorem digit?_letter : ∀ {n : Nat}, n < 58 → digit? (letter n) = some n := by
  decide +kernel

/-- Base58 of bytes. -/
def encode (bytes : List UInt8) : String :=
  String.ofList ((rebase 256 58 (bytes.map UInt8.toNat)).map letter)

/-- Bytes of a Base58 text. -/
def decode (s : String) : Except String (List UInt8) :=
  match s.toList.mapM digit? with
  | some ds => .ok ((rebase 58 256 ds).map UInt8.ofNat)
  | none => .error "provided string contained invalid character"

theorem mapM_digit?_map_letter {ds : List Nat} (h : ∀ d ∈ ds, d < 58) :
    (ds.map letter).mapM digit? = some ds := by
  induction ds with
  | nil => rfl
  | cons d ds ih =>
    rw [List.map_cons, List.mapM_cons, digit?_letter (h d (by simp)),
      ih fun e he ↦ h e (List.mem_cons_of_mem _ he)]
    rfl

/-- **Base58 is read back.** -/
theorem decode_encode (bytes : List UInt8) : decode (encode bytes) = .ok bytes := by
  have hbytes : ∀ d ∈ bytes.map UInt8.toNat, d < 256 := by
    intro d hd
    obtain ⟨x, -, rfl⟩ := List.mem_map.mp hd
    exact x.toNat_lt
  have hletters : (encode bytes).toList.mapM digit? =
      some (rebase 256 58 (bytes.map UInt8.toNat)) := by
    rw [encode, String.toList_ofList, mapM_digit?_map_letter (rebase_lt (by norm_num))]
  rw [decode, hletters]
  simp only [rebase_rebase (by norm_num : 1 < 256) hbytes, List.map_map, Except.ok.injEq]
  refine List.map_id'' (fun x ↦ ?_) bytes
  exact UInt8.ofNat_toNat

end Yew.Base58
