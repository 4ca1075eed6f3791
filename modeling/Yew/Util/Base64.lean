import Mathlib.Data.List.Basic
import Yew.Util.Text

/-!
# Base64

Three bytes as four letters, and a last group of one or two bytes padded with `=`.  The decoder takes
canonical texts only: padding where it belongs, and no bit set that no byte uses.  So a text decodes
to exactly the bytes that it encodes.
-/

namespace Yew.Base64

/-- The letters, by value. -/
def letters : List Char :=
  "ABCDEFGHIJKLMNOPQRSTUVWXYZabcdefghijklmnopqrstuvwxyz0123456789+/".toList

/-- The letter of a value. -/
def letter (d : Nat) : Char := letters.getD d '='

/-- The value of a letter. -/
def digit? (c : Char) : Option Nat := letters.findIdx? fun l ↦ l = c

theorem digit?_letter {d : Nat} (h : d < 64) : digit? (letter d) = some d := by
  revert d
  decide +kernel

theorem letter_ne_pad {d : Nat} (h : d < 64) : letter d ≠ '=' := by
  revert d
  decide +kernel

theorem digit?_eq_some {c : Char} {d : Nat} (h : digit? c = some d) : d < 64 ∧ letter d = c := by
  obtain ⟨hlt, heq, -⟩ := List.findIdx?_eq_some_iff_getElem.mp h
  have hlen : letters.length = 64 := by decide +kernel
  refine ⟨hlen ▸ hlt, ?_⟩
  rw [letter, List.getD_eq_getElem?_getD, List.getElem?_eq_getElem hlt]
  simpa using heq

/-! ## Groups -/

/-- `Engine::encode`. -/
def encode : Bytes → List Char
  | [] => []
  | [a] => [letter (a.toNat / 4), letter (a.toNat % 4 * 16), '=', '=']
  | [a, b] => [letter (a.toNat / 4), letter (a.toNat % 4 * 16 + b.toNat / 16),
      letter (b.toNat % 16 * 4), '=']
  | a :: b :: c :: rest => letter (a.toNat / 4) :: letter (a.toNat % 4 * 16 + b.toNat / 16) ::
      letter (b.toNat % 16 * 4 + c.toNat / 64) :: letter (c.toNat % 64) :: encode rest

/-- The byte of a last group of one. -/
def decodeOne (c₀ c₁ : Char) : Option Bytes := do
  let d₀ ← digit? c₀
  let d₁ ← digit? c₁
  if d₁ % 16 = 0 then return [UInt8.ofNat (d₀ * 4 + d₁ / 16)] else none

/-- The bytes of a last group of two. -/
def decodeTwo (c₀ c₁ c₂ : Char) : Option Bytes := do
  let d₀ ← digit? c₀
  let d₁ ← digit? c₁
  let d₂ ← digit? c₂
  if d₂ % 4 = 0 then return [UInt8.ofNat (d₀ * 4 + d₁ / 16), UInt8.ofNat (d₁ % 16 * 16 + d₂ / 4)]
  else none

/-- The bytes of a full group. -/
def decodeThree (c₀ c₁ c₂ c₃ : Char) : Option Bytes := do
  let d₀ ← digit? c₀
  let d₁ ← digit? c₁
  let d₂ ← digit? c₂
  let d₃ ← digit? c₃
  return [UInt8.ofNat (d₀ * 4 + d₁ / 16), UInt8.ofNat (d₁ % 16 * 16 + d₂ / 4),
    UInt8.ofNat (d₂ % 4 * 64 + d₃)]

/-- `Engine::decode` of the standard alphabet with canonical padding. -/
def decode : List Char → Option Bytes
  | [] => some []
  | c₀ :: c₁ :: c₂ :: c₃ :: rest =>
    if c₃ = '=' then
      if rest ≠ [] then none
      else if c₂ = '=' then decodeOne c₀ c₁
      else decodeTwo c₀ c₁ c₂
    else do
      let group ← decodeThree c₀ c₁ c₂ c₃
      let bytes ← decode rest
      return group ++ bytes
  | _ => none

/-! ## A text decodes to what it encodes -/

theorem decodeOne_eq_some {c₀ c₁ : Char} {b : Bytes} (h : decodeOne c₀ c₁ = some b) :
    ∃ a, b = [a] ∧ c₀ = letter (a.toNat / 4) ∧ c₁ = letter (a.toNat % 4 * 16) := by
  obtain ⟨d₀, h₀, hb₀⟩ := Option.bind_eq_some_iff.mp h
  obtain ⟨d₁, h₁, hb⟩ := Option.bind_eq_some_iff.mp hb₀
  obtain ⟨hd₀, rfl⟩ := digit?_eq_some h₀
  obtain ⟨hd₁, rfl⟩ := digit?_eq_some h₁
  split at hb
  · rename_i hzero
    refine ⟨_, (Option.some.inj hb).symm, ?_, ?_⟩ <;> congr 1 <;> simp only [UInt8.toNat_ofNat'] <;>
      omega
  · cases hb

theorem decodeTwo_eq_some {c₀ c₁ c₂ : Char} {b : Bytes} (h : decodeTwo c₀ c₁ c₂ = some b) :
    ∃ a a', b = [a, a'] ∧ c₀ = letter (a.toNat / 4) ∧
      c₁ = letter (a.toNat % 4 * 16 + a'.toNat / 16) ∧ c₂ = letter (a'.toNat % 16 * 4) := by
  obtain ⟨d₀, h₀, hb₀⟩ := Option.bind_eq_some_iff.mp h
  obtain ⟨d₁, h₁, hb₁⟩ := Option.bind_eq_some_iff.mp hb₀
  obtain ⟨d₂, h₂, hb⟩ := Option.bind_eq_some_iff.mp hb₁
  obtain ⟨hd₀, rfl⟩ := digit?_eq_some h₀
  obtain ⟨hd₁, rfl⟩ := digit?_eq_some h₁
  obtain ⟨hd₂, rfl⟩ := digit?_eq_some h₂
  split at hb
  · rename_i hzero
    refine ⟨_, _, (Option.some.inj hb).symm, ?_, ?_, ?_⟩ <;> congr 1 <;>
      simp only [UInt8.toNat_ofNat'] <;> omega
  · cases hb

theorem decodeThree_eq_some {c₀ c₁ c₂ c₃ : Char} {b : Bytes} (h : decodeThree c₀ c₁ c₂ c₃ = some b) :
    ∃ a a' a'', b = [a, a', a''] ∧ c₀ = letter (a.toNat / 4) ∧
      c₁ = letter (a.toNat % 4 * 16 + a'.toNat / 16) ∧
      c₂ = letter (a'.toNat % 16 * 4 + a''.toNat / 64) ∧ c₃ = letter (a''.toNat % 64) := by
  obtain ⟨d₀, h₀, hb₀⟩ := Option.bind_eq_some_iff.mp h
  obtain ⟨d₁, h₁, hb₁⟩ := Option.bind_eq_some_iff.mp hb₀
  obtain ⟨d₂, h₂, hb₂⟩ := Option.bind_eq_some_iff.mp hb₁
  obtain ⟨d₃, h₃, hb⟩ := Option.bind_eq_some_iff.mp hb₂
  obtain ⟨hd₀, rfl⟩ := digit?_eq_some h₀
  obtain ⟨hd₁, rfl⟩ := digit?_eq_some h₁
  obtain ⟨hd₂, rfl⟩ := digit?_eq_some h₂
  obtain ⟨hd₃, rfl⟩ := digit?_eq_some h₃
  refine ⟨_, _, _, (Option.some.inj hb).symm, ?_, ?_, ?_, ?_⟩ <;> congr 1 <;>
    simp only [UInt8.toNat_ofNat'] <;> omega

/-- What a text decodes to encodes as the text. -/
theorem encode_of_decode {cs : List Char} {b : Bytes} (h : decode cs = some b) : encode b = cs := by
  induction cs using decode.induct generalizing b with
  | case1 =>
    cases h
    rfl
  | case2 c₀ c₁ c₂ rest hrest =>
    rw [decode, if_pos rfl, if_pos hrest] at h
    cases h
  | case3 c₀ c₁ rest hrest =>
    obtain rfl := not_not.mp hrest
    obtain ⟨a, rfl, rfl, rfl⟩ := decodeOne_eq_some h
    rfl
  | case4 c₀ c₁ c₂ rest hrest hpad =>
    obtain rfl := not_not.mp hrest
    rw [decode, if_pos rfl, if_neg hrest, if_neg hpad] at h
    obtain ⟨a, a', rfl, rfl, rfl, rfl⟩ := decodeTwo_eq_some h
    rfl
  | case5 c₀ c₁ c₂ c₃ rest hpad ih =>
    rw [decode, if_neg hpad] at h
    obtain ⟨group, hgroup, hb⟩ := Option.bind_eq_some_iff.mp h
    obtain ⟨bytes, hbytes, hb⟩ := Option.bind_eq_some_iff.mp hb
    obtain ⟨a, a', a'', rfl, rfl, rfl, rfl, rfl⟩ := decodeThree_eq_some hgroup
    cases hb
    rw [List.cons_append, List.cons_append, List.cons_append, List.nil_append, encode, ih hbytes]
  | case6 cs hnil hfour =>
    rw [decode] at h
    · cases h
    · exact hnil
    · exact hfour

/-- The text of some bytes decodes to them. -/
theorem decode_encode (b : Bytes) : decode (encode b) = some b := by
  have hbyte (a : UInt8) : a.toNat < 256 := a.toNat_lt
  induction b using encode.induct with
  | case1 => rfl
  | case2 a =>
    have ha := hbyte a
    rw [encode, decode, if_pos rfl, if_neg (not_not.mpr rfl), if_pos rfl, decodeOne,
      digit?_letter (by omega), digit?_letter (by omega)]
    simp only [bind, Option.bind_some]
    rw [if_pos (by omega)]
    congr 2
    refine UInt8.toNat_inj.mp ?_
    simp only [UInt8.toNat_ofNat']
    omega
  | case3 a a' =>
    have ha := hbyte a
    have ha' := hbyte a'
    rw [encode, decode, if_pos rfl, if_neg (not_not.mpr rfl), if_neg (letter_ne_pad (by omega)),
      decodeTwo, digit?_letter (by omega), digit?_letter (by omega), digit?_letter (by omega)]
    simp only [bind, Option.bind_some]
    rw [if_pos (by omega)]
    refine congrArg some (List.cons_eq_cons.mpr ⟨?_, List.cons_eq_cons.mpr ⟨?_, rfl⟩⟩) <;>
      refine UInt8.toNat_inj.mp ?_ <;> simp only [UInt8.toNat_ofNat'] <;> omega
  | case4 a a' a'' rest ih =>
    have ha := hbyte a
    have ha' := hbyte a'
    have ha'' := hbyte a''
    rw [encode, decode, if_neg (letter_ne_pad (by omega)), decodeThree, digit?_letter (by omega),
      digit?_letter (by omega), digit?_letter (by omega), digit?_letter (by omega), ih]
    refine congrArg some (List.cons_eq_cons.mpr ⟨?_, List.cons_eq_cons.mpr ⟨?_,
      List.cons_eq_cons.mpr ⟨?_, rfl⟩⟩⟩) <;>
      refine UInt8.toNat_inj.mp ?_ <;> simp only [UInt8.toNat_ofNat'] <;> omega

/-- No letter is white space, nor is the padding. -/
theorem not_whitespace {b : Bytes} {c : Char} (h : c ∈ encode b) : ¬ Text.isWhitespace c = true := by
  have hletter {d : Nat} (hd : d < 64) : ¬ Text.isWhitespace (letter d) = true := by
    revert d
    decide +kernel
  have hpad : ¬ Text.isWhitespace '=' = true := by decide +kernel
  have hbyte (a : UInt8) : a.toNat < 256 := a.toNat_lt
  induction b using encode.induct with
  | case1 => cases h
  | case2 a =>
    have ha := hbyte a
    simp only [encode, List.mem_cons, List.not_mem_nil, or_false] at h
    rcases h with rfl | rfl | rfl | rfl
    · exact hletter (by omega)
    · exact hletter (by omega)
    · exact hpad
    · exact hpad
  | case3 a a' =>
    have ha := hbyte a
    have ha' := hbyte a'
    simp only [encode, List.mem_cons, List.not_mem_nil, or_false] at h
    rcases h with rfl | rfl | rfl | rfl
    · exact hletter (by omega)
    · exact hletter (by omega)
    · exact hletter (by omega)
    · exact hpad
  | case4 a a' a'' rest ih =>
    have ha := hbyte a
    have ha' := hbyte a'
    have ha'' := hbyte a''
    simp only [encode, List.mem_cons] at h
    rcases h with rfl | rfl | rfl | rfl | h
    · exact hletter (by omega)
    · exact hletter (by omega)
    · exact hletter (by omega)
    · exact hletter (by omega)
    · exact ih h

theorem decode_eq_some_iff {cs : List Char} {b : Bytes} : decode cs = some b ↔ cs = encode b := by
  constructor
  · exact fun h ↦ (encode_of_decode h).symm
  · rintro rfl
    exact decode_encode b

end Yew.Base64
