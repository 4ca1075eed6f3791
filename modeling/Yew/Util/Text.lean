import Yew.Util.Bytes
import Mathlib.Data.List.DropRight
import Mathlib.Tactic.IntervalCases

/-!
# Text as Rust reads it

The string operations the repository uses: trimming, ASCII case, number parsing and hexadecimal.
A Rust `str` is a Lean `String`; its byte length is the length of its UTF-8 encoding, and slicing
it inside a character panics, which `Halt.panic` records.
-/

namespace Yew

/-- Why a Rust call did not return a value: it returned an error, or it panicked. -/
inductive Halt (ε : Type) where
  | error (e : ε)
  | panic
deriving DecidableEq

/-- `Result::map_err` on a call that may also panic. -/
def Halt.mapErr {ε δ α : Type} (f : ε → δ) : Except (Halt ε) α → Except (Halt δ) α
  | .ok a => .ok a
  | .error (.error e) => .error (.error (f e))
  | .error .panic => .error .panic

/-- A call that cannot panic, read as one that may. -/
def Halt.lift {ε α : Type} : Except ε α → Except (Halt ε) α
  | .ok a => .ok a
  | .error e => .error (.error e)

@[simp] theorem Halt.mapErr_eq_ok {ε δ α : Type} {f : ε → δ} {x : Except (Halt ε) α} {a : α} :
    Halt.mapErr f x = .ok a ↔ x = .ok a := by
  cases x with
  | ok b => simp [Halt.mapErr]
  | error e => cases e <;> simp [Halt.mapErr]

@[simp] theorem Halt.lift_eq_ok {ε α : Type} {x : Except ε α} {a : α} :
    Halt.lift x = .ok a ↔ x = .ok a := by
  cases x <;> simp [Halt.lift]

namespace Text

/-- `char::is_whitespace`: Unicode's `White_Space`. -/
def isWhitespace (c : Char) : Bool :=
  let n := c.toNat
  (0x09 ≤ n && n ≤ 0x0d) || n = 0x20 || n = 0x85 || n = 0xa0 || n = 0x1680 ||
    (0x2000 ≤ n && n ≤ 0x200a) || n = 0x2028 || n = 0x2029 || n = 0x202f || n = 0x205f ||
    n = 0x3000

/-- `str::trim`, on characters. -/
def trimChars (cs : List Char) : List Char := (cs.dropWhile isWhitespace).rdropWhile isWhitespace

/-- `str::trim`. -/
def trim (s : String) : String := String.ofList (trimChars s.toList)

/-- `str::to_ascii_lowercase`. -/
def toAsciiLowercase (s : String) : String := String.ofList (s.toList.map Char.toLower)

/-- `str::len`: bytes of UTF-8. -/
def byteLen (cs : List Char) : Nat := (cs.map Char.utf8Size).sum

/-- The UTF-8 bytes of a character list (`str::as_bytes`). -/
def utf8 (cs : List Char) : Bytes := cs.flatMap String.utf8EncodeChar

/-- `String::from_utf8`: the characters that bytes encode. -/
def fromUtf8 (b : Bytes) : Option (List Char) := b.toByteArray.utf8Decode?.map Array.toList

theorem utf8Encode_eq (cs : List Char) : cs.utf8Encode = (utf8 cs).toByteArray := rfl

theorem fromUtf8_utf8 (cs : List Char) : fromUtf8 (utf8 cs) = some cs := by
  rw [fromUtf8, ← utf8Encode_eq, List.utf8Decode?_utf8Encode]
  rfl

theorem utf8_append (as bs : List Char) : utf8 (as ++ bs) = utf8 as ++ utf8 bs := by
  simp [utf8]

/-- Bytes that are read as characters encode them. -/
theorem fromUtf8_eq_some {b : Bytes} {cs : List Char} : fromUtf8 b = some cs ↔ utf8 cs = b := by
  constructor
  · intro h
    have hsome : b.toByteArray.utf8Decode?.isSome := by
      rw [fromUtf8] at h
      cases hd : b.toByteArray.utf8Decode? with
      | none => simp [hd] at h
      | some a => rfl
    obtain ⟨ds, hds⟩ := ByteArray.isSome_utf8Decode?_iff.mp hsome
    rw [utf8Encode_eq] at hds
    have hb : b = utf8 ds := by
      have := congrArg (fun x ↦ x.data.toList) hds
      simpa using this
    rw [hb, fromUtf8_utf8] at h
    cases h
    exact hb.symm
  · rintro rfl
    exact fromUtf8_utf8 cs

/-- The value of a digit in base sixteen. -/
def hexDigit? (c : Char) : Option Nat :=
  if '0' ≤ c ∧ c ≤ '9' then some (c.toNat - 48)
  else if 'a' ≤ c ∧ c ≤ 'f' then some (c.toNat - 87)
  else if 'A' ≤ c ∧ c ≤ 'F' then some (c.toNat - 55)
  else none

/-- The lower-case digit of `n < 16`. -/
def hexDigit (n : Nat) : Char :=
  if n < 10 then Char.ofNat (48 + n) else Char.ofNat (87 + n)

/-- The value of a digit in base ten. -/
def decDigit? (c : Char) : Option Nat :=
  if '0' ≤ c ∧ c ≤ '9' then some (c.toNat - 48) else none

/-- The digits of a `from_str_radix` call, folded most significant first. -/
def digits? (digit? : Char → Option Nat) (base : Nat) : Nat → List Char → Option Nat
  | acc, [] => some acc
  | acc, c :: cs =>
    match digit? c with
    | some d => digits? digit? base (acc * base + d) cs
    | none => none

/-- `from_str_radix` of an unsigned type below `bound`: an optional `+`, then digits. -/
def fromStrRadix (digit? : Char → Option Nat) (base bound : Nat) (cs : List Char) :
    Except String Nat :=
  match cs with
  | [] => .error "cannot parse integer from empty string"
  | ['+'] | ['-'] => .error "invalid digit found in string"
  | c :: cs' =>
    match digits? digit? base 0 (if c = '+' then cs' else c :: cs') with
    | none => .error "invalid digit found in string"
    | some n => if n < bound then .ok n else .error "number too large to fit in target type"

/-- `str::parse::<u32>`. -/
def parseU32 (s : String) : Option UInt32 :=
  match fromStrRadix decDigit? 10 (2 ^ 32) s.toList with
  | .ok n => some (UInt32.ofNat n)
  | .error _ => none

/-- `format!` of an unsigned integer. -/
def decimal (n : Nat) : String := String.ofList (Nat.toDigits 10 n)

/-- `format!` of a signed integer. -/
def decimalInt (n : Int) : String := if n < 0 then "-" ++ decimal n.natAbs else decimal n.natAbs

/-- A character as `str`'s `Debug` prints it: quotes, backslashes and control characters are
escaped. -/
def debugChar (c : Char) : List Char :=
  if c = '\"' ∨ c = '\\' then ['\\', c]
  else if c = '\n' then ['\\', 'n']
  else if c = '\r' then ['\\', 'r']
  else if c = '\t' then ['\\', 't']
  else if c.toNat = 0 then ['\\', '0']
  else if c.toNat < 0x20 ∨ (0x7f ≤ c.toNat ∧ c.toNat < 0xa0) then
    ['\\', 'u', '\x7b'] ++ Nat.toDigits 16 c.toNat ++ ['\x7d']
  else [c]

/-- A string as its `Debug` prints it. -/
def debugStr (s : String) : String := "\"" ++ String.ofList (s.toList.flatMap debugChar) ++ "\""

/-- Texts separated by commas, in brackets. -/
def debugList (items : List String) : String := "[" ++ String.intercalate ", " items ++ "]"

/-! ## Lower case -/

/-- What holds of every character and itself, and of every capital and its small letter, holds of
every character and its lower case. -/
theorem toLower_cases {P : Char → Char → Prop} (hself : ∀ c, P c c)
    (hcapital : ∀ n, 65 ≤ n → n ≤ 90 → P (Char.ofNat n) (Char.ofNat (n + 32))) (c : Char) :
    P c c.toLower := by
  by_cases h : c.val ≥ 'A'.val ∧ c.val ≤ 'Z'.val
  · have hlo : 65 ≤ c.toNat := h.1
    have hhi : c.toNat ≤ 90 := h.2
    have hc : Char.ofNat c.toNat = c := Char.ofNat_toNat c
    have hlow : c.toLower = Char.ofNat (c.toNat + 32) := by
      rw [← hc]
      generalize c.toNat = n at hlo hhi
      interval_cases n <;> rfl
    rw [hlow]
    have hP := hcapital c.toNat hlo hhi
    rwa [hc] at hP
  · have hlow : c.toLower = c := dif_neg h
    rw [hlow]
    exact hself c

theorem toLower_toLower (c : Char) : c.toLower.toLower = c.toLower := by
  refine toLower_cases (P := fun c d ↦ c.toLower = d → d.toLower = d) (fun _ h ↦ h) ?_ c rfl
  intro n hlo hhi _
  interval_cases n <;> rfl

theorem toAsciiLowercase_toAsciiLowercase (s : String) :
    toAsciiLowercase (toAsciiLowercase s) = toAsciiLowercase s := by
  unfold toAsciiLowercase
  rw [String.toList_ofList, List.map_map]
  exact congrArg String.ofList (List.map_congr_left fun c _ ↦ toLower_toLower c)

theorem isWhitespace_toLower (c : Char) : isWhitespace c.toLower = isWhitespace c := by
  refine toLower_cases (P := fun c d ↦ isWhitespace d = isWhitespace c) (fun _ ↦ rfl) ?_ c
  intro n hlo hhi
  interval_cases n <;> rfl

theorem hexDigit?_toLower (c : Char) : hexDigit? c.toLower = hexDigit? c := by
  refine toLower_cases (P := fun c d ↦ hexDigit? d = hexDigit? c) (fun _ ↦ rfl) ?_ c
  intro n hlo hhi
  interval_cases n <;> rfl

theorem utf8Size_toLower (c : Char) : c.toLower.utf8Size = c.utf8Size := by
  refine toLower_cases (P := fun c d ↦ d.utf8Size = c.utf8Size) (fun _ ↦ rfl) ?_ c
  intro n hlo hhi
  interval_cases n <;> rfl

theorem toLower_eq_plus (c : Char) : c.toLower = '+' ↔ c = '+' := by
  refine toLower_cases (P := fun c d ↦ d = '+' ↔ c = '+') (fun _ ↦ Iff.rfl) ?_ c
  intro n hlo hhi
  interval_cases n <;> decide

theorem toLower_eq_minus (c : Char) : c.toLower = '-' ↔ c = '-' := by
  refine toLower_cases (P := fun c d ↦ d = '-' ↔ c = '-') (fun _ ↦ Iff.rfl) ?_ c
  intro n hlo hhi
  interval_cases n <;> decide

theorem trimChars_map_toLower (cs : List Char) :
    trimChars (cs.map Char.toLower) = (trimChars cs).map Char.toLower := by
  have hws : isWhitespace ∘ Char.toLower = isWhitespace := funext isWhitespace_toLower
  rw [trimChars, trimChars, List.dropWhile_map, hws, List.rdropWhile, List.rdropWhile,
    ← List.map_reverse, List.dropWhile_map, hws, List.map_reverse]

/-- A text without white space has none around it. -/
theorem trimChars_eq_self {cs : List Char} (h : ∀ c ∈ cs, ¬ isWhitespace c = true) :
    trimChars cs = cs := by
  have hdrop : cs.dropWhile isWhitespace = cs := by
    cases cs with
    | nil => rfl
    | cons c cs => rw [List.dropWhile_cons_of_neg (h c List.mem_cons_self)]
  rw [trimChars, hdrop]
  exact List.rdropWhile_eq_self_iff.mpr fun hne ↦ h _ (List.getLast_mem hne)

theorem byteLen_map_toLower (cs : List Char) : byteLen (cs.map Char.toLower) = byteLen cs := by
  have hsize : Char.utf8Size ∘ Char.toLower = Char.utf8Size := funext utf8Size_toLower
  rw [byteLen, byteLen, List.map_map, hsize]

theorem digits?_map_toLower (base acc : Nat) (cs : List Char) :
    digits? hexDigit? base acc (cs.map Char.toLower) = digits? hexDigit? base acc cs := by
  induction cs generalizing acc with
  | nil => rfl
  | cons c cs ih =>
    simp only [List.map_cons, digits?, hexDigit?_toLower]
    split
    · exact ih _
    · rfl

theorem fromStrRadix_cons {digit? : Char → Option Nat} (base bound : Nat) {c : Char}
    {cs : List Char} (h : ¬(cs = [] ∧ (c = '+' ∨ c = '-'))) :
    fromStrRadix digit? base bound (c :: cs) =
      match digits? digit? base 0 (if c = '+' then cs else c :: cs) with
      | none => .error "invalid digit found in string"
      | some n =>
        if n < bound then .ok n else .error "number too large to fit in target type" := by
  unfold fromStrRadix
  split
  · rename_i hcs
    cases hcs
  · rename_i hcs
    cases hcs
    exact absurd ⟨rfl, .inl rfl⟩ h
  · rename_i hcs
    cases hcs
    exact absurd ⟨rfl, .inr rfl⟩ h
  · rename_i hcs
    cases hcs
    rfl

theorem fromStrRadix_map_toLower (base bound : Nat) (cs : List Char) :
    fromStrRadix hexDigit? base bound (cs.map Char.toLower) =
      fromStrRadix hexDigit? base bound cs := by
  cases cs with
  | nil => rfl
  | cons c cs =>
    by_cases h : cs = [] ∧ (c = '+' ∨ c = '-')
    · obtain ⟨rfl, rfl | rfl⟩ := h <;> rfl
    · have h' : ¬(cs.map Char.toLower = [] ∧ (c.toLower = '+' ∨ c.toLower = '-')) := by
        rw [List.map_eq_nil_iff, toLower_eq_plus, toLower_eq_minus]
        exact h
      rw [List.map_cons, fromStrRadix_cons base bound h', fromStrRadix_cons base bound h]
      simp only [toLower_eq_plus, ← List.map_cons, ← apply_ite (List.map Char.toLower),
        digits?_map_toLower]

theorem decDigit?_of_isDigit {c : Char} (h : c.isDigit) :
    decDigit? c = some (c.toNat - '0'.toNat) := by
  rw [Char.isDigit, Bool.and_eq_true, decide_eq_true_eq, decide_eq_true_eq] at h
  exact if_pos h

theorem digits?_of_isDigit {cs : List Char} (h : ∀ c ∈ cs, c.isDigit) (acc : Nat) :
    digits? decDigit? 10 acc cs = some (Nat.ofDigitChars 10 cs acc) := by
  induction cs generalizing acc with
  | nil => rfl
  | cons c cs ih =>
    obtain ⟨hc, hcs⟩ := List.forall_mem_cons.mp h
    rw [digits?, decDigit?_of_isDigit hc]
    dsimp only
    rw [ih hcs, Nat.ofDigitChars_cons, Nat.mul_comm]

theorem isDigit_toDigits {n : Nat} {c : Char} (h : c ∈ Nat.toDigits 10 n) : c.isDigit :=
  Nat.isDigit_of_mem_toDigits (by decide) (by decide) h

/-- A number that was written is read. -/
@[simp] theorem parseU32_decimal (n : UInt32) : parseU32 (decimal n.toNat) = some n := by
  have hparse : fromStrRadix decDigit? 10 (2 ^ 32) (Nat.toDigits 10 n.toNat) = .ok n.toNat := by
    obtain ⟨c, cs, hcs⟩ := List.exists_cons_of_ne_nil (Nat.toDigits_ne_nil (n := n.toNat) (b := 10))
    have hc : c.isDigit := isDigit_toDigits (hcs ▸ List.mem_cons_self)
    have hplus : c ≠ '+' := by rintro rfl; cases hc
    have hminus : c ≠ '-' := by rintro rfl; cases hc
    rw [hcs, fromStrRadix_cons _ _ fun h ↦ h.2.elim hplus hminus, if_neg hplus, ← hcs,
      digits?_of_isDigit fun _ ↦ isDigit_toDigits, Nat.ofDigitChars_ten_toDigits]
    exact if_pos n.toNat_lt
  rw [parseU32, decimal, String.toList_ofList, hparse]
  simp

end Text

namespace Hex

open Text

/-- The two digits of a byte. -/
def encodeByte (b : UInt8) : List Char := [hexDigit (b.toNat / 16), hexDigit (b.toNat % 16)]

/-- `hex::encode`, on characters. -/
def encodeChars (bs : Bytes) : List Char := bs.flatMap encodeByte

/-- `hex::encode`: lower-case hexadecimal. -/
def encode (bs : Bytes) : String := String.ofList (encodeChars bs)

/-- `hex::decode`, on characters: pairs of digits of either case and nothing else. -/
def decodeChars : List Char → Option Bytes
  | [] => some []
  | [_] => none
  | a :: b :: cs =>
    match hexDigit? a, hexDigit? b with
    | some x, some y => (decodeChars cs).map (UInt8.ofNat (x * 16 + y) :: ·)
    | _, _ => none

/-- `hex::decode`. -/
def decode (s : String) : Option Bytes := decodeChars s.toList

/-- A character as its `Debug` prints it, between quotes. -/
def debugQuoted (c : Char) : String :=
  let body := if c = '\"' then [c] else if c.toNat = 0x27 then ['\\', c] else debugChar c
  let quote := Char.ofNat 0x27
  String.ofList (quote :: (body ++ [quote]))

/-- Where the first byte that is no digit stands. -/
def badDigit : Nat → Bytes → String
  | _, [] => ""
  | i, b :: bs =>
    let c := Char.ofNat b.toNat
    if (hexDigit? c).isSome then badDigit (i + 1) bs
    else "Invalid character " ++ debugQuoted c ++ " at position " ++ decimal i

/-- `hex::decode` with its error's text. -/
def decodeOr (s : String) : Except String Bytes :=
  match decode s with
  | some b => .ok b
  | none =>
    let bs := utf8 s.toList
    .error (if bs.length % 2 ≠ 0 then "Odd number of digits" else badDigit 0 bs)

@[simp] theorem decodeOr_eq_ok {s : String} {b : Bytes} :
    decodeOr s = .ok b ↔ decode s = some b := by
  unfold decodeOr
  split <;> simp_all

theorem hexDigit?_hexDigit : ∀ {n : Nat}, n < 16 → hexDigit? (hexDigit n) = some n := by
  decide

theorem decodeChars_encodeChars (bs : Bytes) : decodeChars (encodeChars bs) = some bs := by
  induction bs with
  | nil => rfl
  | cons b bs ih =>
    have hb : b.toNat < 256 := b.toNat_lt
    have hhi : hexDigit? (hexDigit (b.toNat / 16)) = some (b.toNat / 16) :=
      hexDigit?_hexDigit (by omega)
    have hlo : hexDigit? (hexDigit (b.toNat % 16)) = some (b.toNat % 16) :=
      hexDigit?_hexDigit (by omega)
    have hval : UInt8.ofNat (b.toNat / 16 * 16 + b.toNat % 16) = b := by
      rw [show b.toNat / 16 * 16 + b.toNat % 16 = b.toNat by omega]
      simp
    change decodeChars (encodeByte b ++ encodeChars bs) = _
    simp only [encodeByte, List.cons_append, List.nil_append, decodeChars, hhi, hlo, ih,
      Option.map_some, hval]

/-- What `hex::encode` writes, `hex::decode` reads back. -/
@[simp] theorem decode_encode (bs : Bytes) : decode (encode bs) = some bs := by
  simp [decode, encode, decodeChars_encodeChars]

theorem encode_injective : Function.Injective encode := by
  intro a b h
  have : decode (encode a) = decode (encode b) := by rw [h]
  simpa using this

end Hex

end Yew
