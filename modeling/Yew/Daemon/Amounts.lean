import Yew.Daemon.Purse
import Yew.Util.Binary64
import Yew.Util.Decimal
import Yew.Util.Json

/-!
# Amounts as text

An amount of YEC is a parameter of many calls, as a JSON number or a string.  Its text is read digit
by digit, except when it has an exponent: then it is read as a double, which is rounded to zatoshi and
must be near what it is rounded to.  A number is given here by the text its `Display` prints.

The double is that of `Yew.Util.Binary64`; rounding and the comparison with 1e-12 are done on
doubles, as in the source.

## Source

* `yewd/wallet/src/build.rs`: `amount_param`
* `yewd/wallet/src/json.rs`: `parse_amount`
-/

namespace Yew.Daemon

open Decimal Text

/-! ## Reading -/

/-- `MAX_MONEY`. -/
def maxMoneyZat : Int := 21000000 * 100000000

/-- The text of a number or a string. -/
def amountSource : Json → Option (List Char)
  | .num lexeme => some lexeme
  | .str s => some s.toList
  | _ => none

/-- The errors of `amount_param`. -/
def amountBad : RpcError := ⟨-3, "Invalid amount"⟩

/-- The amount is not within the range of money. -/
def amountRange : RpcError := ⟨-3, "Amount out of range"⟩

/-- The words `str::parse::<f64>` takes for numbers, in any case. -/
def f64Word (neg : Bool) (cs : List Char) : Option Binary64 :=
  if cs.map Char.toLower = "nan".toList then some .nan
  else if cs.map Char.toLower ∈ ["inf".toList, "infinity".toList] then some (.inf neg)
  else none

/-- `str::parse::<f64>`. -/
def parseF64 (cs : List Char) : Option Binary64 :=
  match value? cs with
  | some q => some (.ofRat q)
  | none =>
    match cs with
    | '-' :: cs => f64Word true cs
    | '+' :: cs => f64Word false cs
    | cs => f64Word false cs

/-- A double in zatoshi. -/
def roundZat (f : Binary64) : Binary64 := (f.mulPos 100000000).round

/-- The check of a double: it is near a number of zatoshi, which is no more than there is. -/
def eightDecimals (f : Binary64) : Bool :=
  !((((roundZat f).divPos 100000000).sub f).abs.gt (.ofRat (1 / 10 ^ 12)) ||
    (roundZat f).gt (.fin maxMoneyZat))

/-- `amount_param`, for a text with an exponent. -/
def exponentAmount (neg : Bool) (t : List Char) : Except RpcError Int :=
  match parseF64 t with
  | none => .error amountBad
  | some f =>
    if !eightDecimals f then .error amountBad
    else if neg && (roundZat f).gt (.fin 0) then .error amountRange
    else .ok (roundZat f).toI64

/-- `amount_param`, for a text without one. -/
def plainAmount (neg : Bool) (t : List Char) : Except RpcError Int :=
  let (i, frac) := parts t
  if (i = [] ∧ frac = []) ∨ 8 < byteLen frac ∨ !i.all Char.isDigit ∨ !frac.all Char.isDigit then
    .error amountBad
  else
    match if i = [] then some 0 else parseSigned 64 i with
    | none => .error amountBad
    | some whole =>
      let f := (parseSigned 64 (frac ++ List.replicate (8 - frac.length) '0')).getD 0
      let z := whole * 100000000 + f
      if 2 ^ 63 ≤ whole * 100000000 ∨ 2 ^ 63 ≤ z then .error amountRange
      else if maxMoneyZat < z ∨ (neg ∧ 0 < z) then .error amountRange
      else .ok z

/-- A minus before a text, and the text behind it. -/
def stripMinus : List Char → Bool × List Char
  | '-' :: t => (true, t)
  | t => (false, t)

/-- `amount_param`. -/
def amountParam (v : Json) : Except RpcError Int :=
  match amountSource v with
  | none => .error ⟨-3, "Amount is not a number or string"⟩
  | some text =>
    let (neg, t) := stripMinus text
    if t.any isE then exponentAmount neg t else plainAmount neg t

/-- `10i128.checked_pow`. -/
def pow10? (k : Nat) : Option Int := if (10 : Int) ^ k < 2 ^ 127 then some (10 ^ k) else none

/-- The digits of `parse_amount`, as an `i128` scaled to zatoshi. -/
def scaleZat (zat shift : Int) : Option Int :=
  if 0 ≤ shift then
    (pow10? shift.toNat).bind fun d ↦ if zat * d < 2 ^ 127 then some (zat * d) else none
  else (pow10? shift.natAbs).bind fun d ↦ if zat % d = 0 then some (zat / d) else none

/-- The digits of `parse_amount`, as an `i128`. -/
def parseDigits (cs : List Char) : Option Int :=
  if cs.dropWhile (· = '0') = [] then some 0 else parseSigned 128 (cs.dropWhile (· = '0'))

/-- How many places the digits are from zatoshi, as an `i32`. -/
def amountShift (decimals : Nat) (exp : Int) : Int :=
  (8 - ((decimals : Int).bmod (2 ^ 32) - exp).bmod (2 ^ 32)).bmod (2 ^ 32)

/-- `i64::try_from`, with the sign. -/
def signedZat (neg : Bool) (zat : Int) : Option Int :=
  if -2 ^ 63 ≤ zat ∧ zat < 2 ^ 63 then some (if neg then -zat else zat) else none

/-- `parse_amount`. -/
def parseAmount (text : String) : Option Int := do
  let (neg, t) := stripMinus (trimChars text.toList)
  let (mant, exp) ← match splitOnce isE t with
    | some (m, e) => (parseSigned 32 e).map fun n ↦ (m, n)
    | none => some (t, 0)
  let (int, frac) := parts mant
  if (int = [] ∧ frac = []) ∨ !(int ++ frac).all Char.isDigit then none
  else
    let digits ← parseDigits (int ++ frac)
    let zat ← scaleZat digits (amountShift frac.length exp)
    signedZat neg zat

/-! ## Texts without an exponent -/

theorem parseSigned_of_isDigit {bits : Nat} {cs : List Char} (hne : cs ≠ [])
    (h : ∀ c ∈ cs, c.isDigit) :
    parseSigned bits cs = if Nat.ofDigitChars 10 cs 0 < 2 ^ (bits - 1) then
      some (Nat.ofDigitChars 10 cs 0 : Int) else none := by
  have hlo : -2 ^ (bits - 1) ≤ (Nat.ofDigitChars 10 cs 0 : Int) :=
    (Int.neg_nonpos_of_nonneg (by positivity)).trans (Int.natCast_nonneg _)
  have hcast : (Nat.ofDigitChars 10 cs 0 : Int) < 2 ^ (bits - 1) ↔
      Nat.ofDigitChars 10 cs 0 < 2 ^ (bits - 1) := by
    exact_mod_cast Iff.rfl
  rw [parseSigned, integer?_of_isDigit hne h, Option.filter_some]
  simp only [hlo, hcast, true_and, decide_eq_true_eq]

theorem ofDigitChars_dropWhile_zero (cs : List Char) :
    Nat.ofDigitChars 10 (cs.dropWhile (· = '0')) 0 = Nat.ofDigitChars 10 cs 0 := by
  induction cs with
  | nil => rfl
  | cons c cs ih =>
    by_cases hc : c = '0'
    · rw [List.dropWhile_cons, if_pos (decide_eq_true hc), ih, Nat.ofDigitChars_cons, hc]
      rfl
    · rw [List.dropWhile_cons, if_neg fun h ↦ hc (of_decide_eq_true h)]

theorem parseDigits_of_isDigit {cs : List Char} (h : ∀ c ∈ cs, c.isDigit)
    (hlt : Nat.ofDigitChars 10 cs 0 < 2 ^ 127) :
    parseDigits cs = some (Nat.ofDigitChars 10 cs 0 : Int) := by
  have hvalue := ofDigitChars_dropWhile_zero cs
  rw [parseDigits]
  split
  · rename_i hnil
    rw [hnil] at hvalue
    rw [← hvalue]
    rfl
  · rename_i hcons
    rw [parseSigned_of_isDigit hcons fun c hc ↦ h c ((List.dropWhile_sublist _).subset hc), hvalue]
    exact if_pos hlt

/-- Digits behind the point, filled up to eight. -/
theorem parseSigned_filled {bs : List Char} (hb : ∀ c ∈ bs, c.isDigit) (hlen : bs.length ≤ 8) :
    parseSigned 64 (bs ++ List.replicate (8 - bs.length) '0') =
      some (Nat.ofDigitChars 10 bs 0 * 10 ^ (8 - bs.length) : Int) := by
  have hdigits : ∀ c ∈ bs ++ List.replicate (8 - bs.length) '0', c.isDigit := by
    intro c hc
    rcases List.mem_append.mp hc with h | h
    · exact hb c h
    · rw [List.eq_of_mem_replicate h]
      rfl
  have hlength : (bs ++ List.replicate (8 - bs.length) '0').length = 8 := by
    rw [List.length_append, List.length_replicate]
    omega
  have hne : bs ++ List.replicate (8 - bs.length) '0' ≠ [] := by
    rw [← List.length_pos_iff, hlength]
    decide
  have hlt := ofDigitChars_lt hdigits
  rw [hlength] at hlt
  rw [parseSigned_of_isDigit hne hdigits, if_pos (hlt.trans (by decide)), Nat.ofDigitChars_append,
    Nat.ofDigitChars_replicate_zero, Nat.mul_comm]
  push_cast
  rfl

theorem length_le_byteLen (cs : List Char) : cs.length ≤ byteLen cs := by
  induction cs with
  | nil => exact le_refl 0
  | cons c cs ih =>
    have hc := Char.utf8Size_pos c
    rw [byteLen, List.map_cons, List.sum_cons, List.length_cons]
    change cs.length ≤ (cs.map Char.utf8Size).sum at ih
    omega

/-- Filling up the decimals moves the point by eight places. -/
theorem shift_point {a b k : Nat} (hk : k ≤ 8) :
    ((a * 10 ^ k + b : Nat) : ℚ) * 10 ^ ((0 : Int) - k) =
      ((a * 100000000 + b * 10 ^ (8 - k) : Int) : ℚ) / 10 ^ 8 := by
  have hpow : (10 : ℚ) ^ 8 = 10 ^ k * 10 ^ (8 - k) := by
    rw [← pow_add, Nat.add_sub_cancel' hk]
  have hk0 : (10 : ℚ) ^ k ≠ 0 := by positivity
  have hk1 : (10 : ℚ) ^ (8 - k) ≠ 0 := by positivity
  rw [zero_sub, zpow_neg, zpow_natCast, hpow]
  push_cast
  rw [show (100000000 : ℚ) = 10 ^ k * 10 ^ (8 - k) by rw [← hpow]; norm_num]
  field_simp

/-- What is taken is what the text says. -/
theorem plainAmount_eq_ok {neg : Bool} {t : List Char} {z : Int} (hE : t.any isE = false)
    (h : plainAmount neg t = .ok z) :
    0 ≤ z ∧ z ≤ maxMoneyZat ∧ (neg = true → z = 0) ∧ unsigned? t = some (z / 10 ^ 8 : ℚ) := by
  rcases hparts : parts t with ⟨i, frac⟩
  rw [plainAmount, hparts] at h
  dsimp only at h
  split at h
  · cases h
  rename_i hform
  simp only [not_or, not_and, not_lt, Bool.not_eq_eq_eq_not, Bool.not_true, Bool.not_eq_false,
    List.all_eq_true] at hform
  obtain ⟨hne, hlen, hi, hfrac⟩ := hform
  have hlen' := (length_le_byteLen frac).trans hlen
  have hwhole : ∀ whole, (if i = [] then some 0 else parseSigned 64 i) = some whole →
      whole = (Nat.ofDigitChars 10 i 0 : Int) := by
    intro whole hwhole
    split at hwhole
    · rename_i hnil
      rw [hnil, ← Option.some.inj hwhole]
      rfl
    · rename_i hcons
      rw [parseSigned_of_isDigit hcons hi] at hwhole
      exact (Option.some.inj (Option.ite_none_right_eq_some.mp hwhole).2).symm
  cases hw : (if i = [] then some 0 else parseSigned 64 i) with
  | none =>
    rw [hw] at h
    cases h
  | some whole =>
    rw [hw, parseSigned_filled hfrac hlen', Option.getD_some, hwhole whole hw] at h
    dsimp only at h
    split at h
    · cases h
    split at h
    · cases h
    rename_i hrange
    cases h
    rw [not_or, not_and, not_lt] at hrange
    have hz : (0 : Int) ≤ Nat.ofDigitChars 10 i 0 * 100000000 +
        Nat.ofDigitChars 10 frac 0 * 10 ^ (8 - frac.length) := by positivity
    have hsplit : splitOnce isE t = none := splitOnce_eq_none.mpr fun c hc ↦
      Bool.eq_false_iff.mpr fun hce ↦ Bool.eq_false_iff.mp hE (List.any_eq_true.mpr ⟨c, hc, hce⟩)
    refine ⟨hz, hrange.1, fun hneg ↦ le_antisymm (not_lt.mp (hrange.2 hneg)) hz, ?_⟩
    have happ : i ++ frac ≠ [] := fun hnil ↦ by
      obtain ⟨hi', hf'⟩ := List.append_eq_nil_iff.mp hnil
      exact hne hi' hf'
    have hdigits : ∀ c ∈ i ++ frac, c.isDigit := fun c hc ↦
      (List.mem_append.mp hc).elim (hi c) (hfrac c)
    rw [unsigned?, hsplit]
    dsimp only
    rw [scaled?, hparts, natural?_of_isDigit happ hdigits, ofDigitChars_parts, Option.map_some]
    exact congrArg some (shift_point hlen')

/-! ## Texts with an exponent -/

/-- No such word has an `e`. -/
theorem f64Word_eq_none {neg : Bool} {cs : List Char} (h : cs.any isE = true) :
    f64Word neg cs = none := by
  obtain ⟨c, hc, hE⟩ := List.any_eq_true.mp h
  have hmem : 'e' ∈ cs.map Char.toLower := by
    rw [isE, Bool.or_eq_true, decide_eq_true_eq, decide_eq_true_eq] at hE
    rcases hE with rfl | rfl
    · exact List.mem_map.mpr ⟨'e', hc, rfl⟩
    · exact List.mem_map.mpr ⟨'E', hc, rfl⟩
  have hne {w : String} (hw : 'e' ∉ w.toList) : cs.map Char.toLower ≠ w.toList := by
    intro heq
    exact hw (heq ▸ hmem)
  rw [f64Word, if_neg (hne (by decide)), if_neg]
  intro hin
  rcases List.mem_cons.mp hin with hin | hin
  · exact hne (by decide) hin
  · exact hne (by decide) (List.mem_singleton.mp hin)

theorem parseF64_eq {cs : List Char} (h : cs.any isE = true) :
    parseF64 cs = (value? cs).map .ofRat := by
  unfold parseF64
  cases value? cs with
  | some q => rfl
  | none =>
    rw [Option.map_none]
    dsimp only
    split
    · exact f64Word_eq_none h
    · exact f64Word_eq_none h
    · exact f64Word_eq_none h

theorem le_maxMoneyZat {f : Binary64} (h : eightDecimals f = true) :
    (roundZat f).gt (.fin maxMoneyZat) = false := by
  rw [eightDecimals, Bool.not_eq_true', Bool.or_eq_false_iff] at h
  exact h.2

/-- A whole number of zatoshi that passes the check survives the two roundings: their errors add up
to less than a half. -/
theorem roundZat_ofRat {n : Nat} (h : eightDecimals (.ofRat (n / 10 ^ 8)) = true) :
    roundZat (.ofRat (n / 10 ^ 8)) = .fin (n : Int) ∧ (n : Int) ≤ maxMoneyZat := by
  have hmax := le_maxMoneyZat h
  rcases Nat.eq_zero_or_pos n with rfl | hn
  · refine ⟨?_, by decide⟩
    rw [roundZat, Nat.cast_zero, zero_div, Binary64.ofRat_zero]
    show (Binary64.ofRat (0 * 100000000)).round = _
    rw [zero_mul, Binary64.ofRat_zero]
    decide +kernel
  have hn1 : (1 : ℚ) ≤ n := by exact_mod_cast hn
  have hunit : (2 : ℚ) ^ (-53 : Int) = 1 / 9007199254740992 := by norm_num
  have htiny : (2 : ℚ) ^ (-1022 : Int) ≤ 1 / 10 ^ 9 := by
    refine (zpow_le_zpow_right₀ one_le_two (by norm_num : (-1022 : Int) ≤ -30)).trans ?_
    norm_num
  rw [roundZat] at hmax ⊢
  rcases Binary64.ofRat_of_pos (q := n / 10 ^ 8) (htiny.trans (by linarith)) with hf | ⟨f, hf, hfd⟩
  · rw [hf] at hmax
    cases hmax
  rw [hf] at hmax ⊢
  rw [hunit, abs_le] at hfd
  change (Binary64.ofRat (f * 100000000)).round.gt _ = false at hmax
  show (Binary64.ofRat (f * 100000000)).round = _ ∧ _
  rcases Binary64.ofRat_of_pos (q := f * 100000000) (htiny.trans (by linarith)) with hp | ⟨p, hp, hpd⟩
  · rw [hp] at hmax
    cases hmax
  rw [hp] at hmax ⊢
  rw [hunit, abs_le] at hpd
  have hle : Binary64.roundAway p ≤ maxMoneyZat := by
    have := of_decide_eq_false hmax
    exact_mod_cast not_lt.mp this
  have hlt := Binary64.lt_of_roundAway_le hle
  have hmoney : (maxMoneyZat : ℚ) = 2100000000000000 := by norm_num [maxMoneyZat]
  rw [hmoney] at hlt
  have hround : Binary64.roundAway p = n := Binary64.roundAway_eq (abs_lt.mpr (by
    push_cast
    constructor <;> linarith))
  rw [← hround]
  exact ⟨rfl, hle⟩

/-! ## Amounts that are taken -/

/-- The text of an amount says a number of zatoshi. -/
def Says (v : Json) (z : Int) : Prop :=
  ∃ text, amountSource v = some text ∧ value? text = some (z / 10 ^ 8 : ℚ)

/-- An exponent whose double passes the check is of a decimal that is a whole number of zatoshi, and
not negative. -/
def WholeExponent (v : Json) : Prop :=
  ∀ text neg t f, amountSource v = some text → stripMinus text = (neg, t) → t.any isE = true →
    parseF64 t = some f → eightDecimals f = true → (neg && (roundZat f).gt (.fin 0)) = false →
    ∃ n : Nat, value? text = some (n / 10 ^ 8 : ℚ)

theorem amountParam_eq {v : Json} {text t : List Char} {neg : Bool}
    (hv : amountSource v = some text) (ht : stripMinus text = (neg, t)) :
    amountParam v = if t.any isE then exponentAmount neg t else plainAmount neg t := by
  rw [amountParam, hv]
  dsimp only
  rw [ht]

theorem exponentAmount_eq_ok {neg : Bool} {t : List Char} {z : Int} :
    exponentAmount neg t = .ok z ↔ ∃ f, parseF64 t = some f ∧ eightDecimals f = true ∧
      (neg && (roundZat f).gt (.fin 0)) = false ∧ (roundZat f).toI64 = z := by
  constructor
  · intro h
    rw [exponentAmount] at h
    split at h
    · cases h
    rename_i f hf
    split at h
    · cases h
    rename_i hcheck
    split at h
    · cases h
    rename_i hneg
    cases h
    exact ⟨f, hf, by simpa using hcheck, Bool.eq_false_iff.mpr hneg, rfl⟩
  · rintro ⟨f, hf, hcheck, hneg, rfl⟩
    rw [exponentAmount, hf]
    dsimp only
    rw [hcheck, hneg]
    rfl

/-- The value of a text with a minus. -/
theorem value?_of_stripMinus {text t : List Char} {neg : Bool} {q : ℚ}
    (ht : stripMinus text = (neg, t)) (hq : unsigned? t = some q) :
    value? text = some (if neg then -q else q) := by
  unfold stripMinus at ht
  split at ht
  · cases ht
    show (unsigned? t).map (fun q ↦ -q) = _
    rw [hq]
    rfl
  · cases ht
    exact value?_of_unsigned? hq

/-- A text whose value is not negative has a value without its minus, which is the same. -/
theorem value?_behind_minus {text t : List Char} {neg : Bool} {q : ℚ}
    (ht : stripMinus text = (neg, t)) (hq : value? text = some q) (hnonneg : 0 ≤ q) :
    value? t = some q ∧ (neg = true → q = 0) := by
  unfold stripMinus at ht
  split at ht
  · cases ht
    obtain ⟨r, hr, rfl⟩ := Option.map_eq_some_iff.mp
      (show (unsigned? t).map (fun q ↦ -q) = some q from hq)
    have hzero : r = 0 := le_antisymm (neg_nonneg.mp hnonneg) (unsigned?_nonneg hr)
    rw [hzero, neg_zero]
    exact ⟨value?_of_unsigned? (hzero ▸ hr), fun _ ↦ rfl⟩
  · cases ht
    exact ⟨hq, fun h ↦ by cases h⟩

/-- An amount that is taken is in range and what its text says, exactly when the texts with an
exponent that pass the check are whole numbers of zatoshi. -/
theorem amount_exact_iff (v : Json) :
    (∀ z, amountParam v = .ok z → 0 ≤ z ∧ z ≤ maxMoneyZat ∧ Says v z) ↔ WholeExponent v := by
  constructor
  · intro hexact text neg t f hv ht hE hf hcheck hneg
    have hok : amountParam v = .ok (roundZat f).toI64 := by
      rw [amountParam_eq hv ht, if_pos hE]
      exact exponentAmount_eq_ok.mpr ⟨f, hf, hcheck, hneg, rfl⟩
    obtain ⟨hlo, -, text', hv', hsays⟩ := hexact _ hok
    obtain rfl : text = text' := Option.some.inj (hv.symm.trans hv')
    refine ⟨(roundZat f).toI64.toNat, hsays.trans ?_⟩
    rw [← Int.cast_natCast, Int.toNat_of_nonneg hlo]
  · intro hwhole z hok
    cases hv : amountSource v with
    | none =>
      rw [amountParam, hv] at hok
      cases hok
    | some text =>
      rcases ht : stripMinus text with ⟨neg, t⟩
      rw [amountParam_eq hv ht] at hok
      cases hE : t.any isE with
      | false =>
        rw [hE] at hok
        obtain ⟨hlo, hhi, hneg, hval⟩ := plainAmount_eq_ok hE hok
        refine ⟨hlo, hhi, text, hv, ?_⟩
        rw [value?_of_stripMinus ht hval]
        cases neg with
        | false => rfl
        | true =>
          rw [hneg rfl]
          norm_num
      | true =>
        rw [hE, if_pos rfl] at hok
        obtain ⟨f, hf, hcheck, hneg, rfl⟩ := exponentAmount_eq_ok.mp hok
        obtain ⟨n, hn⟩ := hwhole text neg t f hv ht hE hf hcheck hneg
        obtain ⟨hval, -⟩ := value?_behind_minus ht hn (by positivity)
        rw [parseF64_eq hE, hval] at hf
        obtain rfl := Option.some.inj hf
        obtain ⟨hround, hmax⟩ := roundZat_ofRat hcheck
        rw [hround, Binary64.toI64_intCast (by omega) (hmax.trans (by decide))]
        exact ⟨Int.natCast_nonneg n, hmax, text, hv, by rw [hn, Int.cast_natCast]⟩

/-- The number 1e-13 is taken for nothing, and the text of a double minus for a negative amount. -/
theorem not_amount_exact :
    ¬ (∀ z, amountParam (.num "1e-13".toList) = .ok z →
      0 ≤ z ∧ z ≤ maxMoneyZat ∧ Says (.num "1e-13".toList) z) ∧
    ¬ (∀ z, amountParam (.str "--1e0") = .ok z → 0 ≤ z ∧ z ≤ maxMoneyZat ∧ Says (.str "--1e0") z) := by
  constructor
  · intro hexact
    obtain ⟨-, -, text, hv, hsays⟩ := hexact 0 (by decide +kernel)
    obtain rfl := Option.some.inj hv
    have hvalue : value? "1e-13".toList ≠ some ((0 : Int) / 10 ^ 8 : ℚ) := by decide +kernel
    exact hvalue hsays
  · intro hexact
    have hlo := (hexact (-100000000) (by decide +kernel)).1
    omega

/-! ## Amounts that are printed -/

/-- The digits of a remainder, filled up to eight. -/
def decimals (n : Nat) : List Char :=
  List.replicate (8 - (Nat.toDigits 10 (n % 100000000)).length) '0' ++
    Nat.toDigits 10 (n % 100000000)

theorem toList_amountText (n : Nat) :
    (amountText n).toList = Nat.toDigits 10 (n / 100000000) ++ '.' :: decimals n := by
  have hneg : ¬ ((n : Int) < 0) := not_lt.mpr (Int.natCast_nonneg n)
  rw [amountText, if_neg hneg, Int.natAbs_natCast]
  simp [decimals, decimal, String.toList_append]

theorem isDigit_decimals {n : Nat} {c : Char} (h : c ∈ decimals n) : c.isDigit := by
  rcases List.mem_append.mp h with h | h
  · rw [List.eq_of_mem_replicate h]
    rfl
  · exact isDigit_toDigits h

theorem length_decimals (n : Nat) : (decimals n).length = 8 := by
  have hlt : n % 100000000 < 10 ^ 8 := Nat.mod_lt n (by decide)
  have hle := (Nat.length_toDigits_le_iff (b := 10) (by decide) (by decide)).mpr hlt
  rw [decimals, List.length_append, List.length_replicate]
  omega

theorem ofDigitChars_decimals (n : Nat) :
    Nat.ofDigitChars 10 (decimals n) 0 = n % 100000000 := by
  rw [decimals, Nat.ofDigitChars_append, Nat.ofDigitChars_replicate_zero, Nat.mul_zero,
    Nat.ofDigitChars_ten_toDigits]

/-- The text has only digits and a point. -/
theorem mem_amountText {n : Nat} {c : Char} (h : c ∈ (amountText n).toList) :
    c.isDigit ∨ c = '.' := by
  rw [toList_amountText] at h
  rcases List.mem_append.mp h with h | h
  · exact .inl (isDigit_toDigits h)
  · rcases List.mem_cons.mp h with h | h
    · exact .inr h
    · exact .inl (isDigit_decimals h)

theorem parts_amountText (n : Nat) :
    parts (amountText n).toList = (Nat.toDigits 10 (n / 100000000), decimals n) := by
  rw [toList_amountText]
  exact parts_point (fun _ ↦ isDigit_toDigits) _

theorem splitOnce_amountText (n : Nat) : splitOnce isE (amountText n).toList = none := by
  refine splitOnce_eq_none.mpr fun c hc ↦ ?_
  rcases mem_amountText hc with h | rfl
  · exact isE_of_isDigit h
  · rfl

theorem stripMinus_amountText (n : Nat) :
    stripMinus (amountText n).toList = (false, (amountText n).toList) := by
  unfold stripMinus
  split
  · rename_i t heq
    rcases mem_amountText (n := n) (heq ▸ List.mem_cons_self) with h | h
    · cases h
    · cases h
  · rfl

theorem plainAmount_amountText {n : Nat} (hmax : (n : Int) ≤ maxMoneyZat) :
    plainAmount false (amountText n).toList = .ok n := by
  have hint (c : Char) (hc : c ∈ Nat.toDigits 10 (n / 100000000)) : c.isDigit := isDigit_toDigits hc
  have hform : ¬((Nat.toDigits 10 (n / 100000000) = [] ∧ decimals n = []) ∨
      8 < byteLen (decimals n) ∨ !(Nat.toDigits 10 (n / 100000000)).all Char.isDigit ∨
      !(decimals n).all Char.isDigit) := by
    rw [List.all_eq_true.mpr hint, List.all_eq_true.mpr fun c ↦ isDigit_decimals,
      byteLen_of_isDigit fun c ↦ isDigit_decimals, length_decimals]
    simp [Nat.toDigits_ne_nil]
  have hn : (n : Int) ≤ 2100000000000000 := hmax
  have hsum : ((n / 100000000 : Nat) : Int) * 100000000 + ((n % 100000000 : Nat) : Int) = n := by
    omega
  have hwhole : parseSigned 64 (Nat.toDigits 10 (n / 100000000)) =
      some ((n / 100000000 : Nat) : Int) := by
    rw [parseSigned_of_isDigit Nat.toDigits_ne_nil hint, Nat.ofDigitChars_ten_toDigits]
    exact if_pos (by omega)
  have hfilled := parseSigned_filled (fun c ↦ isDigit_decimals (n := n)) (length_decimals n).le
  rw [ofDigitChars_decimals, length_decimals, Nat.sub_self, pow_zero, mul_one] at hfilled
  rw [plainAmount, parts_amountText]
  dsimp only
  rw [if_neg hform, if_neg Nat.toDigits_ne_nil, hwhole]
  dsimp only
  rw [length_decimals, Nat.sub_self, hfilled, Option.getD_some, hsum, if_neg (by omega),
    if_neg (by simpa using hmax)]

theorem parseAmount_amountText {n : Nat} (hmax : (n : Int) ≤ maxMoneyZat) :
    parseAmount (amountText n) = some (n : Int) := by
  have htrim : trimChars (amountText n).toList = (amountText n).toList := by
    refine trimChars_eq_self fun c hc ↦ ?_
    rcases mem_amountText hc with h | rfl
    · exact Bool.eq_false_iff.mp (isWhitespace_of_isDigit h)
    · decide
  rw [parseAmount, htrim, stripMinus_amountText]
  dsimp only
  rw [splitOnce_amountText]
  simp only [Option.bind_eq_bind, Option.bind_some, parts_amountText]
  have hdigits : ∀ c ∈ Nat.toDigits 10 (n / 100000000) ++ decimals n, c.isDigit := fun c hc ↦
    (List.mem_append.mp hc).elim isDigit_toDigits isDigit_decimals
  have hvalue : Nat.ofDigitChars 10 (Nat.toDigits 10 (n / 100000000) ++ decimals n) 0 = n := by
    rw [ofDigitChars_parts, Nat.ofDigitChars_ten_toDigits, ofDigitChars_decimals, length_decimals]
    exact Nat.div_add_mod' n 100000000
  have hn : (n : Int) ≤ 2100000000000000 := hmax
  have hparsed := parseDigits_of_isDigit hdigits (by rw [hvalue]; omega)
  have hscaled : scaleZat n (amountShift (decimals n).length 0) = some (n : Int) := by
    have hshift : amountShift (decimals n).length 0 = 0 := by
      rw [length_decimals]
      decide
    have hpow : pow10? (0 : Int).toNat = some 1 := by decide
    rw [hshift, scaleZat, if_pos le_rfl, hpow, Option.bind_some, mul_one]
    exact if_pos (by omega)
  rw [if_neg, hparsed, hvalue, Option.bind_some, hscaled, Option.bind_some]
  · exact if_pos (by omega)
  · rw [List.all_eq_true.mpr hdigits]
    simp [Nat.toDigits_ne_nil]

/-- An amount that was printed is read. -/
theorem amount_round_trip (z : Int) (hz : 0 ≤ z) (hmax : z ≤ maxMoneyZat) :
    amountParam (.str (amountText z)) = .ok z ∧ amountParam (.num (amountText z).toList) = .ok z ∧
    parseAmount (amountText z) = some z := by
  obtain ⟨n, rfl⟩ := Int.eq_ofNat_of_zero_le hz
  have hE : (amountText n).toList.any isE = false := by
    rw [List.any_eq_false]
    exact fun c hc ↦ Bool.eq_false_iff.mp (splitOnce_eq_none.mp (splitOnce_amountText n) c hc)
  have hparam {v : Json} (hv : amountSource v = some (amountText n).toList) :
      amountParam v = .ok (n : Int) := by
    rw [amountParam_eq hv (stripMinus_amountText n), hE]
    exact plainAmount_amountText hmax
  exact ⟨hparam rfl, hparam rfl, parseAmount_amountText hmax⟩

/-- The largest amount there is. -/
theorem amount_round_trip_max : amountText maxMoneyZat = "21000000.00000000" ∧
    amountParam (.str (amountText maxMoneyZat)) = .ok maxMoneyZat ∧
    parseAmount (amountText maxMoneyZat) = some maxMoneyZat := by
  obtain ⟨hstr, -, hparse⟩ := amount_round_trip maxMoneyZat (by decide) le_rfl
  exact ⟨by decide +kernel, hstr, hparse⟩

end Yew.Daemon
