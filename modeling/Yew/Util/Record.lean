import Yew.Util.Json

/-!
# Flat records as JSON

`serde_json`'s writer for records of strings and unsigned numbers.  What is written is read back
(`parse_renderRecord`); a record with more text behind it is no JSON text
(`parse_renderRecord_append`); and a record stands on one line (`newline_notMem_renderRecord`).
-/

namespace Yew

namespace Json

open Text

/-! ## Writing -/

/-- A value of a flat record. -/
inductive Leaf where
  | str (s : String)
  | nat (n : Nat)

/-- The value a leaf is read as. -/
def Leaf.toJson : Leaf → Json
  | .str s => .str s
  | .nat n => .num (Nat.toDigits 10 n)

/-- A character of a string, as `serde_json` writes it. -/
def escapeChar (c : Char) : List Char :=
  if c = '\"' ∨ c = '\\' then ['\\', c]
  else if c.toNat = 8 then ['\\', 'b']
  else if c.toNat = 12 then ['\\', 'f']
  else if c = '\n' then ['\\', 'n']
  else if c = '\r' then ['\\', 'r']
  else if c = '\t' then ['\\', 't']
  else if c.toNat < 0x20 then
    ['\\', 'u', '0', '0', hexDigit (c.toNat / 16), hexDigit (c.toNat % 16)]
  else [c]

/-- A string between quotes. -/
def quote (s : String) : List Char := '\"' :: (s.toList.flatMap escapeChar ++ ['\"'])

/-- A leaf, as `serde_json` writes it. -/
def Leaf.render : Leaf → List Char
  | .str s => quote s
  | .nat n => Nat.toDigits 10 n

/-- A member. -/
def renderMember (m : String × Leaf) : List Char := quote m.1 ++ ':' :: m.2.render

/-- The members of a record that has some, and its closing brace. -/
def renderMembers : List (String × Leaf) → List Char
  | [] => ['\x7d']
  | [m] => renderMember m ++ ['\x7d']
  | m :: ms => renderMember m ++ ',' :: renderMembers ms

/-- `serde_json::to_string` of a record of leaves. -/
def renderRecord (ms : List (String × Leaf)) : List Char := '\x7b' :: renderMembers ms

/-- The members a record is read as. -/
def toMembers (ms : List (String × Leaf)) : List (String × Json) :=
  ms.map fun m ↦ (m.1, m.2.toJson)

/-! ## Reading back -/

theorem string_escaped (n : Nat) {c : Char} {t cs : List Char} (h : escape t = some (c, cs)) :
    string (n + 1) ('\\' :: t) = (string n cs).map fun x ↦ (c :: x.1, x.2) := by
  rw [string, if_neg (by decide), if_pos rfl, h, Option.bind_eq_bind, Option.bind_some]
  dsimp only
  cases string n cs <;> rfl

theorem unicode_control {k : Nat} (hk : k < 0x20) (cs : List Char) :
    unicode ('0' :: '0' :: hexDigit (k / 16) :: hexDigit (k % 16) :: cs) =
      some (Char.ofNat k, cs) := by
  have hz : hexDigit? '0' = some 0 := rfl
  have hnum : hexNum4 '0' '0' (hexDigit (k / 16)) (hexDigit (k % 16)) = some k := by
    simp only [hexNum4, hz, Hex.hexDigit?_hexDigit (show k / 16 < 16 by omega),
      Hex.hexDigit?_hexDigit (show k % 16 < 16 by omega), Option.bind_eq_bind, Option.bind_some,
      Option.some.injEq]
    omega
  rw [unicode, hex4, hnum, Option.map_some, Option.bind_eq_bind, Option.bind_some]
  dsimp only
  rw [if_neg (by omega), if_neg (by omega)]

/-- A character that is written is read. -/
theorem string_escapeChar (n : Nat) (c : Char) (cs : List Char) :
    string (n + 1) (escapeChar c ++ cs) = (string n cs).map fun x ↦ (c :: x.1, x.2) := by
  have hc : ∀ k, c.toNat = k → c = Char.ofNat k := by
    rintro k rfl
    exact (Char.ofNat_toNat c).symm
  unfold escapeChar
  split_ifs with h₁ h₂ h₃ h₄ h₅ h₆ h₇
  · rcases h₁ with rfl | rfl <;> exact string_escaped n rfl
  · rw [hc _ h₂]
    exact string_escaped n rfl
  · rw [hc _ h₃]
    exact string_escaped n rfl
  · rw [h₄]
    exact string_escaped n rfl
  · rw [h₅]
    exact string_escaped n rfl
  · rw [h₆]
    exact string_escaped n rfl
  · rw [hc _ rfl]
    refine string_escaped n ?_
    rw [← hc _ rfl]
    exact (unicode_control h₇ cs).trans (by rw [← hc _ rfl])
  · rw [not_or] at h₁
    rw [List.cons_append, List.nil_append, string, if_neg h₁.1, if_neg h₁.2, if_neg h₇]
    cases string n cs <;> rfl

theorem string_flatMap {n : Nat} {s : List Char} (hn : s.length < n) (u : List Char) :
    string n (s.flatMap escapeChar ++ '\"' :: u) = some (s, u) := by
  induction s generalizing n with
  | nil =>
    obtain ⟨n, rfl⟩ : ∃ k, n = k + 1 := ⟨n - 1, by omega⟩
    rfl
  | cons c s ih =>
    obtain ⟨n, rfl⟩ : ∃ k, n = k + 1 := ⟨n - 1, by omega⟩
    have hs : s.length < n := by
      rw [List.length_cons] at hn
      omega
    rw [List.flatMap_cons, List.append_assoc, string_escapeChar, ih hs]
    rfl

theorem one_le_length_escapeChar (c : Char) : 1 ≤ (escapeChar c).length := by
  unfold escapeChar
  split_ifs <;> simp

theorem length_le_flatMap (s : List Char) : s.length ≤ (s.flatMap escapeChar).length := by
  induction s with
  | nil => rfl
  | cons c s ih =>
    rw [List.flatMap_cons, List.length_append, List.length_cons]
    have := one_le_length_escapeChar c
    omega

theorem length_quote (s : String) : s.toList.length + 2 ≤ (quote s).length := by
  have := length_le_flatMap s.toList
  simp only [quote, List.length_cons, List.length_append, List.length_nil]
  omega

/-! ### Numbers read back -/

theorem isDigit_eq (c : Char) : isDigit c = c.isDigit := by
  unfold isDigit decDigit? Char.isDigit
  simp only [Char.le_def, UInt32.le_iff_toNat_le]
  split <;> simp_all

theorem head?_toDigits {n : Nat} (hn : 0 < n) : (Nat.toDigits 10 n).head? ≠ some '0' := by
  induction n using Nat.strongRecOn with
  | _ n ih =>
    by_cases h : n < 10
    · rw [Nat.toDigits_of_lt_base h]
      clear ih
      interval_cases n <;> decide
    · rw [Nat.toDigits_of_base_le (by decide) (by omega)]
      have := ih (n / 10) (by omega) (by omega)
      rw [List.head?_append_of_ne_nil _ Nat.toDigits_ne_nil]
      exact this

/-- A character that ends a number. -/
def EndsNumber (c : Char) : Prop := isDigit c = false ∧ c ≠ '.' ∧ c ≠ 'e' ∧ c ≠ 'E'

theorem digits_toDigits (n : Nat) {c : Char} (hc : isDigit c = false) (u : List Char) :
    digits (Nat.toDigits 10 n ++ c :: u) = some (Nat.toDigits 10 n, c :: u) := by
  have hall : ∀ d ∈ Nat.toDigits 10 n, isDigit d = true := by
    intro d hd
    rw [isDigit_eq]
    exact Nat.isDigit_of_mem_toDigits (by decide) (by decide) hd
  have htake : (Nat.toDigits 10 n ++ c :: u).takeWhile isDigit = Nat.toDigits 10 n := by
    rw [List.takeWhile_append_of_pos hall, List.takeWhile_cons_of_neg (by simp [hc]),
      List.append_nil]
  have hdrop : (Nat.toDigits 10 n ++ c :: u).dropWhile isDigit = c :: u := by
    rw [List.dropWhile_append_of_pos hall, List.dropWhile_cons_of_neg (by simp [hc])]
  unfold digits
  rw [htake, hdrop]
  split
  · rename_i hnil
    exact absurd hnil Nat.toDigits_ne_nil
  · rfl

theorem unsigned_toDigits (n : Nat) {c : Char} (hc : EndsNumber c) (u : List Char) :
    unsigned (Nat.toDigits 10 n ++ c :: u) = some (Nat.toDigits 10 n, c :: u) := by
  obtain ⟨hd, hdot, he, hE⟩ := hc
  have hz : ¬((Nat.toDigits 10 n).head? = some '0' ∧ (Nat.toDigits 10 n).length ≠ 1) := by
    rintro ⟨hz, hlen⟩
    cases Nat.eq_zero_or_pos n with
    | inl h =>
      subst h
      exact hlen rfl
    | inr h => exact head?_toDigits h hz
  have hfrac : fraction (c :: u) = some ([], c :: u) := by
    refine fraction.eq_2 _ ?_
    intro cs h
    cases h
    exact hdot rfl
  have hexp : exponent (c :: u) = some ([], c :: u) := by
    rw [exponent, if_neg (by simp [he, hE])]
  rw [unsigned, digits_toDigits n hd, Option.bind_eq_bind, Option.bind_some]
  dsimp only
  rw [if_neg hz, hfrac, Option.bind_some]
  dsimp only
  rw [hexp, Option.bind_some]
  simp

/-! ### Members read back -/

theorem endsNumber_comma : EndsNumber ',' := by
  unfold EndsNumber
  decide

theorem endsNumber_brace : EndsNumber '\x7d' := by
  unfold EndsNumber
  decide

theorem ws_cons {c : Char} (hc : isWs c = false) (cs : List Char) : ws (c :: cs) = c :: cs := by
  simp [ws, hc]

theorem isWs_of_isDigit {c : Char} (hc : isDigit c = true) : isWs c = false := by
  rw [isDigit_eq] at hc
  unfold isWs
  by_contra h
  simp only [Bool.not_eq_false, Bool.or_eq_true, decide_eq_true_eq] at h
  rcases h with ((rfl | rfl) | rfl) | rfl <;> exact absurd hc (by decide)

theorem value_nat {m : Nat} (k : Nat) {c : Char} (hc : EndsNumber c) (u : List Char) :
    value (m + 1) (Nat.toDigits 10 k ++ c :: u) =
      some (.num (Nat.toDigits 10 k), c :: u) := by
  obtain ⟨d, ds, hds⟩ := List.exists_cons_of_ne_nil (Nat.toDigits_ne_nil (n := k) (b := 10))
  have hd : isDigit d = true := by
    rw [isDigit_eq]
    exact Nat.isDigit_of_mem_toDigits (b := 10) (n := k) (by decide) (by decide) (by simp [hds])
  have hne : ∀ x, isDigit x = false → d ≠ x := by
    rintro x hx rfl
    rw [hx] at hd
    cases hd
  have hu := unsigned_toDigits k hc u
  rw [hds, List.cons_append] at hu ⊢
  rw [value, ws_cons (isWs_of_isDigit hd)]
  dsimp only
  rw [if_neg (hne _ (by decide)), if_neg (hne _ (by decide)), if_neg (hne _ (by decide)), scalar,
    if_neg (hne _ (by decide)), if_pos hd, hu]
  rfl

theorem value_quote {m : Nat} {s : String} (hm : s.toList.length + 1 < m) (u : List Char) :
    value m (quote s ++ u) = some (.str s, u) := by
  obtain ⟨m, rfl⟩ : ∃ k, m = k + 1 := ⟨m - 1, by omega⟩
  rw [quote, List.cons_append, value, ws_cons (by decide)]
  dsimp only
  rw [if_neg (by decide), if_neg (by decide), if_pos rfl, List.append_assoc, List.singleton_append,
    string_flatMap (by omega)]
  simp

theorem value_leaf {m : Nat} {l : Leaf} (hm : l.render.length ≤ m) {c : Char}
    (hc : EndsNumber c) (u : List Char) :
    value m (l.render ++ c :: u) = some (l.toJson, c :: u) := by
  cases l with
  | str s =>
    have := length_quote s
    exact value_quote (by change (quote s).length ≤ m at hm; omega) _
  | nat k =>
    have : 0 < (Nat.toDigits 10 k).length := Nat.length_toDigits_pos
    obtain ⟨m, rfl⟩ : ∃ j, m = j + 1 :=
      ⟨m - 1, by change (Nat.toDigits 10 k).length ≤ m at hm; omega⟩
    exact value_nat k hc u

theorem length_renderMember (m : String × Leaf) :
    m.1.toList.length + m.2.render.length + 3 ≤ (renderMember m).length := by
  have := length_quote m.1
  simp only [renderMember, List.length_append, List.length_cons]
  omega

/-- One member and what stands behind it. -/
theorem members_renderMember {n : Nat} {m : String × Leaf} (hn : (renderMember m).length ≤ n)
    {c : Char} (hc : EndsNumber c) (hws : isWs c = false) (u : List Char) :
    members (n + 1) (renderMember m ++ c :: u) =
      if c = '\x7d' then some ([(m.1, m.2.toJson)], u)
      else if c = ',' then (members n u).map fun x ↦ ((m.1, m.2.toJson) :: x.1, x.2)
      else none := by
  have hlen := length_renderMember m
  have htext : renderMember m ++ c :: u =
      '\"' :: (m.1.toList.flatMap escapeChar ++ '\"' :: ':' :: (m.2.render ++ c :: u)) := by
    simp [renderMember, quote]
  rw [htext, members, ws_cons (by decide)]
  dsimp only
  rw [if_pos rfl, string_flatMap (by omega), Option.bind_eq_bind, Option.bind_some]
  dsimp only
  rw [ws_cons (by decide)]
  dsimp only
  rw [if_pos rfl, value_leaf (by omega) hc, Option.bind_eq_bind, Option.bind_some]
  dsimp only
  rw [ws_cons hws, String.ofList_toList]

theorem members_renderMembers {n : Nat} {ms : List (String × Leaf)} (hne : ms ≠ [])
    (hn : (renderMembers ms).length ≤ n) (u : List Char) :
    members n (renderMembers ms ++ u) = some (toMembers ms, u) := by
  induction ms generalizing n with
  | nil => exact absurd rfl hne
  | cons m ms ih =>
    have hlen := length_renderMember m
    cases ms with
    | nil =>
      rw [renderMembers, List.length_append, List.length_singleton] at hn
      obtain ⟨n, rfl⟩ : ∃ k, n = k + 1 := ⟨n - 1, by omega⟩
      rw [renderMembers, List.append_assoc, List.singleton_append,
        members_renderMember (by omega) endsNumber_brace (by decide), if_pos rfl]
      rfl
    | cons m' ms =>
      rw [renderMembers, List.length_append, List.length_cons] at hn
      · obtain ⟨n, rfl⟩ : ∃ k, n = k + 1 := ⟨n - 1, by omega⟩
        rw [renderMembers, List.append_assoc, List.cons_append,
          members_renderMember (by omega) endsNumber_comma (by decide), if_neg (by decide),
          if_pos rfl, ih (List.cons_ne_nil _ _) (by omega)]
        · rfl
        · simp
      · simp

/-! ### Whole records -/

/-- A record is read back, and what stands behind it is left. -/
theorem value_renderRecord {n : Nat} {ms : List (String × Leaf)} (hne : ms ≠ [])
    (hn : (renderRecord ms).length ≤ n) (u : List Char) :
    value n (renderRecord ms ++ u) = some (.obj (toMembers ms), u) := by
  rw [renderRecord, List.length_cons] at hn
  obtain ⟨n, rfl⟩ : ∃ k, n = k + 1 := ⟨n - 1, by omega⟩
  obtain ⟨t, ht⟩ : ∃ t, renderMembers ms = '\"' :: t := by
    obtain ⟨m, ms, rfl⟩ := List.exists_cons_of_ne_nil hne
    cases ms <;> exact ⟨_, rfl⟩
  have hmem := members_renderMembers hne (n := n) (by omega) u
  rw [renderRecord, List.cons_append, value, ws_cons (by decide)]
  dsimp only
  rw [if_pos rfl]
  rw [ht, List.cons_append] at hmem ⊢
  rw [ws_cons (by decide)]
  dsimp only
  rw [if_neg (by decide), hmem]
  rfl

theorem parse_renderRecord {ms : List (String × Leaf)} (hne : ms ≠ []) :
    parse (renderRecord ms) = some (.obj (toMembers ms)) := by
  have h := value_renderRecord hne (n := (renderRecord ms).length + 1) (by omega) []
  rw [List.append_nil] at h
  rw [parse, h]
  rfl

/-- A record with more text behind it is no JSON text. -/
theorem parse_renderRecord_append {ms : List (String × Leaf)} (hne : ms ≠ []) {u : List Char}
    (hu : ws u ≠ []) : parse (renderRecord ms ++ u) = none := by
  have hn : (renderRecord ms).length ≤ (renderRecord ms ++ u).length + 1 := by
    rw [List.length_append]
    omega
  rw [parse, value_renderRecord hne hn, Option.bind_eq_bind, Option.bind_some]
  dsimp only
  rw [if_neg]
  rw [List.isEmpty_iff]
  exact hu

theorem newline_notMem_escapeChar (c : Char) : '\n' ∉ escapeChar c := by
  unfold escapeChar
  have hdig : ∀ k, k < 16 → hexDigit k ≠ '\n' := by decide
  split_ifs with h₁ h₂ h₃ h₄ h₅ h₆ h₇
  · rcases h₁ with rfl | rfl <;> decide
  · decide
  · decide
  · decide
  · decide
  · decide
  · have hhi := hdig (c.toNat / 16) (by omega)
    have hlo := hdig (c.toNat % 16) (by omega)
    simp [hhi.symm, hlo.symm]
  · simp only [List.mem_singleton]
    exact fun h ↦ h₄ h.symm

theorem newline_notMem_quote (s : String) : '\n' ∉ quote s := by
  simp only [quote, List.mem_cons, List.mem_append, List.mem_flatMap, List.not_mem_nil, or_false]
  rintro (h | ⟨c, -, h⟩ | h)
  · exact absurd h (by decide)
  · exact newline_notMem_escapeChar c h
  · exact absurd h (by decide)

theorem newline_notMem_renderMember (m : String × Leaf) : '\n' ∉ renderMember m := by
  simp only [renderMember, List.mem_append, List.mem_cons]
  rintro (h | h | h)
  · exact newline_notMem_quote m.1 h
  · exact absurd h (by decide)
  · cases hl : m.2 with
    | str s =>
      rw [hl] at h
      exact newline_notMem_quote s h
    | nat k =>
      rw [hl] at h
      exact absurd (Nat.isDigit_of_mem_toDigits (by decide) (by decide) h) (by decide)

/-- A record stands on one line. -/
theorem newline_notMem_renderRecord (ms : List (String × Leaf)) : '\n' ∉ renderRecord ms := by
  have hms : '\n' ∉ renderMembers ms := by
    induction ms with
    | nil => decide
    | cons m ms ih =>
      cases ms with
      | nil =>
        simp [renderMembers, newline_notMem_renderMember]
      | cons m' ms =>
        rw [renderMembers]
        · simp [newline_notMem_renderMember, ih]
        · simp
  simp [renderRecord, hms]

/-! ## Fields -/

/-- The values an object has under a key. -/
def lookup (ms : List (String × Json)) (k : String) : List Json :=
  (ms.filter fun m ↦ m.1 = k).map Prod.snd

/-- A string. -/
def str? : Json → Option String
  | .str s => some s
  | _ => none

/-- An unsigned integer below `bound`. -/
def uint? (bound : Nat) : Json → Option Nat
  | .num l =>
    let n := Nat.ofDigitChars 10 l 0
    if l.all isDigit ∧ n < bound then some n else none
  | _ => none

theorem uint?_toDigits {bound n : Nat} (hn : n < bound) :
    uint? bound (.num (Nat.toDigits 10 n)) = some n := by
  have hall : (Nat.toDigits 10 n).all isDigit := by
    rw [List.all_eq_true]
    intro d hd
    rw [isDigit_eq]
    exact Nat.isDigit_of_mem_toDigits (by decide) (by decide) hd
  simp only [uint?, Nat.ofDigitChars_ten_toDigits]
  rw [if_pos ⟨hall, hn⟩]

end Json

end Yew
