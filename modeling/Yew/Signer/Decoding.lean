import Yew.Signer.Sapling
import Yew.Signer.WalletIo

/-!
# Reading hexadecimal and escapes

`unhex` and `decode_dump_string` cut a text into slices of two bytes and hand each to
`u8::from_str_radix`.  A slice that ends inside a character panics, and a plus sign before one digit
is read as a number.  Here stands for which texts either happens.

The readers are in `core/src/keys.rs` and `yewd/signer/src/sign.rs`.  A panic is an outcome of its
own here, so that a request which makes the signer panic is told from one it refuses.
-/

namespace Yew.Signer

open Tx Keys Proto SetAct Hex

/-! ## Pairs -/

/-- The slice of two bytes at the start of the text ends inside a character. -/
def CutPair : List Char → Prop
  | [] => False
  | [c] => 3 ≤ c.utf8Size
  | c :: d :: _ => 3 ≤ c.utf8Size ∨ c.utf8Size = 1 ∧ d.utf8Size ≠ 1

/-- The text consists of pairs that are read as bytes. -/
def Readable : List Char → Prop
  | [] => True
  | [_] => False
  | c :: d :: cs => (byteOfHex [c, d]).isOk ∧ Readable cs

theorem utf8Size_pos (c : Char) : 1 ≤ c.utf8Size := Char.utf8Size_pos c

theorem hexDigit?_eq_some {c : Char} {n : Nat} (h : Text.hexDigit? c = some n) :
    n < 16 ∧ Text.hexDigit n = c.toLower ∧ c.utf8Size = 1 ∧ c ≠ '+' := by
  have hc : Char.ofNat c.toNat = c := Char.ofNat_toNat c
  have hrange : 48 ≤ c.toNat ∧ c.toNat ≤ 57 ∨ 97 ≤ c.toNat ∧ c.toNat ≤ 102 ∨
      65 ≤ c.toNat ∧ c.toNat ≤ 70 := by
    unfold Text.hexDigit? at h
    split at h
    · rename_i hd
      exact .inl ⟨hd.1, hd.2⟩
    split at h
    · rename_i hd
      exact .inr (.inl ⟨hd.1, hd.2⟩)
    split at h
    · rename_i hd
      exact .inr (.inr ⟨hd.1, hd.2⟩)
    · cases h
  rw [← hc] at h ⊢
  generalize c.toNat = m at h hrange
  rcases hrange with ⟨hlo, hhi⟩ | ⟨hlo, hhi⟩ | ⟨hlo, hhi⟩
  all_goals
    interval_cases m <;> (cases h; decide)

/-- A pair that is read is two digits, or a plus sign and a digit. -/
theorem byteOfHex_pair {c d : Char} {b : UInt8} (h : byteOfHex [c, d] = .ok b) :
    (c ≠ '+' ∧ d ≠ '+' ∧ c.utf8Size = 1 ∧ d.utf8Size = 1 ∧ encodeByte b = [c.toLower, d.toLower]) ∨
      c = '+' ∧ c.utf8Size = 1 ∧ d.utf8Size = 1 ∧ encodeByte b ≠ [c.toLower, d.toLower] := by
  have hcons : ¬ ([d] = [] ∧ (c = '+' ∨ c = '-')) := fun h ↦ nomatch h.1
  rw [byteOfHex, Text.fromStrRadix_cons 16 256 hcons] at h
  by_cases hc : c = '+'
  · right
    subst hc
    cases hd : Text.hexDigit? d with
    | none => simp [Text.digits?, hd] at h
    | some n =>
      obtain ⟨hn, -, hsize, -⟩ := hexDigit?_eq_some hd
      have hlt : n < 256 := by omega
      simp only [if_pos, Text.digits?, hd, Nat.zero_mul, Nat.zero_add, if_pos hlt] at h
      cases h
      refine ⟨rfl, rfl, hsize, ?_⟩
      have htop : (UInt8.ofNat n).toNat / 16 = 0 := by
        rw [UInt8.toNat_ofNat_of_lt' hlt]
        omega
      rw [encodeByte, htop]
      intro heq
      cases (List.cons.inj heq).1
  · left
    rw [if_neg hc] at h
    cases hn : Text.hexDigit? c with
    | none => simp [Text.digits?, hn] at h
    | some n =>
      cases hm : Text.hexDigit? d with
      | none => simp [Text.digits?, hn, hm] at h
      | some m =>
        obtain ⟨hn16, hlowc, hsizec, -⟩ := hexDigit?_eq_some hn
        obtain ⟨hm16, hlowd, hsized, hplus⟩ := hexDigit?_eq_some hm
        have hlt : n * 16 + m < 256 := by omega
        simp only [Text.digits?, hn, hm, Nat.zero_mul, Nat.zero_add, if_pos hlt] at h
        cases h
        have hval : (UInt8.ofNat (n * 16 + m)).toNat = n * 16 + m :=
          UInt8.toNat_ofNat_of_lt' hlt
        have htop : (n * 16 + m) / 16 = n := by omega
        have hlow : (n * 16 + m) % 16 = m := by omega
        refine ⟨hc, hplus, hsizec, hsized, ?_⟩
        rw [encodeByte, hval, htop, hlow, hlowc, hlowd]

theorem utf8Size_of_pair {c d : Char} (h : (byteOfHex [c, d]).isOk) :
    c.utf8Size = 1 ∧ d.utf8Size = 1 := by
  cases hb : byteOfHex [c, d] with
  | error e =>
    rw [hb] at h
    cases h
  | ok b =>
    rcases byteOfHex_pair hb with ⟨-, -, hc, hd, -⟩ | ⟨-, hc, hd, -⟩
    · exact ⟨hc, hd⟩
    · exact ⟨hc, hd⟩

theorem digits_of_pair {c d : Char} (h : (byteOfHex [c, d]).isOk) :
    (c = '+' ∨ (Text.hexDigit? c).isSome) ∧ (Text.hexDigit? d).isSome := by
  have hcons : ¬ ([d] = [] ∧ (c = '+' ∨ c = '-')) := fun h ↦ nomatch h.1
  rw [byteOfHex, Text.fromStrRadix_cons 16 256 hcons] at h
  cases hd : Text.hexDigit? d with
  | none =>
    cases hc : Text.hexDigit? c <;> by_cases hp : c = '+' <;>
      simp [Text.digits?, hp, hc, hd, Except.isOk, Except.toBool] at h
  | some m =>
    refine ⟨?_, rfl⟩
    by_cases hp : c = '+'
    · exact .inl hp
    · right
      cases hc : Text.hexDigit? c with
      | none => simp [Text.digits?, hp, hc, Except.isOk, Except.toBool] at h
      | some n => rfl

/-- One character that is not ASCII is never read as a byte. -/
theorem byteOfHex_single {c : Char} (hc : c.utf8Size ≠ 1) : ∃ e, byteOfHex [c] = .error e := by
  have hcons : ¬ (([] : List Char) = [] ∧ (c = '+' ∨ c = '-')) := by
    rintro ⟨-, rfl | rfl⟩
    · exact hc rfl
    · exact hc rfl
  have hplus : c ≠ '+' := fun h ↦ hcons ⟨rfl, .inl h⟩
  rw [byteOfHex, Text.fromStrRadix_cons 16 256 hcons, if_neg hplus]
  cases hd : Text.hexDigit? c with
  | none =>
    simp only [Text.digits?, hd]
    exact ⟨_, rfl⟩
  | some n => exact absurd (hexDigit?_eq_some hd).2.2.1 hc

/-! ## `unhex` -/

/-- Behind a run of pairs that are read stands a slice that ends inside a character. -/
def CutIn (cs : List Char) : Prop := ∃ pre post, cs = pre ++ post ∧ Readable pre ∧ CutPair post

theorem cutIn_short {cs : List Char} (h : cs.length ≤ 1) : CutIn cs ↔ CutPair cs := by
  constructor
  · rintro ⟨pre, post, rfl, hpre, hpost⟩
    match pre, hpre with
    | [], _ => exact hpost
    | _ :: _ :: _, _ => simp at h
  · intro hcs
    exact ⟨[], cs, rfl, trivial, hcs⟩

theorem cutIn_cons {c d : Char} {cs : List Char} : CutIn (c :: d :: cs) ↔
    CutPair (c :: d :: cs) ∨ (byteOfHex [c, d]).isOk ∧ CutIn cs := by
  constructor
  · rintro ⟨pre, post, h, hpre, hpost⟩
    match pre, hpre with
    | [], _ =>
      rw [h]
      exact .inl hpost
    | x :: y :: pre, hpre =>
      cases h
      exact .inr ⟨hpre.1, pre, post, rfl, hpre.2, hpost⟩
  · rintro (hcut | ⟨hok, pre, post, rfl, hpre, hpost⟩)
    · exact ⟨[], _, rfl, trivial, hcut⟩
    · exact ⟨c :: d :: pre, post, rfl, ⟨hok, hpre⟩, hpost⟩

/-- What `unhex` makes of a text of even length. -/
def UnhexSpec (cs : List Char) : Except (Halt String) Bytes → Prop
  | .ok b => Readable cs ∧ ¬ CutIn cs ∧ (encodeChars b = cs.map Char.toLower ↔ '+' ∉ cs)
  | .error .panic => ¬ Readable cs ∧ CutIn cs
  | .error (.error _) => ¬ Readable cs ∧ ¬ CutIn cs

theorem unhexSpec_step {c d : Char} {cs : List Char} {b : UInt8} (hb : byteOfHex [c, d] = .ok b)
    {x : Except (Halt String) Bytes} (hx : UnhexSpec cs x) :
    UnhexSpec (c :: d :: cs) (x.map (b :: ·)) := by
  have hok : (byteOfHex [c, d]).isOk := by
    rw [hb]
    rfl
  have hsize := utf8Size_of_pair hok
  have hcut : CutIn (c :: d :: cs) ↔ CutIn cs := by
    rw [cutIn_cons, CutPair, hsize.1, hsize.2]
    simp [hok]
  match x, hx with
  | .error .panic, hx => exact ⟨fun h ↦ hx.1 h.2, hcut.mpr hx.2⟩
  | .error (.error e), hx => exact ⟨fun h ↦ hx.1 h.2, fun h ↦ hx.2 (hcut.mp h)⟩
  | .ok bs, hx =>
    obtain ⟨hread, hno, hplus⟩ := hx
    refine ⟨⟨hok, hread⟩, fun h ↦ hno (hcut.mp h), ?_⟩
    change encodeByte b ++ encodeChars bs = [c.toLower, d.toLower] ++ cs.map Char.toLower ↔ _
    have hsplit : encodeByte b ++ encodeChars bs = [c.toLower, d.toLower] ++ cs.map Char.toLower ↔
        encodeByte b = [c.toLower, d.toLower] ∧ encodeChars bs = cs.map Char.toLower :=
      ⟨fun h ↦ List.append_inj h rfl, fun ⟨h, h'⟩ ↦ by rw [h, h']⟩
    rw [hsplit, hplus]
    rcases byteOfHex_pair hb with ⟨hc, hd, -, -, heq⟩ | ⟨rfl, -, -, hne⟩
    · simp [heq, Ne.symm hc, Ne.symm hd]
    · exact iff_of_false (fun h ↦ hne h.1) fun h ↦ h List.mem_cons_self

theorem unhexSpec (cs : List Char) (heven : Text.byteLen cs % 2 = 0) :
    UnhexSpec cs (unhexPairs cs) := by
  induction cs using unhexPairs.induct with
  | case1 =>
    refine ⟨trivial, ?_, by simp [encodeChars]⟩
    rw [cutIn_short (by simp)]
    exact id
  | case2 c hc => simp [Text.byteLen, hc] at heven
  | case3 c hc d ds hd e he =>
    have hrun : unhexPairs (c :: d :: ds) = .error (.error e) := by simp [unhexPairs, hc, hd, he]
    rw [hrun]
    refine ⟨fun h ↦ ?_, ?_⟩
    · have hok := h.1
      rw [he] at hok
      cases hok
    · rw [cutIn_cons, CutPair, hc, hd, he]
      rintro (h | ⟨h, -⟩)
      · simp at h
      · cases h
  | case4 c hc d ds hd b hb ih =>
    have hrun : unhexPairs (c :: d :: ds) = (unhexPairs ds).map (b :: ·) := by
      simp [unhexPairs, hc, hd, hb]
    rw [hrun]
    refine unhexSpec_step hb (ih ?_)
    simp only [Text.byteLen, List.map_cons, List.sum_cons, hc, hd] at heven ⊢
    omega
  | case5 c hc d ds hd =>
    have hrun : unhexPairs (c :: d :: ds) = .error .panic := by simp [unhexPairs, hc, hd]
    rw [hrun]
    exact ⟨fun h ↦ hd (utf8Size_of_pair h.1).2, [], _, rfl, trivial, .inr ⟨hc, hd⟩⟩
  | case6 c ds hc₁ hc₂ e he =>
    have hrun : unhexPairs (c :: ds) = .error (.error e) := by
      rw [unhexPairs.eq_def]
      simp [hc₂, he]
    rw [hrun]
    cases ds with
    | nil =>
      refine ⟨id, ?_⟩
      rw [cutIn_short (by simp), CutPair, hc₂]
      simp
    | cons d ds =>
      have hnot : ¬ (byteOfHex [c, d]).isOk := fun hok ↦ hc₁ (utf8Size_of_pair hok).1
      refine ⟨fun h ↦ hnot h.1, ?_⟩
      rw [cutIn_cons, CutPair, hc₂]
      simp [hnot]
  | case7 c ds hc₁ hc₂ b hb ih =>
    obtain ⟨e, he⟩ := byteOfHex_single hc₁
    rw [he] at hb
    cases hb
  | case8 c ds hc₁ hc₂ =>
    have hrun : unhexPairs (c :: ds) = .error .panic := by
      rw [unhexPairs.eq_def]
      simp [hc₁, hc₂]
    have hpos := utf8Size_pos c
    have hbig : 3 ≤ c.utf8Size := by omega
    rw [hrun]
    cases ds with
    | nil => exact ⟨id, [], _, rfl, trivial, hbig⟩
    | cons d ds =>
      exact ⟨fun h ↦ hc₁ (utf8Size_of_pair h.1).1, [], _, rfl, trivial, .inl hbig⟩

/-- The text is cut by `unhex`: its length is even, and behind a run of pairs that are read stands a
slice that ends inside a character. -/
def UnhexCut (s : String) : Prop :=
  Text.byteLen (Text.trimChars s.toList) % 2 = 0 ∧ CutIn (Text.trimChars s.toList)

theorem readable_even {cs : List Char} (h : Readable cs) : Text.byteLen cs % 2 = 0 := by
  match cs, h with
  | [], _ => rfl
  | c :: d :: cs, h =>
    have ih := readable_even h.2
    have hsize := utf8Size_of_pair h.1
    simp only [Text.byteLen, List.map_cons, List.sum_cons, hsize.1, hsize.2] at ih ⊢
    omega

/-- When `unhex` panics. -/
theorem unhex_panics_iff (s : String) : unhex s = .error .panic ↔ UnhexCut s := by
  unfold unhex UnhexCut
  by_cases heven : Text.byteLen (Text.trimChars s.toList) % 2 = 0
  · have hspec := unhexSpec _ heven
    simp only [heven, ne_eq, not_true_eq_false, if_false, true_and]
    match hx : unhexPairs (Text.trimChars s.toList), hspec with
    | .ok b, hspec => exact iff_of_false (fun h ↦ by cases h) hspec.2.1
    | .error .panic, hspec => exact iff_of_true rfl hspec.2
    | .error (.error e), hspec => exact iff_of_false (fun h ↦ by cases h) hspec.2
  · simp [heven]

/-- What `unhex` accepts is written back as it was, in lower case, unless it has a plus sign. -/
theorem hex_unhex_iff (s : String) :
    (∀ b, unhex s = .ok b → hex b = Text.toAsciiLowercase (Text.trim s)) ↔
      (Readable (Text.trimChars s.toList) → '+' ∉ Text.trimChars s.toList) := by
  have hlow : Text.toAsciiLowercase (Text.trim s) =
      String.ofList ((Text.trimChars s.toList).map Char.toLower) := by
    simp [Text.toAsciiLowercase, Text.trim]
  by_cases heven : Text.byteLen (Text.trimChars s.toList) % 2 = 0
  · have hrun : unhex s = unhexPairs (Text.trimChars s.toList) := by
      simp [unhex, heven]
    have hspec := unhexSpec _ heven
    rw [hrun, hlow]
    cases hx : unhexPairs (Text.trimChars s.toList) with
    | ok b =>
      rw [hx] at hspec
      obtain ⟨hread, -, hplus⟩ := hspec
      rw [← hplus]
      constructor
      · intro h _
        exact String.ofList_injective (h b rfl)
      · rintro h b' hb'
        cases hb'
        rw [hex, Hex.encode, h hread]
    | error x =>
      rw [hx] at hspec
      refine iff_of_true (fun b hb ↦ by cases hb) fun hread ↦ ?_
      cases x with
      | panic => exact absurd hread hspec.1
      | error e => exact absurd hread hspec.1
  · refine iff_of_true (fun b hb ↦ ?_) fun hread ↦ absurd (readable_even hread) heven
    simp [unhex, heven] at hb

/-! ## `decode_dump_string` -/

/-- Behind a percent sign stands a slice that ends inside a character. -/
def EscapeCut (cs : List Char) : Prop := ∃ pre post, cs = pre ++ '%' :: post ∧ CutPair post

theorem escapeCut_cons {c : Char} {cs : List Char} :
    EscapeCut (c :: cs) ↔ c = '%' ∧ CutPair cs ∨ EscapeCut cs := by
  constructor
  · rintro ⟨pre, post, h, hcut⟩
    cases pre with
    | nil =>
      cases h
      exact .inl ⟨rfl, hcut⟩
    | cons x pre =>
      cases h
      exact .inr ⟨pre, post, rfl, hcut⟩
  · rintro (⟨rfl, hcut⟩ | ⟨pre, post, rfl, hcut⟩)
    · exact ⟨[], cs, rfl, hcut⟩
    · exact ⟨c :: pre, post, rfl, hcut⟩

/-- A pair that is read has no percent sign in it. -/
theorem escapeCut_skip {a b : Char} {cs : List Char} (h : (byteOfHex [a, b]).isOk) :
    EscapeCut (a :: b :: cs) ↔ EscapeCut cs := by
  obtain ⟨ha, hb⟩ := digits_of_pair h
  have hane : a ≠ '%' := by
    rintro rfl
    revert ha
    decide
  have hbne : b ≠ '%' := by
    rintro rfl
    cases hb
  rw [escapeCut_cons, escapeCut_cons]
  simp [hane, hbne]

theorem byteLen_of_cutPair {cs : List Char} (h : CutPair cs) : 2 ≤ Text.byteLen cs := by
  match cs, h with
  | [c], h =>
    simp only [Text.byteLen, List.map_cons, List.map_nil, List.sum_cons, List.sum_nil]
    have hbig : 3 ≤ c.utf8Size := h
    omega
  | c :: d :: cs, _ =>
    have hc := utf8Size_pos c
    have hd := utf8Size_pos d
    simp only [Text.byteLen, List.map_cons, List.sum_cons]
    omega

/-- A text without a cut is decoded, one with a cut panics. -/
def EscapeSpec (cs : List Char) (x : Except (Halt String) Bytes) : Prop :=
  x = .error .panic ∧ EscapeCut cs ∨ (∃ b, x = .ok b) ∧ ¬ EscapeCut cs

theorem EscapeSpec.map {cs cs' : List Char} {x : Except (Halt String) Bytes}
    (h : EscapeSpec cs x) (hcut : EscapeCut cs' ↔ EscapeCut cs) (f : Bytes → Bytes) :
    EscapeSpec cs' (x.map f) := by
  rcases h with ⟨rfl, h⟩ | ⟨⟨b, rfl⟩, h⟩
  · exact .inl ⟨rfl, hcut.mpr h⟩
  · exact .inr ⟨⟨f b, rfl⟩, fun h' ↦ h (hcut.mp h')⟩

theorem escapeSpec (cs : List Char) : EscapeSpec cs (decodeEscapes cs) := by
  induction cs using decodeEscapes.induct with
  | case1 =>
    refine .inr ⟨⟨[], by rw [decodeEscapes]⟩, ?_⟩
    rintro ⟨pre, post, h, -⟩
    cases pre <;> cases h
  | case2 c a b ds ha hb hc =>
    refine .inl ⟨?_, [], a :: b :: ds, by rw [hc.1]; rfl, .inr ⟨ha, hb⟩⟩
    rw [decodeEscapes, if_pos hc]
    simp [ha, hb]
  | case3 c a b ds ha hb v hv hc ih =>
    have hrun : decodeEscapes (c :: a :: b :: ds) = (decodeEscapes ds).map (v :: ·) := by
      rw [decodeEscapes, if_pos hc]
      simp only [if_pos ha, if_neg hb, hv]
    rw [hrun]
    refine ih.map ?_ _
    rw [escapeCut_cons, CutPair, ha, not_not.mp hb, escapeCut_skip (by rw [hv]; rfl)]
    simp
  | case4 c a b ds ha hb e he hc ih =>
    have hrun : decodeEscapes (c :: a :: b :: ds) =
        (decodeEscapes (a :: b :: ds)).map (0x25 :: ·) := by
      rw [decodeEscapes, if_pos hc]
      simp only [if_pos ha, if_neg hb, he]
    rw [hrun]
    refine ih.map ?_ _
    rw [escapeCut_cons, CutPair, ha, not_not.mp hb]
    simp
  | case5 c a b ds ha₁ ha₂ hc ih =>
    have hrun : decodeEscapes (c :: a :: b :: ds) =
        (decodeEscapes (a :: b :: ds)).map (0x25 :: ·) := by
      rw [decodeEscapes, if_pos hc]
      simp only [if_neg ha₁, if_pos ha₂]
    rw [hrun]
    refine ih.map ?_ _
    rw [escapeCut_cons, CutPair, ha₂]
    simp
  | case6 c a b ds ha₁ ha₂ hc =>
    have hpos := utf8Size_pos a
    refine .inl ⟨?_, [], a :: b :: ds, by rw [hc.1]; rfl, .inl (by omega)⟩
    rw [decodeEscapes, if_pos hc]
    simp only [if_neg ha₁, if_neg ha₂]
  | case7 c a ha hc ih =>
    have hrun : decodeEscapes [c, a] = (decodeEscapes [a]).map (0x25 :: ·) := by
      rw [decodeEscapes, if_pos hc]
      simp only [if_pos ha]
    rw [hrun]
    refine ih.map ?_ _
    rw [escapeCut_cons, CutPair, ha]
    simp
  | case8 c a ha hc =>
    have hlen := hc.2
    simp only [Text.byteLen, List.map_cons, List.map_nil, List.sum_cons, List.sum_nil] at hlen
    have hbig : 3 ≤ a.utf8Size := by omega
    refine .inl ⟨?_, [], [a], by rw [hc.1]; rfl, hbig⟩
    rw [decodeEscapes, if_pos hc]
    simp only [if_neg ha]
  | case9 c hc => exact absurd hc.2 (by simp [Text.byteLen])
  | case10 c cs hc ih =>
    have hrun : decodeEscapes (c :: cs) =
        (decodeEscapes cs).map (String.utf8EncodeChar c ++ ·) := by
      rw [decodeEscapes.eq_def]
      simp only [if_neg hc]
    rw [hrun]
    refine ih.map ?_ _
    rw [escapeCut_cons]
    refine or_iff_right ?_
    rintro ⟨rfl, hcut⟩
    exact hc ⟨rfl, byteLen_of_cutPair hcut⟩

/-- When `decode_dump_string` panics; otherwise it returns a text. -/
theorem decodeDumpString_panics_iff (cs : List Char) :
    decodeDumpString cs = .error .panic ↔ EscapeCut cs := by
  rw [decodeDumpString]
  rcases escapeSpec cs with ⟨hx, hcut⟩ | ⟨⟨b, hx⟩, hcut⟩
  · rw [hx]
    exact iff_of_true rfl hcut
  · rw [hx]
    exact iff_of_false (fun h ↦ by cases h) hcut

/-! ## Txids and outpoints -/

theorem txidFromHex_panics_iff (s : String) : txidFromHex s = .error .panic ↔ UnhexCut s := by
  rw [← unhex_panics_iff, txidFromHex]
  cases hx : unhex s with
  | error e =>
    cases e with
    | error m => exact iff_of_false (fun h ↦ by cases h) fun h ↦ by cases h
    | panic => exact iff_of_true rfl rfl
  | ok v =>
    refine iff_of_false (fun h ↦ ?_) fun h ↦ by cases h
    obtain ⟨a, ha⟩ | hnone : (∃ a, Bytes.toArr? 32 v = some a) ∨ Bytes.toArr? 32 v = none := by
      cases Bytes.toArr? 32 v with
      | some a => exact .inl ⟨a, rfl⟩
      | none => exact .inr rfl
    · simp [bind, Except.bind, ha, pure, Except.pure] at h
    · simp [bind, Except.bind, hnone] at h

/-- The text before the last colon is cut by `unhex`. -/
def OutPointCut (s : String) : Prop :=
  ∃ t n, rsplitColon s.toList = some (t, n) ∧ UnhexCut (String.ofList t)

theorem parseOutPoint_panics_iff (s : String) :
    parseOutPoint s = .error .panic ↔ OutPointCut s := by
  unfold parseOutPoint OutPointCut
  cases hs : rsplitColon s.toList with
  | none => simp
  | some x =>
    obtain ⟨t, n⟩ := x
    have hcut := txidFromHex_panics_iff (String.ofList t)
    simp only [Option.some.injEq, Prod.mk.injEq]
    cases hx : txidFromHex (String.ofList t) with
    | error e =>
      rw [hx] at hcut
      cases e with
      | error m =>
        refine iff_of_false (fun h ↦ by cases h) ?_
        rintro ⟨t', n', ⟨rfl, rfl⟩, h⟩
        cases hcut.mpr h
      | panic => exact iff_of_true rfl ⟨t, n, ⟨rfl, rfl⟩, hcut.mp rfl⟩
    | ok v =>
      rw [hx] at hcut
      refine iff_of_false (fun h ↦ ?_) ?_
      · dsimp only at h
        cases hn : Text.parseU32 (String.ofList n) <;> simp [hn] at h
      · rintro ⟨t', n', ⟨rfl, rfl⟩, h⟩
        cases hcut.mpr h

/-! ## The signer -/

/-- The step of a request was answered: with a value, or with a refusal. -/
def Answered {α : Type} (x : M α) : Prop := ∀ s, (x s).1 ≠ .error .panic

theorem answered_orHalt {α : Type} {x : Except (Halt String) α} (hx : x ≠ .error .panic)
    (code : String) (text : String → String) : Answered (orHalt code text x) := by
  intro s hs
  match x, hx with
  | .ok a, _ => cases hs
  | .error (.error e), _ => cases hs
  | .error .panic, hx => exact hx rfl

theorem answered_outPointOr {s : String} (hs : parseOutPoint s ≠ .error .panic)
    (code reason : String) : Answered (outPointOr code reason s) := by
  refine answered_orHalt (fun h ↦ hs ?_) code _
  match hx : parseOutPoint s with
  | .ok a =>
    rw [hx] at h
    cases h
  | .error (.error e) =>
    rw [hx] at h
    cases h
  | .error .panic => rfl

/-- The label of a dump's line is read by `decode_dump_string`. -/
theorem labelOf_label (s : String) : labelOf (some "") ["label=".toList ++ s.toList] =
    (decodeDumpString s.toList).map some := by
  have hstrip : stripStart "label=" ("label=".toList ++ s.toList) = some s.toList := by
    simp [stripStart]
  have hne : ("label=".toList ++ s.toList).head? ≠ some '#' := by simp
  rw [labelOf, if_neg hne]
  simp only [hstrip]
  cases decodeDumpString s.toList <;> rfl

/-- What reading a text is to do: end with a value or an error, and give back what it took; and so
the steps in which the signer reads it, from a request or a dump's line, are answered. -/
structure Decodes (s : String) : Prop where
  hex : unhex s ≠ .error .panic
  txid : txidFromHex s ≠ .error .panic
  outPoint : parseOutPoint s ≠ .error .panic
  dump : decodeDumpString s.toList ≠ .error .panic
  faithful : ∀ b, unhex s = .ok b → Keys.hex b = Text.toAsciiLowercase (Text.trim s)
  signer : ∀ code reason text, Answered (orHalt code text (txidFromHex s)) ∧
    Answered (outPointOr code reason s) ∧
      Answered (orHalt code text (labelOf (some "") ["label=".toList ++ s.toList]))

/-- A text is read as it is to be exactly when no slice of it is cut, as a whole, before its last
colon or behind a percent sign, and it is not made of pairs one of which has a plus sign. -/
theorem decodes_iff (s : String) : Decodes s ↔
    ¬ UnhexCut s ∧ ¬ OutPointCut s ∧ ¬ EscapeCut s.toList ∧
      (Readable (Text.trimChars s.toList) → '+' ∉ Text.trimChars s.toList) := by
  rw [← unhex_panics_iff, ← parseOutPoint_panics_iff, ← decodeDumpString_panics_iff,
    ← hex_unhex_iff]
  constructor
  · intro h
    exact ⟨h.hex, h.outPoint, h.dump, h.faithful⟩
  · rintro ⟨hhex, hop, hdump, hfaithful⟩
    have htxid : txidFromHex s ≠ .error .panic := by
      rw [ne_eq, txidFromHex_panics_iff, ← unhex_panics_iff]
      exact hhex
    refine ⟨hhex, htxid, hop, hdump, hfaithful, fun code reason text ↦
      ⟨answered_orHalt htxid code text, answered_outPointOr hop code reason, ?_⟩⟩
    rw [labelOf_label]
    refine answered_orHalt (fun h ↦ hdump ?_) code text
    cases hx : decodeDumpString s.toList with
    | ok a =>
      rw [hx] at h
      cases h
    | error e =>
      rw [hx] at h
      cases h
      rfl

/-- A character of three bytes before a digit, a plus sign before a digit, and a character of three
bytes behind a percent sign. -/
theorem not_decodes : ¬ Decodes "€0" ∧ ¬ Decodes "+f" ∧ ¬ Decodes "%€" := by
  refine ⟨fun h ↦ ?_, fun h ↦ ?_, fun h ↦ ?_⟩
  · refine h.hex ((unhex_panics_iff _).mpr ⟨by decide, [], ['€', '0'], by decide, trivial, ?_⟩)
    exact .inl (by decide)
  · exact absurd (h.faithful [0x0f] (by decide)) (by decide)
  · refine h.dump ((decodeDumpString_panics_iff _).mpr ⟨[], ['€'], by decide, ?_⟩)
    show 3 ≤ '€'.utf8Size
    decide

end Yew.Signer
