import Yew.Core.Tx

/-!
# The reader and the writer

Two ways of speaking about a read.  `Yields x u a` says that `x` reads the bytes `u` as `a`
wherever they stand; `Takes x P` says what every successful run of `x` consumed and returned.
Both compose along `>>=`, so the codec of a structure follows from those of its fields.

A CompactSize has up to four forms of which the writer uses the shortest.  So the bytes a reader
took for a value are never shorter than the writer's, and they are the writer's when they are of
the same length: that is `NoLonger`, and it is kept by appending.

The readers are the methods of `Reader` in `core/src/tx.rs`, the writers its `write_*` functions.  A
structure is read field by field in the order it is written, and the rules follow that order.
-/

namespace Yew.Tx

variable {α β : Type}

/-! ## Reads that succeed -/

/-- `x` reads the bytes `u` as `a`, whatever stands behind them. -/
def Yields (x : Read α) (u : Bytes) (a : α) : Prop :=
  ∀ (pos : Nat) (rest : Bytes), x ⟨pos, u ++ rest⟩ = .ok (a, ⟨pos + u.length, rest⟩)

namespace Yields

theorem pure (a : α) : Yields (pure a) [] a := fun _ _ ↦ rfl

theorem bind {x : Read α} {f : α → Read β} {u v : Bytes} {a : α} {b : β}
    (hx : Yields x u a) (hf : Yields (f a) v b) : Yields (x >>= f) (u ++ v) b := by
  intro pos rest
  have hx' := hx pos (v ++ rest)
  have hf' := hf (pos + u.length) rest
  simp only [Bind.bind, StateT.bind, List.append_assoc, hx', Except.bind, hf', List.length_append,
    Nat.add_assoc]

/-- A read whose result is only repackaged. -/
theorem map {x : Read α} {f : α → β} {u : Bytes} {a : α} (hx : Yields x u a) :
    Yields (x >>= fun a ↦ Pure.pure (f a)) u (f a) := by
  have h := hx.bind (f := fun a ↦ Pure.pure (f a)) (Yields.pure (f a))
  rwa [List.append_nil] at h

/-- Equal bytes are read alike. -/
theorem congr {x : Read α} {u v : Bytes} {a : α} (hx : Yields x u a) (h : u = v) :
    Yields x v a := h ▸ hx

end Yields

/-! ## What a read took -/

/-- Every successful run of `x` consumed some bytes `u` and returned some `a` with `P u a`. -/
def Takes (x : Read α) (P : Bytes → α → Prop) : Prop :=
  ∀ (r r' : Cursor) (a : α), x r = .ok (a, r') → ∃ u, r.rest = u ++ r'.rest ∧ P u a

namespace Takes

theorem pure (a : α) : Takes (pure a) fun u b ↦ u = [] ∧ b = a := by
  intro r r' b h
  cases h
  exact ⟨[], rfl, rfl, rfl⟩

theorem mono {x : Read α} {P Q : Bytes → α → Prop} (hx : Takes x P)
    (h : ∀ u a, P u a → Q u a) : Takes x Q := by
  intro r r' a hr
  obtain ⟨u, hu, hP⟩ := hx r r' a hr
  exact ⟨u, hu, h u a hP⟩

theorem bind {x : Read α} {f : α → Read β} {P : Bytes → α → Prop} {Q : Bytes → β → Prop}
    (hx : Takes x P) (hf : ∀ u a, P u a → Takes (f a) fun v b ↦ Q (u ++ v) b) :
    Takes (x >>= f) Q := by
  intro r r'' b h
  simp only [Bind.bind, StateT.bind] at h
  cases hxr : x r with
  | error e => simp [hxr, Except.bind] at h
  | ok p =>
    obtain ⟨a, r'⟩ := p
    simp only [hxr, Except.bind] at h
    obtain ⟨u, hu, hP⟩ := hx r r' a hxr
    obtain ⟨v, hv, hQ⟩ := hf u a hP r' r'' b h
    exact ⟨u ++ v, by rw [hu, hv, List.append_assoc], hQ⟩

/-- A read whose result is only repackaged. -/
theorem map {x : Read α} {f : α → β} {P : Bytes → α → Prop} {Q : Bytes → β → Prop}
    (hx : Takes x P) (h : ∀ u a, P u a → Q u (f a)) :
    Takes (x >>= fun a ↦ Pure.pure (f a)) Q := by
  refine hx.bind fun u a hP ↦ (Takes.pure (f a)).mono ?_
  rintro v b ⟨rfl, rfl⟩
  rw [List.append_nil]
  exact h u a hP

theorem truncated (P : Bytes → α → Prop) : Takes truncated P := by
  intro r r' a h
  cases h

theorem throw (e : TxError) (P : Bytes → α → Prop) : Takes (throw e) P := by
  intro r r' a h
  cases h

end Takes

/-! ## Bytes and words -/

theorem yields_take {n : Nat} {u : Bytes} (h : u.length = n) : Yields (take n) u u := by
  intro pos rest
  rw [take, Bytes.split?_append rest h, h]

theorem takes_take (n : Nat) : Takes (take n) fun u a ↦ a = u ∧ u.length = n := by
  intro r r' a h
  rw [take] at h
  split at h
  · rename_i b rest hs
    cases h
    obtain ⟨hrest, hlen⟩ := Bytes.split?_eq_some.mp hs
    exact ⟨a, hrest, rfl, hlen⟩
  · cases h

theorem yields_readU32 (n : UInt32) : Yields readU32 (writeU32 n) n := by
  have h := (yields_take (Bytes.length_leOfNat 4 n.toNat)).map
    (f := fun s ↦ UInt32.ofNat (Bytes.leToNat s))
  rw [Bytes.leToNat_leOfNat n.toNat_lt, UInt32.ofNat_toNat] at h
  exact h

theorem takes_readU32 : Takes readU32 fun u n ↦ u = writeU32 n := by
  refine (takes_take 4).map ?_
  rintro u a ⟨rfl, hlen⟩
  have hlt : Bytes.leToNat a < UInt32.size := by
    have h := Bytes.leToNat_lt a
    rwa [hlen] at h
  rw [writeU32, UInt32.toNat_ofNat_of_lt' hlt, ← hlen, Bytes.leOfNat_leToNat]

theorem yields_readU64 {n : Nat} (h : n < 2 ^ 64) : Yields readU64 (Bytes.leOfNat 8 n) n := by
  have h' := (yields_take (Bytes.length_leOfNat 8 n)).map (f := Bytes.leToNat)
  rwa [Bytes.leToNat_leOfNat h] at h'

theorem takes_readU64 : Takes readU64 fun u n ↦ n < 2 ^ 64 ∧ u = Bytes.leOfNat 8 n := by
  refine (takes_take 8).map ?_
  rintro u a ⟨rfl, hlen⟩
  have hlt := Bytes.leToNat_lt a
  refine ⟨by rwa [hlen] at hlt, ?_⟩
  rw [← hlen, Bytes.leOfNat_leToNat]

theorem yields_readI64 (n : Int64) : Yields readI64 (writeI64 n) n := by
  have h := (yields_readU64 n.toUInt64.toNat_lt).map (f := fun m ↦ (UInt64.ofNat m).toInt64)
  rw [UInt64.ofNat_toNat, Int64.toInt64_toUInt64] at h
  exact h

theorem takes_readI64 : Takes readI64 fun u n ↦ u = writeI64 n := by
  refine takes_readU64.map ?_
  rintro u n ⟨hn, rfl⟩
  rw [writeI64, UInt64.toUInt64_toInt64, UInt64.toNat_ofNat_of_lt' hn]

/-! ## The shortest form -/

/-- `w` is no longer than `u`, and is `u` if it is of the same length. -/
def NoLonger (w u : Bytes) : Prop := w.length ≤ u.length ∧ (w.length = u.length → w = u)

namespace NoLonger

theorem refl (u : Bytes) : NoLonger u u := ⟨le_rfl, fun _ ↦ rfl⟩

theorem of_lt {w u : Bytes} (h : w.length < u.length) : NoLonger w u :=
  ⟨h.le, fun heq ↦ absurd heq h.ne⟩

theorem append {w w' u u' : Bytes} (h : NoLonger w u) (h' : NoLonger w' u') :
    NoLonger (w ++ w') (u ++ u') := by
  obtain ⟨hle, heq⟩ := h
  obtain ⟨hle', heq'⟩ := h'
  refine ⟨by simp only [List.length_append]; omega, fun hlen ↦ ?_⟩
  simp only [List.length_append] at hlen
  rw [heq (by omega), heq' (by omega)]

end NoLonger

/-! ## Counts and scripts -/

/-- The number of bytes `write_compact_size` uses: the `compact` of `zip317_conventional_fee`. -/
def compact (n : Nat) : Nat :=
  if n ≤ 252 then 1 else if n ≤ 0xffff then 3 else if n ≤ 0xffffffff then 5 else 9

theorem length_writeCompactSize (n : Nat) : (writeCompactSize n).length = compact n := by
  unfold writeCompactSize compact
  split_ifs <;> first | omega | simp

theorem yields_compactSize {n : Nat} (h : n < 2 ^ 64) :
    Yields compactSize (writeCompactSize n) n := by
  have hfirst (b : UInt8) : Yields (take 1) [b] [b] := yields_take rfl
  unfold compactSize writeCompactSize
  split_ifs with h₁ h₂ h₃
  · refine (hfirst _).bind ?_
    have hval : Bytes.leToNat [UInt8.ofNat n] = n := by
      simp only [Bytes.leToNat, UInt8.toNat_ofNat']
      omega
    rw [hval]
    split
    all_goals first | omega | exact Yields.pure n
  · have hread := (yields_take (Bytes.length_leOfNat 2 n)).map (f := Bytes.leToNat)
    rw [Bytes.leToNat_leOfNat (by omega)] at hread
    exact (hfirst 253).bind hread
  · have hread := (yields_readU32 (UInt32.ofNat n)).map (f := UInt32.toNat)
    rw [writeU32, UInt32.toNat_ofNat_of_lt' (by simp only [UInt32.size]; omega)] at hread
    exact (hfirst 254).bind hread
  · exact (hfirst 255).bind (yields_readU64 h)

/-- A count is read in any of its forms, the writer's being the shortest. -/
theorem takes_compactSize :
    Takes compactSize fun u n ↦ n < 2 ^ 64 ∧ NoLonger (writeCompactSize n) u := by
  unfold compactSize
  refine (takes_take 1).bind ?_
  rintro u a ⟨rfl, hlen⟩
  obtain ⟨b, rfl⟩ := List.length_eq_one_iff.mp hlen
  have hval : Bytes.leToNat [b] = b.toNat := by simp [Bytes.leToNat]
  have hb : b.toNat < 256 := b.toNat_lt
  have hback : UInt8.ofNat b.toNat = b := UInt8.ofNat_toNat
  rw [hval]
  split
  · rename_i hfirst
    rw [hfirst] at hback
    refine (takes_take 2).map ?_
    rintro v a ⟨rfl, hv⟩
    have hlt := Bytes.leToNat_lt a
    have hw := Bytes.leOfNat_leToNat a
    rw [hv] at hlt hw
    refine ⟨by omega, ?_⟩
    unfold writeCompactSize
    split_ifs with h₁ h₂
    · exact .of_lt (by simp [hv])
    · rw [hw, ← hback]
      exact .refl _
    all_goals omega
  · rename_i hfirst
    rw [hfirst] at hback
    refine takes_readU32.map ?_
    rintro v n rfl
    have hlt := n.toNat_lt
    refine ⟨by omega, ?_⟩
    unfold writeCompactSize
    split_ifs with h₁ h₂ h₃
    · exact .of_lt (by simp [writeU32])
    · exact .of_lt (by simp [writeU32])
    · rw [writeU32, ← hback]
      exact .refl _
    · omega
  · rename_i hfirst
    rw [hfirst] at hback
    refine takes_readU64.mono ?_
    rintro v n ⟨hn, rfl⟩
    refine ⟨hn, ?_⟩
    unfold writeCompactSize
    split_ifs with h₁ h₂ h₃
    · exact .of_lt (by simp)
    · exact .of_lt (by simp)
    · exact .of_lt (by simp)
    · rw [← hback]
      exact .refl _
  · rename_i h₁ h₂ h₃
    have hsmall : b.toNat < 253 := by
      change b.toNat ≠ 253 at h₁
      change b.toNat ≠ 254 at h₂
      change b.toNat ≠ 255 at h₃
      omega
    refine (Takes.pure _).mono ?_
    rintro v n ⟨rfl, rfl⟩
    refine ⟨by omega, ?_⟩
    rw [writeCompactSize, if_pos hsmall, hback]
    exact .refl _

theorem yields_varBytes {s : Bytes} (h : s.length ≤ 2 ^ 24) : Yields varBytes (writeScript s) s := by
  have hlt : s.length < 2 ^ 64 := by omega
  refine (yields_compactSize hlt).bind ?_
  rw [if_neg (by omega)]
  exact yields_take rfl

theorem takes_varBytes :
    Takes varBytes fun u s ↦ s.length ≤ 2 ^ 24 ∧ NoLonger (writeScript s) u := by
  refine takes_compactSize.bind ?_
  rintro u n ⟨-, hu⟩
  split
  · exact .truncated _
  · refine (takes_take n).mono ?_
    rintro v s ⟨rfl, rfl⟩
    exact ⟨by omega, hu.append (.refl s)⟩

/-! ## Sequences -/

theorem yields_readMany {item : Read α} {write : α → Bytes} {as : List α}
    (h : ∀ a ∈ as, Yields item (write a) a) :
    Yields (readMany item as.length) (as.flatMap write) as := by
  induction as with
  | nil => exact Yields.pure []
  | cons a as ih =>
    have hhead := h a List.mem_cons_self
    have htail := ih fun a' ha' ↦ h a' (List.mem_cons_of_mem a ha')
    exact hhead.bind htail.map

theorem takes_readMany {item : Read α} {write : α → Bytes} {Q : α → Prop}
    (h : Takes item fun u a ↦ Q a ∧ NoLonger (write a) u) (n : Nat) :
    Takes (readMany item n) fun u as ↦
      as.length = n ∧ (∀ a ∈ as, Q a) ∧ NoLonger (as.flatMap write) u := by
  induction n with
  | zero =>
    refine (Takes.pure []).mono ?_
    rintro u as ⟨rfl, rfl⟩
    exact ⟨rfl, by simp, .refl []⟩
  | succ n ih =>
    refine h.bind ?_
    rintro u a ⟨hQ, hu⟩
    refine ih.map ?_
    rintro v as ⟨hlen, hQs, hv⟩
    refine ⟨by rw [List.length_cons, hlen], ?_, ?_⟩
    · simpa [hQ] using hQs
    · rw [List.flatMap_cons]
      exact hu.append hv

end Yew.Tx
