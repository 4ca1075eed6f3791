import Yew.Core.Script

/-!
# Scripts read back operation by operation

A script is put together from pushes and opcodes.  Each piece `Spells` its operations whatever
comes behind it, so what `ops` reads from the whole is the pieces' operations in turn.

The reader is `ops` of `core/src/script.rs`.  `Spells` composes along appending, so that a template
is read by a chain of its pieces and never by unfolding the reader.
-/

namespace Yew.Script

/-- A piece of script whose operations are `os`, whatever comes behind it. -/
def Spells (s : Bytes) (os : List ScriptOp) : Prop :=
  ∀ fuel pc rest, s.length + rest.length ≤ fuel →
    ∃ fuel' pc', rest.length ≤ fuel' ∧
      opsFrom fuel pc (s ++ rest) = (opsFrom fuel' pc' rest).map (os ++ ·)

namespace Spells

theorem nil : Spells [] [] := by
  intro fuel pc rest h
  refine ⟨fuel, pc, by simpa using h, ?_⟩
  rw [List.nil_append]
  cases opsFrom fuel pc rest <;> rfl

theorem append {s t : Bytes} {os qs : List ScriptOp} (hs : Spells s os) (ht : Spells t qs) :
    Spells (s ++ t) (os ++ qs) := by
  intro fuel pc rest h
  rw [List.length_append] at h
  obtain ⟨fuel₁, pc₁, h₁, hs⟩ := hs fuel pc (t ++ rest) (by simp; omega)
  obtain ⟨fuel₂, pc₂, h₂, ht⟩ := ht fuel₁ pc₁ rest (by simpa using h₁)
  refine ⟨fuel₂, pc₂, h₂, ?_⟩
  rw [List.append_assoc, hs, ht]
  cases opsFrom fuel₂ pc₂ rest with
  | error e => rfl
  | ok rs => simp [Except.map]

/-- One operation in front. -/
theorem of_readOp {opcode : UInt8} {tail : Bytes} {o : ScriptOp}
    (h : ∀ start rest, ∃ pc, readOp opcode start (tail ++ rest) = .ok (o, pc, rest)) :
    Spells (opcode :: tail) [o] := by
  intro fuel pc rest hfuel
  cases fuel with
  | zero => simp at hfuel
  | succ fuel =>
    obtain ⟨pc', hread⟩ := h pc rest
    refine ⟨fuel, pc', by simp at hfuel; omega, ?_⟩
    simp only [List.cons_append, opsFrom, hread, bind, Except.bind]
    cases opsFrom fuel pc' rest <;> rfl

/-- An opcode that pushes nothing. -/
theorem opcode {o : UInt8} (h : opPushdata4 < o) : Spells [o] [⟨o, []⟩] := by
  refine of_readOp fun start rest ↦ ⟨start + 1, ?_⟩
  rw [readOp, if_neg (UInt8.not_le.mpr h)]
  rfl

/-- Opcodes that push nothing. -/
theorem opcodes {s : Bytes} (h : ∀ o ∈ s, opPushdata4 < o) : Spells s (s.map (⟨·, []⟩)) := by
  induction s with
  | nil => exact nil
  | cons o s ih =>
    exact (opcode (h o List.mem_cons_self)).append
      (ih fun p hp ↦ h p (List.mem_cons_of_mem o hp))

theorem ops_eq {s : Bytes} {os : List ScriptOp} (h : Spells s os) : ops s = .ok os := by
  obtain ⟨fuel, pc, -, h⟩ := h s.length 0 [] (by simp)
  rw [List.append_nil] at h
  rw [ops, h]
  cases fuel <;> simp [opsFrom, Except.map]

end Spells

/-! ## Pushes -/

/-- The operation of a push of at most 255 bytes. -/
def pushOp (data : Bytes) : ScriptOp :=
  ⟨if data.length < opPushdata1.toNat then UInt8.ofNat data.length else opPushdata1, data⟩

theorem toNat_ofNat_of_lt {n : Nat} (h : n < 256) : (UInt8.ofNat n).toNat = n := by
  rw [UInt8.toNat_ofNat']
  omega

theorem pushOp_opcode_le (data : Bytes) : (pushOp data).opcode ≤ opPushdata4 := by
  rw [pushOp]
  dsimp only
  split
  · rename_i h
    rw [show opPushdata1.toNat = 76 from rfl] at h
    rw [UInt8.le_iff_toNat_le, toNat_ofNat_of_lt (by omega), show opPushdata4.toNat = 78 from rfl]
    omega
  · decide

theorem Spells.pushData {data : Bytes} (h : data.length ≤ 255) :
    Spells (pushData data) [pushOp data] := by
  have hle := pushOp_opcode_le data
  unfold Script.pushData
  dsimp only
  rw [pushOp] at hle ⊢
  split
  · rename_i hshort
    rw [if_pos hshort] at hle
    rw [show opPushdata1.toNat = 76 from rfl] at hshort
    have hlt : UInt8.ofNat data.length < opPushdata1 := by
      rw [UInt8.lt_iff_toNat_lt, toNat_ofNat_of_lt (by omega)]
      exact hshort
    refine of_readOp fun start rest ↦ ⟨start + 1 + data.length, ?_⟩
    rw [readOp, if_pos hle, pushLength]
    simp only [hlt, if_true, bind, Except.bind]
    rw [toNat_ofNat_of_lt (by omega), Bytes.split?_append rest rfl]
  · rename_i hlong
    refine of_readOp fun start rest ↦ ⟨start + 1 + 1 + data.length, ?_⟩
    rw [readOp, if_pos (by decide), pushLength, if_neg (by decide)]
    simp only [if_true, bind, Except.bind]
    have hmarker : Bytes.split? 1 (UInt8.ofNat data.length :: data ++ rest) =
        some ([UInt8.ofNat data.length], data ++ rest) :=
      Bytes.split?_append (u := [UInt8.ofNat data.length]) _ rfl
    rw [hmarker]
    dsimp only
    rw [Bytes.leToNat, Bytes.leToNat, toNat_ofNat_of_lt (by omega), Nat.mul_zero, Nat.add_zero,
      Bytes.split?_append rest rfl]

/-- A push behind a length of `k` bytes. -/
theorem Spells.longPush {k : Nat} {marker : UInt8} {data : Bytes} (hlow : ¬ marker < opPushdata1)
    (hle : marker ≤ opPushdata4)
    (hk : (if marker = opPushdata1 then 1 else if marker = opPushdata2 then 2 else 4) = k)
    (h : data.length < 256 ^ k) :
    Spells (marker :: (Bytes.leOfNat k data.length ++ data)) [⟨marker, data⟩] := by
  refine of_readOp fun start rest ↦ ⟨start + 1 + k + data.length, ?_⟩
  rw [readOp, if_pos hle, pushLength, if_neg hlow]
  simp only [bind, Except.bind, List.append_assoc]
  have hmarker : Bytes.split? k (Bytes.leOfNat k data.length ++ (data ++ rest)) =
      some (Bytes.leOfNat k data.length, data ++ rest) :=
    Bytes.split?_append _ (Bytes.length_leOfNat k _)
  rw [hk, hmarker]
  dsimp only
  rw [Bytes.leToNat_leOfNat h, Bytes.split?_append rest rfl]

/-- A push whose length is a `u32` is one operation, whichever of its forms it has. -/
theorem Spells.exists_pushOp_of_lt {data : Bytes} (h : data.length < 2 ^ 32) :
    ∃ o, Spells (Script.pushData data) [o] ∧ o.data = data ∧ o.opcode ≤ opPushdata4 := by
  by_cases hshort : data.length ≤ 255
  · exact ⟨pushOp data, Spells.pushData hshort, rfl, pushOp_opcode_le data⟩
  unfold Script.pushData
  dsimp only
  rw [if_neg (by rw [show opPushdata1.toNat = 76 from rfl]; omega), if_neg (by omega)]
  by_cases hmid : data.length ≤ 0xffff
  · rw [if_pos hmid]
    exact ⟨⟨opPushdata2, data⟩, longPush (by decide) (by decide) (by decide) (by omega), rfl,
      show opPushdata2 ≤ opPushdata4 by decide⟩
  · rw [if_neg hmid]
    exact ⟨⟨opPushdata4, data⟩, longPush (by decide) (by decide) (by decide) (by omega), rfl,
      show opPushdata4 ≤ opPushdata4 by decide⟩

/-- A push of up to 65,535 bytes is one operation. -/
theorem Spells.exists_pushOp {data : Bytes} (h : data.length ≤ 0xffff) :
    ∃ o, Spells (Script.pushData data) [o] ∧ o.data = data ∧ o.opcode ≤ opPushdata4 :=
  exists_pushOp_of_lt (by omega)

/-! ## Numbers -/

/-- A number below `256 ^ k` takes at most `k` bytes. -/
theorem length_magnitude_le_of_lt {fuel n k : Nat} (h : n < 256 ^ k) :
    (magnitude fuel n).length ≤ k := by
  induction k generalizing fuel n with
  | zero =>
    obtain rfl : n = 0 := by simpa using h
    cases fuel <;> simp [magnitude]
  | succ k ih =>
    cases fuel with
    | zero => simp [magnitude]
    | succ fuel =>
      rw [magnitude]
      split
      · simp
      · have := @ih fuel (n / 256) (Nat.div_lt_of_lt_mul (by rwa [← pow_succ']))
        simpa using this

theorem leToNat_magnitude {fuel n : Nat} (h : n < 256 ^ fuel) :
    Bytes.leToNat (magnitude fuel n) = n := by
  induction fuel generalizing n with
  | zero =>
    obtain rfl : n = 0 := by simpa using h
    rfl
  | succ fuel ih =>
    rw [magnitude]
    split
    · rename_i hzero
      rw [hzero]
      rfl
    · rw [Bytes.leToNat, ih (Nat.div_lt_of_lt_mul (by rwa [← pow_succ'])), UInt8.toNat_ofNat']
      omega

theorem leToNat_append (s t : Bytes) :
    Bytes.leToNat (s ++ t) = Bytes.leToNat s + 256 ^ s.length * Bytes.leToNat t := by
  induction s with
  | nil => simp [Bytes.leToNat]
  | cons b s ih =>
    rw [List.cons_append, Bytes.leToNat, ih, Bytes.leToNat, List.length_cons, pow_succ', Nat.mul_add,
      Nat.mul_assoc, Nat.add_assoc]

/-- The bytes of a positive number: the last is not zero. -/
theorem exists_magnitude {n : Nat} (hpos : 0 < n) (hlt : n < 256 ^ 8) :
    ∃ init last, magnitude 8 n = init ++ [last] ∧ 256 ^ init.length ≤ n ∧
      n = Bytes.leToNat init + 256 ^ init.length * last.toNat := by
  have hout : Bytes.leToNat (magnitude 8 n) = n := leToNat_magnitude hlt
  have hne : magnitude 8 n ≠ [] := by
    intro h
    rw [h] at hout
    exact hpos.ne hout
  obtain ⟨init, last, heq⟩ : ∃ init last, magnitude 8 n = init ++ [last] :=
    ⟨_, _, (List.dropLast_append_getLast hne).symm⟩
  refine ⟨init, last, heq, ?_, ?_⟩
  · by_contra hsmall
    have hlen := @length_magnitude_le_of_lt 8 n init.length (by omega)
    rw [heq, List.length_append, List.length_singleton] at hlen
    omega
  · rw [heq, leToNat_append] at hout
    simpa [Bytes.leToNat] using hout.symm

/-- What the bytes of a script number say: the magnitude, with the sign in the top bit of the last
byte. -/
def scriptNumValue (b : Bytes) : Int :=
  match b.getLast? with
  | none => 0
  | some last =>
    let v : Int := Bytes.leToNat (b.dropLast ++ [last &&& 0x7f])
    if last &&& 0x80 ≠ 0 then -v else v

theorem byte_facts : ∀ b : UInt8, (b &&& 0x80 = 0 → b &&& 0x7f = b ∧ (b ||| 0x80) &&& 0x7f = b ∧
    (b ||| 0x80) &&& 0x80 ≠ 0) ∧ (b &&& 0x80 ≠ 0 → 128 ≤ b.toNat) ∧ (b &&& 0x7f).toNat < 128 := by
  rintro ⟨⟨i⟩⟩
  revert i
  decide +kernel

theorem scriptNumValue_append (init : Bytes) (last : UInt8) :
    scriptNumValue (init ++ [last]) =
      if last &&& 0x80 ≠ 0 then
        -((Bytes.leToNat init + 256 ^ init.length * (last &&& 0x7f).toNat : Nat) : Int)
      else ((Bytes.leToNat init + 256 ^ init.length * (last &&& 0x7f).toNat : Nat) : Int) := by
  have hv : Bytes.leToNat (init ++ [last &&& 0x7f]) =
      Bytes.leToNat init + 256 ^ init.length * (last &&& 0x7f).toNat := by
    rw [leToNat_append]
    simp [Bytes.leToNat]
  simp only [scriptNumValue, List.getLast?_append, List.getLast?_singleton, Option.some_or,
    List.dropLast_concat, hv]

/-- The two forms of a number that is not zero: a byte for the sign behind a magnitude whose top bit
is taken, else the sign in the top bit. -/
theorem scriptNumEncode_cases {n : Int} (hne : n ≠ 0) (hlt : n.natAbs < 256 ^ 8) :
    ∃ init last, 256 ^ init.length ≤ n.natAbs ∧
      n.natAbs = Bytes.leToNat init + 256 ^ init.length * last.toNat ∧
      (last &&& 0x80 ≠ 0 ∧ scriptNumEncode n = init ++ [last] ++ [if n < 0 then 0x80 else 0] ∨
        last &&& 0x80 = 0 ∧ scriptNumEncode n = init ++ [if n < 0 then last ||| 0x80 else last]) := by
  obtain ⟨init, last, heq, hge, hvalue⟩ := exists_magnitude (by omega) hlt
  refine ⟨init, last, hge, hvalue, ?_⟩
  rw [scriptNumEncode, if_neg hne, heq]
  simp only [List.getLast?_append, List.getLast?_singleton, Option.some_or, List.dropLast_concat]
  by_cases hhigh : last &&& 0x80 = 0
  · rw [if_neg (not_not.mpr hhigh)]
    refine .inr ⟨hhigh, ?_⟩
    split <;> rfl
  · rw [if_pos hhigh]
    exact .inl ⟨hhigh, rfl⟩

/-- A script number of an `i64` says its number. -/
theorem scriptNumValue_encode {n : Int} (hlt : n.natAbs < 256 ^ 8) :
    scriptNumValue (scriptNumEncode n) = n := by
  rcases eq_or_ne n 0 with rfl | hne
  · rfl
  obtain ⟨init, last, -, hvalue, ⟨-, hform⟩ | ⟨hlow, hform⟩⟩ := scriptNumEncode_cases hne hlt
  · rw [hform, scriptNumValue_append, leToNat_append]
    have hmag : Bytes.leToNat init + 256 ^ init.length * Bytes.leToNat [last] = n.natAbs := by
      simpa [Bytes.leToNat] using hvalue.symm
    rw [hmag]
    by_cases hneg : n < 0
    · rw [if_pos hneg, if_pos (by decide), show ((0x80 : UInt8) &&& 0x7f).toNat = 0 from rfl]
      omega
    · rw [if_neg hneg, if_neg (by decide), show ((0 : UInt8) &&& 0x7f).toNat = 0 from rfl]
      omega
  · obtain ⟨hclear, hset, hsign⟩ := (byte_facts last).1 hlow
    rw [hform, scriptNumValue_append]
    by_cases hneg : n < 0
    · rw [if_pos hneg, if_pos hsign, hset, ← hvalue]
      omega
    · rw [if_neg hneg, if_neg (not_not.mpr hlow), hclear, ← hvalue]
      omega

/-- The bytes of a script number leave its magnitude one bit less than they have. -/
theorem natAbs_scriptNumValue_lt {b : Bytes} (hne : b ≠ []) :
    2 * (scriptNumValue b).natAbs < 256 ^ b.length := by
  obtain ⟨init, last, rfl⟩ : ∃ init last, b = init ++ [last] :=
    ⟨_, _, (List.dropLast_append_getLast hne).symm⟩
  have hinit := Bytes.leToNat_lt init
  have hlast := (byte_facts last).2.2
  have hmul : 256 ^ init.length * (last &&& 0x7f).toNat ≤ 256 ^ init.length * 127 :=
    Nat.mul_le_mul_left _ (by omega)
  rw [scriptNumValue_append, List.length_append, List.length_singleton, pow_succ]
  split_ifs
  · rw [Int.natAbs_neg, Int.natAbs_natCast]
    omega
  · rw [Int.natAbs_natCast]
    omega

theorem length_scriptNumEncode_le {n : Int} (hlt : n.natAbs < 256 ^ 8) {k : Nat}
    (hk : 2 * n.natAbs < 256 ^ (k + 1)) : (scriptNumEncode n).length ≤ k + 1 := by
  rcases eq_or_ne n 0 with rfl | hne
  · simp [scriptNumEncode]
  obtain ⟨init, last, hge, hvalue, ⟨hhigh, hform⟩ | ⟨-, hform⟩⟩ := scriptNumEncode_cases hne hlt
  · have hbyte := (byte_facts last).2.1 hhigh
    have hmul : 256 ^ init.length * 128 ≤ 256 ^ init.length * last.toNat :=
      Nat.mul_le_mul_left _ hbyte
    have hlen : 256 ^ (init.length + 1) < 256 ^ (k + 1) := by
      rw [pow_succ]
      omega
    have := (Nat.pow_lt_pow_iff_right (by norm_num)).mp hlen
    rw [hform]
    simp
    omega
  · have hlen : 256 ^ init.length < 256 ^ (k + 1) := by omega
    have := (Nat.pow_lt_pow_iff_right (by norm_num)).mp hlen
    rw [hform]
    simp
    omega

/-- No bytes that say a number are fewer than its script number. -/
theorem length_scriptNumEncode_le_of_value {n : Int} (hlt : n.natAbs < 256 ^ 8) {b : Bytes}
    (hb : scriptNumValue b = n) : (scriptNumEncode n).length ≤ b.length := by
  rcases eq_or_ne b [] with rfl | hne
  · obtain rfl : 0 = n := hb
    exact Nat.le_refl 0
  · have hvalue := natAbs_scriptNumValue_lt hne
    obtain ⟨k, hk⟩ : ∃ k, b.length = k + 1 :=
      Nat.exists_eq_succ_of_ne_zero (List.length_pos_iff.mpr hne).ne'
    rw [hk, hb] at hvalue
    rw [hk]
    exact length_scriptNumEncode_le hlt hvalue

end Yew.Script
