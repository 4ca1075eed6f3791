import Yew.Core.PayloadCodec
import Yew.Proto.Act
import Yew.Util.Proc

/-!
# Set acts read back

`decode` takes an act output apart with the script reader, `isActOutput` looks at its first
operation only and with a reader of its own.  Both read a push as it was written, so they agree on
what is an act.

The codec is `encode` and `decode` of `yewd/proto/src/act.rs`.  The reader is a chain of cuts, so
both directions go field by field.
-/

namespace Yew.SetAct

open Script Tx
open Yellowback (read_bind read_map)

/-! ## Fields -/

theorem arr_toList {n : Nat} (a : Arr n) (rest : Bytes) :
    arr n (a.toList ++ rest) = some (a, rest) := by
  have h : (fun b ↦ Bytes.split? n b : Read Bytes) (a.toList ++ rest) = some (a.toList, rest) :=
    Bytes.split?_append rest a.toList_length
  rw [arr, read_bind h, Bytes.toArr?_toList]
  rfl

theorem num_leOfNat {n m : Nat} (rest : Bytes) (h : m < 256 ^ n) :
    num n (Bytes.leOfNat n m ++ rest) = some (m, rest) := by
  let a : Arr n := ⟨Bytes.leOfNat n m, Bytes.length_leOfNat n m⟩
  have harr : arr n (Bytes.leOfNat n m ++ rest) = some (a, rest) := arr_toList a rest
  have hnum : Bytes.leToNat a.toList = m := Bytes.leToNat_leOfNat h
  rw [num, read_map harr, hnum]

theorem u8_cons (b : UInt8) (rest : Bytes) : u8 (b :: rest) = some (b, rest) := by
  have h : num 1 (b :: rest) = some (b.toNat, rest) := by
    have hnum := num_leOfNat (n := 1) rest b.toNat_lt
    have hbyte : Bytes.leOfNat 1 b.toNat = [b] := by simp [Bytes.leOfNat]
    rwa [hbyte] at hnum
  rw [u8, read_map h, UInt8.ofNat_toNat]

theorem u32_writeU32 (n : UInt32) (rest : Bytes) : u32 (writeU32 n ++ rest) = some (n, rest) := by
  rw [u32, writeU32, read_map (num_leOfNat rest n.toNat_lt), UInt32.ofNat_toNat]

theorem outpoint_writeOutPoint (o : OutPoint) (rest : Bytes) :
    outpoint (writeOutPoint o ++ rest) = some (o, rest) := by
  rw [outpoint, writeOutPoint, List.append_assoc, read_bind (arr_toList _ _),
    read_map (u32_writeU32 _ _)]

/-! ## Bodies -/

theorem length_encodeBody (b : Body) : (encodeBody b).length = bodySize b.typeByte := by
  cases b <;> simp [encodeBody, writeU32, writeI64, writeOutPoint, bodySize, Body.typeByte]

theorem readBody_encodeBody (b : Body) : readBody b.typeByte (encodeBody b) = some (b, []) := by
  cases b with
  | create c =>
    have hlast := arr_toList c.admitKey []
    rw [List.append_nil] at hlast
    rw [Body.typeByte, readBody, if_pos rfl, encodeBody]
    simp only [List.append_assoc, List.cons_append, List.nil_append, writeI64]
    rw [read_bind (u8_cons _ _), read_bind (u8_cons _ _), read_bind (u8_cons _ _),
      read_bind (u8_cons _ _), read_bind (u8_cons _ _),
      read_bind (num_leOfNat _ c.rateLimitBps.toNat_lt), read_bind (u32_writeU32 _ _),
      read_bind (u32_writeU32 _ _), read_bind (num_leOfNat _ c.bondMin.toUInt64.toNat_lt),
      read_bind (u32_writeU32 _ _), read_bind (u32_writeU32 _ _), read_map hlast,
      UInt16.ofNat_toNat, UInt64.ofNat_toNat, Int64.toInt64_toUInt64]
  | join setId memberKey bondLocktime bondVout =>
    rw [Body.typeByte, readBody, if_neg (by decide), if_pos rfl, encodeBody]
    simp only [List.append_assoc]
    rw [read_bind (arr_toList _ _), read_bind (arr_toList _ _), read_bind (u32_writeU32 _ _),
      read_map (u8_cons _ _)]
  | heartbeat setId memberKey =>
    have hlast := arr_toList memberKey []
    rw [List.append_nil] at hlast
    rw [Body.typeByte, readBody, if_neg (by decide), if_neg (by decide), if_pos rfl, encodeBody,
      read_bind (arr_toList _ _), read_map hlast]
  | remove setId memberKey burn =>
    rw [Body.typeByte, readBody, if_neg (by decide), if_neg (by decide), if_neg (by decide),
      if_pos rfl, encodeBody]
    simp only [List.append_assoc]
    rw [read_bind (arr_toList _ _), read_bind (arr_toList _ _), read_map (u8_cons _ _)]
  | equivocation e =>
    have hlast := arr_toList e.sigB []
    rw [List.append_nil] at hlast
    rw [Body.typeByte, readBody, if_neg (by decide), if_neg (by decide), if_neg (by decide),
      if_neg (by decide), if_pos rfl, encodeBody]
    simp only [List.append_assoc, List.cons_append, List.nil_append]
    rw [read_bind (arr_toList _ _), read_bind (outpoint_writeOutPoint _ _),
      read_bind (u8_cons _ _), read_bind (arr_toList _ _), read_bind (arr_toList _ _),
      read_bind (u8_cons _ _), read_bind (arr_toList _ _), read_map hlast]
  | winddown setId =>
    have hlast := arr_toList setId []
    rw [List.append_nil] at hlast
    rw [Body.typeByte, readBody, if_neg (by decide), if_neg (by decide), if_neg (by decide),
      if_neg (by decide), if_neg (by decide), encodeBody, read_map hlast]

theorem bodySize_typeByte_ne_zero (b : Body) : bodySize b.typeByte ≠ 0 := by
  cases b <;> simp [bodySize, Body.typeByte]

/-- A payload is its four bytes of header and a body. -/
theorem encodePayload_eq (b : Body) :
    encodePayload b = 0x59 :: 0x56 :: 0x01 :: b.typeByte :: encodeBody b := rfl

/-- `decode_payload` undoes `encode_payload`. -/
theorem decodePayload_encodePayload (b : Body) : decodePayload (encodePayload b) = .ok b := by
  rw [encodePayload_eq, decodePayload, if_neg (by decide), if_neg (by decide),
    if_neg (bodySize_typeByte_ne_zero b), if_neg, readBody_encodeBody]
  simp only [List.length_cons, length_encodeBody]
  omega

theorem length_encodePayload (b : Body) :
    2 ≤ (encodePayload b).length ∧ (encodePayload b).length ≤ 268 := by
  rw [encodePayload_eq]
  simp only [List.length_cons, length_encodeBody]
  cases b <;> simp [bodySize, Body.typeByte]

/-! ## Acts -/

/-- Up to 16 signatures are read back. -/
theorem readSigs_pushOp {sigs : List (Arr 65)} {n : Nat} (h : n + sigs.length ≤ maxActSigs) :
    readSigs n (sigs.map fun s ↦ pushOp s.toList) = .ok sigs := by
  induction sigs generalizing n with
  | nil => rfl
  | cons s sigs ih =>
    rw [List.length_cons] at h
    have hdata : (pushOp s.toList).data = s.toList := rfl
    rw [List.map_cons, readSigs, hdata, Bytes.toArr?_toList]
    dsimp only
    rw [if_neg (UInt8.not_lt.mpr (pushOp_opcode_le _)), if_neg (by omega), ih (by omega)]
    rfl

theorem spells_sigs (sigs : List (Arr 65)) :
    Spells (sigs.flatMap fun s ↦ pushData s.toList) (sigs.map fun s ↦ pushOp s.toList) := by
  induction sigs with
  | nil => exact Spells.nil
  | cons s sigs ih => exact (Spells.pushData (by simp)).append ih

/-- `decode` undoes `encode`. -/
theorem decode_encode {a : Act} (h : a.sigs.length ≤ maxActSigs) : decode (encode a) = .ok a := by
  obtain ⟨-, hlen⟩ := length_encodePayload a.body
  have hshort : (encodePayload a.body).length ≤ 0xffff := by omega
  obtain ⟨o, ho, hdata, hpush⟩ := Spells.exists_pushOp hshort
  have hops := (ho.append (spells_sigs a.sigs)).ops_eq
  have hmagic : o.data.take 2 = magic := by
    rw [hdata, encodePayload_eq]
    rfl
  rw [encode, decode, if_neg (not_not_intro rfl), hops]
  simp only [List.cons_append, List.nil_append]
  rw [if_neg (by simp [UInt8.not_lt.mpr hpush, hmagic]), hdata, decodePayload_encodePayload,
    readSigs_pushOp (by omega)]
  simp only [bind, Except.bind]
  exact if_neg (not_not_intro rfl)

theorem length_readSigs {os : List ScriptOp} {n : Nat} {sigs : List (Arr 65)}
    (h : readSigs n os = .ok sigs) (hn : n ≤ maxActSigs) : n + sigs.length ≤ maxActSigs := by
  induction os generalizing n sigs with
  | nil =>
    cases h
    simpa using hn
  | cons o os ih =>
    rw [readSigs] at h
    split at h
    · cases h
    · split at h
      · cases h
      · split at h
        · cases h
        · rename_i hlt
          obtain ⟨sigs', hsigs, h⟩ := Result.bind_eq_ok.mp h
          cases h
          have hlen := ih hsigs (by omega)
          rw [List.length_cons]
          omega

/-- `encode` undoes `decode`, which takes no more signatures than the limit. -/
theorem encode_decode {a : Act} {spk : Bytes} (h : decode spk = .ok a) :
    encode a = spk ∧ a.sigs.length ≤ maxActSigs := by
  unfold decode at h
  split at h
  · cases h
  · split at h
    · cases h
    · split at h
      · split at h
        · cases h
        · simp only [Result.bind_eq_ok] at h
          obtain ⟨body, -, sigs, hsigs, h⟩ := h
          split at h
          · cases h
          · rename_i hsame
            cases h
            have hlen := length_readSigs hsigs (by decide)
            exact ⟨not_not.mp hsame, by simpa using hlen⟩
      · cases h

/-! ## The first operation -/

/-- The push in front is read back. -/
theorem firstOp_pushData {data : Bytes} (rest : Bytes) (hpos : 1 ≤ data.length)
    (hle : data.length ≤ 0xffff) :
    ∃ op, firstOp (pushData data ++ rest) = some (op, data) ∧ op ≤ opPushdata4 := by
  have h76 : opPushdata1.toNat = 76 := rfl
  unfold pushData
  dsimp only
  split_ifs with hshort hbyte
  · have hop : (UInt8.ofNat data.length).toNat = data.length := toNat_ofNat_of_lt (by omega)
    refine ⟨UInt8.ofNat data.length, ?_, ?_⟩
    · rw [List.cons_append, firstOp, if_pos, hop, Bytes.split?_append rest rfl]
      · rfl
      · rw [UInt8.le_iff_toNat_le, UInt8.le_iff_toNat_le, hop]
        exact ⟨hpos, by change data.length ≤ 75; omega⟩
    · rw [UInt8.le_iff_toNat_le, hop]
      change data.length ≤ 78
      omega
  · refine ⟨opPushdata1, ?_, by decide⟩
    have hlen : Bytes.split? 1 (UInt8.ofNat data.length :: data ++ rest) =
        some ([UInt8.ofNat data.length], data ++ rest) :=
      Bytes.split?_append (u := [UInt8.ofNat data.length]) _ rfl
    have hnum : Bytes.leToNat [UInt8.ofNat data.length] = data.length := by
      rw [Bytes.leToNat, Bytes.leToNat, toNat_ofNat_of_lt (by omega), Nat.mul_zero, Nat.add_zero]
    rw [List.cons_append, firstOp, if_neg (by decide), if_pos rfl]
    simp only [hlen, Option.bind_eq_bind, Option.bind_some, hnum, Bytes.split?_append rest rfl]
    rfl
  · refine ⟨opPushdata2, ?_, by decide⟩
    have hlen : Bytes.split? 2 (Bytes.leOfNat 2 data.length ++ data ++ rest) =
        some (Bytes.leOfNat 2 data.length, data ++ rest) := by
      rw [List.append_assoc]
      exact Bytes.split?_append _ (Bytes.length_leOfNat 2 _)
    rw [List.cons_append, firstOp, if_neg (by decide), if_neg (by decide), if_pos rfl]
    simp only [hlen, Option.bind_eq_bind, Option.bind_some, Bytes.split?_append rest rfl,
      Bytes.leToNat_leOfNat (show data.length < 256 ^ 2 by omega)]
    rfl

/-- Every encoded act is an act output. -/
theorem isActOutput_encode (a : Act) : isActOutput (encode a) = true := by
  obtain ⟨hpos, hlen⟩ := length_encodePayload a.body
  have hshort : (encodePayload a.body).length ≤ 0xffff := by omega
  obtain ⟨op, hfirst, hle⟩ := firstOp_pushData (a.sigs.flatMap fun s ↦ pushData s.toList)
    (Nat.le_of_succ_le hpos) hshort
  have hmagic : (encodePayload a.body).take 2 = magic := rfl
  rw [encode, isActOutput, hfirst]
  simp [hle, hmagic]

/-- The codec of acts: what decodes are the encoded acts of at most 16 signatures, and the reader
that looks at the first operation only takes each of them for an act. -/
theorem act_codec (a : Act) (spk : Bytes) :
    (decode spk = .ok a ↔ encode a = spk ∧ a.sigs.length ≤ maxActSigs) ∧
      isActOutput (encode a) = true ∧ (decode spk = .ok a → isActOutput spk = true) := by
  refine ⟨⟨encode_decode, ?_⟩, isActOutput_encode a, fun h ↦ ?_⟩
  · rintro ⟨rfl, hlen⟩
    exact decode_encode hlen
  · rw [← (encode_decode h).1]
    exact isActOutput_encode a

end Yew.SetAct
