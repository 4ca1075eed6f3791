import Yew.Core.Payload
import Yew.Core.ScriptOps

/-!
# Payloads read back

`decode` undoes `encode`, whatever the payload, and `encode` undoes `decode`, whatever the bytes;
`extractOpReturnData` undoes `payloadScript`.  So a transaction whose outputs carry one encoded
payload is found to carry that payload.

The codec is `encode` and `decode` of `core/src/payload.rs`.  `InRange` says when a payload can be
written at all: its lists are no longer than their length bytes can say.
-/

namespace Yew.Yellowback

open Script Tx Pq

/-! ## Reads -/

/-- A read that came out hands on what it left. -/
theorem read_bind {α β : Type} {x : Read α} {f : α → Read β} {b rest : Bytes} {a : α}
    (h : x b = some (a, rest)) : (x >>= f) b = f a rest := by
  simp only [bind, StateT.bind, h]
  rfl

theorem read_map {α β : Type} {x : Read α} {f : α → β} {b rest : Bytes} {a : α}
    (h : x b = some (a, rest)) : (x >>= fun a ↦ pure (f a) : Read β) b = some (f a, rest) := by
  rw [read_bind h]
  rfl

theorem bytes_append {n : Nat} {u : Bytes} (rest : Bytes) (h : u.length = n) :
    bytes n (u ++ rest) = some (u, rest) := Bytes.split?_append rest h

theorem u8_cons (b : UInt8) (rest : Bytes) : u8 (b :: rest) = some (b, rest) := by
  have h : bytes 1 (b :: rest) = some ([b], rest) := bytes_append (u := [b]) rest rfl
  rw [u8, read_map h]
  simp [Bytes.leToNat]

theorem u16_leOfNat (n : UInt16) (rest : Bytes) :
    u16 (Bytes.leOfNat 2 n.toNat ++ rest) = some (n, rest) := by
  rw [u16, read_map (bytes_append rest (Bytes.length_leOfNat 2 _)),
    Bytes.leToNat_leOfNat n.toNat_lt]
  simp

theorem u32_writeU32 (n : UInt32) (rest : Bytes) : u32 (writeU32 n ++ rest) = some (n, rest) := by
  rw [u32, writeU32, read_map (bytes_append rest (Bytes.length_leOfNat 4 _)),
    Bytes.leToNat_leOfNat n.toNat_lt]
  simp

theorem array_toList {n : Nat} (a : Arr n) (rest : Bytes) :
    array n (a.toList ++ rest) = some (a, rest) := by
  rw [array, read_bind (bytes_append rest a.toList_length), Bytes.toArr?_toList]
  rfl

/-- The assignments written one after another. -/
def putEach (as : List Assignment) : Bytes := as.flatMap fun a ↦ a.vout :: writeU32 a.cents

theorem length_putEach (as : List Assignment) : (putEach as).length = 5 * as.length := by
  induction as with
  | nil => rfl
  | cons a as ih =>
    rw [putEach, List.flatMap_cons, List.length_append, ← putEach, ih]
    simp [writeU32]
    omega

theorem readAssignments_putEach (as : List Assignment) (rest : Bytes) :
    readAssignments as.length (putEach as ++ rest) = some (as, rest) := by
  induction as with
  | nil => rfl
  | cons a as ih =>
    rw [putEach, List.flatMap_cons, ← putEach, List.append_assoc, List.cons_append,
      List.length_cons, readAssignments, read_bind (u8_cons _ _), read_bind (u32_writeU32 _ _),
      read_bind ih]
    rfl

theorem length_le_of_validAssignments {as : List Assignment} {max : Nat}
    (h : validAssignments as max = true) : as.length ≤ max := by
  simp only [validAssignments, Bool.and_eq_true, decide_eq_true_eq] at h
  exact h.1.1

/-- Valid assignments are read back. -/
theorem assignmentsOf_putAssignments {as : List Assignment} {head max size : Nat}
    (hvalid : validAssignments as max = true) (hmax : max < 256)
    (hsize : size = head + 5 * as.length) :
    assignmentsOf head max size (putAssignments as) = some (as, []) := by
  have hlen := length_le_of_validAssignments hvalid
  have hcount : (UInt8.ofNat as.length).toNat = as.length := by
    rw [UInt8.toNat_ofNat']
    omega
  have hread := readAssignments_putEach as []
  rw [List.append_nil] at hread
  rw [assignmentsOf, putAssignments, read_bind (u8_cons _ _), hcount, if_neg (by omega), ← putEach]
  dsimp only
  rw [read_bind hread, if_pos hvalid]
  rfl

/-! ## Bodies -/

theorem fromBytes_toBytes (id : PqKeyId) : PqKeyId.fromBytes id.toBytes = some id := by
  simp [PqKeyId.fromBytes, PqKeyId.toBytes]

/-- The owner's bytes, as an array. -/
def ownerArr (id : PqKeyId) : Arr 33 := ⟨id.toBytes, by simp [PqKeyId.toBytes]⟩

/-- A body is read back. -/
theorem decodeBodyV3_encodeBody {p : Payload} {body : Bytes} (h : encodeBody p = some body) :
    decodeBodyV3 p.payloadType (4 + body.length) body = some (p, []) := by
  cases p with
  | mint termClass cents lockHeight refHeight owner feeVout attestFeeVout =>
    cases h
    have howner (rest : Bytes) : array 33 (owner.toBytes ++ rest) = some (ownerArr owner, rest) :=
      array_toList (ownerArr owner) rest
    have hid : PqKeyId.fromBytes (ownerArr owner).toList = some owner := fromBytes_toBytes owner
    rw [Payload.payloadType, decodeBodyV3, if_neg (by simp [writeU32, PqKeyId.toBytes])]
    dsimp only
    simp only [List.append_assoc]
    rw [read_bind (u8_cons _ _), read_bind (u32_writeU32 _ _), read_bind (u32_writeU32 _ _),
      read_bind (u32_writeU32 _ _), read_bind (howner _), hid]
    dsimp only
    rw [read_bind (u8_cons _ _), read_bind (u8_cons _ _)]
    rfl
  | transfer as =>
    rw [encodeBody] at h
    split at h
    · rename_i hvalid
      cases h
      rw [Payload.payloadType, decodeBodyV3]
      refine read_map (assignmentsOf_putAssignments hvalid (by decide) ?_)
      rw [putAssignments, ← putEach, List.length_cons, length_putEach]
      omega
    · cases h
  | redeem refHeight feeVout attestFeeVout as =>
    rw [encodeBody] at h
    split at h
    · rename_i hvalid
      cases h
      have hsize : 4 + (writeU32 refHeight ++ [feeVout, attestFeeVout] ++
          putAssignments as).length = 11 + 5 * as.length := by
        rw [putAssignments, ← putEach]
        simp [writeU32, length_putEach]
        omega
      rw [Payload.payloadType, decodeBodyV3, hsize, List.append_assoc,
        read_bind (u32_writeU32 _ _), List.cons_append, read_bind (u8_cons _ _), List.cons_append,
        read_bind (u8_cons _ _), List.nil_append]
      exact read_map (assignmentsOf_putAssignments hvalid (by decide) rfl)
    · cases h
  | attestorRegister attestorKey bondKey bondLocktime flags =>
    cases h
    rw [Payload.payloadType, decodeBodyV3, if_neg (by simp [writeU32])]
    dsimp only
    simp only [List.append_assoc]
    rw [read_bind (array_toList _ _), read_bind (array_toList _ _), read_bind (u32_writeU32 _ _),
      read_bind (u8_cons _ _)]
    rfl
  | claimNotice vaultTxid vaultVout refHeight =>
    cases h
    have hlast := u32_writeU32 refHeight []
    rw [List.append_nil] at hlast
    rw [Payload.payloadType, decodeBodyV3, if_neg (by simp [writeU32])]
    dsimp only
    simp only [List.append_assoc]
    rw [read_bind (array_toList _ _), List.cons_append, List.nil_append, read_bind (u8_cons _ _),
      read_bind hlast]
    rfl
  | equivocation =>
    cases h
    rfl
  | attestorRevive seq priceMicroUsd citedHeight sig =>
    cases h
    have hlast := array_toList sig []
    rw [List.append_nil] at hlast
    rw [Payload.payloadType, decodeBodyV3, if_neg (by simp [writeU32])]
    dsimp only
    simp only [List.append_assoc]
    rw [read_bind (u16_leOfNat _ _), read_bind (u32_writeU32 _ _), read_bind (u32_writeU32 _ _),
      read_bind hlast]
    rfl

theorem fromByte_byte (t : PayloadType) : PayloadType.fromByte t.byte = some t := by
  cases t <;> rfl

/-- `decode` undoes `encode`. -/
theorem decode_encode {p : Payload} {data : Bytes} (h : encode p = some data) :
    decode data = some p ∧ minPayload ≤ data.length ∧ data.length ≤ maxPayload := by
  rw [encode, Option.bind_eq_bind, Option.bind_eq_some_iff] at h
  obtain ⟨body, hbody, h⟩ := h
  dsimp only at h
  split at h
  · cases h
  · rename_i hlen
    cases h
    have hmin : minPayload ≤ ([0x59, 0x42, versionOf p.payloadType, p.payloadType.byte] ++
        body).length := by simp [minPayload]
    refine ⟨?_, hmin, by omega⟩
    have hdecode := decodeBodyV3_encodeBody hbody
    unfold decode
    rw [if_neg (by omega)]
    simp only [List.cons_append, List.nil_append, List.length_cons, ne_eq, not_true_eq_false,
      or_self, if_false, fromByte_byte, Option.bind_eq_bind, Option.bind_some]
    rw [show body.length + 1 + 1 + 1 + 1 = 4 + body.length by omega, hdecode]
    rfl

/-! ## What is read is written back -/

theorem read_bind_eq_some {α β : Type} {x : Read α} {f : α → Read β} {b rest : Bytes} {c : β} :
    (x >>= f) b = some (c, rest) ↔ ∃ a b', x b = some (a, b') ∧ f a b' = some (c, rest) := by
  simp only [bind, StateT.bind, Option.bind_eq_some_iff, Prod.exists]

theorem read_pure_eq_some {α : Type} {a c : α} {b rest : Bytes} :
    (pure a : Read α) b = some (c, rest) ↔ a = c ∧ b = rest := by
  show some (a, b) = some (c, rest) ↔ a = c ∧ b = rest
  rw [Option.some.injEq, Prod.mk.injEq]

theorem bytes_eq_some {n : Nat} {b u rest : Bytes} :
    bytes n b = some (u, rest) ↔ b = u ++ rest ∧ u.length = n := Bytes.split?_eq_some

theorem u8_eq_some {b rest : Bytes} {n : UInt8} : u8 b = some (n, rest) ↔ b = n :: rest := by
  refine ⟨fun h ↦ ?_, ?_⟩
  · rw [u8, read_bind_eq_some] at h
    obtain ⟨u, b', hu, h⟩ := h
    obtain ⟨rfl, hlen⟩ := bytes_eq_some.mp hu
    obtain ⟨rfl, rfl⟩ := read_pure_eq_some.mp h
    obtain ⟨x, rfl⟩ := List.length_eq_one_iff.mp hlen
    simp [Bytes.leToNat]
  · rintro rfl
    exact u8_cons n rest

theorem u16_eq_some {b rest : Bytes} {n : UInt16} :
    u16 b = some (n, rest) ↔ b = Bytes.leOfNat 2 n.toNat ++ rest := by
  refine ⟨fun h ↦ ?_, ?_⟩
  · rw [u16, read_bind_eq_some] at h
    obtain ⟨u, b', hu, h⟩ := h
    obtain ⟨rfl, hlen⟩ := bytes_eq_some.mp hu
    obtain ⟨rfl, rfl⟩ := read_pure_eq_some.mp h
    have hlt := Bytes.leToNat_lt u
    rw [hlen] at hlt
    rw [UInt16.toNat_ofNat_of_lt' hlt, ← hlen, Bytes.leOfNat_leToNat]
  · rintro rfl
    exact u16_leOfNat n rest

theorem u32_eq_some {b rest : Bytes} {n : UInt32} :
    u32 b = some (n, rest) ↔ b = writeU32 n ++ rest := by
  refine ⟨fun h ↦ ?_, ?_⟩
  · rw [u32, read_bind_eq_some] at h
    obtain ⟨u, b', hu, h⟩ := h
    obtain ⟨rfl, hlen⟩ := bytes_eq_some.mp hu
    obtain ⟨rfl, rfl⟩ := read_pure_eq_some.mp h
    have hlt := Bytes.leToNat_lt u
    rw [hlen] at hlt
    rw [writeU32, UInt32.toNat_ofNat_of_lt' hlt, ← hlen, Bytes.leOfNat_leToNat]
  · rintro rfl
    exact u32_writeU32 n rest

theorem array_eq_some {n : Nat} {b rest : Bytes} {a : Arr n} :
    array n b = some (a, rest) ↔ b = a.toList ++ rest := by
  refine ⟨fun h ↦ ?_, ?_⟩
  · rw [array, read_bind_eq_some] at h
    obtain ⟨u, b', hu, h⟩ := h
    obtain ⟨rfl, -⟩ := bytes_eq_some.mp hu
    cases harr : Bytes.toArr? n u with
    | none =>
      rw [harr] at h
      cases h
    | some a' =>
      rw [harr] at h
      obtain ⟨rfl, rfl⟩ := read_pure_eq_some.mp h
      rw [Bytes.toArr?_eq_some.mp harr]
  · rintro rfl
    exact array_toList a rest

theorem toBytes_of_fromBytes {b : Bytes} {id : PqKeyId} (h : PqKeyId.fromBytes b = some id) :
    b = id.toBytes := by
  cases b with
  | nil => cases h
  | cons scheme hash =>
    obtain ⟨a, ha, rfl⟩ := Option.map_eq_some_iff.mp h
    rw [PqKeyId.toBytes, ← Bytes.toArr?_eq_some.mp ha]

theorem of_readAssignments {n : Nat} {b rest : Bytes} {as : List Assignment}
    (h : readAssignments n b = some (as, rest)) : as.length = n ∧ b = putEach as ++ rest := by
  induction n generalizing b as with
  | zero =>
    obtain ⟨rfl, rfl⟩ := read_pure_eq_some.mp h
    exact ⟨rfl, rfl⟩
  | succ n ih =>
    simp only [readAssignments, read_bind_eq_some, u8_eq_some, u32_eq_some,
      read_pure_eq_some] at h
    obtain ⟨vout, b₁, rfl, cents, b₂, rfl, as', b₃, h, rfl, rfl⟩ := h
    obtain ⟨hlen, rfl⟩ := ih h
    refine ⟨by rw [List.length_cons, hlen], ?_⟩
    simp [putEach]

/-- A count and its assignments, as they are written. -/
theorem of_assignmentsOf {head max size : Nat} {b rest : Bytes} {as : List Assignment}
    (h : assignmentsOf head max size b = some (as, rest)) :
    validAssignments as max = true ∧ b = putAssignments as ++ rest := by
  rw [assignmentsOf, read_bind_eq_some] at h
  obtain ⟨count, b', hcount, h⟩ := h
  obtain rfl := u8_eq_some.mp hcount
  split at h
  · cases h
  · rw [read_bind_eq_some] at h
    obtain ⟨as', b₁, hread, h⟩ := h
    obtain ⟨hlen, rfl⟩ := of_readAssignments hread
    split at h
    · rename_i hvalid
      obtain ⟨rfl, rfl⟩ := read_pure_eq_some.mp h
      refine ⟨hvalid, ?_⟩
      rw [putAssignments, hlen, UInt8.ofNat_toNat, putEach]
      rfl
    · cases h

/-- A body that was read is the body of what was read. -/
theorem encodeBody_of_decodeBodyV3 {t : PayloadType} {size : Nat} {body : Bytes} {p : Payload}
    (h : decodeBodyV3 t size body = some (p, [])) :
    p.payloadType = t ∧ encodeBody p = some body := by
  cases t with
  | mint =>
    rw [decodeBodyV3] at h
    split at h
    · cases h
    · simp only [read_bind_eq_some, u8_eq_some, u32_eq_some, array_eq_some] at h
      obtain ⟨termClass, _, rfl, cents, _, rfl, lockHeight, _, rfl, refHeight, _, rfl, bytes, _,
        rfl, h⟩ := h
      cases howner : PqKeyId.fromBytes bytes.toList with
      | none =>
        rw [howner] at h
        cases h
      | some owner =>
        rw [howner] at h
        simp only [read_bind_eq_some, u8_eq_some, read_pure_eq_some] at h
        obtain ⟨feeVout, _, rfl, attestFeeVout, _, rfl, rfl, rfl⟩ := h
        refine ⟨rfl, ?_⟩
        rw [encodeBody, ← toBytes_of_fromBytes howner]
        simp
  | transfer =>
    rw [decodeBodyV3, read_bind_eq_some] at h
    obtain ⟨as, _, has, h⟩ := h
    obtain ⟨rfl, rfl⟩ := read_pure_eq_some.mp h
    obtain ⟨hvalid, rfl⟩ := of_assignmentsOf has
    exact ⟨rfl, by rw [encodeBody, if_pos hvalid, List.append_nil]⟩
  | redeem =>
    simp only [decodeBodyV3, read_bind_eq_some, u8_eq_some, u32_eq_some, read_pure_eq_some] at h
    obtain ⟨refHeight, _, rfl, feeVout, _, rfl, attestFeeVout, _, rfl, as, _, has, rfl, rfl⟩ := h
    obtain ⟨hvalid, rfl⟩ := of_assignmentsOf has
    refine ⟨rfl, ?_⟩
    rw [encodeBody, if_pos hvalid]
    simp
  | attestorRegister =>
    rw [decodeBodyV3] at h
    split at h
    · cases h
    · simp only [read_bind_eq_some, u8_eq_some, u32_eq_some, array_eq_some, read_pure_eq_some] at h
      obtain ⟨attestorKey, _, rfl, bondKey, _, rfl, locktime, _, rfl, flags, _, rfl, rfl, rfl⟩ := h
      exact ⟨rfl, by simp [encodeBody]⟩
  | claimNotice =>
    rw [decodeBodyV3] at h
    split at h
    · cases h
    · simp only [read_bind_eq_some, u8_eq_some, u32_eq_some, array_eq_some, read_pure_eq_some] at h
      obtain ⟨vaultTxid, _, rfl, vaultVout, _, rfl, refHeight, _, rfl, rfl, rfl⟩ := h
      exact ⟨rfl, by simp [encodeBody]⟩
  | equivocation =>
    rw [decodeBodyV3] at h
    split at h
    · cases h
    · obtain ⟨rfl, rfl⟩ := read_pure_eq_some.mp h
      exact ⟨rfl, rfl⟩
  | attestorRevive =>
    rw [decodeBodyV3] at h
    split at h
    · cases h
    · simp only [read_bind_eq_some, u16_eq_some, u32_eq_some, array_eq_some,
        read_pure_eq_some] at h
      obtain ⟨seq, _, rfl, price, _, rfl, cited, _, rfl, sig, _, rfl, rfl, rfl⟩ := h
      exact ⟨rfl, by simp [encodeBody]⟩

theorem byte_of_fromByte {b : UInt8} {t : PayloadType} (h : PayloadType.fromByte b = some t) :
    t.byte = b := by
  unfold PayloadType.fromByte at h
  split_ifs at h with h₁ h₂ h₃ h₄ h₅ h₆ h₇
  all_goals
    cases h
    subst b
    rfl

/-- `encode` undoes `decode`. -/
theorem encode_decode {p : Payload} {data : Bytes} (h : decode data = some p) :
    encode p = some data := by
  unfold decode at h
  split at h
  · cases h
  · rename_i hlen
    split at h
    · rename_i m0 m1 version typeByte body
      split at h
      · cases h
      · rename_i hmagic
        rw [not_or, not_not, not_not] at hmagic
        obtain ⟨rfl, rfl⟩ := hmagic
        simp only [Option.bind_eq_bind, Option.bind_eq_some_iff] at h
        obtain ⟨t, ht, h⟩ := h
        split at h
        · cases h
        · rename_i hversion
          rw [not_not] at hversion
          simp only [Option.bind_eq_some_iff, Prod.exists] at h
          obtain ⟨p', rest, hbody, h⟩ := h
          split at h
          · rename_i hend
            cases h
            rw [List.isEmpty_iff.mp hend] at hbody
            obtain ⟨rfl, hencode⟩ := encodeBody_of_decodeBodyV3 hbody
            rw [encode, hencode, byte_of_fromByte ht, ← hversion]
            simp only [Option.bind_eq_bind, Option.bind_some, List.cons_append, List.nil_append]
            rw [if_neg (by omega)]
          · cases h
    · cases h

/-- The ranges `encode` accepts: valid assignments, and as many as the type has room for. -/
def Payload.InRange : Payload → Prop
  | .transfer as => validAssignments as maxAssignments = true
  | .redeem _ _ _ as => validAssignments as maxRedeemAssignments = true
  | _ => True

/-- Every body in range fits. -/
theorem exists_encodeBody {p : Payload} (h : p.InRange) :
    ∃ body, encodeBody p = some body ∧ 4 + body.length ≤ maxPayload := by
  cases p with
  | transfer as =>
    have hlen := length_le_of_validAssignments h
    rw [maxAssignments] at hlen
    refine ⟨_, if_pos h, ?_⟩
    rw [putAssignments, ← putEach, List.length_cons, length_putEach, maxPayload]
    omega
  | redeem refHeight feeVout attestFeeVout as =>
    have hlen := length_le_of_validAssignments h
    rw [maxRedeemAssignments] at hlen
    refine ⟨_, if_pos h, ?_⟩
    rw [putAssignments, ← putEach]
    simp only [List.length_append, List.length_cons, List.length_nil, length_putEach, writeU32,
      Bytes.length_leOfNat, maxPayload]
    omega
  | mint _ _ _ _ owner _ _ => exact ⟨_, rfl, by simp [writeU32, PqKeyId.toBytes, maxPayload]⟩
  | attestorRegister _ _ _ _ => exact ⟨_, rfl, by simp [writeU32, maxPayload]⟩
  | claimNotice _ _ _ => exact ⟨_, rfl, by simp [writeU32, maxPayload]⟩
  | equivocation => exact ⟨_, rfl, by decide⟩
  | attestorRevive _ _ _ _ => exact ⟨_, rfl, by simp [writeU32, maxPayload]⟩

theorem inRange_of_encode {p : Payload} {data : Bytes} (h : encode p = some data) : p.InRange := by
  rw [encode, Option.bind_eq_bind, Option.bind_eq_some_iff] at h
  obtain ⟨body, hbody, -⟩ := h
  cases p with
  | transfer as => exact (Option.ite_none_right_eq_some.mp hbody).1
  | redeem _ _ _ as => exact (Option.ite_none_right_eq_some.mp hbody).1
  | _ => trivial

/-- The payloads in range and the bytes that decode are in bijection, and no encoding is longer
than an `OP_RETURN` push. -/
theorem payload_codec (p : Payload) (data : Bytes) :
    (encode p = some data ↔ decode data = some p) ∧
      ((encode p).isSome ↔ p.InRange) ∧
        ((encode p).getD []).length ≤ maxPayload := by
  have hsome : (encode p).isSome ↔ p.InRange := by
    constructor
    · intro h
      obtain ⟨d, hd⟩ := Option.isSome_iff_exists.mp h
      exact inRange_of_encode hd
    · intro h
      obtain ⟨body, hbody, hlen⟩ := exists_encodeBody h
      rw [encode, hbody]
      simp only [Option.bind_eq_bind, Option.bind_some]
      rw [if_neg (by simp only [List.length_append, List.length_cons, List.length_nil]; omega)]
      rfl
  refine ⟨⟨fun h ↦ (decode_encode h).1, encode_decode⟩, hsome, ?_⟩
  cases h : encode p with
  | none => exact Nat.zero_le _
  | some d => exact (decode_encode h).2.2

/-! ## The output of a payload -/

/-- The push of an `OP_RETURN` output is read back. -/
theorem extractOpReturnData_payloadScript {data : Bytes} (hmin : minPayload ≤ data.length)
    (hmax : data.length ≤ maxPayload) : extractOpReturnData (payloadScript data) = some data := by
  rw [minPayload] at hmin
  rw [maxPayload] at hmax
  have hops : ops (pushData data) = .ok [pushOp data] :=
    (Spells.pushData (by omega)).ops_eq
  have hne : data.isEmpty = false := by
    cases data with
    | nil => simp at hmin
    | cons b bs => rfl
  have hdata : (pushOp data).data = data := rfl
  have hopcode := UInt8.not_lt.mpr (pushOp_opcode_le data)
  rw [payloadScript, extractOpReturnData, if_neg (by simp), hops]
  simp only [hdata, hne, hopcode, Bool.false_eq_true, or_self, if_false, minPayload, maxPayload]
  rw [if_neg (by omega)]

theorem isOpReturn_payloadScript (data : Bytes) : isOpReturn (payloadScript data) = true := rfl

theorem findOpReturnFrom_of_opReturns {i j : Nat} {outs : List TxOut} (h : opReturns outs = 0) :
    findOpReturnFrom i (some j) outs = some j := by
  induction outs generalizing i with
  | nil => rfl
  | cons o outs ih =>
    have ho := opReturns_eq_zero_iff.mp h o List.mem_cons_self
    rw [findOpReturnFrom, ho]
    refine ih (opReturns_eq_zero_iff.mpr fun p hp ↦ ?_)
    exact opReturns_eq_zero_iff.mp h p (List.mem_cons_of_mem o hp)

/-- The only `OP_RETURN` output is found. -/
theorem findOpReturnFrom_append {i : Nat} {before after : List TxOut} {o : TxOut}
    (hbefore : opReturns before = 0) (ho : isOpReturn o.scriptPubkey = true)
    (hafter : opReturns after = 0) :
    findOpReturnFrom i none (before ++ o :: after) = some (i + before.length) := by
  induction before generalizing i with
  | nil =>
    rw [List.nil_append, findOpReturnFrom, if_pos ho]
    exact findOpReturnFrom_of_opReturns hafter
  | cons b before ih =>
    have hb := opReturns_eq_zero_iff.mp hbefore b List.mem_cons_self
    rw [List.cons_append, findOpReturnFrom, hb, if_neg Bool.false_ne_true,
      ih (opReturns_eq_zero_iff.mpr fun p hp ↦
        opReturns_eq_zero_iff.mp hbefore p (List.mem_cons_of_mem b hp)), List.length_cons]
    congr 1
    omega

/-- A transaction that carries one encoded payload, among outputs that are no `OP_RETURN` and that
include every output the payload assigns cents to, is found to carry it. -/
theorem findPayload_encode {tx : Transaction} {before after : List TxOut} {value : Int64}
    {p : Payload} {data : Bytes} (hvout : tx.vout = before ++ ⟨value, payloadScript data⟩ :: after)
    (hbefore : opReturns before = 0) (hafter : opReturns after = 0) (hencode : encode p = some data)
    (has : ∀ a ∈ p.assignments, a.vout.toNat < tx.vout.length ∧ a.vout.toNat ≠ before.length) :
    findPayload tx = some ⟨p, before.length⟩ := by
  obtain ⟨hdecode, hmin, hmax⟩ := decode_encode hencode
  have hidx : findOpReturn tx = some before.length := by
    rw [findOpReturn, hvout, findOpReturnFrom_append hbefore (isOpReturn_payloadScript data) hafter,
      Nat.zero_add]
  have hget : tx.vout[before.length]? = some ⟨value, payloadScript data⟩ := by
    rw [hvout, List.getElem?_append_right (le_refl _)]
    simp
  have hnone : (p.assignments.any fun a ↦
      decide (a.vout.toNat ≥ tx.vout.length) || decide (a.vout.toNat = before.length)) = false := by
    rw [List.any_eq_false]
    intro a ha
    obtain ⟨hlt, hne⟩ := has a ha
    simp only [Bool.or_eq_true, decide_eq_true_eq]
    omega
  simp only [findPayload, hidx, hget, extractOpReturnData_payloadScript hmin hmax, hdecode,
    Option.bind_eq_bind, Option.bind_some]
  rw [if_neg (by rw [hnone]; exact Bool.false_ne_true)]

theorem opReturns_append (before after : List TxOut) :
    opReturns (before ++ after) = opReturns before + opReturns after := List.countP_append

/-! ## When a payload is found -/

/-- Output `i` is `OP_RETURN`, and no other one is. -/
def OnlyOpReturn (outs : List TxOut) (i : Nat) : Prop :=
  (∃ o, outs[i]? = some o ∧ isOpReturn o.scriptPubkey) ∧
    ∀ j o, outs[j]? = some o → isOpReturn o.scriptPubkey → j = i

/-- The outputs around the only `OP_RETURN` are none. -/
theorem onlyOpReturn_append {before after : List TxOut} {o : TxOut}
    (ho : isOpReturn o.scriptPubkey = true) :
    OnlyOpReturn (before ++ o :: after) before.length ↔
      opReturns before = 0 ∧ opReturns after = 0 := by
  constructor
  · rintro ⟨-, honly⟩
    constructor
    · refine opReturns_eq_zero_iff.mpr fun p hp ↦ Bool.eq_false_iff.mpr fun hret ↦ ?_
      obtain ⟨j, hj, rfl⟩ := List.mem_iff_getElem.mp hp
      have heq := honly j before[j] (by rw [List.getElem?_append_left hj]; simp) hret
      omega
    · refine opReturns_eq_zero_iff.mpr fun p hp ↦ Bool.eq_false_iff.mpr fun hret ↦ ?_
      obtain ⟨j, hj, rfl⟩ := List.mem_iff_getElem.mp hp
      have heq := honly (before.length + 1 + j) after[j] (by
        rw [List.getElem?_append_right (by omega),
          show before.length + 1 + j - before.length = j + 1 by omega, List.getElem?_cons_succ]
        simp) hret
      omega
  · rintro ⟨hbefore, hafter⟩
    refine ⟨⟨o, by simp, ho⟩, fun j p hp hret ↦ ?_⟩
    have hno (x : List TxOut) (hx : opReturns x = 0) (k : Nat) (hk : x[k]? = some p) : False := by
      rw [opReturns_eq_zero_iff.mp hx p (List.mem_of_getElem? hk)] at hret
      cases hret
    rcases lt_trichotomy j before.length with hlt | heq | hgt
    · rw [List.getElem?_append_left hlt] at hp
      exact (hno before hbefore j hp).elim
    · exact heq
    · rw [List.getElem?_append_right (by omega), List.getElem?_cons] at hp
      rw [if_neg (by omega)] at hp
      exact (hno after hafter _ hp).elim

theorem exists_append_of_getElem? {α : Type} {l : List α} {i : Nat} {a : α} (h : l[i]? = some a) :
    ∃ before after, l = before ++ a :: after ∧ before.length = i := by
  obtain ⟨hlt, rfl⟩ := List.getElem?_eq_some_iff.mp h
  refine ⟨l.take i, l.drop (i + 1), ?_, by simp; omega⟩
  rw [List.getElem_cons_drop, List.take_append_drop]

/-- `find_op_return` finds the only `OP_RETURN` output, and nothing where there is none or more than
one. -/
theorem findOpReturn_eq_some_iff {tx : Transaction} {i : Nat} :
    findOpReturn tx = some i ↔ OnlyOpReturn tx.vout i := by
  constructor
  · intro h
    obtain ⟨hcount, o, hget, ho⟩ := findOpReturn_spec h
    obtain ⟨before, after, hvout, rfl⟩ := exists_append_of_getElem? hget
    rw [hvout] at hcount ⊢
    rw [opReturns_append, opReturns, opReturns, List.countP_cons_of_pos (by exact ho)] at hcount
    refine (onlyOpReturn_append ho).mpr ⟨?_, ?_⟩
    · rw [opReturns]
      omega
    · rw [opReturns]
      omega
  · intro h
    obtain ⟨o, hget, ho⟩ := h.1
    obtain ⟨before, after, hvout, rfl⟩ := exists_append_of_getElem? hget
    rw [hvout] at h
    obtain ⟨hbefore, hafter⟩ := (onlyOpReturn_append ho).mp h
    rw [findOpReturn, hvout, findOpReturnFrom_append hbefore ho hafter, Nat.zero_add]

theorem findPayload_eq_some_iff {tx : Transaction} {p : Payload} {i : Nat} :
    findPayload tx = some ⟨p, i⟩ ↔ OnlyOpReturn tx.vout i ∧
      (∃ o data, tx.vout[i]? = some o ∧ extractOpReturnData o.scriptPubkey = some data ∧
        decode data = some p) ∧
      ∀ a ∈ p.assignments, a.vout.toNat < tx.vout.length ∧ a.vout.toNat ≠ i := by
  have hassigned : (p.assignments.any fun a ↦ decide (a.vout.toNat ≥ tx.vout.length) ||
      decide (a.vout.toNat = i)) = false ↔
      ∀ a ∈ p.assignments, a.vout.toNat < tx.vout.length ∧ a.vout.toNat ≠ i := by
    rw [List.any_eq_false]
    refine forall₂_congr fun a _ ↦ ?_
    simp
  simp only [findPayload, Option.bind_eq_bind, Option.bind_eq_some_iff]
  constructor
  · rintro ⟨idx, hidx, o, hget, data, hdata, q, hq, h⟩
    split at h
    · cases h
    · rename_i hnone
      cases h
      exact ⟨findOpReturn_eq_some_iff.mp hidx, ⟨o, data, hget, hdata, hq⟩,
        hassigned.mp (Bool.eq_false_iff.mpr hnone)⟩
  · rintro ⟨honly, ⟨o, data, hget, hdata, hp⟩, has⟩
    refine ⟨i, findOpReturn_eq_some_iff.mpr honly, o, hget, data, hdata, p, hp, ?_⟩
    rw [hassigned.mpr has, if_neg Bool.false_ne_true]

/-- **Embedding in `OP_RETURN`.**  Data of 4 to 80 bytes is read back from its script, and a payload is
found exactly where one output alone is `OP_RETURN`, its data decodes, and every output the payload
assigns cents to is there and is another one. -/
theorem opReturn_embedding :
    (∀ d : Bytes, minPayload ≤ d.length → d.length ≤ maxPayload →
      extractOpReturnData (payloadScript d) = some d) ∧
    ∀ (tx : Transaction) (p : Payload) (i : Nat),
      findPayload tx = some ⟨p, i⟩ ↔ OnlyOpReturn tx.vout i ∧
        (∃ o data, tx.vout[i]? = some o ∧ extractOpReturnData o.scriptPubkey = some data ∧
          decode data = some p) ∧
        ∀ a ∈ p.assignments, a.vout.toNat < tx.vout.length ∧ a.vout.toNat ≠ i :=
  ⟨fun _ ↦ extractOpReturnData_payloadScript, fun _ _ _ ↦ findPayload_eq_some_iff⟩

end Yew.Yellowback
