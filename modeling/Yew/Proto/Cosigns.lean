import Yew.Proto.Attest

/-!
# Recoverable signatures and co-signature lists

A recoverable signature names the key that made it: a header byte, `r` and `s`, of which `s` is low.
A cancel's carrier holds a list of co-signatures, each a stated price and such a signature.

Only what the signer and the daemon both read is here; what each does with it is in their own
modules.

## Source

* `yewd/proto/src/attest.rs`: `CosignEntry`, `CosignEntry::bytes`, `CosignEntry::from_bytes`,
  `encode_cosigns`, `decode_cosigns`
* `yewd/proto/src/act.rs`: `OutPoint::bytes`, `low_s`, `recover`
-/

namespace Yew.Proto.Attest

open Bytes

/-! ## Recovering a key -/

/-- `recover_ecdsa` of libsecp256k1: the key that a recovery id, `r ‖ s` and a message give. -/
abbrev RecoverEcdsa := UInt8 → Bytes → Arr 32 → Option (Arr 33)

/-- Half the order of the group, the largest low `s`. -/
def halfOrder : Nat := 0x7fffffffffffffffffffffffffffffff5d576e7357a4501ddfe92f46681b20a0

/-- `low_s`. -/
def lowS (sig : Arr 65) : Bool := leToNat (sig.toList.drop 33).reverse ≤ halfOrder

/-- `recover`. -/
def recover (R : RecoverEcdsa) (msg : Arr 32) (sig : Arr 65) : Option (Arr 33) :=
  if ¬ (31 ≤ sig.head.toNat ∧ sig.head.toNat ≤ 34) ∨ lowS sig = false then none
  else R (sig.head - 31) sig.tail.toList msg

/-! ## The list of a carrier -/

/-- `CosignEntry`. -/
structure CosignEntry where
  priceMicroUsd : UInt32
  sig : Arr 65
deriving DecidableEq

/-- `CANCEL_COSIGN_ENTRY_SIZE`. -/
def cancelCosignEntrySize : Nat := 69

/-- `CANCEL_COSIGN_MAX`. -/
def cancelCosignMax : Nat := 7

/-- `COSIGN_MAGIC`. -/
def cosignMagic : Bytes := [0x59, 0x43]

/-- `CANCEL_COSIGN_VERSION`. -/
def cancelCosignVersion : UInt8 := 1

namespace CosignEntry

/-- `CosignEntry::bytes`. -/
def bytes (e : CosignEntry) : Bytes := cosignEntry e.priceMicroUsd e.sig

/-- `CosignEntry::from_bytes`. -/
def fromBytes (b : Bytes) : Option CosignEntry :=
  if b.length ≠ cancelCosignEntrySize then none
  else (toArr? 65 (b.drop 4)).map fun sig ↦ ⟨UInt32.ofNat (leToNat (b.take 4)), sig⟩

@[simp] theorem length_bytes (e : CosignEntry) : e.bytes.length = cancelCosignEntrySize := by
  rw [bytes, cosignEntry, List.length_append, length_leOfNat, List.Vector.toList_length]
  rfl

@[simp] theorem fromBytes_bytes (e : CosignEntry) : fromBytes e.bytes = some e := by
  have hlen : (leOfNat 4 e.priceMicroUsd.toNat).length = 4 := length_leOfNat _ _
  rw [fromBytes, if_neg (not_not.mpr e.length_bytes), bytes, cosignEntry, List.drop_left' hlen,
    List.take_left' hlen, toArr?_toList, leToNat_leOfNat e.priceMicroUsd.toNat_lt, Option.map_some,
    UInt32.ofNat_toNat]

end CosignEntry

/-- `encode_cosigns`. -/
def encodeCosigns (entries : List CosignEntry) : Option Bytes :=
  if entries.isEmpty ∨ cancelCosignMax < entries.length then none
  else some (cosignMagic ++ [cancelCosignVersion, UInt8.ofNat entries.length] ++
    entries.flatMap CosignEntry.bytes)

/-- The entries of a body that is cut into pieces of an entry's size. -/
def readEntries : Nat → Bytes → Option (List CosignEntry)
  | 0, _ => some []
  | n + 1, b => do
    let e ← CosignEntry.fromBytes (b.take cancelCosignEntrySize)
    let es ← readEntries n (b.drop cancelCosignEntrySize)
    return e :: es

/-- `decode_cosigns`. -/
def decodeCosigns : Bytes → Option (List CosignEntry)
  | m₀ :: m₁ :: version :: count :: body =>
    if [m₀, m₁] ≠ cosignMagic ∨ version ≠ cancelCosignVersion then none
    else if ¬ (1 ≤ count.toNat ∧ count.toNat ≤ cancelCosignMax) ∨
        body.length ≠ cancelCosignEntrySize * count.toNat then none
    else readEntries count.toNat body
  | _ => none

theorem readEntries_flatMap (entries : List CosignEntry) :
    readEntries entries.length (entries.flatMap CosignEntry.bytes) = some entries := by
  induction entries with
  | nil => rfl
  | cons e es ih =>
    rw [List.length_cons, readEntries, List.flatMap_cons, List.take_left' e.length_bytes,
      List.drop_left' e.length_bytes, e.fromBytes_bytes, ih]
    rfl

theorem length_flatMap_bytes (entries : List CosignEntry) :
    (entries.flatMap CosignEntry.bytes).length = cancelCosignEntrySize * entries.length := by
  induction entries with
  | nil => rfl
  | cons e es ih =>
    rw [List.flatMap_cons, List.length_append, e.length_bytes, ih, List.length_cons, Nat.mul_succ,
      Nat.add_comm]

/-- A list that was written is read. -/
theorem decodeCosigns_encodeCosigns {entries : List CosignEntry} {blob : Bytes}
    (h : encodeCosigns entries = some blob) : decodeCosigns blob = some entries := by
  unfold encodeCosigns at h
  split at h
  · cases h
  · rename_i hsize
    rw [not_or, List.isEmpty_iff, not_lt] at hsize
    obtain rfl := Option.some.inj h
    have hpos : 1 ≤ entries.length := List.length_pos_iff.mpr hsize.1
    have hle : entries.length ≤ 7 := hsize.2
    have hcount : (UInt8.ofNat entries.length).toNat = entries.length :=
      UInt8.toNat_ofNat_of_lt' (lt_of_le_of_lt hle (by decide))
    show decodeCosigns (0x59 :: 0x43 :: cancelCosignVersion :: UInt8.ofNat entries.length ::
      entries.flatMap CosignEntry.bytes) = some entries
    rw [decodeCosigns, if_neg (by decide), hcount, if_neg, readEntries_flatMap]
    rw [not_or, not_not, not_not]
    exact ⟨⟨hpos, hsize.2⟩, length_flatMap_bytes entries⟩

/-- A list of one to seven entries is written. -/
theorem encodeCosigns_isSome {entries : List CosignEntry} (hne : entries ≠ [])
    (hle : entries.length ≤ cancelCosignMax) : (encodeCosigns entries).isSome := by
  rw [encodeCosigns, if_neg]
  · rfl
  · rw [not_or, List.isEmpty_iff, not_lt]
    exact ⟨hne, hle⟩

end Yew.Proto.Attest
