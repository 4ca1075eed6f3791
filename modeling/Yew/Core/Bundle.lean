import Yew.Core.ScriptOps
import Yew.Proto.Attest

/-!
# Attestation bundles

The wire form of a bundle, the compact signatures in it, and `verify`, which judges a bundle against
the seated attestors.  A bundle is read back from its bytes and from the carrier that holds it, and
`verify` accepts what the seated members signed.

Whether a signature is good is asked of `Crypto`; the wire form of a compact signature, 64 bytes
with `r` and `s` below the curve's order, is spelled out, since the codec refuses what is not.

## Source

* `core/src/bundle.rs`: `BundleError`, `Attestation`, `Attestation::encode`, `Attestation::decode`,
  `encode`, `decode`, `verify_compact_sig`, `Seated`, `verify`
* `core/src/pq.rs`: `verify`
* `core/src/tx.rs`: `Transaction::version`
-/

namespace Yew.Bundle

open Script

/-! ## The wire form -/

/-- `MAGIC`. -/
def magic : Bytes := [0x59, 0x41]

/-- `VERSION`. -/
def version : UInt8 := 1

/-- `HEADER_SIZE`. -/
def headerSize : Nat := 4

/-- `ATTESTATION_SIZE`. -/
def attestationSize : Nat := 74

/-- `BUNDLE_MAX`. -/
def bundleMax : Nat := 6

/-- `BundleError`. -/
inductive BundleError where
  | shape
  | count (n : Nat)
  | member (seq : UInt16)
  | dup (seq : UInt16)
  | noBlock (height : UInt32)
  | sig (seq : UInt16) (height : UInt32)
deriving DecidableEq

/-- The text of a `BundleError`. -/
def BundleError.text : BundleError → String
  | .shape => "bundle-malformed: shape"
  | .count n => "bundle-refused: count " ++ Text.decimal n ++ " outside [1, 6]"
  | .member seq => "bundle-refused: attestor seq " ++ Text.decimal seq.toNat ++
      " is not in the seated set"
  | .dup seq => "bundle-refused: attestor seq " ++ Text.decimal seq.toNat ++ " appears twice"
  | .noBlock height => "bundle-refused: no block hash for cited height " ++
      Text.decimal height.toNat
  | .sig seq height => "bundle-refused: signature of attestor seq " ++ Text.decimal seq.toNat ++
      " over cited height " ++ Text.decimal height.toNat ++ " does not verify"

/-- `Attestation`. -/
structure Attestation where
  seq : UInt16
  priceMicroUsd : UInt32
  citedHeight : UInt32
  sig : Arr 64
deriving DecidableEq

/-- `Attestation::encode`. -/
def Attestation.encode (a : Attestation) : Bytes :=
  Proto.Attest.encodeAttestation a.seq a.priceMicroUsd a.citedHeight a.sig

/-- `Attestation::decode`. -/
def Attestation.decode (data : Bytes) : Option Attestation :=
  if data.length ≠ attestationSize then none
  else (Bytes.toArr? 64 (data.drop 10)).map fun sig ↦
    { seq := UInt16.ofNat (Bytes.leToNat (data.take 2))
      priceMicroUsd := UInt32.ofNat (Bytes.leToNat ((data.drop 2).take 4))
      citedHeight := UInt32.ofNat (Bytes.leToNat ((data.drop 6).take 4))
      sig }

/-- `encode`: at most 255 attestations are written. -/
def encode (atts : List Attestation) : Bytes :=
  magic ++ [version, UInt8.ofNat (min atts.length 255)] ++
    (atts.take 255).flatMap Attestation.encode

/-- The loop of `decode`: `count` slices of 74 bytes. -/
def decodeSlices : Nat → Bytes → Except BundleError (List Attestation)
  | 0, _ => .ok []
  | count + 1, data =>
    match Attestation.decode (data.take attestationSize) with
    | none => .error .shape
    | some a => (decodeSlices count (data.drop attestationSize)).map (a :: ·)

/-- `decode`. -/
def decode (data : Bytes) : Except BundleError (List Attestation) :=
  match data with
  | m0 :: m1 :: v :: count :: rest =>
    if [m0, m1] ≠ magic ∨ v ≠ version then .error .shape
    else if data.length ≠ headerSize + attestationSize * count.toNat then .error .shape
    else decodeSlices count.toNat rest
  | _ => .error .shape

/-! ## Compact signatures -/

/-- A parsed `ecdsa::Signature`: two scalars below the group order. -/
structure Signature where
  r : Nat
  s : Nat
  rLt : r < secp256k1Order
  sLt : s < secp256k1Order
deriving DecidableEq

namespace Signature

/-- `Signature::from_compact`: two big-endian scalars, neither beyond the group order. -/
def fromCompact (sig : Arr 64) : Option Signature :=
  let r := Bytes.leToNat (sig.toList.take 32).reverse
  let s := Bytes.leToNat (sig.toList.drop 32).reverse
  if h : r < secp256k1Order ∧ s < secp256k1Order then some ⟨r, s, h.1, h.2⟩ else none

/-- `Signature::serialize_compact`. -/
def serializeCompact (x : Signature) : Bytes :=
  (Bytes.leOfNat 32 x.r).reverse ++ (Bytes.leOfNat 32 x.s).reverse

/-- The second scalar is in the lower half. -/
def LowS (x : Signature) : Prop := x.s ≤ secp256k1Order / 2

instance : DecidablePred LowS := fun x ↦ inferInstanceAs (Decidable (x.s ≤ secp256k1Order / 2))

/-- `Signature::normalize_s`: a scalar of the upper half is negated. -/
def normalizeS (x : Signature) : Signature :=
  if h : x.LowS then x
  else ⟨x.r, secp256k1Order - x.s, x.rLt, Nat.sub_lt (by decide) (by unfold LowS at h; omega)⟩

end Signature

section Verify

/- `ecdsa::verify` of the curve library: a parsed signature, a digest and a key. -/
variable (C : Crypto) (ecdsaVerify : Signature → Arr 32 → Arr 33 → Bool)

/-- `verify_compact_sig`: a signature that `normalize_s` would change is refused. -/
def verifyCompactSig (pk : Arr 33) (msg : Arr 32) (sig : Arr 64) : Bool :=
  if !C.pointOk pk.toList then false
  else match Signature.fromCompact sig with
    | none => false
    | some s =>
      if s.normalizeS.serializeCompact ≠ s.serializeCompact then false
      else ecdsaVerify s msg pk

/-- The members of the first loop of `verify`: each seated, none seen before. -/
def checkMembers (seated : UInt16 → Option (Arr 33)) :
    List UInt16 → List Attestation → Except BundleError Unit
  | _, [] => .ok ()
  | seen, a :: atts =>
    if (seated a.seq).isNone then .error (.member a.seq)
    else if a.seq ∈ seen then .error (.dup a.seq)
    else checkMembers seated (a.seq :: seen) atts

/-- The second loop of `verify`.  The first has found every member seated; an index that is not in
the map would stop the program. -/
def checkSigs (seated : UInt16 → Option (Arr 33)) (blockHashAt : UInt32 → Option (Arr 32)) :
    List Attestation → Except (Halt BundleError) Unit
  | [] => .ok ()
  | a :: atts =>
    match blockHashAt a.citedHeight with
    | none => .error (.error (.noBlock a.citedHeight))
    | some hash =>
      let msg := Proto.Attest.attestMessage C a.seq a.priceMicroUsd a.citedHeight hash
      match seated a.seq with
      | none => .error .panic
      | some pk =>
        if !verifyCompactSig C ecdsaVerify pk msg a.sig then
          .error (.error (.sig a.seq a.citedHeight))
        else checkSigs seated blockHashAt atts

/-- `verify`. -/
def verify (bundle : Bytes) (seated : UInt16 → Option (Arr 33))
    (blockHashAt : UInt32 → Option (Arr 32)) : Except (Halt BundleError) (List Attestation) :=
  match decode bundle with
  | .error e => .error (.error e)
  | .ok atts =>
    if atts.isEmpty ∨ bundleMax < atts.length then .error (.error (.count atts.length))
    else match checkMembers seated [] atts with
      | .error e => .error (.error e)
      | .ok () => (checkSigs C ecdsaVerify seated blockHashAt atts).map fun _ ↦ atts

end Verify

/-! ## Read back -/

theorem ofNat_leToNat_leOfNat_16 (n : UInt16) :
    UInt16.ofNat (Bytes.leToNat (Bytes.leOfNat 2 n.toNat)) = n := by
  rw [Bytes.leToNat_leOfNat n.toNat_lt, UInt16.ofNat_toNat]

theorem ofNat_leToNat_leOfNat_32 (n : UInt32) :
    UInt32.ofNat (Bytes.leToNat (Bytes.leOfNat 4 n.toNat)) = n := by
  rw [Bytes.leToNat_leOfNat n.toNat_lt, UInt32.ofNat_toNat]

@[simp] theorem length_encodeAtt (a : Attestation) : a.encode.length = attestationSize := by
  simp [Attestation.encode, Proto.Attest.encodeAttestation, attestationSize]

/-- The four slices of an attestation. -/
theorem slices_append {u v w t : Bytes} (hu : u.length = 2) (hv : v.length = 4)
    (hw : w.length = 4) :
    (u ++ (v ++ (w ++ t))).take 2 = u ∧ ((u ++ (v ++ (w ++ t))).drop 2).take 4 = v ∧
      ((u ++ (v ++ (w ++ t))).drop 6).take 4 = w ∧ (u ++ (v ++ (w ++ t))).drop 10 = t := by
  have h2 : (u ++ (v ++ (w ++ t))).drop 2 = v ++ (w ++ t) := List.drop_left' hu
  have h6 : (u ++ (v ++ (w ++ t))).drop 6 = w ++ t := by
    rw [show 6 = 2 + 4 from rfl, ← List.drop_drop, h2, List.drop_left' hv]
  have h10 : (u ++ (v ++ (w ++ t))).drop 10 = t := by
    rw [show 10 = 6 + 4 from rfl, ← List.drop_drop, h6, List.drop_left' hw]
  exact ⟨List.take_left' hu, by rw [h2, List.take_left' hv], by rw [h6, List.take_left' hw], h10⟩

theorem Attestation.decode_encode (a : Attestation) : Attestation.decode a.encode = some a := by
  rw [decode, if_neg (not_not.mpr (length_encodeAtt a))]
  simp only [encode, Proto.Attest.encodeAttestation, List.append_assoc]
  obtain ⟨hseq, hprice, hheight, hsig⟩ := @slices_append (Bytes.leOfNat 2 a.seq.toNat)
    (Bytes.leOfNat 4 a.priceMicroUsd.toNat) (Bytes.leOfNat 4 a.citedHeight.toNat) a.sig.toList
    (Bytes.length_leOfNat 2 _) (Bytes.length_leOfNat 4 _) (Bytes.length_leOfNat 4 _)
  rw [hseq, hprice, hheight, hsig, Bytes.toArr?_toList, ofNat_leToNat_leOfNat_16,
    ofNat_leToNat_leOfNat_32, ofNat_leToNat_leOfNat_32]
  rfl

theorem leOfNat_toNat_ofNat_16 {b : Bytes} (h : b.length = 2) :
    Bytes.leOfNat 2 (UInt16.ofNat (Bytes.leToNat b)).toNat = b := by
  have hlt := Bytes.leToNat_lt b
  rw [h] at hlt
  rw [UInt16.toNat_ofNat', Nat.mod_eq_of_lt (by omega)]
  exact h ▸ Bytes.leOfNat_leToNat b

theorem leOfNat_toNat_ofNat_32 {b : Bytes} (h : b.length = 4) :
    Bytes.leOfNat 4 (UInt32.ofNat (Bytes.leToNat b)).toNat = b := by
  have hlt := Bytes.leToNat_lt b
  rw [h] at hlt
  rw [UInt32.toNat_ofNat', Nat.mod_eq_of_lt (by omega)]
  exact h ▸ Bytes.leOfNat_leToNat b

theorem Attestation.encode_decode {data : Bytes} {a : Attestation}
    (h : Attestation.decode data = some a) : a.encode = data := by
  unfold decode at h
  split at h
  · cases h
  rename_i hlen
  replace hlen : data.length = 74 := not_not.mp hlen
  obtain ⟨sig, hsig, rfl⟩ := Option.map_eq_some_iff.mp h
  rw [encode, Proto.Attest.encodeAttestation, leOfNat_toNat_ofNat_16 (by simp [hlen]),
    leOfNat_toNat_ofNat_32 (by simp [hlen]), leOfNat_toNat_ofNat_32 (by simp [hlen]),
    ← Bytes.toArr?_eq_some.mp hsig]
  have hcut : ∀ n m, (data.drop n).take m ++ data.drop (n + m) = data.drop n := by
    intro n m
    rw [← List.drop_drop, List.take_append_drop]
  rw [List.append_assoc, List.append_assoc, hcut 6 4, hcut 2 4, List.take_append_drop]

theorem decodeSlices_flatMap (atts : List Attestation) :
    decodeSlices atts.length (atts.flatMap Attestation.encode) = .ok atts := by
  induction atts with
  | nil => rfl
  | cons a atts ih =>
    rw [List.flatMap_cons, List.length_cons, decodeSlices, List.take_left' (length_encodeAtt a),
      List.drop_left' (length_encodeAtt a), Attestation.decode_encode, ih]
    rfl

theorem flatMap_decodeSlices {count : Nat} {data : Bytes} {atts : List Attestation}
    (hlen : data.length = attestationSize * count) (h : decodeSlices count data = .ok atts) :
    atts.length = count ∧ atts.flatMap Attestation.encode = data := by
  induction count generalizing data atts with
  | zero =>
    obtain rfl : [] = atts := Except.ok.inj h
    exact ⟨rfl, (List.eq_nil_of_length_eq_zero hlen).symm⟩
  | succ count ih =>
    rw [decodeSlices] at h
    split at h
    · cases h
    rename_i a ha
    cases hrest : decodeSlices count (data.drop attestationSize) with
    | error e => rw [hrest] at h; cases h
    | ok rest =>
      rw [hrest] at h
      obtain rfl : a :: rest = atts := Except.ok.inj h
      obtain ⟨hcount, hbytes⟩ := ih (by rw [List.length_drop, hlen, Nat.mul_succ]; omega) hrest
      refine ⟨by rw [List.length_cons, hcount], ?_⟩
      rw [List.flatMap_cons, Attestation.encode_decode ha, hbytes, List.take_append_drop]

/-- A bundle of at most 255 attestations is read back. -/
theorem decode_encode {atts : List Attestation} (h : atts.length ≤ 255) :
    decode (encode atts) = .ok atts := by
  have hcount : (UInt8.ofNat (min atts.length 255)).toNat = atts.length := by
    rw [UInt8.toNat_ofNat', Nat.min_eq_left h, Nat.mod_eq_of_lt (by omega)]
  have hlen : (atts.flatMap Attestation.encode).length = attestationSize * atts.length := by
    simp [List.length_flatMap, Nat.mul_comm]
  have hform : encode atts = 0x59 :: 0x41 :: version :: UInt8.ofNat (min atts.length 255) ::
      atts.flatMap Attestation.encode := by
    rw [encode, List.take_of_length_le h]
    rfl
  rw [hform, decode, if_neg (by simp [magic]), if_neg, hcount, decodeSlices_flatMap]
  simp only [List.length_cons, hcount, headerSize, hlen]
  omega

/-- Bytes that are read as a bundle are the bytes of it. -/
theorem encode_decode {data : Bytes} {atts : List Attestation} (h : decode data = .ok atts) :
    encode atts = data := by
  unfold decode at h
  split at h
  · rename_i m0 m1 v count rest
    split at h
    · cases h
    rename_i hhead
    obtain ⟨hmagic, rfl⟩ : [m0, m1] = magic ∧ v = version := by simpa using hhead
    split at h
    · cases h
    rename_i hlen
    replace hlen : rest.length = attestationSize * count.toNat := by
      simp [headerSize] at hlen
      omega
    obtain ⟨hcount, hbytes⟩ := flatMap_decodeSlices hlen h
    have hle : atts.length ≤ 255 := by
      have := count.toNat_lt
      omega
    rw [encode, List.take_of_length_le hle, Nat.min_eq_left hle, hcount, UInt8.ofNat_toNat, hbytes,
      ← hmagic]
    rfl
  · cases h

/-! ## The carrier -/

section Carrier

variable {C : Crypto} {pk : Arr 33} {hash : Arr 32} {script : Bytes}

/-- The operations and the length of a carrier script. -/
theorem ops_carrierScript (h : carrierScript C pk hash = .ok script) :
    isCompressedKey C pk.toList = true ∧ script.length = carrierScriptSize ∧
      ops script = .ok [⟨opSwap, []⟩, ⟨opSha256, []⟩, ⟨32, hash.toList⟩, ⟨opEqualverify, []⟩,
        ⟨33, pk.toList⟩, ⟨opChecksig, []⟩] := by
  unfold carrierScript at h
  split at h
  · rename_i hkey
    cases h
    have hhash : Spells (pushData hash.toList) [⟨32, hash.toList⟩] := by
      have := @Spells.pushData hash.toList (by simp)
      simpa [pushOp, opPushdata1] using this
    have hpk : Spells (pushData pk.toList) [⟨33, pk.toList⟩] := by
      have := @Spells.pushData pk.toList (by simp)
      simpa [pushOp, opPushdata1] using this
    refine ⟨hkey, by simp [pushData, opPushdata1, carrierScriptSize], ?_⟩
    have hverify : Spells [opEqualverify] [⟨opEqualverify, []⟩] := Spells.opcode (by decide)
    have hcheck : Spells [opChecksig] [⟨opChecksig, []⟩] := Spells.opcode (by decide)
    have hswap : Spells [opSwap] [⟨opSwap, []⟩] := Spells.opcode (by decide)
    have hsha : Spells [opSha256] [⟨opSha256, []⟩] := Spells.opcode (by decide)
    exact (((((hswap.append hsha).append hhash).append hverify).append hpk).append hcheck).ops_eq
  · cases h

/-- The key and the hash of a carrier script are read back. -/
theorem parseCarrierScript_carrierScript (h : carrierScript C pk hash = .ok script) :
    parseCarrierScript C script = some (pk, hash) := by
  obtain ⟨hkey, hlen, hops⟩ := ops_carrierScript h
  rw [parseCarrierScript, if_neg (not_not.mpr hlen), hops]
  simp [hkey]

/-- What a carrier's scriptSig was built from is read back. -/
theorem parseCarrierScriptSig_carrierScriptSig {bundle sig scriptSig : Bytes}
    (h : carrierScript C pk hash = .ok script) (hsig : sig.length < 2 ^ 32)
    (hs : carrierScriptSig bundle sig script = .ok scriptSig) :
    parseCarrierScriptSig C scriptSig = some ⟨bundle, sig, pk, hash, script⟩ := by
  unfold carrierScriptSig at hs
  split at hs
  · cases hs
  rename_i hlen
  cases hs
  obtain ⟨-, hscript, -⟩ := ops_carrierScript h
  rw [show maxScriptElementSize = 520 from rfl] at hlen
  rw [show carrierScriptSize = 71 from rfl] at hscript
  obtain ⟨o₀, h₀, rfl, hle₀⟩ := @Spells.exists_pushOp_of_lt bundle (by omega)
  obtain ⟨o₁, h₁, rfl, hle₁⟩ := @Spells.exists_pushOp_of_lt sig hsig
  obtain ⟨o₂, h₂, rfl, hle₂⟩ := @Spells.exists_pushOp_of_lt script (by omega)
  have hops := ((h₀.append h₁).append h₂).ops_eq
  simp only [List.cons_append, List.nil_append] at hops
  rw [parseCarrierScriptSig, hops]
  simp [UInt8.not_lt.mpr hle₀, UInt8.not_lt.mpr hle₁, UInt8.not_lt.mpr hle₂,
    parseCarrierScript_carrierScript h]

end Carrier

/-! ## What is accepted -/

namespace Signature

theorem normalizeS_of_lowS {x : Signature} (h : x.LowS) : x.normalizeS = x := dif_pos h

theorem serializeCompact_injective {x y : Signature} (h : x.serializeCompact = y.serializeCompact) :
    x = y := by
  obtain ⟨hr, hs⟩ := List.append_inj h (by simp)
  have hback : ∀ {m n : Nat}, m < secp256k1Order → n < secp256k1Order →
      Bytes.leOfNat 32 m = Bytes.leOfNat 32 n → m = n := by
    intro m n hm hn hmn
    have hbound : secp256k1Order < 256 ^ 32 := by decide
    rw [← Bytes.leToNat_leOfNat (hm.trans hbound), hmn, Bytes.leToNat_leOfNat (hn.trans hbound)]
  obtain ⟨r, s, hrlt, hslt⟩ := x
  obtain ⟨r', s', hrlt', hslt'⟩ := y
  obtain rfl := hback hrlt hrlt' (List.reverse_injective hr)
  obtain rfl := hback hslt hslt' (List.reverse_injective hs)
  rfl

/-- Exactly the signatures of the lower half are left as they are: the group order is odd. -/
theorem serializeCompact_normalizeS_iff {x : Signature} :
    x.normalizeS.serializeCompact = x.serializeCompact ↔ x.LowS := by
  constructor
  · intro h
    by_contra hlow
    have hs := congrArg Signature.s (serializeCompact_injective h)
    rw [normalizeS, dif_neg hlow] at hs
    have hodd : secp256k1Order % 2 = 1 := by decide
    have hlt := x.sLt
    dsimp only at hs
    omega
  · intro h
    rw [normalizeS_of_lowS h]

end Signature

section Accepted

variable (C : Crypto) (ecdsaVerify : Signature → Arr 32 → Arr 33 → Bool)

/-- A valid low-S signature of a key: its two scalars are below the group order, the second in the
lower half, and the curve library verifies it under the key. -/
def ValidLowS (pk : Arr 33) (msg : Arr 32) (sig : Arr 64) : Prop :=
  ∃ s, Signature.fromCompact sig = some s ∧ s.LowS ∧ C.pointOk pk.toList = true ∧
    ecdsaVerify s msg pk = true

/-- The attestation is signed by the seated key of its member, at the hash of its own cited block. -/
def Signed (seated : UInt16 → Option (Arr 33)) (blockHashAt : UInt32 → Option (Arr 32))
    (a : Attestation) : Prop :=
  ∃ pk hash, seated a.seq = some pk ∧ blockHashAt a.citedHeight = some hash ∧
    ValidLowS C ecdsaVerify pk
      (Proto.Attest.attestMessage C a.seq a.priceMicroUsd a.citedHeight hash) a.sig

variable {C ecdsaVerify}

theorem verifyCompactSig_iff {pk : Arr 33} {msg : Arr 32} {sig : Arr 64} :
    verifyCompactSig C ecdsaVerify pk msg sig = true ↔ ValidLowS C ecdsaVerify pk msg sig := by
  unfold verifyCompactSig ValidLowS
  cases hpk : C.pointOk pk.toList with
  | false => simp
  | true =>
    cases hsig : Signature.fromCompact sig with
    | none => simp
    | some s => simp [Signature.serializeCompact_normalizeS_iff]

/-- The first loop accepts members that are seated, pairwise different and not seen. -/
theorem checkMembers_eq_ok_iff {seated : UInt16 → Option (Arr 33)} {seen : List UInt16}
    {atts : List Attestation} :
    checkMembers seated seen atts = .ok () ↔ (∀ a ∈ atts, (seated a.seq).isSome) ∧
      (atts.map Attestation.seq).Nodup ∧ ∀ a ∈ atts, a.seq ∉ seen := by
  induction atts generalizing seen with
  | nil => simp [checkMembers]
  | cons a atts ih =>
    rw [checkMembers]
    cases hseat : seated a.seq with
    | none => simp [hseat]
    | some pk =>
      by_cases hseen : a.seq ∈ seen
      · simp [hseen]
      · rw [if_neg (by simp), if_neg hseen, ih, List.forall_mem_cons, List.forall_mem_cons,
          List.map_cons, List.nodup_cons, List.mem_map, hseat]
        constructor
        · rintro ⟨hall, hnodup, hnot⟩
          refine ⟨⟨rfl, hall⟩, ⟨?_, hnodup⟩, hseen, fun b hb hmem ↦ ?_⟩
          · rintro ⟨b, hb, heq⟩
            exact hnot b hb (List.mem_cons.mpr (.inl heq))
          · exact hnot b hb (List.mem_cons_of_mem _ hmem)
        · rintro ⟨⟨-, hall⟩, ⟨hne, hnodup⟩, -, hnot⟩
          refine ⟨hall, hnodup, fun b hb hmem ↦ ?_⟩
          rcases List.mem_cons.mp hmem with heq | hmem
          · exact hne ⟨b, hb, heq⟩
          · exact hnot b hb hmem

theorem signed_iff {seated : UInt16 → Option (Arr 33)} {blockHashAt : UInt32 → Option (Arr 32)}
    {a : Attestation} {pk : Arr 33} {hash : Arr 32} (hpk : seated a.seq = some pk)
    (hhash : blockHashAt a.citedHeight = some hash) :
    Signed C ecdsaVerify seated blockHashAt a ↔ verifyCompactSig C ecdsaVerify pk
      (Proto.Attest.attestMessage C a.seq a.priceMicroUsd a.citedHeight hash) a.sig = true := by
  rw [verifyCompactSig_iff]
  constructor
  · rintro ⟨pk', hash', hpk', hhash', hvalid⟩
    obtain rfl := Option.some.inj (hpk.symm.trans hpk')
    obtain rfl := Option.some.inj (hhash.symm.trans hhash')
    exact hvalid
  · exact fun hvalid ↦ ⟨pk, hash, hpk, hhash, hvalid⟩

/-- The second loop accepts attestations that are signed. -/
theorem checkSigs_eq_ok_iff {seated : UInt16 → Option (Arr 33)}
    {blockHashAt : UInt32 → Option (Arr 32)} {atts : List Attestation} :
    checkSigs C ecdsaVerify seated blockHashAt atts = .ok () ↔
      ∀ a ∈ atts, Signed C ecdsaVerify seated blockHashAt a := by
  induction atts with
  | nil => simp [checkSigs]
  | cons a atts ih =>
    rw [checkSigs, List.forall_mem_cons, ← ih]
    cases hhash : blockHashAt a.citedHeight with
    | none => simp [Signed, hhash]
    | some hash =>
      cases hpk : seated a.seq with
      | none => simp [Signed, hpk]
      | some pk =>
        rw [signed_iff hpk hhash]
        cases hv : verifyCompactSig C ecdsaVerify pk _ a.sig <;> simp [hv]

/-- What `verify` accepts. -/
theorem verify_eq_ok_iff {bundle : Bytes} {seated : UInt16 → Option (Arr 33)}
    {blockHashAt : UInt32 → Option (Arr 32)} {atts : List Attestation} :
    verify C ecdsaVerify bundle seated blockHashAt = .ok atts ↔
      decode bundle = .ok atts ∧ 1 ≤ atts.length ∧ atts.length ≤ 6 ∧
      (∀ a ∈ atts, (seated a.seq).isSome) ∧ (atts.map Attestation.seq).Nodup ∧
      ∀ a ∈ atts, Signed C ecdsaVerify seated blockHashAt a := by
  have hmembers : ∀ atts, checkMembers seated [] atts = .ok () ↔
      (∀ a ∈ atts, (seated a.seq).isSome) ∧ (atts.map Attestation.seq).Nodup := by
    intro atts
    simp [checkMembers_eq_ok_iff]
  rw [verify]
  cases hdec : decode bundle with
  | error e => simp
  | ok bs =>
    dsimp only
    constructor
    · intro h
      split at h
      · cases h
      rename_i hcount
      obtain ⟨hne, hle⟩ : bs ≠ [] ∧ bs.length ≤ 6 := by simpa [bundleMax] using hcount
      cases hmem : checkMembers seated [] bs with
      | error e => rw [hmem] at h; cases h
      | ok u =>
        rw [hmem] at h
        cases hsigs : checkSigs C ecdsaVerify seated blockHashAt bs with
        | error e => rw [hsigs] at h; cases h
        | ok v =>
          rw [hsigs] at h
          obtain rfl : bs = atts := Except.ok.inj h
          exact ⟨rfl, List.length_pos_iff.mpr hne, hle, ((hmembers _).mp hmem).1,
            ((hmembers _).mp hmem).2, checkSigs_eq_ok_iff.mp hsigs⟩
    · rintro ⟨hbs, hpos, hle, hseated, hnodup, hsigned⟩
      obtain rfl : bs = atts := Except.ok.inj hbs
      have hne : bs ≠ [] := List.length_pos_iff.mp hpos
      rw [if_neg (by simp [hne, bundleMax, hle]), (hmembers bs).mpr ⟨hseated, hnodup⟩,
        checkSigs_eq_ok_iff.mpr hsigned]
      rfl

end Accepted

/-- **Bundles and carriers.**  A bundle of at most 255 attestations is read back from its bytes, and
bytes that are read as a bundle are its bytes; the key and the hash of a carrier script are read back
from it, and so are the bundle that fits one push, the signature, the key and the hash from a
carrier's scriptSig; and `verify` accepts exactly the bundles of one to six attestations of seated,
pairwise different members, each with a valid low-S signature of its member's key over the message at
the hash of its own cited block. -/
theorem bundle_carrier_sound (C : Crypto) (ecdsaVerify : Signature → Arr 32 → Arr 33 → Bool) :
    (∀ atts : List Attestation, atts.length ≤ 255 → decode (encode atts) = .ok atts) ∧
    (∀ data atts, decode data = .ok atts → encode atts = data) ∧
    (∀ (pk : Arr 33) (hash : Arr 32) (script : Bytes), carrierScript C pk hash = .ok script →
      parseCarrierScript C script = some (pk, hash) ∧
      ∀ bundle sig : Bytes, bundle.length ≤ maxScriptElementSize → sig.length < 2 ^ 32 →
        ∃ scriptSig, carrierScriptSig bundle sig script = .ok scriptSig ∧
          parseCarrierScriptSig C scriptSig = some ⟨bundle, sig, pk, hash, script⟩) ∧
    (∀ (pk : Arr 33) (hash : Arr 32), isCompressedKey C pk.toList = true →
      ∃ script, carrierScript C pk hash = .ok script) ∧
    (∀ (bundle : Bytes) (seated : UInt16 → Option (Arr 33))
      (blockHashAt : UInt32 → Option (Arr 32)) (atts : List Attestation),
      verify C ecdsaVerify bundle seated blockHashAt = .ok atts ↔
        decode bundle = .ok atts ∧ 1 ≤ atts.length ∧ atts.length ≤ 6 ∧
        (∀ a ∈ atts, (seated a.seq).isSome) ∧ (atts.map Attestation.seq).Nodup ∧
        ∀ a ∈ atts, Signed C ecdsaVerify seated blockHashAt a) := by
  refine ⟨fun atts h ↦ decode_encode h, fun data atts h ↦ encode_decode h, fun pk hash script h ↦ ?_,
    fun pk hash h ↦ ⟨_, if_pos h⟩, fun bundle seated blockHashAt atts ↦ verify_eq_ok_iff⟩
  refine ⟨parseCarrierScript_carrierScript h, fun bundle sig hbundle hsig ↦ ?_⟩
  have hs : carrierScriptSig bundle sig script =
      .ok (pushData bundle ++ pushData sig ++ pushData script) := if_neg (Nat.not_lt.mpr hbundle)
  exact ⟨_, hs, parseCarrierScriptSig_carrierScriptSig h hsig hs⟩

end Yew.Bundle
