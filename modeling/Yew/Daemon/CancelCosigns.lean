import Yew.Daemon.YedSend
import Yew.Proto.Cosigns
import Yew.Util.Record

/-!
# The co-signatures of a cancel

A cancel of a claim needs co-signatures of different members of the attestor set, each of which
states a price at which the vault was not claimable.  The caller gives them in a list, with whatever
else is in it.  One pass over the list drops what does not count and says why, and the carrier takes
what is left.

The message each co-signature covers is that of `Yew.Proto.Cosigns`, and whether a signature is good
is asked of `Crypto`.

## Source

* `yewd/wallet/src/attest.rs`: `AttRec`, `current_member`
* `yewd/wallet/src/lib.rs`: `Signer`
-/

namespace Yew.Daemon

open Tx Proto Attest

/-! ## Members -/

/-- The fields of an `AttRec` that `current_member` reads. -/
structure AttRec where
  seq : UInt16
  pubkey : Arr 33
  status : String
  registerHeight : Int
  bondSpent : Bool
  frozen : Bool
deriving DecidableEq

/-- `current_member`: by the latest record of the key. -/
def currentMember (recs : List AttRec) (maturity : Int) (key : Arr 33) (height : Int) :
    Option UInt16 :=
  match recs.reverse.find? fun r ↦ r.pubkey = key with
  | none => none
  | some r =>
    if r.status = "EJECTED" ∨ r.status = "WITHDRAWN" ∨ r.bondSpent ∨ r.frozen then none
    else if height < r.registerHeight + maturity then none
    else some r.seq

/-! ## The pass over the list -/

/-- What a co-signature is judged by: the set, the intent, the claim's reference height and its
block, the members and the next height, and the terms of the vault. -/
structure CancelCheck where
  setId : Arr 32
  intent : OutPoint
  refHeight : Int
  blockHash : Arr 32
  recs : List AttRec
  maturity : Int
  next : Int
  collateralZat : Int
  mintedCents : Int
  claimThresholdBps : Int

/-- What the pass has found. -/
structure CosignPass where
  warnings : List String
  entries : List CosignEntry
  cosigners : List UInt16
  seen : List (Arr 33)

/-- A co-signature, from its hexadecimal text. -/
def readCosign (c : Json) : Option CosignEntry :=
  (c.str?.bind Hex.decode).bind CosignEntry.fromBytes

section Pass

variable (C : Crypto) (R : RecoverEcdsa) (K : CancelCheck)

/-- The key that a co-signature of this intent's cancel was made with. -/
def CancelCheck.signer (e : CosignEntry) : Option (Arr 33) :=
  recover R (cancelCosignMessage C K.setId K.intent.txid K.intent.n (asU32 K.refHeight)
    e.priceMicroUsd K.blockHash) e.sig

/-- Whether the stated price is one of an attestor. -/
def priceInRange (e : CosignEntry) : Bool :=
  priceMin ≤ e.priceMicroUsd.toNat ∧ e.priceMicroUsd.toNat ≤ priceMax

/-- Whether the vault was claimable at the stated price. -/
def CancelCheck.claimableAt (e : CosignEntry) : Bool :=
  Attest.isUnderwater K.collateralZat e.priceMicroUsd.toNat K.mintedCents K.claimThresholdBps

/-- One entry of the list: what the carrier takes of it, or why it is dropped. -/
def judgeCosign (s : CosignPass) (c : Json) : Except String (CosignEntry × UInt16 × Arr 33) :=
  match readCosign c with
  | none => .error "cancel-cosign-malformed: not a 69-byte co-signature"
  | some e =>
    match K.signer C R e with
    | none => .error "cancel-cosign-malformed: does not sign this intent's cancel"
    | some key =>
      if key ∈ s.seen then .error ("a repeat of key " ++ Hex.encode key.toList)
      else match currentMember K.recs K.maturity key K.next with
        | none => .error ("cancel-cosign-not-member: key " ++ Hex.encode key.toList ++
            " is not a current member of the attestor set at height " ++ Text.decimalInt K.next)
        | some seq =>
          if priceInRange e = false then
            .error ("attest-range: seq " ++ Text.decimal seq.toNat ++ " states " ++
              Text.decimal e.priceMicroUsd.toNat ++ " micro-USD, outside [" ++
              Text.decimal priceMin ++ ", " ++ Text.decimal priceMax ++ "]")
          else if K.claimableAt e then
            .error ("cancel-statement-claimable: seq " ++ Text.decimal seq.toNat ++ " states " ++
              Text.decimal e.priceMicroUsd.toNat ++
              " micro-USD, at which the vault was claimable at refHeight " ++
              Text.decimalInt K.refHeight)
          else if cancelCosignMax ≤ s.entries.length then
            .error ("beyond the carrier's " ++ Text.decimal cancelCosignMax ++ " entries")
          else .ok (e, seq, key)

/-- One entry with its place in the list. -/
def cosignStep (s : CosignPass) (x : Json × Nat) : CosignPass :=
  match judgeCosign C R K s x.1 with
  | .error why => { s with
      warnings := s.warnings ++ ["cosigs[" ++ Text.decimal x.2 ++ "] dropped: " ++ why] }
  | .ok (e, seq, key) => { s with
      entries := s.entries ++ [e], cosigners := s.cosigners ++ [seq], seen := s.seen ++ [key] }

/-- The pass over the list. -/
def filterCosigns (cos : List Json) : CosignPass :=
  cos.zipIdx.foldl (cosignStep C R K) ⟨[], [], [], []⟩

/-- The co-signature check of `yed_buildcancel`. -/
def checkCosigns (required : Int) (cos : List Json) : Except RpcError CosignPass :=
  let s := filterCosigns C R K cos
  if s.entries.length < required then
    .error ⟨-8, "cancel-cosign-needed: this cancel needs " ++ Text.decimalInt required ++
      " co-signature(s) of distinct current members (cancelsRequired), " ++
      Text.decimal s.entries.length ++ " valid given (yed_signcancelcosign)" ++
      String.join (s.warnings.map fun w ↦ "; " ++ w)⟩
  else .ok s

/-! ## What counts -/

/-- A co-signature that counts for a key. -/
structure CancelCheck.Counts (e : CosignEntry) (key : Arr 33) : Prop where
  signs : K.signer C R e = some key
  member : (currentMember K.recs K.maturity key K.next).isSome
  inRange : priceInRange e = true
  notClaimable : K.claimableAt e = false

/-- The key that an entry of the list counts for, if it counts. -/
def CancelCheck.goodKey (c : Json) : Option (Arr 33) :=
  (readCosign c).bind fun e ↦ (K.signer C R e).filter fun key ↦
    (currentMember K.recs K.maturity key K.next).isSome && priceInRange e && !K.claimableAt e

variable {C R K}

theorem goodKey_eq_some {c : Json} {key : Arr 33} :
    K.goodKey C R c = some key ↔ ∃ e, readCosign c = some e ∧ K.Counts C R e key := by
  unfold CancelCheck.goodKey
  rw [Option.bind_eq_some_iff]
  refine exists_congr fun e ↦ and_congr_right fun _ ↦ ?_
  rw [Option.filter_eq_some_iff]
  simp only [Bool.and_eq_true, Bool.not_eq_true']
  constructor
  · rintro ⟨hsigns, ⟨hmember, hrange⟩, hclaimable⟩
    exact ⟨hsigns, hmember, hrange, hclaimable⟩
  · rintro ⟨hsigns, hmember, hrange, hclaimable⟩
    exact ⟨hsigns, ⟨hmember, hrange⟩, hclaimable⟩

/-- What is taken counts for a new key, and there was room for it. -/
theorem judgeCosign_eq_ok {s : CosignPass} {c : Json} {e : CosignEntry} {seq : UInt16}
    {key : Arr 33} (h : judgeCosign C R K s c = .ok (e, seq, key)) :
    readCosign c = some e ∧ K.Counts C R e key ∧ key ∉ s.seen ∧
      s.entries.length < cancelCosignMax := by
  unfold judgeCosign at h
  split at h
  · cases h
  rename_i e' hread
  split at h
  · cases h
  rename_i key' hsigns
  obtain ⟨hseen, h⟩ := Result.guard_eq_ok.mp h
  split at h
  · cases h
  rename_i seq' hmember
  obtain ⟨hrange, h⟩ := Result.guard_eq_ok.mp h
  obtain ⟨hclaimable, h⟩ := Result.guard_eq_ok.mp h
  obtain ⟨hroom, h⟩ := Result.guard_eq_ok.mp h
  cases h
  exact ⟨hread, ⟨hsigns, by rw [hmember]; rfl, by simpa using hrange, by simpa using hclaimable⟩,
    hseen, not_le.mp hroom⟩

/-- What is dropped counts for no key, or for one that was seen, or there is no room for it. -/
theorem seen_of_judgeCosign_eq_error {s : CosignPass} {c : Json} {why : String} {key : Arr 33}
    (h : judgeCosign C R K s c = .error why) (hgood : K.goodKey C R c = some key) :
    key ∈ s.seen ∨ cancelCosignMax ≤ s.entries.length := by
  obtain ⟨e, hread, hcounts⟩ := goodKey_eq_some.mp hgood
  obtain ⟨seq, hseq⟩ := Option.isSome_iff_exists.mp hcounts.member
  by_contra hne
  rw [not_or] at hne
  rw [judgeCosign, hread] at h
  dsimp only at h
  rw [hcounts.signs] at h
  dsimp only at h
  rw [if_neg hne.1, hseq] at h
  dsimp only at h
  rw [hcounts.inRange, if_neg (by decide), hcounts.notClaimable, if_neg (by decide),
    if_neg hne.2] at h
  cases h

/-! ## The invariant of the pass -/

/-- After some of the list: what was taken counts for different keys of it, and no key of it is left
out unless the carrier is full. -/
structure CosignPass.Kept (C : Crypto) (R : RecoverEcdsa) (K : CancelCheck) (cos : List Json)
    (s : CosignPass) : Prop where
  counts : List.Forall₂ (K.Counts C R) s.entries s.seen
  nodup : s.seen.Nodup
  few : s.entries.length ≤ cancelCosignMax
  sound : ∀ key ∈ s.seen, key ∈ cos.filterMap (K.goodKey C R)
  complete : s.entries.length < cancelCosignMax →
    ∀ key ∈ cos.filterMap (K.goodKey C R), key ∈ s.seen

theorem mem_filterMap_concat {cos : List Json} {c : Json} {key : Arr 33} :
    key ∈ (cos ++ [c]).filterMap (K.goodKey C R) ↔
      key ∈ cos.filterMap (K.goodKey C R) ∨ K.goodKey C R c = some key := by
  rw [List.filterMap_append, List.mem_append]
  refine or_congr_right ?_
  rw [List.mem_filterMap]
  constructor
  · rintro ⟨c', hc', hkey⟩
    rwa [List.mem_singleton.mp hc'] at hkey
  · exact fun hkey ↦ ⟨c, List.mem_singleton_self c, hkey⟩

theorem CosignPass.Kept.step {cos : List Json} {s : CosignPass} (h : s.Kept C R K cos)
    (c : Json) (i : Nat) : (cosignStep C R K s (c, i)).Kept C R K (cos ++ [c]) := by
  unfold cosignStep
  cases hjudge : judgeCosign C R K s c with
  | error why =>
    refine ⟨h.counts, h.nodup, h.few, fun key hkey ↦ ?_, fun hroom key hkey ↦ ?_⟩
    · exact mem_filterMap_concat.mpr (.inl (h.sound key hkey))
    · rcases mem_filterMap_concat.mp hkey with hkey | hkey
      · exact h.complete hroom key hkey
      · exact (seen_of_judgeCosign_eq_error hjudge hkey).resolve_right (not_le.mpr hroom)
  | ok x =>
    obtain ⟨e, seq, key₀⟩ := x
    obtain ⟨hread, hcounts, hnew, hroom⟩ := judgeCosign_eq_ok hjudge
    have hgood : K.goodKey C R c = some key₀ := goodKey_eq_some.mpr ⟨e, hread, hcounts⟩
    refine ⟨?_, ?_, ?_, fun key hkey ↦ ?_, fun _ key hkey ↦ ?_⟩
    · exact List.rel_append h.counts (.cons hcounts .nil)
    · exact List.nodup_append.mpr ⟨h.nodup, List.nodup_singleton _, by
        rintro key hkey _ hlast rfl
        rw [List.mem_singleton.mp hlast] at hkey
        exact hnew hkey⟩
    · rw [List.length_append]
      exact hroom
    · rcases List.mem_append.mp hkey with hkey | hkey
      · exact mem_filterMap_concat.mpr (.inl (h.sound key hkey))
      · rw [List.mem_singleton.mp hkey]
        exact mem_filterMap_concat.mpr (.inr hgood)
    · rcases mem_filterMap_concat.mp hkey with hkey | hkey
      · exact List.mem_append_left _ (h.complete hroom key hkey)
      · rw [hgood] at hkey
        obtain rfl := Option.some.inj hkey
        exact List.mem_append_right _ (List.mem_singleton_self _)

theorem kept_filterCosigns (cos : List Json) : (filterCosigns C R K cos).Kept C R K cos := by
  unfold filterCosigns
  induction cos using List.reverseRecOn with
  | nil => exact ⟨.nil, .nil, Nat.zero_le _, nofun, fun _ ↦ nofun⟩
  | append_singleton cos c ih =>
    rw [List.zipIdx_append, List.foldl_append]
    exact ih.step c _

/-! ## The count -/

variable (C R K) in
/-- The different keys that have a co-signature in the list that counts. -/
def CancelCheck.goodKeys (cos : List Json) : Finset (Arr 33) :=
  (cos.filterMap (K.goodKey C R)).toFinset

/-- The carrier takes as many as there are good keys, up to its size. -/
theorem length_entries_eq (cos : List Json) : (filterCosigns C R K cos).entries.length =
    min (K.goodKeys C R cos).card cancelCosignMax := by
  have h := @kept_filterCosigns C R K cos
  generalize filterCosigns C R K cos = s at h
  have hlen : s.entries.length = s.seen.toFinset.card := by
    rw [List.toFinset_card_of_nodup h.nodup]
    exact h.counts.length_eq
  have hsub : s.seen.toFinset ⊆ K.goodKeys C R cos := by
    intro key hkey
    exact List.mem_toFinset.mpr (h.sound key (List.mem_toFinset.mp hkey))
  have hcard := Finset.card_le_card hsub
  rcases h.few.lt_or_eq with hroom | hfull
  · have hsup : K.goodKeys C R cos ⊆ s.seen.toFinset := by
      intro key hkey
      exact List.mem_toFinset.mpr (h.complete hroom key (List.mem_toFinset.mp hkey))
    have hcard' := Finset.card_le_card hsup
    omega
  · omega

theorem isOk_checkCosigns {required : Int} (hrequired : required ≤ cancelCosignMax)
    (cos : List Json) :
    (checkCosigns C R K required cos).isOk ↔ required ≤ (K.goodKeys C R cos).card := by
  have hlen := @length_entries_eq C R K cos
  unfold checkCosigns
  dsimp only
  split
  · exact ⟨nofun, fun h ↦ by omega⟩
  · exact ⟨fun _ ↦ by omega, fun _ ↦ rfl⟩

/-- The keys that count do not depend on the order of the list. -/
theorem goodKeys_of_perm {cos cos' : List Json} (h : cos'.Perm cos) :
    K.goodKeys C R cos' = K.goodKeys C R cos :=
  List.toFinset_eq_of_perm _ _ (h.filterMap _)

/-- An entry that counts for no key, or for one that another entry counts for, changes nothing. -/
theorem goodKeys_cons {cos : List Json} {c : Json}
    (h : ∀ key, K.goodKey C R c = some key → key ∈ K.goodKeys C R cos) :
    K.goodKeys C R (c :: cos) = K.goodKeys C R cos := by
  unfold CancelCheck.goodKeys at h ⊢
  cases hc : K.goodKey C R c with
  | none => rw [List.filterMap_cons_none hc]
  | some key =>
    rw [List.filterMap_cons_some hc, List.toFinset_cons]
    exact Finset.insert_eq_of_mem (h key hc)

/-- **Co-signatures of a cancel.**  With a requirement of at most seven, the check is passed if and
only if enough different keys have a co-signature in the list that counts; the order of the list, and
entries of it that do not count or repeat a key, do not change the outcome; and what the carrier takes
counts for different keys, is at most seven, and is read back as it was written. -/
theorem cancel_cosigns_iff (C : Crypto) (R : RecoverEcdsa) (K : CancelCheck) {required : Int}
    (hrequired : required ≤ cancelCosignMax) (cos : List Json) :
    ((checkCosigns C R K required cos).isOk ↔ required ≤ (K.goodKeys C R cos).card) ∧
    (∀ cos', cos'.Perm cos →
      (checkCosigns C R K required cos').isOk = (checkCosigns C R K required cos).isOk) ∧
    (∀ c, (∀ key, K.goodKey C R c = some key → key ∈ K.goodKeys C R cos) →
      (checkCosigns C R K required (c :: cos)).isOk = (checkCosigns C R K required cos).isOk) ∧
    ∀ s, checkCosigns C R K required cos = .ok s →
      (∃ keys : List (Arr 33), keys.Nodup ∧ List.Forall₂ (K.Counts C R) s.entries keys) ∧
      s.entries.length ≤ cancelCosignMax ∧ (s.entries ≠ [] → (encodeCosigns s.entries).isSome) ∧
      ∀ blob, encodeCosigns s.entries = some blob → decodeCosigns blob = some s.entries := by
  have hsame : ∀ cos', K.goodKeys C R cos' = K.goodKeys C R cos →
      (checkCosigns C R K required cos').isOk = (checkCosigns C R K required cos).isOk := by
    intro cos' hkeys
    rw [Bool.eq_iff_iff, isOk_checkCosigns hrequired, isOk_checkCosigns hrequired, hkeys]
  refine ⟨isOk_checkCosigns hrequired cos, fun cos' hperm ↦ hsame _ (goodKeys_of_perm hperm),
    fun c hc ↦ hsame _ (goodKeys_cons hc), fun s hs ↦ ?_⟩
  obtain rfl := Except.ok.inj (Result.guard_eq_ok.mp hs).2
  have hkept := @kept_filterCosigns C R K cos
  exact ⟨⟨_, hkept.nodup, hkept.counts⟩, hkept.few,
    fun hne ↦ encodeCosigns_isSome hne hkept.few, fun _ ↦ decodeCosigns_encodeCosigns⟩

end Pass

/-! ### Two members -/

/-- The key of a member. -/
def memberKey (b : UInt8) : Arr 33 := List.Vector.replicate 33 b

/-- A curve on which a signature recovers to the key of its bytes. -/
def memberCurve : RecoverEcdsa := fun _ sig _ ↦ some (memberKey (sig.headD 0))

/-- A co-signature that states a price in micro-USD. -/
def memberCosign (b : UInt8) (price : UInt32) : CosignEntry :=
  ⟨price, 31 ::ᵥ List.Vector.replicate 64 b⟩

/-- A claim of a vault of 100 YEC with a debt of a dollar. -/
def memberCheck : CancelCheck :=
  ⟨List.Vector.replicate 32 1, ⟨List.Vector.replicate 32 3, 0⟩, 10, List.Vector.replicate 32 4,
    [⟨1, memberKey 2, "ACTIVE", 0, false, false⟩, ⟨2, memberKey 3, "ACTIVE", 0, false, false⟩,
      ⟨3, memberKey 4, "EJECTED", 0, false, false⟩], 0, 20, 10000000000, 100, 12500⟩

/-- A list with a text that is no co-signature, a member twice, one that was ejected, a member at a
price at which the vault was claimable, and the same member at another price. -/
def memberList : List Json :=
  [.str "00", .str (Hex.encode (memberCosign 2 50000).bytes),
    .str (Hex.encode (memberCosign 2 60000).bytes), .str (Hex.encode (memberCosign 4 50000).bytes),
    .str (Hex.encode (memberCosign 3 10000).bytes), .str (Hex.encode (memberCosign 3 50000).bytes)]

theorem readCosign_bytes (e : CosignEntry) : readCosign (.str (Hex.encode e.bytes)) = some e := by
  simp [readCosign, Json.str?]

/-- Two of the entries count for the first member and one for the second. -/
theorem memberList_goodKeys : memberList.filterMap (memberCheck.goodKey .blank memberCurve) =
    [memberKey 2, memberKey 2, memberKey 3] := by
  have hread : memberCheck.goodKey .blank memberCurve (.str "00") = none := by
    rw [CancelCheck.goodKey, show readCosign (.str "00") = none by decide]
    rfl
  have hsome (b : UInt8) (price : UInt32) (h : memberCheck.Counts .blank memberCurve
      (memberCosign b price) (memberKey b)) : memberCheck.goodKey .blank memberCurve
        (.str (Hex.encode (memberCosign b price).bytes)) = some (memberKey b) :=
    goodKey_eq_some.mpr ⟨_, readCosign_bytes _, h⟩
  have hnone (b : UInt8) (price : UInt32) (h : ∀ key, ¬ memberCheck.Counts .blank memberCurve
      (memberCosign b price) key) : memberCheck.goodKey .blank memberCurve
        (.str (Hex.encode (memberCosign b price).bytes)) = none := by
    rw [Option.eq_none_iff_forall_ne_some]
    intro key hkey
    obtain ⟨e, he, hcounts⟩ := goodKey_eq_some.mp hkey
    obtain rfl := Option.some.inj ((readCosign_bytes _).symm.trans he)
    exact h key hcounts
  have hejected : ∀ key, ¬ memberCheck.Counts .blank memberCurve (memberCosign 4 50000) key := by
    rintro key ⟨hsigns, hmember, -, -⟩
    obtain rfl : memberKey 4 = key := Option.some.inj hsigns
    exact absurd hmember (by decide)
  have hclaimable : ∀ key, ¬ memberCheck.Counts .blank memberCurve (memberCosign 3 10000) key :=
    fun key h ↦ absurd h.notClaimable (by decide)
  rw [memberList, List.filterMap_cons_none hread,
    List.filterMap_cons_some (hsome 2 50000 ⟨rfl, by decide, by decide, by decide⟩),
    List.filterMap_cons_some (hsome 2 60000 ⟨rfl, by decide, by decide, by decide⟩),
    List.filterMap_cons_none (hnone 4 50000 hejected),
    List.filterMap_cons_none (hnone 3 10000 hclaimable),
    List.filterMap_cons_some (hsome 3 50000 ⟨rfl, by decide, by decide, by decide⟩),
    List.filterMap_nil]

/-- Two keys count, so two co-signatures may be required and three may not. -/
theorem cancel_cosigns_two :
    (checkCosigns .blank memberCurve memberCheck 2 memberList).isOk = true ∧
      (checkCosigns .blank memberCurve memberCheck 3 memberList).isOk = false := by
  have hcard : (memberCheck.goodKeys .blank memberCurve memberList).card = 2 := by
    rw [CancelCheck.goodKeys, memberList_goodKeys]
    decide
  refine ⟨(cancel_cosigns_iff .blank memberCurve memberCheck (by decide) _).1.mpr ?_, ?_⟩
  · rw [hcard]
    decide
  · rw [Bool.eq_false_iff]
    intro hok
    have hle := (cancel_cosigns_iff .blank memberCurve memberCheck (by decide) _).1.mp hok
    rw [hcard] at hle
    exact absurd hle (by decide)

end Yew.Daemon
