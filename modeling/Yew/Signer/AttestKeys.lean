import Yew.Signer.AttestRuns

/-!
# Whose signature an attestation carries

A record of the log is genuine when its signature verifies under its key, over the message its other
fields spell.  Every record that is written is, so an attestation taken from the log verifies under
the key of its record.  The record is found by its sequence number alone, so this is the key of the
request only where no other key has a record there.

The handler is in `yewd/signer/src/sign.rs`, the guard in `attest.rs`.  A fact is a price that was
signed; two facts of one key, height and block agree.
-/

namespace Yew.Signer

open Tx Keys Proto Proto.Attest Proc Text

section

variable (C : Crypto)

/-! ## Genuine records -/

/-- The signature of a record verifies under its key over its message. -/
def Attested.Genuine (x : Attested) : Prop :=
  ∃ pk block sig, x.pubkey = Hex.encode pk.toList ∧ txidFromHex x.blockHash = .ok block ∧
    x.sig = Hex.encode sig.toList ∧ C.verifyCompactSig pk
      (attestMessage C x.seq x.priceMicroUsd x.citedHeight block) sig = true

/-- Only genuine records come into the log. -/
def GenuineMoves (s s' : St) : Prop := ∀ x ∈ s'.core.guard, x ∈ s.core.guard ∨ x.Genuine C

instance : Proc.Path (GenuineMoves C) where
  refl _ _ hx := .inl hx
  trans hab hbc x hx := (hbc x hx).elim (hab x) .inr

variable {C} in
theorem GuardSame.genuine {s s' : St} (h : GuardSame s s') : GenuineMoves C s s' := by
  intro x hx
  rw [h.core] at hx
  exact .inl hx

instance : Tame (GenuineMoves C) where
  free h := (Tame.free (R := GuardSame) h).genuine
  keyImported hash members s := (Tame.keyImported (R := GuardSame) hash members s).genuine
  joinsSeen hashes s := (Tame.joinsSeen (R := GuardSame) hashes s).genuine

theorem genuineMoves_recordGuard {x : Attested} (hx : x.Genuine C) :
    Moves (GenuineMoves C) (recordGuard x) := by
  intro s y hy
  obtain ⟨w, ws, -, -, hs, -⟩ := recordGuard_cases x s
  rw [hs, appended] at hy
  dsimp only at hy
  rw [Guard.recorded] at hy
  split at hy
  · rcases List.mem_append.mp hy with hy | hy
    · exact .inl hy
    · rw [List.mem_singleton.mp hy]
      exact .inr hx
  · exact .inl hy

theorem genuineMoves_guardedAttestation (sk : SecretKey) (pk : Arr 33) (seq : UInt16)
    (price height : UInt32) (hash : String) :
    Moves (GenuineMoves C) (guardedAttestation C sk pk seq price height hash) := by
  unfold guardedAttestation orHalt
  dsimp only
  refine Moves.lift_bind fun block hblock ↦ ?_
  have hblock' : txidFromHex (toAsciiLowercase hash) = .ok block := by
    split at hblock
    · rename_i hx
      cases hblock
      exact hx
    · cases hblock
    · cases hblock
  refine Moves.bind (fun s ↦ Proc.Path.refl s) fun c ↦ ?_
  split
  · exact fun s ↦ Proc.Path.refl s
  · split
    · exact .ite (fun s ↦ Proc.Path.refl s) (.bind (fun s ↦ Proc.Path.refl s) fun _ ↦ .pure _)
    · rw [freshAttestation]
      split
      · exact fun s ↦ Proc.Path.refl s
      · rename_i hverify
        have hgenuine : Attested.Genuine C ⟨seq, Hex.encode pk.toList, height,
            toAsciiLowercase hash, price,
            Hex.encode (C.ecdsaSign (attestMessage C seq price height block) sk).toList⟩ :=
          ⟨pk, block, _, rfl, hblock', rfl, by simpa using hverify⟩
        exact .bind (genuineMoves_recordGuard C hgenuine) fun _ ↦
          .bind (fun s ↦ Proc.Path.refl s) fun _ ↦ .pure _

variable (L : Sapling.Lib)

/-- Every request writes only genuine records. -/
theorem genuineMoves_handle (version : UInt32) (r : Request) :
    Moves (GenuineMoves C) (handle C L version r) :=
  moves_handle C L version r
    (fun x _ s ↦ (guardSame_signSet C x s).genuine)
    (fun x _ ↦ ends_signAttestation C (R := fun _ ↦ GenuineMoves C)
      (genuineMoves_guardedAttestation C) x)
    (fun x _ ↦ ends_cancelCosign C (R := fun _ ↦ GenuineMoves C)
      (genuineMoves_guardedAttestation C) x)
    (fun _ s ↦ (guardSame_change _ s).genuine) fun _ rs s ↦ (guardSame_importOnce rs s).genuine

/-! ## The attestation of an answer -/

/-- The signature in an attestation verifies under the key the request names, over the request's
message. -/
def attestationVerifies (r : AttestRequest) (a : AttestSigned) : Bool :=
  match (Hex.decode (toAsciiLowercase r.pubkey)).bind (Bytes.toArr? 33),
    txidFromHex r.blockHash, (Hex.decode a.hex).bind fun b ↦ Bytes.toArr? 64 (b.drop 10) with
  | some pk, .ok block, some sig =>
    C.verifyCompactSig pk (attestMessage C r.seq r.priceMicroUsd r.citedHeight block) sig
  | _, _, _ => false

/-- An attestation that was returned verifies. -/
def SignedByKey : Event × Answer → Prop
  | (.request _ _ _ (.signAttestation r), .response (.attestation a)) =>
    attestationVerifies C r a = true
  | _ => True

/-- A record with a request's sequence number, height and block is of the request's key, and no
append is torn. -/
def OwnRecord (w : World) : Event → Prop
  | .request _ writes _ (.signAttestation r) =>
    (∀ x ∈ writes, x.Whole) ∧ ∀ c x, w.core = some c → Guard.bySeq c.guard r.seq r.citedHeight
      (toAsciiLowercase r.blockHash) = some x → x.pubkey = toAsciiLowercase r.pubkey
  | .request _ writes _ (.cancelCosign _) => ∀ x ∈ writes, x.Whole
  | _ => True

theorem OwnRecord.untorn {w : World} {e : Event} (h : OwnRecord w e) : e.Untorn := by
  cases e with
  | request env writes version r =>
    cases r with
    | signAttestation r => exact h.1
    | cancelCosign r => exact h
    | _ => trivial
  | restart => trivial

theorem drop_encodeAttestation (seq : UInt16) (price height : UInt32) (sig : Arr 64) :
    (encodeAttestation seq price height sig).drop 10 = sig.toList := by
  have hlen : (Bytes.leOfNat 2 seq.toNat ++ Bytes.leOfNat 4 price.toNat ++
      Bytes.leOfNat 4 height.toNat).length = 10 := by
    simp
  rw [encodeAttestation, List.drop_left' hlen]

theorem attestationVerifies_eq {r : AttestRequest} {pk : Arr 33} {block : Arr 32}
    (hpk : toAsciiLowercase r.pubkey = Hex.encode pk.toList)
    (hblock : txidFromHex r.blockHash = .ok block) (seq : UInt16) (price height : UInt32)
    (sig : Arr 64) (reused : Bool) :
    attestationVerifies C r ⟨Hex.encode (encodeAttestation seq price height sig), reused⟩ =
      C.verifyCompactSig pk (attestMessage C r.seq r.priceMicroUsd r.citedHeight block) sig := by
  rw [attestationVerifies, hpk, Hex.decode_encode, Option.bind_some, Bytes.toArr?_toList, hblock,
    Hex.decode_encode, Option.bind_some, drop_encodeAttestation, Bytes.toArr?_toList]

/-- What a guarded attestation returns verifies, where the record it found is of its key. -/
theorem guardedAttestation_verifies {sk : SecretKey} {pk : Arr 33} {seq : UInt16}
    {price height : UInt32} {hash : String} {sig : Arr 64} {reused : Bool} {s s' : St}
    (h : guardedAttestation C sk pk seq price height hash s = (.ok (sig, reused), s'))
    (hlog : ∀ x ∈ s.core.guard, x.Genuine C)
    (hown : ∀ x, Guard.bySeq s.core.guard seq height (toAsciiLowercase hash) = some x →
      x.pubkey = Hex.encode pk.toList) :
    ∃ block, txidFromHex hash = .ok block ∧
      C.verifyCompactSig pk (attestMessage C seq price height block) sig = true := by
  -- either way a genuine record has this key, this message and this signature
  have hrecord : ∃ x : Attested, x.Genuine C ∧ x.pubkey = Hex.encode pk.toList ∧ x.seq = seq ∧
      x.priceMicroUsd = price ∧ x.citedHeight = height ∧ x.blockHash = toAsciiLowercase hash ∧
      (Hex.decode x.sig).bind (Bytes.toArr? 64) = some sig := by
    rcases guardedAttestation_eq_ok C h with ⟨-, -, x, hx, hprice, hsig⟩ | ⟨-, -, hx⟩
    · have hfound := List.find?_some hx
      simp only [decide_eq_true_eq] at hfound
      exact ⟨x, hlog x (List.mem_of_find?_eq_some hx), hown x hx, hfound.1, hprice, hfound.2.1,
        hfound.2.2, hsig⟩
    · have hmoved := moved (genuineMoves_guardedAttestation C sk pk seq price height hash) h
      refine ⟨_, (hmoved _ (mem_of_eq_concat hx)).elim (hlog _) id, rfl, rfl, rfl, rfl, rfl, ?_⟩
      rw [Hex.decode_encode, Option.bind_some, Bytes.toArr?_toList]
  obtain ⟨x, ⟨pk', block, sig', hpk, hblock, hsig, hverify⟩, hkey, rfl, rfl, rfl, hhash, hdecode⟩ :=
    hrecord
  rw [hsig, Hex.decode_encode, Option.bind_some, Bytes.toArr?_toList] at hdecode
  obtain rfl := Option.some.inj hdecode
  have hpk' : pk' = pk := List.Vector.eq _ _ (Hex.encode_injective (hpk.symm.trans hkey))
  rw [hpk'] at hverify
  rw [hhash, txidFromHex_toAsciiLowercase] at hblock
  exact ⟨block, hblock, hverify⟩

theorem signAttestation_verifies {r : AttestRequest} {a : AttestSigned} {s s' : St}
    (h : signAttestation C r s = (.ok a, s')) (hlog : ∀ x ∈ s.core.guard, x.Genuine C)
    (hown : ∀ x, Guard.bySeq s.core.guard r.seq r.citedHeight (toAsciiLowercase r.blockHash) =
      some x → x.pubkey = toAsciiLowercase r.pubkey) : attestationVerifies C r a = true := by
  unfold signAttestation at h
  split at h
  · simp at h
  · obtain ⟨⟨sk, pk⟩, hkey, h⟩ := (quiet_roleKey C _ _ _).bind_eq_ok h
    obtain ⟨⟨sig, reused⟩, t, hguarded, h⟩ := Proc.bind_eq_ok.mp h
    cases h
    have hpk := (roleKey_eq_ok C hkey).1
    dsimp only at hpk
    rw [← hpk] at hown
    obtain ⟨block, hblock, hverify⟩ := guardedAttestation_verifies C hguarded hlog hown
    rw [attestationVerifies_eq C hpk.symm hblock]
    exact hverify

/-! ## Runs -/

/-- The log is read back as it was written, and its records are genuine. -/
def World.GenuineLog (w : World) : Prop := w.Logged ∧ ∀ x ∈ w.disk.log, x.Genuine C

variable (network : Network)

theorem World.genuineLog_step {w : World} (hw : w.GenuineLog C) {e : Event} (he : e.Untorn) :
    (w.step C L network e).2.GenuineLog C := by
  obtain ⟨hlogged, hgenuine⟩ := hw
  have hlogged' := (World.logged_step C L network hlogged he).1
  refine ⟨hlogged', ?_⟩
  cases e with
  | request env writes version r =>
    cases hc : w.core with
    | none =>
      have hstep : (w.step C L network (.request env writes version r)).2 = w := by
        simp [World.step, hc]
      rw [hstep]
      exact hgenuine
    | some c =>
      have hlog : Signer.Logged (startSt c w.disk env writes) := by
        rw [Signer.Logged, startSt, hlogged.core c hc]
        exact hlogged.lines
      have hd := Disk.log_eq (logged_handle C L he hlog)
      simp only [World.step, hc, hd]
      intro x hx
      refine (genuineMoves_handle C L version r _ x hx).elim (fun hold ↦ hgenuine x ?_) id
      exact hlogged.core c hc ▸ hold
  | restart w₁ w₂ =>
    have hguard := (openSigner_log C network w₁ w₂ hlogged.lines).1
    have hd : (openSigner C network w₁ w₂ w.disk).2.log = w.disk.log := by
      rw [Disk.log, hguard, Disk.log]
    simp only [World.step, hd]
    exact hgenuine

/-- The answer to a request verifies. -/
theorem signedByKey_step {w : World} (hw : w.GenuineLog C) {e : Event} (he : OwnRecord w e) :
    SignedByKey C (e, (w.step C L network e).1) := by
  obtain ⟨hlogged, hgenuine⟩ := hw
  unfold SignedByKey
  split
  · rename_i env writes version r a heq
    obtain ⟨rfl, hans⟩ := Prod.mk.inj heq
    obtain ⟨c, s', hc, hok, -⟩ := World.step_eq_response C L (by simp) hans
    obtain ⟨out, t, hout, hret⟩ := Proc.bind_eq_ok.mp hok
    cases hret
    refine signAttestation_verifies C hout (fun x hx ↦ hgenuine x ?_) fun x hx ↦ he.2 c x hc hx
    exact hlogged.core c hc ▸ hx
  · trivial

/-- In a run without torn appends in which no attestation meets another key's record of its
sequence number, height and block, every attestation that is returned verifies under the key of its
request. -/
theorem attestations_verify {seed : SeedFile} {h : List (Event × Answer)} {w : World}
    (t : Trace (World.step C L network) OwnRecord (World.start seed) h w) :
    ∀ x ∈ h, SignedByKey C x := by
  refine ((@Trace.invariant _ _ _ _ _ _ _ _
    (fun h w ↦ w.GenuineLog C ∧ ∀ x ∈ h, SignedByKey C x) t) ⟨?_, by simp⟩ ?_).2
  · refine ⟨⟨rfl, fun c hc ↦ nomatch hc⟩, fun x hx ↦ ?_⟩
    cases hx
  · rintro h w e ⟨hw, hall⟩ he
    refine ⟨World.genuineLog_step C L network hw he.untorn, ?_⟩
    exact List.forall_mem_cons.mpr ⟨signedByKey_step C L network hw he, hall⟩

end

/-! ### Two keys under one sequence number -/

/-- Cryptography in which a public key is its secret, and a signature names the secret it is made
with. -/
def plainCrypto : Crypto :=
  { Crypto.blank with
    publicKey := fun k ↦ 2 ::ᵥ k.bytes
    ecdsaSign := fun _ k ↦ ⟨k.bytes.toList ++ List.replicate 32 0, by simp⟩
    verifyCompactSig := fun pk _ sig ↦ sig.toList.take 32 = pk.toList.drop 1
    hmacSha512 := fun _ data ↦ List.Vector.replicate 64 (1 + data.getLastD 0) }

/-- The public key at an index. -/
def plainPub (i : UInt32) : Arr 33 := 2 ::ᵥ List.Vector.replicate 32 (0x8d + i.toUInt8)

/-- The request of a key to attest a price of 100 under sequence number 1. -/
def plainAttest (i : UInt32) : AttestRequest :=
  { sampleAttest 1 100 (txidHex sampleSet) with
    key := .bip32 0 i
    pubkey := Hex.encode (plainPub i).toList }

@[inherit_doc plainAttest]
def plainEvent (i : UInt32) : Event :=
  .request sampleEnv [] protoVersion (.signAttestation (plainAttest i))

/-- The signature of the first key. -/
def plainSig : Arr 64 := ⟨List.replicate 32 0x8d ++ List.replicate 32 0, rfl⟩

/-- The record of its attestation. -/
def plainRecord : Attested :=
  ⟨1, Hex.encode (plainPub 0).toList, 10, toAsciiLowercase (txidHex sampleSet), 100,
    Hex.encode plainSig.toList⟩

/-- The keys of the empty phrase. -/
def plainKeys : Option (Keyring × String) := (deriveKeys plainCrypto "").toOption

/-- The signer behind a start. -/
def plainBase : Core :=
  { sampleCore with
    seedFp := (plainKeys.map Prod.snd).getD ""
    keys := plainKeys.map Prod.fst }

/-- The same with these records. -/
def plainCore (rs : List Attested) : Core := { plainBase with guard := rs }

theorem plainOpened : openSigner plainCrypto .regtest .done .done (World.start sampleSeed).disk =
    (.ok (plainCore []), sampleDisk) := by
  decide +kernel

theorem plainPub_lower {i : UInt32} (hi : i = 0 ∨ i = 1) :
    toAsciiLowercase (Hex.encode (plainPub i).toList) = Hex.encode (plainPub i).toList := by
  rcases hi with rfl | rfl
  · decide +kernel
  · decide +kernel

theorem plainRole {i : UInt32} (hi : i = 0 ∨ i = 1) (rs : List Attested) (d : Disk) :
    ∃ sk, roleKey plainCrypto (.bip32 0 i) (Hex.encode (plainPub i).toList) "an attestation"
        (startSt (plainCore rs) d sampleEnv []) =
      (.ok (sk, plainPub i), startSt (plainCore rs) d sampleEnv []) ∧
      plainCrypto.publicKey sk = plainPub i := by
  have hderive : (plainKeys.bind fun k ↦ (k.1.account.derive plainCrypto [0, i]).toOption.map
      fun x ↦ plainCrypto.publicKey x.key) = some (plainPub i) := by
    rcases hi with rfl | rfl
    · decide +kernel
    · decide +kernel
  obtain ⟨k, hk, hx⟩ := Option.bind_eq_some_iff.mp hderive
  obtain ⟨x, hx, hpub⟩ := Option.map_eq_some_iff.mp hx
  have hx' : k.1.account.derive plainCrypto [0, i] = .ok x := by
    cases hd : k.1.account.derive plainCrypto [0, i] with
    | error e =>
      rw [hd] at hx
      cases hx
    | ok y =>
      rw [hd] at hx
      exact congrArg Except.ok (Option.some.inj hx)
  have hrange : ¬((0 : UInt32) > 1 ∨ i ≥ hardened) := by
    rcases hi with rfl | rfl
    · decide
    · decide
  have hkeys : keys (startSt (plainCore rs) d sampleEnv []) = (.ok k.1, _) :=
    keys_of_clear rfl (show plainKeys.map Prod.fst = some k.1 by rw [hk]; rfl)
  have hrole := @roleKey_of_account plainCrypto _ _ _ _ _ "an attestation" _ hkeys (by decide) hrange
    hx' ((congrArg (fun p : Arr 33 ↦ Hex.encode p.toList) hpub).trans (plainPub_lower hi).symm)
  rw [hpub] at hrole
  exact ⟨x.key, hrole, hpub⟩

/-- The first key is given a new attestation. -/
theorem plain_first : ∃ a d, World.step plainCrypto .blank .regtest
    ⟨some (plainCore []), sampleDisk⟩ (plainEvent 0) = (a, ⟨some (plainCore [plainRecord]), d⟩) := by
  obtain ⟨sk, hrole, hpub⟩ := plainRole (.inl rfl) [] sampleDisk
  have hbytes : sk.bytes = List.Vector.replicate 32 0x8d := congrArg List.Vector.tail hpub
  have hsig (msg : Arr 32) : plainCrypto.ecdsaSign msg sk = plainSig := by
    refine Subtype.ext ?_
    show sk.bytes.toList ++ List.replicate 32 0 = _
    rw [hbytes]
    rfl
  have hverify (msg : Arr 32) :
      plainCrypto.verifyCompactSig (plainPub 0) msg (plainCrypto.ecdsaSign msg sk) = true := by
    rw [hsig]
    show decide (plainSig.toList.take 32 = (plainPub 0).toList.drop 1) = true
    decide
  have hguarded := @guardedAttestation_of_fresh plainCrypto sk (plainPub 0) 1 100 10 _ _
    (startSt (plainCore []) sampleDisk sampleEnv []) sampleSet_lower (fun r hr ↦ by cases hr) rfl
    hverify rfl
  rw [hsig] at hguarded
  have hsign := signAttestation_of_guarded plainCrypto (r := plainAttest 0) (by decide) hrole hguarded
  have hans := answer_signAttestation plainCrypto .blank hsign
  exact ⟨_, _, World.step_of_answer plainCrypto .blank hans⟩

/-- Afterwards both keys are given the first one's signature. -/
theorem plain_second {i : UInt32} (hi : i = 0 ∨ i = 1) (d : Disk) :
    (World.step plainCrypto .blank .regtest ⟨some (plainCore [plainRecord]), d⟩ (plainEvent i)).1 =
      .response (.attestation ⟨Hex.encode (encodeAttestation 1 100 10 plainSig), true⟩) := by
  obtain ⟨sk, hrole, -⟩ := plainRole hi [plainRecord] d
  have hseq : Guard.bySeq [plainRecord] 1 10 (toAsciiLowercase (txidHex sampleSet)) =
      some plainRecord := by
    simp [Guard.bySeq, plainRecord]
  have hguarded := @guardedAttestation_of_record plainCrypto sk (plainPub i) 1 100 10 _ _ _ _
    (startSt (plainCore [plainRecord]) d sampleEnv []) sampleSet_lower
    (fun r hr ↦ by rw [List.mem_singleton.mp (List.mem_of_mem_filter hr)]; rfl) hseq rfl rfl
  have hprice : ¬ (plainAttest i).priceMicroUsd.toNat < priceMin := by
    show ¬ (100 : UInt32).toNat < priceMin
    decide
  have hsign := signAttestation_of_guarded plainCrypto (r := plainAttest i) hprice hrole hguarded
  have hans := answer_signAttestation plainCrypto .blank hsign
  rw [plainEvent, World.step_of_answer plainCrypto .blank hans]
  rfl

theorem plainStart : World.step plainCrypto .blank .regtest (World.start sampleSeed)
    (.restart .done .done) = (.started (.ok ()), ⟨some (plainCore []), sampleDisk⟩) := by
  rw [World.step, plainOpened]
  rfl

/-- The first key asks twice, and its signature verifies both times. -/
theorem attestations_verify_twice : ∃ h w, Trace (World.step plainCrypto .blank .regtest) OwnRecord
      (World.start sampleSeed) h w ∧
    h.map Prod.fst = [plainEvent 0, plainEvent 0, .restart .done .done] ∧
    ∀ x ∈ h, SignedByKey plainCrypto x := by
  obtain ⟨a, d, hfirst⟩ := plain_first
  have hrun := @Trace.start _ _ _ (World.step plainCrypto .blank .regtest) OwnRecord
    (World.start sampleSeed)
  have hrun := hrun.step (Event.restart .done .done) trivial
  rw [plainStart] at hrun
  dsimp only at hrun
  have hown : OwnRecord ⟨some (plainCore []), sampleDisk⟩ (plainEvent 0) := by
    refine ⟨(fun _ h ↦ nomatch h), fun c x hc hx ↦ ?_⟩
    cases hc
    cases hx
  have hrun := hrun.step (plainEvent 0) hown
  rw [hfirst] at hrun
  dsimp only at hrun
  have hown : OwnRecord ⟨some (plainCore [plainRecord]), d⟩ (plainEvent 0) := by
    refine ⟨(fun _ h ↦ nomatch h), fun c x hc hx ↦ ?_⟩
    cases hc
    rw [List.mem_singleton.mp (List.mem_of_find?_eq_some hx)]
    exact (plainPub_lower (.inl rfl)).symm
  have hrun := hrun.step (plainEvent 0) hown
  exact ⟨_, _, hrun, rfl, attestations_verify plainCrypto .blank .regtest hrun⟩

/-- The second key is given the signature of the first. -/
theorem not_attestations_verify :
    ¬ ∀ h w, Trace (World.step plainCrypto .blank .regtest) (fun _ e ↦ e.Untorn)
      (World.start sampleSeed) h w → ∀ x ∈ h, SignedByKey plainCrypto x := by
  intro hall
  obtain ⟨a, d, hfirst⟩ := plain_first
  have hrun := @Trace.start _ _ _ (World.step plainCrypto .blank .regtest)
    (fun _ e ↦ e.Untorn) (World.start sampleSeed)
  have hrun := hrun.step (Event.restart .done .done) trivial
  rw [plainStart] at hrun
  dsimp only at hrun
  have hrun := hrun.step (plainEvent 0) fun _ h ↦ by cases h
  rw [hfirst] at hrun
  dsimp only at hrun
  have hrun := hrun.step (plainEvent 1) fun _ h ↦ by cases h
  rw [plain_second (.inr rfl)] at hrun
  have hsigned : attestationVerifies plainCrypto (plainAttest 1)
      ⟨Hex.encode (encodeAttestation 1 100 10 plainSig), true⟩ = true :=
    hall _ _ hrun _ List.mem_cons_self
  have hverifies := @attestationVerifies_eq plainCrypto (plainAttest 1) (plainPub 1) sampleSet
    (plainPub_lower (.inr rfl)) sampleSet_lower 1 100 10 plainSig true
  have hother (msg : Arr 32) : plainCrypto.verifyCompactSig (plainPub 1) msg plainSig = false := by
    show decide (plainSig.toList.take 32 = (plainPub 1).toList.drop 1) = false
    decide
  rw [hother, hsigned] at hverifies
  cases hverifies

end Yew.Signer
