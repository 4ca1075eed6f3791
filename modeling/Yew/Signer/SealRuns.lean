import Yew.Signer.KeyRuns

/-!
# Secrets on disk over runs

Three files hold secrets: the seed, the imported transparent keys and the imported post-quantum
seeds.  Once the seed file is sealed the first two stay sealed, whatever comes (`SealGood`).  The
third has no seal at all, so a directory under an encrypted wallet has no secret in clear exactly
while no post-quantum key is in its store.

The seal of `yewd/signer/src/seal.rs` is kept as what it seals and the passphrase it is under; that
a sealed text gives nothing away is not what is proved, only which texts are sealed.

## Source

* `yewd/signer/src/lib.rs`: `init`
-/

namespace Yew.Signer

open Tx Keys Proto Proc

/-- The seed file is sealed. -/
def Disk.SeedSealed (d : Disk) : Prop := ∃ g, d.seed = some g ∧ g.sealed.isSome

/-- Under a sealed seed the phrase and the imported transparent keys are sealed. -/
def Disk.Sealed (d : Disk) : Prop :=
  ∀ g, d.seed = some g → g.sealed.isSome →
    g.mnemonic = "" ∧ ∃ f, d.imported = some f ∧ f.keys = [] ∧ f.sealed.isSome

/-- The signer over such a directory: it is encrypted as the seed file is, and then its store of
imported keys is sealed too. -/
structure SealGood (c : Core) (d : Disk) : Prop where
  disk : d.Sealed
  seed : c.ks.encrypted = true ↔ d.SeedSealed
  imported : c.ks.encrypted = true → c.imported.sealed.isSome

section

variable {s s' : St} {c : Core} {d : Disk}

theorem Disk.Sealed.of_eq {d d' : Disk} (h : d.Sealed) (hseed : d'.seed = d.seed)
    (himported : d'.imported = d.imported) : d'.Sealed := by
  intro g hg
  rw [himported]
  exact h g (hseed ▸ hg)

theorem SealGood.of_eq {c c' : Core} {d d' : Disk} (h : SealGood c d)
    (hks : c'.ks.encrypted = c.ks.encrypted)
    (hstore : c'.imported.sealed.isSome = c.imported.sealed.isSome) (hseed : d'.seed = d.seed)
    (himported : d'.imported = d.imported) : SealGood c' d' where
  disk := h.disk.of_eq hseed himported
  seed := by
    rw [hks, Disk.SeedSealed, hseed]
    exact h.seed
  imported := by
    rw [hks, hstore]
    exact h.imported

theorem SealGood.locked (h : SealGood c d) : SealGood c.locked d := by
  refine h.of_eq (Keystore.encrypted_lock _) ?_ rfl rfl
  rw [Core.locked, Imported.lock]
  split <;> rfl

/-- What a request does to the seals: unless the process ended memory goes with the files. -/
def SealMoves (o : Option Stop) (s s' : St) : Prop :=
  SealGood s.core s.disk → s'.disk.Sealed ∧ (o ≠ some .crash → SealGood s'.core s'.disk)

theorem sealMoves_of_good {o : Option Stop}
    (h : SealGood s.core s.disk → SealGood s'.core s'.disk) : SealMoves o s s' :=
  fun hg ↦ ⟨(h hg).disk, fun _ ↦ h hg⟩

instance : KeyRoute SealMoves where
  refl _ _ := sealMoves_of_good id
  trans hab hbc hg := hbc ((hab hg).2 (by simp))
  same h := sealMoves_of_good fun hg ↦
    hg.of_eq (by rw [h.ks]) (by rw [h.imported]) h.diskSeed h.diskImported
  idle h := by
    refine sealMoves_of_good fun hg ↦ ?_
    rw [h.disk]
    rcases h.core with hc | ⟨-, hc⟩
    · rw [hc]
      exact hg
    · rw [hc]
      exact hg.locked
  caught h hg := ⟨(h hg).1, fun _ ↦ (h hg).2 (by simp)⟩

/-! ## Adding a key -/

/-- A store that is sealed, with its passphrase at hand, writes a sealed file. -/
theorem toFile_sealed {i : Imported} (hs : i.sealed.isSome) (hp : i.pass.isSome) :
    i.toFile.keys = [] ∧ i.toFile.sealed.isSome := by
  obtain ⟨b, hb⟩ := Option.isSome_iff_exists.mp hs
  obtain ⟨p, hp⟩ := Option.isSome_iff_exists.mp hp
  simp [Imported.toFile, hb, hp]

theorem sealEnds_addImported (C : Crypto) (key : SecretKey) :
    Ends SealMoves (addImported C key) := by
  intro s hg
  cases hfind : s.core.imported.keys.findIdx? (· = key) with
  | some n =>
    have h : addImported C key s = (.ok (.ok (n, false)), s) := by
      simp only [addImported, Proc.bind_apply, core, hfind, Proc.pure_apply]
    rw [h]
    exact ⟨hg.disk, fun _ ↦ hg⟩
  | none =>
    by_cases hlocked : s.core.imported.sealed.isSome ∧ s.core.imported.pass.isNone
    · have h : addImported C key s = (.ok (.error "the wallet is locked"), s) := by
        simp only [addImported, Proc.bind_apply, core, hfind, if_pos hlocked, Proc.pure_apply]
      rw [h]
      exact ⟨hg.disk, fun _ ↦ hg⟩
    · -- under a sealed seed the store is sealed and its passphrase at hand
      have hdisk : Disk.Sealed
          { s.disk with imported := some (s.core.imported.push C key).toFile } := by
        intro g hseed hsealed
        have hs := hg.imported (hg.seed.mpr ⟨g, hseed, hsealed⟩)
        have hp : s.core.imported.pass.isSome := by
          rw [← Option.not_isNone, Bool.not_eq_true']
          by_contra hp
          exact hlocked ⟨hs, by simpa using hp⟩
        exact ⟨(hg.disk g hseed hsealed).1, _, rfl,
          toFile_sealed (i := s.core.imported.push C key) hs hp⟩
      have hadd := addImported_of_new (C := C) hfind hlocked
      obtain ⟨ws, -, h | ⟨-, ⟨e, h⟩ | ⟨d, hd, h⟩⟩⟩ := replaceFile_cases
        (fun d ↦ { d with imported := some (s.core.imported.push C key).toFile })
        { s with core := s.core.withImported (s.core.imported.push C key) }
      · rw [h] at hadd
        rw [hadd]
        exact ⟨hdisk, fun _ ↦ ⟨hdisk, hg.seed, hg.imported⟩⟩
      · rw [h] at hadd
        rw [hadd]
        exact ⟨hg.disk, fun _ ↦ ⟨hg.disk, hg.seed, hg.imported⟩⟩
      · rw [h] at hadd
        rw [hadd]
        refine ⟨?_, fun hne ↦ absurd rfl hne⟩
        rcases hd with rfl | rfl
        · exact hdisk
        · exact hg.disk

/-! ## Encrypting -/

/-- The wallet is in clear. -/
def Clear (s : St) : Prop := SealGood s.core s.disk ∧ s.core.ks.encrypted = false

/-- The wallet is in clear and its store of imported keys is sealed, in memory and on disk. -/
def HalfSealed (s : St) : Prop :=
  Clear s ∧ s.core.imported.sealed.isSome ∧
    ∃ f, s.disk.imported = some f ∧ f.keys = [] ∧ f.sealed.isSome

/-- A request that stopped has kept the seals, in memory too unless the process ended. -/
def SealStopped (e : Stop) (s : St) : Prop :=
  s.disk.Sealed ∧ (e ≠ .crash → SealGood s.core s.disk)

theorem Clear.not_seedSealed (h : Clear s) : ¬ s.disk.SeedSealed := by
  intro hs
  have := h.1.seed.mpr hs
  rw [h.2] at this
  cases this

theorem sealed_of_not {d : Disk} (h : ¬ d.SeedSealed) : d.Sealed :=
  fun g hg hs ↦ absurd ⟨g, hg, hs⟩ h

theorem Clear.stopped {e : Stop} (h : Clear s) : SealStopped e s := ⟨h.1.disk, fun _ ↦ h.1⟩

theorem Clear.of_same (h : KeysSame s s') (hc : Clear s) : Clear s' :=
  ⟨hc.1.of_eq (by rw [h.ks]) (by rw [h.imported]) h.diskSeed h.diskImported, by rw [h.ks, hc.2]⟩

theorem HalfSealed.of_same (h : KeysSame s s') (hc : HalfSealed s) : HalfSealed s' :=
  ⟨hc.1.of_same h, by rw [h.imported]; exact hc.2.1, by rw [h.diskImported]; exact hc.2.2⟩

theorem seal_same {α : Type} {x : M α} {P : St → Prop} (h : Moves KeysSame x)
    (hP : ∀ s s', KeysSame s s' → P s → P s') (hclear : ∀ s, P s → Clear s) :
    Triple P x (fun _ ↦ P) SealStopped :=
  Triple.of_ends (R := fun _ ↦ KeysSame) h (fun s s' hs hR ↦ hP s s' hR hs)
    fun _ s s' hs hR ↦ (hclear s' (hP s s' hR hs)).stopped

theorem seal_encryptImported (pass : String) :
    Triple Clear (encryptImported pass) (fun x s ↦ Clear s ∧ (x = .ok () → HalfSealed s))
      SealStopped := by
  refine Triple.bind (M := fun _ s ↦ Clear s ∧ s.core.imported.sealed.isSome ∧
    s.core.imported.pass.isSome) (Triple.modify fun s hs ↦ ?_) fun _ ↦ ?_
  · refine ⟨⟨⟨hs.1.disk, hs.1.seed, fun _ ↦ rfl⟩, hs.2⟩, rfl, rfl⟩
  rintro s ⟨hs, hsealed, hpass⟩
  have hfile := toFile_sealed hsealed hpass
  have hclear : ∀ d ws, d.seed = s.disk.seed → Clear { s with disk := d, writes := ws } := by
    intro d ws hd
    have hseed : d.SeedSealed ↔ s.disk.SeedSealed := by
      rw [Disk.SeedSealed, hd]
      exact Iff.rfl
    exact ⟨⟨sealed_of_not (hseed.not.mpr hs.not_seedSealed), hs.1.seed.trans hseed.symm,
      hs.1.imported⟩, hs.2⟩
  have hrun : saveImported s =
      replaceFile (fun d ↦ { d with imported := some s.core.imported.toFile }) s := rfl
  rw [hrun]
  obtain ⟨ws, -, h | ⟨-, ⟨e, h⟩ | ⟨d, hd, h⟩⟩⟩ := replaceFile_cases
    (fun d ↦ { d with imported := some s.core.imported.toFile }) s
  · rw [h]
    refine ⟨?_, by simp⟩
    rintro _ _ ⟨⟩
    have hc := hclear { s.disk with imported := some s.core.imported.toFile } ws rfl
    exact ⟨hc, fun _ ↦ ⟨hc, hsealed, _, rfl, hfile⟩⟩
  · rw [h]
    refine ⟨?_, by simp⟩
    rintro _ _ ⟨⟩
    exact ⟨hclear s.disk ws rfl, by simp⟩
  · rw [h]
    refine ⟨by simp, ?_⟩
    rintro _ _ ⟨⟩
    refine (hclear d ws ?_).stopped
    rcases hd with rfl | rfl <;> rfl

/-- The seed file is sealed and the signer does not know yet. -/
def SeedWritten (s : St) : Prop :=
  s.disk.Sealed ∧ s.disk.SeedSealed ∧ s.core.imported.sealed.isSome

/-- A sealed seed file finds the imported keys sealed. -/
theorem seal_seed {g : SeedFile} (hphrase : g.mnemonic = "") (hsealed : g.sealed.isSome) :
    Triple HalfSealed (replaceFile fun d ↦ { d with seed := some g })
      (fun x s ↦ (x = .ok () → SeedWritten s) ∧ (x ≠ .ok () → HalfSealed s)) SealStopped := by
  intro s hs
  have hdisk : Disk.Sealed { s.disk with seed := some g } := by
    rintro _ ⟨⟩ -
    exact ⟨hphrase, hs.2.2⟩
  obtain ⟨ws, -, h | ⟨-, ⟨e, h⟩ | ⟨d, hd, h⟩⟩⟩ := replaceFile_cases
    (fun d ↦ { d with seed := some g }) s
  · rw [h]
    refine ⟨?_, by simp⟩
    rintro _ _ ⟨⟩
    exact ⟨fun _ ↦ ⟨hdisk, ⟨g, rfl, hsealed⟩, hs.2.1⟩, fun hne ↦ absurd rfl hne⟩
  · rw [h]
    refine ⟨?_, by simp⟩
    rintro _ _ ⟨⟩
    exact ⟨by simp, fun _ ↦ hs⟩
  · rw [h]
    refine ⟨by simp, ?_⟩
    rintro _ _ ⟨⟩
    refine ⟨?_, fun hne ↦ absurd rfl hne⟩
    rcases hd with rfl | rfl
    · exact hdisk
    · exact hs.1.1.disk

theorem seal_encryptKs (pass : String) (cache : PublicBundle) :
    Triple HalfSealed (encryptKs pass cache) (fun _ s ↦ SealGood s.core s.disk) SealStopped := by
  have hsame : ∀ {α : Type} {x : M α}, Moves KeysSame x →
      Triple HalfSealed x (fun _ ↦ HalfSealed) SealStopped :=
    fun h ↦ seal_same h (fun _ _ ↦ HalfSealed.of_same) fun _ hs ↦ hs.1
  refine Triple.bind (hsame keysSame_core) fun c ↦ ?_
  dsimp only
  split
  · exact Triple.pure fun s hs ↦ hs.1.1
  · refine Triple.bind (hsame (keysSame_writePublicCache cache)) fun x ↦ ?_
    cases x with
    | error e => exact Triple.pure fun s hs ↦ hs.1.1
    | ok =>
      refine Triple.bind (seal_seed rfl rfl) fun y ↦ ?_
      cases y with
      | error e => exact Triple.pure fun s hs ↦ (hs.2 (by simp)).1.1
      | ok =>
        refine Triple.bind (M := fun _ s ↦ SealGood s.core s.disk) (Triple.modify fun s hs ↦ ?_)
          fun _ ↦ Triple.pure fun s hs ↦ hs
        obtain ⟨hdisk, hseed, hstore⟩ := hs.1 rfl
        exact ⟨hdisk, ⟨fun _ ↦ hseed, fun _ ↦ rfl⟩, fun _ ↦ hstore⟩

theorem sealEnds_encrypt (C : Crypto) (L : Sapling.Lib) (r : EncryptRequest) :
    Ends SealMoves (encrypt C L r) := by
  intro s hg
  by_cases he : s.core.ks.encrypted
  · have h : (encrypt C L r s).2 = s := by
      simp [encrypt, Proc.bind_apply, core, he, no]
    rw [h]
    exact ⟨hg.disk, fun _ ↦ hg⟩
  · have hsame : ∀ {α : Type} {x : M α}, Moves KeysSame x →
        Triple Clear x (fun _ ↦ Clear) SealStopped :=
      fun h ↦ seal_same h (fun _ _ ↦ Clear.of_same) fun _ hs ↦ hs
    have hno : ∀ {code reason : String}, Triple Clear (no code reason : M WalletState)
        (fun _ s ↦ SealGood s.core s.disk) SealStopped := Triple.throw fun s hs ↦ hs.stopped
    have htriple : Triple Clear (encrypt C L r) (fun _ s ↦ SealGood s.core s.disk)
        SealStopped := by
      refine Triple.bind (hsame keysSame_core) fun c ↦ Triple.ite (fun _ ↦ hno) fun _ ↦
        Triple.ite (fun _ ↦ hno) fun _ ↦ ?_
      refine Triple.bind (hsame (keysSame_publicOf C L _)) fun x ↦ Triple.bind
        (hsame fun s ↦ Proc.Path.refl s) fun cache ↦ Triple.bind (hsame keysSame_core) fun c ↦ ?_
      refine Triple.bind (seal_encryptImported _) fun y ↦ Triple.bind (M := fun _ ↦ HalfSealed)
        (Triple.lift ?_ fun e s _ hs ↦ hs.1.stopped) fun _ ↦
          Triple.bind (seal_encryptKs _ _) fun z ↦ ?_
      · rintro a s hy ⟨-, hs⟩
        cases y with
        | ok => exact hs rfl
        | error e => cases hy
      refine Triple.bind (M := fun _ s ↦ SealGood s.core s.disk)
        (Triple.lift (fun _ _ _ hs ↦ hs) fun _ _ _ hs ↦ ⟨hs.disk, fun _ ↦ hs⟩) fun _ ↦
          Triple.bind (M := fun _ s ↦ SealGood s.core s.disk)
            (Triple.modify fun s hs ↦ SealGood.locked hs) fun _ ↦ Triple.pure fun s hs ↦ hs
    obtain ⟨hok, herror⟩ := htriple s ⟨hg, by simpa using he⟩
    cases h : encrypt C L r s with
    | mk x s' =>
      cases x with
      | ok a => exact ⟨(hok a s' h).disk, fun _ ↦ hok a s' h⟩
      | error e =>
        obtain ⟨hs, hgood⟩ := herror e s' h
        exact ⟨hs, fun hne ↦ hgood fun h ↦ hne (congrArg some h)⟩

/-! ## Unlocking -/

theorem sealed_unlock {i i' : Imported} {pass : String} {b : Bool}
    (h : i.unlock pass = .ok (b, i')) : i'.sealed = i.sealed := by
  unfold Imported.unlock at h
  split at h
  · cases h
    rfl
  · split at h
    · cases h
      rfl
    · obtain ⟨keys, -, h⟩ := Result.bind_eq_ok.mp h
      cases h
      rfl

theorem sealEnds_unlock (C : Crypto) (r : UnlockRequest) : Ends SealMoves (unlock C r) := by
  intro s
  have hopened : SealGood s.core s.disk → SealGood (s.core.opened r.passphrase) s.disk :=
    fun hg ↦ hg.of_eq (Keystore.encrypted_unlock _ _) rfl rfl rfl
  rcases unlock_cases C r s with ⟨e, h⟩ | ⟨-, ⟨e, h⟩ | ⟨e, h⟩ | ⟨i, hi, ⟨e, h⟩ | ⟨a, k, till, h⟩⟩⟩
  · rw [h]
    exact sealMoves_of_good id
  · rw [h]
    exact sealMoves_of_good hopened
  · rw [h]
    exact sealMoves_of_good fun hg ↦ (hopened hg).locked
  · rw [h]
    exact sealMoves_of_good fun hg ↦ (hopened hg).of_eq rfl
      (congrArg Option.isSome (sealed_unlock hi)) rfl rfl
  · rw [h]
    exact sealMoves_of_good fun hg ↦ (hopened hg).of_eq rfl
      (congrArg Option.isSome (sealed_unlock hi)) rfl rfl

/-! ## Worlds -/

/-- The directory under a sealed seed is sealed, and the process, if one runs, goes with it. -/
structure World.SealGood (w : World) : Prop where
  disk : w.disk.Sealed
  core : ∀ c, w.core = some c → Signer.SealGood c w.disk

theorem openSigner_sealGood {C : Crypto} {network : Network} {c : Core} {d d' : Disk}
    {w₁ w₂ : WriteOutcome} (hd : d.Sealed) (h : openSigner C network w₁ w₂ d = (.ok c, d')) :
    SealGood c d' := by
  have ho := openSigner_eq_ok C h
  have hfiles := openSigner_keyFiles C network w₁ w₂ d
  rw [h] at hfiles
  obtain ⟨hseed, himported, -⟩ := hfiles
  dsimp only at hseed himported
  have hload : Imported.load C d'.imported = .ok c.imported := by
    obtain ⟨i, hi, hrest⟩ := Result.bind_eq_ok.mp ho.stores
    obtain ⟨q, -, hrest⟩ := Result.bind_eq_ok.mp hrest
    cases hrest
    exact hi
  have hks : ∃ g, d.seed = some g ∧ c.ks.sealed = g.sealed := by
    have hks := ho.seed
    cases hg : d.seed with
    | none =>
      rw [hg] at hks
      cases hks
    | some g =>
      rw [hg, Keystore.load] at hks
      obtain ⟨-, hks⟩ := Result.guard_eq_ok.mp hks
      obtain ⟨-, hks⟩ := Result.guard_eq_ok.mp hks
      exact ⟨g, rfl, by rw [← Except.ok.inj hks]⟩
  obtain ⟨g, hg, hsealed⟩ := hks
  refine ⟨hd.of_eq hseed himported, ?_, ?_⟩
  · rw [Disk.SeedSealed, hseed, hg, Keystore.encrypted, hsealed]
    simp
  · intro henc
    rw [Keystore.encrypted, hsealed] at henc
    obtain ⟨-, f, hf, -, hfs⟩ := hd g hg henc
    rw [himported, hf, Imported.load] at hload
    obtain ⟨-, hload⟩ := Result.guard_eq_ok.mp hload
    obtain ⟨ks, -, hload⟩ := Result.bind_eq_ok.mp hload
    dsimp only at hload
    rw [if_pos hfs] at hload
    obtain ⟨ps, -, hload⟩ := Result.bind_eq_ok.mp hload
    rw [← Except.ok.inj hload]
    exact hfs

variable (C : Crypto) (L : Sapling.Lib) (network : Network)

theorem World.sealGood_step {w : World} (hw : w.SealGood) (e : Event) :
    (w.step C L network e).2.SealGood := by
  cases e with
  | request env writes version r =>
    cases hc : w.core with
    | none =>
      have hstep : (w.step C L network (.request env writes version r)).2 = w := by
        simp [World.step, hc]
      rw [hstep]
      exact hw
    | some c =>
      have hends := ends_handle_of_keys (R := SealMoves) C L (sealEnds_addImported C) version r
        (fun x _ ↦ sealEnds_encrypt C L x) (fun x _ ↦ sealEnds_unlock C x)
        (startSt c w.disk env writes)
      obtain ⟨hd, hg⟩ := hends (hw.core c hc)
      simp only [World.step, hc]
      refine ⟨hd, ?_⟩
      intro c' hc'
      rw [eq_of_survives hc']
      exact hg (survives_of_ok hc')
  | restart w₁ w₂ =>
    obtain ⟨hseed, himported, -⟩ := openSigner_keyFiles C network w₁ w₂ w.disk
    refine ⟨hw.disk.of_eq hseed himported, ?_⟩
    intro c hc
    cases hx : (openSigner C network w₁ w₂ w.disk).1 with
    | error e => simp [World.step, hx, Except.toOption] at hc
    | ok c' =>
      simp only [World.step, hx, Except.toOption, Option.some.injEq] at hc
      subst hc
      exact openSigner_sealGood hw.disk (Prod.ext hx rfl)

/-! ## Secrets in clear -/

/-- No file of the directory has a phrase, an imported key or a post-quantum seed in clear. -/
structure Disk.NoClearSecret (d : Disk) : Prop where
  seed : ∀ g, d.seed = some g → g.mnemonic = ""
  imported : ∀ f, d.imported = some f → f.keys = []
  pqImported : ∀ f, d.pqImported = some f → f.keys = []

/-- The post-quantum seeds of a directory. -/
def Disk.pqStored (d : Disk) : List PqEntry := (d.pqImported.map PqImportedFile.keys).getD []

/-- The seed file `init` writes. -/
def newSeed (network : Network) (phrase : String) (birthday : Nat) (restored : Bool) : SeedFile :=
  ⟨seedFormat, network.chainName, phrase, none, birthday, restored⟩

/-- **Secrets on disk.**  In every state that a new wallet's signer reaches and in which it reports
the wallet encrypted, the directory has no secret in clear exactly if it stores no post-quantum
key. -/
theorem noClearSecret_iff {phrase : String} {birthday : Nat} {restored : Bool}
    {h : List (Event × Answer)} {w : World} {c : Core}
    (t : Trace (World.step C L network) (fun _ e ↦ e.Writes)
      (World.start (newSeed network phrase birthday restored)) h w)
    (hc : w.core = some c) (he : c.ks.encrypted = true) :
    w.disk.NoClearSecret ↔ w.disk.pqStored = [] := by
  have hgood : w.SealGood := by
    refine (@Trace.invariant _ _ _ _ _ _ _ _ (fun _ w ↦ w.SealGood) t) ?_
      fun _ w e hw _ ↦ World.sealGood_step C L network hw e
    refine ⟨?_, fun c hc ↦ nomatch hc⟩
    rintro g ⟨⟩ hs
    cases hs
  obtain ⟨g, hg, hsealed⟩ := (hgood.core c hc).seed.mp he
  obtain ⟨hphrase, f, hf, hkeys, -⟩ := hgood.disk g hg hsealed
  constructor
  · intro hno
    cases hpq : w.disk.pqImported with
    | none => simp [Disk.pqStored, hpq]
    | some q => simpa [Disk.pqStored, hpq] using hno.pqImported q hpq
  · intro hnone
    refine ⟨?_, ?_, ?_⟩
    · intro g' hg'
      rw [hg] at hg'
      cases hg'
      exact hphrase
    · intro f' hf'
      rw [hf] at hf'
      cases hf'
      exact hkeys
    · intro q hq
      simpa [Disk.pqStored, hq] using hnone

end

/-! ## A post-quantum key through an encryption -/

/-- The run of some events on a new wallet. -/
def sampleNew (es : List Event) : List (Event × Answer) × World :=
  Trace.run (World.step sampleCrypto .blank .regtest)
    (World.start (newSeed .regtest "abandon" 0 false)) es

/-- The import of a post-quantum key. -/
def samplePq : Event :=
  .request sampleEnv [] protoVersion (.importPq ⟨1, none, Hex.encode (List.replicate 48 7)⟩)

/-- A post-quantum key, and the encryption of the wallet. -/
def clearPq : List Event := [.restart .done .done, samplePq, sampleEncrypt]

theorem not_noClearSecret_clearPq :
    Trace (World.step sampleCrypto .blank .regtest) (fun _ e ↦ e.Writes)
        (World.start (newSeed .regtest "abandon" 0 false)) (sampleNew clearPq).1
        (sampleNew clearPq).2 ∧
      (∃ c, (sampleNew clearPq).2.core = some c ∧ c.ks.encrypted = true) ∧
      ¬ (sampleNew clearPq).2.disk.NoClearSecret := by
  refine ⟨Trace.trace_run ⟨trivial, rfl, rfl, trivial⟩, ?_, ?_⟩
  · have h : (sampleNew clearPq).2.core.any (·.ks.encrypted) := by decide +kernel
    exact (Option.any_eq_true _ _).mp h
  · intro hno
    have h : (sampleNew clearPq).2.disk.pqImported.any (·.keys ≠ []) := by decide +kernel
    obtain ⟨q, hq, hne⟩ := (Option.any_eq_true _ _).mp h
    exact of_decide_eq_true hne (hno.pqImported q hq)

/-- A transparent key, and the encryption of the wallet. -/
def sealedKey : List Event := [.restart .done .done, sampleImport, sampleEncrypt]

theorem noClearSecret_iff_sealedKey :
    (sampleNew sealedKey).2.disk.stored.length = 1 ∧ (sampleNew sealedKey).2.disk.NoClearSecret := by
  have h : (sampleNew sealedKey).2.core.any (·.ks.encrypted) := by decide +kernel
  obtain ⟨c, hc, he⟩ := (Option.any_eq_true _ _).mp h
  have ht : Trace (World.step sampleCrypto .blank .regtest) (fun _ e ↦ e.Writes)
      (World.start (newSeed .regtest "abandon" 0 false)) (sampleNew sealedKey).1
      (sampleNew sealedKey).2 := Trace.trace_run ⟨trivial, rfl, rfl, trivial⟩
  refine ⟨by decide +kernel, ?_⟩
  exact (noClearSecret_iff sampleCrypto .blank .regtest ht hc he).mpr (by decide +kernel)

end Yew.Signer
