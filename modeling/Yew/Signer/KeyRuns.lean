import Yew.Signer.OnceRuns

/-!
# The imported keys over runs

A key store is in four places: the keys in memory, their public keys, the seal in memory and the
file.  Whatever requests come and however their writes end, the file's keys only grow at their end,
and the public keys are theirs (`KeysGood`).  The keys in memory are the file's as long as a sealed
store is opened with the seal the file has, and no process starts on a sealed store under a seed in
clear.

The stores are those of `yewd/signer/src/imported.rs` and `pqimported.rs`.  A run is any list of
requests with any outcome of every write; the process may end in one and start again from its files.
-/

namespace Yew.Signer

open Tx Keys Proto Proc

/-! ## What leaves the key stores alone -/

/-- The seed and the imported keys are as they were, in memory and on disk. -/
structure KeysSame (s s' : St) : Prop where
  network : s'.core.network = s.core.network
  imported : s'.core.imported = s.core.imported
  ks : s'.core.ks = s.core.ks
  keys : s'.core.keys = s.core.keys
  diskImported : s'.disk.imported = s.disk.imported
  diskSeed : s'.disk.seed = s.disk.seed

instance : Proc.Path KeysSame where
  refl _ := ⟨rfl, rfl, rfl, rfl, rfl, rfl⟩
  trans hab hbc := ⟨hbc.network.trans hab.network, hbc.imported.trans hab.imported,
    hbc.ks.trans hab.ks, hbc.keys.trans hab.keys, hbc.diskImported.trans hab.diskImported,
    hbc.diskSeed.trans hab.diskSeed⟩

theorem keysSame_core : Moves KeysSame core := fun s ↦ Proc.Path.refl s

theorem keysSame_nextWrite : Moves KeysSame nextWrite := by
  intro s
  obtain ⟨w, ws, h, -⟩ := nextWrite_cases s
  rw [h]
  exact ⟨rfl, rfl, rfl, rfl, rfl, rfl⟩

theorem keysSame_replaceFile {f : Disk → Disk} (himported : ∀ d, (f d).imported = d.imported)
    (hseed : ∀ d, (f d).seed = d.seed) : Moves KeysSame (replaceFile f) := by
  intro s
  obtain ⟨ws, -, h | ⟨-, ⟨e, h⟩ | ⟨d, hd, h⟩⟩⟩ := replaceFile_cases f s
  · rw [h]
    exact ⟨rfl, rfl, rfl, rfl, himported _, hseed _⟩
  · rw [h]
    exact ⟨rfl, rfl, rfl, rfl, rfl, rfl⟩
  · rw [h]
    rcases hd with rfl | rfl
    · exact ⟨rfl, rfl, rfl, rfl, himported _, hseed _⟩
    · exact ⟨rfl, rfl, rfl, rfl, rfl, rfl⟩

theorem keysSame_writePublicCache (b : PublicBundle) : Moves KeysSame (writePublicCache b) :=
  keysSame_replaceFile (fun _ ↦ rfl) fun _ ↦ rfl

theorem keysSame_change (f : SignOnce → SignOnce) : Moves KeysSame (changeOnce f) :=
  Moves.bind (fun _ ↦ ⟨rfl, rfl, rfl, rfl, rfl, rfl⟩) fun _ ↦
    keysSame_core.bind fun _ ↦ keysSame_replaceFile (fun _ ↦ rfl) fun _ ↦ rfl

theorem keysSame_markRestored : Moves KeysSame markRestored :=
  keysSame_core.bind fun _ ↦ .ite (.pure _) (keysSame_change _)

theorem keysSame_keyImported (hash : String) (members : Option (List String)) :
    Moves KeysSame (keyImported hash members) :=
  .ite (keysSame_core.bind fun _ ↦ .ite (.pure _) (keysSame_change _)) keysSame_markRestored

theorem keysSame_importOnce (rs : List SignedRecord) : Moves KeysSame (importOnce rs) := by
  refine keysSame_core.bind fun c ↦ ?_
  cases c.once.importCounts rs with
  | error e => exact .pure _
  | ok n =>
    refine (keysSame_change _).bind fun x ↦ ?_
    cases x with
    | error e => exact .pure _
    | ok => exact .pure _

theorem keysSame_joinsSeen (hashes : List String) : Moves KeysSame (joinsSeen hashes) :=
  keysSame_core.bind fun _ ↦ .ite (.pure _) (keysSame_change _)

theorem keysSame_addPqImported (scheme : UInt8) (seed : Bytes) :
    Moves KeysSame (addPqImported scheme seed) := by
  refine keysSame_core.bind fun c ↦ ?_
  split
  · exact .pure _
  · refine Moves.bind (fun _ ↦ ⟨rfl, rfl, rfl, rfl, rfl, rfl⟩) fun _ ↦ Moves.bind
      (keysSame_core.bind fun _ ↦ keysSame_replaceFile (fun _ ↦ rfl) fun _ ↦ rfl) fun x ↦ ?_
    cases x with
    | error e => exact Moves.bind (fun _ ↦ ⟨rfl, rfl, rfl, rfl, rfl, rfl⟩) fun _ ↦ .pure _
    | ok => exact keysSame_core.bind fun _ ↦ .pure _

theorem keysSame_recordGuard (r : Attested) : Moves KeysSame (recordGuard r) := by
  refine keysSame_nextWrite.bind fun w ↦ Moves.bind (fun _ ↦ ⟨rfl, rfl, rfl, rfl, rfl, rfl⟩)
    fun _ ↦ Moves.bind (fun _ ↦ ⟨rfl, rfl, rfl, rfl, rfl, rfl⟩) fun _ ↦ ?_
  cases w with
  | done => exact .pure _
  | failed e kept => exact .pure _
  | cut kept => exact .throw _

/-- A relation that allows what leaves the key stores alone. -/
class KeyRoute (R : Option Stop → St → St → Prop) : Prop extends Route R where
  same : ∀ {o s s'}, KeysSame s s' → R o s s'
  idle : ∀ {o s s'}, Idle s s' → R o s s'
  caught : ∀ {code reason s s'}, R (some (.refused code reason)) s s' → R none s s'

section KeyRoute

variable {R : Option Stop → St → St → Prop} [KeyRoute R] {α : Type}

theorem KeysSame.ends {x : M α} (h : Moves KeysSame x) : Ends R x := fun s ↦ KeyRoute.same (h s)

instance : Calm R where
  idle := KeyRoute.idle
  caught := KeyRoute.caught
  nextWrite := KeysSame.ends keysSame_nextWrite
  publicCache b := KeysSame.ends (keysSame_writePublicCache b)
  addPqImported scheme seed := KeysSame.ends (keysSame_addPqImported scheme seed)
  keyImported hash members := KeysSame.ends (keysSame_keyImported hash members)
  joinsSeen hashes := KeysSame.ends (keysSame_joinsSeen hashes)

variable (C : Crypto) (L : Sapling.Lib)

/-- Beside the keys added one by one, only two requests touch the key stores. -/
theorem ends_handle_of_keys (hadd : ∀ key, Ends R (addImported C key)) (version : UInt32)
    (r : Request) (hencrypt : ∀ x, r = .encrypt x → Ends R (encrypt C L x))
    (hunlock : ∀ x, r = .unlock x → Ends R (unlock C x)) : Ends R (handle C L version r) := by
  have : Kept C R := ⟨hadd⟩
  have hguard : ∀ x, Ends R (recordGuard x) := fun x ↦ KeysSame.ends (keysSame_recordGuard x)
  refine ends_handle C L (ends_answer C L r (fun x _ ↦ ends_signSet C (ends_signOnce ?_ x))
    (fun x _ ↦ ends_signAttestation C (ends_guardedAttestation C hguard) x)
    (fun x _ ↦ ends_cancelCosign C (ends_guardedAttestation C hguard) x)
    (fun _ ↦ KeysSame.ends (keysSame_change _))
    (fun _ rs ↦ KeysSame.ends (keysSame_importOnce rs)) hencrypt hunlock) version
  exact fun x ↦ KeysSame.ends (keysSame_change _)

end KeyRoute

/-! ## The store of imported keys -/

section

variable (C : Crypto) (network : Network)

/-- The file that holds these keys, sealed under a passphrase or in clear. -/
def keysFile (ks : List SecretKey) : Option String → ImportedFile
  | some p => ⟨Imported.format, [], (ks.map C.publicKey).map Imported.hexPub,
      some ⟨p, ks.map Imported.hexKey⟩⟩
  | none => ⟨Imported.format, ks.map Imported.hexKey, (ks.map C.publicKey).map Imported.hexPub,
      none⟩

/-- The directory holds these imported keys. -/
def Disk.Stores (d : Disk) (ks : List SecretKey) : Prop :=
  (d.imported = none ∧ ks = []) ∨ ∃ p, d.imported = some (keysFile C ks p)

/-- The imported keys of a directory. -/
def Disk.stored (d : Disk) : List SecretKey :=
  match d.imported with
  | none => []
  | some f => (Imported.parseKeys (match f.sealed with
      | some s => s.plain
      | none => f.keys)).toOption.getD []

theorem Disk.Stores.stored_eq {d : Disk} {ks : List SecretKey} (h : d.Stores C ks) :
    d.stored = ks := by
  rcases h with ⟨h, rfl⟩ | ⟨p, h⟩
  · simp [Disk.stored, h]
  · cases p <;> simp [Disk.stored, h, keysFile, Except.toOption]

/-- The signer in memory over a directory that holds these keys: it lists their public keys, and has
the keys unless its store is sealed and locked; a wallet in clear, or unlocked, has them. -/
structure KeysGood (c : Core) (d : Disk) (ks : List SecretKey) : Prop where
  file : d.Stores C ks
  network : c.network = network
  pubs : c.imported.pubs = ks.map C.publicKey
  keys : c.imported.keys = ks ∨
    c.imported.keys = [] ∧ c.imported.sealed.isSome ∧ c.imported.pass = none
  held : c.ks.encrypted = false ∨ c.keys.isSome → c.imported.keys = ks

/-- The same while the keys are at hand. -/
structure KeysFull (c : Core) (d : Disk) (ks : List SecretKey) : Prop where
  file : d.Stores C ks
  network : c.network = network
  pubs : c.imported.pubs = ks.map C.publicKey
  keys : c.imported.keys = ks

variable {C network} {s s' : St} {ks : List SecretKey}

theorem KeysFull.good {c : Core} {d : Disk} (h : KeysFull C network c d ks) :
    KeysGood C network c d ks :=
  ⟨h.file, h.network, h.pubs, .inl h.keys, fun _ ↦ h.keys⟩

theorem KeysGood.full {c : Core} {d : Disk} (h : KeysGood C network c d ks)
    (hk : c.imported.keys = ks) : KeysFull C network c d ks := ⟨h.file, h.network, h.pubs, hk⟩

theorem KeysGood.of_same (h : KeysSame s s') (hg : KeysGood C network s.core s.disk ks) :
    KeysGood C network s'.core s'.disk ks where
  file := by
    rw [Disk.Stores, h.diskImported]
    exact hg.file
  network := h.network.trans hg.network
  pubs := by
    rw [h.imported]
    exact hg.pubs
  keys := by
    rw [h.imported]
    exact hg.keys
  held := by
    rw [h.imported, h.ks, h.keys]
    exact hg.held

theorem KeysFull.of_same (h : KeysSame s s') (hg : KeysFull C network s.core s.disk ks) :
    KeysFull C network s'.core s'.disk ks :=
  (hg.good.of_same h).full (by rw [h.imported, hg.keys])

/-- A wallet that is encrypted may be locked at any time. -/
theorem KeysGood.locked {c : Core} {d : Disk} (hg : KeysGood C network c d ks)
    (he : c.ks.encrypted) : KeysGood C network c.locked d ks where
  file := hg.file
  network := hg.network
  pubs := by
    rw [← hg.pubs, Core.locked, Imported.lock]
    split <;> rfl
  keys := by
    rw [Core.locked, Imported.lock]
    split
    · rename_i hs
      exact .inr ⟨rfl, hs, rfl⟩
    · exact hg.keys
  held := by
    rintro (h | h)
    · rw [Core.locked, Keystore.encrypted_lock, he] at h
      cases h
    · cases h

theorem KeysGood.idle (h : Idle s s') (hg : KeysGood C network s.core s.disk ks) :
    KeysGood C network s'.core s'.disk ks := by
  rw [h.disk]
  rcases h.core with hc | ⟨he, hc⟩
  · rw [hc]
    exact hg
  · rw [hc]
    exact hg.locked he

/-- What a request does to the imported keys: the file's grow at their end, and unless the process
ended memory goes with them. -/
def KeyMoves (C : Crypto) (network : Network) (o : Option Stop) (s s' : St) : Prop :=
  ∀ ks, KeysGood C network s.core s.disk ks →
    ∃ ks', ks <+: ks' ∧ s'.disk.Stores C ks' ∧
      (o ≠ some .crash → KeysGood C network s'.core s'.disk ks')

theorem keyMoves_of_good {o : Option Stop}
    (h : ∀ ks, KeysGood C network s.core s.disk ks → KeysGood C network s'.core s'.disk ks) :
    KeyMoves C network o s s' :=
  fun ks hg ↦ ⟨ks, List.prefix_refl _, (h ks hg).file, fun _ ↦ h ks hg⟩

instance : KeyRoute (KeyMoves C network) where
  refl _ _ := keyMoves_of_good fun _ ↦ id
  trans hab hbc := by
    intro ks hg
    obtain ⟨ks₁, h₁, -, hg₁⟩ := hab ks hg
    obtain ⟨ks₂, h₂, hrest⟩ := hbc ks₁ (hg₁ (by simp))
    exact ⟨ks₂, h₁.trans h₂, hrest⟩
  same h := keyMoves_of_good fun _ ↦ .of_same h
  idle h := keyMoves_of_good fun _ ↦ .idle h
  caught h := by
    intro ks hg
    obtain ⟨ks', hk, hs, hg'⟩ := h ks hg
    exact ⟨ks', hk, hs, fun _ ↦ hg' (by simp)⟩

/-- The file a store with its keys at hand writes. -/
theorem toFile_eq {i : Imported} (hk : i.keys = ks) (hp : i.pubs = ks.map C.publicKey) :
    ∃ p, i.toFile = keysFile C ks p := by
  subst hk
  unfold Imported.toFile
  split
  · rename_i pass b hpass hsealed
    exact ⟨some pass, by rw [hp]; rfl⟩
  · exact ⟨none, by rw [hp]; rfl⟩

/-- The store with one more key. -/
def Imported.push (C : Crypto) (key : SecretKey) (i : Imported) : Imported :=
  { i with keys := i.keys ++ [key], pubs := i.pubs ++ [C.publicKey key] }

/-- The signer with another store. -/
def Core.withImported (c : Core) (i : Imported) : Core := { c with imported := i }

theorem KeysGood.push {c : Core} {d : Disk} {key : SecretKey} (hg : KeysGood C network c d ks)
    (hkeys : c.imported.keys = ks) :
    KeysFull C network (c.withImported (c.imported.push C key))
      { d with imported := some (c.imported.push C key).toFile } (ks ++ [key]) := by
  have hk : (c.imported.push C key).keys = ks ++ [key] := by
    rw [Imported.push, hkeys]
  have hp : (c.imported.push C key).pubs = (ks ++ [key]).map C.publicKey := by
    rw [Imported.push, hg.pubs, List.map_append]
    rfl
  obtain ⟨p, hfile⟩ := toFile_eq hk hp
  exact ⟨.inr ⟨p, congrArg some hfile⟩, hg.network, hp, hk⟩

/-- The store without its last key. -/
def Imported.pop (i : Imported) : Imported :=
  { i with keys := i.keys.dropLast, pubs := i.pubs.dropLast }

/-- What `add_imported` does once the file is written or not. -/
def addedImported : Except String Unit → M (Except String (Nat × Bool))
  | .error e => do
    modifyImported Imported.pop
    return .error e
  | .ok () => do
    return .ok ((← core).imported.keys.length - 1, true)

/-- An `add` of a key that is not held, to a store that is not locked. -/
theorem addImported_of_new {key : SecretKey}
    (hfind : s.core.imported.keys.findIdx? (· = key) = none)
    (hlocked : ¬(s.core.imported.sealed.isSome ∧ s.core.imported.pass.isNone)) :
    addImported C key s =
      match replaceFile (fun d ↦ { d with imported := some (s.core.imported.push C key).toFile })
        { s with core := s.core.withImported (s.core.imported.push C key) } with
      | (.ok (.ok ()), s') => (.ok (.ok (s'.core.imported.keys.length - 1, true)), s')
      | (.ok (.error e), s') =>
        (.ok (.error e), { s' with core := s'.core.withImported s'.core.imported.pop })
      | (.error x, s') => (.error x, s') := by
  let f : Disk → Disk := fun d ↦ { d with imported := some (s.core.imported.push C key).toFile }
  let s₁ : St := { s with core := s.core.withImported (s.core.imported.push C key) }
  have hrun : addImported C key s = (replaceFile f >>= addedImported) s₁ := by
    simp only [addImported, Proc.bind_apply, core, hfind, if_neg hlocked]
    rfl
  rw [hrun, Proc.bind_apply]
  cases replaceFile f s₁ with
  | mk x s' =>
    cases x with
    | error e => rfl
    | ok y =>
      cases y with
      | error e => rfl
      | ok => rfl

/-- How an `add` ends: the key is held, its index is returned and the file has it there; it fails,
and nothing has happened; or the process ended with the old file or the new one. -/
theorem addImported_cases {key : SecretKey} (hg : KeysGood C network s.core s.disk ks) :
    (∃ n new ks' s', addImported C key s = (.ok (.ok (n, new)), s') ∧ ks <+: ks' ∧
        KeysGood C network s'.core s'.disk ks' ∧ ks'[n]? = some key) ∨
      (∃ e s', addImported C key s = (.ok (.error e), s') ∧
        KeysGood C network s'.core s'.disk ks) ∨
      ∃ ks' s', addImported C key s = (.error .crash, s') ∧ ks <+: ks' ∧ s'.disk.Stores C ks' := by
  cases hfind : s.core.imported.keys.findIdx? (· = key) with
  | some n =>
    left
    have hn : s.core.imported.keys[n]? = some key := by
      obtain ⟨hlt, heq, -⟩ := List.findIdx?_eq_some_iff_getElem.mp hfind
      rw [List.getElem?_eq_getElem hlt]
      exact congrArg some (of_decide_eq_true heq)
    have hkeys : s.core.imported.keys = ks := by
      rcases hg.keys with h | ⟨h, -⟩
      · exact h
      · rw [h] at hn
        cases hn
    refine ⟨n, false, ks, s, ?_, List.prefix_refl _, hg, hkeys ▸ hn⟩
    simp only [addImported, Proc.bind_apply, core, hfind, Proc.pure_apply]
  | none =>
    by_cases hlocked : s.core.imported.sealed.isSome ∧ s.core.imported.pass.isNone
    · refine .inr (.inl ⟨"the wallet is locked", s, ?_, hg⟩)
      simp only [addImported, Proc.bind_apply, core, hfind, if_pos hlocked, Proc.pure_apply]
    · have hkeys : s.core.imported.keys = ks := by
        rcases hg.keys with h | ⟨-, hs, hp⟩
        · exact h
        · exact absurd ⟨hs, by simp [hp]⟩ hlocked
      have hfull := @KeysGood.push _ _ _ _ _ key hg hkeys
      have hadd := addImported_of_new (C := C) hfind hlocked
      obtain ⟨ws, -, h | ⟨-, ⟨e, h⟩ | ⟨d, hd, h⟩⟩⟩ := replaceFile_cases
        (fun d ↦ { d with imported := some (s.core.imported.push C key).toFile })
        { s with core := s.core.withImported (s.core.imported.push C key) }
      · rw [h] at hadd
        refine .inl ⟨_, true, ks ++ [key], _, hadd, List.prefix_append _ _, hfull.good, ?_⟩
        simp [hfull.keys]
      · rw [h] at hadd
        refine .inr (.inl ⟨e, _, hadd, ?_⟩)
        -- the pushed key is taken back
        have hback : (s.core.withImported (s.core.imported.push C key)).withImported
            (s.core.imported.push C key).pop = s.core := by
          simp [Core.withImported, Imported.push, Imported.pop]
        exact hback.symm ▸ hg
      · rw [h] at hadd
        refine .inr (.inr ?_)
        rcases hd with rfl | rfl
        · exact ⟨ks ++ [key], _, hadd, List.prefix_append _ _, hfull.file⟩
        · exact ⟨_, _, hadd, List.prefix_refl _, hg.file⟩

theorem ends_addImported (key : SecretKey) : Ends (KeyMoves C network) (addImported C key) := by
  intro s ks hg
  rcases @addImported_cases _ _ _ _ key hg with ⟨n, new, ks', s', h, hk, hg', -⟩ | ⟨e, s', h, hg'⟩ |
    ⟨ks', s', h, hk, hs⟩
  · rw [h]
    exact ⟨ks', hk, hg'.file, fun _ ↦ hg'⟩
  · rw [h]
    exact ⟨ks, List.prefix_refl _, hg'.file, fun _ ↦ hg'⟩
  · rw [h]
    exact ⟨ks', hk, hs, fun hne ↦ absurd rfl hne⟩

/-! ## Sealing and opening the store -/

/-- The keys are at hand. -/
def Full (C : Crypto) (network : Network) (ks : List SecretKey) (s : St) : Prop :=
  KeysFull C network s.core s.disk ks

/-- A request that stopped has kept the keys, in memory too unless the process ended. -/
def Stopped (C : Crypto) (network : Network) (ks : List SecretKey) (e : Stop) (s : St) : Prop :=
  s.disk.Stores C ks ∧ (e ≠ .crash → KeysGood C network s.core s.disk ks)

section

variable {α : Type} {e : Stop}

theorem Full.stopped (h : Full C network ks s) : Stopped C network ks e s :=
  ⟨h.file, fun _ ↦ KeysFull.good h⟩

theorem triple_same {x : M α} (h : Moves KeysSame x) :
    Triple (Full C network ks) x (fun _ ↦ Full C network ks) (Stopped C network ks) := by
  refine Triple.of_ends (R := fun _ ↦ KeysSame) h ?_ ?_
  · exact fun s s' hs hR ↦ KeysFull.of_same hR hs
  · exact fun e s s' hs hR ↦ Full.stopped (KeysFull.of_same hR hs)

theorem triple_replaceFile {f : Disk → Disk}
    (hf : ∀ s, Full C network ks s → (f s.disk).Stores C ks) :
    Triple (Full C network ks) (replaceFile f) (fun _ ↦ Full C network ks)
      (Stopped C network ks) := by
  intro s hs
  have hfull : ∀ d ws, d = f s.disk ∨ d = s.disk →
      Full C network ks { s with disk := d, writes := ws } := by
    intro d ws hd
    rcases hd with rfl | rfl
    · exact ⟨hf s hs, hs.network, hs.pubs, hs.keys⟩
    · exact ⟨hs.file, hs.network, hs.pubs, hs.keys⟩
  obtain ⟨ws, -, h | ⟨-, ⟨e, h⟩ | ⟨d, hd, h⟩⟩⟩ := replaceFile_cases f s
  · rw [h]
    refine ⟨?_, by simp⟩
    rintro _ _ ⟨⟩
    exact hfull _ ws (.inl rfl)
  · rw [h]
    refine ⟨?_, by simp⟩
    rintro _ _ ⟨⟩
    exact hfull s.disk ws (.inr rfl)
  · rw [h]
    refine ⟨by simp, ?_⟩
    rintro _ _ ⟨⟩
    exact Full.stopped (hfull d ws hd)

theorem triple_modifyCore {f : Core → Core} (hnet : ∀ c, (f c).network = c.network)
    (hkeys : ∀ c, (f c).imported.keys = c.imported.keys)
    (hpubs : ∀ c, (f c).imported.pubs = c.imported.pubs) :
    Triple (Full C network ks) (modifyCore f) (fun _ ↦ Full C network ks)
      (Stopped C network ks) := by
  refine Triple.modify fun s hs ↦ ⟨hs.file, ?_, ?_, ?_⟩
  · exact (hnet s.core).trans hs.network
  · exact (hpubs s.core).trans hs.pubs
  · exact (hkeys s.core).trans hs.keys

theorem triple_orRefuse (code : String) (text : String → String) (x : Except String α) :
    Triple (Full C network ks) (orRefuse code text x) (fun _ ↦ Full C network ks)
      (Stopped C network ks) := triple_same fun s ↦ Proc.Path.refl s

theorem triple_encryptImported (pass : String) :
    Triple (Full C network ks) (encryptImported pass) (fun _ ↦ Full C network ks)
      (Stopped C network ks) := by
  refine Triple.bind (triple_modifyCore (fun _ ↦ rfl) (fun _ ↦ rfl) fun _ ↦ rfl) fun _ ↦ ?_
  intro s hs
  refine triple_replaceFile (fun s' hs' ↦ ?_) s hs
  obtain ⟨p, hp⟩ := toFile_eq (C := C) hs.keys hs.pubs
  exact .inr ⟨p, congrArg some hp⟩

theorem triple_encryptKs (pass : String) (cache : PublicBundle) :
    Triple (Full C network ks) (encryptKs pass cache)
      (fun x s ↦ Full C network ks s ∧ (x = .ok () → s.core.ks.encrypted = true))
      (Stopped C network ks) := by
  refine Triple.bind (triple_same keysSame_core) fun c ↦ ?_
  dsimp only
  split
  · exact Triple.pure fun s hs ↦ ⟨hs, by simp⟩
  · refine Triple.bind (triple_same (keysSame_writePublicCache cache)) fun x ↦ ?_
    cases x with
    | error e => exact Triple.pure fun s hs ↦ ⟨hs, by simp⟩
    | ok =>
      refine Triple.bind (triple_replaceFile fun s hs ↦ hs.file) fun y ↦ ?_
      cases y with
      | error e => exact Triple.pure fun s hs ↦ ⟨hs, by simp⟩
      | ok =>
        refine Triple.bind (M := fun _ s ↦ Full C network ks s ∧ s.core.ks.encrypted = true)
          (Triple.modify fun s hs ↦ ?_) fun _ ↦ Triple.pure fun s hs ↦ ⟨hs.1, fun _ ↦ hs.2⟩
        exact ⟨⟨hs.file, hs.network, hs.pubs, hs.keys⟩, rfl⟩

theorem keysSame_publicOf (C : Crypto) (L : Sapling.Lib) (req : PublicRequest) :
    Moves KeysSame (publicOf C L req) := by
  refine Moves.bind Moves.get fun s ↦ ?_
  split
  · exact .pure _
  · split
    · exact .pure _
    · split
      · exact .pure _
      · split
        · exact (keysSame_writePublicCache _).bind fun _ ↦ .pure _
        · exact .pure _

theorem triple_encrypt (L : Sapling.Lib) (r : EncryptRequest) :
    Triple (Full C network ks) (encrypt C L r)
      (fun _ s ↦ KeysGood C network s.core s.disk ks) (Stopped C network ks) := by
  have hno : ∀ {code reason : String}, Triple (Full C network ks) (no code reason : M WalletState)
      (fun _ s ↦ KeysGood C network s.core s.disk ks) (Stopped C network ks) :=
    Triple.throw fun s hs ↦ hs.stopped
  refine Triple.bind (triple_same keysSame_core) fun c ↦ Triple.ite (fun _ ↦ hno) fun _ ↦
    Triple.ite (fun _ ↦ hno) fun _ ↦ ?_
  refine Triple.bind (triple_same (keysSame_publicOf C L _)) fun x ↦ Triple.bind
    (triple_orRefuse _ _ x) fun cache ↦ Triple.bind (triple_same keysSame_core) fun c ↦ ?_
  refine Triple.bind (triple_encryptImported _) fun y ↦ Triple.bind (triple_orRefuse _ _ y)
    fun _ ↦ Triple.bind (triple_encryptKs _ _) fun z ↦ ?_
  refine Triple.bind (M := fun _ s ↦ Full C network ks s ∧ s.core.ks.encrypted = true)
    (Triple.lift ?_ ?_) fun _ ↦ Triple.bind (M := fun _ s ↦ KeysGood C network s.core s.disk ks)
      (Triple.modify fun s hs ↦ hs.1.good.locked hs.2) fun _ ↦ Triple.pure fun s hs ↦ hs
  · rintro a s hz ⟨hs, he⟩
    cases z with
    | ok => exact ⟨hs, he rfl⟩
    | error e => cases hz
  · rintro e s - ⟨hs, -⟩
    exact hs.stopped

theorem ends_encrypt (L : Sapling.Lib) (r : EncryptRequest) :
    Ends (KeyMoves C network) (encrypt C L r) := by
  intro s ks hg
  by_cases he : s.core.ks.encrypted
  · have h : (encrypt C L r s).2 = s := by
      simp [encrypt, Proc.bind_apply, core, he, no]
    rw [h]
    exact ⟨ks, List.prefix_refl _, hg.file, fun _ ↦ hg⟩
  · have hfull : Full C network ks s := hg.full (hg.held (.inl (by simpa using he)))
    obtain ⟨hok, herror⟩ := triple_encrypt (C := C) L r s hfull
    refine ⟨ks, List.prefix_refl _, ?_⟩
    cases h : encrypt C L r s with
    | mk x s' =>
      cases x with
      | ok a => exact ⟨(hok a s' h).file, fun _ ↦ hok a s' h⟩
      | error e =>
        obtain ⟨hs, hgood⟩ := herror e s' h
        exact ⟨hs, fun hne ↦ hgood fun h ↦ hne (congrArg some h)⟩

/-- The seal in memory is of the keys of the directory. -/
def SealFresh (c : Core) (d : Disk) : Prop :=
  ∀ b, c.imported.sealed = some b → Imported.parseKeys b.plain = .ok d.stored

/-- Opening a store whose seal is of the directory's keys gives these keys. -/
theorem unlock_imported {c : Core} {d : Disk} {pass : String} {i : Imported}
    (hg : KeysGood C network c d ks) (hfresh : SealFresh c d)
    (h : c.imported.unlock pass = .ok (true, i)) : i.keys = ks ∧ i.pubs = ks.map C.publicKey := by
  unfold Imported.unlock at h
  split at h
  · rename_i hs
    cases h
    refine ⟨?_, hg.pubs⟩
    rcases hg.keys with hk | ⟨-, hsome, -⟩
    · exact hk
    · rw [hs] at hsome
      cases hsome
  · rename_i b hb
    split at h
    · cases h
    · rename_i hexes hopen
      obtain ⟨keys, hparse, h⟩ := Result.bind_eq_ok.mp h
      cases h
      obtain ⟨-, rfl⟩ := Sealed.open?_eq_some.mp hopen
      rw [hfresh b hb, hg.file.stored_eq] at hparse
      exact ⟨(Except.ok.inj hparse).symm, hg.pubs⟩

/-- The signer once its phrase is opened. -/
def Core.opened (pass : String) (c : Core) : Core := { c with ks := (c.ks.unlock pass).2 }

/-- What an unlock does once the imported keys are opened or not. -/
def unlockWith (C : Crypto) (r : UnlockRequest) : Except String (Bool × Imported) → M WalletState
  | .error e => no Refuse.failed e
  | .ok (false, _) => do
    doLock
    badPassphrase
  | .ok (true, i) => do
    modifyImported fun _ ↦ i
    let phrase := ((← core).ks.mnemonic).getD ""
    let (k, _) ← orRefuse Refuse.failed id (deriveKeys C phrase)
    let till := unlockEnd (← now) r.timeout
    modifyCore fun c ↦ { c with keys := some k, unlockedUntil := till }
    return ⟨true, till⟩

/-- How an unlock ends.  The phrase is opened first, whatever becomes of the imported keys. -/
theorem unlock_cases (C : Crypto) (r : UnlockRequest) (s : St) :
    (∃ e, unlock C r s = (.error e, s)) ∨ s.core.ks.encrypted ∧
      ((∃ e, unlock C r s = (.error e, { s with core := s.core.opened r.passphrase })) ∨
        (∃ e, unlock C r s = (.error e, { s with core := (s.core.opened r.passphrase).locked })) ∨
        ∃ i, s.core.imported.unlock r.passphrase = .ok (true, i) ∧
          ((∃ e, unlock C r s =
              (.error e, { s with core := (s.core.opened r.passphrase).withImported i })) ∨
            ∃ a k till, unlock C r s = (.ok a, { s with
              core := { (s.core.opened r.passphrase).withImported i with
                keys := some k, unlockedUntil := till } }))) := by
  by_cases he : s.core.ks.encrypted
  swap
  · left
    simp [unlock, Proc.bind_apply, core, he, no]
  by_cases hp : (s.core.ks.unlock r.passphrase).1
  swap
  · left
    simp [unlock, Proc.bind_apply, core, he, hp, badPassphrase, no]
  refine .inr ⟨he, ?_⟩
  have hrun : unlock C r s = unlockWith C r (s.core.imported.unlock r.passphrase)
      { s with core := s.core.opened r.passphrase } := by
    simp only [unlock, Proc.bind_apply, core, he, hp, Bool.not_true, Bool.false_eq_true, if_false]
    rfl
  rw [hrun]
  cases s.core.imported.unlock r.passphrase with
  | error e => exact .inl ⟨_, rfl⟩
  | ok x =>
    obtain ⟨b, i⟩ := x
    cases b with
    | false => exact .inr (.inl ⟨_, rfl⟩)
    | true =>
      refine .inr (.inr ⟨i, rfl, ?_⟩)
      cases hd : deriveKeys C ((s.core.opened r.passphrase).ks.mnemonic.getD "") with
      | error e =>
        left
        refine ⟨.refused Refuse.failed e, ?_⟩
        simp only [unlockWith, Proc.bind_apply, modifyImported, modifyCore, Proc.modify_apply, core, hd]
        rfl
      | ok k =>
        right
        refine ⟨⟨true, unlockEnd s.env.now r.timeout⟩, k.1, unlockEnd s.env.now r.timeout, ?_⟩
        simp only [unlockWith, Proc.bind_apply, modifyImported, modifyCore, Proc.modify_apply, core, hd]
        rfl

/-- An unlock keeps the keys. -/
theorem unlock_good {r : UnlockRequest} (hg : KeysGood C network s.core s.disk ks)
    (hfresh : SealFresh s.core s.disk) :
    KeysGood C network (unlock C r s).2.core (unlock C r s).2.disk ks := by
  have hopened : s.core.ks.encrypted → KeysGood C network (s.core.opened r.passphrase) s.disk ks ∧
      (s.core.opened r.passphrase).ks.encrypted := by
    intro he
    have henc : (s.core.opened r.passphrase).ks.encrypted = true := by
      rw [← he]
      exact Keystore.encrypted_unlock _ _
    refine ⟨⟨hg.file, hg.network, hg.pubs, hg.keys, ?_⟩, henc⟩
    rintro (h | h)
    · rw [henc] at h
      cases h
    · exact hg.held (.inr h)
  rcases unlock_cases C r s with ⟨e, h⟩ | ⟨he, ⟨e, h⟩ | ⟨e, h⟩ | ⟨i, hi, hcase⟩⟩
  · rw [h]
    exact hg
  · rw [h]
    exact (hopened he).1
  · rw [h]
    exact (hopened he).1.locked (hopened he).2
  · obtain ⟨hkeys, hpubs⟩ := unlock_imported hg hfresh hi
    rcases hcase with ⟨e, h⟩ | ⟨a, k, till, h⟩
    · rw [h]
      exact ⟨hg.file, hg.network, hpubs, .inl hkeys, fun _ ↦ hkeys⟩
    · rw [h]
      exact ⟨hg.file, hg.network, hpubs, .inl hkeys, fun _ ↦ hkeys⟩

end

/-! ## What an import answers -/

/-- A key an answer acknowledges: its index, its public key, and the secret if the request named
it. -/
structure KeyFact where
  index : Nat
  pubkey : String
  secret : Option SecretKey
deriving DecidableEq

/-- The key is among these, at its index. -/
def KeyFact.In (C : Crypto) (a : KeyFact) (ks : List SecretKey) : Prop :=
  ∃ sk, ks[a.index]? = some sk ∧ Imported.hexPub (C.publicKey sk) = a.pubkey ∧
    ∀ k, a.secret = some k → k = sk

theorem KeyFact.In.mono {a : KeyFact} {ks ks' : List SecretKey} (h : a.In C ks)
    (hk : ks <+: ks') : a.In C ks' := by
  obtain ⟨sk, hsk, hrest⟩ := h
  refine ⟨sk, ?_, hrest⟩
  obtain ⟨t, rfl⟩ := hk
  exact List.getElem?_append_left (List.getElem?_eq_some_iff.mp hsk).1 ▸ hsk

/-- The keys of a dump so far are in the directory. -/
def DumpState.Stored (C : Crypto) (d : DumpState) (ks : List SecretKey) : Prop :=
  ∀ k ∈ d.out.keys, (⟨k.1.index, k.1.pubkey, none⟩ : KeyFact).In C ks

/-- The signer has these keys of a dump, in a directory that started with `ks`. -/
def Dumped (C : Crypto) (network : Network) (ks : List SecretKey) (d : DumpState) (s : St) : Prop :=
  ∃ ks', ks <+: ks' ∧ KeysGood C network s.core s.disk ks' ∧ d.Stored C ks'

section

variable {α : Type} {d d' : DumpState}

theorem dumped_moves {x : M α} (h : Ends (KeyMoves C network) x) :
    Triple (Dumped C network ks d) x (fun _ ↦ Dumped C network ks d) fun _ _ ↦ True := by
  refine Triple.of_ends h ?_ fun _ _ _ _ _ ↦ trivial
  rintro s s' ⟨ks₁, h₁, hg, hd⟩ hR
  obtain ⟨ks₂, h₂, -, hg₂⟩ := hR ks₁ hg
  exact ⟨ks₂, h₁.trans h₂, hg₂ (by simp), fun k hk ↦ (hd k hk).mono h₂⟩

theorem dumped_pure (h : d'.out.keys = d.out.keys) :
    Triple (Dumped C network ks d) (pure d' : M DumpState) (Dumped C network ks)
      fun _ _ ↦ True := by
  refine Triple.pure ?_
  rintro s ⟨ks₁, h₁, hg, hd⟩
  exact ⟨ks₁, h₁, hg, fun k hk ↦ hd k (h ▸ hk)⟩

theorem dumped_keyLine (w : List Char) (rest : List (List Char)) :
    Triple (Dumped C network ks d) (importKeyLine C d w rest) (Dumped C network ks)
      fun _ _ ↦ True := by
  refine Triple.bind (dumped_moves ends_core) fun c ↦ ?_
  split
  · exact dumped_pure rfl
  · rename_i sk hsk
    refine Triple.bind (dumped_moves (quiet_orHalt _ _ _).ends) fun label ↦ ?_
    rintro s ⟨ks₁, h₁, hg, hd⟩
    refine ⟨?_, fun _ _ _ ↦ trivial⟩
    intro out s' h
    obtain ⟨x, t, hx, h⟩ := Proc.bind_eq_ok.mp h
    rcases @addImported_cases _ _ _ _ sk hg with ⟨n, new, ks₂, t', ha, h₂, hg₂, hn⟩ |
      ⟨e, t', ha, hg₂⟩ | ⟨ks₂, t', ha, -⟩
    · rw [ha] at hx
      cases hx
      cases h
      refine ⟨ks₂, h₁.trans h₂, hg₂, ?_⟩
      intro k hk
      rcases List.mem_append.mp hk with hk | hk
      · exact (hd k hk).mono h₂
      · obtain rfl := List.mem_singleton.mp hk
        exact ⟨sk, hn, rfl, by simp⟩
    · rw [ha] at hx
      cases hx
      cases h
      exact ⟨ks₁, h₁, hg₂, hd⟩
    · rw [ha] at hx
      cases hx

theorem dumped_pqLine (body : List Char) :
    Triple (Dumped C network ks d) (importPqLine C d body) (Dumped C network ks)
      fun _ _ ↦ True := by
  unfold importPqLine
  split
  · exact dumped_pure rfl
  · refine Triple.bind (dumped_moves (ends_catchRefused (ends_addPq C _ _ _))) fun x ↦ ?_
    cases x with
    | ok k => exact dumped_pure rfl
    | error e => exact dumped_pure rfl

theorem dumped_secretLine (L : Sapling.Lib) (zkeys : Bool) (w : List Char)
    (rest : List (List Char)) :
    Triple (Dumped C network ks d) (importSecretLine C L zkeys d w rest) (Dumped C network ks)
      fun _ _ ↦ True := by
  refine Triple.bind (dumped_moves ends_core) fun c ↦ Triple.ite (fun _ ↦ ?_) fun _ ↦ ?_
  · refine Triple.bind (dumped_moves (ends_core.bind fun _ ↦ .pure _)) fun own ↦ ?_
    cases own with
    | true => exact dumped_pure rfl
    | false => exact dumped_pure rfl
  · split
    · exact dumped_pqLine _
    · exact dumped_keyLine _ _

theorem dumped_line (L : Sapling.Lib) (zkeys : Bool) (line : List Char) :
    Triple (Dumped C network ks d) (importLine C L zkeys d line) (Dumped C network ks)
      fun _ _ ↦ True := by
  refine Triple.ite (fun _ ↦ dumped_pure rfl) fun _ ↦ ?_
  split
  · exact dumped_pure rfl
  · refine Triple.ite (fun _ ↦ dumped_pure rfl) fun _ ↦ ?_
    split
    · split
      · exact dumped_pure rfl
      · exact Triple.throw fun _ _ ↦ trivial
    · split
      · refine dumped_pure ?_
        cases buildOfDump _ <;> rfl
      · refine dumped_pure ?_
        cases recipientOfDump _ <;> rfl
      · exact Triple.ite (fun _ ↦ dumped_pure rfl) fun _ ↦ dumped_secretLine L zkeys _ _

theorem dumped_lines (L : Sapling.Lib) (zkeys : Bool) (ls : List (List Char)) :
    Triple (Dumped C network ks d) (importLines C L zkeys d ls) (Dumped C network ks)
      fun _ _ ↦ True := by
  induction ls generalizing d with
  | nil => exact dumped_pure rfl
  | cons l ls ih => exact Triple.bind (dumped_line L zkeys l) fun d' ↦ ih

end

/-- An import that is answered: the key is in the directory, at the index returned. -/
theorem importKey_eq_ok {r : ImportKeyRequest} {out : ImportedKey}
    (hg : KeysGood C network s.core s.disk ks) (h : importKey C r s = (.ok out, s')) :
    ∃ ks', ks <+: ks' ∧ KeysGood C network s'.core s'.disk ks' ∧
      (⟨out.index, out.pubkey, (decodeWif C network (Text.trim r.wif)).toOption⟩ : KeyFact).In C
        ks' := by
  unfold importKey at h
  obtain ⟨k, -, h⟩ := quiet_keys.bind_eq_ok h
  obtain ⟨c, hc, h⟩ := quiet_core.bind_eq_ok h
  cases hc
  obtain ⟨sk, hsk, h⟩ := (quiet_orRefuse _ _ _).bind_eq_ok h
  have hwif := (orRefuse_eq_ok.mp hsk).1
  rw [hg.network] at hwif
  obtain ⟨x, t, hx, h⟩ := Proc.bind_eq_ok.mp h
  obtain ⟨⟨index, new⟩, hy, hend⟩ := (quiet_orRefuse _ _ _).bind_eq_ok h
  have hxok := (orRefuse_eq_ok.mp hy).1
  clear h
  rcases @addImported_cases _ _ _ _ sk hg with ⟨n, new', ks₁, t', ha, h₁, hg₁, hn⟩ |
    ⟨e, t', ha, -⟩ | ⟨ks₁, t', ha, -⟩
  · rw [ha] at hx
    cases hx
    cases hxok
    have hin : (⟨index, Imported.hexPub (C.publicKey sk), some sk⟩ : KeyFact).In C ks₁ :=
      ⟨sk, hn, rfl, fun k hk ↦ (Option.some.inj hk).symm⟩
    have hmark : Ends (KeyMoves C network) (markImported C (C.publicKey sk) r.members) :=
      ends_markImported C _ _
    dsimp only at hend
    rw [hwif]
    split at hend
    · obtain ⟨_, t₂, hm, hend⟩ := Proc.bind_eq_ok.mp hend
      cases hend
      have hR := hmark t
      rw [hm] at hR
      obtain ⟨ks₂, h₂, -, hg₂⟩ := hR ks₁ hg₁
      exact ⟨ks₂, h₁.trans h₂, hg₂ (by simp [stopOf]), hin.mono h₂⟩
    · cases hend
      exact ⟨ks₁, h₁, hg₁, hin⟩
  · rw [ha] at hx
    cases hx
    cases hxok
  · rw [ha] at hx
    cases hx

/-- The same of a dump: every key it lists. -/
theorem importDump_eq_ok {L : Sapling.Lib} {r : ImportDumpRequest} {out : ImportDumpResult}
    (hg : KeysGood C network s.core s.disk ks) (h : importDump C L r s = (.ok out, s')) :
    ∃ ks', ks <+: ks' ∧ KeysGood C network s'.core s'.disk ks' ∧
      ∀ k ∈ out.keys, (⟨k.1.index, k.1.pubkey, none⟩ : KeyFact).In C ks' := by
  unfold importDump at h
  obtain ⟨k, -, h⟩ := quiet_keys.bind_eq_ok h
  obtain ⟨s₀, hs₀, h⟩ := (Proc.Quiet.get (R := Idle)).bind_eq_ok h
  obtain ⟨text, -, h⟩ := (quiet_orElse _ _ _).bind_eq_ok h
  obtain ⟨d, t, hd, h⟩ := Proc.bind_eq_ok.mp h
  obtain ⟨marks, t₁, hm, h⟩ := Proc.bind_eq_ok.mp h
  obtain ⟨records, t₂, hr, h⟩ := Proc.bind_eq_ok.mp h
  have hstart : Dumped C network ks .empty s := ⟨ks, List.prefix_refl _, hg, by
    intro k hk
    cases hk⟩
  have h₁ := (dumped_lines L r.zkeys (lines text.toList) s hstart).1 d t hd
  have h₂ := (dumped_moves (.forEach (ends_markDumped C r.members) d.out.keys) t h₁).1 marks t₁ hm
  have hrec : Ends (KeyMoves C network) (importDumped d.records) :=
    .ite (.pure _) <| (ends_importRecords (KeysSame.ends (keysSame_importOnce _))).bind fun _ ↦
      .pure _
  have h₃ := (dumped_moves hrec t₁ h₂).1 records t₂ hr
  split at h
  · simp at h
  · cases h
    exact h₃

/-! ## Worlds -/

/-- The directory's file of imported keys is whole, and the process, if one runs, goes with it. -/
structure World.KeysGood (C : Crypto) (network : Network) (w : World) : Prop where
  file : w.disk.Stores C w.disk.stored
  core : ∀ c, w.core = some c → Signer.KeysGood C network c w.disk w.disk.stored

theorem World.KeysGood.of {w : World} (hs : w.disk.Stores C ks)
    (hc : ∀ c, w.core = some c → Signer.KeysGood C network c w.disk ks) :
    w.KeysGood C network := by
  have h := hs.stored_eq
  exact ⟨h ▸ hs, fun c hcore ↦ h ▸ hc c hcore⟩

/-- An unlock finds in memory the seal of the directory's keys, and a process that starts on sealed
keys starts on a sealed seed. -/
def Unstale (w : World) : Event → Prop
  | .request _ _ _ (.unlock _) => ∀ c, w.core = some c → SealFresh c w.disk
  | .request _ _ _ _ => True
  | .restart _ _ => ∀ f b, w.disk.imported = some f → f.sealed = some b → b.plain ≠ [] →
      ∃ g, w.disk.seed = some g ∧ g.sealed.isSome

theorem load_keysFile (p : Option String) :
    Imported.load C (some (keysFile C ks p)) = .ok ⟨if p.isSome then [] else ks,
      ks.map C.publicKey, p.map fun p ↦ ⟨p, ks.map Imported.hexKey⟩, none⟩ := by
  cases p with
  | none => simp [Imported.load, keysFile, bind, Except.bind]
  | some p =>
    have hkeys : Imported.parseKeys [] = .ok [] := rfl
    have hpubs : ((ks.map C.publicKey).map Imported.hexPub).mapM Imported.parsePub =
        .ok (ks.map C.publicKey) := Imported.mapM_parsePub_hexPub _
    simp only [Imported.load, keysFile, ne_eq, not_true, if_false, hkeys, bind, Except.bind,
      Option.isSome_some, if_true, hpubs, Option.map_some]

/-- A process over sealed keys and a sealed seed starts locked. -/
theorem keys_of_sealed {c : Core} {d d' : Disk} {w₁ w₂ : WriteOutcome} {g : SeedFile}
    (ho : Opened C network w₁ w₂ d c d') (hg : d.seed = some g) (hs : g.sealed.isSome) :
    c.ks.encrypted = true ∧ c.keys = none := by
  have hload := ho.seed
  rw [hg, Keystore.load] at hload
  obtain ⟨-, hload⟩ := Result.guard_eq_ok.mp hload
  obtain ⟨-, hload⟩ := Result.guard_eq_ok.mp hload
  rw [if_pos hs] at hload
  have hks := (Except.ok.inj hload).symm
  have hkeys := ho.keys
  rw [hks, startKeys] at hkeys
  refine ⟨by rw [hks]; exact hs, ?_⟩
  dsimp only at hkeys
  cases hcache : publicFromCache d ⟨[]⟩ with
  | error e =>
    rw [hcache] at hkeys
    cases hkeys
  | ok b =>
    rw [hcache] at hkeys
    exact (Prod.mk.inj (Except.ok.inj hkeys)).1.symm

theorem openSigner_keysGood {c : Core} {d d' : Disk} {w₁ w₂ : WriteOutcome}
    (hs : d.Stores C ks) (hsealed : ∀ f b, d.imported = some f → f.sealed = some b → b.plain ≠ [] →
      ∃ g, d.seed = some g ∧ g.sealed.isSome)
    (h : openSigner C network w₁ w₂ d = (.ok c, d')) : KeysGood C network c d' ks := by
  have ho := openSigner_eq_ok C h
  have hfiles := openSigner_keyFiles C network w₁ w₂ d
  rw [h] at hfiles
  obtain ⟨-, himported, -⟩ := hfiles
  dsimp only at himported
  have hload : Imported.load C d.imported = .ok c.imported := by
    obtain ⟨i, hi, hrest⟩ := Result.bind_eq_ok.mp ho.stores
    obtain ⟨q, -, hrest⟩ := Result.bind_eq_ok.mp hrest
    cases hrest
    rw [← himported]
    exact hi
  have hfile : d'.Stores C ks := by
    rw [Disk.Stores, himported]
    exact hs
  rcases hs with ⟨hnone, rfl⟩ | ⟨p, hp⟩
  · rw [hnone] at hload
    have hi := Except.ok.inj hload
    exact ⟨hfile, ho.chain, by rw [← hi]; rfl, .inl (by rw [← hi]), fun _ ↦ by rw [← hi]⟩
  · rw [hp, load_keysFile] at hload
    have hi := Except.ok.inj hload
    refine ⟨hfile, ho.chain, by rw [← hi], ?_, ?_⟩
    · rw [← hi]
      cases p with
      | none => exact .inl rfl
      | some p => exact .inr ⟨rfl, rfl, rfl⟩
    · intro hopen
      rw [← hi]
      cases p with
      | none => rfl
      | some p =>
        cases ks with
        | nil => rfl
        | cons k ks =>
          obtain ⟨g, hg, hgs⟩ := hsealed _ _ hp rfl (by simp)
          obtain ⟨henc, hkeys⟩ := keys_of_sealed ho hg hgs
          rcases hopen with hopen | hopen
          · rw [henc] at hopen
            cases hopen
          · rw [hkeys] at hopen
            cases hopen

variable (C) (L : Sapling.Lib) (network)

theorem keyMoves_handle {r : Request} (version : UInt32)
    (hfresh : ∀ x, r = .unlock x → SealFresh s.core s.disk) :
    KeyMoves C network (stopOf (handle C L version r s).1) s (handle C L version r s).2 := by
  by_cases hr : ∃ x, r = .unlock x
  · obtain ⟨x, rfl⟩ := hr
    unfold handle
    split
    · exact ends_no (R := KeyMoves C network) _ _ s
    · refine Ends.bind_at (R := KeyMoves C network) (x := unlock C x) ?_ fun _ ↦ .pure _
      intro ks hg
      have hgood := unlock_good (r := x) hg (hfresh x rfl)
      exact ⟨ks, List.prefix_refl _, hgood.file, fun _ ↦ hgood⟩
  · exact ends_handle_of_keys (R := KeyMoves C network) C L ends_addImported version r
      (fun x _ ↦ ends_encrypt L x) (fun x hx ↦ absurd ⟨x, hx⟩ hr) s

theorem survives_of_ok {x : Except Stop Response} {c c' : Core} (h : survives x c = some c') :
    stopOf x ≠ some .crash := by
  rintro hstop
  cases x with
  | ok a => cases hstop
  | error e =>
    cases hstop
    cases h

theorem World.keysGood_step {w : World} (hw : w.KeysGood C network) {e : Event}
    (he : Unstale w e) : (w.step C L network e).2.KeysGood C network ∧
      w.disk.stored <+: (w.step C L network e).2.disk.stored := by
  cases e with
  | request env writes version r =>
    cases hc : w.core with
    | none =>
      have hstep : (w.step C L network (.request env writes version r)).2 = w := by
        simp [World.step, hc]
      rw [hstep]
      exact ⟨hw, List.prefix_refl _⟩
    | some c =>
      have hfresh : ∀ x, r = .unlock x → SealFresh c w.disk := by
        rintro x rfl
        exact he c hc
      obtain ⟨ks', hk, hs, hg⟩ := keyMoves_handle C network L (s := startSt c w.disk env writes)
        version hfresh w.disk.stored (hw.core c hc)
      simp only [World.step, hc]
      refine ⟨.of hs ?_, hs.stored_eq ▸ hk⟩
      intro c' hc'
      rw [eq_of_survives hc']
      exact hg (survives_of_ok hc')
  | restart w₁ w₂ =>
    have himported : (openSigner C network w₁ w₂ w.disk).2.imported = w.disk.imported :=
      (openSigner_keyFiles C network w₁ w₂ w.disk).2.1
    have hs : (openSigner C network w₁ w₂ w.disk).2.Stores C w.disk.stored := by
      rw [Disk.Stores, himported]
      exact hw.file
    refine ⟨(@World.KeysGood.of _ _ w.disk.stored _) hs ?_, ?_⟩
    · intro c hc
      cases hx : (openSigner C network w₁ w₂ w.disk).1 with
      | error e => simp [World.step, hx, Except.toOption] at hc
      | ok c' =>
        simp only [World.step, hx, Except.toOption, Option.some.injEq] at hc
        subst hc
        exact openSigner_keysGood hw.file he (Prod.ext hx rfl)
    · change w.disk.stored <+: (openSigner C network w₁ w₂ w.disk).2.stored
      exact hs.stored_eq ▸ List.prefix_refl _

/-! ## Imports of a run -/

/-- The keys an answer acknowledges. -/
def keyFacts : Event × Answer → Option (List KeyFact)
  | (.request _ _ _ (.importKey r), .response (.importedKey k)) =>
    some [⟨k.index, k.pubkey, (decodeWif C network (Text.trim r.wif)).toOption⟩]
  | (.request _ _ _ (.importDump _), .response (.importedDump out)) =>
    some (out.keys.map fun k ↦ ⟨k.1.index, k.1.pubkey, none⟩)
  | _ => none

theorem keyFacts_step {w : World} (hw : w.KeysGood C network) {e : Event} {as : List KeyFact}
    (h : keyFacts C network (e, (w.step C L network e).1) = some as) :
    ∀ a ∈ as, a.In C (w.step C L network e).2.disk.stored := by
  generalize hx : (e, (w.step C L network e).1) = x at h
  unfold keyFacts at h
  split at h
  · rename_i env writes version r k
    obtain ⟨rfl, hans⟩ := Prod.mk.inj hx
    cases h
    obtain ⟨c, s', hc, hok, hstep⟩ := World.step_eq_response C L (by simp) hans
    obtain ⟨out, t, hout, hret⟩ := Proc.bind_eq_ok.mp hok
    cases hret
    obtain ⟨ks', -, hg, hin⟩ := importKey_eq_ok (s := startSt c w.disk env writes) (hw.core c hc) hout
    rw [hstep]
    intro a ha
    obtain rfl := List.mem_singleton.mp ha
    exact hg.file.stored_eq ▸ hin
  · rename_i env writes version r out
    obtain ⟨rfl, hans⟩ := Prod.mk.inj hx
    cases h
    obtain ⟨c, s', hc, hok, hstep⟩ := World.step_eq_response C L (by simp) hans
    obtain ⟨out, t, hout, hret⟩ := Proc.bind_eq_ok.mp hok
    cases hret
    obtain ⟨ks', -, hg, hin⟩ := importDump_eq_ok (s := startSt c w.disk env writes) (hw.core c hc)
      hout
    rw [hstep]
    intro a ha
    obtain ⟨k, hk, rfl⟩ := List.mem_map.mp ha
    exact hg.file.stored_eq ▸ hin k hk
  · cases h

/-- The last event was an unlock that was answered. -/
def JustUnlocked (h : List (Event × Answer)) : Prop :=
  ∃ env writes version r a h',
    h = (.request env writes version (.unlock r), .response (.walletState a)) :: h'

theorem keys_of_justUnlocked {seed : SeedFile} {h : List (Event × Answer)} {w : World} {c : Core}
    (t : Trace (World.step C L network) Unstale (World.start seed) h w) (hc : w.core = some c)
    (hj : JustUnlocked h) : c.keys.isSome := by
  obtain ⟨env, writes, version, r, a, h', rfl⟩ := hj
  obtain ⟨w₀, t₀, -, hstep⟩ := t.last
  obtain ⟨c₀, s', -, hok, hw⟩ := (@World.step_eq_response C L network w₀ env writes
    version (.unlock r) (.walletState a)) (by simp) (by rw [hstep])
  rw [hstep] at hw
  obtain ⟨out, s₁, hout, hret⟩ := Proc.bind_eq_ok.mp hok
  cases hret
  have hcore : c = s'.core := by
    rw [show w = ⟨some s'.core, s'.disk⟩ from hw] at hc
    exact (Option.some.inj hc).symm
  rw [hcore]
  rcases unlock_cases C r (startSt c₀ w₀.disk env writes) with ⟨e, h⟩ | ⟨-, ⟨e, h⟩ | ⟨e, h⟩ |
    ⟨i, -, ⟨e, h⟩ | ⟨b, k, till, h⟩⟩⟩
  all_goals
    rw [h] at hout
    cases hout
  rfl

/-- The key is held at its index, and its public key is the one listed there. -/
def Core.Holds (C : Crypto) (c : Core) (a : KeyFact) : Prop :=
  ∃ sk, c.imported.keys[a.index]? = some sk ∧ c.imported.pubs[a.index]? = some (C.publicKey sk) ∧
    Imported.hexPub (C.publicKey sk) = a.pubkey ∧ ∀ k, a.secret = some k → k = sk

theorem KeysGood.holds {c : Core} {d : Disk} {a : KeyFact} (hg : KeysGood C network c d ks)
    (hkeys : c.imported.keys = ks) (ha : a.In C ks) : c.Holds C a := by
  obtain ⟨sk, hsk, hrest⟩ := ha
  refine ⟨sk, by rw [hkeys, hsk], ?_, hrest⟩
  rw [hg.pubs, List.getElem?_map, hsk]
  rfl

/-- **Imported keys are kept.**  However writes fail: in a run in which every unlock finds in memory
the seal of the directory's keys, and no process starts on sealed keys under a seed in clear, every
key whose import was acknowledged is held at its index, beside its public key, whenever the wallet
is in clear or was just unlocked. -/
theorem imports_held {seed : SeedFile} {h : List (Event × Answer)} {w : World} {c : Core}
    (t : Trace (World.step C L network) Unstale (World.start seed) h w) (hc : w.core = some c)
    (hopen : c.ks.encrypted = false ∨ JustUnlocked h) :
    ∀ x ∈ h, ∀ as, keyFacts C network x = some as → ∀ a ∈ as, c.Holds C a := by
  have hstart : (World.start seed).KeysGood C network :=
    ⟨.inl ⟨rfl, rfl⟩, fun c hc ↦ nomatch hc⟩
  have hgood : w.KeysGood C network :=
    (@Trace.invariant _ _ _ _ _ _ _ _ (fun _ w ↦ w.KeysGood C network) t) hstart
    fun _ w e hw he ↦ (World.keysGood_step C network L hw he).1
  obtain ⟨hheld, -⟩ := (@Trace.held_and_agree _ _ _ _ _ _ _ _ _ (World.KeysGood C network)
    (keyFacts C network) (fun w as ↦ ∀ a ∈ as, a.In C w.disk.stored)
    (fun _ _ ↦ True) t) hstart
    (fun w e hw he ↦ (World.keysGood_step C network L hw he).1)
    (fun w e as hw he h a ha ↦ (h a ha).mono (World.keysGood_step C network L hw he).2)
    fun w e as hw _ hfact ↦ ⟨keyFacts_step C network L hw hfact, fun _ _ ↦ trivial⟩
  have hkeys : c.imported.keys = w.disk.stored := by
    refine (hgood.core c hc).held ?_
    rcases hopen with henc | hjust
    · exact .inl henc
    · exact .inr (keys_of_justUnlocked C network L t hc hjust)
  exact fun x hx as has a ha ↦ (hgood.core c hc).holds C network hkeys (hheld x hx as has a ha)

end

/-! ## One key through an encryption -/

/-- The text of a key of the sample network. -/
def sampleWif : String :=
  base58checkEncode sampleCrypto (Network.regtest.wifPrefix :: (List.replicate 32 1 ++ [0x01]))

/-- Its import, the encryption of the wallet, and its unlock. -/
def sampleImport : Event := .request sampleEnv [] protoVersion (.importKey ⟨sampleWif, none⟩)

@[inherit_doc sampleImport]
def sampleEncrypt : Event := .request sampleEnv [] protoVersion (.encrypt ⟨"p", []⟩)

@[inherit_doc sampleImport]
def sampleOpen : Event := .request sampleEnv [] protoVersion (.unlock ⟨"p", 60⟩)

/-- What the import was answered with. -/
def sampleKeyFact : KeyFact :=
  ⟨0, Hex.encode (2 :: List.replicate 32 0), (decodeWif sampleCrypto .regtest sampleWif).toOption⟩

/-- The answer of an unlock. -/
def Answer.isUnlocked : Answer → Bool
  | .response (.walletState _) => true
  | _ => false

theorem justUnlocked_concat {es : List Event}
    (h : (World.step sampleCrypto .blank .regtest (sampleRun es).2 sampleOpen).1.isUnlocked) :
    JustUnlocked (sampleRun (es ++ [sampleOpen])).1 := by
  rw [sampleRun, Trace.run_concat]
  change JustUnlocked ((sampleOpen,
    (World.step sampleCrypto .blank .regtest (sampleRun es).2 sampleOpen).1) :: _)
  unfold Answer.isUnlocked at h
  split at h
  · rename_i a ha
    rw [ha]
    exact ⟨_, _, _, _, a, _, rfl⟩
  · cases h

/-- An import, an encryption and an unlock, in one process. -/
def staleSeal : List Event := [.restart .done .done, sampleImport, sampleEncrypt]

theorem not_held_staleSeal :
    JustUnlocked (sampleRun (staleSeal ++ [sampleOpen])).1 ∧
      (sampleRun (staleSeal ++ [sampleOpen])).1.filterMap (keyFacts sampleCrypto .regtest) =
        [[sampleKeyFact]] ∧
      ∃ c, (sampleRun (staleSeal ++ [sampleOpen])).2.core = some c ∧
        ¬ c.Holds sampleCrypto sampleKeyFact := by
  refine ⟨justUnlocked_concat (by decide +kernel), by decide +kernel, ?_⟩
  have hkeys : (sampleRun (staleSeal ++ [sampleOpen])).2.core.map (·.imported.keys) = some [] := by
    decide +kernel
  obtain ⟨c, hc, hk⟩ := Option.map_eq_some_iff.mp hkeys
  refine ⟨c, hc, ?_⟩
  rintro ⟨sk, hsk, -⟩
  rw [hk] at hsk
  cases hsk

/-- The same with a restart before the unlock. -/
def freshSeal : List Event := staleSeal ++ [.restart .done .done]

theorem imports_held_freshSeal :
    (sampleRun (freshSeal ++ [sampleOpen])).1.filterMap (keyFacts sampleCrypto .regtest) =
        [[sampleKeyFact]] ∧
      ∃ c, (sampleRun (freshSeal ++ [sampleOpen])).2.core = some c ∧
        c.Holds sampleCrypto sampleKeyFact := by
  have hfacts : (sampleRun (freshSeal ++ [sampleOpen])).1.filterMap
      (keyFacts sampleCrypto .regtest) = [[sampleKeyFact]] := by decide +kernel
  have hcore : (sampleRun (freshSeal ++ [sampleOpen])).2.core.isSome := by decide +kernel
  obtain ⟨c, hc⟩ := Option.isSome_iff_exists.mp hcore
  have hseed : (sampleRun staleSeal).2.disk.seed.any (·.sealed.isSome) := by decide +kernel
  have hseal : (sampleRun freshSeal).2.core.all fun c ↦ c.imported.sealed.all fun b ↦
      decide (Imported.parseKeys b.plain = .ok (sampleRun freshSeal).2.disk.stored) := by
    decide +kernel
  have hguard : Trace.Guarded (World.step sampleCrypto .blank .regtest) Unstale
      (World.start sampleSeed) (freshSeal ++ [sampleOpen]) := by
    refine ⟨?_, trivial, trivial, ?_, ?_, trivial⟩
    · intro f b hf
      cases hf
    · show ∀ f b, (sampleRun staleSeal).2.disk.imported = some f → f.sealed = some b → b.plain ≠ [] →
        ∃ g, (sampleRun staleSeal).2.disk.seed = some g ∧ g.sealed.isSome
      intro f b _ _ _
      obtain ⟨g, hg, hs⟩ := (Option.any_eq_true _ _).mp hseed
      exact ⟨g, hg, hs⟩
    · show ∀ c, (sampleRun freshSeal).2.core = some c → SealFresh c (sampleRun freshSeal).2.disk
      intro c hc b hb
      rw [hc, Option.all_some, hb, Option.all_some] at hseal
      exact of_decide_eq_true hseal
  refine ⟨hfacts, c, hc, ?_⟩
  obtain ⟨x, hx, hfx⟩ := List.mem_filterMap.mp (hfacts ▸ List.mem_singleton.mpr rfl)
  exact imports_held sampleCrypto .regtest .blank (Trace.trace_run hguard) hc
    (.inr (justUnlocked_concat (by decide +kernel))) x hx _ hfx _ List.mem_cons_self

end Yew.Signer
