import Yew.Core.Sapling
import Yew.Signer.SignOnce
import Yew.Signer.Stores

/-!
# Keys, locking and the public bundle

Every request that needs a secret asks for it here.  An unlock lasts until a time; the first
request behind that time locks the wallet again.  A request that gets its keys has changed nothing
(`keys_eq_ok`), and one that only asks for keys can do no more than lock (`Idle`).

The time is that of the request's environment.

## Source

* `yewd/signer/src/sign.rs`: `Keys`, `derive_keys`, `Derived`, `SignerCore::enc_state`,
  `SignerCore::do_lock`, `SignerCore::keys`, `SignerCore::encrypt`, `SignerCore::unlock` and 4 more
* `yewd/signer/src/lib.rs`: `Keystore::encrypt`, `Keystore::public`, `read_public_cache`,
  `public_from_seed`, `seed_fingerprint`
* `yewd/signer/src/imported.rs`: `Imported::encrypt`
-/

namespace Yew.Signer

open Tx Keys Proto

/-! ## Derivation from the seed -/

section Seed

variable (C : Crypto) (L : Sapling.Lib)

/-- `m/44'/347'/0'`. -/
def accountPath : List UInt32 := [44 ||| hardened, 347 ||| hardened, 0 ||| hardened]

/-- The account node of a BIP39 seed. -/
def accountOf (seed : Bytes) : Except String ExtendedPrivKey :=
  match ExtendedPrivKey.master C seed with
  | none => .error "bip32 derivation produced an invalid key at index 0"
  | some master => master.derive C accountPath

/-- `seed_fingerprint`. -/
def seedFingerprint (seed : Bytes) : Arr 32 :=
  C.blake2b256 (person "Zcash_HD_Seed_FP") (UInt8.ofNat seed.length :: seed)

/-- `derive_keys`. -/
def deriveKeys (phrase : String) : Except String (Keyring × String) := do
  let seed ← C.seedFromMnemonic phrase
  let account ← accountOf C seed.toList
  return (⟨account, pqSeedRoot C seed.toList⟩, Hex.encode (seedFingerprint C seed.toList).toList)

/-- `MAX_PQ_PER_REQUEST`. -/
def maxPqPerRequest : Nat := 1000

/-- The indices of a range: `from..from.saturating_add(count)`. -/
def pqRange (start count : UInt32) : List Nat :=
  List.range' start.toNat (min (start.toNat + count.toNat) (2 ^ 32 - 1) - start.toNat)

/-- The public key at one index of the seed's post-quantum tree. -/
def pqPublicAt (root : Arr 32) (scheme : UInt8) (index : Nat) : Except String PqPublic :=
  match PqKey.fromSeed C scheme (pqDerive C root scheme (UInt32.ofNat index)).toList with
  | .error e =>
    .error ("yewd-signer: scheme " ++ Text.decimal scheme.toNat ++ ": " ++ e.text)
  | .ok key => .ok ⟨scheme, index, Hex.encode key.pk⟩

/-- The public keys of the ranges asked for, no more than a request may derive. -/
def pqPublics (root : Arr 32) : Nat → List (UInt8 × UInt32 × UInt32) →
    Except String (List PqPublic)
  | _, [] => .ok []
  | total, (scheme, start, count) :: rs =>
    let total := min (total + count.toNat) (2 ^ 32 - 1)
    if total > maxPqPerRequest then
      .error "yewd-signer: at most 1000 post-quantum keys per request"
    else do
      let ks ← (pqRange start count).mapM (pqPublicAt C root scheme)
      let rest ← pqPublics root total rs
      return ks ++ rest

/-- `public_from_seed`. -/
def publicFromSeed (network : Network) (seed : Bytes) (req : PublicRequest) :
    Except String PublicBundle := do
  let account ← accountOf C seed
  let dfvk ← match L.viewingKey network seed with
    | .ok k => .ok k
    | .error e => .error ("yewd-signer: sapling: " ++ e)
  let pq ← pqPublics C (pqSeedRoot C seed) 0 req.pq
  return {
    format := publicFormat
    network := network.chainName
    seedFp := Hex.encode (seedFingerprint C seed).toList
    account := ⟨Hex.encode (C.publicKey account.key).toList, Hex.encode account.chainCode.toList⟩
    saplingDfvk := Hex.encode dfvk
    pq
    imported := [] }

end Seed

/-! ## The public bundle -/

/-- `read_public_cache`. -/
def readPublicCache (d : Disk) : Except String PublicBundle :=
  match d.publicCache with
  | none => .error "yewd-signer: public.json: No such file or directory (os error 2)"
  | some b => .ok b

/-- The keys of a range in a cache, or the refusal of a locked wallet. -/
def cachedPq (cache : PublicBundle) (r : UInt8 × UInt32 × UInt32) : Except String (List PqPublic) :=
  (pqRange r.2.1 r.2.2).mapM fun index ↦
    match cache.pq.find? fun k ↦ k.scheme = r.1 ∧ k.index = index with
    | some k => .ok k
    | none => .error lockedText

/-- `Keystore::public` of a locked wallet: the cache, with the keys asked for. -/
def publicFromCache (d : Disk) (req : PublicRequest) : Except String PublicBundle := do
  let cache ← readPublicCache d
  let pq ← req.pq.mapM (cachedPq cache)
  return { cache with pq := pq.flatten }

/-- The cache with the keys it lacked, if there are any. -/
def growCache (cache : PublicBundle) (new : List PqPublic) : Option PublicBundle :=
  let pq := new.foldl
    (fun pq k ↦ if pq.any fun c ↦ c.scheme = k.scheme && c.index = k.index then pq else pq ++ [k])
    cache.pq
  if pq.length = cache.pq.length then none else some { cache with pq }

section

variable (C : Crypto) (L : Sapling.Lib)

/-- `Keystore::public`: from the cache while locked, from the seed otherwise; an encrypted
wallet's cache grows by what was derived, and a failure to write it is ignored. -/
def publicOf (req : PublicRequest) : M (Except String PublicBundle) := do
  let s ← Proc.get
  match s.core.ks.mnemonic with
  | none => return publicFromCache s.disk req
  | some phrase =>
    match C.seedFromMnemonic phrase with
    | .error e => return .error ("yewd-signer: " ++ e)
    | .ok seed =>
      match publicFromSeed C L s.core.ks.network seed.toList req with
      | .error e => return .error e
      | .ok b =>
        match s.core.ks.sealed, s.disk.publicCache.bind (growCache · b.pq) with
        | some _, some cache =>
          let _ ← writePublicCache cache
          return .ok b
        | _, _ => return .ok b

end

/-! ## Locking -/

/-- `do_lock`, on the signer in memory. -/
def Core.locked (c : Core) : Core :=
  { c with keys := none, ks := c.ks.lock, imported := c.imported.lock, unlockedUntil := 0 }

/-- `do_lock`. -/
def doLock : M Unit := modifyCore Core.locked

/-- `enc_state`: whether the wallet is encrypted and until when it is unlocked.  An unlock past
its time is undone here. -/
def encState : M (Bool × Int) := do
  let c ← core
  let t ← now
  if !c.ks.encrypted then return (false, 0)
  else if c.unlockedUntil ≠ 0 ∧ c.unlockedUntil ≤ t then
    doLock
    return (true, 0)
  else return (true, c.unlockedUntil)

/-- `keys`: the derived keys, or the refusal of a locked wallet. -/
def keys : M Keyring := do
  let (encrypted, till) ← encState
  match (← core).keys with
  | none => no Refuse.locked lockedText
  | some k => if encrypted ∧ till = 0 then no Refuse.locked lockedText else return k

/-! ## What asking for keys does

`Idle` is all that can happen to the state while a request only asks for keys: the wallet locks
itself when its time is over. -/

@[simp] theorem Keystore.lock_lock (k : Keystore) : k.lock.lock = k.lock := by
  unfold Keystore.lock
  split <;> simp_all

@[simp] theorem Keystore.encrypted_lock (k : Keystore) : k.lock.encrypted = k.encrypted := by
  unfold Keystore.lock Keystore.encrypted
  split <;> rfl

@[simp] theorem Keystore.encrypted_unlock (pass : String) (k : Keystore) :
    (k.unlock pass).2.encrypted = k.encrypted := by
  unfold Keystore.unlock Keystore.encrypted
  split
  · rfl
  · split <;> rfl

@[simp] theorem Imported.lock_lock (i : Imported) : i.lock.lock = i.lock := by
  unfold Imported.lock
  split <;> simp_all

@[simp] theorem Core.locked_locked (c : Core) : c.locked.locked = c.locked := by
  simp [Core.locked]

/-- The state is as it was, but an encrypted wallet may have locked itself. -/
structure Idle (s s' : St) : Prop where
  disk : s'.disk = s.disk
  env : s'.env = s.env
  writes : s'.writes = s.writes
  core : s'.core = s.core ∨ s.core.ks.encrypted ∧ s'.core = s.core.locked

instance : Proc.Path Idle where
  refl _ := ⟨rfl, rfl, rfl, .inl rfl⟩
  trans {a b c} hab hbc := by
    refine ⟨hbc.disk.trans hab.disk, hbc.env.trans hab.env, hbc.writes.trans hab.writes, ?_⟩
    rcases hab.core with hb | ⟨he, hb⟩
    · rw [← hb]
      exact hbc.core
    · rcases hbc.core with hc | ⟨-, hc⟩
      · exact .inr ⟨he, hc.trans hb⟩
      · exact .inr ⟨he, by rw [hc, hb, Core.locked_locked]⟩

/-- A procedure that only reads, apart from the wallet locking itself. -/
abbrev Quiet {α : Type} (x : M α) : Prop := Proc.Quiet Idle x

section Rules

variable {α β : Type}

theorem quiet_no (code reason : String) : Quiet (no code reason : M α) := .throw _

theorem quiet_orRefuse (code : String) (text : String → String) (x : Except String α) :
    Quiet (orRefuse code text x) := .lift _

theorem quiet_orHalt (code : String) (text : String → String) (x : Except (Halt String) α) :
    Quiet (orHalt code text x) := .lift _

theorem quiet_orElse (code reason : String) (x : Option α) : Quiet (orElse code reason x) :=
  .lift _

theorem quiet_core : Quiet core := .of_eq fun _ ↦ rfl

theorem quiet_now : Quiet now := .of_eq fun _ ↦ rfl

theorem orRefuse_eq_ok {code : String} {text : String → String} {x : Except String α} {s s' : St}
    {a : α} : orRefuse code text x s = (.ok a, s') ↔ x = .ok a ∧ s' = s := by
  cases x <;> simp [orRefuse, eq_comm]

theorem orHalt_eq_ok {code : String} {text : String → String} {x : Except (Halt String) α}
    {s s' : St} {a : α} : orHalt code text x s = (.ok a, s') ↔ x = .ok a ∧ s' = s := by
  cases x with
  | ok => simp [orHalt, eq_comm]
  | error e => cases e <;> simp [orHalt]

theorem orElse_eq_ok {code reason : String} {x : Option α} {s s' : St} {a : α} :
    orElse code reason x s = (.ok a, s') ↔ x = some a ∧ s' = s := by
  cases x <;> simp [orElse, eq_comm]

@[simp] theorem no_ne_ok {code reason : String} {s s' : St} {a : α} :
    no code reason s = (.ok a, s') ↔ False := by
  simp [no]

end Rules

/-- The two ways `enc_state` goes: the wallet locks itself, or nothing happens. -/
theorem encState_cases (s : St) :
    (s.core.ks.encrypted ∧ encState s = (.ok (true, 0), { s with core := s.core.locked })) ∨
      encState s = (.ok (s.core.ks.encrypted,
        if s.core.ks.encrypted then s.core.unlockedUntil else 0), s) := by
  by_cases he : s.core.ks.encrypted
  · by_cases ht : s.core.unlockedUntil ≠ 0 ∧ s.core.unlockedUntil ≤ s.env.now
    · refine .inl ⟨he, ?_⟩
      simp [encState, Proc.bind_apply, core, now, he, ht, doLock, modifyCore]
    · refine .inr ?_
      simp [encState, Proc.bind_apply, core, now, he, ht]
  · refine .inr ?_
    simp [encState, Proc.bind_apply, core, now, he]

theorem moves_encState : Proc.Moves Idle encState := by
  intro s
  rcases encState_cases s with ⟨he, h⟩ | h
  · rw [h]
    exact ⟨rfl, rfl, rfl, .inr ⟨he, rfl⟩⟩
  · rw [h]
    exact Proc.Path.refl s

/-- A request that gets its keys finds the state as it was. -/
theorem keys_eq_ok {s s' : St} {k : Keyring} (h : keys s = (.ok k, s')) :
    s' = s ∧ s.core.keys = some k := by
  rw [keys, Proc.bind_eq_ok] at h
  obtain ⟨e, t, he, h⟩ := h
  rw [Proc.bind_eq_ok] at h
  obtain ⟨c, t', hc, h⟩ := h
  cases hc
  rcases encState_cases s with ⟨-, hs⟩ | hs
  · rw [hs] at he
    cases he
    simp [Core.locked] at h
  · rw [hs] at he
    cases he
    cases hk : s.core.keys with
    | none => simp [hk] at h
    | some k' =>
      simp only [hk] at h
      by_cases hl : s.core.ks.encrypted ∧
          (if s.core.ks.encrypted then s.core.unlockedUntil else 0) = 0
      · rw [if_pos hl] at h
        simp at h
      · rw [if_neg hl] at h
        cases h
        exact ⟨rfl, rfl⟩

/-- An unencrypted wallet gives its keys. -/
theorem keys_of_clear {s : St} {k : Keyring} (hs : s.core.ks.sealed = none)
    (hk : s.core.keys = some k) : keys s = (.ok k, s) := by
  simp [keys, encState, Proc.bind_apply, core, now, Keystore.encrypted, hs, hk]

theorem quiet_keys : Quiet keys where
  moves := moves_encState.bind fun _ ↦ quiet_core.moves.bind fun c ↦ by
    cases c.keys with
    | none => exact (quiet_no _ _).moves
    | some k => exact .ite (quiet_no _ _).moves (.pure k)
  eq_of_ok h := (keys_eq_ok h).1

/-! ## One key -/

section

variable (C : Crypto)

/-- `transparent`: a key of the account, or an imported one. -/
def transparent (chain index : UInt32) : M (SecretKey × Arr 33) := do
  let k ← keys
  if chain = importedChain then
    let c ← core
    let sk ← orElse Refuse.keyNotHeld
      ("no imported key " ++ Text.decimal index.toNat ++ " in this signer")
      c.imported.keys[index.toNat]?
    return (sk, C.publicKey sk)
  else if chain > 1 ∨ index ≥ hardened then
    no Refuse.keyMismatch ("no key m/44'/347'/0'/" ++ Text.decimal chain.toNat ++ "/" ++
      Text.decimal index.toNat)
  else
    let x ← orRefuse Refuse.failed id (k.account.derive C [chain, index])
    return (x.key, C.publicKey x.key)

/-- `Derived`: a key derived for one request. -/
inductive Derived where
  | t (sk : SecretKey) (pk : Arr 33)
  | pq (k : PqKey)
deriving DecidableEq

/-- An imported post-quantum key, of the scheme it was named with. -/
def importedPqKey (scheme : UInt8) (index : UInt32) : M PqKey := do
  let _ ← keys
  let c ← core
  let e ← orElse Refuse.keyNotHeld ("no imported post-quantum key " ++ Text.decimal index.toNat)
    c.pqImported[(index - importedPqBase).toNat]?
  let seed ← orElse Refuse.failed "an imported seed" ((Hex.decode e.seed).bind (Bytes.toArr? 48))
  if e.scheme ≠ scheme then no Refuse.keyMismatch "the imported key is of another scheme"
  else match PqKey.fromSeed C scheme seed.toList with
    | .ok k => return k
    | .error e =>
      no Refuse.keyMismatch ("imported key " ++ Text.decimal index.toNat ++ ": " ++ e.text)

/-- A post-quantum key of the seed. -/
def ownPqKey (scheme : UInt8) (index : UInt32) : M PqKey := do
  let k ← keys
  match PqKey.fromSeed C scheme (pqDerive C k.pqRoot scheme index).toList with
  | .ok k => return k
  | .error e => no Refuse.keyMismatch ("post-quantum key " ++ Text.decimal scheme.toNat ++ "/" ++
      Text.decimal index.toNat ++ ": " ++ e.text)

/-- A post-quantum key, by index. -/
def pqKeyAt (scheme : UInt8) (index : UInt32) : M PqKey :=
  if index ≥ importedPqBase then importedPqKey C scheme index else ownPqKey C scheme index

/-- `derive`. -/
def derive : KeyRef → M (Option Derived)
  | .none => return none
  | .bip32 chain index | .carrier chain index | .bond chain index _ => do
    let (sk, pk) ← transparent C chain index
    return some (.t sk pk)
  | .pq scheme index | .pqOwner scheme index _ => do
    let k ← pqKeyAt C scheme index
    return some (.pq k)

/-- A key of the account, where the wallet gives its keys. -/
theorem transparent_of_account {s : St} {k : Keyring} {x : ExtendedPrivKey} {chain index : UInt32}
    (hk : keys s = (.ok k, s)) (hchain : chain ≠ importedChain)
    (hrange : ¬(chain > 1 ∨ index ≥ hardened)) (hx : k.account.derive C [chain, index] = .ok x) :
    transparent C chain index s = (.ok (x.key, C.publicKey x.key), s) := by
  simp only [transparent, Proc.bind_apply, hk, if_neg hchain, if_neg hrange, orRefuse, hx,
    Proc.lift_apply, Proc.pure_apply]

theorem quiet_transparent (chain index : UInt32) : Quiet (transparent C chain index) := by
  refine quiet_keys.bind fun k ↦ .ite ?_ (.ite (quiet_no _ _) ?_)
  · exact quiet_core.bind fun c ↦ (quiet_orElse _ _ _).bind fun sk ↦ .pure _
  · exact (quiet_orRefuse _ _ _).bind fun x ↦ .pure _

theorem quiet_importedPqKey (scheme : UInt8) (index : UInt32) :
    Quiet (importedPqKey C scheme index) := by
  refine quiet_keys.bind fun _ ↦ quiet_core.bind fun c ↦ (quiet_orElse _ _ _).bind fun e ↦
    (quiet_orElse _ _ _).bind fun seed ↦ .ite (quiet_no _ _) ?_
  cases PqKey.fromSeed C scheme seed.toList with
  | ok k => exact .pure k
  | error e => exact quiet_no _ _

theorem quiet_ownPqKey (scheme : UInt8) (index : UInt32) : Quiet (ownPqKey C scheme index) := by
  refine quiet_keys.bind fun k ↦ ?_
  cases PqKey.fromSeed C scheme (pqDerive C k.pqRoot scheme index).toList with
  | ok k => exact .pure k
  | error e => exact quiet_no _ _

theorem quiet_pqKeyAt (scheme : UInt8) (index : UInt32) : Quiet (pqKeyAt C scheme index) :=
  .ite (quiet_importedPqKey C scheme index) (quiet_ownPqKey C scheme index)

/-- Deriving a key changes nothing when it succeeds. -/
theorem quiet_derive (k : KeyRef) : Quiet (derive C k) := by
  cases k with
  | none => exact .pure none
  | bip32 chain index | carrier chain index | bond chain index =>
    exact (quiet_transparent C chain index).bind fun _ ↦ .pure _
  | pq scheme index | pqOwner scheme index =>
    exact (quiet_pqKeyAt C scheme index).bind fun _ ↦ .pure _

/-- Only the reference to no key derives to none. -/
theorem derive_eq_none {k : KeyRef} {s s' : St} (h : derive C k s = (.ok none, s')) :
    k = .none := by
  cases k with
  | none => rfl
  | bip32 chain index | carrier chain index | bond chain index =>
    obtain ⟨_, _, h⟩ := (quiet_transparent C chain index).bind_eq_ok h
    cases h
  | pq scheme index | pqOwner scheme index =>
    obtain ⟨_, _, h⟩ := (quiet_pqKeyAt C scheme index).bind_eq_ok h
    cases h

theorem derive_none (s : St) : derive C .none s = (.ok none, s) := rfl

end

/-! ## Encrypting, unlocking, locking -/

section

variable (C : Crypto) (L : Sapling.Lib)

/-- `encrypt`: `encryptwallet`. -/
def encrypt (r : EncryptRequest) : M WalletState := do
  if (← core).ks.encrypted then
    no Refuse.wrongEncState
      "Error: running with an encrypted wallet, but encryptwallet was called."
  else if r.passphrase.isEmpty then
    no Refuse.failed "encryptwallet <passphrase>\nEncrypts the wallet with <passphrase>."
  else
    let cache ← orRefuse Refuse.failed id (← publicOf C L ⟨r.pq⟩)
    let cache := { cache with imported := (← core).imported.pubs.map Imported.hexPub }
    orRefuse Refuse.failed ("Error: Failed to encrypt the wallet. " ++ ·)
      (← encryptImported r.passphrase)
    orRefuse Refuse.failed ("Error: Failed to encrypt the wallet. " ++ ·)
      (← encryptKs r.passphrase cache)
    doLock
    return ⟨true, 0⟩

/-- The end of an unlock: `now().saturating_add(timeout.max(0))`. -/
def unlockEnd (now : Int) (timeout : Int64) : Int :=
  min (now + max timeout.toInt 0) (2 ^ 63 - 1)

/-- The refusal of a wrong passphrase. -/
def badPassphrase {α : Type} : M α :=
  no Refuse.badPassphrase "Error: The wallet passphrase entered was incorrect."

/-- `unlock`: `walletpassphrase`. -/
def unlock (r : UnlockRequest) : M WalletState := do
  let c ← core
  if !c.ks.encrypted then
    no Refuse.wrongEncState
      "Error: running with an unencrypted wallet, but walletpassphrase was called."
  else if !(c.ks.unlock r.passphrase).1 then badPassphrase
  else
    modifyKs fun k ↦ (k.unlock r.passphrase).2
    match c.imported.unlock r.passphrase with
    | .error e => no Refuse.failed e
    | .ok (false, _) =>
      doLock
      badPassphrase
    | .ok (true, i) =>
      modifyImported fun _ ↦ i
      let phrase := ((← core).ks.mnemonic).getD ""
      let (k, _) ← orRefuse Refuse.failed id (deriveKeys C phrase)
      let till := unlockEnd (← now) r.timeout
      modifyCore fun c ↦ { c with keys := some k, unlockedUntil := till }
      return ⟨true, till⟩

/-- `wallet_lock`: `walletlock`. -/
def walletLock : M WalletState := do
  if !(← core).ks.encrypted then
    no Refuse.wrongEncState
      "Error: running with an unencrypted wallet, but walletlock was called."
  else
    doLock
    return ⟨true, 0⟩

end

end Yew.Signer
