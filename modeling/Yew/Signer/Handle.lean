import Yew.Signer.Attest
import Yew.Signer.SignSet
import Yew.Signer.WalletIo
import Yew.Util.Trace

/-!
# The signer as a machine

`open` builds the signer from its directory, `handle` answers one request.  A world is the
directory and the process over it, if one runs; it takes requests and restarts in any order.  Each
comes with what the outside decides: the clock, the entropy, and how every write ends.

The request type is that of `yewd/proto/src/lib.rs`; the socket around it is left out.

## Source

* `yewd/signer/src/sign.rs`: `SignerCore::open`, `SignerCore::handle`
* `yewd/signer/src/seal.rs`: `open`
-/

namespace Yew.Signer

open Tx Keys Proto

section

variable (C : Crypto) (L : Sapling.Lib)

/-! ## Opening -/

/-- The keys and the fingerprint a process starts with: a locked wallet has its fingerprint in the
public cache. -/
def startKeys (ks : Keystore) (d : Disk) : Except String (Option Keyring × String) :=
  match ks.mnemonic with
  | some p => (deriveKeys C p).map fun k ↦ (some k.1, k.2)
  | none => (publicFromCache d ⟨[]⟩).map fun b ↦ (none, b.seedFp)

/-- `Guard::load` on the directory. -/
def loadGuard (w : WriteOutcome) (d : Disk) : Except (Halt String) (List Attested) × Disk :=
  let x := Guard.load w d.guard
  (x.1, { d with guard := x.2 })

/-- The stores of imported keys. -/
def loadKeys (d : Disk) : Except String (Imported × List PqEntry) := do
  let i ← Imported.load C d.imported
  let q ← PqImported.load d.pqImported
  return (i, q)

/-- `SignerCore::open`, with the outcomes of the two writes it may make. -/
def openSigner (network : Network) (w₁ w₂ : WriteOutcome) (d : Disk) :
    Except (Halt String) Core × Disk :=
  match Keystore.load network d.seed with
  | .error e => (.error (.error e), d)
  | .ok ks =>
    match startKeys C ks d with
    | .error e => (.error (.error e), d)
    | .ok (keys, seedFp) =>
      match SignOnce.load ks.restored w₁ d with
      | (.error e, d) => (.error e, d)
      | (.ok once, d) =>
        match loadGuard w₂ d with
        | (.error e, d) => (.error e, d)
        | (.ok guard, d) =>
          match loadKeys C d with
          | .error e => (.error (.error e), d)
          | .ok (imported, pqImported) =>
            (.ok ⟨network, seedFp, keys, once, guard, imported, pqImported, ks, 0⟩, d)

/-- What an open signer was built from. -/
structure Opened (network : Network) (w₁ w₂ : WriteOutcome) (d : Disk) (c : Core) (d' : Disk) :
    Prop where
  chain : c.network = network
  seed : Keystore.load network d.seed = .ok c.ks
  keys : startKeys C c.ks d = .ok (c.keys, c.seedFp)
  once : (SignOnce.load c.ks.restored w₁ d).1 = .ok c.once
  guard : loadGuard w₂ (SignOnce.load c.ks.restored w₁ d).2 = (.ok c.guard, d')
  stores : loadKeys C d' = .ok (c.imported, c.pqImported)

theorem openSigner_eq_ok {network : Network} {w₁ w₂ : WriteOutcome} {d d' : Disk} {c : Core}
    (h : openSigner C network w₁ w₂ d = (.ok c, d')) : Opened C network w₁ w₂ d c d' := by
  unfold openSigner at h
  split at h
  · cases h
  rename_i ks hks
  split at h
  · cases h
  rename_i keys seedFp hkeys
  split at h
  · cases h
  rename_i once d₁ honce
  split at h
  · cases h
  rename_i guard d₂ hguard
  split at h
  · cases h
  rename_i imported pqImported hstores
  cases h
  refine ⟨rfl, hks, hkeys, ?_, ?_, hstores⟩
  · rw [honce]
  · rw [honce]
    exact hguard

/-- What the directory has become, wherever the start ended. -/
theorem openSigner_disk (network : Network) (w₁ w₂ : WriteOutcome) (d : Disk) :
    (openSigner C network w₁ w₂ d).2 = d ∨ ∃ restored,
      (openSigner C network w₁ w₂ d).2 = (SignOnce.load restored w₁ d).2 ∨
        (openSigner C network w₁ w₂ d).2 = (loadGuard w₂ (SignOnce.load restored w₁ d).2).2 := by
  unfold openSigner
  split
  · exact .inl rfl
  rename_i ks hks
  split
  · exact .inl rfl
  refine .inr ⟨ks.restored, ?_⟩
  split
  · rename_i e d₁ honce
    exact .inl (by rw [honce])
  rename_i once d₁ honce
  rw [honce]
  split
  · rename_i e d₂ hguard
    exact .inr (by rw [hguard])
  rename_i guard d₂ hguard
  rw [hguard]
  split
  · exact .inr rfl
  · exact .inr rfl

/-- A start leaves the keys' files alone. -/
theorem openSigner_keyFiles (network : Network) (w₁ w₂ : WriteOutcome) (d : Disk) :
    (openSigner C network w₁ w₂ d).2.seed = d.seed ∧
      (openSigner C network w₁ w₂ d).2.imported = d.imported ∧
        (openSigner C network w₁ w₂ d).2.pqImported = d.pqImported := by
  have honce : ∀ restored, (SignOnce.load restored w₁ d).2.seed = d.seed ∧
      (SignOnce.load restored w₁ d).2.imported = d.imported ∧
        (SignOnce.load restored w₁ d).2.pqImported = d.pqImported := by
    intro restored
    unfold SignOnce.load
    repeat' split
    all_goals exact ⟨rfl, rfl, rfl⟩
  rcases openSigner_disk C network w₁ w₂ d with h | ⟨restored, h | h⟩
  · rw [h]
    exact ⟨rfl, rfl, rfl⟩
  · rw [h]
    exact honce restored
  · rw [h]
    exact honce restored

/-! ## Requests -/

/-- The `Public` request: the wallet's bundle with the imported keys in it. -/
def publicRequest (r : PublicRequest) : M PublicBundle := do
  let _ ← encState
  match ← publicOf C L r with
  | .ok b =>
    let c ← core
    return { b with
      imported := c.imported.pubs.map Imported.hexPub
      pq := b.pq ++ pqImportedPublic C c.pqImported }
  | .error e =>
    if "locked".toList.isPrefixOf e.toList then no Refuse.locked e else no Refuse.failed e

/-- The `Hello` request. -/
def hello : M Hello := do
  let (encrypted, unlockedUntil) ← encState
  let c ← core
  return ⟨protoVersion, c.network.chainName, c.seedFp, encrypted, unlockedUntil⟩

/-- A change of the sign-once marks, answered with the list. -/
def listAfter (x : M (Except String Unit)) : M SignedRecords := do
  orRefuse Refuse.failed id (← x)
  return (← core).once.list

/-- The arms of `handle`. -/
def answer : Request → M Response
  | .hello => return .hello (← hello)
  | .encrypt r => return .walletState (← encrypt C L r)
  | .unlock r => return .walletState (← unlock C r)
  | .lock => return .walletState (← walletLock)
  | .dump r => return .written (← dump C L r)
  | .importDump r => return .importedDump (← importDump C L r)
  | .importPq r => return .importedPq (← importPq C r)
  | .backup r => return .written (← backup r)
  | .saplingBuild r => return .built (← saplingBuild C L r)
  | .publicBundle r => return .publicBundle (← publicRequest C L r)
  | .sign r => return .signed (← sign C L r)
  | .signAct r => return .actSigs (← signAct C r)
  | .signSet r => return .setSigs (← signSet C r)
  | .listSigned => return .records (← core).once.list
  | .importSigned rs => do
    let counts ← importRecords rs
    return .imported ⟨counts.1, counts.2⟩
  | .acknowledgeRestore => return .acknowledged (← listAfter acknowledge)
  | .signAttestation r => return .attestation (← signAttestation C r)
  | .cancelCosign r => return .cosign (← cancelCosign C r)
  | .signMessage r => return .messageSig (← signMessage C r)
  | .importKey r => return .importedKey (← importKey C r)
  | .joinsSeen hashes => return .acknowledged (← listAfter (joinsSeen hashes))
  | .dumpKey k => return .dumped (← dumpKey C k)

/-- `handle`. -/
def handle (version : UInt32) (r : Request) : M Response :=
  if version ≠ protoVersion then
    no Refuse.badVersion ("yewd-signer speaks protocol " ++ Text.decimal protoVersion.toNat ++
      ", the request is version " ++ Text.decimal version.toNat)
  else answer C L r

/-! ## The machine -/

/-- The signer's directory and the process over it, if one runs. -/
structure World where
  core : Option Core
  disk : Disk

/-- What happens to a world. -/
inductive Event where
  /-- A request, with its clock, entropy and files, and the outcomes of the writes it makes. -/
  | request (env : Env) (writes : List WriteOutcome) (version : UInt32) (r : Request)
  /-- A new process, with the outcomes of the writes it makes. -/
  | restart (w₁ w₂ : WriteOutcome)

/-- What is seen of an event. -/
inductive Answer where
  | response (r : Response)
  /-- No answer: the handler panicked, the process ended, or none runs. -/
  | silent
  | started (result : Except (Halt String) Unit)

/-- What a caller sees of a request's end. -/
def answerOf : Except Stop Response → Answer
  | .ok r => .response r
  | .error (.refused code reason) => .response (.refused ⟨code, reason⟩)
  | .error _ => .silent

/-- The process behind a request: a crash ends it. -/
def survives (x : Except Stop Response) (c : Core) : Option Core :=
  match x with
  | .error .crash => none
  | _ => some c

/-- The state a request starts in. -/
def startSt (c : Core) (d : Disk) (env : Env) (writes : List WriteOutcome) : St :=
  ⟨c, d, env, writes⟩

/-- One event. -/
def World.step (network : Network) (w : World) : Event → Answer × World
  | .request env writes version r =>
    match w.core with
    | none => (.silent, w)
    | some c =>
      let x := handle C L version r (startSt c w.disk env writes)
      (answerOf x.1, ⟨survives x.1 x.2.core, x.2.disk⟩)
  | .restart w₁ w₂ =>
    let x := openSigner C network w₁ w₂ w.disk
    (.started (x.1.map fun _ ↦ ()), ⟨x.1.toOption, x.2⟩)

theorem eq_of_survives {x : Except Stop Response} {c c' : Core} (h : survives x c = some c') :
    c' = c := by
  unfold survives at h
  split at h
  · cases h
  · exact (Option.some.inj h).symm

/-- An answer that is no refusal was returned. -/
theorem eq_ok_of_answerOf {x : Except Stop Response} {r : Response} (h : answerOf x = .response r)
    (hr : ∀ y, r ≠ .refused y) : x = .ok r := by
  unfold answerOf at h
  split at h
  · cases h
    rfl
  · cases h
    exact absurd rfl (hr _)
  · cases h

/-- A request that was answered, and not refused, ran in a process and through its arm. -/
theorem World.step_eq_response {network : Network} {w : World} {env : Env} {writes : List WriteOutcome}
    {version : UInt32} {r : Request} {a : Response} (hr : ∀ y, a ≠ .refused y)
    (h : (w.step C L network (.request env writes version r)).1 = .response a) :
    ∃ c s', w.core = some c ∧ answer C L r (startSt c w.disk env writes) = (.ok a, s') ∧
      (w.step C L network (.request env writes version r)).2 = ⟨some s'.core, s'.disk⟩ := by
  cases hc : w.core with
  | none => simp [World.step, hc] at h
  | some c =>
    simp only [World.step, hc] at h ⊢
    have hok := eq_ok_of_answerOf h hr
    by_cases hv : version ≠ protoVersion
    · simp [handle, hv, no] at hok
    · have hans : handle C L version r = answer C L r := by simp [handle, hv]
      rw [hans] at hok ⊢
      refine ⟨c, _, rfl, Prod.ext hok rfl, ?_⟩
      rw [hok]
      rfl

/-- A request of the present protocol, by what its arm comes to. -/
theorem World.step_of_answer {network : Network} {c : Core} {d : Disk} {env : Env}
    {writes : List WriteOutcome} {r : Request} {x : Except Stop Response} {s' : St}
    (h : answer C L r (startSt c d env writes) = (x, s')) :
    World.step C L network ⟨some c, d⟩ (.request env writes protoVersion r) =
      (answerOf x, ⟨survives x s'.core, s'.disk⟩) := by
  have hhandle : handle C L protoVersion r = answer C L r := by
    rw [handle, if_neg (by simp)]
  simp only [World.step, hhandle, h]

/-- A directory that holds a seed file and nothing else, and no process. -/
def World.start (seed : SeedFile) : World := ⟨none, ⟨some seed, none, none, none, none, none⟩⟩

end

end Yew.Signer
