import Yew.Proto.Preview
import Yew.Util.OrdMap
import Yew.Util.Proc
import Mathlib.Data.Prod.Lex

/-!
# The signer's state

What the signer holds in memory, what it keeps on disk, and the one place where it writes.  A
request runs as a procedure over this state.  Every write takes its outcome from a script given
with the request: it is done, it fails and the signer goes on, or the process ends in it.

The errors are the texts of the source.

## Source

* `yewd/signer/src/sign.rs`: `no`, `SignerCore`, `now`, `SignerCore::keystore`
* `yewd/signer/src/lib.rs`: `SeedFile`, `Keystore`
* `yewd/signer/src/seal.rs`: `Sealed`, `seal`
* `yewd/signer/src/imported.rs`: `Imported`
* `yewd/signer/src/pqimported.rs`: `Entry`
* `yewd/signer/src/signonce.rs`: `SignOnce`
-/

namespace Yew.Signer

open Tx Keys Proto

/-! ## Sealed secrets -/

/-- A secret sealed under a passphrase.  `seal::seal` is the constructor, and only `Sealed.open?`
takes it apart. -/
structure Sealed (α : Type) where
  pass : String
  plain : α
deriving DecidableEq

/-- `seal::open`: the secret, for the right passphrase. -/
def Sealed.open? {α : Type} (pass : String) (s : Sealed α) : Option α :=
  if pass = s.pass then some s.plain else none

@[simp] theorem Sealed.open?_eq_some {α : Type} {pass : String} {s : Sealed α} {a : α} :
    s.open? pass = some a ↔ pass = s.pass ∧ s.plain = a := by
  unfold Sealed.open?
  split <;> simp_all

/-! ## The stores -/

/-- `SignOnce`: what was signed for a set and a prevout, the restore marker, and the imported keys
watched for a `SET_JOIN`. -/
structure SignOnce where
  restored : Bool
  records : OrdMap (String ×ₗ String) (UInt8 × String)
  pending : OrdMap String Unit
deriving DecidableEq

/-- `signonce.json`. -/
structure SignOnceFile where
  format : String
  restored : Bool
  records : List SignedRecord
  pending : List String
deriving DecidableEq

/-- One signed attestation, a record of the equivocation guard. -/
structure Attested where
  seq : UInt16
  pubkey : String
  citedHeight : UInt32
  blockHash : String
  priceMicroUsd : UInt32
  sig : String
deriving DecidableEq

/-- `Imported`: the imported transparent keys, their public keys, and the seal in force. -/
structure Imported where
  keys : List SecretKey
  pubs : List (Arr 33)
  sealed : Option (Sealed (List String))
  pass : Option String
deriving DecidableEq

/-- `imported.json`: the keys in clear, or sealed beside their public keys. -/
structure ImportedFile where
  format : String
  keys : List String
  pubkeys : List String
  sealed : Option (Sealed (List String))
deriving DecidableEq

/-- An imported post-quantum key: its scheme and keygen seed in hexadecimal. -/
structure PqEntry where
  scheme : UInt8
  seed : String
deriving DecidableEq

/-- `pqimported.json`. -/
structure PqImportedFile where
  format : String
  keys : List PqEntry
deriving DecidableEq

/-- `seed.json`: the phrase in clear, or sealed. -/
structure SeedFile where
  format : String
  network : String
  mnemonic : String
  sealed : Option (Sealed String)
  birthday : Nat
  restored : Bool
deriving DecidableEq

/-- `Keystore`. -/
structure Keystore where
  network : Network
  mnemonic : Option String
  sealed : Option (Sealed String)
  birthday : Nat
  restored : Bool
deriving DecidableEq

/-- `Keys`: the BIP32 account node and the post-quantum seed root. -/
structure Keyring where
  account : ExtendedPrivKey
  pqRoot : Arr 32
deriving DecidableEq

/-- `SignerCore`: the signer in memory. -/
structure Core where
  network : Network
  seedFp : String
  keys : Option Keyring
  once : SignOnce
  guard : List Attested
  imported : Imported
  pqImported : List PqEntry
  ks : Keystore
  unlockedUntil : Int
deriving DecidableEq

/-- The signer's directory. -/
structure Disk where
  seed : Option SeedFile
  publicCache : Option PublicBundle
  imported : Option ImportedFile
  pqImported : Option PqImportedFile
  once : Option SignOnceFile
  guard : Option Bytes
deriving DecidableEq

/-! ## Procedures -/

/-- How a write ends.  `kept` is how much of an append reached the disk. -/
inductive WriteOutcome where
  | done
  | failed (error : String) (kept : Nat)
  | cut (kept : Nat)
deriving DecidableEq

/-- What a request meets outside the signer: the clock, the randomness of each signature, and the
texts of the files it is asked to read. -/
structure Env where
  now : Int
  entropy : Nat → Bytes
  files : String → Option String

/-- The state a request runs over. -/
structure St where
  core : Core
  disk : Disk
  env : Env
  writes : List WriteOutcome

/-- Why a request ended without an answer of its own. -/
inductive Stop where
  /-- The signer refuses. -/
  | refused (code reason : String)
  /-- The handler panicked; the signer goes on. -/
  | panic
  /-- The process ended. -/
  | crash
deriving DecidableEq

/-- A procedure of the signer. -/
abbrev M := Proc St Stop

/-- `no`: refuse. -/
def no {α : Type} (code reason : String) : M α := Proc.throw (.refused code reason)

/-- A `Result` whose error becomes a refusal. -/
def orRefuse {α : Type} (code : String) (text : String → String) (x : Except String α) : M α :=
  Proc.lift (match x with
    | .ok a => .ok a
    | .error e => .error (.refused code (text e)))

/-- The same for a call that may panic. -/
def orHalt {α : Type} (code : String) (text : String → String) (x : Except (Halt String) α) :
    M α :=
  Proc.lift (match x with
    | .ok a => .ok a
    | .error (.error e) => .error (.refused code (text e))
    | .error .panic => .error .panic)

/-- An `Option` whose absence becomes a refusal. -/
def orElse {α : Type} (code reason : String) (x : Option α) : M α :=
  Proc.lift (match x with
    | some a => .ok a
    | none => .error (.refused code reason))

/-- The signer in memory. -/
def core : M Core := fun s ↦ (.ok s.core, s)

/-- Change the signer in memory. -/
def modifyCore (f : Core → Core) : M Unit := Proc.modify fun s ↦ { s with core := f s.core }

/-- Change the disk. -/
def modifyDisk (f : Disk → Disk) : M Unit := Proc.modify fun s ↦ { s with disk := f s.disk }

/-- The outcome of the next write; once the script has run out every write succeeds. -/
def nextWrite : M WriteOutcome := fun s ↦
  match s.writes with
  | [] => (.ok .done, s)
  | w :: ws => (.ok w, { s with writes := ws })

theorem nextWrite_cases (s : St) : ∃ w ws, nextWrite s = (.ok w, { s with writes := ws }) ∧
    ws <:+ s.writes ∧ (w = .done ∨ w ∈ s.writes) := by
  unfold nextWrite
  split
  · rename_i hw
    exact ⟨_, _, rfl, List.suffix_refl _, .inl rfl⟩
  · rename_i w ws hw
    refine ⟨_, _, rfl, ?_, .inr ?_⟩
    · rw [hw]
      exact List.suffix_cons _ _
    · rw [hw]
      exact List.mem_cons_self

/-- A file replaced by way of a temporary one: until the rename nothing has happened, so a write
that does not finish has replaced the file wholly or not at all. -/
def replaceFile (f : Disk → Disk) : M (Except String Unit) := do
  match ← nextWrite with
  | .done => do
    modifyDisk f
    return .ok ()
  | .failed e _ => return .error e
  | .cut kept => do
    if kept ≠ 0 then modifyDisk f
    Proc.throw .crash

/-- How a file's replacement ends: it is done, it fails and nothing has happened, or the process ends
with the old file or the new one.  Without a script of outcomes it is done. -/
theorem replaceFile_cases (f : Disk → Disk) (s : St) :
    ∃ ws, ws <:+ s.writes ∧
      (replaceFile f s = (.ok (.ok ()), { s with disk := f s.disk, writes := ws }) ∨
        s.writes ≠ [] ∧
          ((∃ e, replaceFile f s = (.ok (.error e), { s with writes := ws })) ∨
            ∃ d, (d = f s.disk ∨ d = s.disk) ∧
              replaceFile f s = (.error .crash, { s with disk := d, writes := ws }))) := by
  cases hw : s.writes with
  | nil =>
    refine ⟨[], List.suffix_refl _, .inl ?_⟩
    simp [replaceFile, nextWrite, hw, Proc.bind_apply, modifyDisk]
  | cons w ws =>
    refine ⟨ws, List.suffix_cons _ _, ?_⟩
    cases w with
    | done =>
      left
      simp [replaceFile, nextWrite, hw, Proc.bind_apply, modifyDisk]
    | failed e kept =>
      refine .inr ⟨List.cons_ne_nil _ _, .inl ⟨e, ?_⟩⟩
      simp [replaceFile, nextWrite, hw, Proc.bind_apply]
    | cut kept =>
      refine .inr ⟨List.cons_ne_nil _ _, .inr ?_⟩
      by_cases hk : kept = 0
      · refine ⟨s.disk, .inr rfl, ?_⟩
        simp [replaceFile, nextWrite, hw, Proc.bind_apply, hk]
      · refine ⟨f s.disk, .inl rfl, ?_⟩
        simp [replaceFile, nextWrite, hw, Proc.bind_apply, hk, modifyDisk]

/-- The wall clock. -/
def now : M Int := fun s ↦ (.ok s.env.now, s)

end Yew.Signer
