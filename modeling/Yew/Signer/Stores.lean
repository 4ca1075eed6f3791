import Yew.Signer.State

/-!
# The key stores

The seed's keystore and the stores of imported keys: loading, sealing, opening, locking and adding,
each with the file it writes.

A seal is kept as what it seals and the passphrase it is under, and opens with that passphrase only.

## Source

* `yewd/signer/src/imported.rs`: `Imported::parse_keys`, `Imported::load`, `Imported::unlock`,
  `Imported::lock`, `Imported::add`, `Imported::save`
* `yewd/signer/src/lib.rs`: `Keystore::load`, `Keystore::encrypted`, `Keystore::unlock`,
  `Keystore::lock`, `write_public_cache`
* `yewd/signer/src/pqimported.rs`: `PqImported::load`, `PqImported::add`, `PqImported::save`
-/

namespace Yew.Signer

open Tx Keys Proto

/-! ## The imported transparent keys -/

namespace Imported

/-- `imported::FORMAT`. -/
def format := "yewd-signer-imported-1"

/-- One key of `parse_keys`. -/
def parseKey (h : String) : Except String SecretKey :=
  match (Hex.decode h).bind (Bytes.toArr? 32) with
  | none => .error "imported.json: a key is not 32 bytes"
  | some b =>
    match SecretKey.fromSecretBytes b with
    | none => .error "imported.json: a key is out of range"
    | some k => .ok k

/-- `parse_keys`. -/
def parseKeys (hexes : List String) : Except String (List SecretKey) := hexes.mapM parseKey

/-- A public key of the file. -/
def parsePub (h : String) : Except String (Arr 33) :=
  match (Hex.decode h).bind (Bytes.toArr? 33) with
  | none => .error "imported.json: a public key"
  | some b => .ok b

/-- A secret as the file spells it. -/
def hexKey (k : SecretKey) : String := Hex.encode k.bytes.toList

/-- A public key as the file spells it. -/
def hexPub (p : Arr 33) : String := Hex.encode p.toList

/-- `Imported::load`: a sealed store lists its public keys and starts without secrets. -/
def load (C : Crypto) : Option ImportedFile → Except String Imported
  | none => .ok ⟨[], [], none, none⟩
  | some d => do
    if d.format ≠ format then .error ("imported.json: unknown format " ++ d.format)
    else
      let keys ← parseKeys d.keys
      let pubs ← if d.sealed.isSome then d.pubkeys.mapM parsePub
        else .ok (keys.map C.publicKey)
      .ok ⟨keys, pubs, d.sealed, none⟩

/-- The file `save` writes: sealed under the passphrase when the seal is in force and the
passphrase is at hand, in clear otherwise. -/
def toFile (i : Imported) : ImportedFile :=
  let hexes := i.keys.map hexKey
  let pubkeys := i.pubs.map hexPub
  match i.pass, i.sealed with
  | some pass, some _ => ⟨format, [], pubkeys, some ⟨pass, hexes⟩⟩
  | _, _ => ⟨format, hexes, pubkeys, none⟩

/-- `Imported::unlock`: false for a wrong passphrase. -/
def unlock (pass : String) (i : Imported) : Except String (Bool × Imported) :=
  match i.sealed with
  | none => .ok (true, i)
  | some s =>
    match s.open? pass with
    | none => .ok (false, i)
    | some hexes => do
      let keys ← parseKeys hexes
      .ok (true, { i with keys, pass := some pass })

/-- `Imported::lock`: forget the keys of a sealed store. -/
def lock (i : Imported) : Imported :=
  if i.sealed.isSome then { i with keys := [], pass := none } else i

theorem parseKey_hexKey (k : SecretKey) : parseKey (hexKey k) = .ok k := by
  simp [parseKey, hexKey]

@[simp] theorem parseKeys_hexKey (ks : List SecretKey) :
    parseKeys (ks.map hexKey) = .ok ks := by
  unfold parseKeys
  induction ks with
  | nil => rfl
  | cons k ks ih =>
    rw [List.map_cons, List.mapM_cons, parseKey_hexKey, ih]
    rfl

theorem parsePub_hexPub (p : Arr 33) : parsePub (hexPub p) = .ok p := by
  simp [parsePub, hexPub]

@[simp] theorem mapM_parsePub_hexPub (ps : List (Arr 33)) :
    (ps.map hexPub).mapM parsePub = .ok ps := by
  induction ps with
  | nil => rfl
  | cons p ps ih =>
    rw [List.map_cons, List.mapM_cons, parsePub_hexPub, ih]
    rfl

end Imported

/-- `Imported::save`. -/
def saveImported : M (Except String Unit) := do
  let c ← core
  replaceFile fun d ↦ { d with imported := some c.imported.toFile }

/-- Change the imported keys in memory. -/
def modifyImported (f : Imported → Imported) : M Unit :=
  modifyCore fun c ↦ { c with imported := f c.imported }

/-- `Imported::encrypt`: the seal in memory is of an empty list, and stays so. -/
def encryptImported (pass : String) : M (Except String Unit) := do
  modifyImported fun i ↦ { i with pass := some pass, sealed := some ⟨pass, []⟩ }
  saveImported

/-- `Imported::add`: the key's index and whether it is new, the file written first. -/
def addImported (C : Crypto) (key : SecretKey) : M (Except String (Nat × Bool)) := do
  let i := (← core).imported
  match i.keys.findIdx? (· = key) with
  | some n => return .ok (n, false)
  | none =>
    if i.sealed.isSome ∧ i.pass.isNone then return .error "the wallet is locked"
    else
      modifyImported fun i ↦
        { i with keys := i.keys ++ [key], pubs := i.pubs ++ [C.publicKey key] }
      match ← saveImported with
      | .error e =>
        modifyImported fun i ↦ { i with keys := i.keys.dropLast, pubs := i.pubs.dropLast }
        return .error e
      | .ok () => return .ok ((← core).imported.keys.length - 1, true)

/-! ## The imported post-quantum keys -/

namespace PqImported

/-- `pqimported::FORMAT`. -/
def format := "yewd-signer-pqimported-1"

/-- `PqImported::load`. -/
def load : Option PqImportedFile → Except String (List PqEntry)
  | none => .ok []
  | some d =>
    if d.format ≠ format then .error ("pqimported.json: unknown format " ++ d.format)
    else .ok d.keys

end PqImported

/-- `PqImported::save`: in clear, whatever the wallet's state. -/
def savePqImported : M (Except String Unit) := do
  let c ← core
  replaceFile fun d ↦ { d with pqImported := some ⟨PqImported.format, c.pqImported⟩ }

/-- `PqImported::add`. -/
def addPqImported (scheme : UInt8) (seed : Bytes) : M (Except String (Nat × Bool)) := do
  let e : PqEntry := ⟨scheme, Hex.encode seed⟩
  match (← core).pqImported.findIdx? (· = e) with
  | some n => return .ok (n, false)
  | none =>
    modifyCore fun c ↦ { c with pqImported := c.pqImported ++ [e] }
    match ← savePqImported with
    | .error err =>
      modifyCore fun c ↦ { c with pqImported := c.pqImported.dropLast }
      return .error err
    | .ok () => return .ok ((← core).pqImported.length - 1, true)

/-! ## The seed -/

/-- `SEED_FORMAT`. -/
def seedFormat := "yewd-signer-seed-1"

/-- `LOCKED`. -/
def lockedText := "locked: the wallet is encrypted and locked; walletpassphrase first"

namespace Keystore

/-- `Keystore::load`. -/
def load (network : Network) : Option SeedFile → Except String Keystore
  | none => .error "yewd-signer: seed.json: No such file or directory (os error 2)"
  | some f =>
    if f.format ≠ seedFormat then .error ("yewd-signer: seed.json: unknown format " ++ f.format)
    else if f.network ≠ network.chainName then
      .error ("yewd-signer: seed.json is a " ++ f.network ++ " seed, asked for " ++
        network.chainName)
    else
      let mnemonic := if f.sealed.isSome then none else some f.mnemonic
      .ok ⟨network, mnemonic, f.sealed, f.birthday, f.restored⟩

/-- `Keystore::encrypted`. -/
def encrypted (k : Keystore) : Bool := k.sealed.isSome

/-- `Keystore::unlock`: false for a wrong passphrase. -/
def unlock (pass : String) (k : Keystore) : Bool × Keystore :=
  match k.sealed with
  | none => (true, k)
  | some s =>
    match s.open? pass with
    | some m => (true, { k with mnemonic := some m })
    | none => (false, k)

/-- `Keystore::lock`. -/
def lock (k : Keystore) : Keystore :=
  if k.sealed.isSome then { k with mnemonic := none } else k

end Keystore

/-- `write_public_cache`. -/
def writePublicCache (b : PublicBundle) : M (Except String Unit) :=
  replaceFile fun d ↦ { d with publicCache := some b }

/-- Change the keystore in memory. -/
def modifyKs (f : Keystore → Keystore) : M Unit := modifyCore fun c ↦ { c with ks := f c.ks }

/-- `Keystore::encrypt`: the public cache first, then the sealed phrase in the seed file. -/
def encryptKs (pass : String) (cache : PublicBundle) : M (Except String Unit) := do
  let ks := (← core).ks
  match ks.mnemonic with
  | none => return .error "yewd-signer: the wallet is locked"
  | some phrase =>
    match ← writePublicCache cache with
    | .error e => return .error e
    | .ok () =>
      let sealed : Sealed String := ⟨pass, phrase⟩
      let file : SeedFile :=
        ⟨seedFormat, ks.network.chainName, "", some sealed, ks.birthday, ks.restored⟩
      match ← replaceFile fun d ↦ { d with seed := some file } with
      | .error e => return .error e
      | .ok () =>
        modifyKs fun k ↦ { k with sealed := some sealed, mnemonic := none }
        return .ok ()

end Yew.Signer
