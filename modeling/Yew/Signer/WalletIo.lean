import Yew.Signer.Wallet

/-!
# Imports, dumps and backups

Keys and records come into the signer here: one key by its WIF, one post-quantum key by its seed,
or a wallet dump with all of them.  Dumps and backups are written outside the signer's directory;
of those files only the outcome of the write is kept.

The files of the wallet are the ones of `Yew.Signer.State`.

## Source

* `yewd/signer/src/walletio.rs`: `Backup`, `write_new`, `own_seed`, `pq_imported_public`,
  `SignerCore::pq_seed_of`, `SignerCore::dump`, `SignerCore::add_pq`, `SignerCore::import_pq` and 3
  more
* `yewd/signer/src/sign.rs`: `SignerCore::import_key`, `SignerCore::dump_key`
* `yewd/signer/src/lib.rs`: `Keystore::phrase`
-/

namespace Yew.Signer

open Tx Keys Proto

/-- A refusal turned into a value; a panic and a crash stay what they are. -/
def catchRefused {α : Type} (x : M α) : M (Except (String × String) α) := fun s ↦
  match x s with
  | (.ok a, s') => (.ok (.ok a), s')
  | (.error (.refused code reason), s') => (.ok (.error (code, reason)), s')
  | (.error e, s') => (.error e, s')

/-- `write_new`: a file outside the signer's directory. -/
def writeNew (path : String) : M Unit := do
  match ← nextWrite with
  | .done => return ()
  | .failed e kept =>
    -- a file that could not be opened keeps nothing
    if kept = 0 then no Refuse.failed ("Cannot open wallet dump file " ++ path ++ ": " ++ e)
    else no Refuse.failed (path ++ ": " ++ e)
  | .cut _ => Proc.throw .crash

section

variable (C : Crypto) (L : Sapling.Lib)

/-! ## One key -/

/-- The watch for a new key, or its restore marker. -/
def markImported (pub : Arr 33) (members : Option (List String)) : M Unit := do
  orRefuse Refuse.failed ("cannot write the vault sign-once restore marker: " ++ ·)
    (← keyImported (Hex.encode (C.hash160 pub.toList).toList) members)

/-- `import_key`: `importprivkey`. -/
def importKey (r : ImportKeyRequest) : M ImportedKey := do
  let _ ← keys
  let c ← core
  let sk ← orRefuse Refuse.keyNotHeld (fun _ ↦ "Invalid private key encoding")
    (decodeWif C c.network (Text.trim r.wif))
  let (index, new) ← orRefuse Refuse.failed ("Error adding key to wallet: " ++ ·)
    (← addImported C sk)
  if new then markImported C (C.publicKey sk) r.members
  return ⟨index, Hex.encode (C.publicKey sk).toList, new⟩

/-- `dump_key`: `dumpprivkey`. -/
def dumpKey (k : KeyRef) : M String := do
  match k with
  | .bip32 chain index =>
    let (sk, _) ← transparent C chain index
    return encodeWif C (← core).network sk
  | _ => no Refuse.keyMismatch "only a transparent key has a WIF"

/-! ## Post-quantum keys -/

/-- `pq_imported_public`. -/
def pqImportedPublic (es : List PqEntry) : List PqPublic :=
  es.zipIdx.filterMap fun (e, i) ↦
    match (Hex.decode e.seed).bind fun seed ↦ (PqKey.fromSeed C e.scheme seed).toOption with
    | some k => some ⟨e.scheme, importedPqBase.toNat + i, Hex.encode k.pk⟩
    | none => none

/-- `own_seed`. -/
def ownSeed (scheme : UInt8) (index : UInt32) : M (Arr 48) := do
  let k ← keys
  return pqDerive C k.pqRoot scheme index

/-- `pq_seed_of`. -/
def pqSeedOf (scheme : UInt8) (index : UInt32) : M (Arr 48) :=
  if index ≥ importedPqBase then do
    let _ ← keys
    let c ← core
    let e ← orElse Refuse.keyNotHeld ("no imported key " ++ Text.decimal index.toNat)
      c.pqImported[(index - importedPqBase).toNat]?
    orElse Refuse.failed "an imported seed" ((Hex.decode e.seed).bind (Bytes.toArr? 48))
  else ownSeed C scheme index

/-- Whether the seed is the wallet's own at an index. -/
def isOwnSeed (scheme : UInt8) (index : Option UInt32) (seed : Bytes) : M (Option UInt32) := do
  match index.filter (· < importedPqBase) with
  | none => return none
  | some i =>
    let own ← ownSeed C scheme i
    return if own.toList = seed then some i else none

/-- The refusal of a seed of another length. -/
def seedSizeText := "the seed must be 48 bytes of hex"

/-- `add_pq`: the wallet's own key keeps its index, any other is stored. -/
def addPq (scheme : UInt8) (index : Option UInt32) (seed : Bytes) : M Proto.PqImported := do
  if seed.length ≠ 48 then no Refuse.malformed seedSizeText
  else
    match PqKey.fromSeed C scheme seed with
    | .error _ => no Refuse.malformed "invalid post-quantum key seed or index"
    | .ok key =>
      let pk := Hex.encode key.pk
      match ← isOwnSeed C scheme index seed with
      | some i => return ⟨scheme, i.toNat, true, pk, false⟩
      | none =>
        let (i, added) ← orRefuse Refuse.failed
          ("Error adding the post-quantum key to the wallet: " ++ ·) (← addPqImported scheme seed)
        return ⟨scheme, importedPqBase.toNat + i, false, pk, added⟩

/-- `import_pq`: `z_importpqkey`. -/
def importPq (r : PqImportRequest) : M Proto.PqImported := do
  let _ ← keys
  match Hex.decode r.seed with
  | none => no Refuse.malformed seedSizeText
  | some seed => addPq C r.scheme r.index seed

/-! ## Dumps -/

/-- The phrase of an unlocked wallet. -/
def phrase : M String := do
  orElse Refuse.locked lockedText (← core).ks.mnemonic

/-- One line of a dump, its secret filled in. -/
def dumpLine : DumpLine → M String
  | .text text => return text
  | .key key rest => do
    let wif ← dumpKey C key
    return wif ++ " " ++ rest
  | .pqSeed scheme index indexText rest => do
    let seed ← pqSeedOf C scheme index
    return "pqseed=" ++ Text.decimal scheme.toNat ++ ":" ++ indexText ++ ":" ++
      Hex.encode seed.toList ++ " " ++ rest
  | .sapling rest => do
    let p ← phrase
    let text ← orRefuse Refuse.failed id (L.spendingKeyText (← core).network p)
    return text ++ " " ++ rest
  | .recovery => do
    let p ← phrase
    return "# - recovery_phrase=\"" ++ p ++ "\""

/-- `dump`: `z_exportwallet`. -/
def dump (r : DumpRequest) : M String := do
  let _ ← keys
  let _ ← Proc.forEach (dumpLine C L) r.lines
  writeNew r.path
  return r.path

/-- `backup`: `backupwallet`. -/
def backup (r : BackupRequest) : M String := do
  match ← catchRefused (writeNew r.path) with
  | .ok () => return r.path
  | .error _ => no Refuse.failed "Error: Wallet backup failed!"

end

/-! ## Reading a dump -/

/-- `str::lines`, with a `\r` at a line's end dropped. -/
def lines (cs : List Char) : List (List Char) :=
  let ls := cs.splitOn '\n'
  (if ls.getLast? = some [] then ls.dropLast else ls).map fun l ↦ l.rdropWhile (· = '\r')

/-- `str::strip_prefix`. -/
def stripStart (p : String) (cs : List Char) : Option (List Char) :=
  if p.toList.isPrefixOf cs then some (cs.drop p.toList.length) else none

/-- `str::to_lowercase`.  The set ids, txids and sighashes it is applied to were found to be
hexadecimal; the lines of builds and recipients, of which only the length is checked, are taken to be
ASCII. -/
def lower (cs : List Char) : String := Text.toAsciiLowercase (String.ofList cs)

/-- Sixty-four hexadecimal digits. -/
def isHex64 (cs : List Char) : Bool := cs.length = 64 && cs.all fun c ↦ (Text.hexDigit? c).isSome

/-- `str::parse` of an unsigned type below `bound`. -/
def parseUInt (bound : Nat) (cs : List Char) : Option Nat :=
  (Text.fromStrRadix Text.decDigit? 10 bound cs).toOption

/-- The record of a `vaultsetsig=` line. -/
def recordOfDump (body : List Char) : Option SignedRecord :=
  match body.splitOn ':' with
  | [set, txid, n, role, sighash] =>
    if isHex64 set ∧ isHex64 txid ∧ (parseUInt (2 ^ 32) n).isSome ∧ (role = ['1'] ∨ role = ['2']) ∧
        isHex64 sighash then
      some ⟨lower set, lower txid ++ ":" ++ String.ofList n, if role = ['1'] then 1 else 2,
        lower sighash⟩
    else none
  | _ => none

/-- The entry of a `vaultbuild=` line. -/
def buildOfDump (body : List Char) : Option (String × String) :=
  match body.splitOn ':' with
  | [txid, n, rest] =>
    if Text.byteLen txid = 64 ∧ (parseUInt (2 ^ 32) n).isSome then
      some (lower txid ++ ":" ++ String.ofList n, String.ofList rest)
    else none
  | _ => none

/-- The entry of a `vaultrecipient=` line. -/
def recipientOfDump (body : List Char) : Option (String × String) :=
  let (h, rest) := body.span (· ≠ ':')
  match rest with
  | _ :: script => if Text.byteLen h = 64 then some (lower h, lower script) else none
  | [] => none

/-- The key of a `pqseed=` line: its scheme, its index if it is one, and its seed. -/
def pqOfDump (body : List Char) : Option (UInt8 × Option UInt32 × Bytes) :=
  match body.splitOn ':' with
  | [scheme, index, seed] => do
    let scheme ← parseUInt (2 ^ 8) scheme
    let index ← parseUInt (2 ^ 64) index
    let seed ← Hex.decodeChars seed
    some (UInt8.ofNat scheme, if index < 2 ^ 32 then some (UInt32.ofNat index) else none, seed)
  | _ => none

/-- The loop of `decode_dump_string`: `%xx` escapes, as bytes.  A slice that ends inside a character
panics. -/
def decodeEscapes : List Char → Except (Halt String) Bytes
  | [] => .ok []
  | c :: cs =>
    if c = '%' ∧ 2 ≤ Text.byteLen cs then
      match cs with
      | a :: b :: ds =>
        if a.utf8Size = 1 then
          if b.utf8Size ≠ 1 then .error .panic
          else match byteOfHex [a, b] with
            | .ok v => (decodeEscapes ds).map (v :: ·)
            | .error _ => (decodeEscapes (a :: b :: ds)).map (0x25 :: ·)
        else if a.utf8Size = 2 then (decodeEscapes (a :: b :: ds)).map (0x25 :: ·)
        else .error .panic
      | [a] =>
        if a.utf8Size = 2 then (decodeEscapes [a]).map (0x25 :: ·) else .error .panic
      | [] => .ok [0x25]
    else (decodeEscapes cs).map (String.utf8EncodeChar c ++ ·)
termination_by cs => cs.length

/-- What may follow the first byte of a character: how many bytes, and the bounds of the first of
them. -/
def utf8Tail (b : UInt8) : Option (Nat × UInt8 × UInt8) :=
  if 0xc2 ≤ b ∧ b ≤ 0xdf then some (1, 0x80, 0xbf)
  else if b = 0xe0 then some (2, 0xa0, 0xbf)
  else if b = 0xed then some (2, 0x80, 0x9f)
  else if 0xe1 ≤ b ∧ b ≤ 0xef then some (2, 0x80, 0xbf)
  else if b = 0xf0 then some (3, 0x90, 0xbf)
  else if b = 0xf4 then some (3, 0x80, 0x8f)
  else if 0xf1 ≤ b ∧ b ≤ 0xf3 then some (3, 0x80, 0xbf)
  else none

/-- How many of the bytes behind a first byte belong to its character. -/
def utf8Run (b : UInt8) (bs : Bytes) : Nat :=
  match utf8Tail b, bs with
  | some (n, lo, hi), c :: cs =>
    if lo ≤ c ∧ c ≤ hi then
      1 + ((cs.take (n - 1)).takeWhile fun d ↦ 0x80 ≤ d ∧ d ≤ 0xbf).length
    else 0
  | _, _ => 0

/-- `String::from_utf8_lossy`: what is no character becomes U+FFFD. -/
def fromUtf8Lossy : Nat → Bytes → List Char
  | 0, _ => []
  | _ + 1, [] => []
  | n + 1, b :: bs =>
    let k := utf8Run b bs
    match Text.fromUtf8 (b :: bs.take k) with
    | some [c] => c :: fromUtf8Lossy n (bs.drop k)
    | _ => Char.ofNat 0xfffd :: fromUtf8Lossy n (bs.drop k)

/-- `decode_dump_string`. -/
def decodeDumpString (cs : List Char) : Except (Halt String) String :=
  (decodeEscapes cs).map fun b ↦ String.ofList (fromUtf8Lossy (b.length + 1) b)

/-- The label of a key's line: none for change and reserve keys, the last one otherwise; a comment
ends the search. -/
def labelOf : Option String → List (List Char) → Except (Halt String) (Option String)
  | label, [] => .ok label
  | label, t :: ts =>
    if t.head? = some '#' then .ok label
    else
      let label := if t = "change=1".toList ∨ t = "reserve=1".toList then none else label
      match stripStart "label=" t with
      | some l => do
        let l ← decodeDumpString l
        labelOf (some l) ts
      | none => labelOf label ts

/-- What the lines of a dump have come to. -/
structure DumpState where
  out : ImportDumpResult
  records : List SignedRecord
  bad : Bool

namespace DumpState

def empty : DumpState := ⟨⟨[], [], [], [], 0, 0⟩, [], false⟩

def fail (d : DumpState) : DumpState := { d with bad := true }

def addBuild (d : DumpState) (b : String × String) : DumpState :=
  { d with out := { d.out with builds := d.out.builds ++ [b] } }

def addRecipient (d : DumpState) (b : String × String) : DumpState :=
  { d with out := { d.out with recipients := d.out.recipients ++ [b] } }

def addPq (d : DumpState) (k : Proto.PqImported) : DumpState :=
  { d with out := { d.out with pq := d.out.pq ++ [k] } }

def addKey (d : DumpState) (k : ImportedKey) (label : Option String) : DumpState :=
  { d with out := { d.out with keys := d.out.keys ++ [(k, label)] } }

def skipZkey (d : DumpState) : DumpState :=
  { d with out := { d.out with skippedZkeys := d.out.skippedZkeys + 1 } }

end DumpState

section

variable (C : Crypto) (L : Sapling.Lib)

/-- A `pqseed=` line. -/
def importPqLine (d : DumpState) (body : List Char) : M DumpState := do
  match pqOfDump body with
  | none => return d.fail
  | some (scheme, index, seed) =>
    match ← catchRefused (addPq C scheme index seed) with
    | .ok k => return d.addPq k
    | .error _ => return d.fail

/-- A line that begins with a WIF. -/
def importKeyLine (d : DumpState) (w : List Char) (rest : List (List Char)) : M DumpState := do
  match decodeWif C (← core).network (String.ofList w) with
  | .error _ => return d
  | .ok sk =>
    let label ← orHalt Refuse.failed id (labelOf (some "") rest)
    match ← addImported C sk with
    | .ok (index, new) =>
      return d.addKey ⟨index, Hex.encode (C.publicKey sk).toList, new⟩ label
    | .error _ => return d.fail

/-- Whether a spending key's text is the wallet's own. -/
def isOwnZkey (w : List Char) : M Bool := do
  let c ← core
  return match c.ks.mnemonic with
    | none => false
    | some p =>
      match L.spendingKeyText c.network p with
      | .ok text => decide (text.toList = w)
      | .error _ => false

/-- A line that holds keys, split at its blanks. -/
def importSecretLine (zkeys : Bool) (d : DumpState) (w : List Char) (rest : List (List Char)) :
    M DumpState := do
  if zkeys ∧ L.isSpendingKey (← core).network (String.ofList w) then
    return if ← isOwnZkey L w then d else d.skipZkey
  else
    match stripStart "pqseed=" w with
    | some body => importPqLine C d body
    | none => importKeyLine C d w (rest.drop 1)

/-- One line of a dump. -/
def importLine (zkeys : Bool) (d : DumpState) (line : List Char) : M DumpState := do
  if line = [] ∨ line.head? = some '#' then return d
  else
    match line.splitOn ' ' with
    | [] => return d
    | w :: rest =>
      if (stripStart "vaultsetsigs=" w).isSome then return d
      else match stripStart "vaultsetsig=" w with
        | some body =>
          match recordOfDump body with
          | some r => return { d with records := d.records ++ [r] }
          | none => no Refuse.malformed ("malformed vaultsetsig line: " ++ String.ofList w)
        | none =>
          match stripStart "vaultbuild=" w, stripStart "vaultrecipient=" w with
          | some body, _ => return (buildOfDump body).elim d.fail d.addBuild
          | none, some body => return (recipientOfDump body).elim d.fail d.addRecipient
          | none, none =>
            if rest = [] then return d else importSecretLine C L zkeys d w rest

/-- The lines of a dump, one after another. -/
def importLines (zkeys : Bool) : DumpState → List (List Char) → M DumpState
  | d, [] => return d
  | d, l :: ls => do
    let d ← importLine C L zkeys d l
    importLines zkeys d ls

/-- The watch of a new key of a dump. -/
def markDumped (members : Option (List String)) (k : ImportedKey × Option String) : M Unit := do
  if k.1.new then
    let hash := match Hex.decode k.1.pubkey with
      | some p => Hex.encode (C.hash160 p).toList
      | none => ""
    orRefuse Refuse.failed ("cannot write the vault sign-once restore marker: " ++ ·)
      (← keyImported hash members)
  else return ()

/-- The import of records, with the code its refusal has. -/
def importRecords (rs : List SignedRecord) : M (Nat × Nat) := do
  match ← importOnce rs with
  | .ok counts => return counts
  | .error e =>
    if "set-sign-once".toList.isPrefixOf e.toList then no Refuse.setSignOnce e
    else no Refuse.failed e

/-- The records of a dump: how many there were. -/
def importDumped (rs : List SignedRecord) : M Nat := do
  if rs = [] then return 0
  else
    let counts ← importRecords rs
    return counts.1 + counts.2

/-- `import_dump`: `importwallet` and `z_importwallet`. -/
def importDump (r : ImportDumpRequest) : M ImportDumpResult := do
  let _ ← keys
  let s ← Proc.get
  let text ← orElse Refuse.malformed
    ("Cannot open wallet dump file " ++ r.path ++ ": No such file or directory")
    (s.env.files r.path)
  let d ← importLines C L r.zkeys .empty (lines text.toList)
  let _ ← Proc.forEach (markDumped C r.members) d.out.keys
  let records ← importDumped d.records
  if d.bad then no Refuse.failed "Error adding some keys to wallet"
  else return { d.out with records }

end

end Yew.Signer
