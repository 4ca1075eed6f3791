import Yew.Core.Vault

/-!
# Transactions

The version 4 transparent serializer, the parser (which also skips over shielded parts by their
fixed sizes) and the ZIP-243 signature hash.  Amounts are 64-bit and counts are read as the
parser's own integer types, so that what it does on hostile bytes is what the source does.

A count that is narrowed to `usize` takes the width of a pointer as an argument, 64 unless it is
said otherwise.

## Source

* `core/src/tx.rs`: `TxError`, `OutPoint`, `OutPoint::display`, `txid_hex`, `TxIn`, `TxOut`,
  `ShieldedSummary`, `ShieldedSummary::any` and 15 more
* `core/src/coins.rs`: `UtxoClass::parse`
* `yewd/wallet/src/lib.rs`: `txid_hex`
-/

namespace Yew.Tx

open Script

/-- `TxError`. -/
inductive TxError where
  /-- The bytes ended before the structure did. -/
  | truncated (pos : Nat)
  /-- A version and version group the node would reject. -/
  | version (header group : UInt32)
  /-- Bytes behind a complete transaction. -/
  | trailing (n : Nat)
  /-- The transaction has shielded components and is not serialized here. -/
  | shielded
  /-- The input index is out of range. -/
  | inputIndex (i : Nat)
  /-- A scriptSig over the relay limit. -/
  | scriptSigSize (i size limit : Nat)
deriving DecidableEq

/-- The text of a `TxError`, the header words in hexadecimal. -/
def TxError.text : TxError → String
  | .truncated pos => "truncated transaction at byte " ++ Text.decimal pos
  | .version h g =>
    let word (w : UInt32) := "0x" ++ Hex.encode (Bytes.leOfNat 4 w.toNat).reverse
    "unsupported transaction version: header " ++ word h ++ ", group " ++ word g
  | .trailing n => Text.decimal n ++ " trailing bytes"
  | .shielded => "transaction has shielded components; YEW only serializes transparent v4"
  | .inputIndex i => "input index " ++ Text.decimal i ++ " out of range"
  | .scriptSigSize i size limit => "scriptsig-size: input " ++ Text.decimal i ++ "'s scriptSig is " ++
      Text.decimal size ++ " bytes, over the relay limit " ++ Text.decimal limit

/-- A reference to an output, the txid in internal byte order. -/
structure OutPoint where
  txid : Arr 32
  n : UInt32
deriving DecidableEq

/-- `txid_hex`: the display form of a txid. -/
def txidHex (txid : Arr 32) : String := Hex.encode txid.rev.toList

/-- `OutPoint::display`. -/
def OutPoint.display (o : OutPoint) : String := txidHex o.txid ++ ":" ++ Text.decimal o.n.toNat

/-- `TxIn`. -/
structure TxIn where
  prevout : OutPoint
  scriptSig : Bytes
  sequence : UInt32
deriving DecidableEq

/-- `TxOut`. -/
structure TxOut where
  value : Int64
  scriptPubkey : Bytes
deriving DecidableEq

/-- What a parsed transaction carried besides its transparent part. -/
structure ShieldedSummary where
  spends : Nat
  outputs : Nat
  joinsplits : Nat
  valueBalance : Int64
deriving DecidableEq

/-- True when any shielded component is present. -/
def ShieldedSummary.any (s : ShieldedSummary) : Bool :=
  s.spends > 0 || s.outputs > 0 || s.joinsplits > 0

/-- No shielded component: `ShieldedSummary::default()`. -/
def ShieldedSummary.empty : ShieldedSummary := ⟨0, 0, 0, 0⟩

/-- `Transaction`. -/
structure Transaction where
  header : UInt32
  versionGroupId : UInt32
  vin : List TxIn
  vout : List TxOut
  lockTime : UInt32
  expiryHeight : UInt32
  shielded : ShieldedSummary
deriving DecidableEq

/-- The header word of version 4. -/
def txHeaderV4 : UInt32 := 0x80000004

def saplingVersionGroupId : UInt32 := 0x892F2085
def overwinterVersionGroupId : UInt32 := 0x03C48270
def sequenceFinal : UInt32 := 0xFFFFFFFF

/-- `SIGHASH_ALL`. -/
def sighashAll : UInt32 := 1

/-- `ANYONECANPAY`. -/
def anyonecanpay : UInt32 := 0x80

def spendDescriptionSize : Nat := 384
def outputDescriptionSize : Nat := 948
def joinsplitGrothSize : Nat := 1698
def joinsplitPhgrSize : Nat := 1802
def joinsplitPubkeySize : Nat := 32
def joinsplitSigSize : Nat := 64
def bindingSigSize : Nat := 64

namespace Transaction

/-- `fOverwintered`, of a header word. -/
def overwinteredOf (header : UInt32) : Bool := header &&& 0x80000000 ≠ 0

/-- `nVersion`, of a header word. -/
def versionOf (header : UInt32) : UInt32 := header &&& 0x7fffffff

/-- `is_sapling_v4`, of a header word and a version group. -/
def saplingV4Of (header group : UInt32) : Bool :=
  overwinteredOf header && group = saplingVersionGroupId && versionOf header = 4

/-- `is_overwinter_v3`, of a header word and a version group. -/
def overwinterV3Of (header group : UInt32) : Bool :=
  overwinteredOf header && group = overwinterVersionGroupId && versionOf header = 3

/-- `is_sapling_v4`. -/
def isSaplingV4 (t : Transaction) : Bool := saplingV4Of t.header t.versionGroupId

/-- `is_overwinter_v3`. -/
def isOverwinterV3 (t : Transaction) : Bool := overwinterV3Of t.header t.versionGroupId

end Transaction

/-! ## Writing -/

/-- `write_compact_size`. -/
def writeCompactSize (n : Nat) : Bytes :=
  if n < 253 then [UInt8.ofNat n]
  else if n ≤ 0xffff then 253 :: Bytes.leOfNat 2 n
  else if n ≤ 0xffffffff then 254 :: Bytes.leOfNat 4 n
  else 255 :: Bytes.leOfNat 8 n

/-- A 32-bit word, little-endian. -/
def writeU32 (n : UInt32) : Bytes := Bytes.leOfNat 4 n.toNat

/-- A 64-bit amount, as the unsigned word of the same bits. -/
def writeI64 (n : Int64) : Bytes := Bytes.leOfNat 8 n.toUInt64.toNat

/-- An outpoint as serialized. -/
def writeOutPoint (o : OutPoint) : Bytes := o.txid.toList ++ writeU32 o.n

/-- A script with its length. -/
def writeScript (s : Bytes) : Bytes := writeCompactSize s.length ++ s

/-- `write_txin`. -/
def writeTxin (i : TxIn) : Bytes :=
  writeOutPoint i.prevout ++ writeScript i.scriptSig ++ writeU32 i.sequence

/-- `write_txout`. -/
def writeTxout (o : TxOut) : Bytes := writeI64 o.value ++ writeScript o.scriptPubkey

/-- `Transaction::serialize`: the transparent version 4 (or 3) form. -/
def Transaction.serialize (t : Transaction) : Except TxError Bytes :=
  if t.shielded.any then .error .shielded
  else if !(t.isSaplingV4 || t.isOverwinterV3) then .error (.version t.header t.versionGroupId)
  else .ok (writeU32 t.header ++ writeU32 t.versionGroupId ++
    writeCompactSize t.vin.length ++ t.vin.flatMap writeTxin ++
    writeCompactSize t.vout.length ++ t.vout.flatMap writeTxout ++
    writeU32 t.lockTime ++ writeU32 t.expiryHeight ++
    -- valueBalance and the two empty Sapling vectors
    (if t.isSaplingV4 then writeI64 0 ++ writeCompactSize 0 ++ writeCompactSize 0 else []) ++
    writeCompactSize 0)

/-! ## Reading -/

/-- The reader's place: how many bytes are consumed and which are left. -/
structure Cursor where
  pos : Nat
  rest : Bytes
deriving DecidableEq

/-- A read that may run out of bytes. -/
abbrev Read := StateT Cursor (Except TxError)

/-- `Reader::take`. -/
def take (n : Nat) : Read Bytes := fun r ↦
  match Bytes.split? n r.rest with
  | some (b, rest) => .ok (b, ⟨r.pos + n, rest⟩)
  | none => .error (.truncated r.pos)

/-- Stop as truncated at the present position. -/
def truncated {α : Type} : Read α := fun r ↦ .error (.truncated r.pos)

/-- `Reader::u32`. -/
def readU32 : Read UInt32 := do
  let s ← take 4
  return UInt32.ofNat (Bytes.leToNat s)

/-- `Reader::u64`. -/
def readU64 : Read Nat := do
  let s ← take 8
  return Bytes.leToNat s

/-- `Reader::u64` read as an `i64`. -/
def readI64 : Read Int64 := do
  let n ← readU64
  return (UInt64.ofNat n).toInt64

/-- `Reader::compact_size`: any of the four forms, minimal or not. -/
def compactSize : Read Nat := do
  let first ← take 1
  match Bytes.leToNat first with
  | 253 => return Bytes.leToNat (← take 2)
  | 254 => return (← readU32).toNat
  | 255 => readU64
  | n => return n

/-- `Reader::var_bytes`. -/
def varBytes : Read Bytes := do
  let n ← compactSize
  if n > 2 ^ 24 then truncated else take n

/-- One input. -/
def readTxin : Read TxIn := do
  let b ← take 32
  let some txid := Bytes.toArr? 32 b | truncated
  let idx ← readU32
  let scriptSig ← varBytes
  let sequence ← readU32
  return ⟨⟨txid, idx⟩, scriptSig, sequence⟩

/-- One output. -/
def readTxout : Read TxOut := do
  let value ← readI64
  let scriptPubkey ← varBytes
  return ⟨value, scriptPubkey⟩

/-- A counted sequence: `for _ in 0..n`. -/
def readMany {α : Type} (item : Read α) : Nat → Read (List α)
  | 0 => return []
  | n + 1 => do
    let a ← item
    let as ← readMany item n
    return a :: as

/-- A count of shielded descriptions of `size` bytes each, and the descriptions skipped.  The
count is narrowed to `usize` and multiplied with an overflow check, `w` being the pointer width. -/
def skipDescriptions (w size : Nat) : Read Nat := do
  let count ← compactSize
  let count := count % 2 ^ w
  if count * size < 2 ^ w then
    let _ ← take (count * size)
    return count
  else truncated

/-- The shielded part of a transaction, skipped and counted. -/
def readShielded (w : Nat) (header group : UInt32) : Read ShieldedSummary := do
  let v4 := Transaction.saplingV4Of header group
  let mut s := ShieldedSummary.empty
  if v4 then
    let valueBalance ← readI64
    let spends ← skipDescriptions w spendDescriptionSize
    let outputs ← skipDescriptions w outputDescriptionSize
    s := { s with valueBalance, spends, outputs }
  if 2 ≤ Transaction.versionOf header then
    let joinsplits ← skipDescriptions w (if v4 then joinsplitGrothSize else joinsplitPhgrSize)
    if joinsplits > 0 then
      let _ ← take (joinsplitPubkeySize + joinsplitSigSize)
    s := { s with joinsplits }
  if v4 && (s.spends > 0 || s.outputs > 0) then
    let _ ← take bindingSigSize
  return s

/-- The whole transaction, with what is left behind it still in the reader. -/
def readTransaction (w : Nat) : Read Transaction := do
  let header ← readU32
  let overwintered := Transaction.overwinteredOf header
  let versionGroupId ← if overwintered then readU32 else pure 0
  if overwintered && !(Transaction.overwinterV3Of header versionGroupId ||
      Transaction.saplingV4Of header versionGroupId) then
    throw (.version header versionGroupId)
  let vin ← readMany readTxin (← compactSize)
  let vout ← readMany readTxout (← compactSize)
  let lockTime ← readU32
  let expiryHeight ← if overwintered then readU32 else pure 0
  let shielded ← readShielded w header versionGroupId
  return { header, versionGroupId, vin, vout, lockTime, expiryHeight, shielded }

/-- `Transaction::parse` without the txid, compiled for a pointer width of `w` bits. -/
def Transaction.parseAt (w : Nat) (bytes : Bytes) : Except TxError Transaction :=
  match readTransaction w ⟨0, bytes⟩ with
  | .error e => .error e
  | .ok (t, r) => if r.rest.isEmpty then .ok t else .error (.trailing r.rest.length)

/-- `Transaction::parse`: the transaction and its txid, on a 64-bit machine. -/
def Transaction.parse (C : Crypto) (bytes : Bytes) : Except TxError (Transaction × Arr 32) := do
  let t ← Transaction.parseAt 64 bytes
  return (t, C.sha256d bytes)

/-! ## Relay limits -/

/-- `MAX_STANDARD_SCRIPT_SIG`. -/
def maxStandardScriptSig : Nat := 1650

/-- The loop of `check_script_sig_sizes` over the inputs from index `i` on. -/
def checkScriptSigSizesFrom : Nat → List TxIn → Except TxError Unit
  | _, [] => .ok ()
  | i, t :: ts =>
    let size := t.scriptSig.length
    let limit := if size ≤ maxStandardScriptSig ∨ !Pq.isPqScriptSig t.scriptSig then
      maxStandardScriptSig else Pq.maxStandardPqScriptsig
    if size > limit then .error (.scriptSigSize i size limit) else checkScriptSigSizesFrom (i + 1) ts

/-- `check_script_sig_sizes`. -/
def Transaction.checkScriptSigSizes (t : Transaction) : Except TxError Unit :=
  checkScriptSigSizesFrom 0 t.vin

/-! ## The signature hash -/

section Sighash

variable (C : Crypto)

/-- The ASCII bytes of a personalisation. -/
def person (s : String) : Bytes := Text.utf8 s.toList

/-- `hashPrevouts`. -/
def hashPrevouts (t : Transaction) (hashType : UInt32) : Bytes :=
  if hashType &&& anyonecanpay = 0 then
    (C.blake2b256 (person "ZcashPrevoutHash")
      (t.vin.flatMap fun i ↦ writeOutPoint i.prevout)).toList
  else List.replicate 32 0

/-- `hashSequence`. -/
def hashSequence (t : Transaction) (hashType : UInt32) : Bytes :=
  let base := hashType &&& 0x1f
  if hashType &&& anyonecanpay = 0 ∧ base ≠ 3 ∧ base ≠ 2 then
    (C.blake2b256 (person "ZcashSequencHash") (t.vin.flatMap fun i ↦ writeU32 i.sequence)).toList
  else List.replicate 32 0

/-- `hashOutputs`: all outputs, or for `SINGLE` the one at the input's index. -/
def hashOutputs (t : Transaction) (index : Nat) (hashType : UInt32) : Bytes :=
  let base := hashType &&& 0x1f
  if base ≠ 3 ∧ base ≠ 2 then
    (C.blake2b256 (person "ZcashOutputsHash") (t.vout.flatMap writeTxout)).toList
  else match t.vout[index]? with
    | some o =>
      if base = 3 then (C.blake2b256 (person "ZcashOutputsHash") (writeTxout o)).toList
      else List.replicate 32 0
    | none => List.replicate 32 0

/-- The ZIP-243 preimage of one input, the three shielded hashes zero. -/
def sighashPreimage (t : Transaction) (index : Nat) (i : TxIn) (scriptCode : Bytes)
    (amount : Int64) (hashType : UInt32) : Bytes :=
  let zero : Bytes := List.replicate 32 0
  writeU32 t.header ++ writeU32 t.versionGroupId ++ hashPrevouts C t hashType ++
    hashSequence C t hashType ++ hashOutputs C t index hashType ++ zero ++ zero ++ zero ++
    writeU32 t.lockTime ++ writeU32 t.expiryHeight ++ writeI64 0 ++ writeU32 hashType ++
    writeOutPoint i.prevout ++ writeScript scriptCode ++ writeI64 amount ++ writeU32 i.sequence

/-- `Transaction::sighash`. -/
def Transaction.sighash (t : Transaction) (index : Nat) (scriptCode : Bytes) (amount : Int64)
    (hashType branchId : UInt32) : Except TxError (Arr 32) :=
  match t.vin[index]? with
  | none => .error (.inputIndex index)
  | some i =>
    if t.shielded.any then .error .shielded
    else .ok (C.blake2b256 (person "ZcashSigHash" ++ writeU32 branchId)
      (sighashPreimage C t index i scriptCode amount hashType))

end Sighash

end Yew.Tx
