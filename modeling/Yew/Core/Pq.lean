import Yew.Core.Script
import Yew.Util.Text

/-!
# Post-quantum keys and the chunked stack

The scheme registry, `CPQKeyID`, the `TX_PQPKH` script and the chunked pushes that carry a
signature and a key too long for one stack element.

Keys and signatures are bytes here.  What a scheme signs is asked of `Crypto`.

## Source

* `core/src/pq.rs`: `PqError`, `is_known_scheme`, `key_hash`, `PqKeyId`, `PqKeyId::of`,
  `PqKeyId::to_bytes`, `PqKeyId::from_bytes`, `PqKeyId::is_known` and 9 more
-/

namespace Yew.Pq

open Script

/-- The scheme byte of SLH-DSA-SHA2-128s. -/
def schemeSlhDsa : UInt8 := 0x01

/-- The scheme byte of FN-DSA-512 (Falcon). -/
def schemeFnDsa : UInt8 := 0x02

/-- Every chunk of a signature or key but the last is exactly this long. -/
def maxChunk : Nat := maxScriptElementSize

/-- `OP_CHECKPQSIG`. -/
def opCheckpqsig : UInt8 := 0xc2

/-- The length of a `TX_PQPKH` script. -/
def pqpkhScriptSize : Nat := 35

/-- The seed length of both schemes. -/
def seedSize : Nat := 48

/-- `PqError`. -/
inductive PqError where
  | scheme (scheme : UInt8)
  | size (what : String) (got want : Nat)
  | tooManyChunks (n : Nat)
deriving DecidableEq

/-- The text of a `PqError`. -/
def PqError.text : PqError → String
  | .scheme s => "post-quantum scheme " ++ Text.decimal s.toNat ++ " is not supported here"
  | .size what got want =>
    "post-quantum " ++ what ++ ": " ++ Text.decimal got ++ " bytes, expected " ++ Text.decimal want
  | .tooManyChunks n =>
    "post-quantum element of " ++ Text.decimal n ++ " bytes needs more than 16 chunks"

/-- `is_known_scheme`. -/
def isKnownScheme (scheme : UInt8) : Bool := scheme = schemeSlhDsa || scheme = schemeFnDsa

/-- `CPQKeyID`: a scheme and the hash of a public key under it. -/
structure PqKeyId where
  scheme : UInt8
  hash : Arr 32
deriving DecidableEq

namespace PqKeyId

/-- The scheme is registered. -/
def isKnown (id : PqKeyId) : Bool := isKnownScheme id.scheme

/-- `scheme ‖ hash`. -/
def toBytes (id : PqKeyId) : Bytes := id.scheme :: id.hash.toList

/-- From `scheme ‖ hash`; any scheme byte is read. -/
def fromBytes : Bytes → Option PqKeyId
  | [] => none
  | scheme :: hash => (Bytes.toArr? 32 hash).map (⟨scheme, ·⟩)

end PqKeyId

/-- `key_hash`: SHA-256 of the scheme byte and the key. -/
def keyHash (C : Crypto) (scheme : UInt8) (pk : Bytes) : Arr 32 := C.sha256 (scheme :: pk)

/-- The id of a public key. -/
def PqKeyId.of (C : Crypto) (scheme : UInt8) (pk : Bytes) : PqKeyId := ⟨scheme, keyHash C scheme pk⟩

/-! ## `TX_PQPKH` -/

/-- `<hash> OP_scheme OP_CHECKPQSIG`, for a registered scheme. -/
def pqpkhScript (id : PqKeyId) : Option Bytes :=
  if id.isKnown then
    some (pushData id.hash.toList ++ [op1 + id.scheme - 1, opCheckpqsig])
  else none

/-- `pqpkh_of`: the key id of an exact `TX_PQPKH` script. -/
def pqpkhOf (spk : Bytes) : Option PqKeyId :=
  match spk with
  | [] => none
  | len :: rest =>
    match rest.drop 32 with
    | [scheme, check] =>
      if len = 0x20 ∧ (scheme = op1 ∨ scheme = op1 + 1) ∧ check = opCheckpqsig then
        (Bytes.toArr? 32 (rest.take 32)).map (⟨scheme - op1 + 1, ·⟩)
      else none
    | _ => none

/-! ## The chunked stack -/

/-- `chunks`, given as many steps as there are bytes. -/
def chunksAux : Nat → Bytes → List Bytes
  | 0, _ => []
  | fuel + 1, data =>
    if data.isEmpty then [] else data.take maxChunk :: chunksAux fuel (data.drop maxChunk)

/-- `chunks`: pieces of exactly 520 bytes, the last one of 1 to 520. -/
def chunks (data : Bytes) : List Bytes := chunksAux data.length data

/-- `push_chunked`: the chunks of one element and their count. -/
def pushChunked (data : Bytes) : Except PqError Bytes :=
  let c := chunks data
  if c.isEmpty ∨ c.length > 16 then .error (.tooManyChunks data.length)
  else .ok (c.flatMap pushData ++ pushInt c.length)

/-- `pq_sig_pushes`: the signature with its hash type, then the key, each chunked. -/
def pqSigPushes (sigWithHashtype pk : Bytes) : Except PqError Bytes := do
  let s ← pushChunked sigWithHashtype
  let k ← pushChunked pk
  return s ++ k

/-- `read_chunked`: the element whose count is the last operation before `stop`, and where its first
chunk stands. -/
def readChunked (ops : List ScriptOp) (stop : Nat) : Option (Bytes × Nat) :=
  match ops[stop - 1]? with
  | none => none
  | some count =>
    let n := count.opcode.toNat - op1.toNat + 1
    if stop = 0 ∨ count.opcode < op1 ∨ op16 < count.opcode ∨ stop < 1 + n then none
    else
      let first := stop - (1 + n)
      let chunks := (ops.drop first).take n
      let bad := chunks.any fun c ↦
        c.opcode > opPushdata4 || c.data.isEmpty || c.data.length > maxChunk
      if bad ∨ chunks.dropLast.any (fun c ↦ c.data.length ≠ maxChunk) then none
      else some (chunks.flatMap ScriptOp.data, first)

/-- `parse_pq_sig_ops`. -/
def parsePqSigOps (ops : List ScriptOp) : Option (Bytes × Bytes) := do
  let (pk, pkFirst) ← readChunked ops ops.length
  let (sig, sigFirst) ← readChunked ops pkFirst
  if sigFirst = 0 then some (sig, pk) else none

/-- `is_pq_script_sig`: a chunked signature and key, alone or with a selector behind them. -/
def isPqScriptSig (scriptSig : Bytes) : Bool :=
  match ops scriptSig with
  | .error _ => false
  | .ok os =>
    (parsePqSigOps os).isSome || (match os.getLast? with
      | none => false
      | some last => op1 ≤ last.opcode && last.opcode ≤ op16 && (parsePqSigOps os.dropLast).isSome)

/-- `MAX_STANDARD_PQ_SCRIPTSIG`. -/
def maxStandardPqScriptsig : Nat := 9000

/-- `pqpkh_script_sig`. -/
def pqpkhScriptSig (sigWithHashtype pk : Bytes) : Except PqError Bytes :=
  pqSigPushes sigWithHashtype pk

theorem pqpkhOf_eq_some {script : Bytes} {id : PqKeyId} (hs : pqpkhOf script = some id) :
    pqpkhScript id = some script := by
  unfold pqpkhOf at hs
  split at hs
  · cases hs
  · rename_i len rest
    split at hs
    · rename_i scheme check hd
      split at hs
      · rename_i hc
        obtain ⟨rfl, hsch, rfl⟩ := hc
        obtain ⟨h, hh, rfl⟩ := Option.map_eq_some_iff.mp hs
        have hrest : rest = h.toList ++ [scheme, opCheckpqsig] := by
          rw [← List.take_append_drop 32 rest, hd, Bytes.toArr?_eq_some.mp hh]
        have hpush : pushData h.toList = 0x20 :: h.toList := by
          simp [pushData, opPushdata1]
        rcases hsch with rfl | rfl
        · simp [pqpkhScript, PqKeyId.isKnown, isKnownScheme, hpush, hrest]
          decide
        · simp [pqpkhScript, PqKeyId.isKnown, isKnownScheme, hpush, hrest]
          decide
      · cases hs
    · cases hs

theorem pqpkhOf_p2pkhScript (h : Arr 20) : pqpkhOf (p2pkhScript h) = none := by
  have hpush : pushData h.toList = 20 :: h.toList := by simp [pushData, opPushdata1]
  simp [pqpkhOf, p2pkhScript, hpush, List.drop_eq_nil_of_le]

theorem pqpkhOf_pqpkhScript {id : PqKeyId} {script : Bytes} (h : pqpkhScript id = some script) :
    pqpkhOf script = some id := by
  obtain ⟨scheme, hash⟩ := id
  unfold pqpkhScript at h
  split at h
  · rename_i hknown
    cases h
    have hpush : pushData hash.toList = 0x20 :: hash.toList := by
      simp [pushData, opPushdata1]
    have hlen : hash.toList.length = 32 := hash.toList_length
    have hdrop (x : Bytes) : (hash.toList ++ x).drop 32 = x := List.drop_left' hlen
    have htake (x : Bytes) : (hash.toList ++ x).take 32 = hash.toList := List.take_left' hlen
    have hscheme : scheme = schemeSlhDsa ∨ scheme = schemeFnDsa := by
      simpa [PqKeyId.isKnown, isKnownScheme] using hknown
    rw [hpush]
    rcases hscheme with rfl | rfl
    · simp [pqpkhOf, hdrop, htake]
      decide
    · simp [pqpkhOf, hdrop, htake]
      decide
  · cases h

end Yew.Pq
