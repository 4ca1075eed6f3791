import Yew.Proto.Act

/-!
# The façade's requests and the signer's answers

The messages of the protocol, field by field, and the codes of the signer's refusals.

The fields are those of the source's records, without the ones no modelled function reads.

## Source

* `yewd/proto/src/lib.rs`: `Prevout`, `KeyRef`, `SignInput`, `OwnOutput`, `PreviewCoin`,
  `PreviewOutput`, `Preview`, `GatePath` and 39 more
* `yewd/signer/src/pqimported.rs`: `PqImported`
* `yewd/wallet/src/lib.rs`: `request`
* `yewd/wallet/src/vaultrpc.rs`: `Wallet::signed_records`
* `yewd/wallet/src/zfund.rs`: `Wallet::sapling_part`
-/

namespace Yew.Proto

open Tx

/-- `Prevout`: a spent output as the caller states it. -/
structure Prevout where
  outpoint : String
  script : String
  amountZat : Int64
deriving DecidableEq

/-- `KeyRef`: a key named by its derivation. -/
inductive KeyRef where
  | none
  | bip32 (chain index : UInt32)
  | pq (scheme : UInt8) (index : UInt32)
  | pqOwner (scheme : UInt8) (index : UInt32) (selector : UInt8)
  | carrier (chain index : UInt32)
  | bond (chain index locktime : UInt32)
deriving DecidableEq

/-- `IMPORTED_CHAIN`. -/
def importedChain : UInt32 := 2

/-- `IMPORTED_PQ_BASE`. -/
def importedPqBase : UInt32 := 0x80000000

/-- `SignInput`. -/
structure SignInput where
  prevout : Prevout
  key : KeyRef
  carrierBundle : Option String

/-- `OwnOutput`. -/
structure OwnOutput where
  n : UInt32
  key : KeyRef
  bondLocktime : Option UInt32

/-- `PreviewCoin`. -/
structure PreviewCoin where
  vin : Nat
  outpoint : String
  amountZat : Int64
deriving DecidableEq

/-- `PreviewOutput`. -/
structure PreviewOutput where
  n : Nat
  amountZat : Int64
  address : Option String
  script : Option String
  mine : Bool
  kind : String
deriving DecidableEq

/-- `Preview`. -/
structure Preview where
  sign : List PreviewCoin
  outputs : List PreviewOutput
  feeZat : Int64
  outflowZat : Int64
deriving DecidableEq

/-- `GatePath`. -/
inductive GatePath where
  | yec
  | vault
  | owner
  | yed
  | raw
deriving DecidableEq

/-- The name a refusal prints for a gate path. -/
def GatePath.debug : GatePath → String
  | yec => "Yec"
  | vault => "Vault"
  | owner => "Owner"
  | yed => "Yed"
  | raw => "Raw"

/-- `SaplingSpend`. -/
structure SaplingSpend where
  recipient : String
  value : UInt64
  rseed : String
  afterZip212 : Bool
  internal : Bool
  position : UInt64
  path : List String

/-- `SaplingTInput`. -/
structure SaplingTInput where
  prevout : Prevout
  key : KeyRef

/-- `SaplingOut`. -/
inductive SaplingOut where
  | transparent (script : String) (value : Int64) (own : Bool)
  | shielded (address : String) (value : Int64) (memo : String) (own : Bool)
  | change (value : Int64)

/-- `SaplingPart`. -/
structure SaplingPart where
  targetHeight : UInt32
  vaultHeight : Option UInt32
  spends : List SaplingSpend
  outputs : List SaplingOut
  anchor : String
  paramsDir : String

/-- `SaplingBuildRequest`. -/
structure SaplingBuildRequest where
  targetHeight : UInt32
  expiryHeight : UInt32
  vaultHeight : Option UInt32
  inputs : List SaplingTInput
  spends : List SaplingSpend
  outputs : List SaplingOut
  feeZat : Int64
  anchor : String
  outflowCapZat : Int64
  paramsDir : String

/-- `SignRequest`. -/
structure SignRequest where
  tx : String
  branchId : UInt32
  inputs : List SignInput
  ownOutputs : List OwnOutput
  gatePath : GatePath
  outflowCapZat : Int64
  preview : Preview
  sapling : Option SaplingPart

/-- `Signed`. -/
structure Signed where
  tx : String
  sighashes : List (Option String)
deriving DecidableEq

/-- `ActSignRequest`. -/
structure ActSignRequest where
  tx : String
  keys : List KeyRef

/-- `ActSigs`. -/
structure ActSigs where
  payload : String
  msg : String
  sigs : List String
deriving DecidableEq

/-- `SetSignRequest`. -/
structure SetSignRequest where
  tx : String
  branchId : UInt32
  index : UInt32
  prevout : Prevout
  setId : String
  role : UInt8
  keys : List KeyRef
  acknowledgeRestore : Bool

/-- `SetSigs`. -/
structure SetSigs where
  sighash : String
  msg : String
  sigs : List String
deriving DecidableEq

/-- `SignedRecord`. -/
structure SignedRecord where
  setid : String
  prevout : String
  role : UInt8
  sighash : String
deriving DecidableEq

/-- `SignedRecords`. -/
structure SignedRecords where
  restored : Bool
  records : List SignedRecord
  pending : Nat
deriving DecidableEq

/-- `AttestRequest`. -/
structure AttestRequest where
  key : KeyRef
  pubkey : String
  seq : UInt16
  priceMicroUsd : UInt32
  citedHeight : UInt32
  blockHash : String

/-- `AttestSigned`. -/
structure AttestSigned where
  hex : String
  reused : Bool
deriving DecidableEq

/-- `CosignRequest`. -/
structure CosignRequest where
  key : KeyRef
  pubkey : String
  seq : UInt16
  setId : String
  intent : String
  refHeight : UInt32
  blockHash : String
  priceMicroUsd : Option UInt32
  collateralZat : Int64
  mintedCents : Int64
  claimThresholdBps : Int64

/-- `Cosigned`. -/
structure Cosigned where
  cosig : String
  priceMicroUsd : UInt32
  reused : Bool
deriving DecidableEq

/-- `ImportedKey`. -/
structure ImportedKey where
  index : Nat
  pubkey : String
  new : Bool
deriving DecidableEq

/-- `PqImportRequest`. -/
structure PqImportRequest where
  scheme : UInt8
  index : Option UInt32
  seed : String

/-- `PqImported`. -/
structure PqImported where
  scheme : UInt8
  index : Nat
  own : Bool
  pk : String
  added : Bool
deriving DecidableEq

/-- `AccountXpub`. -/
structure AccountXpub where
  pubkey : String
  chainCode : String
deriving DecidableEq

/-- `PqPublic`. -/
structure PqPublic where
  scheme : UInt8
  index : Nat
  pk : String
deriving DecidableEq

/-- `PublicBundle`. -/
structure PublicBundle where
  format : String
  network : String
  seedFp : String
  account : AccountXpub
  saplingDfvk : String
  pq : List PqPublic
  imported : List String
deriving DecidableEq

/-- `WalletState`. -/
structure WalletState where
  encrypted : Bool
  unlockedUntil : Int
deriving DecidableEq

/-- `Hello`. -/
structure Hello where
  version : UInt32
  network : String
  seedFp : String
  encrypted : Bool
  unlockedUntil : Int
deriving DecidableEq

/-- `DumpLine`. -/
inductive DumpLine where
  | text (text : String)
  | key (key : KeyRef) (rest : String)
  | pqSeed (scheme : UInt8) (index : UInt32) (indexText rest : String)
  | sapling (rest : String)
  | recovery

/-- `ImportDumpResult`. -/
structure ImportDumpResult where
  keys : List (ImportedKey × Option String)
  pq : List PqImported
  builds : List (String × String)
  recipients : List (String × String)
  records : Nat
  skippedZkeys : Nat
deriving DecidableEq

/-! ## Requests and answers -/

/-- `PublicRequest`: ranges of post-quantum keys, as scheme, first index and count. -/
structure PublicRequest where
  pq : List (UInt8 × UInt32 × UInt32)

/-- `EncryptRequest`. -/
structure EncryptRequest where
  passphrase : String
  pq : List (UInt8 × UInt32 × UInt32)

/-- `UnlockRequest`. -/
structure UnlockRequest where
  passphrase : String
  timeout : Int64

/-- `MessageRequest`. -/
structure MessageRequest where
  key : KeyRef
  message : String

/-- `ImportKeyRequest`. -/
structure ImportKeyRequest where
  wif : String
  members : Option (List String)

/-- `DumpRequest`. -/
structure DumpRequest where
  path : String
  lines : List DumpLine

/-- `ImportDumpRequest`. -/
structure ImportDumpRequest where
  path : String
  zkeys : Bool
  members : Option (List String)

/-- `BackupRequest`. -/
structure BackupRequest where
  path : String
  facade : String

/-- `Request`. -/
inductive Request where
  | hello
  | publicBundle (r : PublicRequest)
  | sign (r : SignRequest)
  | signAct (r : ActSignRequest)
  | signSet (r : SetSignRequest)
  | listSigned
  | importSigned (records : List SignedRecord)
  | acknowledgeRestore
  | signAttestation (r : AttestRequest)
  | cancelCosign (r : CosignRequest)
  | signMessage (r : MessageRequest)
  | importKey (r : ImportKeyRequest)
  | dumpKey (key : KeyRef)
  | encrypt (r : EncryptRequest)
  | unlock (r : UnlockRequest)
  | lock
  | dump (r : DumpRequest)
  | importDump (r : ImportDumpRequest)
  | importPq (r : PqImportRequest)
  | backup (r : BackupRequest)
  | saplingBuild (r : SaplingBuildRequest)
  | joinsSeen (hashes : List String)

/-- `Imported`: how many records an import added and how many were there. -/
structure ImportedCounts where
  imported : Nat
  present : Nat
deriving DecidableEq

/-- A refusal: its stable code and its reason. -/
structure Refusal where
  code : String
  reason : String
deriving DecidableEq

/-- `Response`. -/
inductive Response where
  | hello (h : Hello)
  | publicBundle (b : PublicBundle)
  | signed (s : Signed)
  | actSigs (s : ActSigs)
  | setSigs (s : SetSigs)
  | records (r : SignedRecords)
  | imported (c : ImportedCounts)
  | acknowledged (r : SignedRecords)
  | attestation (a : AttestSigned)
  | cosign (c : Cosigned)
  | messageSig (sig : String)
  | importedKey (k : ImportedKey)
  | dumped (wif : String)
  | walletState (s : WalletState)
  | written (path : String)
  | importedDump (r : ImportDumpResult)
  | importedPq (k : PqImported)
  | built (tx : String)
  | refused (r : Refusal)
deriving DecidableEq

/-- `PROTO_VERSION`. -/
def protoVersion : UInt32 := 1

/-- `PUBLIC_FORMAT`. -/
def publicFormat := "yewd-public-1"

namespace Refuse

def badVersion := "bad-version"
def malformed := "malformed"
def unboundInput := "unbound-input"
def keyMismatch := "key-mismatch"
def previewMismatch := "preview-mismatch"
def foreignInput := "foreign-input"
def outflow := "outflow"
def gate := "gate"
def setSignOnce := "set-sign-once"
def setSignRestored := "set-sign-restored"
def equivocationGuard := "equivocation-guard"
def attestRange := "attest-range"
def priceRequired := "price-required"
def cancelStatementClaimable := "cancel-statement-claimable"
def guardWriteFailed := "guard-write-failed"
def keyNotHeld := "key-not-held"
def failed := "failed"
def locked := "locked"
def badPassphrase := "bad-passphrase"
def wrongEncState := "wrong-enc-state"

end Refuse

end Yew.Proto
