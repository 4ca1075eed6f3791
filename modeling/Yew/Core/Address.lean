import Yew.Core.Keys

/-!
# Addresses read back

The light wallet's readers of transparent and post-quantum addresses, and what a payment of YED or of
YEC may go to.

The encodings are those of `Yew.Util.Base58`, with the checksum a parameter: a double SHA-256 in the
source.

## Source

* `core/src/keys.rs`: `KeyError`, `encode_yellowback`, `encode_pq_yellowback`, `parse_pq_address`,
  `parse_pq_yec_address`, `YedDestination`, `parse_yed_destination`, `YecDestination` and 5 more
* `core/src/params.rs`: `Network::yellowback_prefix`, `pq_yellowback_prefix`
-/

namespace Yew.Addresses

open Script Pq Keys

/-- `KeyError`, of the readers. -/
inductive KeyError where
  | base58 (why : String)
  | wrongNetwork (network : Network) (address : String)
  | pqOwnerAddress (address : String)
  | pqYecAddress (address : String)
  | pqYedAddress (address : String)
deriving DecidableEq

/-- `yellowback_prefix`. -/
def yellowbackPrefix : Network → Bytes
  | .mainnet => [0x1F, 0xDD]
  | .testnet => [0x20, 0x07]
  | .regtest => [0x20, 0x02]

/-- `pq_yellowback_prefix`. -/
def pqYellowbackPrefix : Network → Bytes
  | .mainnet => [0x56, 0xAB]
  | .testnet => [0x57, 0x1E]
  | .regtest => [0x57, 0x10]

/-- `AddressKind`. -/
inductive AddressKind where
  | p2pkh (hash : Arr 20)
  | p2sh (hash : Arr 20)
deriving DecidableEq

/-- `Address`. -/
structure Address where
  kind : AddressKind
  yellowbackForm : Bool
deriving DecidableEq

/-- `YedDestination`. -/
inductive YedDestination where
  | p2pkh (hash : Arr 20)
  | pq (id : PqKeyId)
deriving DecidableEq

/-- `YecDestination`. -/
inductive YecDestination where
  | p2pkh (hash : Arr 20)
  | p2sh (hash : Arr 20)
  | pq (id : PqKeyId)
deriving DecidableEq

/-- `YecDestination::script`; a parsed post-quantum id has a registered scheme. -/
def YecDestination.script : YecDestination → Bytes
  | .p2pkh hash => p2pkhScript hash
  | .p2sh hash => p2shScript hash
  | .pq id => (pqpkhScript id).getD []

section Readers

variable (C : Crypto) (network : Network)

/-- A post-quantum address under a version of two bytes. -/
def parsePqUnder (version : Bytes) (s : String) : Except KeyError PqKeyId := do
  let payload ← (base58checkDecode C s).mapError .base58
  if payload.length ≠ 35 ∨ payload.take 2 ≠ version then .error (.wrongNetwork network s)
  else match (PqKeyId.fromBytes (payload.drop 2)).filter PqKeyId.isKnown with
    | some id => .ok id
    | none => .error (.wrongNetwork network s)

/-- `parse_pq_address`. -/
def parsePqAddress (s : String) : Except KeyError PqKeyId :=
  parsePqUnder C network (pqYellowbackPrefix network) s

/-- `parse_pq_yec_address`. -/
def parsePqYecAddress (s : String) : Except KeyError PqKeyId :=
  parsePqUnder C network network.pqYecPrefix s

/-- The address of a payload of 22 bytes. -/
def addressOf (s : String) (version : Bytes) (hash : Arr 20) : Except KeyError Address :=
  if version = network.p2pkhPrefix then .ok ⟨.p2pkh hash, false⟩
  else if version = yellowbackPrefix network then .ok ⟨.p2pkh hash, true⟩
  else if version = network.p2shPrefix then .ok ⟨.p2sh hash, false⟩
  else .error (.wrongNetwork network s)

/-- What a string that is no address of 22 bytes is refused as. -/
def refusal (s : String) : KeyError :=
  if (parsePqAddress C network s).isOk then .pqOwnerAddress s
  else if (parsePqYecAddress C network s).isOk then .pqYecAddress s
  else .wrongNetwork network s

/-- `parse_address`. -/
def parseAddress (s : String) : Except KeyError Address := do
  let payload ← (base58checkDecode C s).mapError .base58
  if payload.length ≠ 22 then .error (refusal C network s)
  else match Bytes.toArr? 20 (payload.drop 2) with
    | some hash => addressOf network s (payload.take 2) hash
    | none => .error (refusal C network s)

/-- `parse_yed_destination`. -/
def parseYedDestination (s : String) : Except KeyError YedDestination :=
  match parsePqAddress C network s with
  | .ok id => .ok (.pq id)
  | .error _ => do
    let a ← parseAddress C network s
    match a.kind with
    | .p2pkh hash => .ok (.p2pkh hash)
    | .p2sh _ => .error (.wrongNetwork network s)

/-- `parse_yec_destination`. -/
def parseYecDestination (s : String) : Except KeyError YecDestination :=
  match parsePqYecAddress C network s with
  | .ok id => .ok (.pq id)
  | .error _ =>
    match parsePqAddress C network s with
    | .ok id =>
      if id.scheme = schemeFnDsa then .error (.pqYedAddress s) else .error (.pqOwnerAddress s)
    | .error _ => do
      let a ← parseAddress C network s
      match a.kind with
      | .p2pkh hash => .ok (.p2pkh hash)
      | .p2sh hash => .ok (.p2sh hash)

/-- `encode_yellowback`: the key hash of a P2PKH address under the Yellowback version. -/
def encodeYellowback (hash : Arr 20) : String :=
  base58checkEncode C (yellowbackPrefix network ++ hash.toList)

/-- `encode_pq_yellowback`. -/
def encodePqYellowback (id : PqKeyId) : Option String :=
  if !id.isKnown then none
  else some (base58checkEncode C (pqYellowbackPrefix network ++ id.toBytes))

end Readers

end Yew.Addresses
