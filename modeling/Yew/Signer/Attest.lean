import Yew.Proto.Attest
import Yew.Signer.Guard
import Yew.Signer.Wallet
import Yew.Signer.Sign

/-!
# Attestations and cancel co-signatures

Both state a price of a key for a block, and both go through the guard first: it refuses a second
price under the same spelling of the block hash, and the record is on disk before the signature
leaves.

The signature is part of the record, so it is made first; it leaves the signer only behind the
record's write.

## Source

* `yewd/signer/src/sign.rs`: `SignerCore::role_key`, `guarded_attestation`,
  `SignerCore::sign_attestation`, `SignerCore::cancel_cosign`, `SignerCore::sign_message`
-/

namespace Yew.Signer

open Tx Keys Proto Proto.Attest

section

variable (C : Crypto)

/-- `role_key`: the transparent key a request names, checked against the node's record. -/
def roleKey (k : KeyRef) (pubkey what : String) : M (SecretKey × Arr 33) := do
  let x ← match k with
    | .bip32 chain index => transparent C chain index
    | _ => no Refuse.keyMismatch (what ++ " is made with a transparent key")
  if Hex.encode x.2.toList ≠ Text.toAsciiLowercase pubkey then
    no Refuse.keyMismatch ("the named key is not " ++ what ++ "'s key " ++ pubkey)
  else return x

/-- The refusal of a second price of a sequence number. -/
def seqSignedText (seq : UInt16) (price height : UInt32) : String :=
  "equivocation-guard: seq " ++ Text.decimal seq.toNat ++ " already signed " ++
    Text.decimal price.toNat ++ " for height " ++ Text.decimal height.toNat

/-- The refusal of a second price of a key. -/
def keySignedText (other : Attested) (height : UInt32) : String :=
  "equivocation-guard: this key already signed " ++ Text.decimal other.priceMicroUsd.toNat ++
    " for height " ++ Text.decimal height.toNat ++ " under seq " ++ Text.decimal other.seq.toNat

/-- A new attestation, recorded before it is returned. -/
def freshAttestation (sk : SecretKey) (pk : Arr 33) (seq : UInt16) (price height : UInt32)
    (hash : String) (block : Arr 32) : M (Arr 64 × Bool) := do
  let msg := attestMessage C seq price height block
  let sig := C.ecdsaSign msg sk
  if !C.verifyCompactSig pk msg sig then
    no Refuse.failed "attestation signature does not verify"
  else
    orRefuse Refuse.guardWriteFailed (fun _ ↦ "guard-write-failed: the equivocation guard could " ++
        "not be written; nothing was returned")
      (← recordGuard ⟨seq, Hex.encode pk.toList, height, hash, price, Hex.encode sig.toList⟩)
    return (sig, false)

/-- `guarded_attestation`: the signature, and whether it was there already. -/
def guardedAttestation (sk : SecretKey) (pk : Arr 33) (seq : UInt16) (price height : UInt32)
    (blockHash : String) : M (Arr 64 × Bool) := do
  let hash := Text.toAsciiLowercase blockHash
  let block ← orHalt Refuse.malformed ("block hash: " ++ ·) (txidFromHex hash)
  let g := (← core).guard
  match (Guard.byKey g (Hex.encode pk.toList) height hash).find?
      fun r ↦ r.seq ≠ seq ∧ r.priceMicroUsd ≠ price with
  | some other => no Refuse.equivocationGuard (keySignedText other height)
  | none =>
    match Guard.bySeq g seq height hash with
    | some prior =>
      if prior.priceMicroUsd ≠ price then
        no Refuse.equivocationGuard (seqSignedText seq prior.priceMicroUsd height)
      else
        let sig ← orElse Refuse.failed "the guard's record is damaged"
          ((Hex.decode prior.sig).bind (Bytes.toArr? 64))
        return (sig, true)
    | none => freshAttestation C sk pk seq price height hash block

/-- The refusal of a price out of range. -/
def attestRangeText : String :=
  "attest-range: priceMicroUsd must be in [" ++ Text.decimal priceMin ++ ", " ++
    Text.decimal priceMax ++ "]"

/-- `sign_attestation`. -/
def signAttestation (r : AttestRequest) : M AttestSigned := do
  if r.priceMicroUsd.toNat < priceMin then no Refuse.attestRange attestRangeText
  else
    let (sk, pk) ← roleKey C r.key r.pubkey "an attestation"
    let (sig, reused) ←
      guardedAttestation C sk pk r.seq r.priceMicroUsd r.citedHeight r.blockHash
    return ⟨Hex.encode (encodeAttestation r.seq r.priceMicroUsd r.citedHeight sig), reused⟩

/-- The price a key's records state, under any sequence number: none, the last one's, or a refusal
when two differ. -/
def priorPrice (height : UInt32) :
    Option (UInt16 × UInt32) → List Attested → Except String (Option (UInt16 × UInt32))
  | prior, [] => .ok prior
  | prior, r :: rs =>
    if prior.any fun p ↦ p.2 ≠ r.priceMicroUsd then
      .error ("equivocation-guard: this key already signed two prices for height " ++
        Text.decimal height.toNat)
    else priorPrice height (some (r.seq, r.priceMicroUsd)) rs

/-- The price a co-signature states: the request's, the recorded one, or a refusal. -/
def cosignPrice (height : UInt32) : Option UInt32 → Option (UInt16 × UInt32) → M UInt32
  | some p, some (s, q) =>
    if p ≠ q then no Refuse.equivocationGuard (seqSignedText s q height) else return p
  | some p, none => return p
  | none, some (_, q) => return q
  | none, none => no Refuse.priceRequired ("price-required: this key signed no price for the " ++
      "claim's refHeight " ++ Text.decimal height.toNat ++ "; pass priceMicroUsd")

/-- The refusal of a price at which the vault was claimable. -/
def claimableText (price height : UInt32) : String :=
  "cancel-statement-claimable: at " ++ Text.decimal price.toNat ++
    " micro-USD the vault was claimable at refHeight " ++ Text.decimal height.toNat ++
    "; a cancel co-signature states it was not"

/-- `cancel_cosign`. -/
def cancelCosign (r : CosignRequest) : M Cosigned := do
  let (sk, pk) ← roleKey C r.key r.pubkey "a cancel co-signature"
  let hash := Text.toAsciiLowercase r.blockHash
  let prior ← orRefuse Refuse.equivocationGuard id
    (priorPrice r.refHeight none
      (Guard.byKey (← core).guard (Hex.encode pk.toList) r.refHeight hash))
  let price ← cosignPrice r.refHeight r.priceMicroUsd prior
  if price.toNat < priceMin then no Refuse.attestRange attestRangeText
  else if isUnderwater r.collateralZat.toInt price.toNat r.mintedCents.toInt
      r.claimThresholdBps.toInt then
    no Refuse.cancelStatementClaimable (claimableText price r.refHeight)
  else
    let (_, reused) ← guardedAttestation C sk pk r.seq price r.refHeight hash
    let set ← orHalt Refuse.malformed ("set id: " ++ ·) (txidFromHex r.setId)
    let intent ← outPointOr Refuse.malformed "the intent is not txid:n" r.intent
    let block ← orHalt Refuse.malformed ("block hash: " ++ ·) (txidFromHex hash)
    let msg := cancelCosignMessage C set intent.txid intent.n r.refHeight price block
    return ⟨Hex.encode (cosignEntry price (C.signRecoverable sk msg)), price, reused⟩

/-- `sign_message`. -/
def signMessage (r : MessageRequest) : M String := do
  let (sk, _) ← match r.key with
    | .bip32 chain index => transparent C chain index
    | _ => no Refuse.keyMismatch "signmessage signs with a transparent key"
  return Hex.encode (C.signRecoverable sk (messageHash C r.message)).toList

end

end Yew.Signer
