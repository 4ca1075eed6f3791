import Yew.Core.Crypto
import Yew.Util.Text
import Yew.Proto.Types

/-!
# The attestor role's messages

What an attestation, a cancel co-signature and a signed text sign, and the test a cancel
co-signature's price must not meet.

The texts and byte layouts are the node's, which the source repeats; a verifier elsewhere has to
compute the same bytes.

## Source

* `yewd/proto/src/attest.rs`: `cancel_cosign_message`, `ser_string`, `message_hash`, `is_underwater`
-/

namespace Yew.Proto.Attest

open Bytes Text

/-- `ATTEST_PREFIX`. -/
def attestPrefix : Bytes := utf8 "YBATTEST1".toList

/-- `CANCEL_COSIGN_PREFIX`. -/
def cancelCosignPrefix : Bytes := utf8 "YedCancelCosign".toList

/-- `PRICE_MIN`, in micro-USD. -/
def priceMin : Nat := 100

/-- `PRICE_MAX`, in micro-USD. -/
def priceMax : Nat := 4294967295

/-- `MESSAGE_MAGIC`. -/
def messageMagic := "Zcash Signed Message:\n"

section

variable (C : Crypto)

/-- `attest_message`. -/
def attestMessage (seq : UInt16) (price height : UInt32) (block : Arr 32) : Arr 32 :=
  C.sha256 (attestPrefix ++ leOfNat 2 seq.toNat ++ leOfNat 4 price.toNat ++
    leOfNat 4 height.toNat ++ block.toList)

/-- `Attestation::encode`. -/
def encodeAttestation (seq : UInt16) (price height : UInt32) (sig : Arr 64) : Bytes :=
  leOfNat 2 seq.toNat ++ leOfNat 4 price.toNat ++ leOfNat 4 height.toNat ++ sig.toList

/-- `cancel_cosign_message`. -/
def cancelCosignMessage (set intent : Arr 32) (n height price : UInt32) (block : Arr 32) :
    Arr 32 :=
  C.sha256d (cancelCosignPrefix ++ set.toList ++ intent.toList ++ leOfNat 4 n.toNat ++
    leOfNat 4 height.toNat ++ leOfNat 4 price.toNat ++ block.toList)

/-- `CosignEntry::bytes`. -/
def cosignEntry (price : UInt32) (sig : Arr 65) : Bytes := leOfNat 4 price.toNat ++ sig.toList

/-- `ser_string`: the length as a `CompactSize`, then the bytes. -/
def serString (s : Bytes) : Bytes :=
  let n := s.length
  (if n < 253 then leOfNat 1 n
  else if n ≤ 0xffff then 253 :: leOfNat 2 n
  else if n ≤ 0xffffffff then 254 :: leOfNat 4 n
  else 255 :: leOfNat 8 n) ++ s

/-- `message_hash`. -/
def messageHash (message : String) : Arr 32 :=
  C.sha256d (serString (utf8 messageMagic.toList) ++ serString (utf8 message.toList))

end

/-- `is_underwater`: the collateral at the price is worth less than the threshold of the debt, in
`u128` arithmetic. -/
def isUnderwater (collateralZat priceMicroUsd mintedCents thresholdBps : Int) : Bool :=
  if priceMicroUsd ≤ 0 ∨ mintedCents ≤ 0 ∨ thresholdBps ≤ 0 then false
  else max collateralZat 0 * priceMicroUsd < mintedCents * thresholdBps * 100000000 % 2 ^ 128

end Yew.Proto.Attest
