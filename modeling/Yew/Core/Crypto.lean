import Yew.Util.Bytes

/-!
# The cryptography the wallet rests on

Hash functions, curves and signature schemes come from libraries outside the repository.  The
model takes them as one bundle of functions and proves nothing about what they compute; a result
that needs more (a hash that does not collide, say) asks for it as a hypothesis.

They are crates such as `secp256k1` and `blake2b_simd`, and the vendored C of Falcon.  Whether a
derived key exists is an answer of the bundle too.

## Source

* `core/src/keys.rs`: `sha256d`, `hash160`
* `yewd/proto/src/act.rs`: `sign_recoverable`
-/

namespace Yew

/-- The order of the secp256k1 group. -/
def secp256k1Order : Nat :=
  0xfffffffffffffffffffffffffffffffebaaedce6af48a03bbfd25e8cd0364141

/-- `secp256k1::SecretKey`: 32 bytes, big-endian, between one and the group order less one. -/
structure SecretKey where
  bytes : Arr 32
  inRange : 0 < Bytes.leToNat bytes.toList.reverse ∧
    Bytes.leToNat bytes.toList.reverse < secp256k1Order
deriving DecidableEq

namespace SecretKey

/-- The least key. -/
def one : SecretKey := ⟨⟨List.replicate 31 0 ++ [1], rfl⟩, by decide⟩

/-- `SecretKey::from_secret_bytes`. -/
def fromSecretBytes (a : Arr 32) : Option SecretKey :=
  if h : 0 < Bytes.leToNat a.toList.reverse ∧ Bytes.leToNat a.toList.reverse < secp256k1Order then
    some ⟨a, h⟩
  else none

@[simp] theorem fromSecretBytes_bytes (k : SecretKey) : fromSecretBytes k.bytes = some k := by
  rw [fromSecretBytes, dif_pos k.inRange]

/-- The key as a number. -/
def toNat (k : SecretKey) : Nat := Bytes.leToNat k.bytes.toList.reverse

/-- `SecretKey::add_tweak`: the sum with a scalar modulo the group order. -/
def addTweak (k : SecretKey) (tweak : Nat) : Option SecretKey :=
  let b := (Bytes.leOfNat 32 ((k.toNat + tweak) % secp256k1Order)).reverse
  (Bytes.toArr? 32 b).bind fromSecretBytes

end SecretKey

/-- The functions the wallet calls and does not define. -/
structure Crypto where
  /-- SHA-256. -/
  sha256 : Bytes → Arr 32
  /-- RIPEMD-160. -/
  ripemd160 : Bytes → Arr 20
  /-- BLAKE2b-256 under a personalisation. -/
  blake2b256 : Bytes → Bytes → Arr 32
  /-- `PublicKey::from_slice(..).is_ok()` of libsecp256k1. -/
  pointOk : Bytes → Bool
  /-- The compressed public key of a secret. -/
  publicKey : SecretKey → Arr 33
  /-- `ecdsa::sign`, as the compact 64 bytes (RFC 6979, low s). -/
  ecdsaSign : Arr 32 → SecretKey → Arr 64
  /-- `Signature::serialize_der`. -/
  serializeDer : Arr 64 → Bytes
  /-- `sign_recoverable`: the header byte, `r` and `s`. -/
  signRecoverable : SecretKey → Arr 32 → Arr 65
  /-- `verify_compact_sig`: the compact signature is low-s and verifies under the key. -/
  verifyCompactSig : Arr 33 → Arr 32 → Arr 64 → Bool
  /-- HMAC-SHA256 of a message under a key. -/
  hmacSha256 : Bytes → Bytes → Arr 32
  /-- HMAC-SHA512 of a message under a key. -/
  hmacSha512 : Bytes → Bytes → Arr 64
  /-- The BIP39 seed of a phrase with the empty passphrase. -/
  seedFromMnemonic : String → Except String (Arr 64)
  /-- The SLH-DSA public key of a keygen seed. -/
  slhPublicKey : Arr 48 → Bytes
  /-- The deterministic SLH-DSA signature under a keygen seed. -/
  slhSign : Arr 48 → Arr 32 → Bytes
  /-- Falcon key generation: the public and the secret key. -/
  falconKeygen : Arr 48 → Option (Bytes × Bytes)
  /-- Falcon signing with the secret key and 88 bytes of entropy. -/
  falconSign : Bytes → Arr 32 → Bytes → Option Bytes
  /-- `pq::verify`. -/
  pqVerify : UInt8 → Bytes → Bytes → Arr 32 → Bool
  /-- Base58. -/
  base58Encode : Bytes → String
  /-- Base58, read back. -/
  base58Decode : String → Except String Bytes

namespace Crypto

/-- A bundle whose hashes, keys and signatures are constants, for closed examples of results that
ask nothing of it. -/
def blank : Crypto where
  sha256 _ := List.Vector.replicate 32 0
  ripemd160 _ := List.Vector.replicate 20 0
  blake2b256 _ _ := List.Vector.replicate 32 0
  pointOk _ := true
  publicKey _ := 2 ::ᵥ List.Vector.replicate 32 0
  ecdsaSign _ _ := List.Vector.replicate 64 0
  serializeDer s := s.toList
  signRecoverable _ _ := List.Vector.replicate 65 0
  verifyCompactSig _ _ _ := true
  hmacSha256 _ _ := List.Vector.replicate 32 1
  hmacSha512 _ _ := List.Vector.replicate 64 1
  seedFromMnemonic _ := .ok (List.Vector.replicate 64 0)
  slhPublicKey _ := List.replicate 32 0
  slhSign _ _ := List.replicate 7856 0
  falconKeygen _ := some (List.replicate 897 0, List.replicate 1281 0)
  falconSign _ _ _ := some (List.replicate 666 0)
  pqVerify _ _ _ _ := true
  base58Encode b := String.ofList (b.map fun x ↦ Char.ofNat x.toNat)
  base58Decode s := .ok (s.toList.map fun c ↦ UInt8.ofNat c.toNat)

variable (C : Crypto)

/-- `sha256d`: SHA-256 twice. -/
def sha256d (data : Bytes) : Arr 32 := C.sha256 (C.sha256 data).toList

/-- `hash160`: RIPEMD-160 of SHA-256. -/
def hash160 (data : Bytes) : Arr 20 := C.ripemd160 (C.sha256 data).toList

end Crypto

end Yew
