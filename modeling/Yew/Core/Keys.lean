import Yew.Core.Tx

/-!
# Keys, derivations and addresses

Hexadecimal as `keys.rs` reads it, BIP32 derivation, the post-quantum seed tree, WIF keys and the
addresses a preview shows.

The wallet's own reader of hexadecimal is a function of the source and is modelled to the letter: it
trims, and it slices at byte positions.

## Source

* `core/src/keys.rs`: `ExtendedPrivKey`, `ExtendedPrivKey::master`, `ExtendedPrivKey::child`,
  `ExtendedPrivKey::derive`, `KeyRing::from_seed`, `base58check_encode`, `base58check_decode`,
  `encode_p2pkh` and 6 more
* `core/src/pq.rs`: `PqSeedRoot`, `PqSeedRoot::from_seed`, `PqSeedRoot::derive`, `PqKey`,
  `PqKey::from_seed`, `PqKey::id`, `PqKey::sign`
* `core/src/params.rs`: `Network`, `Network::chain_name`, `Network::p2pkh_prefix`,
  `Network::p2sh_prefix`, `Network::wif_prefix`, `Network::pq_yec_prefix`
* `core/src/shielded.rs`: `Shielded::network`
* `core/src/tx.rs`: `txid_from_hex`
* `yewd/wallet/src/keys.rs`: `Xpub::child`
-/

namespace Yew.Keys

open Script Tx Pq

/-! ## Hexadecimal -/

/-- `hex`: lower-case hexadecimal. -/
def hex (bytes : Bytes) : String := Hex.encode bytes

/-- `u8::from_str_radix(_, 16)`: two digits, or a plus sign and one digit. -/
def byteOfHex (cs : List Char) : Except String UInt8 :=
  match Text.fromStrRadix Text.hexDigit? 16 256 cs with
  | .ok n => .ok (UInt8.ofNat n)
  | .error e => .error e

/-- The loop of `unhex` over a string of even byte length.  A slice of two bytes that ends inside
a character panics. -/
def unhexPairs : List Char → Except (Halt String) Bytes
  | [] => .ok []
  | c :: cs =>
    if c.utf8Size = 1 then
      match cs with
      | [] => .error .panic
      | d :: ds =>
        if d.utf8Size = 1 then
          match byteOfHex [c, d] with
          | .error e => .error (.error e)
          | .ok b => (unhexPairs ds).map (b :: ·)
        else .error .panic
    else if c.utf8Size = 2 then
      match byteOfHex [c] with
      | .error e => .error (.error e)
      | .ok b => (unhexPairs cs).map (b :: ·)
    else .error .panic

/-- `unhex`: surrounding blanks are dropped, then pairs of digits of either case are read. -/
def unhex (s : String) : Except (Halt String) Bytes :=
  let cs := Text.trimChars s.toList
  if Text.byteLen cs % 2 ≠ 0 then .error (.error "odd hex length") else unhexPairs cs

/-- `txid_from_hex`: a display-form txid, in internal byte order. -/
def txidFromHex (s : String) : Except (Halt String) (Arr 32) := do
  let v ← unhex s
  match Bytes.toArr? 32 v with
  | some a => return a.rev
  | none => .error (.error ("txid must be 32 bytes, got " ++ Text.decimal v.length))

theorem byteOfHex_map_toLower (cs : List Char) :
    byteOfHex (cs.map Char.toLower) = byteOfHex cs := by
  rw [byteOfHex, byteOfHex, Text.fromStrRadix_map_toLower]

theorem unhexPairs_map_toLower (cs : List Char) :
    unhexPairs (cs.map Char.toLower) = unhexPairs cs := by
  have htwo : ∀ c d : Char, byteOfHex [c.toLower, d.toLower] = byteOfHex [c, d] :=
    fun c d ↦ byteOfHex_map_toLower [c, d]
  have hone : ∀ c : Char, byteOfHex [c.toLower] = byteOfHex [c] :=
    fun c ↦ byteOfHex_map_toLower [c]
  induction cs using unhexPairs.induct with
  | case1 => rfl
  | case2 c hc => simp [unhexPairs, Text.utf8Size_toLower, hc]
  | case3 c hc d ds hd e he => simp [unhexPairs, Text.utf8Size_toLower, hc, hd, htwo, he]
  | case4 c hc d ds hd b hb ih => simp [unhexPairs, Text.utf8Size_toLower, hc, hd, htwo, hb, ih]
  | case5 c hc d ds hd => simp [unhexPairs, Text.utf8Size_toLower, hc, hd]
  | case6 c ds hc₁ hc₂ e he =>
    rw [List.map_cons, unhexPairs.eq_def, unhexPairs.eq_def (c :: ds)]
    simp [Text.utf8Size_toLower, hc₂, hone, he]
  | case7 c ds hc₁ hc₂ b hb ih =>
    rw [List.map_cons, unhexPairs.eq_def, unhexPairs.eq_def (c :: ds)]
    simp [Text.utf8Size_toLower, hc₂, hone, hb, ih]
  | case8 c ds hc₁ hc₂ =>
    rw [List.map_cons, unhexPairs.eq_def, unhexPairs.eq_def (c :: ds)]
    simp [Text.utf8Size_toLower, hc₁, hc₂]

/-- The digits of a display-form txid may be of either case. -/
theorem txidFromHex_toAsciiLowercase (s : String) :
    txidFromHex (Text.toAsciiLowercase s) = txidFromHex s := by
  have hunhex : unhex (Text.toAsciiLowercase s) = unhex s := by
    simp only [unhex, Text.toAsciiLowercase, String.toList_ofList, Text.trimChars_map_toLower,
      Text.byteLen_map_toLower, unhexPairs_map_toLower]
  rw [txidFromHex, hunhex, txidFromHex]

section Display

open Hex Text

theorem hexDigit_spec : ∀ {n : Nat}, n < 16 → (hexDigit n).utf8Size = 1 ∧
    Text.isWhitespace (hexDigit n) = false := by
  decide

theorem byteOfHex_hexDigit : ∀ {n : Nat}, n < 256 →
    byteOfHex [hexDigit (n / 16), hexDigit (n % 16)] = .ok (UInt8.ofNat n) := by
  decide +kernel

theorem unhexPairs_encodeChars (bs : Bytes) : unhexPairs (encodeChars bs) = .ok bs := by
  induction bs with
  | nil => rfl
  | cons b bs ih =>
    have hb : b.toNat < 256 := b.toNat_lt
    have hhi := hexDigit_spec (n := b.toNat / 16) (by omega)
    have hlo := hexDigit_spec (n := b.toNat % 16) (by omega)
    change unhexPairs (encodeByte b ++ encodeChars bs) = _
    simp only [encodeByte, List.cons_append, List.nil_append, unhexPairs, hhi.1, hlo.1, if_true,
      byteOfHex_hexDigit hb, ih]
    simp [Except.map]

theorem mem_encodeChars {bs : Bytes} {c : Char} (h : c ∈ encodeChars bs) :
    ∃ n < 16, c = hexDigit n := by
  obtain ⟨b, -, hc⟩ := List.mem_flatMap.mp h
  have hb : b.toNat < 256 := b.toNat_lt
  rcases List.mem_cons.mp hc with rfl | hc
  · exact ⟨_, by omega, rfl⟩
  · rcases List.mem_cons.mp hc with rfl | hc
    · exact ⟨_, by omega, rfl⟩
    · cases hc

theorem trimChars_encodeChars (bs : Bytes) : Text.trimChars (encodeChars bs) = encodeChars bs := by
  refine Text.trimChars_eq_self fun c hc ↦ ?_
  obtain ⟨n, hn, rfl⟩ := mem_encodeChars hc
  simp [(hexDigit_spec hn).2]

theorem byteLen_encodeChars (bs : Bytes) : Text.byteLen (encodeChars bs) = 2 * bs.length := by
  induction bs with
  | nil => rfl
  | cons b bs ih =>
    have hb : b.toNat < 256 := b.toNat_lt
    have hhi := hexDigit_spec (n := b.toNat / 16) (by omega)
    have hlo := hexDigit_spec (n := b.toNat % 16) (by omega)
    change Text.byteLen (encodeByte b ++ encodeChars bs) = 2 * (bs.length + 1)
    simp only [encodeByte, List.cons_append, List.nil_append, Text.byteLen, List.map_cons,
      List.sum_cons, hhi.1, hlo.1] at ih ⊢
    omega

/-- A displayed txid is read back. -/
@[simp] theorem txidFromHex_txidHex (txid : Arr 32) : txidFromHex (txidHex txid) = .ok txid := by
  have hunhex : unhex (txidHex txid) = .ok txid.rev.toList := by
    rw [unhex, txidHex, encode, String.toList_ofList, trimChars_encodeChars]
    simp only [byteLen_encodeChars, Nat.mul_mod_right, ne_eq, not_true_eq_false, if_false]
    exact unhexPairs_encodeChars _
  rw [txidFromHex, hunhex]
  change (match Bytes.toArr? 32 txid.rev.toList with
    | some a => Except.ok a.rev
    | none => _) = _
  rw [Bytes.toArr?_toList]
  change Except.ok txid.rev.rev = _
  rw [Arr.rev_rev]

theorem txidHex_injective : Function.Injective txidHex := by
  intro a b h
  have := txidFromHex_txidHex a
  rw [h, txidFromHex_txidHex] at this
  exact (Except.ok.inj this).symm

end Display

/-! ## Networks -/

/-- `Network`. -/
inductive Network where
  | mainnet
  | testnet
  | regtest
deriving DecidableEq

namespace Network

/-- `chain_name`. -/
def chainName : Network → String
  | mainnet => "main"
  | testnet => "test"
  | regtest => "regtest"

/-- `p2pkh_prefix`. -/
def p2pkhPrefix : Network → Bytes
  | mainnet => [0x1C, 0x28]
  | testnet | regtest => [0x1C, 0x95]

/-- `p2sh_prefix`. -/
def p2shPrefix : Network → Bytes
  | mainnet => [0x1C, 0x2C]
  | testnet | regtest => [0x1C, 0x2A]

/-- `wif_prefix`. -/
def wifPrefix : Network → UInt8
  | mainnet => 0x80
  | testnet | regtest => 0xEF

/-- `pq_yec_prefix`. -/
def pqYecPrefix : Network → Bytes
  | mainnet => [0x4D, 0xD9]
  | testnet => [0x4F, 0x61]
  | regtest => [0x4C, 0x51]

end Network

section Derivation

variable (C : Crypto)

/-! ## Addresses and WIF keys -/

/-- `base58check_encode`: the payload and the first four bytes of its double hash. -/
def base58checkEncode (payload : Bytes) : String :=
  C.base58Encode (payload ++ (C.sha256d payload).toList.take 4)

/-- `base58check_decode`. -/
def base58checkDecode (s : String) : Except String Bytes := do
  let v ← C.base58Decode s
  if v.length < 5 then .error "too short"
  else
    let payload := v.take (v.length - 4)
    if (C.sha256d payload).toList.take 4 ≠ v.drop (v.length - 4) then .error "checksum mismatch"
    else .ok payload

/-- `encode_p2pkh`. -/
def encodeP2pkh (network : Network) (hash : Arr 20) : String :=
  base58checkEncode C (network.p2pkhPrefix ++ hash.toList)

/-- `encode_p2sh`. -/
def encodeP2sh (network : Network) (hash : Arr 20) : String :=
  base58checkEncode C (network.p2shPrefix ++ hash.toList)

/-- `encode_pq_yec`, for a registered scheme. -/
def encodePqYec (network : Network) (id : PqKeyId) : Option String :=
  if id.isKnown then some (base58checkEncode C (network.pqYecPrefix ++ id.toBytes)) else none

/-- `encode_wif`: the compressed form. -/
def encodeWif (network : Network) (key : SecretKey) : String :=
  base58checkEncode C (network.wifPrefix :: (key.bytes.toList ++ [0x01]))

/-- The secret key in a WIF's payload: the network's byte, 32 bytes and the mark of a compressed
key. -/
def wifPayload (network : Network) : Bytes → Except String SecretKey
  | [] => .error "not a compressed key"
  | version :: rest =>
    if rest.length ≠ 33 ∨ rest.getLast? ≠ some 0x01 then .error "not a compressed key"
    else if version ≠ network.wifPrefix then
      .error ("wrong network prefix 0x" ++ Hex.encode [version])
    else match (Bytes.toArr? 32 (rest.take 32)).bind SecretKey.fromSecretBytes with
      | some k => .ok k
      | none => .error "key out of range"

/-- `decode_wif`. -/
def decodeWif (network : Network) (wif : String) : Except String SecretKey := do
  let payload ← base58checkDecode C wif
  wifPayload network payload

/-! ## BIP32 -/

/-- The mark of a hardened child. -/
def hardened : UInt32 := 0x80000000

/-- `ExtendedPrivKey`. -/
structure ExtendedPrivKey where
  key : SecretKey
  chainCode : Arr 32
deriving DecidableEq

/-- The two halves of a BIP32 hash. -/
def halves (i : Arr 64) : Option (Arr 32 × Arr 32) := do
  let l ← Bytes.toArr? 32 (i.toList.take 32)
  let r ← Bytes.toArr? 32 (i.toList.drop 32)
  return (l, r)

/-- `ExtendedPrivKey::master`. -/
def ExtendedPrivKey.master (seed : Bytes) : Option ExtendedPrivKey := do
  let (l, chainCode) ← halves (C.hmacSha512 (Text.utf8 "Bitcoin seed".toList) seed)
  let key ← SecretKey.fromSecretBytes l
  return ⟨key, chainCode⟩

/-- `ExtendedPrivKey::child`. -/
def ExtendedPrivKey.child (k : ExtendedPrivKey) (index : UInt32) : Option ExtendedPrivKey := do
  let parent := if hardened ≤ index then 0 :: k.key.bytes.toList else (C.publicKey k.key).toList
  let data := parent ++ (Bytes.leOfNat 4 index.toNat).reverse
  let (l, chainCode) ← halves (C.hmacSha512 k.chainCode.toList data)
  let tweak := Bytes.leToNat l.toList.reverse
  if tweak < secp256k1Order then
    let key ← k.key.addTweak tweak
    return ⟨key, chainCode⟩
  else none

/-- `ExtendedPrivKey::derive`: along a path of indices, or the index it stopped at. -/
def ExtendedPrivKey.derive (k : ExtendedPrivKey) : List UInt32 → Except String ExtendedPrivKey
  | [] => .ok k
  | i :: is =>
    match k.child C i with
    | some c => c.derive is
    | none => .error ("bip32 derivation produced an invalid key at index " ++
        Text.decimal i.toNat)

/-! ## Post-quantum keys -/

/-- `PqSeedRoot::from_seed`. -/
def pqSeedRoot (seed : Bytes) : Arr 32 := C.hmacSha256 [] seed

/-- `PqSeedRoot::derive`: two blocks of HKDF-Expand, cut to 48 bytes. -/
def pqDerive (root : Arr 32) (scheme : UInt8) (index : UInt32) : Arr 48 :=
  let info := Text.utf8 "Ycash PQ key".toList ++ [scheme] ++
    (Bytes.leOfNat 4 index.toNat).reverse
  let t1 := C.hmacSha256 root.toList (info ++ [1])
  let t2 := C.hmacSha256 root.toList (t1.toList ++ info ++ [2])
  ⟨(t1.toList ++ t2.toList).take 48, by simp⟩

/-- `PqKey`: the keygen seed, the public key and, for Falcon, the expanded secret key. -/
structure PqKey where
  scheme : UInt8
  seed : Arr 48
  pk : Bytes
  falconSk : Bytes
deriving DecidableEq

/-- `PqKey::from_seed`. -/
def PqKey.fromSeed (scheme : UInt8) (seed : Bytes) : Except PqError PqKey :=
  if !isKnownScheme scheme then .error (.scheme scheme)
  else match Bytes.toArr? 48 seed with
    | none => .error (.size "seed" seed.length seedSize)
    | some seed =>
      if scheme = schemeFnDsa then
        match C.falconKeygen seed with
        | none => .error (.scheme scheme)
        | some (pk, falconSk) => .ok { scheme, seed, pk, falconSk }
      else .ok { scheme, seed, pk := C.slhPublicKey seed, falconSk := [] }

/-- `PqKey::id`. -/
def PqKey.id (k : PqKey) : PqKeyId := PqKeyId.of C k.scheme k.pk

/-- `PqKey::sign`: deterministic under SLH-DSA, with fresh entropy under Falcon, where a signature
that does not verify stops the program. -/
def PqKey.sign (k : PqKey) (entropy : Bytes) (msg : Arr 32) : Option Bytes :=
  if k.scheme = schemeFnDsa then
    match C.falconSign k.falconSk msg entropy with
    | some sig => if C.pqVerify k.scheme k.pk sig msg then some sig else none
    | none => none
  else some (C.slhSign k.seed msg)

end Derivation

end Yew.Keys
