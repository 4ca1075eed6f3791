import Yew.Core.Address
import Yew.Core.PayloadCodec
import Yew.Util.Base58

/-!
# Every address names one thing

The five forms of address over all of the networks at once: each is read back by its own reader, no
string is of two forms, and one of a network is no address of a network with another version.

The readers are those of `core/src/keys.rs`, the versions those of `core/src/params.rs` for its
three networks.  What Base58Check has to satisfy, that a decoded text is the encoded one, is a
hypothesis: the crate `bs58` is not part of the repository.
-/

namespace Yew.Addresses

open Script Pq Keys

/-! ## Base58Check -/

section Check

variable {C : Crypto}

/-- The bundle's Base58 decoding inverts its encoding. -/
def Base58Exact (C : Crypto) : Prop := ∀ v, C.base58Decode (C.base58Encode v) = .ok v

theorem base58checkDecode_encode (hB : Base58Exact C) {payload : Bytes} (h : payload ≠ []) :
    base58checkDecode C (base58checkEncode C payload) = .ok payload := by
  have hpos : 0 < payload.length := List.length_pos_iff.mpr h
  have hcheck : ((C.sha256d payload).toList.take 4).length = 4 := by simp
  rw [base58checkDecode, base58checkEncode, hB]
  change (if _ then _ else _) = _
  rw [if_neg (by rw [List.length_append, hcheck]; omega)]
  simp [hcheck]

end Check

/-! ## The forms -/

/-- What an address names, with the form it is written in. -/
inductive Named where
  | p2pkh (hash : Arr 20)
  | yellowback (hash : Arr 20)
  | p2sh (hash : Arr 20)
  | pqYellowback (id : PqKeyId)
  | pqYec (id : PqKeyId)
deriving DecidableEq

namespace Named

/-- The version bytes of its form. -/
def version (network : Network) : Named → Bytes
  | .p2pkh _ => network.p2pkhPrefix
  | .yellowback _ => yellowbackPrefix network
  | .p2sh _ => network.p2shPrefix
  | .pqYellowback _ => pqYellowbackPrefix network
  | .pqYec _ => network.pqYecPrefix

/-- The bytes behind the version. -/
def body : Named → Bytes
  | .p2pkh hash | .yellowback hash | .p2sh hash => hash.toList
  | .pqYellowback id | .pqYec id => id.toBytes

/-- A post-quantum id is of a registered scheme. -/
def known : Named → Bool
  | .pqYellowback id | .pqYec id => id.isKnown
  | _ => true

section Forms

variable (C : Crypto) (network : Network)

/-- The address of it. -/
def encode : Named → Option String
  | .p2pkh hash => some (encodeP2pkh C network hash)
  | .yellowback hash => some (encodeYellowback C network hash)
  | .p2sh hash => some (encodeP2sh C network hash)
  | .pqYellowback id => encodePqYellowback C network id
  | .pqYec id => encodePqYec C network id

/-- The reader of its form reads it from a string. -/
def ReadFrom (s : String) : Named → Prop
  | .p2pkh hash => parseAddress C network s = .ok ⟨.p2pkh hash, false⟩
  | .yellowback hash => parseAddress C network s = .ok ⟨.p2pkh hash, true⟩
  | .p2sh hash => parseAddress C network s = .ok ⟨.p2sh hash, false⟩
  | .pqYellowback id => parsePqAddress C network s = .ok id
  | .pqYec id => parsePqYecAddress C network s = .ok id

end Forms

/-- What a payment of YED to it goes to. -/
def yedDestination : Named → Option YedDestination
  | .p2pkh hash | .yellowback hash => some (.p2pkh hash)
  | .pqYellowback id => some (.pq id)
  | .p2sh _ | .pqYec _ => none

/-- What a payment of YEC to it goes to. -/
def yecDestination : Named → Option YecDestination
  | .p2pkh hash | .yellowback hash => some (.p2pkh hash)
  | .p2sh hash => some (.p2sh hash)
  | .pqYec id => some (.pq id)
  | .pqYellowback _ => none

variable {C : Crypto} {network : Network} {s : String}

theorem length_version (a : Named) : (a.version network).length = 2 := by
  cases a <;> cases network <;> rfl

theorem encode_eq_some_iff {a : Named} :
    a.encode C network = some s ↔
      a.known = true ∧ s = base58checkEncode C (a.version network ++ a.body) := by
  cases a with
  | p2pkh hash => simp [encode, known, version, body, encodeP2pkh, eq_comm]
  | yellowback hash => simp [encode, known, version, body, encodeYellowback, eq_comm]
  | p2sh hash => simp [encode, known, version, body, encodeP2sh, eq_comm]
  | pqYellowback id =>
    cases hid : id.isKnown <;> simp [encode, known, version, body, encodePqYellowback, hid, eq_comm]
  | pqYec id =>
    cases hid : id.isKnown <;> simp [encode, known, version, body, encodePqYec, hid, eq_comm]

end Named

/-! ## The readers -/

section Readers

variable {C : Crypto} {network : Network} {s : String}

theorem parsePqUnder_eq_ok_iff {version : Bytes} (hv : version.length = 2) {id : PqKeyId} :
    parsePqUnder C network version s = .ok id ↔
      id.isKnown = true ∧ base58checkDecode C s = .ok (version ++ id.toBytes) := by
  rw [parsePqUnder]
  cases hdec : base58checkDecode C s with
  | error e => simp [Except.mapError, bind, Except.bind]
  | ok payload =>
    change (if _ then _ else _) = _ ↔ _
    constructor
    · intro h
      split at h
      · cases h
      · rename_i hshape
        obtain ⟨-, hver⟩ : payload.length = 35 ∧ payload.take 2 = version := by simpa using hshape
        split at h
        · rename_i id' hid
          cases h
          obtain ⟨hid, hknown⟩ := Option.filter_eq_some_iff.mp hid
          refine ⟨hknown, ?_⟩
          rw [← Yellowback.toBytes_of_fromBytes hid, ← hver, List.take_append_drop]
        · cases h
    · rintro ⟨hknown, hpayload⟩
      obtain rfl : payload = version ++ id.toBytes := Except.ok.inj hpayload
      have hdrop : (version ++ id.toBytes).drop 2 = id.toBytes := by simp [← hv]
      have htake : (version ++ id.toBytes).take 2 = version := by simp [← hv]
      rw [if_neg (by simp [hv, PqKeyId.toBytes]), hdrop, Yellowback.fromBytes_toBytes,
        Option.filter_some, if_pos hknown]

/-- A payload of 22 bytes is a version and a hash. -/
theorem parseAddress_eq_ok_iff {a : Address} :
    parseAddress C network s = .ok a ↔ ∃ (version : Bytes) (hash : Arr 20), version.length = 2 ∧
      base58checkDecode C s = .ok (version ++ hash.toList) ∧
      addressOf network s version hash = .ok a := by
  rw [parseAddress]
  cases hdec : base58checkDecode C s with
  | error e => simp [Except.mapError, bind, Except.bind]
  | ok payload =>
    change (if _ then _ else _) = _ ↔ _
    constructor
    · intro h
      split at h
      · cases h
      · rename_i hlen
        split at h
        · rename_i hash hhash
          refine ⟨payload.take 2, hash, by simp; omega, ?_, h⟩
          rw [← Bytes.toArr?_eq_some.mp hhash, List.take_append_drop]
        · cases h
    · rintro ⟨version, hash, hv, hpayload, ha⟩
      obtain rfl : payload = version ++ hash.toList := Except.ok.inj hpayload
      have hdrop : (version ++ hash.toList).drop 2 = hash.toList := by simp [← hv]
      have htake : (version ++ hash.toList).take 2 = version := by simp [← hv]
      rw [if_neg (by simp [hv]), hdrop, htake]
      simpa using ha

theorem addressOf_eq_ok_iff {version : Bytes} {hash : Arr 20} {a : Address} :
    addressOf network s version hash = .ok a ↔
      version = network.p2pkhPrefix ∧ a = ⟨.p2pkh hash, false⟩ ∨
      version = yellowbackPrefix network ∧ a = ⟨.p2pkh hash, true⟩ ∨
      version = network.p2shPrefix ∧ a = ⟨.p2sh hash, false⟩ := by
  have hyb : network.p2pkhPrefix ≠ yellowbackPrefix network := by cases network <;> decide
  have hsh : network.p2pkhPrefix ≠ network.p2shPrefix := by cases network <;> decide
  have hybsh : yellowbackPrefix network ≠ network.p2shPrefix := by cases network <;> decide
  unfold addressOf
  split
  · rename_i h
    simp [h, hyb, hsh, eq_comm]
  split
  · rename_i h
    simp [h, hyb.symm, hybsh, eq_comm]
  split
  · rename_i h
    simp [h, hsh.symm, hybsh.symm, eq_comm]
  · rename_i h₁ h₂ h₃
    simp [h₁, h₂, h₃]

/-- The strings that a form of 22 bytes is read from. -/
theorem parseAddress_form {pre : Bytes} {hash : Arr 20} {a : Address} (hpre : pre.length = 2)
    (ha : ∀ v h, addressOf network s v h = .ok a ↔ v = pre ∧ h = hash) :
    parseAddress C network s = .ok a ↔ base58checkDecode C s = .ok (pre ++ hash.toList) := by
  rw [parseAddress_eq_ok_iff]
  constructor
  · rintro ⟨v, h, -, hdec, hv⟩
    obtain ⟨rfl, rfl⟩ := (ha v h).mp hv
    exact hdec
  · intro hdec
    exact ⟨pre, hash, hpre, hdec, (ha _ _).mpr ⟨rfl, rfl⟩⟩

/-- The reader of a form accepts the strings that hold the version of the form and the bytes it
names. -/
theorem Named.readFrom_iff {a : Named} :
    a.ReadFrom C network s ↔
      a.known = true ∧ base58checkDecode C s = .ok (a.version network ++ a.body) := by
  have hlen := @Named.length_version network a
  cases a with
  | pqYellowback id => exact parsePqUnder_eq_ok_iff hlen
  | pqYec id => exact parsePqUnder_eq_ok_iff hlen
  | p2pkh hash =>
    refine (@parseAddress_form C network s _ hash _ hlen fun v h ↦ ?_).trans
      (by simp [known, version, body])
    simp [addressOf_eq_ok_iff, version, eq_comm]
  | yellowback hash =>
    refine (@parseAddress_form C network s _ hash _ hlen fun v h ↦ ?_).trans
      (by simp [known, version, body])
    simp [addressOf_eq_ok_iff, version, eq_comm]
  | p2sh hash =>
    refine (@parseAddress_form C network s _ hash _ hlen fun v h ↦ ?_).trans
      (by simp [known, version, body])
    simp [addressOf_eq_ok_iff, version, eq_comm]

/-- What `parse_address` reads is of one of its three forms. -/
theorem parseAddress_cases {a : Address} (h : parseAddress C network s = .ok a) :
    ∃ n : Named, n.ReadFrom C network s ∧ ∃ hash,
      n = .p2pkh hash ∧ a = ⟨.p2pkh hash, false⟩ ∨ n = .yellowback hash ∧ a = ⟨.p2pkh hash, true⟩ ∨
        n = .p2sh hash ∧ a = ⟨.p2sh hash, false⟩ := by
  obtain ⟨version, hash, -, -, ha⟩ := parseAddress_eq_ok_iff.mp h
  rcases addressOf_eq_ok_iff.mp ha with ⟨-, rfl⟩ | ⟨-, rfl⟩ | ⟨-, rfl⟩
  · exact ⟨.p2pkh hash, h, hash, .inl ⟨rfl, rfl⟩⟩
  · exact ⟨.yellowback hash, h, hash, .inr (.inl ⟨rfl, rfl⟩)⟩
  · exact ⟨.p2sh hash, h, hash, .inr (.inr ⟨rfl, rfl⟩)⟩

end Readers

/-! ## One form a string -/

section Unique

variable {C : Crypto} {s : String}

theorem toBytes_injective : Function.Injective PqKeyId.toBytes := by
  intro a b h
  have ha := Yellowback.fromBytes_toBytes a
  rw [h, Yellowback.fromBytes_toBytes] at ha
  exact (Option.some.inj ha).symm

theorem Named.eq_of_bytes {a b : Named} {n m : Network}
    (h : a.version n ++ a.body = b.version m ++ b.body) : a = b ∧ a.version n = a.version m := by
  obtain ⟨hv, hb⟩ := List.append_inj h (by rw [length_version, length_version])
  cases a <;> cases b <;> simp only [version, body] at hv hb ⊢
  case p2pkh.p2pkh => exact ⟨congrArg _ (List.Vector.toList_injective hb), hv⟩
  case yellowback.yellowback => exact ⟨congrArg _ (List.Vector.toList_injective hb), hv⟩
  case p2sh.p2sh => exact ⟨congrArg _ (List.Vector.toList_injective hb), hv⟩
  case pqYellowback.pqYellowback => exact ⟨congrArg _ (toBytes_injective hb), hv⟩
  case pqYec.pqYec => exact ⟨congrArg _ (toBytes_injective hb), hv⟩
  -- No version of a form is a version of another form, on any network.
  all_goals cases n <;> cases m <;> exact absurd hv (by decide)

/-- No string is of two forms, and none names two things, on one network or on two. -/
theorem Named.ReadFrom.unique {a b : Named} {n m : Network} (ha : a.ReadFrom C n s)
    (hb : b.ReadFrom C m s) : a = b ∧ a.version n = a.version m := by
  have hdec := (readFrom_iff.mp ha).2
  rw [(readFrom_iff.mp hb).2] at hdec
  exact eq_of_bytes (Except.ok.inj hdec).symm

theorem Named.ReadFrom.exists_iff {n : Named} {network : Network} (hn : n.ReadFrom C network s)
    (P : Named → Prop) : (∃ a : Named, a.ReadFrom C network s ∧ P a) ↔ P n := by
  constructor
  · rintro ⟨a, ha, hP⟩
    obtain ⟨rfl, -⟩ := ha.unique hn
    exact hP
  · exact fun hP ↦ ⟨n, hn, hP⟩

end Unique

/-! ## Destinations -/

section Destinations

variable {C : Crypto} {network : Network} {s : String}

/-- What is read where no reader of post-quantum addresses accepts. -/
theorem Named.ReadFrom.parseAddress_isOk {a : Named} (ha : a.ReadFrom C network s) {e e' : KeyError}
    (hpq : parsePqAddress C network s = .error e)
    (hyec : parsePqYecAddress C network s = .error e') : (parseAddress C network s).isOk := by
  cases a with
  | p2pkh hash => rw [show parseAddress C network s = _ from ha]; rfl
  | yellowback hash => rw [show parseAddress C network s = _ from ha]; rfl
  | p2sh hash => rw [show parseAddress C network s = _ from ha]; rfl
  | pqYellowback id => exact nomatch hpq.symm.trans ha
  | pqYec id => exact nomatch hyec.symm.trans ha

/-- A YED destination is read from the addresses of the forms that YED is paid to. -/
theorem parseYedDestination_eq_ok_iff {d : YedDestination} :
    parseYedDestination C network s = .ok d ↔
      ∃ a : Named, a.ReadFrom C network s ∧ a.yedDestination = some d := by
  rw [parseYedDestination]
  cases hpq : parsePqAddress C network s with
  | ok id =>
    have hread : (Named.pqYellowback id).ReadFrom C network s := hpq
    rw [hread.exists_iff]
    simp [Named.yedDestination]
  | error e =>
    cases hadr : parseAddress C network s with
    | ok a =>
      obtain ⟨n, hn, hash, ⟨rfl, rfl⟩ | ⟨rfl, rfl⟩ | ⟨rfl, rfl⟩⟩ := parseAddress_cases hadr
      all_goals
        rw [hn.exists_iff]
        simp [Named.yedDestination, bind, Except.bind]
    | error e' =>
      refine iff_of_false (fun h ↦ nomatch h) ?_
      rintro ⟨a, ha, hd⟩
      cases hyec : parsePqYecAddress C network s with
      | ok id =>
        obtain ⟨rfl, -⟩ := ha.unique (show (Named.pqYec id).ReadFrom C network s from hyec)
        cases hd
      | error e'' =>
        have hok := ha.parseAddress_isOk hpq hyec
        rw [hadr] at hok
        cases hok

/-- A YEC destination is read from the addresses of the forms that YEC is paid to. -/
theorem parseYecDestination_eq_ok_iff {d : YecDestination} :
    parseYecDestination C network s = .ok d ↔
      ∃ a : Named, a.ReadFrom C network s ∧ a.yecDestination = some d := by
  rw [parseYecDestination]
  cases hyec : parsePqYecAddress C network s with
  | ok id =>
    have hread : (Named.pqYec id).ReadFrom C network s := hyec
    rw [hread.exists_iff]
    simp [Named.yecDestination]
  | error e =>
    cases hpq : parsePqAddress C network s with
    | ok id =>
      have hread : (Named.pqYellowback id).ReadFrom C network s := hpq
      rw [hread.exists_iff]
      by_cases hid : id.scheme = schemeFnDsa <;> simp [Named.yecDestination, hid]
    | error e' =>
      cases hadr : parseAddress C network s with
      | ok a =>
        obtain ⟨n, hn, hash, ⟨rfl, rfl⟩ | ⟨rfl, rfl⟩ | ⟨rfl, rfl⟩⟩ := parseAddress_cases hadr
        all_goals
          rw [hn.exists_iff]
          simp [Named.yecDestination, bind, Except.bind]
      | error e'' =>
        refine iff_of_false (fun h ↦ nomatch h) ?_
        rintro ⟨a, ha, hd⟩
        have hok := ha.parseAddress_isOk hpq hyec
        rw [hadr] at hok
        cases hok

/-- Every reader of the network refuses the string. -/
structure Refused (C : Crypto) (network : Network) (s : String) : Prop where
  address : (parseAddress C network s).isOk = false
  pqAddress : (parsePqAddress C network s).isOk = false
  pqYecAddress : (parsePqYecAddress C network s).isOk = false
  yedDestination : (parseYedDestination C network s).isOk = false
  yecDestination : (parseYecDestination C network s).isOk = false

theorem isOk_eq_false {ε α : Type} {x : Except ε α} (h : ∀ a, x ≠ .ok a) : x.isOk = false := by
  cases x with
  | ok a => exact absurd rfl (h a)
  | error e => rfl

theorem refused_of_forall (h : ∀ a : Named, ¬ a.ReadFrom C network s) : Refused C network s where
  address := isOk_eq_false fun _ hok ↦
    have ⟨n, hn, _⟩ := parseAddress_cases hok
    h n hn
  pqAddress := isOk_eq_false fun id hok ↦ h (.pqYellowback id) hok
  pqYecAddress := isOk_eq_false fun id hok ↦ h (.pqYec id) hok
  yedDestination := isOk_eq_false fun _ hok ↦
    have ⟨n, hn, _⟩ := parseYedDestination_eq_ok_iff.mp hok
    h n hn
  yecDestination := isOk_eq_false fun _ hok ↦
    have ⟨n, hn, _⟩ := parseYecDestination_eq_ok_iff.mp hok
    h n hn

/-- An address of one network is refused on a network where its form has another version. -/
theorem Named.ReadFrom.refused {a : Named} (ha : a.ReadFrom C network s) {other : Network}
    (h : a.version other ≠ a.version network) : Refused C other s := by
  refine refused_of_forall fun b hb ↦ h ?_
  exact (ha.unique hb).2.symm

end Destinations

/-! ## WIF keys -/

section Wif

variable {C : Crypto} {network : Network} {s : String}

/-- The bytes of a compressed key's WIF. -/
def wifBytes (network : Network) (k : SecretKey) : Bytes :=
  network.wifPrefix :: (k.bytes.toList ++ [0x01])

theorem bytes_of_fromSecretBytes {a : Arr 32} {k : SecretKey}
    (h : SecretKey.fromSecretBytes a = some k) : k.bytes = a := by
  unfold SecretKey.fromSecretBytes at h
  split at h
  · cases h
    rfl
  · cases h

theorem wifPayload_eq_ok_iff {payload : Bytes} {k : SecretKey} :
    wifPayload network payload = .ok k ↔ payload = wifBytes network k := by
  cases payload with
  | nil => simp [wifPayload, wifBytes]
  | cons version rest =>
    rw [wifPayload]
    constructor
    · intro h
      split at h
      · cases h
      rename_i hshape
      obtain ⟨hlen, hlast⟩ : rest.length = 33 ∧ rest.getLast? = some 0x01 := by simpa using hshape
      split at h
      · cases h
      rename_i hversion
      obtain rfl : version = network.wifPrefix := by simpa using hversion
      split at h
      · rename_i k' hk
        cases h
        obtain ⟨a, ha, hak⟩ := Option.bind_eq_some_iff.mp hk
        have hrest : rest.take 32 ++ [0x01] = rest := by
          rw [← List.dropLast_append_getLast? _ hlast, List.dropLast_eq_take, hlen]
          simp [hlen]
        rw [wifBytes, bytes_of_fromSecretBytes hak, ← Bytes.toArr?_eq_some.mp ha, hrest]
      · cases h
    · intro h
      obtain ⟨rfl, rfl⟩ : version = network.wifPrefix ∧ rest = k.bytes.toList ++ [0x01] := by
        simpa [wifBytes] using h
      simp

/-- A WIF of the network is read from the strings that hold its byte, a key and the mark of a
compressed key. -/
theorem decodeWif_eq_ok_iff {k : SecretKey} :
    decodeWif C network s = .ok k ↔ base58checkDecode C s = .ok (wifBytes network k) := by
  rw [decodeWif]
  cases hdec : base58checkDecode C s with
  | error e => simp [bind, Except.bind]
  | ok payload => simpa [bind, Except.bind] using wifPayload_eq_ok_iff

/-- A WIF is no address, on any network. -/
theorem refused_of_decodeWif {k : SecretKey} (h : decodeWif C network s = .ok k) (other : Network) :
    Refused C other s := by
  refine refused_of_forall fun a ha ↦ ?_
  have hdec := (Named.readFrom_iff.mp ha).2
  rw [decodeWif_eq_ok_iff.mp h] at hdec
  have hlen := congrArg List.length (Except.ok.inj hdec)
  rw [List.length_append, Named.length_version] at hlen
  cases a <;> simp [wifBytes, Named.body, PqKeyId.toBytes] at hlen

end Wif

/-! ## All of it -/

/-- **Every address names one thing.**  Where Base58 is read back: each form is read back by the
reader of its form; a string is of one form only and names one thing, whichever networks it is read
on; a YED destination is read exactly from the forms that YED is paid to; the strings that are WIFs of
a key are the ones that hold the key with the mark of a compressed key, and its WIF is one of them;
and an address or a WIF of one network is refused on each network with another version. -/
theorem addresses_sound {C : Crypto} (hB : Base58Exact C) :
    (∀ (n : Network) (a : Named) (s : String), a.encode C n = some s → a.ReadFrom C n s) ∧
    (∀ (n : Network) (a : Named), a.encode C n = none ↔ a.known = false) ∧
    (∀ (n m : Network) (s : String) (a b : Named), a.ReadFrom C n s → b.ReadFrom C m s → a = b) ∧
    (∀ (n : Network) (s : String) (d : YedDestination), parseYedDestination C n s = .ok d ↔
      ∃ a : Named, a.ReadFrom C n s ∧ a.yedDestination = some d) ∧
    (∀ (n : Network) (k : SecretKey), decodeWif C n (encodeWif C n k) = .ok k) ∧
    (∀ (n : Network) (s : String) (k : SecretKey), decodeWif C n s = .ok k ↔
      base58checkDecode C s = .ok (n.wifPrefix :: (k.bytes.toList ++ [0x01]))) ∧
    (∀ (n m : Network) (s : String) (a : Named), a.ReadFrom C n s → a.version m ≠ a.version n →
      Refused C m s) ∧
    (∀ (n m : Network) (s : String) (k : SecretKey), decodeWif C n s = .ok k →
      Refused C m s ∧ (m.wifPrefix ≠ n.wifPrefix → (decodeWif C m s).isOk = false)) := by
  refine ⟨fun n a s h ↦ ?_, fun n a ↦ ?_, fun n m s a b ha hb ↦ (ha.unique hb).1,
    fun n s d ↦ parseYedDestination_eq_ok_iff, fun n k ↦ ?_, fun n s k ↦ decodeWif_eq_ok_iff,
    fun n m s a ha h ↦ ha.refused h, fun n m s k h ↦ ⟨refused_of_decodeWif h m, fun hne ↦ ?_⟩⟩
  · obtain ⟨hknown, rfl⟩ := Named.encode_eq_some_iff.mp h
    refine Named.readFrom_iff.mpr ⟨hknown, base58checkDecode_encode hB fun hnil ↦ ?_⟩
    have hlen := @Named.length_version n a
    rw [(List.append_eq_nil_iff.mp hnil).1] at hlen
    cases hlen
  · rw [Option.eq_none_iff_forall_ne_some]
    simp [Named.encode_eq_some_iff]
  · exact decodeWif_eq_ok_iff.mpr (base58checkDecode_encode hB (List.cons_ne_nil _ _))
  · refine isOk_eq_false fun k' h' ↦ hne ?_
    have hdec := decodeWif_eq_ok_iff.mp h'
    rw [decodeWif_eq_ok_iff.mp h] at hdec
    exact (List.cons.inj (Except.ok.inj hdec)).1.symm

/-- A bundle with Base58 itself. -/
def base58Crypto : Crypto :=
  { Crypto.blank with base58Encode := Base58.encode, base58Decode := Base58.decode }

theorem addresses_sound_base58 :
    (∀ hash : Arr 20, parseAddress base58Crypto .mainnet (encodeP2sh base58Crypto .mainnet hash) =
        .ok ⟨.p2sh hash, false⟩) ∧
      ∀ k : SecretKey, (decodeWif base58Crypto .testnet
        (encodeWif base58Crypto .mainnet k)).isOk = false := by
  have hB : Base58Exact base58Crypto := Base58.decode_encode
  obtain ⟨hread, -, -, -, hwif, -, -, hother⟩ := addresses_sound hB
  exact ⟨fun hash ↦ hread .mainnet (.p2sh hash) _ rfl,
    fun k ↦ (hother .mainnet .testnet _ k (hwif .mainnet k)).2 (by decide)⟩

end Yew.Addresses
