import Yew.Core.Sighash
import Yew.Proto.Attest

/-!
# Signatures for one purpose

The keys of a set member and of an attestor sign five kinds of messages, each hashed behind a text
of its own.  The first nine bytes tell the kinds apart, and within a kind the bytes are those of one
message only.

The messages are those of `yewd/proto/src/act.rs` and `yewd/proto/src/attest.rs`.  Preimages of
different kinds are told apart by what they begin with, and those of one kind by their fields; of
the hash only collisions are spoken of.
-/

namespace Yew.Proto

open Bytes Tx Text Attest

/-- The kinds of messages. -/
inductive Purpose where
  | setAct
  | setSig
  | cancelCosign
  | attest
  | text
deriving DecidableEq

/-- What a message of a kind begins with. -/
def Purpose.head : Purpose → Bytes
  | .setAct => person "YcashSetAct"
  | .setSig => person "YcashSetSig"
  | .cancelCosign => cancelCosignPrefix
  | .attest => attestPrefix
  | .text => serString (utf8 messageMagic.toList)

/-- All of them. -/
def Purpose.all : List Purpose := [.setAct, .setSig, .cancelCosign, .attest, .text]

theorem Purpose.mem_all (p : Purpose) : p ∈ Purpose.all := by
  cases p <;> decide

/-- A message, with the fields that are hashed. -/
inductive Message where
  | setAct (payload : Bytes) (prevout : OutPoint)
  | setSig (setId : Arr 32) (role : UInt8) (prevout : OutPoint) (sighash : Arr 32)
  | cancelCosign (set intent : Arr 32) (n height price : UInt32) (block : Arr 32)
  | attest (seq : UInt16) (price height : UInt32) (block : Arr 32)
  | text (message : String)
deriving DecidableEq

namespace Message

/-- The kind of a message. -/
def purpose : Message → Purpose
  | .setAct .. => .setAct
  | .setSig .. => .setSig
  | .cancelCosign .. => .cancelCosign
  | .attest .. => .attest
  | .text _ => .text

/-- The fields of a message, in the order they are hashed. -/
def fields : Message → Bytes
  | .setAct payload prevout => payload ++ writeOutPoint prevout
  | .setSig setId role prevout sighash =>
    setId.toList ++ ([role] ++ (writeOutPoint prevout ++ sighash.toList))
  | .cancelCosign set intent n height price block =>
    set.toList ++ (intent.toList ++ (leOfNat 4 n.toNat ++ (leOfNat 4 height.toNat ++
      (leOfNat 4 price.toNat ++ block.toList))))
  | .attest seq price height block =>
    leOfNat 2 seq.toNat ++ (leOfNat 4 price.toNat ++ (leOfNat 4 height.toNat ++ block.toList))
  | .text message => serString (utf8 message.toList)

/-- The bytes that are hashed. -/
def preimage (m : Message) : Bytes := m.purpose.head ++ m.fields

/-- What is signed: `act_msg`, `set_sig_msg`, `cancel_cosign_message`, `attest_message` and
`message_hash`. -/
def digest (C : Crypto) : Message → Arr 32
  | .setAct payload prevout => SetAct.actMsg C payload prevout
  | .setSig setId role prevout sighash => SetAct.setSigMsg C setId role prevout sighash
  | .cancelCosign set intent n height price block =>
    cancelCosignMessage C set intent n height price block
  | .attest seq price height block => attestMessage C seq price height block
  | .text message => messageHash C message

/-- An attestation is hashed once, any other message twice. -/
theorem digest_eq (C : Crypto) (m : Message) :
    m.digest C = if m.purpose = .attest then C.sha256 m.preimage else C.sha256d m.preimage := by
  cases m <;> simp [digest, preimage, purpose, fields, Purpose.head, SetAct.actMsg,
    SetAct.setSigMsg, cancelCosignMessage, attestMessage, messageHash]

/-! ## Preimages -/

/-- Every kind begins with nine bytes or more, and nine bytes tell the kinds apart. -/
theorem head_apart : ∀ p ∈ Purpose.all, 9 ≤ p.head.length ∧
    ∀ q ∈ Purpose.all, p.head.take 9 = q.head.take 9 → p = q := by
  decide +kernel

theorem purpose_eq_of_preimage {m m' : Message} (h : m.preimage = m'.preimage) :
    m.purpose = m'.purpose := by
  obtain ⟨hlen, hapart⟩ := head_apart m.purpose m.purpose.mem_all
  have hlen' := (head_apart m'.purpose m'.purpose.mem_all).1
  have hnine := congrArg (List.take 9) h
  rw [preimage, preimage, List.take_append_of_le_length hlen,
    List.take_append_of_le_length hlen'] at hnine
  exact hapart _ m'.purpose.mem_all hnine

/-- `ser_string` is the form of a script in a transaction. -/
theorem serString_eq (s : Bytes) : serString s = writeScript s := by
  rw [serString, writeScript, writeCompactSize]
  split_ifs with hshort
  · have hbyte : leOfNat 1 s.length = [UInt8.ofNat s.length] := by
      rw [leOfNat, leOfNat, Nat.mod_eq_of_lt (by omega)]
    rw [hbyte]
  all_goals rfl

/-- The fields of a kind are those of one message only. -/
theorem eq_of_fields {m m' : Message} (hpurpose : m.purpose = m'.purpose)
    (h : m.fields = m'.fields) : m = m' := by
  cases m with
  | setAct payload prevout =>
    cases m' <;> cases hpurpose
    obtain ⟨rfl, hprevout⟩ := List.append_inj' h (by simp [writeOutPoint, writeU32])
    rw [delimits_writeOutPoint.injective hprevout]
  | setSig setId role prevout sighash =>
    cases m' <;> cases hpurpose
    obtain ⟨rfl, h₁⟩ := delimits_arr 32 h
    obtain ⟨rfl, h₂⟩ := delimits_byte h₁
    obtain ⟨rfl, h₃⟩ := delimits_writeOutPoint h₂
    rw [(delimits_arr 32).injective h₃]
  | cancelCosign set intent n height price block =>
    cases m' <;> cases hpurpose
    obtain ⟨rfl, h₁⟩ := delimits_arr 32 h
    obtain ⟨rfl, h₂⟩ := delimits_arr 32 h₁
    obtain ⟨rfl, h₃⟩ := delimits_u32 h₂
    obtain ⟨rfl, h₄⟩ := delimits_u32 h₃
    obtain ⟨rfl, h₅⟩ := delimits_u32 h₄
    rw [(delimits_arr 32).injective h₅]
  | attest seq price height block =>
    cases m' <;> cases hpurpose
    obtain ⟨rfl, h₁⟩ := delimits_u16 h
    obtain ⟨rfl, h₂⟩ := delimits_u32 h₁
    obtain ⟨rfl, h₃⟩ := delimits_u32 h₂
    rw [(delimits_arr 32).injective h₃]
  | text message =>
    cases m' <;> cases hpurpose
    rw [fields, fields, serString_eq, serString_eq] at h
    have hchars := congrArg fromUtf8 (writeScript_injective h)
    rw [fromUtf8_utf8, fromUtf8_utf8, Option.some.injEq] at hchars
    rw [String.toList_inj.mp hchars]

/-- The bytes that are hashed are those of one message only. -/
theorem preimage_injective : Function.Injective preimage := by
  intro m m' h
  have hpurpose := purpose_eq_of_preimage h
  rw [preimage, preimage, hpurpose] at h
  exact eq_of_fields hpurpose (List.append_inj h rfl).2

/-! ## Digests -/

/-- The strings SHA-256 is applied to on the way to a message's digest. -/
def hashed (C : Crypto) (m : Message) : List Bytes :=
  if m.purpose = .attest then [m.preimage] else [m.preimage, (C.sha256 m.preimage).toList]

/-- A collision of SHA-256 between strings hashed for the two messages. -/
def Collides (C : Crypto) (m m' : Message) : Prop :=
  ∃ a ∈ m.hashed C, ∃ b ∈ m'.hashed C, a ≠ b ∧ C.sha256 a = C.sha256 b

theorem length_preimage_attest {m : Message} (h : m.purpose = .attest) :
    m.preimage.length = 51 := by
  cases m <;> cases h
  have hhead : attestPrefix.length = 9 := by decide +kernel
  simp [preimage, fields, purpose, Purpose.head, hhead]

/-- Two strings of which one was hashed for each message, with one hash. -/
theorem eq_or_collides_of_mem {C : Crypto} {m m' : Message} {a b : Bytes} (ha : a ∈ m.hashed C)
    (hb : b ∈ m'.hashed C) (h : C.sha256 a = C.sha256 b) : a = b ∨ m.Collides C m' := by
  by_cases hab : a = b
  · exact .inl hab
  · exact .inr ⟨a, ha, b, hb, hab, h⟩

/-- Equal digests are of one message, or of a collision. -/
theorem eq_or_collides {C : Crypto} {m m' : Message} (h : m.digest C = m'.digest C) :
    m = m' ∨ m.Collides C m' := by
  rw [digest_eq, digest_eq] at h
  have hfirst (m : Message) : m.preimage ∈ m.hashed C := by
    rw [hashed]
    split <;> simp
  have hsecond {m : Message} (hm : m.purpose ≠ .attest) :
      (C.sha256 m.preimage).toList ∈ m.hashed C := by simp [hashed, hm]
  -- a digest has 32 bytes, what is hashed for an attestation has 51
  have hlength {m : Message} (hm : m.purpose = .attest) (b : Arr 32) : m.preimage ≠ b.toList := by
    intro heq
    have hlen := congrArg List.length heq
    rw [length_preimage_attest hm, b.toList_length] at hlen
    omega
  by_cases hm : m.purpose = .attest
  · rw [if_pos hm] at h
    by_cases hm' : m'.purpose = .attest
    · rw [if_pos hm'] at h
      exact (eq_or_collides_of_mem (hfirst m) (hfirst m') h).imp_left fun heq ↦
        preimage_injective heq
    · rw [if_neg hm'] at h
      exact .inr ⟨_, hfirst m, _, hsecond hm', hlength hm _, h⟩
  · rw [if_neg hm] at h
    by_cases hm' : m'.purpose = .attest
    · rw [if_pos hm'] at h
      exact .inr ⟨_, hsecond hm, _, hfirst m', (hlength hm' _).symm, h⟩
    · rw [if_neg hm'] at h
      obtain hinner | hcollides := eq_or_collides_of_mem (hsecond hm) (hsecond hm') h
      · have hdigest : C.sha256 m.preimage = C.sha256 m'.preimage :=
          List.Vector.toList_injective hinner
        exact (eq_or_collides_of_mem (hfirst m) (hfirst m') hdigest).imp_left fun heq ↦
          preimage_injective heq
      · exact .inr hcollides

/-- Messages for different purposes are hashed from different bytes, and so are messages of one
purpose that differ in a field.  Two messages with one digest show a collision of SHA-256. -/
theorem messages_apart (C : Crypto) (m m' : Message) :
    (m.purpose ≠ m'.purpose → m.preimage ≠ m'.preimage) ∧
      (m.preimage = m'.preimage ↔ m = m') ∧
        (m.digest C = m'.digest C → m = m' ∨ m.Collides C m') :=
  ⟨fun hne h ↦ hne (purpose_eq_of_preimage h), preimage_injective.eq_iff, eq_or_collides⟩

end Message

end Yew.Proto
