import Yew.Core.TxCodec
import Yew.Util.Delimited

/-!
# What a signature covers

The preimage of a signature hash is a row of fields, three of which are themselves digests of
lists.  Every field says where it ends, and so does every element of the lists; so as far as the
digests of the lists differ, the preimage determines what was signed.  The scriptSigs are in none
of them.

The preimage is that of `sighash` in `core/src/tx.rs`.  That two different lists do not have one
digest is a hypothesis; the rest is the injectivity of the writers (`Yew.Util.Delimited`).
-/

namespace Yew.Tx

open Bytes

/-! ## Fields -/

theorem delimits_writeU32 : Delimits writeU32 := delimits_u32

theorem delimits_writeI64 : Delimits writeI64 := by
  intro a b s t h
  obtain ⟨hab, hst⟩ := delimits_u64 h
  have hback := congrArg UInt64.toInt64 hab
  exact ⟨by simpa using hback, hst⟩

theorem delimits_writeOutPoint : Delimits writeOutPoint := by
  rintro ⟨txid, n⟩ ⟨txid', n'⟩ s t h
  rw [writeOutPoint, writeOutPoint, List.append_assoc, List.append_assoc] at h
  obtain ⟨htxid, h⟩ := delimits_arr 32 h
  obtain ⟨hn, h⟩ := delimits_writeU32 h
  exact ⟨congrArg₂ OutPoint.mk htxid hn, h⟩

/-- The first byte of a count says how many bytes it has. -/
theorem exists_writeCompactSize (n : Nat) : ∃ b r, writeCompactSize n = b :: r ∧
    compact n = if b = 253 then 3 else if b = 254 then 5 else if b = 255 then 9 else 1 := by
  unfold writeCompactSize compact
  by_cases h : n < 253
  · refine ⟨UInt8.ofNat n, [], by rw [if_pos h], ?_⟩
    have hne (m : UInt8) (hm : 253 ≤ m.toNat) : UInt8.ofNat n ≠ m := by
      intro heq
      have hnat := congrArg UInt8.toNat heq
      rw [UInt8.toNat_ofNat'] at hnat
      omega
    rw [if_pos (by omega), if_neg (hne 253 (by decide)), if_neg (hne 254 (by decide)),
      if_neg (hne 255 (by decide))]
  · have h252 : ¬n ≤ 252 := by omega
    simp only [h, h252, if_false]
    split_ifs with h₁ h₂
    · exact ⟨253, _, rfl, rfl⟩
    · exact ⟨254, _, rfl, rfl⟩
    · exact ⟨255, _, rfl, rfl⟩

/-- Counts in front of equal bytes are of one width, so what follows them is equal too. -/
theorem of_writeCompactSize_append {n m : Nat} {s t : Bytes}
    (h : writeCompactSize n ++ s = writeCompactSize m ++ t) :
    writeCompactSize n = writeCompactSize m ∧ s = t := by
  obtain ⟨b, r, hn, hcompact⟩ := exists_writeCompactSize n
  obtain ⟨b', r', hm, hcompact'⟩ := exists_writeCompactSize m
  have hb : b = b' := by
    rw [hn, hm, List.cons_append, List.cons_append] at h
    exact (List.cons.inj h).1
  refine List.append_inj h ?_
  rw [length_writeCompactSize, length_writeCompactSize, hcompact, hcompact', hb]

theorem delimitsOn_writeCompactSize : DelimitsOn (· < 2 ^ 64) writeCompactSize := by
  intro n m hn hm s t h
  obtain ⟨heq, hst⟩ := of_writeCompactSize_append h
  -- both are read back from the same bytes
  have hread := yields_compactSize hn 0 []
  rw [heq, yields_compactSize hm 0 []] at hread
  cases hread
  exact ⟨rfl, hst⟩

theorem writeScript_injective : Function.Injective writeScript :=
  fun _ _ h ↦ (of_writeCompactSize_append h).2

theorem delimitsOn_writeScript : DelimitsOn (·.length < 2 ^ 64) writeScript := by
  intro u v hu hv s t h
  rw [writeScript, writeScript, List.append_assoc, List.append_assoc] at h
  obtain ⟨hlen, h⟩ := delimitsOn_writeCompactSize hu hv h
  exact List.append_inj h hlen

theorem delimitsOn_writeTxout : DelimitsOn (·.scriptPubkey.length < 2 ^ 64) writeTxout := by
  rintro ⟨value, script⟩ ⟨value', script'⟩ hs hs' s t h
  rw [writeTxout, writeTxout, List.append_assoc, List.append_assoc] at h
  obtain ⟨hvalue, h⟩ := delimits_writeI64 h
  obtain ⟨hscript, h⟩ := delimitsOn_writeScript hs hs' h
  exact ⟨congrArg₂ TxOut.mk hvalue hscript, h⟩

/-! ## The lists behind the inner digests -/

namespace Transaction

/-- What `hashPrevouts` hashes. -/
def prevoutBytes (t : Transaction) : Bytes := t.vin.flatMap fun i ↦ writeOutPoint i.prevout

/-- What `hashSequence` hashes. -/
def sequenceBytes (t : Transaction) : Bytes := t.vin.flatMap fun i ↦ writeU32 i.sequence

/-- What `hashOutputs` hashes. -/
def outputBytes (t : Transaction) : Bytes := t.vout.flatMap writeTxout

/-- The scripts of a transaction are as long as a `Vec` can be. -/
def Sized (t : Transaction) : Prop := ∀ o ∈ t.vout, o.scriptPubkey.length < 2 ^ 64

theorem prevoutBytes_inj {t t' : Transaction} :
    t.prevoutBytes = t'.prevoutBytes ↔ t.vin.map TxIn.prevout = t'.vin.map TxIn.prevout := by
  have hflat (u : Transaction) :
      u.prevoutBytes = (u.vin.map TxIn.prevout).flatMap writeOutPoint := by
    rw [List.flatMap_map]
    rfl
  rw [hflat, hflat]
  constructor
  · refine (delimits_writeOutPoint.on fun _ ↦ True).flatMap (fun o ↦ ?_) (fun _ _ ↦ trivial)
      fun _ _ ↦ trivial
    exact List.ne_nil_of_length_pos (by simp [writeOutPoint, writeU32])
  · exact congrArg _

theorem sequenceBytes_inj {t t' : Transaction} :
    t.sequenceBytes = t'.sequenceBytes ↔ t.vin.map TxIn.sequence = t'.vin.map TxIn.sequence := by
  have hflat (u : Transaction) :
      u.sequenceBytes = (u.vin.map TxIn.sequence).flatMap writeU32 := by
    rw [List.flatMap_map]
    rfl
  rw [hflat, hflat]
  constructor
  · refine (delimits_writeU32.on fun _ ↦ True).flatMap (fun o ↦ ?_) (fun _ _ ↦ trivial)
      fun _ _ ↦ trivial
    exact List.ne_nil_of_length_pos (by simp [writeU32])
  · exact congrArg _

theorem outputBytes_inj {t t' : Transaction} (ht : t.Sized) (ht' : t'.Sized) :
    t.outputBytes = t'.outputBytes ↔ t.vout = t'.vout := by
  constructor
  · refine delimitsOn_writeTxout.flatMap (fun o ↦ ?_) ht ht'
    exact List.ne_nil_of_length_pos (by simp [writeTxout, writeI64])
  · exact fun h ↦ congrArg (List.flatMap writeTxout) h

/-! ## What is covered -/

/-- What the signature of an input covers under `SIGHASH_ALL`. -/
structure Covered where
  header : UInt32
  versionGroupId : UInt32
  prevouts : List OutPoint
  sequences : List UInt32
  outputs : List TxOut
  lockTime : UInt32
  expiryHeight : UInt32
  outpoint : OutPoint
  scriptCode : Bytes
  amount : Int64
  sequence : UInt32
  branchId : UInt32

/-- What is covered when an input is signed over a script code and an amount. -/
def covered (t : Transaction) (i : TxIn) (scriptCode : Bytes) (amount : Int64)
    (branchId : UInt32) : Covered where
  header := t.header
  versionGroupId := t.versionGroupId
  prevouts := t.vin.map TxIn.prevout
  sequences := t.vin.map TxIn.sequence
  outputs := t.vout
  lockTime := t.lockTime
  expiryHeight := t.expiryHeight
  outpoint := i.prevout
  scriptCode := scriptCode
  amount := amount
  sequence := i.sequence
  branchId := branchId

/-- What `sighash` hashes: the personalisation and the preimage. -/
def sighashInput (C : Crypto) (t : Transaction) (index : Nat) (i : TxIn) (scriptCode : Bytes)
    (amount : Int64) (hashType branchId : UInt32) : Bytes × Bytes :=
  (person "ZcashSigHash" ++ writeU32 branchId,
    sighashPreimage C t index i scriptCode amount hashType)

/-- The inner digests of two transactions tell their lists apart. -/
structure InnerApart (C : Crypto) (t t' : Transaction) : Prop where
  prevouts : C.blake2b256 (person "ZcashPrevoutHash") t.prevoutBytes =
    C.blake2b256 (person "ZcashPrevoutHash") t'.prevoutBytes → t.prevoutBytes = t'.prevoutBytes
  sequences : C.blake2b256 (person "ZcashSequencHash") t.sequenceBytes =
    C.blake2b256 (person "ZcashSequencHash") t'.sequenceBytes →
      t.sequenceBytes = t'.sequenceBytes
  outputs : C.blake2b256 (person "ZcashOutputsHash") t.outputBytes =
    C.blake2b256 (person "ZcashOutputsHash") t'.outputBytes → t.outputBytes = t'.outputBytes

/-- The preimage of `SIGHASH_ALL`, field after field. -/
theorem sighashPreimage_all (C : Crypto) (t : Transaction) (index : Nat) (i : TxIn)
    (scriptCode : Bytes) (amount : Int64) :
    sighashPreimage C t index i scriptCode amount sighashAll =
      writeU32 t.header ++ (writeU32 t.versionGroupId ++
        ((C.blake2b256 (person "ZcashPrevoutHash") t.prevoutBytes).toList ++
          ((C.blake2b256 (person "ZcashSequencHash") t.sequenceBytes).toList ++
            ((C.blake2b256 (person "ZcashOutputsHash") t.outputBytes).toList ++
              (List.replicate 96 0 ++ (writeU32 t.lockTime ++ (writeU32 t.expiryHeight ++
                (writeI64 0 ++ (writeU32 sighashAll ++ (writeOutPoint i.prevout ++
                  (writeScript scriptCode ++ (writeI64 amount ++
                    writeU32 i.sequence)))))))))))) := by
  have hprevouts : hashPrevouts C t sighashAll =
      (C.blake2b256 (person "ZcashPrevoutHash") t.prevoutBytes).toList := if_pos (by decide)
  have hsequence : hashSequence C t sighashAll =
      (C.blake2b256 (person "ZcashSequencHash") t.sequenceBytes).toList := by
    rw [hashSequence, if_pos (by decide)]
    rfl
  have houtputs : hashOutputs C t index sighashAll =
      (C.blake2b256 (person "ZcashOutputsHash") t.outputBytes).toList := by
    rw [hashOutputs, if_pos (by decide)]
    rfl
  have hzero : List.replicate 96 (0 : UInt8) =
      List.replicate 32 0 ++ (List.replicate 32 0 ++ List.replicate 32 0) := by
    rw [List.replicate_append_replicate, List.replicate_append_replicate]
  simp only [sighashPreimage, hprevouts, hsequence, houtputs, hzero, List.append_assoc]

/-- Two signature hashes are over the same bytes exactly if they cover the same. -/
theorem sighashInput_eq_iff {C : Crypto} {t t' : Transaction} (hapart : InnerApart C t t')
    (ht : t.Sized) (ht' : t'.Sized) (index index' : Nat) (i i' : TxIn)
    (scriptCode scriptCode' : Bytes) (amount amount' : Int64) (branchId branchId' : UInt32) :
    t.sighashInput C index i scriptCode amount sighashAll branchId =
        t'.sighashInput C index' i' scriptCode' amount' sighashAll branchId' ↔
      t.covered i scriptCode amount branchId = t'.covered i' scriptCode' amount' branchId' := by
  simp only [sighashInput, Prod.mk.injEq, sighashPreimage_all]
  constructor
  · rintro ⟨hperson, h⟩
    obtain ⟨-, hbranch⟩ := List.append_inj' hperson (by simp [writeU32])
    obtain ⟨hheader, h⟩ := delimits_writeU32 h
    obtain ⟨hgroup, h⟩ := delimits_writeU32 h
    obtain ⟨hprevouts, h⟩ := delimits_arr 32 h
    obtain ⟨hsequences, h⟩ := delimits_arr 32 h
    obtain ⟨houtputs, h⟩ := delimits_arr 32 h
    obtain ⟨-, h⟩ := List.append_inj h rfl
    obtain ⟨hlock, h⟩ := delimits_writeU32 h
    obtain ⟨hexpiry, h⟩ := delimits_writeU32 h
    obtain ⟨-, h⟩ := delimits_writeI64 h
    obtain ⟨-, h⟩ := delimits_writeU32 h
    obtain ⟨hpoint, h⟩ := delimits_writeOutPoint h
    -- the script code is read off from the end, where the widths are known
    obtain ⟨hscript, h⟩ := List.append_inj' h (by simp [writeI64, writeU32])
    obtain ⟨hamount, h⟩ := delimits_writeI64 h
    rw [covered, covered, hheader, hgroup, prevoutBytes_inj.mp (hapart.prevouts hprevouts),
      sequenceBytes_inj.mp (hapart.sequences hsequences),
      (outputBytes_inj ht ht').mp (hapart.outputs houtputs), hlock, hexpiry, hpoint,
      writeScript_injective hscript, hamount, delimits_writeU32.injective h,
      delimits_writeU32.injective hbranch]
  · intro h
    simp only [covered, Covered.mk.injEq] at h
    obtain ⟨hheader, hgroup, hprevouts, hsequences, houtputs, hlock, hexpiry, hpoint, hscript,
      hamount, hsequence, hbranch⟩ := h
    rw [hheader, hgroup, prevoutBytes_inj.mpr hprevouts, sequenceBytes_inj.mpr hsequences,
      (outputBytes_inj ht ht').mpr houtputs, hlock, hexpiry, hpoint, hscript, hamount, hsequence,
      hbranch]
    exact ⟨rfl, rfl⟩

/-- The scriptSigs are in none of it. -/
theorem sighashInput_setScriptSigs (C : Crypto) {t : Transaction} {sigs : List Bytes}
    (h : sigs.length = t.vin.length) {index : Nat} {i : TxIn} (hi : t.vin[index]? = some i)
    (scriptCode : Bytes) (amount : Int64) (branchId : UInt32) :
    ∃ j, (t.setScriptSigs sigs).vin[index]? = some j ∧
      (t.setScriptSigs sigs).sighashInput C index j scriptCode amount sighashAll branchId =
        t.sighashInput C index i scriptCode amount sighashAll branchId := by
  have hinput : (t.setScriptSigs sigs).vin[index]?.map (fun i ↦ (i.prevout, i.sequence)) =
      t.vin[index]?.map fun i ↦ (i.prevout, i.sequence) := by
    rw [← List.getElem?_map, map_vin_setScriptSigs (fun _ _ ↦ rfl) h, List.getElem?_map]
  rw [hi, Option.map_some, Option.map_eq_some_iff] at hinput
  obtain ⟨j, hj, hsame⟩ := hinput
  rw [Prod.mk.injEq] at hsame
  have hprevouts : (t.setScriptSigs sigs).prevoutBytes = t.prevoutBytes :=
    flatMap_vin_setScriptSigs (fun _ _ ↦ rfl) h
  have hsequences : (t.setScriptSigs sigs).sequenceBytes = t.sequenceBytes :=
    flatMap_vin_setScriptSigs (fun _ _ ↦ rfl) h
  refine ⟨j, hj, ?_⟩
  simp only [sighashInput, sighashPreimage_all, hprevouts, hsequences, hsame.1, hsame.2]
  rfl

/-- The preimage of `SIGHASH_ALL | ANYONECANPAY`: of the inputs only the signed one is in it. -/
theorem sighashPreimage_anyonecanpay (C : Crypto) (t : Transaction) (index : Nat) (i : TxIn)
    (scriptCode : Bytes) (amount : Int64) :
    sighashPreimage C t index i scriptCode amount (sighashAll ||| anyonecanpay) =
      writeU32 t.header ++ writeU32 t.versionGroupId ++ List.replicate 32 0 ++
        List.replicate 32 0 ++ (C.blake2b256 (person "ZcashOutputsHash") t.outputBytes).toList ++
        List.replicate 32 0 ++ List.replicate 32 0 ++ List.replicate 32 0 ++ writeU32 t.lockTime ++
        writeU32 t.expiryHeight ++ writeI64 0 ++ writeU32 (sighashAll ||| anyonecanpay) ++
        writeOutPoint i.prevout ++ writeScript scriptCode ++ writeI64 amount ++
        writeU32 i.sequence := by
  have hprevouts : hashPrevouts C t (sighashAll ||| anyonecanpay) = List.replicate 32 0 :=
    if_neg (by decide)
  have hsequence : hashSequence C t (sighashAll ||| anyonecanpay) = List.replicate 32 0 := by
    rw [hashSequence, if_neg (by decide)]
  have houtputs : hashOutputs C t index (sighashAll ||| anyonecanpay) =
      (C.blake2b256 (person "ZcashOutputsHash") t.outputBytes).toList := by
    rw [hashOutputs, if_pos (by decide)]
    rfl
  rw [sighashPreimage, hprevouts, hsequence, houtputs]

/-- Under `SIGHASH_ALL | ANYONECANPAY` the other inputs do not matter, nor does the place of the
signed one. -/
theorem sighash_anyonecanpay (C : Crypto) (t : Transaction) {vin : List TxIn} {index index' : Nat}
    {i : TxIn} (hi : t.vin[index]? = some i) (hi' : vin[index']? = some i) (scriptCode : Bytes)
    (amount : Int64) (branchId : UInt32) :
    ({ t with vin := vin } : Transaction).sighash C index' scriptCode amount
        (sighashAll ||| anyonecanpay) branchId =
      t.sighash C index scriptCode amount (sighashAll ||| anyonecanpay) branchId := by
  rw [sighash, sighash, hi, hi']
  dsimp only
  rw [sighashPreimage_anyonecanpay, sighashPreimage_anyonecanpay]
  rfl

/-- What `sighash` hashes under `SIGHASH_ALL` determines everything the signature covers, the
branch included, and nothing of the scriptSigs; the digests of the lists taken to tell the two
transactions apart. -/
theorem sighash_binds {C : Crypto} {t t' : Transaction} (hapart : InnerApart C t t')
    (ht : t.Sized) (ht' : t'.Sized) {index index' : Nat} {i i' : TxIn}
    (hi : t.vin[index]? = some i) (scriptCode scriptCode' : Bytes) (amount amount' : Int64)
    (branchId branchId' : UInt32) :
    (t.sighashInput C index i scriptCode amount sighashAll branchId =
        t'.sighashInput C index' i' scriptCode' amount' sighashAll branchId' ↔
      t.covered i scriptCode amount branchId = t'.covered i' scriptCode' amount' branchId') ∧
      ∀ sigs : List Bytes, sigs.length = t.vin.length →
        ∃ j, (t.setScriptSigs sigs).vin[index]? = some j ∧
          (t.setScriptSigs sigs).sighashInput C index j scriptCode amount sighashAll branchId =
            t.sighashInput C index i scriptCode amount sighashAll branchId :=
  ⟨sighashInput_eq_iff hapart ht ht' index index' i i' scriptCode scriptCode' amount amount'
    branchId branchId', fun _ h ↦ sighashInput_setScriptSigs C h hi scriptCode amount branchId⟩

/-- Digests that are the first 32 bytes. -/
def leadingCrypto : Crypto :=
  { Crypto.blank with
    blake2b256 := fun _ b ↦ ⟨(b ++ List.replicate 32 0).take 32, by simp⟩ }

/-- An input that spends the output 0 of the transaction whose txid is `b` throughout. -/
def sampleInput (b : UInt8) : TxIn := ⟨⟨List.Vector.replicate 32 b, 0⟩, [], sequenceFinal⟩

/-- A transaction of that input alone. -/
def spending (b : UInt8) : Transaction := { newV4 with vin := [sampleInput b] }

theorem sighash_binds_spending :
    (spending 0).sighashInput leadingCrypto 0 (sampleInput 0) [] 5 sighashAll 0 ≠
      (spending 1).sighashInput leadingCrypto 0 (sampleInput 1) [] 5 sighashAll 0 := by
  have hapart : InnerApart leadingCrypto (spending 0) (spending 1) :=
    ⟨fun h ↦ absurd h (by decide +kernel), fun _ ↦ rfl, fun _ ↦ rfl⟩
  intro h
  have hsized (b : UInt8) : (spending b).Sized := by simp [Sized, spending, newV4]
  have hinput : (spending 0).vin[0]? = some (sampleInput 0) := rfl
  have hcovered := (sighash_binds hapart (hsized 0) (hsized 1) hinput [] [] 5 5 0 0).1.mp h
  have hpoint := congrArg Covered.outpoint hcovered
  revert hpoint
  decide +kernel

end Transaction

end Yew.Tx
