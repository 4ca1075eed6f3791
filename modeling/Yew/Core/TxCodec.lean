import Yew.Core.TxRead
import Yew.Util.Proc

/-!
# The transaction codec

What `serialize` writes is read back as it was, up to the reader's limit on a script; and what
`parse` accepts is written back as it was, if it was the shortest form of its transaction and one
that the serializer writes at all.  The sizes a fee is priced on are the sizes written.

The serializer and the parser are those of `core/src/tx.rs`.  The serializer writes no shielded
part, and the parser keeps none: what it skips is counted, so the round trip of parsed bytes asks
that there was nothing to skip.

## Source

* `core/src/tx.rs`: `Transaction::new_v4`, `Transaction::txid`, `size_with_script_sigs`
-/

namespace Yew.Tx

/-! ## Inputs and outputs -/

theorem yields_readTxin {i : TxIn} (h : i.scriptSig.length ≤ 2 ^ 24) :
    Yields readTxin (writeTxin i) i := by
  have hrest : Yields (do
      let idx ← readU32
      let scriptSig ← varBytes
      let sequence ← readU32
      return ⟨⟨i.prevout.txid, idx⟩, scriptSig, sequence⟩ : Read TxIn)
      (writeU32 i.prevout.n ++ (writeScript i.scriptSig ++ writeU32 i.sequence)) i :=
    (yields_readU32 _).bind ((yields_varBytes h).bind (yields_readU32 _).map)
  have hread : Yields readTxin (i.prevout.txid.toList ++ (writeU32 i.prevout.n ++
      (writeScript i.scriptSig ++ writeU32 i.sequence))) i := by
    refine (yields_take i.prevout.txid.toList_length).bind ?_
    rw [Bytes.toArr?_toList]
    exact hrest
  refine hread.congr ?_
  simp only [writeTxin, writeOutPoint, List.append_assoc]

theorem takes_readTxin : Takes readTxin fun u i ↦
    i.scriptSig.length ≤ 2 ^ 24 ∧ NoLonger (writeTxin i) u := by
  refine (takes_take 32).bind ?_
  rintro u b ⟨rfl, -⟩
  cases htxid : Bytes.toArr? 32 b with
  | none => exact .truncated _
  | some txid =>
    have hb := Bytes.toArr?_eq_some.mp htxid
    refine takes_readU32.bind ?_
    rintro v n rfl
    refine takes_varBytes.bind ?_
    rintro v s ⟨hs, hv⟩
    refine takes_readU32.map ?_
    rintro v' q rfl
    refine ⟨hs, ?_⟩
    have hall := ((NoLonger.refl (b ++ writeU32 n)).append hv).append (.refl (writeU32 q))
    rw [hb] at hall ⊢
    simpa only [writeTxin, writeOutPoint, List.append_assoc] using hall

theorem yields_readTxout {o : TxOut} (h : o.scriptPubkey.length ≤ 2 ^ 24) :
    Yields readTxout (writeTxout o) o :=
  (yields_readI64 _).bind (yields_varBytes h).map

theorem takes_readTxout : Takes readTxout fun u o ↦
    o.scriptPubkey.length ≤ 2 ^ 24 ∧ NoLonger (writeTxout o) u := by
  refine takes_readI64.bind ?_
  rintro u n rfl
  refine takes_varBytes.map ?_
  rintro v s ⟨hs, hv⟩
  exact ⟨hs, (NoLonger.refl _).append hv⟩

/-! ## The shielded part -/

/-- What stands behind the expiry height of a transparent transaction. -/
def emptyShielded (v4 : Bool) : Bytes :=
  (if v4 then writeI64 0 ++ writeCompactSize 0 ++ writeCompactSize 0 else []) ++ writeCompactSize 0

theorem yields_skipDescriptions (w size : Nat) :
    Yields (skipDescriptions w size) (writeCompactSize 0) 0 := by
  refine Yields.congr (u := writeCompactSize 0 ++ ([] ++ [])) ?_ rfl
  refine (yields_compactSize (by decide)).bind ?_
  dsimp only
  rw [Nat.zero_mod, Nat.zero_mul, if_pos (Nat.two_pow_pos w)]
  exact (yields_take (n := 0) rfl).bind (Yields.pure 0)

theorem takes_skipDescriptions (size : Nat) : Takes (skipDescriptions 64 size) fun u n ↦
    n = 0 → NoLonger (writeCompactSize 0) u := by
  refine takes_compactSize.bind ?_
  rintro u n ⟨hn, hu⟩
  dsimp only
  split
  · refine (takes_take _).map ?_
    rintro v a ⟨rfl, hlen⟩ hzero
    have hn0 : n = 0 := by omega
    subst hn0
    simp only [Nat.zero_mod, Nat.zero_mul, List.length_eq_zero_iff] at hlen
    subst hlen
    rwa [List.append_nil]
  · exact .truncated _

/-- The end of `readShielded`: the binding signature. -/
def readBindingSig (v4 : Bool) (s : ShieldedSummary) : Read ShieldedSummary :=
  if v4 && (s.spends > 0 || s.outputs > 0) then do
    let _ ← take bindingSigSize
    return s
  else return s

/-- `readShielded` from the JoinSplits on. -/
def readJoinsplits (w : Nat) (header : UInt32) (v4 : Bool) (s : ShieldedSummary) :
    Read ShieldedSummary :=
  if 2 ≤ Transaction.versionOf header then do
    let joinsplits ← skipDescriptions w (if v4 then joinsplitGrothSize else joinsplitPhgrSize)
    if joinsplits > 0 then do
      let _ ← take (joinsplitPubkeySize + joinsplitSigSize)
      readBindingSig v4 { s with joinsplits }
    else readBindingSig v4 { s with joinsplits }
  else readBindingSig v4 s

theorem readShielded_eq (w : Nat) (header group : UInt32) :
    readShielded w header group =
      if Transaction.saplingV4Of header group then do
        let valueBalance ← readI64
        let spends ← skipDescriptions w spendDescriptionSize
        let outputs ← skipDescriptions w outputDescriptionSize
        readJoinsplits w header (Transaction.saplingV4Of header group)
          ⟨spends, outputs, 0, valueBalance⟩
      else readJoinsplits w header (Transaction.saplingV4Of header group) .empty := rfl

theorem yields_readJoinsplits (w : Nat) {header : UInt32} (v4 : Bool)
    (hver : 2 ≤ Transaction.versionOf header) :
    Yields (readJoinsplits w header v4 .empty) (writeCompactSize 0) .empty := by
  refine Yields.congr (u := writeCompactSize 0 ++ []) ?_ rfl
  rw [readJoinsplits, if_pos hver]
  refine (yields_skipDescriptions w _).bind ?_
  rw [if_neg (by decide), readBindingSig, if_neg (by simp [ShieldedSummary.empty])]
  exact Yields.pure _

/-- The empty shielded part is read as such. -/
theorem yields_readShielded (w : Nat) {header group : UInt32}
    (hver : 2 ≤ Transaction.versionOf header) :
    Yields (readShielded w header group)
      (emptyShielded (Transaction.saplingV4Of header group)) .empty := by
  rw [readShielded_eq, emptyShielded]
  cases Transaction.saplingV4Of header group with
  | true =>
    simp only [if_true, List.append_assoc]
    exact (yields_readI64 0).bind ((yields_skipDescriptions w _).bind
      ((yields_skipDescriptions w _).bind (yields_readJoinsplits w true hver)))
  | false =>
    simp only [Bool.false_eq_true, if_false, List.nil_append]
    exact yields_readJoinsplits w false hver

theorem takes_readBindingSig (v4 : Bool) (s : ShieldedSummary) :
    Takes (readBindingSig v4 s) fun u s' ↦ s' = s ∧ (s.any = false → u = []) := by
  rw [readBindingSig]
  split
  · rename_i h
    refine (takes_take _).map ?_
    rintro u a -
    refine ⟨rfl, fun hany ↦ ?_⟩
    simp only [ShieldedSummary.any] at hany
    simp_all
  · refine (Takes.pure s).mono ?_
    rintro u s' ⟨rfl, rfl⟩
    exact ⟨rfl, fun _ ↦ rfl⟩

theorem takes_readJoinsplits (header : UInt32) (v4 : Bool) (s : ShieldedSummary) :
    Takes (readJoinsplits 64 header v4 s) fun u s' ↦
      s'.spends = s.spends ∧ s'.outputs = s.outputs ∧ s'.valueBalance = s.valueBalance ∧
        (2 ≤ Transaction.versionOf header → s'.any = false →
          NoLonger (writeCompactSize 0) u) := by
  rw [readJoinsplits]
  split
  · refine (takes_skipDescriptions _).bind ?_
    intro u n hu
    split
    · rename_i hn
      refine (takes_take _).bind ?_
      rintro v a -
      refine (takes_readBindingSig v4 _).mono ?_
      rintro v' s' ⟨rfl, -⟩
      refine ⟨rfl, rfl, rfl, fun _ hany ↦ ?_⟩
      simp [ShieldedSummary.any] at hany
      omega
    · rename_i hn
      refine (takes_readBindingSig v4 _).mono ?_
      rintro v s' ⟨rfl, hv⟩
      refine ⟨rfl, rfl, rfl, fun _ hany ↦ ?_⟩
      rw [hv hany, List.append_nil]
      exact hu (by omega)
  · rename_i hver
    refine (takes_readBindingSig v4 s).mono ?_
    rintro u s' ⟨rfl, -⟩
    exact ⟨rfl, rfl, rfl, fun h ↦ absurd h hver⟩

/-- What was read without finding a shielded component: at least the empty shielded part. -/
theorem takes_readShielded (header group : UInt32) :
    Takes (readShielded 64 header group) fun u s ↦ 2 ≤ Transaction.versionOf header →
      s.any = false → s.valueBalance = 0 →
        NoLonger (emptyShielded (Transaction.saplingV4Of header group)) u := by
  rw [readShielded_eq]
  cases Transaction.saplingV4Of header group with
  | true =>
    simp only [if_true, emptyShielded]
    refine takes_readI64.bind ?_
    rintro u vb rfl
    refine (takes_skipDescriptions _).bind ?_
    intro v spends hv
    refine (takes_skipDescriptions _).bind ?_
    intro v' outputs hv'
    refine (takes_readJoinsplits header true _).mono ?_
    rintro v'' s ⟨hspends, houtputs, hvb, hjs⟩ hver hany hzero
    have hcounts : spends = 0 ∧ outputs = 0 := by
      simp only [ShieldedSummary.any] at hany
      simp_all
    have hvb0 : vb = 0 := hvb.symm.trans hzero
    have hall := ((NoLonger.refl (writeI64 0)).append (hv hcounts.1)).append (hv' hcounts.2)
    simpa only [hvb0, List.append_assoc] using hall.append (hjs hver hany)
  | false =>
    simp only [Bool.false_eq_true, if_false, emptyShielded, List.nil_append]
    refine (takes_readJoinsplits header false _).mono ?_
    rintro u s ⟨-, -, -, hjs⟩ hver hany -
    exact hjs hver hany

/-! ## Whole transactions -/

namespace Transaction

/-- A version the serializer writes: `is_sapling_v4() || is_overwinter_v3()`, of the two words. -/
def writtenOf (header group : UInt32) : Bool :=
  saplingV4Of header group || overwinterV3Of header group

theorem overwinteredOf_of_writtenOf {header group : UInt32} (h : writtenOf header group) :
    overwinteredOf header = true := by
  simp only [writtenOf, saplingV4Of, overwinterV3Of, Bool.or_eq_true, Bool.and_eq_true] at h
  tauto

theorem two_le_versionOf {header group : UInt32} (h : writtenOf header group) :
    2 ≤ versionOf header := by
  simp only [writtenOf, saplingV4Of, overwinterV3Of, Bool.or_eq_true, Bool.and_eq_true,
    decide_eq_true_eq] at h
  obtain ⟨-, hv⟩ | ⟨-, hv⟩ := h
  · rw [hv]
    decide
  · rw [hv]
    decide

/-- What the reader can hold: counts of 64 bits and scripts within the limit of `var_bytes`. -/
structure Fits (t : Transaction) : Prop where
  vin_lt : t.vin.length < 2 ^ 64
  vout_lt : t.vout.length < 2 ^ 64
  scriptSig_le : ∀ i ∈ t.vin, i.scriptSig.length ≤ 2 ^ 24
  scriptPubkey_le : ∀ o ∈ t.vout, o.scriptPubkey.length ≤ 2 ^ 24

/-- The bytes `serialize` writes when it writes. -/
def bytes (t : Transaction) : Bytes :=
  writeU32 t.header ++ (writeU32 t.versionGroupId ++ (writeCompactSize t.vin.length ++
    (t.vin.flatMap writeTxin ++ (writeCompactSize t.vout.length ++
      (t.vout.flatMap writeTxout ++ (writeU32 t.lockTime ++ (writeU32 t.expiryHeight ++
        emptyShielded t.isSaplingV4)))))))

theorem serialize_eq_ok_iff {t : Transaction} {b : Bytes} :
    t.serialize = .ok b ↔
      t.shielded.any = false ∧ writtenOf t.header t.versionGroupId ∧ b = t.bytes := by
  have hbytes : t.bytes = writeU32 t.header ++ writeU32 t.versionGroupId ++
      writeCompactSize t.vin.length ++ t.vin.flatMap writeTxin ++
      writeCompactSize t.vout.length ++ t.vout.flatMap writeTxout ++
      writeU32 t.lockTime ++ writeU32 t.expiryHeight ++
      (if t.isSaplingV4 then writeI64 0 ++ writeCompactSize 0 ++ writeCompactSize 0 else []) ++
      writeCompactSize 0 := by
    simp only [bytes, emptyShielded, List.append_assoc]
  have hwritten : writtenOf t.header t.versionGroupId = (t.isSaplingV4 || t.isOverwinterV3) := rfl
  rw [serialize, Result.guard_eq_ok, Result.guard_eq_ok, ← hbytes, hwritten]
  cases t.shielded.any <;> cases (t.isSaplingV4 || t.isOverwinterV3) <;> simp [eq_comm]

end Transaction

/-- `readTransaction` from the input count on. -/
def readBody (w : Nat) (header group : UInt32) : Read Transaction := do
  let vin ← readMany readTxin (← compactSize)
  let vout ← readMany readTxout (← compactSize)
  let lockTime ← readU32
  let expiryHeight ← if Transaction.overwinteredOf header then readU32 else pure 0
  let shielded ← readShielded w header group
  return { header, versionGroupId := group, vin, vout, lockTime, expiryHeight, shielded }

theorem readTransaction_eq (w : Nat) : readTransaction w = (do
    let header ← readU32
    let group ← if Transaction.overwinteredOf header then readU32 else pure 0
    if Transaction.overwinteredOf header && !(Transaction.overwinterV3Of header group ||
        Transaction.saplingV4Of header group) then throw (.version header group)
    else readBody w header group) := rfl

theorem yields_readBody (w : Nat) {t : Transaction} (hfits : t.Fits)
    (hw : Transaction.writtenOf t.header t.versionGroupId) :
    Yields (readBody w t.header t.versionGroupId)
      (writeCompactSize t.vin.length ++ (t.vin.flatMap writeTxin ++
        (writeCompactSize t.vout.length ++ (t.vout.flatMap writeTxout ++
          (writeU32 t.lockTime ++ (writeU32 t.expiryHeight ++ emptyShielded t.isSaplingV4))))))
      { t with shielded := .empty } := by
  have hin := yields_readMany fun i hi ↦ yields_readTxin (hfits.scriptSig_le i hi)
  have hout := yields_readMany fun o ho ↦ yields_readTxout (hfits.scriptPubkey_le o ho)
  rw [readBody, Transaction.overwinteredOf_of_writtenOf hw]
  exact (yields_compactSize hfits.vin_lt).bind (hin.bind ((yields_compactSize hfits.vout_lt).bind
    (hout.bind ((yields_readU32 _).bind ((yields_readU32 _).bind
      (yields_readShielded w (Transaction.two_le_versionOf hw)).map)))))

/-- What was written is read back, with no shielded component. -/
theorem yields_readTransaction (w : Nat) {t : Transaction} (hfits : t.Fits)
    (hw : Transaction.writtenOf t.header t.versionGroupId) :
    Yields (readTransaction w) t.bytes { t with shielded := .empty } := by
  have hov := Transaction.overwinteredOf_of_writtenOf hw
  have hbody := yields_readBody w hfits hw
  rw [readTransaction_eq]
  refine (yields_readU32 t.header).bind ?_
  rw [if_pos hov]
  refine (yields_readU32 t.versionGroupId).bind ?_
  rw [Transaction.writtenOf, Bool.or_comm] at hw
  dsimp only
  rw [if_neg (by rw [hw]; simp)]
  exact hbody

/-- A word that is read only if `c`, and what follows it. -/
theorem takes_wordIf {α : Type} {c : Bool} {f : UInt32 → Read α} {Q : Bytes → α → Prop}
    (hf : ∀ u n, (c = true → u = writeU32 n) → Takes (f n) fun v a ↦ Q (u ++ v) a) :
    Takes (if c then readU32 >>= f else pure 0 >>= f) Q := by
  cases c with
  | true => exact takes_readU32.bind fun u n hu ↦ hf u n fun _ ↦ hu
  | false => exact (Takes.pure 0).bind fun u n _ ↦ hf u n fun h ↦ by cases h

/-- An output takes at least a byte. -/
theorem length_le_flatMap_writeTxout (vout : List TxOut) :
    vout.length ≤ (vout.flatMap writeTxout).length := by
  induction vout with
  | nil => exact le_rfl
  | cons o os ih =>
    have hone : 1 ≤ (writeTxout o).length := by simp [writeTxout, writeI64]; omega
    rw [List.flatMap_cons, List.length_append, List.length_cons]
    omega

theorem takes_readBody (header group : UInt32) :
    Takes (readBody 64 header group) fun u t ↦
      t.header = header ∧ t.versionGroupId = group ∧ (t.Fits ∧ t.vout.length ≤ u.length) ∧
        (Transaction.writtenOf header group → t.shielded.any = false →
          t.shielded.valueBalance = 0 → NoLonger (writeCompactSize t.vin.length ++
            (t.vin.flatMap writeTxin ++ (writeCompactSize t.vout.length ++
              (t.vout.flatMap writeTxout ++ (writeU32 t.lockTime ++
                (writeU32 t.expiryHeight ++ emptyShielded t.isSaplingV4)))))) u) := by
  refine takes_compactSize.bind ?_
  rintro u₁ n ⟨hn, hu₁⟩
  refine (takes_readMany takes_readTxin n).bind ?_
  rintro u₂ vin ⟨rfl, hsigs, hu₂⟩
  refine takes_compactSize.bind ?_
  rintro u₃ m ⟨hm, hu₃⟩
  refine (takes_readMany takes_readTxout m).bind ?_
  rintro u₄ vout ⟨rfl, hscripts, hu₄⟩
  refine takes_readU32.bind ?_
  rintro u₅ lockTime rfl
  refine takes_wordIf ?_
  intro u₆ expiryHeight hu₆
  refine (takes_readShielded header group).map ?_
  intro u₇ s hs
  refine ⟨rfl, rfl, ⟨⟨hn, hm, hsigs, hscripts⟩, ?_⟩, fun hw hany hzero ↦ ?_⟩
  · have hlength := (length_le_flatMap_writeTxout vout).trans hu₄.1
    simp only [List.length_append]
    omega
  have hexp := hu₆ (Transaction.overwinteredOf_of_writtenOf hw)
  have hshielded := hs (Transaction.two_le_versionOf hw) hany hzero
  rw [hexp]
  exact hu₁.append (hu₂.append (hu₃.append (hu₄.append ((NoLonger.refl _).append
    ((NoLonger.refl _).append hshielded)))))

/-- What was read without finding a shielded component or a value balance, in a version the
serializer writes: at least what the serializer writes. -/
theorem takes_readTransaction : Takes (readTransaction 64) fun u t ↦
    (t.Fits ∧ t.vout.length ≤ u.length) ∧ (Transaction.overwinteredOf t.header →
      Transaction.writtenOf t.header t.versionGroupId) ∧
      (Transaction.writtenOf t.header t.versionGroupId → t.shielded.any = false →
        t.shielded.valueBalance = 0 → NoLonger t.bytes u) := by
  rw [readTransaction_eq]
  refine takes_readU32.bind ?_
  rintro u header rfl
  refine takes_wordIf ?_
  intro u' group hu'
  dsimp only
  split
  · exact .throw _ _
  · rename_i hver
    refine (takes_readBody header group).mono ?_
    rintro v t ⟨rfl, rfl, ⟨hfits, hlength⟩, hv⟩
    refine ⟨⟨hfits, by simp only [List.length_append]; omega⟩, fun hov ↦ ?_, fun hw hany hzero ↦ ?_⟩
    · rw [Transaction.writtenOf, Bool.or_comm]
      by_contra hnot
      exact hver (by simp [hov, Bool.eq_false_of_not_eq_true hnot])
    · rw [hu' (Transaction.overwinteredOf_of_writtenOf hw)]
      exact (NoLonger.refl _).append ((NoLonger.refl _).append (hv hw hany hzero))

/-! ## Parsing -/

namespace Transaction

theorem parseAt_of_yields {w : Nat} {b : Bytes} {t : Transaction}
    (h : Yields (readTransaction w) b t) : parseAt w b = .ok t := by
  have hread := h 0 []
  rw [List.append_nil] at hread
  rw [parseAt, hread]
  rfl

/-- A written transaction parses, as one with no shielded component. -/
theorem parseAt_of_serialize (w : Nat) {t : Transaction} {b : Bytes} (h : t.serialize = .ok b)
    (hfits : t.Fits) : parseAt w b = .ok { t with shielded := .empty } := by
  obtain ⟨-, hw, rfl⟩ := serialize_eq_ok_iff.mp h
  exact parseAt_of_yields (yields_readTransaction w hfits hw)

/-- What a transaction that parsed is like, and how its bytes compare with the serializer's. -/
theorem of_parseAt {t : Transaction} {b : Bytes} (h : parseAt 64 b = .ok t) :
    (t.Fits ∧ t.vout.length ≤ b.length) ∧
      (overwinteredOf t.header → writtenOf t.header t.versionGroupId) ∧
      (writtenOf t.header t.versionGroupId → t.shielded.any = false →
        t.shielded.valueBalance = 0 → NoLonger t.bytes b) := by
  rw [parseAt] at h
  split at h
  · cases h
  · rename_i t' r hread
    split at h
    · rename_i hend
      cases h
      obtain ⟨u, hu, hspec⟩ := takes_readTransaction _ _ _ hread
      rw [List.isEmpty_iff.mp hend, List.append_nil] at hu
      subst hu
      exact hspec
    · cases h

theorem parse_eq_ok_iff (C : Crypto) {b : Bytes} {t : Transaction} {txid : Arr 32} :
    parse C b = .ok (t, txid) ↔ parseAt 64 b = .ok t ∧ txid = C.sha256d b := by
  rw [parse, Result.bind_eq_ok]
  constructor
  · rintro ⟨t', ht', h⟩
    cases h
    exact ⟨ht', rfl⟩
  · rintro ⟨ht, rfl⟩
    exact ⟨t, ht, rfl⟩

/-- `b` is as short as any byte string that parses as the same transaction: every count and
length in it has its shortest form. -/
def ShortestForm (b : Bytes) : Prop :=
  ∀ b' : Bytes, parseAt 64 b' = parseAt 64 b → b.length ≤ b'.length

/-- Exactly which accepted bytes the serializer gives back. -/
theorem serialize_eq_ok_iff_of_parseAt {t : Transaction} {b : Bytes}
    (h : parseAt 64 b = .ok t) :
    t.serialize = .ok b ↔ overwinteredOf t.header = true ∧ t.shielded = .empty ∧
      ShortestForm b := by
  obtain ⟨⟨hfits, -⟩, hwritten, hbytes⟩ := of_parseAt h
  constructor
  · intro hs
    obtain ⟨hany, hw, rfl⟩ := serialize_eq_ok_iff.mp hs
    -- reading the written bytes leaves no value balance, and `h` says what reading them gives
    have hback := parseAt_of_serialize 64 hs hfits
    rw [h, Except.ok.injEq] at hback
    have hempty : t.shielded = .empty := by
      rw [hback]
    refine ⟨overwinteredOf_of_writtenOf hw, hempty, fun b' hb' ↦ ?_⟩
    rw [h] at hb'
    exact ((of_parseAt hb').2.2 hw hany (by rw [hempty]; rfl)).1
  · rintro ⟨hov, hempty, hshort⟩
    have hw := hwritten hov
    have hany : t.shielded.any = false := by
      rw [hempty]
      rfl
    have hs : t.serialize = .ok t.bytes := serialize_eq_ok_iff.mpr ⟨hany, hw, rfl⟩
    have hback := parseAt_of_serialize 64 hs hfits
    obtain ⟨hle, heq⟩ := hbytes hw hany (by rw [hempty]; rfl)
    have hge : b.length ≤ t.bytes.length := by
      refine hshort _ ?_
      rw [hback, h, ← hempty]
    rw [hs, heq (by omega)]

/-! ## Sizes -/

/-- The transaction with the scriptSigs `sigs`, one for each input. -/
def setScriptSigs (t : Transaction) (sigs : List Bytes) : Transaction :=
  { t with vin := List.zipWith (fun i s ↦ { i with scriptSig := s }) t.vin sigs }

/-- `size_with_script_sigs`. -/
def sizeWithScriptSigs (t : Transaction) (scriptSigSizes : List Nat) : Except TxError Nat :=
  if scriptSigSizes.length ≠ t.vin.length then .error (.inputIndex scriptSigSizes.length)
  else do
    let b ← (t.setScriptSigs (scriptSigSizes.map fun n ↦ List.replicate n 0)).serialize
    return b.length

/-- The input bytes `zip317_conventional_fee` counts. -/
def inBytes (scriptSigSizes : List Nat) : Nat :=
  (scriptSigSizes.map fun n ↦ 36 + compact n + n + 4).sum

/-- The output bytes `zip317_conventional_fee` counts. -/
def outBytes (t : Transaction) : Nat :=
  (t.vout.map fun o ↦ 8 + compact o.scriptPubkey.length + o.scriptPubkey.length).sum

/-- The scriptSig sizes a transaction has. -/
def scriptSigSizes (t : Transaction) : List Nat := t.vin.map fun i ↦ i.scriptSig.length

theorem length_writeTxin (i : TxIn) : (writeTxin i).length =
    36 + compact i.scriptSig.length + i.scriptSig.length + 4 := by
  simp only [writeTxin, writeOutPoint, writeScript, writeU32, List.length_append,
    Bytes.length_leOfNat, length_writeCompactSize, List.Vector.toList_length]
  omega

theorem length_writeTxout (o : TxOut) : (writeTxout o).length =
    8 + compact o.scriptPubkey.length + o.scriptPubkey.length := by
  simp only [writeTxout, writeI64, writeScript, List.length_append, Bytes.length_leOfNat,
    length_writeCompactSize]
  omega

theorem length_bytes (t : Transaction) : t.bytes.length =
    4 + 4 + compact t.vin.length + inBytes t.scriptSigSizes + compact t.vout.length +
      t.outBytes + 4 + 4 + (if t.isSaplingV4 then 8 + 1 + 1 else 0) + 1 := by
  have hin : (t.vin.flatMap writeTxin).length = inBytes t.scriptSigSizes := by
    rw [List.length_flatMap, inBytes, scriptSigSizes, List.map_map]
    simp only [Function.comp_def, length_writeTxin]
  have hout : (t.vout.flatMap writeTxout).length = t.outBytes := by
    rw [List.length_flatMap, outBytes]
    simp only [length_writeTxout]
  have htail : (emptyShielded t.isSaplingV4).length =
      (if t.isSaplingV4 then 8 + 1 + 1 else 0) + 1 := by
    cases t.isSaplingV4 <;> rfl
  simp only [bytes, List.length_append, hin, hout, htail, length_writeCompactSize, writeU32,
    Bytes.length_leOfNat]
  omega

theorem scriptSigSizes_setScriptSigs {t : Transaction} {sigs : List Bytes}
    (h : sigs.length = t.vin.length) :
    (t.setScriptSigs sigs).scriptSigSizes = sigs.map List.length := by
  rw [scriptSigSizes, setScriptSigs, List.map_zipWith]
  apply List.ext_getElem
  · simp [h]
  · intro i h₁ h₂
    simp

/-- The size predicted for the scriptSig sizes a transaction has is its size. -/
theorem sizeWithScriptSigs_scriptSigSizes {t : Transaction} {b : Bytes}
    (h : t.serialize = .ok b) : t.sizeWithScriptSigs t.scriptSigSizes = .ok b.length := by
  obtain ⟨hany, hw, rfl⟩ := serialize_eq_ok_iff.mp h
  have hlen : t.scriptSigSizes.length = t.vin.length := List.length_map _
  have hzeros : (t.scriptSigSizes.map fun n ↦ (List.replicate n 0 : Bytes)).length =
      t.vin.length := by rw [List.length_map, hlen]
  rw [sizeWithScriptSigs, if_neg (not_not_intro hlen), Result.bind_eq_ok]
  refine ⟨_, serialize_eq_ok_iff.mpr ⟨hany, hw, rfl⟩, ?_⟩
  have hsizes := scriptSigSizes_setScriptSigs hzeros
  have hvin : (t.setScriptSigs (t.scriptSigSizes.map fun n ↦ List.replicate n 0)).vin.length =
      t.vin.length := by simp [setScriptSigs, scriptSigSizes]
  simp only [List.map_map, Function.comp_def, List.length_replicate, List.map_id'] at hsizes
  rw [length_bytes, length_bytes, hsizes, hvin]
  rfl

/-! ## Both directions -/

/-- A transparent version 4 transaction is written in as many bytes as the size functions count,
and it is read back, up to the last byte and no further, if and only if none of its scripts is
longer than the reader takes. -/
theorem parse_serialize_iff (C : Crypto) (t : Transaction) (hv4 : t.isSaplingV4 = true)
    (hempty : t.shielded = .empty) (hvin : t.vin.length < 2 ^ 64)
    (hvout : t.vout.length < 2 ^ 64) :
    ∃ b, t.serialize = .ok b ∧
      t.sizeWithScriptSigs t.scriptSigSizes = .ok b.length ∧
      b.length = 4 + 4 + compact t.vin.length + inBytes t.scriptSigSizes +
        compact t.vout.length + t.outBytes + 4 + 4 + 8 + 1 + 1 + 1 ∧
      ((parse C b = .ok (t, C.sha256d b) ∧
          ∀ rest, readTransaction 64 ⟨0, b ++ rest⟩ = .ok (t, ⟨b.length, rest⟩)) ↔
        (∀ i ∈ t.vin, i.scriptSig.length ≤ 2 ^ 24) ∧
          ∀ o ∈ t.vout, o.scriptPubkey.length ≤ 2 ^ 24) := by
  have hany : t.shielded.any = false := by
    rw [hempty]
    rfl
  have hw : writtenOf t.header t.versionGroupId = true := by
    rw [writtenOf, show saplingV4Of t.header t.versionGroupId = true from hv4, Bool.true_or]
  have hs : t.serialize = .ok t.bytes := serialize_eq_ok_iff.mpr ⟨hany, hw, rfl⟩
  refine ⟨t.bytes, hs, sizeWithScriptSigs_scriptSigSizes hs, ?_, ?_, ?_⟩
  · rw [length_bytes, hv4, if_pos rfl]
  · rintro ⟨hparse, -⟩
    have hfits := (of_parseAt ((parse_eq_ok_iff C).mp hparse).1).1.1
    exact ⟨hfits.scriptSig_le, hfits.scriptPubkey_le⟩
  · rintro ⟨hsigs, hscripts⟩
    have hread := yields_readTransaction 64 ⟨hvin, hvout, hsigs, hscripts⟩ hw
    rw [← hempty] at hread
    refine ⟨(parse_eq_ok_iff C).mpr ⟨parseAt_of_yields hread, rfl⟩, fun rest ↦ ?_⟩
    have hrun := hread 0 rest
    rwa [Nat.zero_add] at hrun

/-- An empty version 4 transaction: `new_v4`. -/
def newV4 : Transaction := ⟨txHeaderV4, saplingVersionGroupId, [], [], 0, 0, .empty⟩

/-- A payment of two signed inputs into two outputs.  One scriptSig has a length of three bytes. -/
def samplePayment : Transaction :=
  { newV4 with
    vin := [⟨⟨.replicate 32 7, 1⟩, List.replicate 300 0x51, sequenceFinal⟩,
      ⟨⟨.replicate 32 9, 0⟩, [0x01, 0x02], sequenceFinal - 1⟩]
    vout := [⟨10000, [0x76, 0xa9, 0x14]⟩, ⟨250000, [0x6a]⟩]
    lockTime := 5
    expiryHeight := 600 }

theorem parse_serialize_iff_payment :
    samplePayment.isSaplingV4 = true ∧ ∃ b, samplePayment.serialize = .ok b ∧
      samplePayment.sizeWithScriptSigs [300, 2] = .ok b.length ∧
      parse .blank b = .ok (samplePayment, Crypto.blank.sha256d b) := by
  refine ⟨by decide, ?_⟩
  obtain ⟨b, hs, hsize, -, hiff⟩ := parse_serialize_iff .blank samplePayment (by decide) rfl
    (by decide) (by decide)
  have hscripts : (∀ i ∈ samplePayment.vin, i.scriptSig.length ≤ 2 ^ 24) ∧
      ∀ o ∈ samplePayment.vout, o.scriptPubkey.length ≤ 2 ^ 24 := by decide +kernel
  have hsizes : samplePayment.scriptSigSizes = [300, 2] := by decide +kernel
  rw [hsizes] at hsize
  exact ⟨b, hs, hsize, (hiff.mpr hscripts).1⟩

/-- A transaction with one output script, of a byte more than the reader takes. -/
def longScript : Transaction := { newV4 with vout := [⟨0, List.replicate (2 ^ 24 + 1) 0⟩] }

theorem not_parse_serialize_longScript :
    ¬ ∀ t : Transaction, t.isSaplingV4 = true → t.shielded = .empty →
      (∀ i ∈ t.vin, i.scriptSig.length < 2 ^ 32) →
      (∀ o ∈ t.vout, o.scriptPubkey.length < 2 ^ 32) →
      ∃ b txid, t.serialize = .ok b ∧ parse .blank b = .ok (t, txid) := by
  intro h
  have hvout : ∀ o ∈ longScript.vout, o.scriptPubkey.length = 2 ^ 24 + 1 := by
    intro o ho
    rw [longScript, List.mem_singleton] at ho
    rw [ho, List.length_replicate]
  obtain ⟨b, txid, -, hparse⟩ := h longScript (by decide) rfl (fun i hi ↦ nomatch hi)
    fun o ho ↦ by rw [hvout o ho]; decide
  have hfits := (of_parseAt ((parse_eq_ok_iff _).mp hparse).1).1.1
  have hmem : (⟨0, List.replicate (2 ^ 24 + 1) 0⟩ : TxOut) ∈ longScript.vout :=
    List.mem_singleton_self _
  have hle := hfits.scriptPubkey_le _ hmem
  rw [hvout _ hmem] at hle
  omega

/-- `Transaction::txid`. -/
def txid (C : Crypto) (t : Transaction) : Except TxError (Arr 32) := do
  let b ← t.serialize
  return C.sha256d b

/-- Whatever does not look at the scriptSig is left alone by setting scriptSigs. -/
theorem map_vin_setScriptSigs {α : Type} {f : TxIn → α}
    (hf : ∀ (i : TxIn) (s : Bytes), f { i with scriptSig := s } = f i) {t : Transaction}
    {sigs : List Bytes} (h : sigs.length = t.vin.length) :
    (t.setScriptSigs sigs).vin.map f = t.vin.map f := by
  rw [setScriptSigs, List.map_zipWith]
  apply List.ext_getElem
  · simp [h]
  · intro i h₁ h₂
    simp [hf]

theorem flatMap_vin_setScriptSigs {f : TxIn → Bytes}
    (hf : ∀ (i : TxIn) (s : Bytes), f { i with scriptSig := s } = f i) {t : Transaction}
    {sigs : List Bytes} (h : sigs.length = t.vin.length) :
    (t.setScriptSigs sigs).vin.flatMap f = t.vin.flatMap f := by
  rw [List.flatMap_def, map_vin_setScriptSigs hf h, List.flatMap_def]

/-- The signature hash does not depend on the scriptSigs. -/
theorem sighash_setScriptSigs (C : Crypto) {t : Transaction} {sigs : List Bytes}
    (h : sigs.length = t.vin.length) (index : Nat) (scriptCode : Bytes) (amount : Int64)
    (hashType branchId : UInt32) :
    (t.setScriptSigs sigs).sighash C index scriptCode amount hashType branchId =
      t.sighash C index scriptCode amount hashType branchId := by
  have hprevouts : hashPrevouts C (t.setScriptSigs sigs) hashType = hashPrevouts C t hashType := by
    rw [hashPrevouts, hashPrevouts, flatMap_vin_setScriptSigs (fun _ _ ↦ rfl) h]
  have hsequence : hashSequence C (t.setScriptSigs sigs) hashType = hashSequence C t hashType := by
    rw [hashSequence, hashSequence, flatMap_vin_setScriptSigs (fun _ _ ↦ rfl) h]
  have hinput : (t.setScriptSigs sigs).vin[index]?.map (fun i ↦ (i.prevout, i.sequence)) =
      t.vin[index]?.map fun i ↦ (i.prevout, i.sequence) := by
    rw [← List.getElem?_map, map_vin_setScriptSigs (fun _ _ ↦ rfl) h, List.getElem?_map]
  rw [sighash, sighash]
  cases hi : t.vin[index]? with
  | none =>
    rw [hi, Option.map_none, Option.map_eq_none_iff] at hinput
    rw [hinput]
  | some i =>
    rw [hi, Option.map_some, Option.map_eq_some_iff] at hinput
    obtain ⟨i', hi', hsame⟩ := hinput
    rw [Prod.mk.injEq] at hsame
    rw [hi']
    simp only [sighashPreimage, hprevouts, hsequence, hsame.1, hsame.2]
    rfl

/-- A transaction that was read and whose scriptSigs were replaced is written, and read back. -/
theorem parse_setScriptSigs (C : Crypto) {t : Transaction} {sigs : List Bytes} (hfits : t.Fits)
    (hw : writtenOf t.header t.versionGroupId) (hempty : t.shielded = .empty)
    (hsigs : ∀ s ∈ sigs, s.length ≤ 2 ^ 24) :
    ∃ b, (t.setScriptSigs sigs).serialize = .ok b ∧
      parse C b = .ok (t.setScriptSigs sigs, C.sha256d b) := by
  have hany : t.shielded.any = false := by
    rw [hempty]
    rfl
  have hs : (t.setScriptSigs sigs).serialize = .ok (t.setScriptSigs sigs).bytes :=
    serialize_eq_ok_iff.mpr ⟨hany, hw, rfl⟩
  have hfits' : (t.setScriptSigs sigs).Fits := by
    refine ⟨?_, hfits.vout_lt, ?_, hfits.scriptPubkey_le⟩
    · have := hfits.vin_lt
      simp only [setScriptSigs, List.length_zipWith]
      omega
    · intro i hi
      obtain ⟨n, hn, rfl⟩ := List.mem_iff_getElem.mp hi
      simp only [setScriptSigs, List.getElem_zipWith]
      exact hsigs _ (List.getElem_mem _)
  have hback := parseAt_of_serialize 64 hs hfits'
  refine ⟨_, hs, (parse_eq_ok_iff C).mpr ⟨?_, rfl⟩⟩
  rw [hback, ← hempty]
  rfl

/-- Accepted bytes keep their txid.  A transaction with shielded components, or of a version
before Overwinter, is not written; any other that came in its shortest form and with no value
balance is written back byte for byte, under the same txid, and setting scriptSigs changes
neither what is signed nor anything else that is read back. -/
theorem serialize_parse (C : Crypto) {b : Bytes} {t : Transaction} {id : Arr 32}
    (h : parse C b = .ok (t, id)) :
    id = C.sha256d b ∧
    (t.shielded.any = true → t.serialize = .error .shielded) ∧
    (t.shielded.any = false → overwinteredOf t.header = false →
      t.serialize = .error (.version t.header t.versionGroupId)) ∧
    (overwinteredOf t.header = true → t.shielded = .empty → ShortestForm b →
      t.serialize = .ok b ∧ t.txid C = .ok id ∧
      ∀ sigs : List Bytes, sigs.length = t.vin.length →
        (∀ index scriptCode amount hashType branchId,
          (t.setScriptSigs sigs).sighash C index scriptCode amount hashType branchId =
            t.sighash C index scriptCode amount hashType branchId) ∧
        ((∀ s ∈ sigs, s.length ≤ 2 ^ 24) → ∃ b', (t.setScriptSigs sigs).serialize = .ok b' ∧
          parse C b' = .ok (t.setScriptSigs sigs, C.sha256d b'))) := by
  obtain ⟨hparse, rfl⟩ := (parse_eq_ok_iff C).mp h
  obtain ⟨⟨hfits, -⟩, hwritten, -⟩ := of_parseAt hparse
  refine ⟨rfl, fun hany ↦ ?_, fun hany hlegacy ↦ ?_, fun hov hempty hshort ↦ ?_⟩
  · rw [serialize, if_pos hany]
  · have hv4 : t.isSaplingV4 = false := by simp [isSaplingV4, saplingV4Of, hlegacy]
    have hv3 : t.isOverwinterV3 = false := by simp [isOverwinterV3, overwinterV3Of, hlegacy]
    rw [serialize, if_neg (by simp [hany]), if_pos (by simp [hv4, hv3])]
  · have hs := (serialize_eq_ok_iff_of_parseAt hparse).mpr ⟨hov, hempty, hshort⟩
    refine ⟨hs, ?_, fun sigs hlen ↦ ⟨sighash_setScriptSigs C hlen, fun hsigs ↦ ?_⟩⟩
    · rw [txid, hs]
      rfl
    · exact parse_setScriptSigs C hfits (hwritten hov) hempty hsigs

/-- The bytes of `newV4`. -/
def newV4Bytes : Bytes := newV4.bytes

/-- The sample payment comes back byte for byte.  With other scriptSigs it signs the same, and is read
back with them. -/
theorem serialize_parse_payment :
    let b := samplePayment.bytes
    let resigned := samplePayment.setScriptSigs [[0x01], List.replicate 260 0x02]
    parse .blank b = .ok (samplePayment, Crypto.blank.sha256d b) ∧
      samplePayment.serialize = .ok b ∧
      samplePayment.txid .blank = .ok (Crypto.blank.sha256d b) ∧
      resigned.sighash .blank 1 [0x51] 10000 sighashAll 0 =
        samplePayment.sighash .blank 1 [0x51] 10000 sighashAll 0 ∧
      ∃ b', resigned.serialize = .ok b' ∧
        parse .blank b' = .ok (resigned, Crypto.blank.sha256d b') := by
  intro b resigned
  have hparse : parseAt 64 b = .ok samplePayment := by decide +kernel
  have hback : samplePayment.serialize = .ok b := by decide +kernel
  have h : parse .blank b = .ok (samplePayment, Crypto.blank.sha256d b) :=
    (parse_eq_ok_iff _).mpr ⟨hparse, rfl⟩
  obtain ⟨hov, hempty, hshort⟩ := (serialize_eq_ok_iff_of_parseAt hparse).mp hback
  obtain ⟨hs, htxid, hsigs⟩ := (serialize_parse .blank h).2.2.2 hov hempty hshort
  obtain ⟨hsighash, hread⟩ := hsigs [[0x01], List.replicate 260 0x02] rfl
  exact ⟨h, hs, htxid, hsighash _ _ _ _ _, hread (by decide +kernel)⟩

/-- A version 1 transaction with nothing in it, as the wallet's own test has it. -/
def legacyBytes : Bytes := [1, 0, 0, 0, 0, 0, 0, 0, 0, 0]

theorem not_serialize_parse_legacy :
    ¬ ∀ (b : Bytes) (t : Transaction) (id : Arr 32), parse .blank b = .ok (t, id) →
      t.serialize = .ok b := by
  intro h
  have hparse : parseAt 64 legacyBytes = .ok ⟨1, 0, [], [], 0, 0, .empty⟩ := by decide +kernel
  have hback := h _ _ _ ((parse_eq_ok_iff .blank).mpr ⟨hparse, rfl⟩)
  revert hback
  decide +kernel

end Transaction

end Yew.Tx
