import Mathlib.Tactic.IntervalCases
import Yew.Core.ScriptOps
import Yew.Core.Vault

/-!
# Templates read back

The parsers of the templates undo the builders: every field of a built script is read back from the
operation that holds it.  The builders undo the parsers, which rebuild what they read; and the
number of its operations tells which template a script is of.

The builders and the parsers are those of `core/src/vault.rs`.  A template is spelled operation by
operation (`Yew.Core.ScriptOps`), and the parser's pattern is matched against that spelling.
-/

namespace Yew.Vault

open Script Pq

/-! ## Fields -/

@[simp] theorem dataOf_pushOp {n : Nat} (a : Arr n) : dataOf n (pushOp a.toList) = some a := by
  rw [dataOf, if_neg (UInt8.not_lt.mpr (pushOp_opcode_le _)), pushOp, Bytes.toArr?_toList]

/-- A push of a few bytes is read as the number they say. -/
theorem readNum_pushOp {data : Bytes} (hne : data ≠ []) (hlen : data.length ≤ 5) :
    readNum (pushOp data) = some (scriptNumValue data) := by
  have hopcode : (pushOp data).opcode.toNat = data.length := by
    rw [pushOp, if_pos (by rw [show opPushdata1.toNat = 76 from rfl]; omega)]
    exact toNat_ofNat_of_lt (by omega)
  have hpos : 0 < data.length := List.length_pos_iff.mpr hne
  have hother (c : UInt8) (hc : c.toNat = 0 ∨ 5 < c.toNat) : (pushOp data).opcode ≠ c := by
    intro h
    rw [h] at hopcode
    omega
  have hdata : (pushOp data).data = data := rfl
  rw [readNum, if_neg (hother op0 (.inl rfl)), if_neg, if_neg (hother op1Negate (.inr (by decide))),
    hdata, if_neg, scriptNumValue]
  · rw [List.getLast?_eq_some_getLast hne]
  · rintro (h | h | h)
    · exact UInt8.not_lt.mpr (pushOp_opcode_le _) h
    · exact hne (List.isEmpty_iff.mp h)
    · omega
  · rintro ⟨h, -⟩
    rw [UInt8.le_iff_toNat_le, hopcode, show op1.toNat = 81 from rfl] at h
    omega

/-- A number is pushed by one operation: an opcode from minus one to sixteen, else a push.  It is read
back when its bytes are at most five. -/
theorem exists_intOp {n : Int} (hlt : n.natAbs < 256 ^ 8) :
    ∃ o, Spells (pushInt n) [o] ∧ (2 * n.natAbs < 256 ^ 5 → readNum o = some n) := by
  rw [pushInt]
  split
  · rename_i hzero
    exact ⟨⟨op0, []⟩, @Spells.pushData [] (by decide), fun _ ↦ by rw [hzero]; rfl⟩
  rename_i hne
  split
  · rename_i hneg
    exact ⟨⟨op1Negate, []⟩, Spells.opcode (by decide), fun _ ↦ by rw [hneg]; rfl⟩
  split
  · rename_i hsmall
    obtain ⟨m, rfl⟩ := Int.eq_ofNat_of_zero_le (a := n) (by omega)
    have hm : m ≤ 16 := by omega
    have hm' : 1 ≤ m := by omega
    refine ⟨⟨op1 + (UInt8.ofNat m - 1), []⟩, Spells.opcode ?_, fun _ ↦ ?_⟩
    · rw [Int.toNat_natCast]
      interval_cases m <;> decide
    · interval_cases m <;> decide
  · have hlen : (scriptNumEncode n).length ≤ 8 + 1 :=
      length_scriptNumEncode_le hlt (by rw [pow_succ]; omega)
    refine ⟨pushOp (scriptNumEncode n), Spells.pushData (by omega), fun hfive ↦ ?_⟩
    have hvalue := scriptNumValue_encode hlt
    have hempty : scriptNumEncode n ≠ [] := by
      intro h
      rw [h] at hvalue
      exact hne hvalue.symm
    rw [readNum_pushOp hempty (length_scriptNumEncode_le (k := 4) hlt hfive), hvalue]

theorem exists_numOp {n : Int} (hfive : 2 * n.natAbs < 256 ^ 5) :
    ∃ o, Spells (pushInt n) [o] ∧ readNum o = some n := by
  obtain ⟨o, hspells, hnum⟩ := exists_intOp (n := n) (by omega)
  exact ⟨o, hspells, hnum hfive⟩

theorem scheme_eq_of_isKnown {id : PqKeyId} (h : id.isKnown = true) :
    id.scheme = 1 ∨ id.scheme = 2 := by
  rw [PqKeyId.isKnown, isKnownScheme, Bool.or_eq_true] at h
  exact h.imp of_decide_eq_true of_decide_eq_true

/-- The three operations of an owner. -/
theorem exists_ownerOps {owner : PqKeyId} (h : owner.isKnown = true) :
    ∃ o, Spells (pushOwner owner) [pushOp owner.hash.toList, o, ⟨opCheckpqsig, []⟩] ∧
      ownerOf (pushOp owner.hash.toList) o = some owner := by
  have hscheme := scheme_eq_of_isKnown h
  obtain ⟨o, hspells, hnum⟩ := exists_numOp (n := owner.scheme.toNat)
    (by have := owner.scheme.toNat_lt; omega)
  refine ⟨o, ?_, ?_⟩
  · have hhash : Spells (pushData owner.hash.toList) [pushOp owner.hash.toList] :=
      Spells.pushData (by simp)
    exact (hhash.append hspells).append (Spells.opcode (by decide))
  · have hrange : 1 ≤ (owner.scheme.toNat : Int) ∧ (owner.scheme.toNat : Int) ≤ 2 := by
      rcases hscheme with hs | hs <;> rw [hs] <;> decide
    simp [ownerOf, hnum, hrange]

/-! ## Built scripts -/

theorem spells_arr {n : Nat} (a : Arr n) (hn : n ≤ 255) :
    Spells (pushData a.toList) [pushOp a.toList] := Spells.pushData (by simpa using hn)

/-- Opcodes of a template. -/
theorem spells_codes {s : Bytes} (hs : s.all (opPushdata4 < ·) = true) :
    Spells s (s.map (⟨·, []⟩)) := Spells.opcodes (by simpa using hs)

/-- `parse_vault` undoes `build_vault`. -/
theorem parseVault_buildVault {p : VaultParams} {spk : Bytes} (h : buildVault p = some spk) :
    parseVault spk = some p := by
  have hbuilt := h
  rw [buildVault] at h
  split at h
  · rename_i hvalid
    obtain rfl := Option.some.inj h
    simp only [vaultParamsValid, Bool.and_eq_true, decide_eq_true_eq] at hvalid
    have hmax : maxTemplateHeight = 499999999 := rfl
    obtain ⟨⟨⟨hdelay, howner⟩, happ⟩, hknown⟩ := hvalid
    obtain ⟨delayOp, hdelay, hdelayNum⟩ := exists_numOp (n := p.delay) (by omega)
    obtain ⟨ownerOp, howner, hownerNum⟩ := exists_numOp (n := p.ownerHeight) (by omega)
    obtain ⟨appOp, happ, happNum⟩ := exists_numOp (n := p.appHeight) (by omega)
    obtain ⟨schemeOp, hkey, hid⟩ := exists_ownerOps hknown
    have hops := ((((((((((((((spells_arr p.tag (by decide)).append
      (spells_arr p.cancelSetId (by decide))).append
      hdelay).append
      (spells_codes (s := [op2drop, opDrop]) (by decide))).append
      (spells_codes (s := [opDup, op1, opEqual, opIf, opDrop]) (by decide))).append
      (spells_arr p.setId (by decide))).append
      (spells_codes (s := [op1, opChecksetsig]) (by decide))).append
      (spells_codes (s := [opElse, opDup, op2, opEqual, opIf, opDrop]) (by decide))).append
      howner).append
      (spells_codes (s := [opChecklocktimeverify, opDrop]) (by decide))).append
      hkey).append
      (spells_codes (s := [opElse, opDup, op3, opEqual, opIf, opDrop]) (by decide))).append
      (spells_arr p.setId (by decide))).append
      (spells_codes (s := [opChecksetdormant, opVerify]) (by decide))).append hkey |>.append
      (spells_codes (s := [opElse, op4, opEqualverify]) (by decide)) |>.append happ |>.append
      (spells_codes (s := [opChecklocktimeverify]) (by decide)) |>.append
      (spells_codes (s := [opEndif, opEndif, opEndif]) (by decide))
    rw [parseVault, hops.ops_eq]
    simp [vaultFields, hdelayNum, hownerNum, happNum, hid, hbuilt]
  · cases h

/-- `parse_intent` undoes `build_intent`. -/
theorem parseIntent_buildIntent {p : IntentParams} {spk : Bytes} (h : buildIntent p = some spk) :
    parseIntent spk = some p := by
  have hbuilt := h
  rw [buildIntent] at h
  split at h
  · rename_i hvalid
    obtain rfl := Option.some.inj h
    simp only [intentParamsValid, Bool.and_eq_true, decide_eq_true_eq] at hvalid
    obtain ⟨⟨hmin, hmax⟩, hknown⟩ := hvalid
    obtain ⟨delayOp, hdelay, hnum⟩ := exists_numOp (n := p.delay) (by omega)
    obtain ⟨schemeOp, howner, hid⟩ := exists_ownerOps hknown
    have hops := ((((((((((((spells_arr p.tag (by decide)).append
      (spells_arr p.recipientHash (by decide))).append
      (spells_arr p.vaultHash (by decide))).append
      (spells_codes (s := [op2drop, opDrop]) (by decide))).append
      (spells_codes (s := [opDup, op1, opEqual, opIf, opDrop]) (by decide))).append
      hdelay).append
      (spells_codes (s := [opChecksequenceverify]) (by decide))).append
      (spells_codes (s := [opElse, opDup, op2, opEqual, opIf, opDrop]) (by decide))).append
      (spells_arr p.cancelSetId (by decide))).append
      (spells_codes (s := [op2, opChecksetsig]) (by decide))).append
      (spells_codes (s := [opElse, op3, opEqualverify]) (by decide))).append
      (spells_arr p.setId (by decide))).append
      (spells_codes (s := [opChecksetdormant, opVerify]) (by decide)) |>.append howner |>.append
      (spells_codes (s := [opEndif, opEndif]) (by decide))
    rw [parseIntent, hops.ops_eq]
    simp [intentFields, hnum, hid, hbuilt]
  · cases h

/-! ## Parsed scripts -/

/-- A vault has 45 operations, and is what its parameters build. -/
theorem of_parseVault {spk : Bytes} {p : VaultParams} (h : parseVault spk = some p) :
    (∃ o, ops spk = .ok o ∧ o.length = 45) ∧ buildVault p = some spk := by
  rw [parseVault] at h
  split at h
  · cases h
  · rename_i o ho
    split at h
    · cases h
    · rename_i hlen
      rw [Option.bind_eq_bind, Option.bind_eq_some_iff] at h
      obtain ⟨p', -, h⟩ := h
      obtain ⟨hbuilt, h⟩ := Option.ite_none_right_eq_some.mp h
      cases h
      exact ⟨⟨o, ho, not_not.mp hlen⟩, hbuilt⟩

/-- An intent has 32 operations, and is what its parameters build. -/
theorem of_parseIntent {spk : Bytes} {p : IntentParams} (h : parseIntent spk = some p) :
    (∃ o, ops spk = .ok o ∧ o.length = 32) ∧ buildIntent p = some spk := by
  rw [parseIntent] at h
  split at h
  · cases h
  · rename_i o ho
    split at h
    · cases h
    · rename_i hlen
      rw [Option.bind_eq_bind, Option.bind_eq_some_iff] at h
      obtain ⟨p', -, h⟩ := h
      obtain ⟨hbuilt, h⟩ := Option.ite_none_right_eq_some.mp h
      cases h
      exact ⟨⟨o, ho, not_not.mp hlen⟩, hbuilt⟩

theorem parseVault_eq_none {spk : Bytes} {o : List ScriptOp} (ho : ops spk = .ok o)
    (hlen : o.length ≠ 45) : parseVault spk = none := by
  rw [Option.eq_none_iff_forall_ne_some]
  intro v hv
  obtain ⟨⟨o', ho', hlen'⟩, -⟩ := of_parseVault hv
  cases ho.symm.trans ho'
  exact hlen hlen'

theorem parseIntent_eq_none {spk : Bytes} {o : List ScriptOp} (ho : ops spk = .ok o)
    (hlen : o.length ≠ 32) : parseIntent spk = none := by
  rw [Option.eq_none_iff_forall_ne_some]
  intro i hi
  obtain ⟨⟨o', ho', hlen'⟩, -⟩ := of_parseIntent hi
  cases ho.symm.trans ho'
  exact hlen hlen'

/-- A vault is no intent. -/
theorem parseIntent_of_parseVault {spk : Bytes} {v : VaultParams} (h : parseVault spk = some v) :
    parseIntent spk = none := by
  obtain ⟨⟨o, ho, hlen⟩, -⟩ := of_parseVault h
  refine parseIntent_eq_none ho ?_
  rw [hlen]
  decide

/-- A P2PKH script has five operations. -/
theorem length_ops_p2pkh (hash : Arr 20) : ∃ o, ops (p2pkhScript hash) = .ok o ∧ o.length = 5 :=
  ⟨_, (((spells_codes (s := [opDup, opHash160]) (by decide)).append
    (spells_arr hash (by decide))).append
    (spells_codes (s := [opEqualverify, opChecksig]) (by decide))).ops_eq, rfl⟩

/-- A `TX_PQPKH` script has three operations. -/
theorem length_ops_pqpkh {spk : Bytes} {id : PqKeyId} (h : pqpkhOf spk = some id) :
    ∃ o, ops spk = .ok o ∧ o.length = 3 := by
  have hscript := pqpkhOf_eq_some h
  rw [pqpkhScript] at hscript
  split at hscript
  · rename_i hknown
    cases hscript
    have hcodes : [op1 + id.scheme - 1, opCheckpqsig].all (opPushdata4 < ·) = true := by
      rcases scheme_eq_of_isKnown hknown with hs | hs <;> rw [hs] <;> decide
    exact ⟨_, ((spells_arr id.hash (by decide)).append (spells_codes hcodes)).ops_eq, rfl⟩
  · cases hscript

/-- Each template's parser and builder undo each other, and no script is of two templates. -/
theorem templates_bijective (spk : Bytes) (v : VaultParams) (i : IntentParams) :
    (buildVault v = some spk ↔ parseVault spk = some v) ∧
      (buildIntent i = some spk ↔ parseIntent spk = some i) ∧
        (parseVault spk = none ∨ parseIntent spk = none) ∧
          (pqpkhOf spk = none ∨ parseVault spk = none ∧ parseIntent spk = none) := by
  refine ⟨⟨parseVault_buildVault, fun h ↦ (of_parseVault h).2⟩,
    ⟨parseIntent_buildIntent, fun h ↦ (of_parseIntent h).2⟩, ?_, ?_⟩
  · cases hv : parseVault spk with
    | none => exact .inl rfl
    | some v => exact .inr (parseIntent_of_parseVault hv)
  · cases hid : pqpkhOf spk with
    | none => exact .inl rfl
    | some id =>
      obtain ⟨o, ho, hlen⟩ := length_ops_pqpkh hid
      refine .inr ⟨parseVault_eq_none ho ?_, parseIntent_eq_none ho ?_⟩
      · rw [hlen]
        decide
      · rw [hlen]
        decide

end Yew.Vault
