import Yew.Build.Fees
import Yew.Core.VaultCodec
import Yew.Util.Proc

/-!
# Owner scriptSigs read back

A signature and a key are cut into chunks of 520 bytes, each pushed by itself, and the number of
its chunks is pushed behind each.  Read from the end, the counts say where the pieces begin.

The writer is `owner_script_sig` of `core/src/vault.rs` and its two siblings, the reader
`parse_owner_script_sig`; the chunks are those of `core/src/pq.rs`.  The reader goes from the end
too, so the two are compared chunk by chunk.
-/

namespace Yew.Pq

open Script

/-! ## Chunks -/

theorem flatten_chunksAux {fuel : Nat} {data : Bytes} (h : data.length ≤ fuel) :
    (chunksAux fuel data).flatten = data := by
  induction fuel generalizing data with
  | zero => simp_all [chunksAux]
  | succ fuel ih =>
    rw [chunksAux]
    split
    · rename_i hnil
      rw [List.isEmpty_iff.mp hnil, List.flatten_nil]
    · rename_i hne
      have hpos : 0 < data.length := List.length_pos_iff.mpr fun hnil ↦ hne (by simp [hnil])
      rw [List.flatten_cons, ih (by simp [maxChunk, maxScriptElementSize]; omega),
        List.take_append_drop]

/-- How many chunks there are, and how long the last one is. -/
theorem chunksAux_spec {fuel : Nat} {data : Bytes} (h : data.length ≤ fuel) :
    (chunksAux fuel data).length = (data.length + 519) / 520 ∧
      (∀ c ∈ chunksAux fuel data, c ≠ [] ∧ c.length ≤ maxChunk) ∧
        ∀ c ∈ (chunksAux fuel data).dropLast, c.length = maxChunk := by
  induction fuel generalizing data with
  | zero => simp_all [chunksAux]
  | succ fuel ih =>
    rw [chunksAux]
    split
    · rename_i hnil
      simp [List.isEmpty_iff.mp hnil]
    · rename_i hne
      have hpos : 0 < data.length := List.length_pos_iff.mpr fun hnil ↦ hne (by simp [hnil])
      have hdrop : (data.drop maxChunk).length = data.length - 520 := List.length_drop
      have hfuel : (data.drop maxChunk).length ≤ fuel := by omega
      obtain ⟨hlen, hmem, hlast⟩ := ih hfuel
      refine ⟨?_, ?_, ?_⟩
      · rw [List.length_cons, hlen, hdrop]
        omega
      · rintro c (_ | ⟨_, hc⟩)
        · refine ⟨List.ne_nil_of_length_pos ?_, List.length_take_le _ _⟩
          rw [List.length_take]
          exact lt_min (by decide) hpos
        · exact hmem c hc
      · intro c hc
        cases hrest : chunksAux fuel (data.drop maxChunk) with
        | nil => simp [hrest] at hc
        | cons d ds =>
          rw [hrest] at hc hlast hlen
          rw [List.dropLast_cons_cons] at hc
          rcases List.mem_cons.mp hc with rfl | hc
          · rw [List.length_cons, hdrop] at hlen
            rw [List.length_take, min_eq_left]
            change 520 ≤ data.length
            omega
          · exact hlast c hc

/-- Chunks of 520 bytes, the last one of 1 to 520. -/
theorem chunks_spec (data : Bytes) :
    (chunks data).length = (data.length + 519) / 520 ∧
      (∀ c ∈ chunks data, c ≠ [] ∧ c.length ≤ maxChunk) ∧
        ∀ c ∈ (chunks data).dropLast, c.length = maxChunk := chunksAux_spec (le_refl _)

/-! ## Pushes of chunks -/

/-- The operation of a number of chunks. -/
def countOp (n : Nat) : ScriptOp := ⟨op1 + (UInt8.ofNat n - 1), []⟩

/-- Operations that push the chunks of some data. -/
structure Chunked (data : Bytes) (os : List ScriptOp) : Prop where
  data_eq : os.map ScriptOp.data = chunks data
  push : ∀ o ∈ os, o.opcode ≤ opPushdata4
  pos : 0 < os.length
  le : os.length ≤ 16

theorem spells_countOp {n : Nat} (hpos : 0 < n) (hle : n ≤ 16) :
    Spells (pushInt n) [countOp n] := by
  rw [pushInt, if_neg (by omega), if_neg (by omega), if_pos (by omega), Int.toNat_natCast]
  refine Spells.opcode ?_
  interval_cases n <;> decide

theorem exists_chunkOps {cs : List Bytes} (h : ∀ c ∈ cs, c.length ≤ maxChunk) :
    ∃ os : List ScriptOp, Spells (cs.flatMap pushData) os ∧ os.map ScriptOp.data = cs ∧
      ∀ o ∈ os, o.opcode ≤ opPushdata4 := by
  induction cs with
  | nil => exact ⟨[], Spells.nil, rfl, by simp⟩
  | cons c cs ih =>
    obtain ⟨os, hos, hdata, hpush⟩ := ih fun d hd ↦ h d (List.mem_cons_of_mem c hd)
    have hc : c.length ≤ 0xffff := (h c List.mem_cons_self).trans (by decide)
    obtain ⟨o, ho, hodata, hopush⟩ := Spells.exists_pushOp hc
    refine ⟨o :: os, ho.append hos, by rw [List.map_cons, hodata, hdata], ?_⟩
    simpa [hopush] using hpush

/-- Data that 16 chunks hold is pushed as its chunks and their number. -/
theorem pushChunked_spec {data : Bytes} (hpos : 1 ≤ data.length) (hle : data.length ≤ 8320) :
    ∃ s os, pushChunked data = .ok s ∧ Spells s (os ++ [countOp os.length]) ∧ Chunked data os := by
  obtain ⟨hlen, hmem, -⟩ := chunks_spec data
  obtain ⟨os, hos, hdata, hpush⟩ := exists_chunkOps fun c hc ↦ (hmem c hc).2
  have hcount : os.length = (chunks data).length := by rw [← List.length_map, hdata]
  have hok : ¬((chunks data).isEmpty ∨ (chunks data).length > 16) := by
    rintro (h | h)
    · rw [List.isEmpty_iff.mp h, List.length_nil] at hlen
      omega
    · omega
  refine ⟨_, os, if_neg hok, ?_, hdata, hpush, by omega, by omega⟩
  rw [← hcount]
  exact hos.append (spells_countOp (by omega) (by omega))

theorem countOp_opcode {n : Nat} (hpos : 0 < n) (hle : n ≤ 16) :
    op1 ≤ (countOp n).opcode ∧ (countOp n).opcode ≤ op16 ∧
      (countOp n).opcode.toNat - op1.toNat + 1 = n := by
  interval_cases n <;> decide

/-- The chunks in front of their number are read back, whatever stands around them. -/
theorem readChunked_append {data : Bytes} {os : List ScriptOp} (h : Chunked data os)
    (before after : List ScriptOp) :
    readChunked (before ++ (os ++ [countOp os.length]) ++ after)
      (before.length + os.length + 1) = some (data, before.length) := by
  obtain ⟨hlo, hhi, hcount⟩ := countOp_opcode h.pos h.le
  obtain ⟨-, hmem, hlast⟩ := chunks_spec data
  rw [← h.data_eq] at hmem
  rw [← h.data_eq, ← List.map_dropLast] at hlast
  have hget : (before ++ (os ++ [countOp os.length]) ++ after)[before.length + os.length + 1 - 1]? =
      some (countOp os.length) := by
    rw [List.append_assoc, List.getElem?_append_right (by omega),
      List.getElem?_append_left (by simp), List.getElem?_append_right (by omega)]
    simp
  have htake : ((before ++ (os ++ [countOp os.length]) ++ after).drop before.length).take
      os.length = os := by
    rw [List.append_assoc, List.drop_left, List.append_assoc, List.take_left]
  have hgood : (os.any fun c ↦ decide (c.opcode > opPushdata4) || c.data.isEmpty ||
      decide (c.data.length > maxChunk)) = false := by
    rw [List.any_eq_false]
    intro o ho
    obtain ⟨hne, hle⟩ := hmem o.data (List.mem_map_of_mem ho)
    simp [h.push o ho, hne, hle]
  have hfull : (os.dropLast.any fun c ↦ decide (c.data.length ≠ maxChunk)) = false := by
    rw [List.any_eq_false]
    intro o ho
    simp [hlast o.data (List.mem_map_of_mem ho)]
  have hflat : os.flatMap ScriptOp.data = data := by
    rw [List.flatMap_def, h.data_eq, chunks, flatten_chunksAux (le_refl _)]
  rw [readChunked, hget]
  dsimp only
  rw [hcount, if_neg (by simp [UInt8.not_lt.mpr hlo, UInt8.not_lt.mpr hhi]; omega),
    show before.length + os.length + 1 - (1 + os.length) = before.length by omega, htake, hgood,
    hfull, hflat]
  simp

/-- A signature and a key read back. -/
theorem parsePqSigOps_append {sig pk : Bytes} {sigOps pkOps : List ScriptOp}
    (hsig : Chunked sig sigOps) (hpk : Chunked pk pkOps) :
    parsePqSigOps (sigOps ++ [countOp sigOps.length] ++ (pkOps ++ [countOp pkOps.length])) =
      some (sig, pk) := by
  have hkey := readChunked_append hpk (sigOps ++ [countOp sigOps.length]) []
  have hsign := readChunked_append hsig [] (pkOps ++ [countOp pkOps.length])
  rw [List.append_nil] at hkey
  rw [List.nil_append] at hsign
  have hend : (sigOps ++ [countOp sigOps.length] ++ (pkOps ++ [countOp pkOps.length])).length =
      (sigOps ++ [countOp sigOps.length]).length + pkOps.length + 1 := by
    simp only [List.length_append, List.length_singleton]
    omega
  have hmid : (sigOps ++ [countOp sigOps.length]).length =
      ([] : List ScriptOp).length + sigOps.length + 1 := by simp
  rw [parsePqSigOps, hend, hkey]
  simp only [Option.bind_eq_bind, Option.bind_some]
  rw [hmid, hsign]
  rfl

theorem countOp_le {n : Nat} (hpos : 0 < n) (hle : n ≤ 16) : (countOp n).opcode ≤ op16 :=
  (countOp_opcode hpos hle).2.1

/-- The pushes of a signature and a key: push-only, and read back. -/
theorem pqSigPushes_spec {sig pk : Bytes} (hsig : 1 ≤ sig.length ∧ sig.length ≤ 8320)
    (hpk : 1 ≤ pk.length ∧ pk.length ≤ 8320) :
    ∃ s os, pqSigPushes sig pk = .ok s ∧ Spells s os ∧ parsePqSigOps os = some (sig, pk) ∧
      ∀ o ∈ os, o.opcode ≤ op16 := by
  obtain ⟨s, sigOps, hs, hspells, hchunked⟩ := pushChunked_spec hsig.1 hsig.2
  obtain ⟨k, pkOps, hk, hspells', hchunked'⟩ := pushChunked_spec hpk.1 hpk.2
  refine ⟨s ++ k, _, ?_, hspells.append hspells', parsePqSigOps_append hchunked hchunked', ?_⟩
  · rw [pqSigPushes, hs, hk]
    rfl
  · have hle : opPushdata4 ≤ op16 := by decide
    intro o ho
    simp only [List.mem_append, List.mem_singleton] at ho
    obtain (ho | rfl) | ho | rfl := ho
    · exact UInt8.le_trans (hchunked.push o ho) hle
    · exact countOp_le hchunked.pos hchunked.le
    · exact UInt8.le_trans (hchunked'.push o ho) hle
    · exact countOp_le hchunked'.pos hchunked'.le

end Yew.Pq

namespace Yew.Vault

open Script Pq

/-- An owner's scriptSig is read back, under every selector of the owner. -/
theorem parseOwnerScriptSig_ownerScriptSig {sig pk : Bytes} (kind : Kind) (sel : UInt8)
    (hsig : 1 ≤ sig.length ∧ sig.length ≤ 8320) (hpk : 1 ≤ pk.length ∧ pk.length ≤ 8320)
    (hlo : op1 ≤ sel) (hhi : sel ≤ kind.max) (howner : kind.isOwner (sel - op1 + 1) = true) :
    ∃ s, ownerScriptSig sig pk sel = .ok s ∧
      parseOwnerScriptSig kind s = some (sel - op1 + 1, sig, pk) := by
  obtain ⟨s, os, hs, hspells, hparse, hpush⟩ := pqSigPushes_spec hsig hpk
  have hsel : opPushdata4 < sel := UInt8.lt_of_lt_of_le (by decide) hlo
  have hops := (hspells.append (Spells.opcode hsel)).ops_eq
  have hany : (os.any fun x ↦ decide (x.opcode > op16)) = false := by
    rw [List.any_eq_false]
    intro o ho
    simpa using hpush o ho
  have hselector : parseSelector kind (s ++ [sel]) =
      some (sel - op1 + 1, os.map ScriptOp.data) := by
    rw [parseSelector, hops]
    simp only [List.getLast?_append, List.getLast?_singleton, Option.some_or,
      List.dropLast_concat, hany, Bool.false_eq_true, if_false]
    rw [if_neg]
    rintro (h | h)
    · exact UInt8.not_lt.mpr hlo h
    · exact UInt8.not_lt.mpr hhi h
  refine ⟨s ++ [sel], ?_, ?_⟩
  · rw [ownerScriptSig, hs]
    rfl
  · rw [parseOwnerScriptSig, hselector]
    simp only [Option.bind_eq_bind, Option.bind_some, howner, if_true, hops,
      List.dropLast_concat, hparse]

end Yew.Vault

namespace Yew.Build

open Script Pq Vault

/-! ## Sizes -/

theorem length_pushData {data : Bytes} (h : data.length ≤ 0xffff) :
    (pushData data).length = pushLen data.length := by
  unfold pushData pushLen
  dsimp only
  split_ifs <;> simp <;> omega

theorem length_flatMap_chunksAux {fuel : Nat} {data : Bytes} (h : data.length ≤ fuel) :
    ((chunksAux fuel data).flatMap pushData).length + 1 = chunked data.length := by
  induction fuel generalizing data with
  | zero => simp_all [chunksAux, chunked]
  | succ fuel ih =>
    rw [chunksAux]
    split
    · rename_i hnil
      simp [List.isEmpty_iff.mp hnil, chunked]
    · rename_i hne
      have hpos : 0 < data.length := List.length_pos_iff.mpr fun hnil ↦ hne (by simp [hnil])
      have hdrop : (data.drop maxChunk).length = data.length - 520 := List.length_drop
      have hfuel : (data.drop maxChunk).length ≤ fuel := by omega
      have hih := ih hfuel
      have htake : (data.take maxChunk).length = min 520 data.length := List.length_take
      rw [List.flatMap_cons, List.length_append, length_pushData (by omega), Nat.add_assoc, hih,
        hdrop, htake]
      have hmax : maxChunk = 520 := rfl
      simp only [chunked, hmax]
      rcases Nat.lt_or_ge data.length 520 with hlt | hge
      · rw [Nat.sub_eq_zero_of_le hlt.le, min_eq_right hlt.le, Nat.div_eq_of_lt hlt,
          Nat.mod_eq_of_lt hlt, if_pos hpos]
        simp
      · rw [min_eq_left hge, Nat.mod_eq_sub_mod hge,
          show data.length / 520 = (data.length - 520) / 520 + 1 by omega, Nat.succ_mul]
        omega

theorem length_pushChunked {data : Bytes} {s : Bytes} (h : pushChunked data = .ok s) :
    s.length = chunked data.length := by
  rw [pushChunked] at h
  split at h
  · cases h
  · rename_i hcount
    cases h
    rw [not_or] at hcount
    obtain ⟨hne, hle⟩ := hcount
    have hpos : 0 < (chunks data).length :=
      List.length_pos_iff.mpr fun hnil ↦ hne (by simp [hnil])
    have hint : (pushInt (chunks data).length).length = 1 := by
      rw [pushInt, if_neg (by omega), if_neg (by omega), if_pos (by omega)]
      rfl
    rw [List.length_append, hint, ← length_flatMap_chunksAux (le_refl data.length), chunks]

/-- `pq_sig_pushes_size` is the size of the pushes of a signature with its hash type and a key, of
the lengths that the scheme has. -/
theorem length_pqSigPushes {scheme : UInt8} {sig pk s : Bytes} (hknown : isKnownScheme scheme)
    (hsig : sig.length = sigSize scheme + 1) (hpk : pk.length = pubKeySize scheme)
    (h : pqSigPushes sig pk = .ok s) : pqSigPushesSize scheme = some s.length := by
  rw [pqSigPushes, Result.bind_eq_ok] at h
  obtain ⟨a, ha, h⟩ := h
  rw [Result.bind_eq_ok] at h
  obtain ⟨b, hb, h⟩ := h
  cases h
  rw [pqSigPushesSize, if_pos hknown, List.length_append, length_pushChunked ha,
    length_pushChunked hb, hsig, hpk]

/-- A signature and a key of 1 to 8,320 bytes are read back from their pushes and from an owner's
scriptSig of either template; the pushes of a scheme's lengths have the size that is priced. -/
theorem ownerScriptSig_round_trip (sig pk : Bytes) (hsig : 1 ≤ sig.length ∧ sig.length ≤ 8320)
    (hpk : 1 ≤ pk.length ∧ pk.length ≤ 8320) :
    (∃ s os, pqSigPushes sig pk = .ok s ∧ ops s = .ok os ∧ parsePqSigOps os = some (sig, pk)) ∧
      (∃ s, vaultOwnerScriptSig sig pk = .ok s ∧
        parseOwnerScriptSig .vault s = some (selOwner, sig, pk)) ∧
      (∃ s, vaultOwnerReleasedScriptSig sig pk = .ok s ∧
        parseOwnerScriptSig .vault s = some (selReleased, sig, pk)) ∧
      (∃ s, intentOwnerReleasedScriptSig sig pk = .ok s ∧
        parseOwnerScriptSig .intent s = some (selReleased, sig, pk)) ∧
      ∀ scheme, isKnownScheme scheme → sig.length = sigSize scheme + 1 →
        pk.length = pubKeySize scheme →
          pqSigPushesSize scheme = (pqSigPushes sig pk).toOption.map List.length := by
  obtain ⟨s, os, hs, hspells, hparse, -⟩ := pqSigPushes_spec hsig hpk
  refine ⟨⟨s, os, hs, hspells.ops_eq, hparse⟩, ?_, ?_, ?_, ?_⟩
  · exact parseOwnerScriptSig_ownerScriptSig .vault op2 hsig hpk
      (by decide) (by decide) (by decide)
  · exact parseOwnerScriptSig_ownerScriptSig .vault op3 hsig hpk
      (by decide) (by decide) (by decide)
  · exact parseOwnerScriptSig_ownerScriptSig .intent op3 hsig hpk
      (by decide) (by decide) (by decide)
  · intro scheme hknown hsigLen hpkLen
    rw [hs]
    exact length_pqSigPushes hknown hsigLen hpkLen hs

theorem ownerScriptSig_round_trip_slhDsa :
    pqSigPushesSize schemeSlhDsa =
      (pqSigPushes (List.replicate 7857 0) (List.replicate 32 0)).toOption.map List.length :=
  (ownerScriptSig_round_trip (List.replicate 7857 0) (List.replicate 32 0)
    (by rw [List.length_replicate]; decide) (by rw [List.length_replicate]; decide)).2.2.2.2
      schemeSlhDsa (by decide) (by rw [List.length_replicate]; decide)
      (by rw [List.length_replicate]; decide)

end Yew.Build
