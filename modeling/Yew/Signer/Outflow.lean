import Yew.Signer.Policy
import Yew.Util.Flow

/-!
# The outflow cap with Sapling

The outputs of a Sapling build, and of the Sapling part of a transparent transaction, are counted
as the wallet's own as the caller flags them; only the transparent outputs of `sign` are checked
against a key.  So the cap bounds what the request shows to leave; what really leaves is bounded when
the flags are true, and in a request with nothing to spare only then.

The requests are `sapling_build` of `yewd/signer/src/sapling.rs` and `sign` of `sign.rs`.  The flow
of value is that of `Yew.Util.Flow`: a flag is *true* when the output it is on pays a key or a note
address of this wallet, and the converse is for requests in which everything that is paid is
counted.
-/

namespace Yew.Signer

open Script Tx Keys Proto SetAct Sapling

/-! ## The flow of a request -/

/-- What an output pays: a transparent script or a shielded address. -/
inductive Payee where
  | script (s : Bytes)
  | shielded (a : Address)
deriving DecidableEq

section Flows

variable (L : Sapling.Lib) (controls : Payee → Bool) (network : Network) (extsk : ExtSk)

/-- The payee of an output. -/
def payeeOf : SaplingOut → Option Payee
  | .transparent script _ _ => (Hex.decode script).map .script
  | .shielded address _ _ _ => (L.decodeAddress network address).toOption.map .shielded
  | .change _ => some (.shielded (L.changeAddress extsk))

/-- An output in a flow: counted as the caller flags it, controlled as the seed has it. -/
def flowOut (o : SaplingOut) : FlowOut :=
  ⟨(outValue o).toInt, outOwn o, (payeeOf L network extsk o).any controls⟩

/-- The true value of the notes spent. -/
def spentTotal (spends : List SaplingSpend) : Int := (spends.map fun s ↦ (s.value.toNat : Int)).sum

/-- The flow of a Sapling build. -/
def buildFlow (r : SaplingBuildRequest) : Flow where
  ours := spentTotal r.spends + (r.inputs.map fun i ↦ i.prevout.amountZat.toInt).sum
  others := []
  outs := r.outputs.map (flowOut L controls network extsk)

/-- The flow of a transparent transaction with a Sapling part: the inputs without a key are others'
inputs. -/
def signFlow (r : SignRequest) (part : SaplingPart) (tx : Transaction) : Flow where
  ours := spentTotal part.spends + signedTotal r
  others := (r.inputs.filter fun i ↦ i.key = .none).map fun i ↦ i.prevout.amountZat.toInt
  outs := (indexed 0 tx.vout).map (fun x ↦
      ⟨x.2.value.toInt, r.ownOutputs.any fun o ↦ o.n.toNat = x.1,
        controls (.script x.2.scriptPubkey)⟩) ++
    part.outputs.map (flowOut L controls network extsk)

/-- The flags of some outputs are true: the seed controls the payee of each that is counted as own. -/
def TrueFlags (outs : List SaplingOut) : Prop :=
  ∀ o ∈ outs, outOwn o = true → (payeeOf L network extsk o).any controls = true

/-- What a transaction and its request claim is true: every input has a key, every output named as
own and every one flagged own is controlled, and no transparent output is worth less than nothing. -/
structure TrueRequest (r : SignRequest) (part : SaplingPart) (tx : Transaction) : Prop where
  keyed : ∀ i ∈ r.inputs, i.key ≠ .none
  named : ∀ x ∈ indexed 0 tx.vout, (r.ownOutputs.any fun o ↦ o.n.toNat = x.1) = true →
    controls (.script x.2.scriptPubkey) = true
  flagged : TrueFlags L controls network extsk part.outputs
  amounts : ∀ o ∈ tx.vout, 0 ≤ o.value.toInt

end Flows

/-- The cap on a flow, under a condition: what the request shows to leave is under the cap anyway,
and if the condition holds then so is what really leaves.  Where the cap has nothing to spare, it
holds of what really leaves only if the condition does. -/
structure CappedIf (cond : Prop) (f : Flow) (cap : Int) : Prop where
  shown : f.outflow ≤ cap
  enough : cond → f.paidOut + f.fee ≤ cap
  needed : f.Tight cap → f.paidOut + f.fee ≤ cap → cond

/-! ## Sums -/

/-- A wrapping sum of note values is the true sum up to a multiple of the word size. -/
theorem toInt_sumZat_spends (spends : List SaplingSpend) :
    (sumZat (spends.map fun s ↦ s.value.toInt64)).toInt = (spentTotal spends).bmod (2 ^ 64) := by
  induction spends with
  | nil => rfl
  | cons x xs ih =>
    have hx : x.value.toInt64.toInt = (x.value.toNat : Int).bmod (2 ^ 64) :=
      BitVec.toInt_eq_toNat_bmod x.value.toBitVec
    simp only [List.map_cons, sumZat, Int64.toInt_add, ih, hx, spentTotal, List.sum_cons,
      Int.bmod_add_bmod, Int.add_bmod_bmod]

theorem Flow.total_append (a c : Int) (b d : List Int) (xs ys : List FlowOut) (p : FlowOut → Bool) :
    Flow.total ⟨a, b, xs ++ ys⟩ p = Flow.total ⟨c, d, xs⟩ p + Flow.total ⟨c, d, ys⟩ p := by
  simp [Flow.total]

section Sums

variable {L : Sapling.Lib} {controls : Payee → Bool} {network : Network} {extsk : ExtSk}

theorem total_flowOut (a : Int) (b : List Int) (outs : List SaplingOut) :
    Flow.total ⟨a, b, outs.map (flowOut L controls network extsk)⟩ (fun _ ↦ true) =
      ((outs.map outValue).map Int64.toInt).sum := by
  simp [Flow.total, flowOut, Function.comp_def]

theorem counted_flowOut (a : Int) (b : List Int) (outs : List SaplingOut) :
    Flow.total ⟨a, b, outs.map (flowOut L controls network extsk)⟩ FlowOut.counted =
      (((outs.filter outOwn).map outValue).map Int64.toInt).sum := by
  simp [Flow.total, flowOut, List.filter_map, Function.comp_def]

/-- The totals of a build, as the words they are computed in. -/
theorem toInt_inTotal_sub_outTotal (r : SaplingBuildRequest) :
    (inTotal r - outTotal r.outputs).toInt =
      (buildFlow L controls network extsk r).fee.bmod (2 ^ 64) := by
  simp only [inTotal, outTotal, Int64.toInt_sub, Int64.toInt_add, toInt_sumZat_spends]
  simp only [toInt_sumZat, Flow.fee, buildFlow, total_flowOut, Int.bmod_sub_bmod, Int.sub_bmod_bmod,
    Int.bmod_add_bmod, Int.add_bmod_bmod, List.map_map, Function.comp_def, List.sum_nil, Int.add_zero]

theorem toInt_inTotal_sub_ownTotal (r : SaplingBuildRequest) :
    (inTotal r - ownTotal r.outputs).toInt =
      (buildFlow L controls network extsk r).outflow.bmod (2 ^ 64) := by
  simp only [inTotal, ownTotal, Int64.toInt_sub, Int64.toInt_add, toInt_sumZat_spends]
  simp only [toInt_sumZat, Flow.outflow, buildFlow, counted_flowOut, Int.bmod_sub_bmod, Int.sub_bmod_bmod,
    Int.bmod_add_bmod, Int.add_bmod_bmod, List.map_map, Function.comp_def]

/-- What a part counts as own, when it has no transparent output. -/
theorem own_partValue {outs : List SaplingOut}
    (h : ∀ o ∈ outs, ∀ script value own, o ≠ .transparent script value own) :
    sumZat (((outs.map SaplingOut.partValue).filter Prod.snd).map Prod.fst) = ownTotal outs := by
  have hmap : outs.map SaplingOut.partValue = outs.map fun o ↦ (outValue o, outOwn o) := by
    refine List.map_congr_left fun o ho ↦ ?_
    cases o with
    | transparent script value own => exact absurd rfl (h _ ho script value own)
    | shielded address value memo own => rfl
    | change value => rfl
  rw [hmap, ownTotal]
  simp [List.filter_map, Function.comp_def]

end Sums

/-! ## The two paths -/

section Paths

variable {C : Crypto} {L : Sapling.Lib} {s s' : St}

theorem checkTotals_eq_ok {r : SaplingBuildRequest} (h : checkTotals r s = (.ok (), s')) :
    inTotal r - outTotal r.outputs = r.feeZat ∧
      inTotal r - ownTotal r.outputs ≤ r.outflowCapZat := by
  unfold checkTotals at h
  split at h
  · simp at h
  · rename_i hfee
    split at h
    · simp at h
    · rename_i hcap
      exact ⟨not_not.mp hfee, Int64.not_lt.mp hcap⟩

theorem zat_eq_ok {v : Int64} {what : String} {u : Unit} (h : zat v what s = (.ok u, s')) :
    0 ≤ v.toInt := by
  unfold zat at h
  split at h
  · rename_i hv
    exact Int64.le_iff_toInt_le.mp hv.1
  · simp at h

/-- An output that is added is worth no less than nothing. -/
theorem addOut_nonneg {extsk : ExtSk} {o : SaplingOut} {out : Output ⊕ (TAddr × Int64)}
    (h : addOut L extsk o s = (.ok out, s')) : 0 ≤ (outValue o).toInt := by
  cases o with
  | transparent script value own =>
    obtain ⟨_, _, -, h⟩ := Proc.bind_eq_ok.mp h
    obtain ⟨_, _, -, h⟩ := Proc.bind_eq_ok.mp h
    obtain ⟨_, _, hv, -⟩ := Proc.bind_eq_ok.mp h
    exact zat_eq_ok hv
  | shielded address value memo own =>
    obtain ⟨_, _, -, h⟩ := Proc.bind_eq_ok.mp h
    obtain ⟨_, _, -, h⟩ := Proc.bind_eq_ok.mp h
    obtain ⟨_, _, hv, -⟩ := Proc.bind_eq_ok.mp h
    exact zat_eq_ok hv
  | change value =>
    obtain ⟨_, _, hv, -⟩ := Proc.bind_eq_ok.mp h
    exact zat_eq_ok hv

theorem saplingBuild_eq_ok {r : SaplingBuildRequest} {tx : String}
    (h : saplingBuild C L r s = (.ok tx, s')) : ∃ extsk, saplingExtsk L s = (.ok extsk, s) ∧
      (∀ o ∈ r.outputs, 0 ≤ (outValue o).toInt) ∧
      inTotal r - outTotal r.outputs = r.feeZat ∧
      inTotal r - ownTotal r.outputs ≤ r.outflowCapZat := by
  obtain ⟨extsk, hk, h⟩ := (quiet_saplingExtsk L).bind_eq_ok h
  obtain ⟨anchor, -, h⟩ := (quiet_anchorFor L _ _).bind_eq_ok h
  obtain ⟨spends, -, h⟩ := (Proc.Quiet.forEach (quiet_addSpend L _ _) _).bind_eq_ok h
  obtain ⟨inputs, -, h⟩ := (Proc.Quiet.forEach (quiet_addTInput C L) _).bind_eq_ok h
  obtain ⟨outputs, ho, h⟩ := (Proc.Quiet.forEach (quiet_addOut L _) _).bind_eq_ok h
  obtain ⟨_, ht, -⟩ := (quiet_checkTotals r).bind_eq_ok h
  refine ⟨extsk, hk, fun o hmem ↦ ?_, checkTotals_eq_ok ht⟩
  obtain ⟨i, hi⟩ := List.mem_iff_getElem?.mp hmem
  obtain ⟨out, -, hout⟩ := Proc.Quiet.forEach_getElem? (quiet_addOut L extsk) ho hi
  exact addOut_nonneg hout

/-- An output of a prepared part is shielded and worth no less than nothing. -/
theorem addPartOut_eq_ok {extsk : ExtSk} {o : SaplingOut} {out : Output}
    (h : addPartOut L extsk o s = (.ok out, s')) : 0 ≤ (outValue o).toInt ∧
      ∀ script value own, o ≠ .transparent script value own := by
  cases o with
  | transparent script value own => simp [addPartOut] at h
  | shielded address value memo own =>
    obtain ⟨_, _, -, h⟩ := Proc.bind_eq_ok.mp h
    obtain ⟨_, _, -, h⟩ := Proc.bind_eq_ok.mp h
    split at h
    · simp at h
    · rename_i hv
      exact ⟨Int64.le_iff_toInt_le.mp (Int64.not_lt.mp hv), fun _ _ _ heq ↦ by cases heq⟩
  | change value =>
    simp only [addPartOut] at h
    split at h
    · simp at h
    · rename_i hv
      exact ⟨Int64.le_iff_toInt_le.mp (Int64.not_lt.mp hv), fun _ _ _ heq ↦ by cases heq⟩

theorem saplingPrepare_eq_ok {part : SaplingPart} {tx : Transaction} {branchId : UInt32}
    {p : Hybrid × Bytes} (h : saplingPrepare L part tx branchId s = (.ok p, s')) :
    ∃ extsk, saplingExtsk L s = (.ok extsk, s) ∧ ∀ o ∈ part.outputs,
      0 ≤ (outValue o).toInt ∧ ∀ script value own, o ≠ .transparent script value own := by
  obtain ⟨extsk, hk, h⟩ := (quiet_saplingExtsk L).bind_eq_ok h
  obtain ⟨anchor, -, h⟩ := (quiet_anchorFor L _ _).bind_eq_ok h
  obtain ⟨spends, -, h⟩ := (Proc.Quiet.forEach (quiet_addSpend L _ _) _).bind_eq_ok h
  obtain ⟨outputs, ho, -⟩ := (Proc.Quiet.forEach (quiet_addPartOut L _) _).bind_eq_ok h
  refine ⟨extsk, hk, fun o hmem ↦ ?_⟩
  obtain ⟨i, hi⟩ := List.mem_iff_getElem?.mp hmem
  obtain ⟨b, -, hb⟩ := Proc.Quiet.forEach_getElem? (quiet_addPartOut L extsk) ho hi
  exact addPartOut_eq_ok hb

variable (controls : Payee → Bool)

theorem counted_vout (a : Int) (b : List Int) (r : SignRequest) (tx : Transaction) :
    Flow.total ⟨a, b, (indexed 0 tx.vout).map fun x ↦
      ⟨x.2.value.toInt, r.ownOutputs.any fun o ↦ o.n.toNat = x.1,
        controls (.script x.2.scriptPubkey)⟩⟩ FlowOut.counted = ownOutTotal r tx := by
  simp [Flow.total, ownOutTotal, List.filter_map, Function.comp_def]

theorem honest_buildFlow {network : Network} {extsk : ExtSk} {r : SaplingBuildRequest}
    (hnonneg : ∀ o ∈ r.outputs, 0 ≤ (outValue o).toInt) :
    (buildFlow L controls network extsk r).Honest ↔
      TrueFlags L controls network extsk r.outputs := by
  refine ⟨fun h o ho hown ↦ h.counted _ (List.mem_map_of_mem ho) hown, fun h ↦ ⟨?_, rfl, ?_⟩⟩
  · intro x hx
    obtain ⟨o, ho, rfl⟩ := List.mem_map.mp hx
    exact h o ho
  · intro x hx _
    obtain ⟨o, ho, rfl⟩ := List.mem_map.mp hx
    exact hnonneg o ho

theorem saplingBuild_capped {r : SaplingBuildRequest} {tx : String}
    (h : saplingBuild C L r s = (.ok tx, s')) : ∃ extsk, saplingExtsk L s = (.ok extsk, s) ∧
      (FitsI64 (buildFlow L controls s.core.network extsk r).fee →
        FitsI64 (buildFlow L controls s.core.network extsk r).outflow →
        (buildFlow L controls s.core.network extsk r).fee = r.feeZat.toInt ∧
          CappedIf (TrueFlags L controls s.core.network extsk r.outputs)
            (buildFlow L controls s.core.network extsk r) r.outflowCapZat.toInt) := by
  obtain ⟨extsk, hk, hnonneg, hfee, hcap⟩ := saplingBuild_eq_ok h
  refine ⟨extsk, hk, fun hf ho ↦ ⟨?_, ?_⟩⟩
  · rw [← hfee, toInt_inTotal_sub_outTotal, hf.bmod_eq]
  · have hout : (inTotal r - ownTotal r.outputs).toInt =
        (buildFlow L controls s.core.network extsk r).outflow :=
      (toInt_inTotal_sub_ownTotal r).trans ho.bmod_eq
    rw [Int64.le_iff_toInt_le, hout] at hcap
    refine ⟨hcap, fun htrue ↦ ?_, fun htight hpaid ↦ ?_⟩
    · exact ((honest_buildFlow controls hnonneg).mpr htrue).paidOut_add_fee_le.trans hcap
    · exact (honest_buildFlow controls hnonneg).mp (htight.honest hpaid)

theorem honest_signFlow {network : Network} {extsk : ExtSk} {r : SignRequest} {part : SaplingPart}
    {tx : Transaction} (hnonneg : ∀ o ∈ part.outputs, 0 ≤ (outValue o).toInt)
    (hamounts : ∀ o ∈ tx.vout, 0 ≤ o.value.toInt) :
    (signFlow L controls network extsk r part tx).Honest ↔
      TrueRequest L controls network extsk r part tx := by
  constructor
  · refine fun h ↦ ⟨fun i hi hkey ↦ ?_, fun x hx ↦ ?_, fun o ho ↦ ?_, hamounts⟩
    · have hnil := List.map_eq_nil_iff.mp h.others
      exact List.filter_eq_nil_iff.mp hnil i hi (by simpa using hkey)
    · exact h.counted _ (List.mem_append_left _ (List.mem_map_of_mem hx))
    · exact h.counted _ (List.mem_append_right _ (List.mem_map_of_mem ho))
  · refine fun h ↦ ⟨fun x hx ↦ ?_, ?_, fun x hx _ ↦ ?_⟩
    · rcases List.mem_append.mp hx with hx | hx
      · obtain ⟨o, ho, rfl⟩ := List.mem_map.mp hx
        exact h.named o ho
      · obtain ⟨o, ho, rfl⟩ := List.mem_map.mp hx
        exact h.flagged o ho
    · refine List.map_eq_nil_iff.mpr (List.filter_eq_nil_iff.mpr fun i hi ↦ ?_)
      simpa using h.keyed i hi
    · rcases List.mem_append.mp hx with hx | hx
      · obtain ⟨⟨n, o⟩, ho, rfl⟩ := List.mem_map.mp hx
        obtain ⟨i, -, hi⟩ := mem_indexed.mp ho
        exact hamounts o (List.mem_of_getElem? hi)
      · obtain ⟨o, ho, rfl⟩ := List.mem_map.mp hx
        exact hnonneg o ho

/-- The outputs of the transaction are outputs of the flow. -/
theorem amounts_of_signFlow {network : Network} {extsk : ExtSk} {r : SignRequest}
    {part : SaplingPart} {tx : Transaction}
    (h : ∀ x ∈ (signFlow L controls network extsk r part tx).outs, 0 ≤ x.value) :
    ∀ o ∈ tx.vout, 0 ≤ o.value.toInt := by
  intro o ho
  obtain ⟨i, hi⟩ := List.mem_iff_getElem?.mp ho
  have hmem : (i, o) ∈ indexed 0 tx.vout := mem_indexed.mpr ⟨i, (Nat.zero_add i).symm, hi⟩
  exact h _ (List.mem_append_left _ (List.mem_map_of_mem hmem))

theorem sign_capped {r : SignRequest} {part : SaplingPart} {out : Signed}
    (hr : r.sapling = some part) (h : sign C L r s = (.ok out, s')) :
    ∃ tx extsk, RequestTx C r.tx tx ∧ saplingExtsk L s = (.ok extsk, s) ∧
      (FitsI64 (signFlow L controls s.core.network extsk r part tx).outflow →
        CappedIf (TrueRequest L controls s.core.network extsk r part tx)
          (signFlow L controls s.core.network extsk r part tx) r.outflowCapZat.toInt) := by
  obtain ⟨tx, tx', scripts, checked, own, hyb, bytes, R⟩ := sign_eq_ok h
  have hp := R.prepared
  simp only [preparePart, hr] at hp
  obtain ⟨p, hp, -⟩ := (quiet_saplingPrepare L ..).bind_eq_ok hp
  obtain ⟨extsk, hk, hshield⟩ := saplingPrepare_eq_ok hp
  obtain ⟨-, -, hcap⟩ := checkPreview_eq_ok R.preview
  refine ⟨tx, extsk, requestTx_of_parse R.parsed, hk, fun ho ↦ ?_⟩
  have hout : (wantedPreview C s.core.network r tx (signedIndices (checked.map Prod.snd)) own
      ).outflowZat.toInt =
        (signFlow L controls s.core.network extsk r part tx).outflow.bmod (2 ^ 64) := by
    have hsum := sum_signedAmounts fun i inp hi ↦ R.mem_signed hi
    have hown := @sum_ownValues _ tx _ R.own_eq
    simp only [wantedPreview, hr, withSapling, compute, SaplingPart.values,
      own_partValue fun o ho ↦ (hshield o ho).2, Int64.toInt_add, Int64.toInt_sub, toInt_sumZat_spends]
    simp only [ownTotal, toInt_sumZat, hsum, hown, Int.bmod_add_bmod, Int.add_bmod_bmod,
      Int.bmod_sub_bmod, Int.sub_bmod_bmod]
    congr 1
    rw [Flow.outflow, signFlow, Flow.total_append _ 0 _ [], counted_vout, counted_flowOut]
    change _ = spentTotal part.spends + signedTotal r - _
    omega
  rw [Int64.le_iff_toInt_le, hout, ho.bmod_eq] at hcap
  have hnonneg := fun o ho ↦ (hshield o ho).1
  refine ⟨hcap, fun htrue ↦ ?_, fun htight hpaid ↦ ?_⟩
  · exact ((honest_signFlow controls hnonneg htrue.amounts).mpr htrue).paidOut_add_fee_le.trans hcap
  · refine (honest_signFlow controls hnonneg ?_).mp (htight.honest hpaid)
    exact amounts_of_signFlow controls fun x hx ↦ (htight.pos x hx).le

/-- **The outflow cap with Sapling.**  Take any notion of what the seed controls.  In an answered
build, and in an answered signing of a transaction with a Sapling part, what the request shows to
leave is under the cap.  What really leaves, with the fee, is under the cap if every output counted
as own is controlled and every input has a key; where the cap has nothing to spare, only then. -/
theorem outflow_with_sapling :
    (∀ (r : SaplingBuildRequest) (s s' : St) (tx : String),
      saplingBuild C L r s = (.ok tx, s') → ∃ extsk, saplingExtsk L s = (.ok extsk, s) ∧
        (FitsI64 (buildFlow L controls s.core.network extsk r).fee →
          FitsI64 (buildFlow L controls s.core.network extsk r).outflow →
          (buildFlow L controls s.core.network extsk r).fee = r.feeZat.toInt ∧
            CappedIf (TrueFlags L controls s.core.network extsk r.outputs)
              (buildFlow L controls s.core.network extsk r) r.outflowCapZat.toInt)) ∧
    ∀ (r : SignRequest) (part : SaplingPart) (s s' : St) (out : Signed),
      r.sapling = some part → sign C L r s = (.ok out, s') →
        ∃ tx extsk, RequestTx C r.tx tx ∧ saplingExtsk L s = (.ok extsk, s) ∧
          (FitsI64 (signFlow L controls s.core.network extsk r part tx).outflow →
            CappedIf (TrueRequest L controls s.core.network extsk r part tx)
              (signFlow L controls s.core.network extsk r part tx) r.outflowCapZat.toInt) :=
  ⟨fun _ _ _ _ h ↦ saplingBuild_capped controls h, fun _ _ _ _ _ hr h ↦ sign_capped controls hr h⟩

end Paths

/-! ## A build over its cap

The sample key's ten go to a script of someone else's, eight of them flagged as own. -/

/-- The sample seed controls the sample key's script and nothing else. -/
def sampleControls (p : Payee) : Bool := p = .script sampleOwn

/-- A build of one input and one output. -/
def sampleBuild (payee : Bytes) : SaplingBuildRequest where
  targetHeight := 1
  expiryHeight := 0
  vaultHeight := none
  inputs := [⟨⟨OutPoint.display ⟨List.Vector.replicate 32 0, 0⟩, Hex.encode sampleOwn, 10⟩,
    .bip32 importedChain 0⟩]
  spends := []
  outputs := [.transparent (Hex.encode payee) 8 true]
  feeZat := 2
  anchor := ""
  outflowCapZat := 2
  paramsDir := ""

/-- A script of someone else's. -/
def sampleForeign : Bytes := p2shScript (List.Vector.replicate 20 0)

theorem saplingBuild_over_cap :
    (saplingBuild .blank .blank (sampleBuild sampleForeign) sampleSt).1.isOk ∧
      saplingExtsk .blank sampleSt = (.ok [], sampleSt) ∧
      ¬ (buildFlow .blank sampleControls .regtest [] (sampleBuild sampleForeign)).paidOut +
        (sampleBuild sampleForeign).feeZat.toInt ≤
          (sampleBuild sampleForeign).outflowCapZat.toInt := by
  refine ⟨by decide +kernel, rfl, by decide +kernel⟩

theorem outflow_with_sapling_sampleBuild :
    (saplingBuild .blank .blank (sampleBuild sampleOwn) sampleSt).1.isOk ∧
      ∃ extsk, saplingExtsk .blank sampleSt = (.ok extsk, sampleSt) ∧
        (buildFlow .blank sampleControls .regtest extsk (sampleBuild sampleOwn)).paidOut +
          (buildFlow .blank sampleControls .regtest extsk (sampleBuild sampleOwn)).fee ≤ 2 := by
  have hok : (saplingBuild .blank .blank (sampleBuild sampleOwn) sampleSt).1.isOk := by
    decide +kernel
  refine ⟨hok, ?_⟩
  obtain ⟨tx, s', h⟩ := Proc.exists_of_isOk hok
  obtain ⟨extsk, hk, hcap⟩ := (outflow_with_sapling sampleControls).1 _ _ _ _ h
  have he : extsk = [] := by
    cases hk
    rfl
  subst he
  refine ⟨[], hk, (hcap ⟨by decide +kernel, by decide +kernel⟩
    ⟨by decide +kernel, by decide +kernel⟩).2.enough ?_⟩
  unfold TrueFlags
  decide +kernel

end Yew.Signer
