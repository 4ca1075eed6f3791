import Yew.Daemon.Carriers
import Yew.Util.Trace

/-!
# What a call does with the carriers

The calls on carriers as steps of a machine, in any order and with any answers of the node and the
signer.  One lemma for each call says what it can do: to the records, to what was signed and to what
was handed to the node.

The calls are those of `yewd/wallet/src/mint.rs`, `claim.rs` and `attest.rs`.  The inversion lemmas
below are the only place where the bodies of the calls are looked into.
-/

namespace Yew.Daemon

open Script Tx Pq Proto Proc Yellowback Build

/-! ## Outpoints as keys -/

@[simp] theorem outpointParam_display (op : OutPoint) (name : String) :
    outpointParam op.display name = .ok op := by
  have hlen : Text.byteLen (txidHex op.txid).toList = 64 := by
    rw [txidHex, Hex.encode, String.toList_ofList, Keys.byteLen_encodeChars, List.Vector.toList_length]
  unfold outpointParam
  rw [SetAct.rsplitColon_display]
  dsimp only
  rw [← Text.decimal, Text.parseU32_decimal]
  dsimp only
  rw [if_neg (not_not.mpr hlen), String.ofList_toList, Keys.txidFromHex_txidHex]

/-! ## Calls that leave the carriers alone -/

/-- The carriers, what was signed and what was handed out are as they were. -/
structure Desk.Same (d d' : Desk) : Prop where
  carriers : d'.carriers = d.carriers
  signed : d'.signed = d.signed
  handed : d'.handed = d.handed

instance : Proc.Path Desk.Same where
  refl _ := ⟨rfl, rfl, rfl⟩
  trans h₁ h₂ := ⟨h₂.carriers.trans h₁.carriers, h₂.signed.trans h₁.signed,
    h₂.handed.trans h₁.handed⟩

section Quiet

variable {ε α β : Type} {d₀ : Desk} {Q : β → Desk → Prop} {E : Desk → Prop}

theorem same_onPurse (x : Proc Purse ε α) : Moves Desk.Same (onPurse x) :=
  fun _ ↦ ⟨rfl, rfl, rfl⟩

theorem same_attempt (fault : Option ε) : Moves Desk.Same (attempt fault) := by
  cases fault with
  | none => exact Moves.pure ()
  | some e => exact Moves.throw e

/-- A part that leaves the carriers alone comes first. -/
theorem same_bind {x : Proc Desk ε α} {f : α → Proc Desk ε β}
    (hx : Moves Desk.Same x) (hE : ∀ d, d₀.Same d → E d)
    (hf : ∀ a, Triple d₀.Same (f a) Q fun _ ↦ E) : Triple d₀.Same (x >>= f) Q fun _ ↦ E := by
  refine Triple.bind (Triple.of_ends hx.ends (Q := d₀.Same) ?_ ?_) hf
  · intro d d' hd hmove
    exact Proc.Path.trans hd hmove
  · intro _ d d' hd hmove
    exact hE d' (Proc.Path.trans hd hmove)

/-- A check comes first. -/
theorem lift_bind {x : Except ε α} {f : α → Proc Desk ε β}
    (hE : ∀ d, d₀.Same d → E d) (hf : ∀ a, x = .ok a → Triple d₀.Same (f a) Q fun _ ↦ E) :
    Triple d₀.Same (lift x >>= f) Q fun _ ↦ E := by
  refine Triple.bind (M := fun a d ↦ x = .ok a ∧ d₀.Same d) (Triple.lift ?_ ?_) fun a ↦ ?_
  · exact fun a d hx hd ↦ ⟨hx, hd⟩
  · exact fun _ d _ hd ↦ hE d hd
  · exact fun d hd ↦ hf a hd.1 d hd.2

/-- The record of a carrier is read first. -/
theorem carrierRec_bind {carrier : OutPoint} {f : CarrierRec → Proc Desk Stop β}
    (hE : ∀ d, d₀.Same d → E d)
    (hf : ∀ r, d₀.carriers.get? carrier.display = some r → Triple d₀.Same (f r) Q fun _ ↦ E) :
    Triple d₀.Same (carrierRec carrier >>= f) Q fun _ ↦ E := by
  refine Triple.bind (M := fun r d ↦ d₀.carriers.get? carrier.display = some r ∧ d₀.Same d) ?_
    fun r d hd ↦ hf r hd.1 d hd.2
  intro d hd
  unfold carrierRec
  rw [bind_apply, get_apply]
  dsimp only
  rw [hd.carriers]
  cases hget : d₀.carriers.get? carrier.display with
  | none =>
    refine ⟨nofun, ?_⟩
    rintro e _ ⟨⟩
    exact hE d hd
  | some r =>
    refine ⟨?_, nofun⟩
    rintro _ _ ⟨⟩
    exact ⟨rfl, hd⟩

end Quiet

/-! ## Signing and sending -/

/-- A desk after a signature. -/
def Desk.sign (d : Desk) (t : CarrierSpend) : Desk := { d with signed := t :: d.signed }

/-- A desk after a transaction was handed to the node. -/
def Desk.hand (d : Desk) (tx : Handed) : Desk := { d with handed := tx :: d.handed }

/-- A desk with other records. -/
def Desk.keep (d : Desk) (carriers : OrdMap String CarrierRec) : Desk := { d with carriers }

section Parts

variable {ε β : Type} {d₀ : Desk} {Q : β → Desk → Prop} {E : Desk → Prop}

/-- A signature comes first. -/
theorem signSpend_bind {fault : Option ε} {t : CarrierSpend}
    {f : Unit → Proc Desk ε β} (hE : ∀ d, d₀.Same d → E d)
    (hf : Triple (d₀.sign t).Same (f ()) Q fun _ ↦ E) :
    Triple d₀.Same (signSpend fault t >>= f) Q fun _ ↦ E := by
  refine Triple.bind (M := fun _ ↦ (d₀.sign t).Same) ?_ fun _ ↦ hf
  refine same_bind (same_attempt fault) hE fun _ ↦ Triple.modify fun d hd ↦ ?_
  exact ⟨hd.carriers, congrArg (t :: ·) hd.signed, hd.handed⟩

/-- A send comes first.  It goes through when the node replies and the sync succeeds. -/
theorem broadcast_bind {tx : Handed} {reply : Except ε String} {syncFault : Option ε}
    {f : String → Proc Desk ε β}
    (hE : (∀ txid, reply = .ok txid → syncFault ≠ none) → ∀ d, (d₀.hand tx).Same d → E d)
    (hf : ∀ txid, reply = .ok txid → syncFault = none →
      Triple (d₀.hand tx).Same (f txid) Q fun _ ↦ E) :
    Triple d₀.Same (broadcast tx reply syncFault >>= f) Q fun _ ↦ E := by
  have hhand : Triple d₀.Same
      (modify fun d ↦ { d with handed := tx :: d.handed } : Proc Desk ε Unit)
      (fun _ ↦ (d₀.hand tx).Same) fun _ ↦ E :=
    Triple.modify fun d hd ↦ ⟨hd.carriers, hd.signed, congrArg (tx :: ·) hd.handed⟩
  unfold broadcast
  rw [bind_assoc]
  refine Triple.bind hhand fun _ ↦ ?_
  rw [bind_assoc]
  cases reply with
  | error e =>
    refine lift_bind (hE nofun) ?_
    rintro _ ⟨⟩
  | ok txid =>
    cases syncFault with
    | some e =>
      refine lift_bind (hE fun _ _ ↦ nofun) ?_
      rintro _ ⟨⟩
      refine Triple.bind (M := fun _ _ ↦ False) ?_ fun _ _ h ↦ h.elim
      exact Triple.bind (M := fun _ _ ↦ False) (Triple.throw (hE fun _ _ ↦ nofun)) fun _ _ h ↦ h.elim
    | none => exact hf txid rfl rfl

end Parts

/-! ## Completions -/

/-- A spend of one carrier that expires with the carrier's window and was signed within it. -/
structure CarrierSpend.Within (t : CarrierSpend) (window : Int) (carrier : OutPoint)
    (d : Desk) : Prop where
  carriers : t.carriers = [carrier]
  height : 0 < t.height
  window : ∃ r, d.carriers.get? carrier.display = some r ∧
    t.expiryHeight = asU32 (r.refHeight + window) ∧ t.height ≤ r.refHeight + window

/-- A desk after some signatures. -/
def Desk.signAll (d : Desk) (ts : List CarrierSpend) : Desk := { d with signed := ts ++ d.signed }

/-- What a completion does: it signs within the window, hands a spend of the carrier to the node, and
removes the record when the node has replied. -/
structure CompletionDid (F : Finish) (carrier : OutPoint) (d₀ d : Desk) : Prop where
  out : ∃ ts, (ts ≠ [] → ∃ prm, F.params = .ok prm ∧ ∀ t ∈ ts, t.Within prm.window carrier d₀) ∧
    ((d₀.signAll ts).Same d ∨
      ((d₀.signAll ts).hand (.spend [carrier])).Same d ∨
      (∃ txid, F.reply = .ok txid) ∧ (((d₀.signAll ts).hand (.spend [carrier])).keep
        (d₀.carriers.erase carrier.display)).Same d)

section Completion

variable {A : Answers} {F : Finish} {carrier : OutPoint} {d₀ : Desk}

theorem CompletionDid.of_same {d : Desk} (h : d₀.Same d) : CompletionDid F carrier d₀ d :=
  ⟨[], fun h ↦ absurd rfl h, .inl h⟩

/-- The window check of a completion. -/
theorem le_of_checkWindow {next : Next} {window r : Int} {u : Unit}
    (h : checkWindow next window r = .ok u) : next.height ≤ r + window := by
  unfold checkWindow at h
  split at h
  · cases h
  · omega

theorem height_pos {next : Next} (h : nextBlock A = .ok next) : 0 < next.height := by
  unfold nextBlock at h
  split at h
  · cases h
  · split at h
    · cases h
    · cases h
      exact Nat.succ_pos _

theorem did_finish {prm : CarrierParams} {purpose : Purpose} {expiryHeight : UInt32} {next : Next}
    {ts : List CarrierSpend} (hparams : F.params = .ok prm) (hts : ∀ t ∈ ts, t.Within prm.window carrier d₀)
    (ht : CarrierSpend.Within ⟨purpose, [carrier], expiryHeight, next.height⟩ prm.window carrier d₀) :
    Triple (d₀.signAll ts).Same (finish F purpose carrier expiryHeight next)
      (fun _ ↦ CompletionDid F carrier d₀) fun _ ↦ CompletionDid F carrier d₀ := by
  have hall : ∀ t ∈ ⟨purpose, [carrier], expiryHeight, next.height⟩ :: ts,
      CarrierSpend.Within t prm.window carrier d₀ := List.forall_mem_cons.mpr ⟨ht, hts⟩
  have hsigned : ∀ d, ((d₀.signAll ts).sign ⟨purpose, [carrier], expiryHeight, next.height⟩).Same d →
      CompletionDid F carrier d₀ d :=
    fun d hd ↦ ⟨_, fun _ ↦ ⟨prm, hparams, hall⟩, .inl hd⟩
  refine signSpend_bind (fun d hd ↦ ⟨ts, fun _ ↦ ⟨prm, hparams, hts⟩, .inl hd⟩) ?_
  refine same_bind (same_attempt F.dryRun) hsigned fun _ ↦ ?_
  refine broadcast_bind (fun _ d hd ↦ ⟨_, fun _ ↦ ⟨prm, hparams, hall⟩, .inr (.inl hd)⟩) ?_
  intro txid hreply _
  refine Triple.bind (M := fun _ ↦ CompletionDid F carrier d₀) ?_ fun _ ↦ Triple.pure fun _ h ↦ h
  refine Triple.modify fun d hd ↦ ⟨_, fun _ ↦ ⟨prm, hparams, hall⟩, .inr (.inr ⟨⟨txid, hreply⟩, ?_⟩)⟩
  exact ⟨congrArg (OrdMap.erase · carrier.display) hd.carriers, hd.signed, hd.handed⟩

theorem did_completeMint : Triple d₀.Same (completeMint A F carrier)
    (fun _ ↦ CompletionDid F carrier d₀) fun _ ↦ CompletionDid F carrier d₀ := by
  refine lift_bind (fun _ ↦ .of_same) fun prm hprm ↦ ?_
  refine same_bind (same_attempt _) (fun _ ↦ .of_same) fun _ ↦ ?_
  refine lift_bind (fun _ ↦ .of_same) fun next hnext ↦ ?_
  refine carrierRec_bind (fun _ ↦ .of_same) fun r hr ↦ ?_
  refine lift_bind (fun _ ↦ .of_same) fun _ _ ↦ ?_
  refine lift_bind (fun _ ↦ .of_same) fun _ _ ↦ ?_
  refine lift_bind (fun _ ↦ .of_same) fun _ hwindow ↦ ?_
  refine same_bind (same_attempt _) (fun _ ↦ .of_same) fun _ ↦ ?_
  exact did_finish (Result.mapError_eq_ok.mp hprm) (List.forall_mem_nil _)
    ⟨rfl, height_pos (Result.mapError_eq_ok.mp hnext), r, hr, rfl, le_of_checkWindow hwindow⟩

theorem did_completeNotice {selector : Bytes} : Triple d₀.Same (completeNotice A F selector carrier)
    (fun _ ↦ CompletionDid F carrier d₀) fun _ ↦ CompletionDid F carrier d₀ := by
  refine lift_bind (fun _ ↦ .of_same) fun prm hprm ↦ ?_
  refine lift_bind (fun _ ↦ .of_same) fun next hnext ↦ ?_
  refine same_bind (same_attempt _) (fun _ ↦ .of_same) fun _ ↦ ?_
  refine carrierRec_bind (fun _ ↦ .of_same) fun r hr ↦ ?_
  refine lift_bind (fun _ ↦ .of_same) fun _ _ ↦ ?_
  refine lift_bind (fun _ ↦ .of_same) fun _ hwindow ↦ ?_
  refine lift_bind (fun _ ↦ .of_same) fun _ _ ↦ ?_
  refine same_bind (same_attempt _) (fun _ ↦ .of_same) fun _ ↦ ?_
  exact did_finish (Result.mapError_eq_ok.mp hprm) (List.forall_mem_nil _)
    ⟨rfl, height_pos (Result.mapError_eq_ok.mp hnext), r, hr, rfl, le_of_checkWindow hwindow⟩

theorem did_completeEquivocation {bundle : Bytes} :
    Triple d₀.Same (completeEquivocation A F bundle carrier)
      (fun _ ↦ CompletionDid F carrier d₀) fun _ ↦ CompletionDid F carrier d₀ := by
  refine same_bind (same_attempt _) (fun _ ↦ .of_same) fun _ ↦ ?_
  refine carrierRec_bind (fun _ ↦ .of_same) fun r hr ↦ ?_
  refine Triple.ite (fun _ ↦ Triple.throw fun _ ↦ .of_same) fun _ ↦ ?_
  refine lift_bind (fun _ ↦ .of_same) fun _ _ ↦ ?_
  refine lift_bind (fun _ ↦ .of_same) fun prm hprm ↦ ?_
  refine lift_bind (fun _ ↦ .of_same) fun next hnext ↦ ?_
  refine lift_bind (fun _ ↦ .of_same) fun _ hwindow ↦ ?_
  refine same_bind (same_attempt _) (fun _ ↦ .of_same) fun _ ↦ ?_
  exact did_finish (Result.mapError_eq_ok.mp hprm) (List.forall_mem_nil _)
    ⟨rfl, height_pos (Result.mapError_eq_ok.mp hnext), r, hr, rfl, le_of_checkWindow hwindow⟩

/-- Every pass of a claim signs within the window. -/
theorem did_claimPasses {prm : CarrierParams} {expiryHeight : UInt32} {next : Next}
    {ts : List CarrierSpend} (hparams : F.params = .ok prm) (hts : ∀ t ∈ ts, t.Within prm.window carrier d₀)
    (ht : CarrierSpend.Within ⟨.claim, [carrier], expiryHeight, next.height⟩ prm.window carrier d₀)
    (passes : List ClaimPass) (last : Option String) :
    Triple (d₀.signAll ts).Same (claimPasses F carrier expiryHeight next passes last)
      (fun _ ↦ CompletionDid F carrier d₀) fun _ ↦ CompletionDid F carrier d₀ := by
  have hsigned : ∀ d, (d₀.signAll ts).Same d → CompletionDid F carrier d₀ d :=
    fun d hd ↦ ⟨ts, fun _ ↦ ⟨prm, hparams, hts⟩, .inl hd⟩
  induction passes generalizing ts last with
  | nil => exact Triple.throw hsigned
  | cons p ps ih =>
    cases p with
    | short m => exact ih hts _ hsigned
    | fails e => exact Triple.throw hsigned
    | low =>
      have hall : ∀ t ∈ ⟨.claim, [carrier], expiryHeight, next.height⟩ :: ts,
          CarrierSpend.Within t prm.window carrier d₀ := List.forall_mem_cons.mpr ⟨ht, hts⟩
      exact signSpend_bind hsigned
        (ih hall last fun d hd ↦ ⟨_, fun _ ↦ ⟨prm, hparams, hall⟩, .inl hd⟩)
    | pays => exact did_finish hparams hts ht

theorem did_completeClaim {passes : Fin 6 → ClaimPass} {selector : Bytes} :
    Triple d₀.Same (completeClaim A F passes selector carrier)
      (fun _ ↦ CompletionDid F carrier d₀) fun _ ↦ CompletionDid F carrier d₀ := by
  refine same_bind (same_attempt _) (fun _ ↦ .of_same) fun _ ↦ ?_
  refine lift_bind (fun _ ↦ .of_same) fun prm hprm ↦ ?_
  refine lift_bind (fun _ ↦ .of_same) fun next hnext ↦ ?_
  refine carrierRec_bind (fun _ ↦ .of_same) fun r hr ↦ ?_
  refine lift_bind (fun _ ↦ .of_same) fun _ _ ↦ ?_
  refine lift_bind (fun _ ↦ .of_same) fun _ hwindow ↦ ?_
  refine lift_bind (fun _ ↦ .of_same) fun _ _ ↦ ?_
  refine same_bind (same_attempt _) (fun _ ↦ .of_same) fun _ ↦ ?_
  exact did_claimPasses (Result.mapError_eq_ok.mp hprm) (List.forall_mem_nil _)
    ⟨rfl, height_pos (Result.mapError_eq_ok.mp hnext), r, hr, rfl, le_of_checkWindow hwindow⟩ _ _

end Completion

/-! ## Builds and cancels -/

/-- What a build does: nothing, or it hands a carrier to the node, and records it when the node has
replied and the sync has succeeded. -/
inductive BuildDid (B : BuildAnswers) (d₀ d : Desk) : Prop
  | nothing (same : d₀.Same d)
  | handed (r : CarrierRec) (same : (d₀.hand (.carrier r)).Same d)
    (lost : ∀ txid op, B.reply = .ok txid → B.syncFault = none → carrierAt txid ≠ .ok op)
  | recorded (r : CarrierRec) (txid : String) (op : OutPoint) (reply : B.reply = .ok txid)
    (outpoint : carrierAt txid = .ok op)
    (same : ((d₀.hand (.carrier r)).keep (d₀.carriers.insert op.display r)).Same d)

/-- What a cancel does: perhaps a build, and perhaps a signature. -/
def CancelDid (K : CancelAnswers) (d₀ d : Desk) : Prop :=
  ∃ d₁, BuildDid K.build d₀ d₁ ∧ (d₁.Same d ∨ ∃ t, t.purpose = .cancel ∧ (d₁.sign t).Same d)

section Build

variable {env : Env} {A : Answers} {d₀ : Desk}

theorem same_fundCarrier (ask : CarrierAsk) (B : BuildAnswers) (prm : CarrierParams)
    (redeem : Bytes) : Moves Desk.Same (fundCarrier env A ask B prm redeem) :=
  Moves.ite (same_attempt _) (Moves.bind (same_onPurse _) fun _ ↦ same_attempt _)

theorem did_buildCarrierFrom {ask : CarrierAsk} {B : BuildAnswers} :
    Triple d₀.Same (buildCarrierFrom env A ask B) (fun _ ↦ BuildDid B d₀) fun _ ↦ BuildDid B d₀ := by
  refine lift_bind (fun _ ↦ .nothing) fun prm _ ↦ ?_
  refine lift_bind (fun _ ↦ .nothing) fun next _ ↦ ?_
  refine same_bind Moves.get (fun _ ↦ .nothing) fun d ↦ ?_
  refine same_bind (same_onPurse _) (fun _ ↦ .nothing) fun pk ↦ ?_
  refine lift_bind (fun _ ↦ .nothing) fun redeem _ ↦ ?_
  refine same_bind (same_fundCarrier ask B prm redeem) (fun _ ↦ .nothing) fun _ ↦ ?_
  dsimp only
  generalize hr : CarrierRec.mk _ pk ask.bundle ask.refHeight ask.selector _ = r
  refine broadcast_bind ?_ ?_
  · intro hlost d hd
    exact .handed r hd fun txid _ hreply hsync _ ↦ hlost txid hreply hsync
  · intro txid hreply _
    refine Triple.bind (M := fun op d ↦ carrierAt txid = .ok op ∧ (d₀.hand (.carrier r)).Same d)
      (Triple.lift ?_ ?_) fun op ↦ ?_
    · exact fun op d hop hd ↦ ⟨hop, hd⟩
    · intro e d he hd
      refine .handed r hd fun txid' op hreply' _ hop ↦ ?_
      obtain rfl := Except.ok.inj (hreply.symm.trans hreply')
      cases he.symm.trans hop
    · refine Triple.bind (M := fun _ ↦ BuildDid B d₀) ?_ fun _ ↦ Triple.pure fun _ h ↦ h
      refine Triple.modify fun d hd ↦ .recorded r txid op hreply hd.1 ?_
      exact ⟨congrArg (OrdMap.insert · op.display r) hd.2.carriers, hd.2.signed, hd.2.handed⟩

theorem did_cancelCarrier {K : CancelAnswers} : Triple d₀.Same (cancelCarrier env A K)
    (fun _ ↦ BuildDid K.build d₀) fun _ ↦ BuildDid K.build d₀ := by
  refine same_bind Moves.get (fun _ ↦ .nothing) fun d ↦ ?_
  refine lift_bind (fun _ ↦ .nothing) fun reuse _ ↦ ?_
  cases reuse with
  | some o => exact Triple.pure fun _ ↦ .nothing
  | none => exact did_buildCarrierFrom

theorem did_yedBuildcancel {K : CancelAnswers} : Triple d₀.Same (yedBuildcancel env A K)
    (fun _ ↦ CancelDid K d₀) fun _ ↦ CancelDid K d₀ := by
  have hnothing : ∀ d, d₀.Same d → CancelDid K d₀ d :=
    fun d hd ↦ ⟨d, .nothing hd, .inl (Proc.Path.refl d)⟩
  refine same_bind (same_attempt _) hnothing fun _ ↦ ?_
  refine lift_bind hnothing fun remembered _ ↦ ?_
  refine Triple.bind (M := fun _ ↦ BuildDid K.build d₀) ?_ fun carrier ↦ ?_
  · exact did_cancelCarrier.mono (fun _ h ↦ h) (fun _ _ h ↦ h)
      fun _ d hd ↦ ⟨d, hd, .inl (Proc.Path.refl d)⟩
  -- from the state the build has left
  · intro d hd
    have hbuilt : ∀ d', d.Same d' → CancelDid K d₀ d' := fun d' hd' ↦ ⟨d, hd, .inl hd'⟩
    refine (?_ : Triple d.Same _ (fun _ ↦ CancelDid K d₀) fun _ ↦ CancelDid K d₀) d
      (Proc.Path.refl d)
    refine same_bind Moves.get hbuilt fun d' ↦ ?_
    split
    · exact Triple.throw hbuilt
    · refine lift_bind hbuilt fun next _ ↦ ?_
      refine same_bind (same_attempt _) hbuilt fun _ ↦ ?_
      refine same_bind (same_attempt _) hbuilt fun _ ↦ Triple.modify fun d' hd' ↦ ?_
      refine ⟨d, hd, .inr ⟨⟨.cancel, [carrier], remembered.getD 0, next.height⟩, rfl, ?_⟩⟩
      exact ⟨hd'.carriers, congrArg (_ :: ·) hd'.signed, hd'.handed⟩

end Build

/-! ## Sweeps -/

/-- What a sweep finds: the next height, the window, the lapsed carriers and those that are gone. -/
structure Sifted (A : Answers) (S : SweepAnswers) (d₀ : Desk) (next : Next) (window : Int)
    (lapsed : List (OutPoint × CarrierRec)) (gone : List String) : Prop where
  params : ∃ prm, S.params = .ok prm ∧ prm.window = window
  height : nextBlock A = .ok next
  sifted : siftCarriers A next window d₀.carriers.entries = .ok (lapsed, gone)

/-- The spend of a sweep. -/
def sweepSpend (next : Next) (lapsed : List (OutPoint × CarrierRec)) : CarrierSpend :=
  ⟨.sweep, lapsed.map Prod.fst, UInt32.ofNat (next.height + paymentExpiryDelta), next.height⟩

/-- What a sweep does: it forgets the carriers that are gone, signs a spend of those that lapsed,
hands it to the node, and removes their records when the node has replied. -/
def SweepDid (A : Answers) (S : SweepAnswers) (d₀ d : Desk) : Prop :=
  d₀.Same d ∨ ∃ next window lapsed gone, Sifted A S d₀ next window lapsed gone ∧
    let d₁ := d₀.keep (gone.foldl OrdMap.erase d₀.carriers)
    let d₂ := (d₁.sign (sweepSpend next lapsed)).hand (.spend (lapsed.map Prod.fst))
    (d₁.Same d ∨ d₂.Same d ∨ (∃ txid, S.reply = .ok txid) ∧
      (d₂.keep ((lapsed.map fun c ↦ c.1.display).foldl OrdMap.erase d₁.carriers)).Same d)

theorem did_yedSweepcarriers {env : Env} {A : Answers} {S : SweepAnswers} {d₀ : Desk} :
    Triple d₀.Same (yedSweepcarriers env A S) (fun _ ↦ SweepDid A S d₀) fun _ ↦ SweepDid A S d₀ := by
  refine lift_bind (fun _ ↦ .inl) fun prm hprm ↦ ?_
  refine lift_bind (fun _ ↦ .inl) fun next hnext ↦ ?_
  refine Triple.bind (M := fun d' d ↦ d' = d ∧ d₀.Same d) (Triple.get fun d hd ↦ ⟨rfl, hd⟩) ?_
  rintro d' d ⟨rfl, hd'⟩
  rw [hd'.carriers]
  refine (?_ : Triple d₀.Same _ (fun _ ↦ SweepDid A S d₀) fun _ ↦ SweepDid A S d₀) d' hd'
  refine lift_bind (fun _ ↦ .inl) ?_
  rintro ⟨lapsed, gone⟩ hsift
  have hsifted : Sifted A S d₀ next prm.window lapsed gone := ⟨⟨prm, hprm, rfl⟩, hnext, hsift⟩
  have hforgot : ∀ d, (d₀.keep (gone.foldl OrdMap.erase d₀.carriers)).Same d → SweepDid A S d₀ d :=
    fun d hd ↦ .inr ⟨next, prm.window, lapsed, gone, hsifted, .inl hd⟩
  refine Triple.bind (M := fun _ ↦ (d₀.keep (gone.foldl OrdMap.erase d₀.carriers)).Same) ?_
    fun _ ↦ ?_
  · exact Triple.modify fun d hd ↦
      ⟨congrArg (gone.foldl OrdMap.erase ·) hd.carriers, hd.signed, hd.handed⟩
  refine Triple.ite (fun _ ↦ same_bind Moves.get hforgot fun _ ↦ Triple.pure hforgot) fun _ ↦ ?_
  refine same_bind (same_attempt _) hforgot fun _ ↦ ?_
  refine lift_bind hforgot fun redeems _ ↦ ?_
  refine same_bind (same_onPurse _) hforgot fun dest ↦ ?_
  refine signSpend_bind hforgot ?_
  refine broadcast_bind
    (fun _ d hd ↦ .inr ⟨next, prm.window, lapsed, gone, hsifted, .inr (.inl hd)⟩) ?_
  intro txid hreply _
  refine Triple.bind (M := fun _ ↦ SweepDid A S d₀) ?_ fun _ ↦ ?_
  · refine Triple.modify fun d hd ↦
      .inr ⟨next, prm.window, lapsed, gone, hsifted, .inr (.inr ⟨⟨txid, hreply⟩, ?_⟩)⟩
    exact ⟨congrArg ((lapsed.map fun c ↦ c.1.display).foldl OrdMap.erase ·) hd.carriers, hd.signed,
      hd.handed⟩
  · refine Triple.bind (M := fun _ ↦ SweepDid A S d₀) (Triple.get fun _ h ↦ h) fun _ ↦ ?_
    exact Triple.pure fun _ h ↦ h

/-- The carriers that a sweep takes are confirmed and have lapsed, and the node does not see those it
forgets. -/
theorem siftCarriers_eq_ok {A : Answers} {next : Next} {window : Int}
    {entries : List (String × CarrierRec)} {lapsed : List (OutPoint × CarrierRec)}
    {gone : List String} (h : siftCarriers A next window entries = .ok (lapsed, gone)) :
    (∀ c ∈ lapsed, c.2.refHeight < next.height - window ∧
      (∃ x, nodeCoin A c.1 = .ok (some x) ∧ x.height.isSome) ∧
      ∃ k, (k, c.2) ∈ entries ∧ outpointParam k "carrier" = .ok c.1) ∧
    ∀ k ∈ gone, ∃ r op, (k, r) ∈ entries ∧ outpointParam k "carrier" = .ok op ∧
      nodeCoin A op = .ok none := by
  induction entries generalizing lapsed gone with
  | nil =>
    cases h
    exact ⟨nofun, nofun⟩
  | cons e es ih =>
    obtain ⟨k, r⟩ := e
    obtain ⟨op, hop, h⟩ := Result.bind_eq_ok.mp h
    obtain ⟨c, hc, h⟩ := Result.bind_eq_ok.mp h
    obtain ⟨⟨lapsed', gone'⟩, hrest, h⟩ := Result.bind_eq_ok.mp h
    obtain ⟨hlapsed, hgone⟩ := ih hrest
    have hlapsed' : ∀ c ∈ lapsed', c.2.refHeight < next.height - window ∧
        (∃ x, nodeCoin A c.1 = .ok (some x) ∧ x.height.isSome) ∧
        ∃ k', (k', c.2) ∈ (k, r) :: es ∧ outpointParam k' "carrier" = .ok c.1 := by
      intro c hc
      obtain ⟨hlt, hcoin, k', hk', hparam⟩ := hlapsed c hc
      exact ⟨hlt, hcoin, k', List.mem_cons_of_mem _ hk', hparam⟩
    have hgone' : ∀ k' ∈ gone', ∃ r' op, (k', r') ∈ (k, r) :: es ∧
        outpointParam k' "carrier" = .ok op ∧ nodeCoin A op = .ok none := by
      intro k' hk'
      obtain ⟨r', op, hmem, hparam⟩ := hgone k' hk'
      exact ⟨r', op, List.mem_cons_of_mem _ hmem, hparam⟩
    cases c with
    | none =>
      cases h
      exact ⟨hlapsed', List.forall_mem_cons.mpr ⟨⟨r, op, List.mem_cons_self, hop, hc⟩, hgone'⟩⟩
    | some c =>
      dsimp only at h
      split at h
      · rename_i hcond
        rw [Bool.and_eq_true, decide_eq_true_eq] at hcond
        cases h
        refine ⟨List.forall_mem_cons.mpr ⟨⟨hcond.2, ⟨c, hc, hcond.1⟩, k, ?_, hop⟩, hlapsed'⟩, hgone'⟩
        exact List.mem_cons_self
      · cases h
        exact ⟨hlapsed', hgone'⟩

/-- A recorded carrier that the node shows confirmed, and whose window has lapsed, is swept. -/
theorem mem_lapsed {A : Answers} {next : Next} {window : Int}
    {entries : List (String × CarrierRec)} {lapsed : List (OutPoint × CarrierRec)}
    {gone : List String} (h : siftCarriers A next window entries = .ok (lapsed, gone))
    {op : OutPoint} {r : CarrierRec} (hmem : (op.display, r) ∈ entries)
    (hcoin : ∃ c, nodeCoin A op = .ok (some c) ∧ c.height.isSome)
    (hlapsed : r.refHeight < next.height - window) : (op, r) ∈ lapsed := by
  induction entries generalizing lapsed gone with
  | nil => cases hmem
  | cons e es ih =>
    obtain ⟨k, r'⟩ := e
    obtain ⟨op', hop', h⟩ := Result.bind_eq_ok.mp h
    obtain ⟨c, hc, h⟩ := Result.bind_eq_ok.mp h
    obtain ⟨⟨lapsed', gone'⟩, hrest, h⟩ := Result.bind_eq_ok.mp h
    dsimp only at h
    rcases List.mem_cons.mp hmem with heq | hmem
    · cases heq
      rw [outpointParam_display] at hop'
      cases hop'
      obtain ⟨c', hc', hheight⟩ := hcoin
      obtain rfl := Except.ok.inj (hc.symm.trans hc')
      dsimp only at h
      rw [hheight, decide_eq_true hlapsed, Bool.and_self, if_pos rfl] at h
      cases h
      exact List.mem_cons_self
    · have hlast := ih hrest hmem
      cases c with
      | none =>
        cases h
        exact hlast
      | some c =>
        dsimp only at h
        split at h
        · cases h
          exact List.mem_cons_of_mem _ hlast
        · cases h
          exact hlast

/-! ## The calls -/

/-- A call on carriers, with how its parts end. -/
inductive CarrierCall where
  | build (ask : CarrierAsk) (B : BuildAnswers)
  | mint (F : Finish) (carrier : OutPoint)
  | claim (F : Finish) (passes : Fin 6 → ClaimPass) (selector : Bytes) (carrier : OutPoint)
  | notice (F : Finish) (selector : Bytes) (carrier : OutPoint)
  | equivocation (F : Finish) (bundle : Bytes) (carrier : OutPoint)
  | cancel (K : CancelAnswers)
  | sweep (S : SweepAnswers)

namespace CarrierCall

variable (env : Env) (A : Answers)

/-- What a call leaves. -/
def run : CarrierCall → Desk → Desk
  | build ask B, d => (buildCarrierFrom env A ask B d).2
  | mint F carrier, d => (completeMint A F carrier d).2
  | claim F passes selector carrier, d => (completeClaim A F passes selector carrier d).2
  | notice F selector carrier, d => (completeNotice A F selector carrier d).2
  | equivocation F bundle carrier, d => (completeEquivocation A F bundle carrier d).2
  | cancel K, d => (yedBuildcancel env A K d).2
  | sweep S, d => (yedSweepcarriers env A S d).2

/-- What a call does. -/
def Did : CarrierCall → Desk → Desk → Prop
  | build _ B => BuildDid B
  | mint F carrier => CompletionDid F carrier
  | claim F _ _ carrier => CompletionDid F carrier
  | notice F _ carrier => CompletionDid F carrier
  | equivocation F _ carrier => CompletionDid F carrier
  | cancel K => CancelDid K
  | sweep S => SweepDid A S

variable {env A}

/-- What a part establishes wherever it ends, from where it starts. -/
theorem of_triple {ε α : Type} {x : Proc Desk ε α} {d : Desk} {Q : Desk → Prop}
    (h : Triple d.Same x (fun _ ↦ Q) fun _ ↦ Q) : Q (x d).2 := by
  obtain ⟨hok, herror⟩ := h d (Proc.Path.refl d)
  cases hx : x d with
  | mk r d' =>
    cases r with
    | ok a => exact hok a d' hx
    | error e => exact herror e d' hx

/-- Every call does what is said of it. -/
theorem did (c : CarrierCall) (d : Desk) : c.Did A d (c.run env A d) := by
  cases c with
  | build ask B => exact of_triple did_buildCarrierFrom
  | mint F carrier => exact of_triple did_completeMint
  | claim F passes selector carrier => exact of_triple did_completeClaim
  | notice F selector carrier => exact of_triple did_completeNotice
  | equivocation F bundle carrier => exact of_triple did_completeEquivocation
  | cancel K => exact of_triple did_yedBuildcancel
  | sweep S => exact of_triple did_yedSweepcarriers

end CarrierCall

end Yew.Daemon
