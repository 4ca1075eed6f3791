import Yew.Daemon.CarrierRuns
import Yew.Daemon.SendSound

/-!
# Sweeps and signed transactions

A sweep takes carriers whose window has lapsed.  Mints, claims, notices and reports expire with the
window of their carrier, so none of them can still be mined when its carrier is swept.  A cancel has
no expiry height, and a sweep that the node did not take may be signed anew.

The calls are those of `yewd/wallet/src/mint.rs`, `claim.rs` and `attest.rs`.  A transaction that
was signed can be mined until its expiry height, whether the node took it or not.
-/

namespace Yew.Daemon

open Script Tx Pq Proto Proc Yellowback Build

/-! ## Runs -/

/-- The window of the reference height, as a call reads it. -/
def CarrierCall.params : CarrierCall → Except RpcError CarrierParams
  | build _ B => B.params
  | mint F _ => F.params
  | claim F _ _ _ => F.params
  | notice F _ _ => F.params
  | equivocation F _ _ => F.params
  | cancel K => K.build.params
  | sweep S => S.params

/-- The reply to the carrier that a call sends, if it sends one. -/
def CarrierCall.buildReply : CarrierCall → Option (Except RpcError String)
  | build _ B => some B.reply
  | cancel K => some K.build.reply
  | _ => none

/-- One call as a step. -/
def carrierStep (env : Env) (d : Desk) (e : Answers × CarrierCall) : Unit × Desk :=
  ((), e.2.run env e.1 d)

/-- A step with a constant window and a height of 32 bits, in which a new carrier has a new
outpoint. -/
structure Steady (window : Int) (d : Desk) (e : Answers × CarrierCall) : Prop where
  params : ∀ prm, e.2.params = .ok prm → prm.window = window
  height : ∀ next, nextBlock e.1 = .ok next → next.height < 2 ^ 32
  fresh : ∀ txid op, e.2.buildReply = some (.ok txid) → carrierAt txid = .ok op →
    ∀ t ∈ d.signed, op ∉ t.carriers

/-- A wallet without carriers. -/
structure Desk.Fresh (d : Desk) : Prop where
  carriers : d.carriers = .empty
  signed : d.signed = []

/-! ## The invariant -/

/-- Every key is an outpoint, and what was signed on a recorded carrier, other than a cancel or a
sweep, expires with its window. -/
structure Windowed (window : Int) (d : Desk) : Prop where
  spelled : ∀ k r, d.carriers.get? k = some r → ∃ op : OutPoint, k = op.display
  within : ∀ t ∈ d.signed, t.purpose ≠ .cancel → t.purpose ≠ .sweep → ∀ op ∈ t.carriers, ∀ r,
    d.carriers.get? op.display = some r →
      t.expiryHeight = asU32 (r.refHeight + window) ∧ 0 < r.refHeight + window

section Invariant

variable {window : Int} {d d' : Desk}

theorem Desk.Fresh.windowed (h : d.Fresh) : Windowed window d where
  spelled := by
    intro k r hget
    rw [h.carriers] at hget
    cases hget
  within := by
    intro t ht
    rw [h.signed] at ht
    cases ht

theorem Windowed.same (h : Windowed window d) (hsame : d.Same d') : Windowed window d' where
  spelled := by
    rw [hsame.carriers]
    exact h.spelled
  within := by
    rw [hsame.carriers, hsame.signed]
    exact h.within

/-- Fewer records and the same signatures. -/
theorem Windowed.keep (h : Windowed window d) {carriers : OrdMap String CarrierRec}
    (hsub : ∀ k r, carriers.get? k = some r → d.carriers.get? k = some r) :
    Windowed window (d.keep carriers) where
  spelled k r hget := h.spelled k r (hsub k r hget)
  within t ht hcancel hsweep op hop r hget := h.within t ht hcancel hsweep op hop r (hsub _ r hget)

/-- A new record at a new outpoint. -/
theorem Windowed.insert (h : Windowed window d) {op : OutPoint} {r : CarrierRec}
    (hfresh : ∀ t ∈ d.signed, op ∉ t.carriers) :
    Windowed window (d.keep (d.carriers.insert op.display r)) where
  spelled := by
    intro k r' hget
    rw [Desk.keep, OrdMap.get?_insert] at hget
    split at hget
    · rename_i hk
      exact ⟨op, hk.symm⟩
    · exact h.spelled k r' hget
  within := by
    intro t ht hcancel hsweep op' hop' r' hget
    rw [Desk.keep, OrdMap.get?_insert, if_neg] at hget
    · exact h.within t ht hcancel hsweep op' hop' r' hget
    · intro heq
      obtain rfl := SetAct.display_injective heq
      exact hfresh t ht hop'

theorem Windowed.hand (h : Windowed window d) (tx : Handed) : Windowed window (d.hand tx) :=
  ⟨h.spelled, h.within⟩

/-- A signature of a cancel or a sweep. -/
theorem Windowed.sign (h : Windowed window d) {t : CarrierSpend}
    (ht : t.purpose = .cancel ∨ t.purpose = .sweep) : Windowed window (d.sign t) where
  spelled := h.spelled
  within := by
    intro t' ht' hcancel hsweep
    rcases List.mem_cons.mp ht' with rfl | ht'
    · exact (ht.elim hcancel hsweep).elim
    · exact h.within t' ht' hcancel hsweep

/-- Signatures within the window of a recorded carrier. -/
theorem Windowed.signAll (h : Windowed window d) {ts : List CarrierSpend} {carrier : OutPoint}
    (hts : ∀ t ∈ ts, t.Within window carrier d) : Windowed window (d.signAll ts) where
  spelled := h.spelled
  within := by
    intro t ht hcancel hsweep op hop r hget
    rcases List.mem_append.mp ht with ht | ht
    · have hw := hts t ht
      rw [hw.carriers, List.mem_singleton] at hop
      obtain ⟨r', hget', hexpiry, hle⟩ := hw.window
      obtain rfl := hop
      obtain rfl := Option.some.inj (hget'.symm.trans hget)
      have hpos : (0 : Int) < t.height := Int.natCast_pos.mpr hw.height
      exact ⟨hexpiry, hpos.trans_le hle⟩
    · exact h.within t ht hcancel hsweep op hop r hget

theorem sub_foldl_erase (ks : List String) (m : OrdMap String CarrierRec) (k : String)
    (r : CarrierRec) (h : (ks.foldl OrdMap.erase m).get? k = some r) : m.get? k = some r := by
  rw [OrdMap.get?_foldl_erase] at h
  split at h
  · cases h
  · exact h

end Invariant

/-! ## One call -/

section Step

variable {window : Int} {d d' : Desk} {A : Answers}

theorem Windowed.build (h : Windowed window d) {B : BuildAnswers} (hdid : BuildDid B d d')
    (hfresh : ∀ txid op, B.reply = .ok txid → carrierAt txid = .ok op →
      ∀ t ∈ d.signed, op ∉ t.carriers) : Windowed window d' := by
  cases hdid with
  | nothing hsame => exact h.same hsame
  | handed r hsame _ => exact (h.hand _).same hsame
  | recorded r txid op hreply hop hsame =>
    exact ((h.hand (.carrier r)).insert (hfresh txid op hreply hop)).same hsame

theorem Windowed.complete (h : Windowed window d) {F : Finish} {carrier : OutPoint}
    (hdid : CompletionDid F carrier d d')
    (hparams : ∀ prm, F.params = .ok prm → prm.window = window) : Windowed window d' := by
  obtain ⟨ts, hts, hout⟩ := hdid.out
  have hsigned : Windowed window (d.signAll ts) := by
    by_cases hnil : ts = []
    · subst hnil
      exact h
    · obtain ⟨prm, hprm, hwithin⟩ := hts hnil
      rw [hparams prm hprm] at hwithin
      exact h.signAll hwithin
  rcases hout with hsame | hsame | ⟨-, hsame⟩
  · exact hsigned.same hsame
  · exact (hsigned.hand _).same hsame
  · exact ((hsigned.hand _).keep (sub_foldl_erase [carrier.display] d.carriers)).same hsame

theorem Windowed.cancel (h : Windowed window d) {K : CancelAnswers} (hdid : CancelDid K d d')
    (hfresh : ∀ txid op, K.build.reply = .ok txid → carrierAt txid = .ok op →
      ∀ t ∈ d.signed, op ∉ t.carriers) : Windowed window d' := by
  obtain ⟨d₁, hbuild, hsame | ⟨t, ht, hsame⟩⟩ := hdid
  · exact (h.build hbuild hfresh).same hsame
  · exact ((h.build hbuild hfresh).sign (.inl ht)).same hsame

theorem Windowed.sweep (h : Windowed window d) {S : SweepAnswers} (hdid : SweepDid A S d d') :
    Windowed window d' := by
  rcases hdid with hsame | ⟨next, w, lapsed, gone, -, hsame | hsame | ⟨-, hsame⟩⟩
  · exact h.same hsame
  · exact (h.keep (sub_foldl_erase gone d.carriers)).same hsame
  · exact (((h.keep (sub_foldl_erase gone d.carriers)).sign (.inr rfl)).hand _).same hsame
  · exact ((((h.keep (sub_foldl_erase gone d.carriers)).sign (.inr rfl)).hand _).keep
      (sub_foldl_erase _ _)).same hsame

theorem Windowed.step (h : Windowed window d) {env : Env} {e : Answers × CarrierCall}
    (hsteady : Steady window d e) : Windowed window (carrierStep env d e).2 := by
  obtain ⟨A, c⟩ := e
  have hdid := @CarrierCall.did env A c d
  cases c with
  | build ask B => exact h.build hdid fun txid op hreply ↦ hsteady.fresh txid op (congrArg some hreply)
  | mint F carrier => exact h.complete hdid hsteady.params
  | claim F passes selector carrier => exact h.complete hdid hsteady.params
  | notice F selector carrier => exact h.complete hdid hsteady.params
  | equivocation F bundle carrier => exact h.complete hdid hsteady.params
  | cancel K => exact h.cancel hdid fun txid op hreply ↦ hsteady.fresh txid op (congrArg some hreply)
  | sweep S => exact h.sweep hdid

end Step

/-! ## What a sweep undercuts -/

/-- A transaction that can no longer be mined. -/
def CarrierSpend.Expired (t : CarrierSpend) (height : Nat) : Prop :=
  t.expiryHeight ≠ 0 ∧ t.expiryHeight.toNat < height

/-- Two transactions with a carrier in common. -/
def CarrierSpend.Meets (t t' : CarrierSpend) : Prop := ∃ op ∈ t.carriers, op ∈ t'.carriers

theorem Windowed.run {env : Env} {window : Int} {d₀ d : Desk}
    {h : List ((Answers × CarrierCall) × Unit)} (hd₀ : d₀.Fresh)
    (run : Trace (carrierStep env) (Steady window) d₀ h d) : Windowed window d :=
  @Trace.invariant _ _ _ _ _ _ _ _ (fun _ ↦ Windowed window) run hd₀.windowed fun _ _ _ hw g ↦ hw.step g

/-- What was signed on a lapsed carrier, other than a cancel or a sweep, has expired. -/
theorem Windowed.expired {window : Int} {d : Desk} (h : Windowed window d) {next : Next}
    (hnext : next.height < 2 ^ 32) {t : CarrierSpend} (ht : t ∈ d.signed)
    (hcancel : t.purpose ≠ .cancel) (hsweep : t.purpose ≠ .sweep) {op : OutPoint}
    (hop : op ∈ t.carriers) {r : CarrierRec} (hget : d.carriers.get? op.display = some r)
    (hlapsed : r.refHeight < next.height - window) : t.Expired next.height := by
  obtain ⟨hexpiry, hpos⟩ := h.within t ht hcancel hsweep op hop r hget
  have hval : (t.expiryHeight.toNat : Int) = r.refHeight + window := by
    rw [hexpiry]
    exact toNat_asU32 hpos.le (by omega)
  refine ⟨?_, by omega⟩
  intro hzero
  rw [hzero] at hval
  exact hpos.ne hval

/-- A recorded carrier that the node shows confirmed and whose window has lapsed at the next height. -/
def Desk.Lapsed (d : Desk) (A : Answers) (window : Int) (next : Next) (op : OutPoint) : Prop :=
  ∃ r, d.carriers.get? op.display = some r ∧ r.refHeight < next.height - window ∧
    ∃ c, nodeCoin A op = .ok (some c) ∧ c.height.isSome

/-- A sweep takes the carriers that have lapsed. -/
theorem Windowed.mem_lapsed_iff {window : Int} {d : Desk} (h : Windowed window d) {A : Answers}
    {next : Next} {lapsed : List (OutPoint × CarrierRec)} {gone : List String}
    (hsift : siftCarriers A next window d.carriers.entries = .ok (lapsed, gone)) {op : OutPoint} :
    op ∈ lapsed.map Prod.fst ↔ d.Lapsed A window next op := by
  constructor
  · intro hop
    obtain ⟨⟨op, r⟩, hc, rfl⟩ := List.mem_map.mp hop
    obtain ⟨hlapsed, hcoin, k, hk, hparam⟩ := (siftCarriers_eq_ok hsift).1 _ hc
    have hget := OrdMap.mem_entries.mp hk
    obtain ⟨op', rfl⟩ := h.spelled k r hget
    rw [outpointParam_display] at hparam
    obtain rfl := Except.ok.inj hparam
    exact ⟨r, hget, hlapsed, hcoin⟩
  · rintro ⟨r, hget, hlapsed, hcoin⟩
    exact List.mem_map_of_mem (mem_lapsed hsift (OrdMap.mem_entries.mpr hget) hcoin hlapsed)

/-- **Sweeps and signed transactions.**  In every run, a sweep undercuts nothing that can still be
mined if and only if the cancels and the sweeps that were signed on lapsed carriers have expired. -/
theorem sweep_spares_iff {env : Env} {window : Int} {d₀ d : Desk}
    {h : List ((Answers × CarrierCall) × Unit)} (hd₀ : d₀.Fresh)
    (run : Trace (carrierStep env) (Steady window) d₀ h d) {A : Answers} {S : SweepAnswers}
    (hsteady : Steady window d (A, .sweep S)) {spend : CarrierSpend}
    (hsigned : (carrierStep env d (A, .sweep S)).2.signed = spend :: d.signed) :
    (∀ t ∈ d.signed, spend.Meets t → t.Expired spend.height) ↔
      ∀ next, nextBlock A = .ok next → ∀ t ∈ d.signed, t.purpose = .cancel ∨ t.purpose = .sweep →
        ∀ op ∈ t.carriers, d.Lapsed A window next op → t.Expired next.height := by
  have hw := Windowed.run hd₀ run
  obtain ⟨next, w, lapsed, gone, hsifted, rfl⟩ : ∃ next w lapsed gone,
      Sifted A S d next w lapsed gone ∧ spend = sweepSpend next lapsed := by
    have hsame {ts : List CarrierSpend} (hts : ts = spend :: ts) : False :=
      absurd (congrArg List.length hts) (by simp)
    rcases @CarrierCall.did env A (.sweep S) d with hdid | ⟨next, w, lapsed, gone, hsifted, hout⟩
    · exact (hsame (hdid.signed.symm.trans hsigned)).elim
    · refine ⟨next, w, lapsed, gone, hsifted, ?_⟩
      rcases hout with hdid | hdid | ⟨-, hdid⟩
      · exact (hsame (hdid.signed.symm.trans hsigned)).elim
      · exact (List.cons.inj (hdid.signed.symm.trans hsigned)).1.symm
      · exact (List.cons.inj (hdid.signed.symm.trans hsigned)).1.symm
  obtain ⟨prm, hprm, rfl⟩ := hsifted.params
  obtain rfl : prm.window = window := hsteady.params prm hprm
  have hmeets (t : CarrierSpend) : (sweepSpend next lapsed).Meets t ↔
      ∃ op ∈ t.carriers, d.Lapsed A prm.window next op := by
    constructor
    · rintro ⟨op, hop, hopt⟩
      exact ⟨op, hopt, (hw.mem_lapsed_iff hsifted.sifted).mp hop⟩
    · rintro ⟨op, hopt, hop⟩
      exact ⟨op, (hw.mem_lapsed_iff hsifted.sifted).mpr hop, hopt⟩
  constructor
  · intro hall next' hnext t ht _ op hopt hop
    obtain rfl := Except.ok.inj (hsifted.height.symm.trans hnext)
    exact hall t ht ((hmeets t).mpr ⟨op, hopt, hop⟩)
  · intro hthese t ht hm
    obtain ⟨op, hopt, hop⟩ := (hmeets t).mp hm
    by_cases hcancel : t.purpose = .cancel
    · exact hthese next hsifted.height t ht (.inl hcancel) op hopt hop
    by_cases hsweep : t.purpose = .sweep
    · exact hthese next hsifted.height t ht (.inr hsweep) op hopt hop
    -- the others expire with the window of their carrier
    obtain ⟨r, hget, hlapsed, -⟩ := hop
    exact hw.expired (hsteady.height next hsifted.height) ht hcancel hsweep hopt hget hlapsed

/-! ### A cancel that is undercut -/

/-- Hashes that keep the front of what they hash, and every point is on the curve. -/
def stampCrypto : Crypto := { listCrypto with pointOk := fun _ ↦ true }

/-- The key of a chain at an index. -/
def stampKey (chain i : Nat) : Arr 33 :=
  ⟨2 :: UInt8.ofNat chain :: UInt8.ofNat i :: List.replicate 30 0, rfl⟩

@[inherit_doc stampKey]
def stampEnv : Env := { noteEnv with C := stampCrypto, child := fun chain i ↦ .ok (stampKey chain i) }

/-- The script of the first receive key. -/
def stampScript : Bytes := p2pkhScript (stampCrypto.hash160 (stampKey 0 0).toList)

/-- A wallet with a coin of 100,000 zatoshi. -/
def stampDesk : Desk :=
  ⟨⟨{ newWallet with
      issued := ⟨1, 0, .empty⟩
      book := (KeyBook.extend stampCrypto stampEnv.child external 3 .empty).2
      coins := [⟨txidHex payTxid, 0, 100000, stampScript, .t external 0, some 1, false, false⟩]
      tip := some ⟨1, "paid"⟩ }, .empty, false⟩, .empty, [], []⟩

/-- The node at a height.  It sees the coin. -/
def stampAnswers (blocks : Nat) : Answers :=
  { plainAnswers with
    blocks := .ok blocks
    txout := fun _ ↦ .ok (some ⟨some 100000, .ok stampScript, 1, "paid", false⟩) }

/-- The transaction of the carrier. -/
def stampTxid : Arr 32 := List.Vector.replicate 32 7

/-- A build that goes through, with a window of forty blocks. -/
def stampBuild : BuildAnswers :=
  ⟨.ok ⟨1000, 40⟩, none, none, none, none, .ok (txidHex stampTxid), none⟩

/-- A cancel with a new carrier at height 1. -/
def stampCancel : CarrierCall := .cancel ⟨none, [1], 1, .ok none, stampBuild, none, none⟩

/-- A sweep. -/
def stampSweep : SweepAnswers := ⟨.ok ⟨1000, 40⟩, none, none, none, .ok (txidHex payTxid), none⟩

/-- A build of the same carrier. -/
def stampCarrier : CarrierCall := .build ⟨[1], 1, [], none, false⟩ stampBuild

/-- A mint on it whose send fails. -/
def stampMint : CarrierCall :=
  .mint ⟨none, .ok ⟨1000, 40⟩, none, none, none, .error (.node ⟨-28, "lost"⟩), none⟩ ⟨stampTxid, 0⟩

theorem stampDesk_fresh : stampDesk.Fresh := ⟨rfl, rfl⟩

/-- What the sample calls read, and the outpoint they build. -/
theorem steady_of_stamp {d : Desk} {blocks : Nat} {c : CarrierCall} (hblocks : blocks + 1 < 2 ^ 32)
    (hparams : c.params = .ok ⟨1000, 40⟩) (hbuild : c.buildReply = none ∨ d.signed = []) :
    Steady 40 d (stampAnswers blocks, c) where
  params := by
    intro prm hprm
    rw [hparams] at hprm
    cases hprm
    rfl
  height := by
    rintro next ⟨⟩
    exact hblocks
  fresh := by
    intro txid op hreply _ t ht
    rcases hbuild with hnone | hnil
    · rw [hnone] at hreply
      cases hreply
    · rw [hnil] at ht
      cases ht

/-- The wallet after the lost mint, and after the cancel. -/
def stampLost : Desk := (carrierStep stampEnv
  (carrierStep stampEnv stampDesk (stampAnswers 1, stampCarrier)).2 (stampAnswers 1, stampMint)).2

@[inherit_doc stampLost]
def stampOpen : Desk := (carrierStep stampEnv stampDesk (stampAnswers 1, stampCancel)).2

/-- At height 100 the mint of height 41 has expired, and its carrier is swept. -/
theorem sweep_spares_mint : ∃ spend,
    (carrierStep stampEnv stampLost (stampAnswers 99, .sweep stampSweep)).2.signed =
      spend :: stampLost.signed ∧
    ∀ t ∈ stampLost.signed, spend.Meets t → t.Expired spend.height := by
  obtain ⟨hlost, hswept⟩ : stampLost.signed = [⟨.mint, [⟨stampTxid, 0⟩], 41, 2⟩] ∧
      (carrierStep stampEnv stampLost (stampAnswers 99, .sweep stampSweep)).2.signed =
        [⟨.sweep, [⟨stampTxid, 0⟩], 120, 100⟩, ⟨.mint, [⟨stampTxid, 0⟩], 41, 2⟩] := by
    decide +kernel
  have hspend : (carrierStep stampEnv stampLost (stampAnswers 99, .sweep stampSweep)).2.signed =
      ⟨.sweep, [⟨stampTxid, 0⟩], 120, 100⟩ :: stampLost.signed := by rw [hswept, hlost]
  have hstart : Trace (carrierStep stampEnv) (Steady 40) stampDesk [] stampDesk := .start
  obtain ⟨h, hrun⟩ : ∃ h, Trace (carrierStep stampEnv) (Steady 40) stampDesk h stampLost :=
    ⟨_, (hstart.step (stampAnswers 1, stampCarrier) (steady_of_stamp (by decide) rfl (.inr rfl))).step
      (stampAnswers 1, stampMint) (steady_of_stamp (by decide) rfl (.inl rfl))⟩
  refine ⟨_, hspend, ?_⟩
  refine (sweep_spares_iff stampDesk_fresh hrun (steady_of_stamp (by decide) rfl (.inl rfl))
    hspend).mpr ?_
  intro next _ t ht hpurpose
  rw [hlost, List.mem_singleton] at ht
  rw [ht] at hpurpose
  exact absurd hpurpose (by decide)

/-- A cancel signed at height 2 has no expiry height.  At height 100 its carrier is swept. -/
theorem not_sweep_spares_cancel : stampDesk.Fresh ∧
    (∃ h, Trace (carrierStep stampEnv) (Steady 40) stampDesk h stampOpen) ∧
    Steady 40 stampOpen (stampAnswers 99, .sweep stampSweep) ∧ ∃ spend,
      (carrierStep stampEnv stampOpen (stampAnswers 99, .sweep stampSweep)).2.signed =
        spend :: stampOpen.signed ∧
      ∃ t ∈ stampOpen.signed, spend.Meets t ∧ ¬ t.Expired spend.height := by
  obtain ⟨hopen, hswept⟩ : stampOpen.signed = [⟨.cancel, [⟨stampTxid, 0⟩], 0, 2⟩] ∧
      (carrierStep stampEnv stampOpen (stampAnswers 99, .sweep stampSweep)).2.signed =
        [⟨.sweep, [⟨stampTxid, 0⟩], 120, 100⟩, ⟨.cancel, [⟨stampTxid, 0⟩], 0, 2⟩] := by
    decide +kernel
  have hstart : Trace (carrierStep stampEnv) (Steady 40) stampDesk [] stampDesk := .start
  refine ⟨stampDesk_fresh, ⟨_, hstart.step (stampAnswers 1, stampCancel)
    (steady_of_stamp (by decide) rfl (.inr rfl))⟩, steady_of_stamp (by decide) rfl (.inl rfl), ?_⟩
  refine ⟨⟨.sweep, [⟨stampTxid, 0⟩], 120, 100⟩, by rw [hswept, hopen], _,
    by rw [hopen]; exact List.mem_singleton_self _, ⟨⟨stampTxid, 0⟩, ?_, ?_⟩, fun h ↦ h.1 rfl⟩
  · exact List.mem_singleton_self _
  · exact List.mem_singleton_self _

end Yew.Daemon
