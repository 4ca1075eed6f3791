import Yew.Build.PlanSound
import Yew.Daemon.YedSend

/-!
# Vault spends that pay a Sapling address

The collateral of such a spend is a Sapling note, so the transparent outputs are those of the plan less
its main output, in an order of their own: the attestors must not be paid by output 1 here either.
What the payload names is read off that order.

The plans are those of `Yew.Build.Slots`; only the main output leaves them, as a note.

## Source

* `yewd/wallet/src/zfund.rs`: `sapling_spend_vout`
-/

namespace Yew.Daemon

open Build Script Tx Coins Yellowback

/-! ## The order -/

/-- The order of `sapling_spend_vout`: the change, the payload and the pool fee, then the attestors'
fee and the residual, or the residual first where the attestors would be paid by output 1.  Without a
residual there is no such order. -/
def saplingOrder (change fee attest residual : Bool) : Option (List Slot) :=
  let front := (if change then [.change] else []) ++ [Slot.payload] ++ (if fee then [.fee] else [])
  if attest && !fee && !change then
    if !residual then none else some (front ++ [.residual, .attest])
  else some (front ++ (if attest then [.attest] else []) ++ (if residual then [.residual] else []))

/-- The slots of the order. -/
def saplingSlots (change fee attest residual : Bool) : List Slot :=
  (if fee then [.fee] else []) ++ (if attest then [.attest] else []) ++
    (if residual then [.residual] else []) ++ (if change then [.change] else []) ++ [.payload]

theorem saplingOrder_spec {change fee attest residual : Bool} {order : List Slot}
    (h : saplingOrder change fee attest residual = some order) :
    order.Perm (saplingSlots change fee attest residual) ∧ order.Nodup ∧
      order[1]? ≠ some .attest := by
  cases change <;> cases fee <;> cases attest <;> cases residual <;> cases h <;> decide

theorem saplingOrder_eq_none_iff {change fee attest residual : Bool} :
    saplingOrder change fee attest residual = none ↔
      attest = true ∧ fee = false ∧ change = false ∧ residual = false := by
  cases change <;> cases fee <;> cases attest <;> cases residual <;> decide

/-! ## The outputs -/

/-- `sapling_spend_vout`. -/
def saplingSpendVout (shape : VaultSpendShape) (plan : VaultSpendPlan) :
    Except RpcError (List Out) :=
  if !shape.withPayload then .ok []
  else match saplingOrder plan.changeVout.isSome plan.feeVout.isSome plan.attestFeeVout.isSome
      plan.residualVout.isSome with
    | none => .error (buildError ("attest-fee-shape: a Sapling-paid claim with no pool fee, " ++
        "no YED change and no residual cannot place the attestor fee; pass a transparent destination"))
    | some order =>
      let voutOf (s : Slot) := order.findIdx? (· = s)
      let assignments : List Assignment := match voutOf .change with
        | none => []
        | some i => [⟨UInt8.ofNat i, UInt32.ofNat shape.changeCents⟩]
      match encode (.redeem shape.refHeight (voutOrNone (voutOf .fee)) (voutOrNone (voutOf .attest))
          assignments) with
      | none => .error ⟨-32603, "cannot encode the redeem payload"⟩
      | some payload => .ok (order.map (shape.out payload))

/-- The scripts of the outputs that the plan has are no `OP_RETURN`. -/
structure CleanOuts (s : VaultSpendShape) (p : VaultSpendPlan) : Prop where
  payee : p.feeVout.isSome → isOpReturn (s.payeeScript.getD []) = false
  change : p.changeVout.isSome → isOpReturn s.changeScript = false
  attest : p.attestFeeVout.isSome → isOpReturn (s.attestScript.getD []) = false
  owner : p.residualVout.isSome → isOpReturn s.ownerScript = false

/-- What the outputs of a spend to a Sapling address are. -/
structure SaplingOuts (s : VaultSpendShape) (p : VaultSpendPlan) (vout : List Out) : Prop where
  /-- The payload names the outputs of the plan, and output 1 never as the attestors'; it is the only
  `OP_RETURN` where no script of the plan is one. -/
  named : ∃ payload feeVout attestFeeVout as,
    Indexes vout payload s.refHeight (p.feeVout.map fun _ ↦ s.payeeScript.getD []) s.feeZat
      (p.attestFeeVout.map fun _ ↦ s.attestScript.getD []) s.attestFeeZat
      (if p.changeVout.isSome then s.changeCents else 0) s.changeScript feeVout attestFeeVout as ∧
    (CleanOuts s p → opReturns (vout.map Out.toTxOut) = 1 ∧
      ∀ tx : Transaction, tx.vout = vout.map Out.toTxOut →
        ∃ i, findPayload tx = some ⟨.redeem s.refHeight feeVout attestFeeVout as, i⟩) ∧
    (s.changeCents < 2 ^ 32 → assigned as = if p.changeVout.isSome then s.changeCents else 0) ∧
    -- the outputs are the plan's and the payload's, each once
    vout.Perm ((if p.feeVout.isSome then [⟨s.feeZat, s.payeeScript.getD []⟩] else []) ++
      (if p.attestFeeVout.isSome then [⟨s.attestFeeZat, s.attestScript.getD []⟩] else []) ++
      (if p.residualVout.isSome then [⟨s.residualZat, s.ownerScript⟩] else []) ++
      (if p.changeVout.isSome then [⟨tokenZat, s.changeScript⟩] else []) ++
      [⟨0, payloadScript payload⟩])

section Proofs

variable {s : VaultSpendShape} {p : VaultSpendPlan}

/-- The layout of an order. -/
def saplingLayout {change fee attest residual : Bool} {order : List Slot}
    (h : saplingOrder change fee attest residual = some order) : Layout where
  order := order
  nodup := (saplingOrder_spec h).2.1
  payload_mem := (saplingOrder_spec h).1.mem_iff.mpr (by simp [saplingSlots])
  attest_ne := (saplingOrder_spec h).2.2

/-- Whether a payload over a layout is encoded depends on the cents of the change only. -/
theorem encode_redeemPayload_isSome {l : Layout} {refHeight : UInt32} {changeCents : Nat} :
    (encode (l.redeemPayload refHeight changeCents)).isSome ↔
      (Slot.change ∈ l.order → UInt32.ofNat changeCents ≠ 0) := by
  rw [(payload_codec _ []).2.1]
  change validAssignments (l.redeemPayload refHeight changeCents).assignments _ = true ↔ _
  rcases l.assignments_redeemPayload refHeight changeCents with
    ⟨hno, hnil⟩ | ⟨hyes, a, hsingle, hcents, -⟩
  · rw [hnil]
    exact iff_of_true (by decide) fun h ↦ absurd h hno
  · rw [hsingle]
    simp [validAssignments, hyes, hcents, maxRedeemAssignments]

/-- An answer with a payload is the outputs over a layout. -/
theorem saplingSpendVout_eq_ok {vout : List Out} (hpayload : s.withPayload = true)
    (h : saplingSpendVout s p = .ok vout) :
    ∃ (l : Layout) (payload : Bytes), l.order.Perm (saplingSlots p.changeVout.isSome
        p.feeVout.isSome p.attestFeeVout.isSome p.residualVout.isSome) ∧
      encode (l.redeemPayload s.refHeight s.changeCents) = some payload ∧
      vout = l.order.map (s.out payload) := by
  rw [saplingSpendVout, hpayload, Bool.not_true, if_neg Bool.false_ne_true] at h
  split at h
  · cases h
  · rename_i order horder
    dsimp only at h
    split at h
    · cases h
    · rename_i payload hencode
      cases h
      exact ⟨saplingLayout horder, payload, (saplingOrder_spec horder).1, hencode, rfl⟩

/-- The payload says the same of no change, whatever the cents. -/
theorem redeemPayload_congr {l : Layout} {refHeight : UInt32} {m n : Nat}
    (h : Slot.change ∈ l.order → m = n) :
    l.redeemPayload refHeight m = l.redeemPayload refHeight n := by
  unfold Layout.redeemPayload
  cases hc : l.indexOf .change with
  | none => rfl
  | some i => rw [h (Layout.mem_of_indexOf hc)]

theorem mem_saplingSlots {change fee attest residual : Bool} :
    (.fee ∈ saplingSlots change fee attest residual ↔ fee = true) ∧
      (.attest ∈ saplingSlots change fee attest residual ↔ attest = true) ∧
      (.residual ∈ saplingSlots change fee attest residual ↔ residual = true) ∧
      (.change ∈ saplingSlots change fee attest residual ↔ change = true) ∧
      .main ∉ saplingSlots change fee attest residual ∧
      .fundChange ∉ saplingSlots change fee attest residual := by
  cases change <;> cases fee <;> cases attest <;> cases residual <;> decide

theorem saplingOuts_of_ok {vout : List Out} (hpayload : s.withPayload = true)
    (h : saplingSpendVout s p = .ok vout) : SaplingOuts s p vout := by
  obtain ⟨l, payload, hperm, hencode, rfl⟩ := saplingSpendVout_eq_ok hpayload h
  obtain ⟨hfee, hattest, hresidual, hchange, hmain, hfund⟩ := @mem_saplingSlots p.changeVout.isSome
    p.feeVout.isSome p.attestFeeVout.isSome p.residualVout.isSome
  rw [← hperm.mem_iff] at hfee hattest hresidual hchange hmain hfund
  have hcents : Slot.change ∈ l.order →
      s.changeCents = if p.changeVout.isSome then s.changeCents else 0 := by
    intro hmem
    rw [if_pos (hchange.mp hmem)]
  rw [redeemPayload_congr hcents] at hencode
  have hpos : Slot.change ∈ l.order ↔ 0 < if p.changeVout.isSome then s.changeCents else 0 := by
    constructor
    · intro hmem
      have hne := encode_redeemPayload_isSome.mp (Option.isSome_iff_exists.mpr ⟨_, hencode⟩) hmem
      refine Nat.pos_of_ne_zero fun hzero ↦ hne ?_
      rw [hzero]
      rfl
    · intro hlt
      by_contra hno
      rw [hchange, Bool.not_eq_true] at hno
      rw [hno] at hlt
      exact Nat.lt_irrefl 0 hlt
  have hother (hclean : CleanOuts s p) : ∀ slot ∈ l.order, slot ≠ .payload →
      isOpReturn (s.out payload slot).scriptPubkey = false := by
    intro slot hslot hne
    cases slot with
    | main => exact absurd hslot hmain
    | fee => exact hclean.payee (hfee.mp hslot)
    | change => exact hclean.change (hchange.mp hslot)
    | attest => exact hclean.attest (hattest.mp hslot)
    | residual => exact hclean.owner (hresidual.mp hslot)
    | payload => exact absurd rfl hne
    | fundChange => exact absurd hslot hfund
  have hindexes : Indexes (l.order.map (s.out payload)) payload s.refHeight
      (p.feeVout.map fun _ ↦ s.payeeScript.getD []) s.feeZat
      (p.attestFeeVout.map fun _ ↦ s.attestScript.getD []) s.attestFeeZat
      (if p.changeVout.isSome then s.changeCents else 0) s.changeScript
      (voutOrNone (l.indexOf .fee)) (voutOrNone (l.indexOf .attest)) (l.redeemPayload s.refHeight
        (if p.changeVout.isSome then s.changeCents else 0)).assignments := by
    refine l.indexes_order ?_ ?_ hpos ?_ ?_ rfl hencode
    · rw [hfee, Option.isSome_map]
    · rw [hattest, Option.isSome_map]
    · intro script hscript
      obtain ⟨-, -, rfl⟩ := Option.map_eq_some_iff.mp hscript
      rfl
    · intro script hscript
      obtain ⟨-, -, rfl⟩ := Option.map_eq_some_iff.mp hscript
      rfl
  refine ⟨⟨payload, _, _, _, hindexes, fun hclean ↦ ?_, ?_, ?_⟩⟩
  · have hnames := l.names_order hindexes rfl (hother hclean) hencode
    exact ⟨hnames.single, hnames.found⟩
  · intro hfits
    refine Layout.assigned_redeemPayload hpos ?_
    split <;> omega
  · refine (hperm.map _).trans (List.Perm.of_eq ?_)
    have hif : ∀ (b : Bool) (slot : Slot), (if b then [slot] else []).map (s.out payload) =
        if b then [s.out payload slot] else [] := by
      intro b slot
      cases b <;> rfl
    simp only [saplingSlots, List.map_append, hif]
    rfl

/-- The index of the change in a plan with a payload. -/
theorem changeVout_of_planVaultSpend (hpayload : s.withPayload = true)
    (h : planVaultSpend s = .ok p) : p.changeVout = s.slots.layout.indexOf .change := by
  rw [planVaultSpend, Result.guard_eq_ok, hpayload, Bool.not_true, if_neg Bool.false_ne_true] at h
  obtain ⟨-, h⟩ := h
  dsimp only at h
  split at h
  · cases h
  · cases h
    rfl

/-- A plan of `plan_vault_spend` has cents for its change. -/
theorem changeCents_ne_of_planVaultSpend (hpayload : s.withPayload = true)
    (h : planVaultSpend s = .ok p) (hchange : p.changeVout.isSome = true) :
    UInt32.ofNat s.changeCents ≠ 0 := by
  obtain ⟨-, hencode, -⟩ := planVaultSpend_eq_ok hpayload h
  have hsome : (encode (s.slots.layout.redeemPayload s.refHeight s.changeCents)).isSome := by
    rw [show s.slots.layout.redeemPayload s.refHeight s.changeCents =
      s.slots.redeemPayload s.refHeight s.changeCents from rfl, hencode]
    rfl
  rw [changeVout_of_planVaultSpend hpayload h] at hchange
  obtain ⟨i, hi⟩ := Option.isSome_iff_exists.mp hchange
  exact encode_redeemPayload_isSome.mp hsome (Layout.mem_of_indexOf hi)

/-- A plan of `plan_vault_spend` is refused exactly where its attestors' fee has no place. -/
theorem saplingSpendVout_isOk_iff (h : planVaultSpend s = .ok p) :
    (saplingSpendVout s p).isOk = false ↔ s.withPayload = true ∧ p.attestFeeVout.isSome = true ∧
      p.feeVout = none ∧ p.changeVout = none ∧ p.residualVout = none := by
  cases hpayload : s.withPayload with
  | false => simp [saplingSpendVout, hpayload, Except.isOk, Except.toBool]
  | true =>
    rw [saplingSpendVout, hpayload, Bool.not_true, if_neg Bool.false_ne_true]
    cases horder : saplingOrder p.changeVout.isSome p.feeVout.isSome p.attestFeeVout.isSome
      p.residualVout.isSome with
    | none =>
      obtain ⟨hattest, hfee, hchange, hresidual⟩ := saplingOrder_eq_none_iff.mp horder
      refine iff_of_true rfl ⟨rfl, hattest, ?_, ?_, ?_⟩
      · simpa using hfee
      · simpa using hchange
      · simpa using hresidual
    | some order =>
      have hchange : Slot.change ∈ (saplingLayout horder).order ↔ p.changeVout.isSome = true :=
        (saplingOrder_spec horder).1.mem_iff.trans mem_saplingSlots.2.2.2.1
      have hsome : (encode ((saplingLayout horder).redeemPayload s.refHeight s.changeCents)).isSome :=
        encode_redeemPayload_isSome.mpr fun hmem ↦
          changeCents_ne_of_planVaultSpend hpayload h (hchange.mp hmem)
      obtain ⟨payload, hencode⟩ := Option.isSome_iff_exists.mp hsome
      refine iff_of_false ?_ ?_
      · have hsame : (saplingLayout horder).redeemPayload s.refHeight s.changeCents =
            .redeem s.refHeight (voutOrNone (order.findIdx? (· = .fee)))
              (voutOrNone (order.findIdx? (· = .attest)))
              (match order.findIdx? (· = .change) with
                | none => []
                | some i => [⟨UInt8.ofNat i, UInt32.ofNat s.changeCents⟩]) := rfl
        rw [hsame] at hencode
        dsimp only
        rw [hencode]
        exact Bool.noConfusion
      · rintro ⟨-, hattest, hfee, hchange, hresidual⟩
        have hnone : saplingOrder p.changeVout.isSome p.feeVout.isSome p.attestFeeVout.isSome
            p.residualVout.isSome = none := by
          rw [saplingOrder_eq_none_iff, hfee, hchange, hresidual]
          exact ⟨hattest, rfl, rfl, rfl⟩
        rw [hnone] at horder
        cases horder

/-- **Vault spends that pay a Sapling address.**  An answer with a payload has one `OP_RETURN`, unless
a script of the plan is one itself; its payload names the outputs of the pool fee, of the attestors'
fee and of the change, or none where the plan has none, and never output 1 as the attestors'; the
outputs are the plan's fee, attestors' fee, residual and change and the payload's, each once.  A
plan of `plan_vault_spend` is refused exactly when it pays the attestors and has no pool fee, no
change and no residual. -/
theorem sapling_spend_outputs (s : VaultSpendShape) (p : VaultSpendPlan) :
    (∀ vout, s.withPayload = true → saplingSpendVout s p = .ok vout → SaplingOuts s p vout) ∧
    (planVaultSpend s = .ok p → ((saplingSpendVout s p).isOk = false ↔ s.withPayload = true ∧
      p.attestFeeVout.isSome = true ∧ p.feeVout = none ∧ p.changeVout = none ∧
      p.residualVout = none)) :=
  ⟨fun _ hpayload h ↦ saplingOuts_of_ok hpayload h, saplingSpendVout_isOk_iff⟩

end Proofs

/-- A spend that pays the attestors and a residual, and neither a pool fee nor change. -/
def sampleSapling : VaultSpendShape :=
  { sampleSpend with
    payeeScript := none
    changeCents := 0
    residualZat := 5000
    ownerScript := p2pkhScript (List.Vector.replicate 20 3) }

theorem sapling_spend_outputs_sample :
    ∃ p vout, planVaultSpend sampleSapling = .ok p ∧ saplingSpendVout sampleSapling p = .ok vout ∧
      CleanOuts sampleSapling p ∧ SaplingOuts sampleSapling p vout := by
  obtain ⟨p, hp⟩ := exists_of_isOk (show (planVaultSpend sampleSapling).isOk = true by decide +kernel)
  have hclean : CleanOuts sampleSapling p := ⟨fun _ ↦ rfl, fun _ ↦ rfl, fun _ ↦ rfl, fun _ ↦ rfl⟩
  have hresidual : p.residualVout.isSome = true := by
    have hsome : (planVaultSpend sampleSapling).toOption.map (·.residualVout.isSome) = some true := by
      decide +kernel
    rw [hp] at hsome
    exact Option.some.inj hsome
  have hok : (saplingSpendVout sampleSapling p).isOk = true := by
    rw [← Bool.not_eq_false, (sapling_spend_outputs sampleSapling p).2 hp]
    rintro ⟨-, -, -, -, hnone⟩
    rw [hnone] at hresidual
    cases hresidual
  obtain ⟨vout, hvout⟩ := exists_of_isOk hok
  exact ⟨p, vout, hp, hvout, hclean, (sapling_spend_outputs sampleSapling p).1 vout rfl hvout⟩

end Yew.Daemon
