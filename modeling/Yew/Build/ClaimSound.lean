import Yew.Build.MintSound
import Yew.Build.PlanSound
import Yew.Build.TransferSound

/-!
# What a claim keeps of its bounds

The user confirms the most debt a claim may burn and the least it may pay out.  The debt is kept.
The pay-out is checked with the flat fee, and the transaction pays what its size asks for and the
change too small to return: it is kept exactly when the user left room for the difference
(`ClaimRoom`).

The builder is `finish` of `core/src/build/claim.rs`, with the check of the bounds in
`core/src/build/terms.rs`.  Nothing of it is repeated here: a step of its loop is inverted once, and
both bounds are read off the step that went through.
-/

namespace Yew.Build

open Script Tx Pq Coins CoinSelect Yellowback Vault Store

variable {C : Crypto} {w : Wallet} {m : MintRow}

/-! ## The YED that is burned -/

/-- A burning selection that answers, for any target. -/
theorem answers_selectFloorAware {coins : List Int} {target minOutput : Int} {cap : Nat}
    (hcap : 0 < cap) (hpos : 0 < target)
    (h : (selectFloorAware coins target minOutput cap true).ok = true) :
    Answers coins target minOutput cap true (selectFloorAware coins target minOutput cap true) := by
  unfold selectFloorAware at h ⊢
  rw [if_neg (by omega), if_neg (by omega)] at h ⊢
  split at h
  · cases h
  · rename_i hsum
    rw [if_neg hsum]
    dsimp only at h ⊢
    split at h
    · cases h
    · rename_i hreach
      rw [if_neg hreach]
      cases hstages : selectStages coins (rankDescending coins) target minOutput cap with
      | some s => exact (answers_selectStages hcap hstages).2.2
      | none =>
        rw [hstages] at h
        simp only [if_true] at h ⊢
        cases hburn : selectBurn coins (rankDescending coins) target minOutput cap with
        | some s => exact (answers_selectBurn hcap hburn).2.2
        | none =>
          rw [hburn] at h
          cases h

/-- The tokens are worth the debt, the change and the remainder that is burned with it. -/
theorem selectYedBurn_eq_ok {needed change extra : Nat} {us : List Utxo} {stage : SelectStage}
    (h : selectYedBurn w needed = .ok (us, change, extra, stage)) :
    cents us = needed + change + extra := by
  rw [selectYedBurn] at h
  dsimp only at h
  cases hok : (selectFloorAware ((rankedTokens w.spendable).map fun c ↦ (c.cents : Int)) needed
      minOutputCents maxInputs true).ok with
  | false =>
    rw [hok] at h
    simp only [Bool.not_false, if_true] at h
    split at h
    · cases h
    · split at h <;> cases h
  | true =>
    rw [hok] at h
    simp only [Bool.not_true, Bool.false_eq_true, if_false, Except.ok.injEq, Prod.mk.injEq] at h
    obtain ⟨rfl, rfl, rfl, -⟩ := h
    by_cases hzero : needed = 0
    · subst hzero
      rfl
    · have hanswers := answers_selectFloorAware (by decide) (by omega) hok
      generalize selectFloorAware ((rankedTokens w.spendable).map fun c ↦ (c.cents : Int)) needed
        minOutputCents maxInputs true = s at *
      have hbounded : ∀ i ∈ s.inputs, i < (rankedTokens w.spendable).length := by
        intro i hi
        simpa using hanswers.bounded i hi
      have hcents := cents_filterMap_getElem? hbounded
      have hsum := hanswers.sum_eq
      have hbalance := hanswers.balance
      have hchange := hanswers.change
      have hmin : (minOutputCents : Int) = 100 := rfl
      have hburn : 0 ≤ s.extraBurn := by
        by_cases hstage : s.stage = .burn
        · exact (hanswers.burn hstage).2.2.1.le
        · exact (hanswers.noBurn hstage).ge
      omega

theorem refundHolderFirst_perm (us : List Utxo) : (refundHolderFirst us).Perm us := by
  have hperm := List.filter_append_perm (fun u ↦ (pqpkhOf u.script).isSome) us
  simpa only [refundHolderFirst, Option.not_isSome] using hperm

/-! ## One turn -/

theorem payeeScript_eq_ok {payee : String} {script : Option Bytes}
    (h : payeeScript C w payee = .ok script) :
    script.isSome = !payee.isEmpty ∧ ∀ s, script = some s → isOpReturn s = false := by
  rw [payeeScript] at h
  split at h
  · rename_i hempty
    cases h
    rw [hempty]
    exact ⟨rfl, nofun⟩
  · rename_i hempty
    rw [Result.bind_eq_ok] at h
    obtain ⟨s, hs, h⟩ := h
    cases h
    rw [Bool.not_eq_true] at hempty
    rw [hempty]
    refine ⟨rfl, fun s' hs' ↦ ?_⟩
    cases hs'
    exact isOpReturn_p2pkhOfAddress hs

/-- What the claim's setup fixed. -/
structure SetsUp (w : Wallet) (m : MintRow) (st : ClaimSetup) (yed : List Utxo)
    (stage : SelectStage) : Prop where
  selected : selectYedBurn w m.cents = .ok (yed, st.changeCents, st.extraBurn, stage)
  yedInputs : st.yedInputs = refundHolderFirst yed
  change : 0 < st.changeCents → isOpReturn st.changeScript = false

theorem claimSetup_eq_ok {vt : Except WalletError VaultTerms}
    {readVault : PqKeyId → VaultTerms → Except WalletError YedV} {st : ClaimSetup}
    (h : claimSetup C w m vt readVault = .ok st) : ∃ yed stage, SetsUp w m st yed stage := by
  simp only [claimSetup, Result.bind_eq_ok, Result.guard_eq_ok] at h
  obtain ⟨owner, -, vt', -, vault, -, -, ⟨redeem, key⟩, -, ⟨yed, changeCents, extraBurn, stage⟩,
    hyed, dest, -, ⟨changeRow, changeScript⟩, hchange, fundChangeRow, -, h⟩ := h
  cases h
  refine ⟨yed, stage, hyed, rfl, fun hpos ↦ ?_⟩
  rw [claimChange, if_pos hpos] at hchange
  simp only [Result.bind_eq_ok] at hchange
  obtain ⟨row, -, script, hscript, hchange⟩ := hchange
  cases hchange
  exact Wallet.isOpReturn_yedHolderScript hscript

/-- What the shape takes from the row and the setup. -/
structure Shapes (m : MintRow) (st : ClaimSetup) (funding : List Utxo) (fee : Int)
    (s : ClaimShape) : Prop where
  clean : s.Clean
  vaultOut : s.vaultOut = ⟨m.vaultTxid, 0⟩
  carrier : s.carrier = m.carrier
  vaultValue : s.vaultValue = m.collateralZat
  yedInputs : s.yedInputs = st.yedInputs
  funding_eq : s.funding = funding
  changeCents : s.changeCents = st.changeCents
  payee : (if s.payeeScript.isSome then s.feeZat else 0) = feeTo m.payee m.feeZat
  attest : (if s.attestScript.isSome then s.attestFeeZat else 0) =
    feeTo m.attestPayee m.attestFeeZat
  residual : s.residualZat = m.residualZat
  back : s.fundingChangeScript ≠ []
  networkFee : s.networkFee = fee

theorem claimShape_eq_ok {st : ClaimSetup} {funding : List Utxo} {fee : Int} {s : ClaimShape}
    (hchange : 0 < st.changeCents → isOpReturn st.changeScript = false)
    (h : claimShape C w m st funding fee = .ok s) : Shapes m st funding fee s := by
  simp only [claimShape, Result.bind_eq_ok] at h
  obtain ⟨payee, hpayee, attest, hattest, h⟩ := h
  split at h
  · cases h
  · cases h
    obtain ⟨hpayeeSome, hpayeeClean⟩ := payeeScript_eq_ok hpayee
    obtain ⟨hattestSome, hattestClean⟩ := payeeScript_eq_ok hattest
    refine ⟨⟨hpayeeClean, hchange, hattestClean, rfl⟩, rfl, rfl, rfl, rfl, rfl, rfl, ?_, ?_, rfl,
      ?_, rfl⟩
    · dsimp only
      rw [hpayeeSome, feeTo]
      cases m.payee.isEmpty <;> rfl
    · dsimp only
      rw [hattestSome, feeTo]
      cases m.attestPayee.isEmpty <;> rfl
    · nofun

/-- The bounds are checked on every plan. -/
theorem checkBounds_eq_ok {b : ClaimBounds} {st : ClaimSetup} {plan : ClaimPlan}
    (h : checkBounds m (some b) st plan = .ok ()) :
    plan.burnCents.toNat - st.extraBurn ≤ b.maxBurnCents ∧
      b.minOutZat ≤ claimantTake m.collateralZat m.feeZat m.attestFeeZat m.residualZat := by
  rw [checkBounds, checkClaimBounds] at h
  split at h
  · cases h
  · split at h
    · cases h
    · exact ⟨by omega, by omega⟩

theorem sameBody_of_signClaim {st : ClaimSetup} {plan : ClaimPlan} {funding : List Utxo}
    {branchId : UInt32} {tx : Transaction}
    (h : signClaim C w m st plan funding branchId = .ok tx) :
    SameBody (newV4 plan.vin plan.vout plan.lockTime m.expiryHeight) tx := by
  simp only [signClaim, Result.bind_eq_ok] at h
  obtain ⟨tx₁, h₁, tx₂, h₂, h₃⟩ := h
  exact ((Wallet.sameBody_of_signP2pkhInputs h₁).trans (Wallet.sameBody_of_signP2pkhInputs h₂)).trans
    (sameBody_of_signCarrierInput h₃)

theorem claimTurn_eq_ok {bounds : Option ClaimBounds} {st : ClaimSetup} {branchId : UInt32}
    {fee price : Int} {t : ClaimTurn}
    (h : claimTurn C w m bounds st branchId fee = .ok (price, t)) :
    selectYec w.spendable (claimNeeded m st fee) true = .ok t.funding ∧
      price = claimNetworkFee w.pqTerms st.yedInputs t.funding ∧
      (∃ s, claimShape C w m st t.funding fee = .ok s ∧ planClaim C s = .ok t.plan) ∧
      checkBounds m bounds st t.plan = .ok () ∧
      SameBody (newV4 t.plan.vin t.plan.vout t.plan.lockTime m.expiryHeight) t.tx := by
  simp only [claimTurn, Result.bind_eq_ok] at h
  obtain ⟨funding, hfunding, s, hs, plan, hplan, ⟨⟩, hbounds, tx, htx, h⟩ := h
  cases h
  exact ⟨Result.mapError_eq_ok.mp hfunding, rfl, ⟨s, hs, hplan⟩, hbounds, sameBody_of_signClaim htx⟩

/-! ## What the network gets -/

/-- What a claim of the row costs the network: the size-priced fee of its YED and of the shortest
front of the wallet's coins that pays for itself, and what they leave that is too small to return. -/
def claimCost (w : Wallet) (m : MintRow) : Int :=
  match selectYedBurn w m.cents with
  | .error _ => 0
  | .ok (yed, changeCents, _, _) =>
    let yed := refundHolderFirst yed
    let base := claimFundingNeeded (feeTo m.payee m.feeZat) (feeTo m.attestPayee m.attestFeeZat)
      (0 < changeCents) (zats yed) - feeZat
    let price := claimNetworkFee w.pqTerms yed
    let funding := ownFunding w.spendable base price
    let spare := zats funding - (base + price funding)
    price funding + (spare - keepChange spare)

/-- What is recorded of fees and a residual and no output pays. -/
def unpaid (m : MintRow) : Int :=
  (m.feeZat - feeTo m.payee m.feeZat) + (m.attestFeeZat - feeTo m.attestPayee m.attestFeeZat) +
    (m.residualZat - if 0 < m.residualZat then m.residualZat else 0)

/-- The user left room, beneath the take that is checked, for what the claim costs beyond the flat
fee. -/
def ClaimRoom (w : Wallet) (m : MintRow) (b : ClaimBounds) : Prop :=
  claimCost w m - feeZat ≤
    claimantTake m.collateralZat m.feeZat m.attestFeeZat m.residualZat - b.minOutZat + unpaid m

instance (w : Wallet) (m : MintRow) (b : ClaimBounds) : Decidable (ClaimRoom w m b) :=
  inferInstanceAs (Decidable (_ ≤ _))

/-- The fee that the signed claim pays to the network. -/
def networkPaid (m : MintRow) (c : ClaimMain) : Int :=
  m.collateralZat + zats c.yedInputs + zats c.funding + carrierZat - paid c.plan.vout

/-- A claim within the bounds. -/
structure KeepsBounds (m : MintRow) (b : ClaimBounds) (c : ClaimMain) : Prop where
  debt : c.plan.burnCents - c.extraBurn ≤ b.maxBurnCents
  take : b.minOutZat ≤ m.collateralZat - feeTo m.payee m.feeZat -
    feeTo m.attestPayee m.attestFeeZat - (if 0 < m.residualZat then m.residualZat else 0) -
    networkPaid m c

/-- The signed claim: its transaction has the inputs and outputs of the plan, and burns the debt and
the remainder. -/
structure SignsPlan (m : MintRow) (c : ClaimMain) (tx : Transaction) : Prop where
  raw : tx.serialize = .ok c.raw
  vin : tx.vin.map TxIn.prevout =
    ⟨m.vaultTxid, 0⟩ :: ((c.yedInputs ++ c.funding).map Utxo.outpoint ++ [m.carrier])
  vout : tx.vout = c.plan.vout.map Out.toTxOut
  burned : c.plan.burnCents = m.cents + c.extraBurn

theorem ClaimShape.fundingChange_eq {s : ClaimShape} (hspare : 0 ≤ s.spare)
    (hback : s.fundingChangeScript ≠ []) : s.fundingChange = keepChange s.spare := by
  have hmin : minChange = 100 := rfl
  have htoken := tokenZat_eq
  rcases s.fundingChange_cases with ⟨hsmall | hnil, hzero⟩ | ⟨hge, -, hchange⟩
  · rw [hzero]
    rcases keepChange_cases s.spare with ⟨_, _⟩ | ⟨_, ⟨_, _, hkeep⟩ | ⟨_, hkeep⟩⟩
    · omega
    · exact hkeep.symm
    · omega
  · exact absurd hnil hback
  · rw [hchange]
    rcases keepChange_cases s.spare with ⟨heq, hkeep⟩ | ⟨hne, ⟨_, _, _⟩ | ⟨_, hkeep⟩⟩
    · rw [if_pos heq, hkeep]
    · omega
    · rw [if_neg hne, hkeep]

/-- What a loop that came out with a turn found. -/
structure Funds (C : Crypto) (w : Wallet) (m : MintRow) (bounds : Option ClaimBounds)
    (st : ClaimSetup) (fee : Int) (t : ClaimTurn) (s : ClaimShape) : Prop where
  fee_eq : fee = claimNetworkFee w.pqTerms st.yedInputs t.funding
  funding_eq : ownFunding w.spendable (claimNeeded m st 0)
    (claimNetworkFee w.pqTerms st.yedInputs) = t.funding
  shape : Shapes m st t.funding fee s
  plan : planClaim C s = .ok t.plan
  bounded : checkBounds m bounds st t.plan = .ok ()
  body : SameBody (newV4 t.plan.vin t.plan.vout t.plan.lockTime m.expiryHeight) t.tx

theorem claimNeeded_eq (m : MintRow) (st : ClaimSetup) (fee : Int) :
    claimNeeded m st fee = claimNeeded m st 0 + fee := by
  rw [claimNeeded, claimNeeded]
  omega

theorem climb_claimTurn {bounds : Option ClaimBounds} {st : ClaimSetup} {branchId : UInt32}
    {n : Nat} {fee : Int} {t : ClaimTurn}
    (hchange : 0 < st.changeCents → isOpReturn st.changeScript = false)
    (h : climb (claimTurn C w m bounds st branchId) n (claimNetworkFee w.pqTerms st.yedInputs []) =
      some (.ok (fee, t))) : ∃ s, Funds C w m bounds st fee t s := by
  have hturn : ∀ x p t, claimTurn C w m bounds st branchId x = .ok (p, t) →
      selectYec w.spendable (claimNeeded m st 0 + x) true = .ok t.funding ∧
        p = claimNetworkFee w.pqTerms st.yedInputs t.funding := by
    intro x p t ht
    obtain ⟨hsel, hprice, -⟩ := claimTurn_eq_ok ht
    rw [claimNeeded_eq] at hsel
    exact ⟨hsel, hprice⟩
  have hmono : ∀ us more, claimNetworkFee w.pqTerms st.yedInputs us ≤
      claimNetworkFee w.pqTerms st.yedInputs (us ++ more) := by
    intro us more
    rw [claimNetworkFee, claimNetworkFee, ← List.append_assoc]
    exact w.pqTerms.networkFee_mono _ _
  obtain ⟨hfee, hown⟩ := climb_eq_ownFunding hturn hmono h
  obtain ⟨-, p, ht, -⟩ := Climb.climb_eq_ok h
  obtain ⟨-, -, ⟨s, hs, hplan⟩, hbounds, hbody⟩ := claimTurn_eq_ok ht
  exact ⟨s, hfee, hown, claimShape_eq_ok hchange hs, hplan, hbounds, hbody⟩

namespace Funds

variable {bounds : Option ClaimBounds} {st : ClaimSetup} {fee : Int} {t : ClaimTurn} {s : ClaimShape}

/-- The spare is what the coins bring beyond what they were selected for. -/
theorem spare_eq (h : Funds C w m bounds st fee t s) :
    s.spare = zats t.funding - (claimNeeded m st 0 + fee) := by
  rw [ClaimShape.spare, h.shape.payee, h.shape.attest, h.shape.yedInputs, h.shape.funding_eq,
    h.shape.changeCents, h.shape.networkFee, claimNeeded, claimFundingNeeded]
  simp only [decide_eq_true_eq]
  omega

/-- What the plan leaves for the network. -/
theorem paid_eq (h : Funds C w m bounds st fee t s) :
    m.collateralZat + zats st.yedInputs + zats t.funding + carrierZat - paid t.plan.vout =
      fee + (s.spare - keepChange s.spare) := by
  have hbalance := (claimBalances_of_planClaim h.shape.clean h.plan).balance
  have hp := planClaim_eq_ok h.plan
  rw [hp.change, ClaimShape.fundingChange_eq hp.spare_nonneg h.shape.back, h.shape.vaultValue,
    h.shape.yedInputs, h.shape.funding_eq, h.shape.networkFee] at hbalance
  exact hbalance

end Funds

theorem finishClaim_eq_ok {vt : Except WalletError VaultTerms}
    {readVault : PqKeyId → VaultTerms → Except WalletError YedV} {bounds : Option ClaimBounds}
    {validate : Bytes → Int → Except WalletError Unit} {branchId : UInt32} {c : ClaimMain}
    (h : finishClaim C w m vt readVault bounds validate branchId = some (.ok c)) :
    ∃ st yed stage fee t s, SetsUp w m st yed stage ∧ Funds C w m bounds st fee t s ∧
      t.tx.serialize = .ok c.raw ∧ c.plan = t.plan ∧ c.yedInputs = st.yedInputs ∧
      c.funding = t.funding ∧ c.extraBurn = st.extraBurn := by
  rw [finishClaim] at h
  split at h
  · cases h
  · rename_i st hst
    obtain ⟨yed, stage, hsets⟩ := claimSetup_eq_ok hst
    split at h
    · cases h
    · cases h
    · rename_i fee t hclimb
      obtain ⟨s, hfunds⟩ := climb_claimTurn hsets.change hclimb
      have hc := Option.some.inj h
      simp only [completeClaim, Result.bind_eq_ok] at hc
      obtain ⟨-, -, raw, hraw, -, -, -, -, hc⟩ := hc
      cases hc
      exact ⟨st, yed, stage, fee, t, s, hsets, hfunds, Result.mapError_eq_ok.mp hraw, rfl, rfl, rfl, rfl⟩

/-- The claim's transaction costs what its inputs say. -/
theorem networkPaid_eq_claimCost {st : ClaimSetup} {yed : List Utxo} {stage : SelectStage}
    {bounds : Option ClaimBounds} {fee : Int} {t : ClaimTurn} {s : ClaimShape}
    (hsets : SetsUp w m st yed stage) (hfunds : Funds C w m bounds st fee t s) :
    m.collateralZat + zats st.yedInputs + zats t.funding + carrierZat - paid t.plan.vout =
      claimCost w m := by
  have hbase : claimFundingNeeded (feeTo m.payee m.feeZat) (feeTo m.attestPayee m.attestFeeZat)
      (0 < st.changeCents) (zats st.yedInputs) - feeZat = claimNeeded m st 0 := by
    rw [claimNeeded]
    omega
  rw [hfunds.paid_eq, hfunds.spare_eq, claimCost, hsets.selected]
  dsimp only
  rw [← hsets.yedInputs, hbase, hfunds.funding_eq, ← hfunds.fee_eq]

/-- The planned burn is the debt and the remainder. -/
theorem burnCents_eq {st : ClaimSetup} {yed : List Utxo} {stage : SelectStage}
    {bounds : Option ClaimBounds} {fee : Int} {t : ClaimTurn} {s : ClaimShape}
    (hsets : SetsUp w m st yed stage) (hfunds : Funds C w m bounds st fee t s) :
    t.plan.burnCents = m.cents + st.extraBurn := by
  have hcents : cents st.yedInputs = m.cents + st.changeCents + st.extraBurn := by
    rw [hsets.yedInputs, ← selectYedBurn_eq_ok hsets.selected]
    exact ((refundHolderFirst_perm yed).map Utxo.cents).sum_eq
  rw [(planClaim_eq_ok hfunds.plan).burned, hfunds.shape.yedInputs, hfunds.shape.changeCents, hcents]
  omega

theorem signsPlan_of_finishClaim {vt : Except WalletError VaultTerms}
    {readVault : PqKeyId → VaultTerms → Except WalletError YedV} {bounds : Option ClaimBounds}
    {validate : Bytes → Int → Except WalletError Unit} {branchId : UInt32} {c : ClaimMain}
    (h : finishClaim C w m vt readVault bounds validate branchId = some (.ok c)) :
    ∃ tx, SignsPlan m c tx := by
  obtain ⟨st, yed, stage, fee, t, s, hsets, hfunds, hraw, hplan, hyed, hfunding, hextra⟩ :=
    finishClaim_eq_ok h
  have hbalances := claimBalances_of_planClaim hfunds.shape.clean hfunds.plan
  refine ⟨t.tx, hraw, ?_, ?_, ?_⟩
  · rw [hyed, hfunding, hfunds.body.prevouts, ← hfunds.shape.vaultOut, ← hfunds.shape.carrier,
      ← hfunds.shape.yedInputs, ← hfunds.shape.funding_eq]
    exact hbalances.vin
  · rw [hplan, hfunds.body.vout]
    rfl
  · rw [hplan, hextra]
    exact burnCents_eq hsets hfunds

/-- A signed claim is within the bounds exactly when the user left room for its cost. -/
theorem keepsBounds_iff {vt : Except WalletError VaultTerms}
    {readVault : PqKeyId → VaultTerms → Except WalletError YedV} {b : ClaimBounds}
    {validate : Bytes → Int → Except WalletError Unit} {branchId : UInt32} {c : ClaimMain}
    (h : finishClaim C w m vt readVault (some b) validate branchId = some (.ok c)) :
    KeepsBounds m b c ↔ ClaimRoom w m b := by
  obtain ⟨st, yed, stage, fee, t, s, hsets, hfunds, -, hplan, hyed, hfunding, hextra⟩ :=
    finishClaim_eq_ok h
  obtain ⟨hdebt, -⟩ := checkBounds_eq_ok hfunds.bounded
  have hburn := burnCents_eq hsets hfunds
  have hcost : networkPaid m c = claimCost w m := by
    rw [networkPaid, hplan, hyed, hfunding]
    exact networkPaid_eq_claimCost hsets hfunds
  have htake : claimantTake m.collateralZat m.feeZat m.attestFeeZat m.residualZat =
      m.collateralZat - m.feeZat - m.attestFeeZat - m.residualZat - feeZat := rfl
  rw [ClaimRoom, htake, unpaid]
  constructor
  · intro hkeeps
    have htake := hkeeps.take
    rw [hcost] at htake
    omega
  · intro hroom
    refine ⟨?_, ?_⟩
    · rw [hplan, hextra, hburn]
      omega
    · rw [hcost]
      omega

/-- The loop of a claim ends. -/
theorem finishClaim_ne_none {vt : Except WalletError VaultTerms}
    {readVault : PqKeyId → VaultTerms → Except WalletError YedV} {bounds : Option ClaimBounds}
    {validate : Bytes → Int → Except WalletError Unit} {branchId : UInt32} :
    finishClaim C w m vt readVault bounds validate branchId ≠ none := by
  rw [finishClaim]
  split
  · exact Option.some_ne_none _
  · rename_i st hst
    split
    · rename_i hclimb
      refine absurd hclimb ((@Climb.climb_ne_none _ _ _ _ _
        (prices w.spendable (claimNetworkFee w.pqTerms st.yedInputs))) ?_ ?_)
      · intro x p t hturn _
        obtain ⟨hsel, rfl, -⟩ := claimTurn_eq_ok hturn
        rw [prices, List.mem_toFinset, List.mem_map]
        exact ⟨t.funding, (List.mem_inits _ _).mpr (selectYec_eq_ok hsel).1, rfl⟩
      · exact Nat.lt_of_le_of_lt ((Finset.card_filter_le _ _).trans card_prices_le) (by omega)
    · exact Option.some_ne_none _
    · exact Option.some_ne_none _

/-- A claim signed under bounds burns no more than they allow, and pays no less, exactly when the
user left room for what it costs beyond the flat fee. -/
theorem finishClaim_keepsBounds_iff (C : Crypto) (w : Wallet) (m : MintRow)
    (vt : Except WalletError VaultTerms)
    (readVault : PqKeyId → VaultTerms → Except WalletError YedV) (b : ClaimBounds)
    (validate : Bytes → Int → Except WalletError Unit) (branchId : UInt32) (c : ClaimMain)
    (h : finishClaim C w m vt readVault (some b) validate branchId = some (.ok c)) :
    (∃ tx, SignsPlan m c tx) ∧ (KeepsBounds m b c ↔ ClaimRoom w m b) :=
  ⟨signsPlan_of_finishClaim h, keepsBounds_iff h⟩

/-! ## A claim of fifty dollars -/

/-- A claim whose carrier is confirmed. -/
def sampleClaimRow : MintRow :=
  { sampleMint with
    kind := .claim, collateralZat := 1000000, residualZat := 200000, owner := some sampleOwner,
    vaultTxid := List.Vector.replicate 32 9 }

/-- A wallet with a token that pays the debt, at a rate for the network. -/
def sampleClaimant (rate : Int) : Wallet :=
  { sampleMinter with
    pqTerms := ⟨rate, rate, rate, 1000, 1000000000, none, false⟩
    spendable := ⟨⟨List.Vector.replicate 32 1, 0⟩, "token", p2pkhScript (List.Vector.replicate 20 1),
      10000, 5, .token, 5000⟩ :: sampleMinter.spendable
    freshExternal := fun _ ↦ .ok ⟨List.Vector.replicate 20 5, "fresh", none⟩
    classOf := fun o ↦ if o.txid = List.Vector.replicate 32 6 then some .carrier
      else if o.txid = List.Vector.replicate 32 1 then some .token else some .yec }

/-- The vault that a server reports. -/
def sampleYedV : YedV :=
  ⟨sampleVaultTerms.mintVaultParams sampleOwner 90,
    (buildVault (sampleVaultTerms.mintVaultParams sampleOwner 90)).getD []⟩

/-- What the claimant confirmed: the debt, and a least pay-out. -/
def sampleBounds (minOutZat : Int) : ClaimBounds := ⟨5000, minOutZat⟩

/-- The claim of the sample wallet. -/
abbrev sampleFinish (rate minOutZat : Int) : Option (Except WalletError ClaimMain) :=
  finishClaim Crypto.blank (sampleClaimant rate) sampleClaimRow (.ok sampleVaultTerms)
    (fun _ _ ↦ .ok sampleYedV) (some (sampleBounds minOutZat)) (fun _ _ ↦ .ok ()) 0

theorem exists_sampleFinish {rate minOutZat : Int}
    (h : (match sampleFinish rate minOutZat with
      | some (.ok _) => true
      | _ => false) = true) : ∃ c, sampleFinish rate minOutZat = some (.ok c) := by
  split at h
  · rename_i c hc
    exact ⟨c, hc⟩
  · cases h

theorem finishClaim_keepsBounds_sample :
    ∃ c, sampleFinish 100 794000 = some (.ok c) ∧
      KeepsBounds sampleClaimRow (sampleBounds 794000) c := by
  obtain ⟨c, hc⟩ := @exists_sampleFinish 100 794000 (by decide +kernel)
  refine ⟨c, hc, (finishClaim_keepsBounds_iff _ _ _ _ _ _ _ _ c hc).2.mpr ?_⟩
  decide +kernel

/-- At 100,000 zatoshi for a kilobyte the claim costs 130,000 where the check of the bound, which is
the take that the wallet shows, counts 1,000: the claimant takes 665,000 of the 794,000 confirmed. -/
theorem not_keepsBounds_sample :
    ∃ c, sampleFinish 100000 794000 = some (.ok c) ∧
      ¬ KeepsBounds sampleClaimRow (sampleBounds 794000) c := by
  obtain ⟨c, hc⟩ := @exists_sampleFinish 100000 794000 (by decide +kernel)
  refine ⟨c, hc, fun hkeeps ↦ ?_⟩
  have hroom := (keepsBounds_iff hc).mp hkeeps
  revert hroom
  decide +kernel

end Yew.Build
