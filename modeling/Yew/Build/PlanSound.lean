import Yew.Build.Claim

/-!
# What the plans of vault spends balance

Both plans are read off the order of their slots: the payload's indices (`Names`) and the balance.
A redeem pays exactly its network fee.  A claim pays it and the part of the spare that does not go
back: a trifle, or the one zatoshi by which the change is kept from looking like a token.

The plans are `plan_vault_spend` of `core/src/build/redeem.rs` and `plan_claim` of
`core/src/build/claim.rs`.  Both lay their outputs out by `Yew.Build.Slots`, so one lemma about the
order serves both.
-/

namespace Yew.Build

open Script Tx Coins Yellowback Vault

/-! ## What a payload names -/

/-- What a redeem payload says of the outputs. -/
structure Indexes (vout : List Out) (payload : Bytes) (refHeight : UInt32)
    (payee : Option Bytes) (feeZat : Int) (attestPayee : Option Bytes) (attestFeeZat : Int)
    (changeCents : Nat) (changeScript : Bytes) (feeVout attestFeeVout : UInt8)
    (as : List Assignment) : Prop where
  decoded : decode payload = some (.redeem refHeight feeVout attestFeeVout as)
  fee : (payee = none ∧ feeVout = feeVoutNone) ∨ ∃ script, payee = some script ∧
    feeVout ≠ feeVoutNone ∧ vout[feeVout.toNat]? = some ⟨feeZat, script⟩
  attest : (attestPayee = none ∧ attestFeeVout = feeVoutNone) ∨ ∃ script,
    attestPayee = some script ∧ attestFeeVout ≠ feeVoutNone ∧
    vout[attestFeeVout.toNat]? = some ⟨attestFeeZat, script⟩
  attest_ne_one : attestFeeVout ≠ 1
  change : (changeCents = 0 ∧ as = []) ∨ 0 < changeCents ∧ ∃ (a : Assignment), as = [a] ∧
    vout[a.vout.toNat]? = some ⟨tokenZat, changeScript⟩

/-- The payload is the only one among the outputs, and is found. -/
structure Names (vout : List Out) (payload : Bytes) (refHeight : UInt32)
    (payee : Option Bytes) (feeZat : Int) (attestPayee : Option Bytes) (attestFeeZat : Int)
    (changeCents : Nat) (changeScript : Bytes) (feeVout attestFeeVout : UInt8)
    (as : List Assignment) : Prop extends Indexes vout payload refHeight payee feeZat attestPayee
      attestFeeZat changeCents changeScript feeVout attestFeeVout as where
  /-- There is one `OP_RETURN` output, and a transaction with these outputs carries the payload. -/
  single : opReturns (vout.map Out.toTxOut) = 1
  found : ∀ tx : Transaction, tx.vout = vout.map Out.toTxOut →
    ∃ i, findPayload tx = some ⟨.redeem refHeight feeVout attestFeeVout as, i⟩

namespace Layout

variable {l : Layout} {out : Slot → Out} {refHeight : UInt32} {changeCents : Nat} {data : Bytes}

/-- The index of a fee in the payload, when the fee's output is there if it has a payee. -/
theorem names_payee {s : Slot} {payee : Option Bytes} {value : Int}
    (hmem : s ∈ l.order ↔ payee.isSome = true)
    (hout : ∀ script, payee = some script → out s = ⟨value, script⟩) :
    (payee = none ∧ voutOrNone (l.indexOf s) = feeVoutNone) ∨ ∃ script, payee = some script ∧
      voutOrNone (l.indexOf s) ≠ feeVoutNone ∧
      (l.order.map out)[(voutOrNone (l.indexOf s)).toNat]? = some ⟨value, script⟩ := by
  rcases l.voutOrNone_indexOf s with ⟨hno, hnone⟩ | ⟨hyes, hne, hget⟩
  · refine .inl ⟨?_, hnone⟩
    rw [hmem, Bool.not_eq_true, Option.isSome_eq_false_iff] at hno
    exact Option.isNone_iff_eq_none.mp hno
  · obtain ⟨script, rfl⟩ := Option.isSome_iff_exists.mp (hmem.mp hyes)
    refine .inr ⟨script, rfl, hne, ?_⟩
    rw [List.getElem?_map, hget, Option.map_some, hout script rfl]

/-- The payload over the order names the outputs of the slots. -/
theorem indexes_order {payee attestPayee : Option Bytes} {feeZat attestFeeZat : Int}
    {changeScript : Bytes} (hfee : .fee ∈ l.order ↔ payee.isSome = true)
    (hattest : .attest ∈ l.order ↔ attestPayee.isSome = true)
    (hchange : .change ∈ l.order ↔ 0 < changeCents)
    (ofee : ∀ script, payee = some script → out .fee = ⟨feeZat, script⟩)
    (oattest : ∀ script, attestPayee = some script → out .attest = ⟨attestFeeZat, script⟩)
    (ochange : out .change = ⟨tokenZat, changeScript⟩)
    (hencode : encode (l.redeemPayload refHeight changeCents) = some data) :
    Indexes (l.order.map out) data refHeight payee feeZat attestPayee attestFeeZat changeCents
      changeScript (voutOrNone (l.indexOf .fee)) (voutOrNone (l.indexOf .attest))
      (l.redeemPayload refHeight changeCents).assignments where
  decoded := (decode_encode hencode).1
  fee := names_payee hfee ofee
  attest := names_payee hattest oattest
  attest_ne_one := l.voutOrNone_attest_ne_one
  change := by
    rcases l.assignments_redeemPayload refHeight changeCents with
      ⟨hno, hnil⟩ | ⟨hyes, a, hsingle, -, hget⟩
    · rw [hchange] at hno
      exact .inl ⟨by omega, hnil⟩
    · refine .inr ⟨hchange.mp hyes, a, hsingle, ?_⟩
      rw [List.getElem?_map, hget, Option.map_some, ochange]

/-- Where no other output is an `OP_RETURN`, the payload is found. -/
theorem names_order {payee attestPayee : Option Bytes} {feeZat attestFeeZat : Int}
    {changeScript : Bytes} (hindexes : Indexes (l.order.map out) data refHeight payee feeZat
      attestPayee attestFeeZat changeCents changeScript (voutOrNone (l.indexOf .fee))
      (voutOrNone (l.indexOf .attest)) (l.redeemPayload refHeight changeCents).assignments)
    (opayload : out .payload = ⟨0, payloadScript data⟩)
    (hother : ∀ s ∈ l.order, s ≠ .payload → isOpReturn (out s).scriptPubkey = false)
    (hencode : encode (l.redeemPayload refHeight changeCents) = some data) :
    Names (l.order.map out) data refHeight payee feeZat attestPayee attestFeeZat changeCents
      changeScript (voutOrNone (l.indexOf .fee)) (voutOrNone (l.indexOf .attest))
      (l.redeemPayload refHeight changeCents).assignments where
  toIndexes := hindexes
  single := by
    let tx := newV4 [] (l.order.map out) 0 0
    obtain ⟨i, hfound⟩ := (@findPayload_order _ _ _ _ _ tx) rfl opayload hother hencode
    exact (findPayload_spec hfound).1
  found tx htx := findPayload_order htx opayload hother hencode

/-- The cents assigned to the change, if an assignment can hold them. -/
theorem assigned_redeemPayload (hchange : .change ∈ l.order ↔ 0 < changeCents)
    (hfits : changeCents < 2 ^ 32) :
    assigned (l.redeemPayload refHeight changeCents).assignments = changeCents := by
  rcases l.assignments_redeemPayload refHeight changeCents with
    ⟨hno, hnil⟩ | ⟨-, a, hsingle, hcents, -⟩
  · rw [hchange] at hno
    obtain rfl : changeCents = 0 := by omega
    rw [hnil]
    rfl
  · rw [hsingle, assigned]
    simp only [List.map_cons, List.map_nil, List.sum_cons, List.sum_nil, hcents,
      UInt32.toNat_ofNat']
    omega

end Layout

/-- The output of a payee. -/
theorem out_payee {payee : Option Bytes} {script : Bytes} {value : Int} (h : payee = some script) :
    (⟨value, payee.getD []⟩ : Out) = ⟨value, script⟩ := by
  rw [h]
  rfl

/-! ## A redeem -/

/-- The scripts a caller gives are no `OP_RETURN`. -/
structure VaultSpendShape.Clean (s : VaultSpendShape) : Prop where
  collateral : isOpReturn s.collateralScript = false
  payee : ∀ script, s.payeeScript = some script → isOpReturn script = false
  change : 0 < s.changeCents → isOpReturn s.changeScript = false
  attest : ∀ script, s.attestScript = some script → isOpReturn script = false
  owner : 0 < s.residualZat → isOpReturn s.ownerScript = false

/-- A redeem plan that balances. -/
structure SpendBalances (s : VaultSpendShape) (p : VaultSpendPlan) : Prop where
  vin : p.vin.map TxIn.prevout = s.vaultOut :: s.yedInputs.map Utxo.outpoint
  balance : s.vaultValue + s.carrierValue + zats s.yedInputs - paid p.vout = s.networkFee
  names : ∃ feeVout attestFeeVout as, Names p.vout p.payload s.refHeight s.payeeScript s.feeZat
    s.attestScript s.attestFeeZat s.changeCents s.changeScript feeVout attestFeeVout as ∧
    (s.changeCents < 2 ^ 32 → p.burnCents = cents s.yedInputs - assigned as)

theorem isOpReturn_getD {payee : Option Bytes}
    (h : ∀ script, payee = some script → isOpReturn script = false) :
    isOpReturn (payee.getD []) = false := by
  cases payee with
  | none => rfl
  | some script => exact h script rfl

theorem VaultSpendShape.isOpReturn_out {s : VaultSpendShape} (h : s.Clean) {payload : Bytes}
    (slot : Slot) (hmem : slot ∈ s.slots.order) (hne : slot ≠ .payload) :
    isOpReturn (s.out payload slot).scriptPubkey = false := by
  have hhas := Slots.mem_order.mp hmem
  cases slot with
  | main => exact h.collateral
  | fee => exact isOpReturn_getD h.payee
  | change => exact h.change (of_decide_eq_true (Bool.and_eq_true_iff.mp hhas).2)
  | attest => exact isOpReturn_getD h.attest
  | residual => exact h.owner (of_decide_eq_true (Bool.and_eq_true_iff.mp hhas).2)
  | payload => exact absurd rfl hne
  | fundChange => rfl

theorem planVaultSpend_eq_ok {s : VaultSpendShape} {p : VaultSpendPlan}
    (hpayload : s.withPayload = true) (h : planVaultSpend s = .ok p) :
    0 < s.collateralOut ∧
      encode (s.slots.redeemPayload s.refHeight s.changeCents) = some p.payload ∧
      p.vin = s.vin ∧ p.vout = s.slots.order.map (s.out p.payload) ∧
      p.burnCents = cents s.yedInputs - s.changeCents := by
  rw [planVaultSpend, Result.guard_eq_ok, hpayload, Bool.not_true, if_neg Bool.false_ne_true] at h
  obtain ⟨hpos, h⟩ := h
  dsimp only at h
  split at h
  · cases h
  · rename_i payload hencode
    cases h
    exact ⟨by omega, hencode, rfl, rfl, rfl⟩

theorem VaultSpendShape.paid_out (s : VaultSpendShape) (payload : Bytes) :
    paid (s.slots.order.map (s.out payload)) =
      s.vaultValue + s.carrierValue + zats s.yedInputs - s.networkFee := by
  rw [Slots.paid_order]
  simp only [out, collateralOut, slots, Bool.false_eq_true, if_false]
  omega

theorem spendBalances_of_planVaultSpend {s : VaultSpendShape} {p : VaultSpendPlan}
    (hpayload : s.withPayload = true) (hclean : s.Clean) (h : planVaultSpend s = .ok p) :
    SpendBalances s p := by
  obtain ⟨-, hencode, hvin, hvout, hburn⟩ := planVaultSpend_eq_ok hpayload h
  have hchange : .change ∈ s.slots.layout.order ↔ 0 < s.changeCents := by
    simp [Slots.layout, Slots.mem_order, Slots.has, VaultSpendShape.slots, hpayload]
  constructor
  · rw [hvin, VaultSpendShape.vin, List.map_cons, List.map_map]
    rfl
  · rw [hvout, s.paid_out]
    omega
  · rw [hvout]
    have hindexes := (@Layout.indexes_order s.slots.layout (s.out p.payload) s.refHeight
      s.changeCents p.payload s.payeeScript s.attestScript s.feeZat s.attestFeeZat s.changeScript)
      ?_ ?_ hchange (fun _ h ↦ out_payee h) (fun _ h ↦ out_payee h) rfl hencode
    · refine ⟨_, _, _, s.slots.layout.names_order hindexes rfl
        (VaultSpendShape.isOpReturn_out hclean) hencode, ?_⟩
      intro hfits
      rw [Layout.assigned_redeemPayload hchange hfits]
      exact hburn
    · simp [Slots.layout, Slots.mem_order, Slots.has, VaultSpendShape.slots, hpayload]
    · simp [Slots.layout, Slots.mem_order, Slots.has, VaultSpendShape.slots, hpayload]

/-! ## A claim -/

/-- The scripts a caller gives are no `OP_RETURN`. -/
structure ClaimShape.Clean (s : ClaimShape) : Prop where
  payee : ∀ script, s.payeeScript = some script → isOpReturn script = false
  change : 0 < s.changeCents → isOpReturn s.changeScript = false
  attest : ∀ script, s.attestScript = some script → isOpReturn script = false
  fundingChange : isOpReturn s.fundingChangeScript = false

/-- A claim plan that balances. -/
structure ClaimBalances (C : Crypto) (s : ClaimShape) (p : ClaimPlan) : Prop where
  vin : p.vin.map TxIn.prevout =
    s.vaultOut :: ((s.yedInputs ++ s.funding).map Utxo.outpoint ++ [s.carrier])
  /-- The network gets its fee and the spare that does not go back. -/
  balance : s.vaultValue + zats s.yedInputs + zats s.funding + carrierZat - paid p.vout =
    s.networkFee + (s.spare - p.fundingChange)
  /-- The spare goes back but for a trifle, or but for a zatoshi if it would look like a token. -/
  returned : ((s.spare < minChange ∨ s.fundingChangeScript = []) ∧ p.fundingChange = 0) ∨
    minChange ≤ s.spare ∧ s.fundingChangeScript ≠ [] ∧
      p.fundingChange = if s.spare = tokenZat then tokenZat - 1 else s.spare
  names : ∃ feeVout attestFeeVout as, Names p.vout p.payload s.refHeight s.payeeScript s.feeZat
    s.attestScript s.attestFeeZat s.changeCents s.changeScript feeVout attestFeeVout as ∧
    (s.changeCents < 2 ^ 32 → p.burnCents = cents s.yedInputs - assigned as)
  claimant : p.vout[0]? = some ⟨p.claimantValue, p.claimantIntent⟩ ∧
    parseIntent p.claimantIntent = some (intentFor C s.vault s.vaultScript s.claimantScript)
  residual : 0 < s.residualZat → (∃ i : Nat, p.vout[i]? = some ⟨s.residualZat, p.residualIntent⟩) ∧
    parseIntent p.residualIntent = some (intentFor C s.vault s.vaultScript s.ownerScript)
  /-- The vault's value goes into the intents. -/
  intents : p.claimantValue + (if 0 < s.residualZat then s.residualZat else 0) = s.vaultValue

section Claim

variable {C : Crypto} {s : ClaimShape} {p : ClaimPlan}

/-- What `plan_claim` came out with. -/
structure Claims (C : Crypto) (s : ClaimShape) (p : ClaimPlan) : Prop where
  spare_nonneg : 0 ≤ s.spare
  claimant : buildIntent (intentFor C s.vault s.vaultScript s.claimantScript) =
    some p.claimantIntent
  residual : residualIntentOf C s = some p.residualIntent
  encoded : encode (s.slots.redeemPayload s.refHeight s.changeCents) = some p.payload
  vin : p.vin = s.vin
  vout : p.vout = s.slots.order.map (s.out p.claimantIntent p.residualIntent p.payload)
  value : p.claimantValue = s.claimantValue
  burned : p.burnCents = cents s.yedInputs - s.changeCents
  change : p.fundingChange = s.fundingChange

theorem planClaim_eq_ok (h : planClaim C s = .ok p) : Claims C s p := by
  rw [planClaim, Result.guard_eq_ok, Result.guard_eq_ok, Result.guard_eq_ok,
    Result.guard_eq_ok] at h
  obtain ⟨-, -, -, hspare, h⟩ := h
  dsimp only at h
  split at h
  · cases h
  · rename_i claimantIntent hclaimant
    split at h
    · cases h
    · rename_i residualIntent hresidual
      split at h
      · cases h
      · rename_i payload hencode
        cases h
        exact ⟨by omega, hclaimant, hresidual, hencode, rfl, rfl, rfl, rfl, rfl⟩

theorem ClaimShape.fundingChange_cases (s : ClaimShape) :
    ((s.spare < minChange ∨ s.fundingChangeScript = []) ∧ s.fundingChange = 0) ∨
      minChange ≤ s.spare ∧ s.fundingChangeScript ≠ [] ∧
        s.fundingChange = if s.spare = tokenZat then tokenZat - 1 else s.spare := by
  by_cases hback : minChange ≤ s.spare ∧ !s.fundingChangeScript.isEmpty
  · refine .inr ⟨hback.1, by simpa using hback.2, ?_⟩
    rw [fundingChange, if_pos hback]
    split
    · rename_i htoken
      rw [htoken]
    · rfl
  · refine .inl ⟨?_, ?_⟩
    · rw [Bool.not_eq_true', List.isEmpty_eq_false_iff] at hback
      by_cases hscript : s.fundingChangeScript = []
      · exact .inr hscript
      · exact .inl (by_contra fun hge ↦ hback ⟨by omega, hscript⟩)
    · rw [fundingChange, if_neg hback]
      rfl

theorem ClaimShape.fundingChange_nonneg (s : ClaimShape) : 0 ≤ s.fundingChange := by
  have hmin : minChange = 100 := rfl
  have htoken := tokenZat_eq
  rcases s.fundingChange_cases with ⟨-, hzero⟩ | ⟨hge, -, hback⟩
  · omega
  · rw [hback]
    split <;> omega

theorem ClaimShape.paid_out (s : ClaimShape) (claimantIntent residualIntent payload : Bytes) :
    paid (s.slots.order.map (s.out claimantIntent residualIntent payload)) =
      s.vaultValue + (carrierZat + zats s.yedInputs + zats s.funding - s.networkFee - s.spare) +
        s.fundingChange := by
  have hnonneg := s.fundingChange_nonneg
  have hback : (if s.slots.fundChange then s.fundingChange else 0) = s.fundingChange := by
    by_cases hpos : 0 < s.fundingChange
    · rw [slots, if_pos (decide_eq_true hpos)]
    · rw [slots, if_neg (by simpa using hpos)]
      omega
  have hfee : s.slots.fee = s.payeeScript.isSome := rfl
  have hattest : s.slots.attest = s.attestScript.isSome := rfl
  have hchange : s.slots.change = decide (0 < s.changeCents) := rfl
  have hresidual : s.slots.residual = decide (0 < s.residualZat) := rfl
  rw [Slots.paid_order]
  simp only [out]
  rw [hback, hfee, hattest, hchange, hresidual, claimantValue, spare]
  simp only [decide_eq_true_eq]
  omega

theorem ClaimShape.isOpReturn_out (h : s.Clean) (hp : Claims C s p) {payload : Bytes}
    (slot : Slot) (hmem : slot ∈ s.slots.order) (hne : slot ≠ .payload) :
    isOpReturn (s.out p.claimantIntent p.residualIntent payload slot).scriptPubkey = false := by
  have hhas := Slots.mem_order.mp hmem
  cases slot with
  | main => exact isOpReturn_buildIntent hp.claimant
  | fee => exact isOpReturn_getD h.payee
  | change => exact h.change (of_decide_eq_true hhas)
  | attest => exact isOpReturn_getD h.attest
  | residual =>
    have hresidual := hp.residual
    rw [residualIntentOf, if_pos (of_decide_eq_true hhas)] at hresidual
    exact isOpReturn_buildIntent hresidual
  | payload => exact absurd rfl hne
  | fundChange => exact h.fundingChange

theorem claimBalances_of_planClaim (hclean : s.Clean) (h : planClaim C s = .ok p) :
    ClaimBalances C s p := by
  have hp := planClaim_eq_ok h
  constructor
  · rw [hp.vin, ClaimShape.vin, List.map_cons, List.map_map]
    exact congrArg _ (List.map_id _)
  · rw [hp.vout, s.paid_out, hp.change]
    omega
  · rw [hp.change]
    exact s.fundingChange_cases
  · rw [hp.vout]
    have hchange : .change ∈ s.slots.layout.order ↔ 0 < s.changeCents :=
      Slots.mem_order.trans (decide_eq_true_iff)
    have hindexes := (@Layout.indexes_order s.slots.layout
      (s.out p.claimantIntent p.residualIntent p.payload) s.refHeight
      s.changeCents p.payload s.payeeScript s.attestScript s.feeZat s.attestFeeZat s.changeScript)
      Slots.mem_order Slots.mem_order hchange (fun _ h ↦ out_payee h) (fun _ h ↦ out_payee h) rfl
      hp.encoded
    refine ⟨_, _, _, s.slots.layout.names_order hindexes rfl (ClaimShape.isOpReturn_out hclean hp)
      hp.encoded, ?_⟩
    intro hfits
    rw [Layout.assigned_redeemPayload hchange hfits]
    exact hp.burned
  · rw [hp.vout, hp.value]
    exact ⟨Slots.getElem?_map_order _ s.slots.getElem?_zero_order,
      parseIntent_buildIntent hp.claimant⟩
  · intro hpos
    have hresidual := hp.residual
    rw [residualIntentOf, if_pos hpos] at hresidual
    refine ⟨?_, parseIntent_buildIntent hresidual⟩
    have hhas : s.slots.has .residual = true := decide_eq_true hpos
    obtain ⟨i, hi⟩ := List.getElem?_of_mem (Slots.mem_order.mpr hhas)
    rw [hp.vout]
    exact ⟨i, Slots.getElem?_map_order _ hi⟩
  · rw [hp.value, ClaimShape.claimantValue]
    omega

end Claim

/-- Every plan of a redeem and every plan of a claim balances, the claim but for the spare it does
not return. -/
theorem plans_balance (C : Crypto) :
    (∀ s p, s.withPayload = true → VaultSpendShape.Clean s → planVaultSpend s = .ok p →
      SpendBalances s p) ∧
    (∀ s p, ClaimShape.Clean s → planClaim C s = .ok p → ClaimBalances C s p) :=
  ⟨fun _ _ ↦ spendBalances_of_planVaultSpend, fun _ _ ↦ claimBalances_of_planClaim⟩

/-! ## A redeem and a claim -/

/-- A token of sixty dollars. -/
def sampleToken : Utxo :=
  ⟨⟨List.Vector.replicate 32 1, 0⟩, "token", p2pkhScript (List.Vector.replicate 20 1), 10000, 5,
    .token, 6000⟩

/-- A redeem of fifty dollars that pays both fees and leaves YED change. -/
def sampleSpend : VaultSpendShape where
  vaultOut := ⟨List.Vector.replicate 32 9, 0⟩
  vaultValue := 1000000000
  lockHeight := 431
  claimHeight := 455
  ownerHeight := 401
  appHeight := 401
  ownerPath := true
  withPayload := true
  refHeight := 431
  yedInputs := [sampleToken]
  changeCents := 1000
  changeScript := p2pkhScript (List.Vector.replicate 20 5)
  payeeScript := some (p2pkhScript (List.Vector.replicate 20 6))
  feeZat := 50000000
  attestScript := some (p2pkhScript (List.Vector.replicate 20 7))
  attestFeeZat := 12500000
  residualZat := 0
  ownerScript := []
  carrierValue := 0
  collateralScript := p2pkhScript (List.Vector.replicate 20 4)
  networkFee := 1000

theorem sampleSpend_clean : sampleSpend.Clean where
  collateral := rfl
  payee script h := by cases h; rfl
  change _ := rfl
  attest script h := by cases h; rfl
  owner h := absurd h (by decide)

/-- A vault to claim. -/
def sampleVault : VaultParams :=
  yedMintVaultParams (List.Vector.replicate 32 8) 20 ⟨1, List.Vector.replicate 32 9⟩ 400

/-- A claim with a residual, for a network fee. -/
def sampleClaim (networkFee : Int) : ClaimShape where
  vaultOut := ⟨List.Vector.replicate 32 9, 0⟩
  vault := sampleVault
  vaultScript := (buildVault sampleVault).getD []
  vaultValue := 1000000
  refHeight := 431
  yedInputs := [sampleToken]
  changeCents := 0
  changeScript := []
  payeeScript := none
  feeZat := 0
  attestScript := none
  attestFeeZat := 0
  residualZat := 200000
  ownerScript := p2pkhScript (List.Vector.replicate 20 7)
  claimantScript := p2pkhScript (List.Vector.replicate 20 6)
  funding := []
  fundingChangeScript := p2pkhScript (List.Vector.replicate 20 5)
  carrier := ⟨List.Vector.replicate 32 6, 0⟩
  networkFee := networkFee

theorem sampleClaim_clean (networkFee : Int) : (sampleClaim networkFee).Clean where
  payee script h := by cases h
  change h := absurd h (Nat.lt_irrefl 0)
  attest script h := by cases h
  fundingChange := rfl

theorem exists_of_isOk {ε α : Type} {x : Except ε α} (h : x.isOk = true) : ∃ a, x = .ok a := by
  cases x with
  | error e => cases h
  | ok a => exact ⟨a, rfl⟩

theorem plans_balance_sample :
    (∃ p, planVaultSpend sampleSpend = .ok p ∧ SpendBalances sampleSpend p) ∧
      ∃ p, planClaim Crypto.blank (sampleClaim 1000) = .ok p ∧
        ClaimBalances Crypto.blank (sampleClaim 1000) p := by
  obtain ⟨p, hp⟩ : ∃ p, planVaultSpend sampleSpend = .ok p := exists_of_isOk (by decide +kernel)
  obtain ⟨q, hq⟩ : ∃ q, planClaim Crypto.blank (sampleClaim 1000) = .ok q :=
    exists_of_isOk (by decide +kernel)
  exact ⟨⟨p, hp, (plans_balance Crypto.blank).1 _ p rfl sampleSpend_clean hp⟩,
    ⟨q, hq, (plans_balance Crypto.blank).2 _ q (sampleClaim_clean 1000) hq⟩⟩

/-- The carrier and the token leave fifty zatoshi over a fee of 19,950: too little for an output,
they go to the network too. -/
theorem not_balanced_sampleClaim :
    ∃ p, planClaim Crypto.blank (sampleClaim 19950) = .ok p ∧
      (sampleClaim 19950).vaultValue + zats (sampleClaim 19950).yedInputs +
        zats (sampleClaim 19950).funding + carrierZat - paid p.vout ≠
          (sampleClaim 19950).networkFee := by
  obtain ⟨p, hp⟩ : ∃ p, planClaim Crypto.blank (sampleClaim 19950) = .ok p :=
    exists_of_isOk (by decide +kernel)
  have hbalances := claimBalances_of_planClaim (sampleClaim_clean 19950) hp
  have hspare : (sampleClaim 19950).spare = 50 := by decide +kernel
  have hmin : minChange = 100 := rfl
  refine ⟨p, hp, ?_⟩
  rw [hbalances.balance]
  rcases hbalances.returned with ⟨-, hzero⟩ | ⟨hge, -⟩
  · omega
  · omega

end Yew.Build
