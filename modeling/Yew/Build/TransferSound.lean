import Mathlib.Tactic.Ring
import Yew.Build.Transfer

/-!
# What a transfer conserves

One inversion lemma per step of the builder, and from them what holds of every transfer that was
built (`Conserves`).

The builder is `build_yed_transfer` of `core/src/build/yed_transfer.rs`.  The cents are compared as
integers and the assignments as the 32-bit words the payload holds, so the cast is part of the
statement.
-/

namespace Yew.Build

open Script Tx Pq Keys Coins CoinSelect Yellowback Addresses

variable {C : Crypto} {w : Wallet}

/-! ## Assignments -/

theorem getElem?_assignmentsFor (outs : List TokenOutput) (i : Nat) :
    (assignmentsFor outs)[i]? = outs[i]?.map fun o ↦ ⟨UInt8.ofNat i, o.2⟩ := by
  rw [assignmentsFor, List.getElem?_mapIdx]

@[simp] theorem length_assignmentsFor (outs : List TokenOutput) :
    (assignmentsFor outs).length = outs.length := List.length_mapIdx

theorem assigned_assignmentsFor (outs : List TokenOutput) :
    assigned (assignmentsFor outs) = (outs.map fun o ↦ o.2.toNat).sum := by
  rw [assigned]
  congr 1
  apply List.ext_getElem?
  intro i
  simp [getElem?_assignmentsFor, Function.comp_def]

theorem encode_transfer {as : List Assignment} {data : Bytes}
    (h : encode (.transfer as) = some data) : as.length ≤ maxAssignments := by
  rw [encode, Option.bind_eq_bind, Option.bind_eq_some_iff] at h
  obtain ⟨body, hbody, -⟩ := h
  rw [encodeBody] at hbody
  split at hbody
  · rename_i hvalid
    simp only [validAssignments, Bool.and_eq_true, decide_eq_true_eq] at hvalid
    exact hvalid.1.1
  · cases hbody

/-! ## Assembling -/

/-- What `assemble` came out with. -/
structure Assembles (w : Wallet) (yedInputs : List Utxo) (tokens : List TokenOutput)
    (changeHash : Arr 20) (tip : Nat) (a : Assembled) (baseFee : Int) (tx : Transaction) :
    Prop where
  standard : ∀ u ∈ yedInputs, u.value = tokenZat
  encoded : encode (.transfer (assignmentsFor tokens)) = some a.payload
  funded : fund w.spendable (tokens.length * tokenZat - yedInputs.length * tokenZat)
    (fun inputs ↦ w.pqTerms.networkFee (yedInputs ++ inputs)) = some (.ok (baseFee, a.yecInputs))
  change : a.yecChange = keepChange
    (zats a.yecInputs - (tokens.length * tokenZat + baseFee - yedInputs.length * tokenZat))
  fee : a.fee = baseFee + (zats a.yecInputs -
    (tokens.length * tokenZat + baseFee - yedInputs.length * tokenZat) - a.yecChange)
  body : SameBody
    (transferTx yedInputs tokens changeHash tip a.payload a.yecInputs a.yecChange) tx
  raw : tx.serialize = .ok a.raw

theorem assemble_eq_ok {yedInputs : List Utxo} {tokens : List TokenOutput} {changeHash : Arr 20}
    {tip : Nat} {branchId : UInt32} {a : Assembled}
    (h : assemble C w yedInputs tokens changeHash tip branchId = some (.ok a)) :
    ∃ baseFee tx, Assembles w yedInputs tokens changeHash tip a baseFee tx := by
  rw [assemble] at h
  cases hencode : encode (.transfer (assignmentsFor tokens)) with
  | none =>
    rw [hencode] at h
    cases h
  | some payload =>
    rw [hencode] at h
    dsimp only at h
    split at h
    · cases h
    · rename_i hstandard
      split at h
      · cases h
      · cases h
      · rename_i baseFee yecInputs hfund
        rw [Option.some.injEq] at h
        simp only [finishTransfer, Result.bind_eq_ok] at h
        obtain ⟨tx₁, h₁, tx₂, h₂, raw, hraw, h⟩ := h
        cases h
        have hserialize : tx₂.serialize = .ok raw := by
          cases hs : tx₂.serialize with
          | error e =>
            rw [hs] at hraw
            cases hraw
          | ok b =>
            rw [hs] at hraw
            cases hraw
            rfl
        refine ⟨baseFee, tx₂, ?_, hencode, hfund, rfl, rfl, ?_, hserialize⟩
        · intro u hu
          by_contra hne
          exact hstandard (List.any_eq_true.mpr ⟨u, hu, decide_eq_true hne⟩)
        · exact (Wallet.sameBody_of_signP2pkhInputs h₁).trans
            (Wallet.sameBody_of_signP2pkhInputs h₂)

theorem assemble_ne_none {yedInputs : List Utxo} {tokens : List TokenOutput} {changeHash : Arr 20}
    {tip : Nat} {branchId : UInt32} :
    assemble C w yedInputs tokens changeHash tip branchId ≠ none := by
  rw [assemble]
  split
  · nofun
  · dsimp only
    split
    · nofun
    · split
      · rename_i hfund
        exact absurd hfund fund_ne_none
      · nofun
      · nofun

theorem zats_of_standard {us : List Utxo} (h : ∀ u ∈ us, u.value = tokenZat) :
    zats us = us.length * tokenZat := by
  induction us with
  | nil => simp
  | cons u us ih =>
    rw [zats_cons, h u List.mem_cons_self, ih fun v hv ↦ h v (List.mem_cons_of_mem u hv)]
    push_cast [List.length_cons]
    ring

theorem paid_transferOuts {tokens : List TokenOutput} {payload : Bytes} {yecChange : Int}
    {changeHash : Arr 20} (h : 0 ≤ yecChange) :
    paid (transferOuts tokens payload yecChange changeHash) =
      tokens.length * tokenZat + yecChange := by
  have htokens : paid (tokens.map fun o ↦ ⟨tokenZat, o.1⟩) = tokens.length * tokenZat := by
    simp [paid, Function.comp_def]
  rw [transferOuts, paid_append, htokens, paid_cons]
  split
  · simp
  · simp
    omega

namespace Assembles

variable {yedInputs : List Utxo} {tokens : List TokenOutput} {changeHash : Arr 20} {tip : Nat}
  {a : Assembled} {baseFee : Int} {tx : Transaction}

/-- The spare is not negative: the coins cover what they were selected for. -/
theorem spare_nonneg (h : Assembles w yedInputs tokens changeHash tip a baseFee tx) :
    0 ≤ zats a.yecInputs -
      (tokens.length * tokenZat + baseFee - yedInputs.length * tokenZat) := by
  obtain ⟨-, hcovers, -⟩ := fund_eq_ok h.funded
  omega

theorem change_nonneg (h : Assembles w yedInputs tokens changeHash tip a baseFee tx) :
    0 ≤ a.yecChange := by
  rw [h.change]
  exact (keepChange_spec h.spare_nonneg).1

/-- What goes in and does not come out is the fee. -/
theorem balance (h : Assembles w yedInputs tokens changeHash tip a baseFee tx) :
    zats (yedInputs ++ a.yecInputs) -
      paid (transferOuts tokens a.payload a.yecChange changeHash) = a.fee := by
  rw [zats_append, zats_of_standard h.standard, paid_transferOuts h.change_nonneg, h.fee]
  ring

/-- The fee is no less than the price of the inputs. -/
theorem priced (h : Assembles w yedInputs tokens changeHash tip a baseFee tx) :
    w.pqTerms.networkFee (yedInputs ++ a.yecInputs) ≤ a.fee := by
  obtain ⟨-, -, hprice⟩ := fund_eq_ok h.funded
  have hle := (keepChange_spec h.spare_nonneg).2.1
  rw [h.fee, h.change]
  omega

theorem length_le (h : Assembles w yedInputs tokens changeHash tip a baseFee tx) :
    tokens.length ≤ maxAssignments := by
  simpa using encode_transfer h.encoded

end Assembles

/-! ## Outputs and payload -/

theorem getElem?_transferOuts {tokens : List TokenOutput} {payload : Bytes} {yecChange : Int}
    {changeHash : Arr 20} {i : Nat} {t : TokenOutput} (h : tokens[i]? = some t) :
    (transferOuts tokens payload yecChange changeHash)[i]? = some ⟨tokenZat, t.1⟩ := by
  have hlt := (List.getElem?_eq_some_iff.mp h).1
  rw [transferOuts, List.getElem?_append_left (by simpa using hlt), List.getElem?_map, h]
  rfl

/-- An output of a token's value is one of the token outputs. -/
theorem lt_of_value_eq_tokenZat {tokens : List TokenOutput} {payload : Bytes} {yecChange : Int}
    {changeHash : Arr 20} (hchange : yecChange ≠ tokenZat) {i : Nat} {o : Out}
    (h : (transferOuts tokens payload yecChange changeHash)[i]? = some o)
    (ho : o.value = tokenZat) : i < tokens.length := by
  by_contra hge
  rw [transferOuts, List.getElem?_append_right (by simpa using hge)] at h
  have hmem := List.mem_of_getElem? h
  rcases List.mem_cons.mp hmem with rfl | hmem
  · simp at ho
  · split at hmem
    · rw [List.mem_singleton] at hmem
      subst hmem
      exact hchange ho
    · simp at hmem

/-- The payload of a transfer is the only `OP_RETURN`, and is found. -/
theorem findPayload_transferOuts {tokens : List TokenOutput} {payload : Bytes} {yecChange : Int}
    {changeHash : Arr 20} {tx : Transaction}
    (hvout : tx.vout = (transferOuts tokens payload yecChange changeHash).map Out.toTxOut)
    (hencode : encode (.transfer (assignmentsFor tokens)) = some payload)
    (hscripts : ∀ t ∈ tokens, isOpReturn t.1 = false) :
    opReturns tx.vout = 1 ∧
      findPayload tx = some ⟨.transfer (assignmentsFor tokens), tokens.length⟩ := by
  have hlen : tokens.length ≤ maxAssignments := by simpa using encode_transfer hencode
  rw [maxAssignments] at hlen
  have hfound : findPayload tx = some ⟨.transfer (assignmentsFor tokens),
      (tokens.map fun o ↦ (⟨tokenZat, o.1⟩ : Out)).length⟩ := by
    refine findPayload_outs hvout ?_ ?_ hencode ?_
    · intro o ho
      obtain ⟨t, ht, rfl⟩ := List.mem_map.mp ho
      exact hscripts t ht
    · intro o ho
      split at ho
      · rw [List.mem_singleton] at ho
        subst ho
        rfl
      · simp at ho
    · intro a ha
      obtain ⟨i, hi⟩ := List.getElem?_of_mem ha
      rw [Payload.assignments, getElem?_assignmentsFor] at hi
      obtain ⟨t, ht, rfl⟩ := Option.map_eq_some_iff.mp hi
      have hlt := (List.getElem?_eq_some_iff.mp ht).1
      rw [toNat_ofNat_of_lt (by omega), List.length_map]
      omega
  rw [List.length_map] at hfound
  exact ⟨(findPayload_spec hfound).1, hfound⟩

/-! ## Choosing -/

/-- A recipient and its token output. -/
def Pays (C : Crypto) (network : Network) (falcon : Bool) (r : String × Nat) (t : TokenOutput) :
    Prop :=
  yedHolderScript C network r.1 falcon = .ok t.1 ∧ t.2.toNat = r.2 ∧ minOutputCents ≤ r.2 ∧
    r.2 ≤ maxOutputCents

theorem isOpReturn_yedHolderScript {network : Network} {dest : String} {falcon : Bool}
    {s : Bytes} (h : yedHolderScript C network dest falcon = .ok s) : isOpReturn s = false := by
  rw [yedHolderScript] at h
  split at h
  · split at h <;> cases h
  · cases h
  · split at h
    · cases h
    · cases h
      rfl
  · split at h
    · split at h
      · split at h
        · rename_i hs
          cases h
          exact isOpReturn_pqpkhScript hs
        · cases h
      · cases h
    · split at h <;> cases h

theorem recipientOutputs_eq_ok {falcon : Bool} {recipients : List (String × Nat)}
    {outs : List TokenOutput} (h : recipientOutputs C w falcon recipients = .ok outs) :
    List.Forall₂ (Pays C w.network falcon) recipients outs := by
  induction recipients generalizing outs with
  | nil =>
    cases h
    exact .nil
  | cons r rest ih =>
    obtain ⟨dest, amount⟩ := r
    rw [recipientOutputs, Result.guard_eq_ok] at h
    obtain ⟨hamount, h⟩ := h
    simp only [Result.bind_eq_ok] at h
    obtain ⟨script, hscript, outs', houts, h⟩ := h
    cases h
    refine .cons ⟨hscript, ?_, by omega, by omega⟩ (ih houts)
    rw [UInt32.toNat_ofNat']
    rw [maxOutputCents] at hamount
    omega

theorem sum_of_pays {falcon : Bool} {network : Network} {recipients : List (String × Nat)}
    {outs : List TokenOutput} (h : List.Forall₂ (Pays C network falcon) recipients outs) :
    (outs.map fun o ↦ o.2.toNat).sum = (recipients.map Prod.snd).sum ∧
      minOutputCents * recipients.length ≤ (recipients.map Prod.snd).sum ∧
      (recipients.map Prod.snd).sum ≤ maxOutputCents * recipients.length := by
  induction h with
  | nil => simp
  | cons hpays _ ih =>
    obtain ⟨-, hcents, hmin, hmax⟩ := hpays
    simp only [List.map_cons, List.sum_cons, List.length_cons]
    refine ⟨by omega, ?_, ?_⟩
    · rw [Nat.mul_succ]
      omega
    · rw [Nat.mul_succ]
      omega

/-- The cents of the wallet's tokens, as the selector sees them. -/
def tokenAmounts (w : Wallet) : List Int :=
  (rankedTokens w.spendable).map fun c ↦ (c.cents : Int)

/-- The coins at some indexes are worth what the selector counts. -/
theorem cents_filterMap_getElem? {us : List Utxo} {idx : List Nat}
    (h : ∀ i ∈ idx, i < us.length) :
    (cents (idx.filterMap (us[·]?)) : Int) =
      (idx.map (CoinSelect.coin (us.map fun c ↦ (c.cents : Int)))).sum := by
  rw [← sum_filterMap_getElem? (fun c : Utxo ↦ (c.cents : Int)) h]
  generalize idx.filterMap (us[·]?) = us'
  induction us' with
  | nil => rfl
  | cons u us' ih =>
    rw [List.map_cons, List.sum_cons, ← ih]
    simp [cents]

/-- The tokens chosen are worth what is needed and the change, and the change fits 32 bits exactly
when the wallet's tokens are snug. -/
theorem selectYed_eq_ok {needed change : Nat} {us : List Utxo} {stage : SelectStage}
    (hpos : 0 < needed) (hsmall : needed + 2 * minOutputCents ≤ 2 ^ 32)
    (h : selectYed w needed = .ok (us, stage, change)) :
    cents us = needed + change ∧
      (change < 2 ^ 32 ↔ Snug (tokenAmounts w) needed minOutputCents maxInputs (2 ^ 32)) := by
  rw [selectYed] at h
  dsimp only at h
  rw [← tokenAmounts] at h
  cases hok : (selectFloorAware (tokenAmounts w) needed minOutputCents maxInputs false).ok with
  | false =>
    rw [hok] at h
    simp only [Bool.not_false, if_true] at h
    split at h
    · cases h
    · split at h <;> cases h
  | true =>
    have hstages := selectStages_of_ok (by exact_mod_cast hpos) hok
    rw [hok] at h
    generalize selectFloorAware (tokenAmounts w) needed minOutputCents maxInputs false = s at *
    cases h
    have hcap : 0 < maxInputs := by decide
    obtain ⟨-, hstage, hanswers⟩ := (@answers_selectStages _ _ _ _ hcap false) hstages
    have hiff := (@change_lt_iff _ _ _ _ _ (2 ^ 32)) (by exact_mod_cast hpos) (by omega) hcap
      (by exact_mod_cast hsmall) hstages
    have hnonneg : 0 ≤ s.change := by
      have := hanswers.change
      rw [minOutputCents] at this
      omega
    have hbounded : ∀ i ∈ s.inputs, i < (rankedTokens w.spendable).length := by
      intro i hi
      simpa [tokenAmounts] using hanswers.bounded i hi
    have hcents := cents_filterMap_getElem? hbounded
    have hsum := hanswers.sum_eq
    have hbalance := hanswers.balance
    have hburn := hanswers.noBurn hstage
    rw [← tokenAmounts] at hcents
    constructor
    · omega
    · rw [← hiff]
      omega

theorem changeOutput_eq_ok {row : AddressRow} {falcon : Bool} {changeCents : Nat}
    {outs : List TokenOutput} (h : changeOutput row falcon changeCents = .ok outs) :
    (changeCents = 0 ∧ outs = []) ∨
      ∃ script, Wallet.yedHolderScript row falcon = .ok script ∧ 0 < changeCents ∧
        outs = [(script, UInt32.ofNat changeCents)] := by
  rw [changeOutput] at h
  split at h
  · rename_i hpos
    rw [Result.bind_eq_ok] at h
    obtain ⟨script, hscript, h⟩ := h
    cases h
    exact .inr ⟨script, hscript, hpos, rfl⟩
  · cases h
    exact .inl ⟨by omega, rfl⟩

/-- What `build_yed_transfer` chose. -/
structure Plans (C : Crypto) (w : Wallet) (recipients : List (String × Nat)) (falcon : Bool)
    (p : TransferPlan) (outs change : List TokenOutput) : Prop where
  nonempty : recipients ≠ []
  length_le : recipients.length ≤ maxRecipients
  pays : List.Forall₂ (Pays C w.network falcon) recipients outs
  selected : selectYed w (recipients.map Prod.snd).sum = .ok (p.yedInputs, p.stage, p.changeCents)
  row : w.changeAddress = .ok p.changeRow
  changed : changeOutput p.changeRow falcon p.changeCents = .ok change
  tokens : p.tokens = outs ++ change

theorem planTransfer_eq_ok {recipients : List (String × Nat)} {tip : Nat} {p : TransferPlan}
    (h : planTransfer C w recipients tip = .ok p) :
    ∃ outs change, Plans C w recipients (w.pqTerms.falconAt (tip + 1)) p outs change := by
  rw [planTransfer, Result.guard_eq_ok, Result.guard_eq_ok] at h
  obtain ⟨hne, hlen, h⟩ := h
  simp only [Result.bind_eq_ok] at h
  obtain ⟨outs, houts, ⟨us, stage, changeCents⟩, hsel, row, hrow, change, hchange, h⟩ := h
  cases h
  refine ⟨outs, change, ?_, by omega, recipientOutputs_eq_ok houts, hsel, hrow, hchange, rfl⟩
  simpa using hne

namespace Plans

variable {recipients : List (String × Nat)} {falcon : Bool} {p : TransferPlan}
  {outs change : List TokenOutput}

theorem needed_bounds (h : Plans C w recipients falcon p outs change) :
    0 < (recipients.map Prod.snd).sum ∧
      (recipients.map Prod.snd).sum + 2 * minOutputCents ≤ 2 ^ 32 := by
  obtain ⟨-, hmin, hmax⟩ := sum_of_pays h.pays
  have hlen := h.length_le
  have hpos := List.length_pos_iff.mpr h.nonempty
  rw [maxRecipients, maxAssignments] at hlen
  rw [minOutputCents] at hmin ⊢
  rw [maxOutputCents] at hmax
  omega

/-- The cents assigned are those of the recipients and the low 32 bits of the change. -/
theorem assigned_eq (h : Plans C w recipients falcon p outs change) :
    assigned (assignmentsFor p.tokens) =
      (recipients.map Prod.snd).sum + p.changeCents % 2 ^ 32 := by
  have houts := (sum_of_pays h.pays).1
  have hchange : (change.map fun o ↦ o.2.toNat).sum = p.changeCents % 2 ^ 32 := by
    rcases changeOutput_eq_ok h.changed with ⟨hzero, rfl⟩ | ⟨script, -, -, rfl⟩
    · rw [hzero]
      rfl
    · simp [UInt32.toNat_ofNat']
  rw [assigned_assignmentsFor, h.tokens, List.map_append, List.sum_append, houts, hchange]

theorem isOpReturn_tokens (h : Plans C w recipients falcon p outs change) :
    ∀ t ∈ p.tokens, isOpReturn t.1 = false := by
  intro t ht
  rw [h.tokens, List.mem_append] at ht
  rcases ht with ht | ht
  · obtain ⟨i, hi, rfl⟩ := List.mem_iff_getElem.mp ht
    have hi' : i < recipients.length := by
      rw [h.pays.length_eq]
      exact hi
    exact isOpReturn_yedHolderScript ((List.forall₂_iff_get.mp h.pays).2 i hi' hi).1
  · rcases changeOutput_eq_ok h.changed with ⟨-, rfl⟩ | ⟨script, hscript, -, rfl⟩
    · simp at ht
    · rw [List.mem_singleton] at ht
      subst ht
      exact Wallet.isOpReturn_yedHolderScript hscript

/-- The token output of a recipient. -/
theorem getElem?_recipient (h : Plans C w recipients falcon p outs change) {i : Nat}
    {r : String × Nat} (hr : recipients[i]? = some r) :
    ∃ t, p.tokens[i]? = some t ∧ Pays C w.network falcon r t := by
  obtain ⟨hi, rfl⟩ := List.getElem?_eq_some_iff.mp hr
  have hlen := h.pays.length_eq
  have hi' : i < outs.length := by omega
  refine ⟨outs[i], ?_, (List.forall₂_iff_get.mp h.pays).2 i hi hi'⟩
  rw [h.tokens, List.getElem?_append_left hi', List.getElem?_eq_getElem hi']

/-- The token outputs behind those of the recipients: the change, if any. -/
theorem getElem?_change (h : Plans C w recipients falcon p outs change) {i : Nat}
    {t : TokenOutput} (ht : p.tokens[i]? = some t) (hi : recipients.length ≤ i) :
    i = recipients.length ∧ Wallet.yedHolderScript p.changeRow falcon = .ok t.1 := by
  have hlen := h.pays.length_eq
  rw [h.tokens, List.getElem?_append_right (by omega)] at ht
  rcases changeOutput_eq_ok h.changed with ⟨-, rfl⟩ | ⟨script, hscript, -, rfl⟩
  · simp at ht
  · rw [List.getElem?_singleton] at ht
    split at ht
    · cases ht
      exact ⟨by omega, hscript⟩
    · cases ht

end Plans

/-! ## What a built transfer conserves -/

/-- A transfer that conserves cents and zatoshi: `tx` is its transaction, `outs` are the outputs
and `as` the assignments.  The values of the outputs are integers, and stand in the transaction as
their 64-bit words; they are parts of what the wallet's coins are worth, and fit. -/
structure Conserves (C : Crypto) (w : Wallet) (tip : Nat) (p : YedTransferPreview)
    (tx : Transaction) (outs : List Out) (as : List Assignment) : Prop where
  raw : tx.serialize = .ok p.raw
  vin : tx.vin.map TxIn.prevout = (p.yedInputs ++ p.yecInputs).map Utxo.outpoint
  vout : tx.vout = outs.map Out.toTxOut
  /-- The cents of the tokens spent are the cents assigned. -/
  cents : Coins.cents p.yedInputs = assigned as
  /-- A recipient is assigned its cents on a token output to its script. -/
  recipient : ∀ i r, p.recipients[i]? = some r → ∃ (a : Assignment) (script : Bytes), as[i]? = some a ∧
    a.vout.toNat = i ∧ a.cents.toNat = r.2 ∧
    yedHolderScript C w.network r.1 (w.pqTerms.falconAt (tip + 1)) = .ok script ∧
    outs[i]? = some ⟨tokenZat, script⟩
  /-- What else is assigned is the change, on a token output to the wallet's own script. -/
  change : ∀ (i : Nat) (a : Assignment), as[i]? = some a → p.recipients.length ≤ i →
    i = p.recipients.length ∧ a.vout.toNat = i ∧ ∃ row script, w.changeAddress = .ok row ∧
      Wallet.yedHolderScript row (w.pqTerms.falconAt (tip + 1)) = .ok script ∧
      outs[i]? = some ⟨tokenZat, script⟩
  /-- There is one `OP_RETURN` output, and it decodes to these assignments. -/
  payload : opReturns tx.vout = 1 ∧ decode p.payload = some (.transfer as) ∧
    ∃ k, findPayload tx = some ⟨.transfer as, k⟩
  /-- What goes in and does not come out is the fee. -/
  balance : zats (p.yedInputs ++ p.yecInputs) - paid outs = p.fee
  /-- The fee is at least the price of the inputs. -/
  priced : w.pqTerms.networkFee (p.yedInputs ++ p.yecInputs) ≤ p.fee
  /-- Every output of a token's value is assigned cents, so YEC change is not one. -/
  token : ∀ i o, outs[i]? = some o → o.value = tokenZat → ∃ a ∈ as, a.vout.toNat = i

theorem buildYedTransfer_eq_ok {recipients : List (String × Nat)} {tip : Nat} {branchId : UInt32}
    {p : YedTransferPreview} (h : buildYedTransfer C w recipients tip branchId = some (.ok p)) :
    ∃ plan a, planTransfer C w recipients tip = .ok plan ∧
      assemble C w plan.yedInputs plan.tokens plan.changeRow.hash160 tip branchId =
        some (.ok a) ∧ previewTransfer C w recipients plan a = .ok p := by
  rw [buildYedTransfer] at h
  split at h
  · cases h
  · rename_i plan hplan
    split at h
    · cases h
    · cases h
    · rename_i a ha
      exact ⟨plan, a, hplan, ha, Option.some.inj h⟩

theorem buildYedTransfer_ne_none {recipients : List (String × Nat)} {tip : Nat}
    {branchId : UInt32} : buildYedTransfer C w recipients tip branchId ≠ none := by
  rw [buildYedTransfer]
  split
  · nofun
  · split
    · rename_i hnone
      exact absurd hnone assemble_ne_none
    · nofun
    · nofun

/-- A transfer that was built conserves exactly when the wallet's tokens are snug. -/
theorem exists_conserves_iff {recipients : List (String × Nat)} {tip : Nat} {branchId : UInt32}
    {p : YedTransferPreview} (h : buildYedTransfer C w recipients tip branchId = some (.ok p)) :
    (∃ tx outs as, Conserves C w tip p tx outs as) ↔
      Snug (tokenAmounts w) (recipients.map Prod.snd).sum minOutputCents maxInputs (2 ^ 32) := by
  obtain ⟨plan, a, hplan, hassemble, hpreview⟩ := buildYedTransfer_eq_ok h
  obtain ⟨outs, change, hplans⟩ := planTransfer_eq_ok hplan
  obtain ⟨baseFee, tx, ha⟩ := assemble_eq_ok hassemble
  obtain ⟨hpos, hsmall⟩ := hplans.needed_bounds
  obtain ⟨hcents, hsnug⟩ := selectYed_eq_ok hpos hsmall hplans.selected
  have hassigned := hplans.assigned_eq
  rw [previewTransfer, Result.bind_eq_ok] at hpreview
  obtain ⟨-, -, hpreview⟩ := hpreview
  cases hpreview
  have hdecode := (decode_encode ha.encoded).1
  rw [← hsnug]
  constructor
  · rintro ⟨tx', outs', as, hc⟩
    -- the payload pins the assignments
    have hpayload := hc.payload.2.1
    rw [hdecode] at hpayload
    cases hpayload
    have := hc.cents
    dsimp only at this
    omega
  · intro hfits
    have hvout : tx.vout = (transferOuts plan.tokens a.payload a.yecChange
        plan.changeRow.hash160).map Out.toTxOut := ha.body.vout
    have hpayload := findPayload_transferOuts hvout ha.encoded hplans.isOpReturn_tokens
    have hlen := ha.length_le
    rw [maxAssignments] at hlen
    refine ⟨tx, _, assignmentsFor plan.tokens, ha.raw, ?_, hvout, ?_, ?_, ?_,
      ⟨hpayload.1, hdecode, _, hpayload.2⟩, ha.balance, ha.priced, ?_⟩
    · rw [ha.body.prevouts, transferTx, newV4, List.map_map]
      rfl
    · dsimp only
      rw [hassigned, Nat.mod_eq_of_lt hfits]
      exact hcents
    · intro i r hr
      obtain ⟨t, ht, hpays⟩ := hplans.getElem?_recipient hr
      have hlt := (List.getElem?_eq_some_iff.mp ht).1
      refine ⟨⟨UInt8.ofNat i, t.2⟩, t.1, ?_, toNat_ofNat_of_lt (by omega), hpays.2.1, hpays.1,
        getElem?_transferOuts ht⟩
      rw [getElem?_assignmentsFor, ht]
      rfl
    · intro i b hb hi
      rw [getElem?_assignmentsFor] at hb
      obtain ⟨t, ht, rfl⟩ := Option.map_eq_some_iff.mp hb
      have hlt := (List.getElem?_eq_some_iff.mp ht).1
      obtain ⟨hi, hscript⟩ := hplans.getElem?_change ht hi
      exact ⟨hi, toNat_ofNat_of_lt (by omega), _, _, hplans.row, hscript, getElem?_transferOuts ht⟩
    · intro i o ho hvalue
      have hne : a.yecChange ≠ tokenZat := by
        rw [ha.change]
        exact (keepChange_spec ha.spare_nonneg).2.2.2
      have hlt := lt_of_value_eq_tokenZat hne ho hvalue
      refine ⟨⟨UInt8.ofNat i, plan.tokens[i].2⟩, ?_, toNat_ofNat_of_lt (by omega)⟩
      refine List.mem_of_getElem? (i := i) ?_
      rw [getElem?_assignmentsFor, List.getElem?_eq_getElem hlt]
      rfl

/-- A transfer conserves exactly when the change it leaves fits the 32 bits of an assignment; and
the loop that funds it ends. -/
theorem buildYedTransfer_conserves (C : Crypto) (w : Wallet) (recipients : List (String × Nat))
    (tip : Nat) (branchId : UInt32) :
    buildYedTransfer C w recipients tip branchId ≠ none ∧
      ∀ p, buildYedTransfer C w recipients tip branchId = some (.ok p) →
        ((∃ tx outs as, Conserves C w tip p tx outs as) ↔
          Snug (tokenAmounts w) (recipients.map Prod.snd).sum minOutputCents maxInputs
            (2 ^ 32)) :=
  ⟨buildYedTransfer_ne_none, fun _ h ↦ exists_conserves_iff h⟩

/-! ## A wallet of one token -/

/-- A wallet with one token of so many cents and one coin of YEC. -/
def sampleWallet (tokenCents : Nat) : Wallet where
  network := .regtest
  pqTerms := ⟨100, 100, 100, 1000, 1000000000, none, false⟩
  spendable := [
    ⟨⟨List.Vector.replicate 32 1, 0⟩, "token", p2pkhScript (List.Vector.replicate 20 1), 10000, 5,
      .token, tokenCents⟩,
    ⟨⟨List.Vector.replicate 32 2, 0⟩, "yec", p2pkhScript (List.Vector.replicate 20 2), 1000000, 5,
      .yec, 0⟩]
  changeAddress := .ok ⟨List.Vector.replicate 20 3, "change", none⟩
  freshExternal _ := .error (.other "none")
  addresses := .ok []
  pqOwnerForHash _ := none
  keyForHash _ := .ok none
  scriptSig _ _ _ _ := .ok []
  classOf o := if o.txid = List.Vector.replicate 32 1 then some .token else some .yec

/-- A hundred dollars to one recipient. -/
def sampleRecipients : List (String × Nat) :=
  [(encodeP2pkh Crypto.blank .regtest (List.Vector.replicate 20 7), 10000)]

theorem isOk_sample (tokenCents : Nat)
    (h : (match buildYedTransfer Crypto.blank (sampleWallet tokenCents) sampleRecipients 100 0 with
      | some (.ok _) => true
      | _ => false) = true) :
    ∃ p, buildYedTransfer Crypto.blank (sampleWallet tokenCents) sampleRecipients 100 0 =
      some (.ok p) := by
  split at h
  · rename_i p hp
    exact ⟨p, hp⟩
  · cases h

theorem buildYedTransfer_conserves_sample :
    ∃ p, buildYedTransfer Crypto.blank (sampleWallet 30000) sampleRecipients 100 0 =
        some (.ok p) ∧
      ∃ tx outs as, Conserves Crypto.blank (sampleWallet 30000) 100 p tx outs as := by
  obtain ⟨p, hp⟩ := isOk_sample 30000 (by decide +kernel)
  refine ⟨p, hp, ((buildYedTransfer_conserves _ _ _ _ _).2 p hp).mpr ?_⟩
  unfold Snug
  decide +kernel

/-- From a token of 4,294,987,296 cents a hundred dollars go to the recipient and a hundred to the
change: 4,294,967,296 cents are assigned to nobody. -/
theorem not_conserves_sample :
    ∃ p, buildYedTransfer Crypto.blank (sampleWallet (2 ^ 32 + 20000)) sampleRecipients 100 0 =
        some (.ok p) ∧
      ¬ ∃ tx outs as, Conserves Crypto.blank (sampleWallet (2 ^ 32 + 20000)) 100 p tx outs as := by
  obtain ⟨p, hp⟩ := isOk_sample (2 ^ 32 + 20000) (by decide +kernel)
  refine ⟨p, hp, fun h ↦ ?_⟩
  have hsnug := (exists_conserves_iff hp).mp h
  revert hsnug
  unfold Snug
  decide +kernel

end Yew.Build
