import Mathlib.Tactic.Positivity
import Yew.Daemon.SendFee
import Yew.Proto.Preview

/-!
# What a payment takes out of the wallet

With the transaction the signer gets a cap, and it refuses when more leaves the wallet: the inputs it
signs less the outputs to the wallet's own keys.  `send_yec` states the recipients' amounts and its
fee.  Change that is left out is not in the cap.

The function is `send_yec` of `yewd/wallet/src/send.rs`, the cap is checked in
`yewd/signer/src/sign.rs`.  The outflow is the one that the signer computes, so what is proved here
is when its check fails a payment that is in order.
-/

namespace Yew.Daemon

open Script Tx Pq Proto Proc Yellowback Build

/-! ## The preview -/

/-- The positions of the elements that satisfy `q`. -/
def indicesOf {α : Type} (q : α → Bool) (as : List α) : List Nat :=
  ((indexed 0 as).filter fun x ↦ q x.2).map Prod.fst

theorem mem_indicesOf {α : Type} {q : α → Bool} {as : List α} {i : Nat} {x : α}
    (h : as[i]? = some x) : decide (0 + i ∈ indicesOf q as) = q x := by
  rw [Nat.zero_add, Bool.eq_iff_iff, decide_eq_true_eq, indicesOf]
  simp only [List.mem_map, List.mem_filter, Prod.exists, mem_indexed, Nat.zero_add]
  constructor
  · rintro ⟨_, y, ⟨⟨j, rfl, hy⟩, hq⟩, rfl⟩
    obtain rfl := Option.some.inj (h.symm.trans hy)
    exact hq
  · intro hq
    exact ⟨i, x, ⟨⟨i, rfl, h⟩, hq⟩, rfl⟩

/-- The elements at the positions of those that satisfy `q`, as `f` shows them. -/
theorem filter_indicesOf {α β : Type} (f : α → β) (q : α → Bool) (as : List α) :
    ((indexed 0 (as.map f)).filter fun x ↦ x.1 ∈ indicesOf q as).map Prod.snd =
      (as.filter q).map f :=
  filter_indexed_map (p := fun i ↦ i ∈ indicesOf q as) fun _ _ hx ↦ mem_indicesOf hx

namespace SignAsk

variable (a : SignAsk) (w : Wallet)

/-- What leaves the wallet: the inputs to sign less the outputs to its own keys. -/
def outflow : Int :=
  worth ((a.inputs.filter fun i ↦ i.2 ≠ .none).map Prod.fst) -
    paid (a.outs.filter fun o ↦ (w.keyOfScript o.scriptPubkey).isSome)

/-- The inputs to sign, as `sign_inputs_hex` names them. -/
def signed : List Nat := indicesOf (fun i ↦ i.2 ≠ .none) a.inputs

/-- The outputs to the wallet's own keys, as `sign_inputs_hex` names them. -/
def own : List Nat := indicesOf (fun o ↦ (w.keyOfScript o.scriptPubkey).isSome) a.outs

/-- The prevouts of a request. -/
def prevouts : List Prevout :=
  a.inputs.map fun i ↦ ⟨i.1.outpoint.display, Hex.encode i.1.script, Int64.ofInt i.1.value⟩

theorem toInt_sumZat_ofInt (vs : List Int) :
    (sumZat (vs.map Int64.ofInt)).toInt = vs.sum.bmod (2 ^ 64) := by
  induction vs with
  | nil => rfl
  | cons v vs ih =>
    rw [List.map_cons, sumZat, Int64.toInt_add, ih, Int64.toInt_ofInt, List.sum_cons,
      Int.add_bmod_bmod]
    exact Int.bmod_add_bmod

/-- The outflow of the preview is what leaves the wallet, as the word it is computed in. -/
theorem toInt_outflowZat (C : Crypto) (network : Keys.Network) :
    (compute C network a.tx a.prevouts a.signed (a.own w)).outflowZat.toInt =
      (a.outflow w).bmod (2 ^ 64) := by
  have hsigned : signedAmounts a.prevouts a.signed =
      ((a.inputs.filter fun i ↦ i.2 ≠ .none).map fun i ↦ i.1.value).map Int64.ofInt := by
    have := congrArg (List.map Prevout.amountZat) (filter_indicesOf (fun i : Chosen × KeyRef ↦
      (⟨i.1.outpoint.display, Hex.encode i.1.script, Int64.ofInt i.1.value⟩ : Prevout))
      (fun i ↦ i.2 ≠ .none) a.inputs)
    rw [List.map_map, List.map_map] at this
    rw [signedAmounts, List.map_map]
    exact this
  have hown : ownValues a.tx.vout (a.own w) =
      ((a.outs.filter fun o ↦ (w.keyOfScript o.scriptPubkey).isSome).map Out.value).map
        Int64.ofInt := by
    have := congrArg (List.map TxOut.value) (filter_indicesOf Out.toTxOut
      (fun o ↦ (w.keyOfScript o.scriptPubkey).isSome) a.outs)
    rw [List.map_map, List.map_map] at this
    rw [ownValues, List.map_map]
    exact this
  show (sumZat _ - sumZat _).toInt = _
  rw [hsigned, hown, Int64.toInt_sub, toInt_sumZat_ofInt, toInt_sumZat_ofInt, outflow, worth, paid,
    List.map_map]
  simp only [Int.bmod_sub_bmod, Int.sub_bmod_bmod]
  rfl

end SignAsk

/-! ## The wallet's side -/

section Own

variable {env : Env} {A : Answers} {back : Bool} {coins : List Chosen} {recipients : List Recipient}
  {fee : Int} {p p' : Purse}

theorem keysMoved_payChange (fault : Option String) (change : Int) (chosen : List Chosen)
    (outs : List Out) :
    Moves (KeysMoved env) (payChange env back fault recipients change chosen outs) := by
  refine Moves.ite (Moves.bind ?_ fun _ ↦ Moves.lift _) (Moves.pure _)
  unfold changeScript
  split
  · exact Moves.pure _
  · exact keysMoved_newChange fault

theorem keysMoved_sendRound (fees : PlainFees) (fault : Option String) (expiryHeight : UInt32) :
    Moves (KeysMoved env) (sendRound env fees back fault expiryHeight coins recipients fee) := by
  refine Moves.bind (Moves.lift _) fun outs ↦ Moves.ite (Moves.throw _) ?_
  exact Moves.bind (keysMoved_payChange _ _ _ _) fun outs ↦ Moves.bind (Moves.lift _) fun _ ↦
    Moves.pure _

theorem keysMoved_sendRounds (next : Next) (rounds : List (PlainFees × Option String)) :
    Moves (KeysMoved env) (sendRounds env back next coins recipients rounds fee) := by
  induction rounds generalizing fee with
  | nil => exact Moves.throw _
  | cons r rs ih =>
    refine Moves.bind (keysMoved_sendRound _ _ _) fun x ↦ Moves.ite ih ?_
    exact Moves.bind Moves.get fun _ ↦ Moves.pure _

theorem isSome_keyOfScript {w : Wallet} {s : Bytes} :
    (w.keyOfScript s).isSome = (w.book.ownsScript s).isSome := Option.isSome_map

/-- The signer is given a key for every coin that the wallet owns. -/
theorem getD_keyOfScript_ne_none {w : Wallet} {s : Bytes} (h : (w.book.ownsScript s).isSome) :
    (w.keyOfScript s).getD .none ≠ .none := by
  obtain ⟨o, ho⟩ := Option.isSome_iff_exists.mp h
  rw [Wallet.keyOfScript, ho]
  cases o with
  | t chain i => nofun
  | pq scheme i => nofun

theorem owns_spendableYec (hw : p.wallet.Backed) {minDepth : Int} {withPq : Bool}
    (h : p.spendableYec A minDepth withPq = .ok coins) :
    ∀ c ∈ coins, (p.wallet.book.ownsScript c.script).isSome := by
  intro ch hch
  obtain ⟨c, hc, -, hscript, -⟩ := mem_spendableYec h hch
  rw [hscript]
  exact hw.owned c hc

theorem mem_of_largestCoin {chosen : List Chosen} {c : Chosen} (h : largestCoin chosen = some c) :
    c ∈ chosen := by
  induction chosen with
  | nil => cases h
  | cons d ds ih =>
    rw [largestCoin] at h
    split at h
    · cases h
      exact List.mem_cons_self
    · rename_i e he
      split at h
      · cases h
        exact List.mem_cons_self
      · cases h
        exact List.mem_cons_of_mem d (ih he)

/-- The change goes to a key of the wallet. -/
theorem owns_changeScript {fault : Option String} {chosen : List Chosen} {s : Bytes}
    (hw : p'.wallet.Ready env)
    (hchosen : ∀ c ∈ chosen, (p'.wallet.book.ownsScript c.script).isSome)
    (h : changeScript env back fault chosen p = (.ok s, p')) :
    (p'.wallet.book.ownsScript s).isSome := by
  rcases changeScript_cases h with ⟨c, hc, rfl, -⟩ | ⟨-, hnew⟩
  · unfold backCoin at hc
    split at hc
    · exact hchosen c (mem_of_largestCoin hc)
    · cases hc
  · exact newChange_eq_ok hnew hw.hashed

end Own

/-! ## The outputs -/

section Outs

variable {env : Env} {back : Bool} {coins : List Chosen} {recipients : List Recipient} {fee : Int}
  {p p' : Purse} {fees : PlainFees} {fault : Option String} {expiryHeight : UInt32} {want : Int}
  {chosen : List Chosen} {outs paidOuts : List Out}

theorem dustThreshold_nonneg (s : Bytes) : 0 ≤ dustThreshold s := by
  unfold dustThreshold
  dsimp only
  positivity

theorem mem_lessAt {i : Nat} {less : Int} {outs : List Out} {o : Out} (h : o ∈ lessAt i less outs) :
    o ∈ outs ∨ o = (lessAt i less outs).getD i ⟨0, []⟩ := by
  obtain ⟨j, hj⟩ := List.mem_iff_getElem?.mp h
  by_cases hij : j = i
  · subst hij
    exact .inr (by rw [List.getD_eq_getElem?_getD, hj, Option.getD_some])
  · rw [lessAt, List.getElem?_modify_ne _ _ (Ne.symm hij)] at hj
    exact .inl (List.mem_of_getElem? hj)

/-- No output of a round is negative. -/
theorem Rounded.value_nonneg (h : Rounded env fees back fault expiryHeight coins recipients fee p p'
    want chosen outs paidOuts) : ∀ o ∈ outs, 0 ≤ o.value := by
  have hpaid : ∀ o ∈ paidOuts, 0 ≤ o.value := fun o ho ↦
    (dustThreshold_nonneg _).trans (dustThreshold_le_of_mem h.shared o ho)
  rcases h.change with ⟨-, rfl, -⟩ | ⟨hpos, s, -, hchange⟩
  · exact hpaid
  · obtain ⟨hguard, -⟩ := Result.guard_eq_ok.mp hchange
    rw [changeOuts_eq_ok hchange]
    intro o ho
    rcases List.mem_append.mp ho with ho | ho
    · rcases (raiseOf_nonneg (bearers recipients) (leftover coins recipients fee)
        (dustThreshold s)).eq_or_lt with hzero | hraise
      · rw [← hzero, lessAt_zero] at ho
        exact hpaid o ho
      · rcases mem_lessAt ho with ho | rfl
        · exact hpaid o ho
        · rw [not_and_or, not_lt, not_lt] at hguard
          rcases hguard with hle | hle
          · exact absurd hle (not_le.mpr hraise)
          · exact (dustThreshold_nonneg _).trans hle
    · unfold keptChange at ho
      split at ho
      · obtain rfl := List.mem_singleton.mp ho
        exact add_nonneg hpos.le (raiseOf_nonneg ..)
      · cases ho

theorem paid_filter_nonneg {outs : List Out} (h : ∀ o ∈ outs, 0 ≤ o.value) (q : Out → Bool) :
    0 ≤ paid (outs.filter q) := by
  refine List.sum_nonneg fun x hx ↦ ?_
  obtain ⟨o, ho, rfl⟩ := List.mem_map.mp hx
  exact h o (List.mem_filter.mp ho).1

/-- What the recipients get who do not bear the fee. -/
theorem lessShares_of_not_any (h : ¬ recipients.any Recipient.subtract = true) {n : Int}
    {first : Bool} : lessShares recipients (shares fee n first recipients) =
      recipients.map fun r ↦ ⟨r.value, r.script⟩ := by
  induction recipients generalizing first with
  | nil => rfl
  | cons r rs ih =>
    rw [List.any_cons, Bool.or_eq_true, not_or, Bool.not_eq_true] at h
    have hrest : lessShares rs (shares fee n (first && !r.subtract) rs) =
        rs.map fun r ↦ ⟨r.value, r.script⟩ := ih h.2
    unfold lessShares at hrest ⊢
    rw [shares, List.zipWith_cons_cons, hrest, h.1]
    simp

end Outs

/-- What a payment pays to the wallet itself. -/
def selfPaid (w : Wallet) (recipients : List Recipient) : Int :=
  ((recipients.filter fun r ↦ (w.keyOfScript r.script).isSome).map Recipient.value).sum

/-- A payment leaves out change of more than it pays to the wallet itself, and nobody bears the
fee. -/
def Overruns (w : Wallet) (back : Bool) (coins : List Chosen) (recipients : List Recipient)
    (fee : Int) : Prop :=
  ¬ recipients.any Recipient.subtract = true ∧ 0 < leftover coins recipients fee ∧
    ¬ GivesChange back coins recipients fee ∧
    selfPaid w recipients < leftover coins recipients fee

section Capped

variable {env : Env} {A : Answers} {back : Bool} {coins : List Chosen} {recipients : List Recipient}
  {fee : Int} {p p' : Purse} {fees : PlainFees} {fault : Option String} {expiryHeight : UInt32}
  {want : Int} {chosen : List Chosen} {outs paidOuts : List Out}

/-- Change that is left out where somebody bears the fee is no more than a P2PKH dust. -/
theorem leftover_le_of_any (hany : recipients.any Recipient.subtract = true)
    (hnot : ¬ GivesChange back coins recipients fee) (hcovered : 0 ≤ leftover coins recipients fee) :
    leftover coins recipients fee ≤ dustFloor := by
  rcases hcovered.eq_or_lt with hzero | hpos
  · rw [← hzero]
    decide
  rcases (@raiseAt_nonneg back coins recipients fee).eq_or_lt with hzero | hraise
  · have hbig : ¬ leftover coins recipients fee < dustAt back coins recipients fee := fun hsmall ↦
      (raiseAt_pos.mpr ⟨hany, hpos, hsmall⟩).ne hzero
    by_contra hlt
    refine hnot ⟨hpos, ?_⟩
    rw [← hzero, add_zero]
    exact max_le (not_lt.mp hbig) (by omega)
  · obtain ⟨-, -, hsmall, hdust⟩ := (skims_iff fee).mpr ⟨hraise, hnot⟩
    rw [leftover_of_any hany]
    exact hsmall.le.trans hdust

theorem paid_filter_append_singleton (q : Out → Bool) (outs : List Out) {o : Out} (h : q o = true) :
    paid ((outs ++ [o]).filter q) = paid (outs.filter q) + o.value := by
  rw [List.filter_append, paid_append, List.filter_singleton, h, cond_true, paid_cons, paid_nil,
    add_zero]

theorem paid_filter_recipients (w : Wallet) (recipients : List Recipient) :
    paid ((recipients.map fun r ↦ (⟨r.value, r.script⟩ : Out)).filter fun o ↦
      (w.keyOfScript o.scriptPubkey).isSome) = selfPaid w recipients := by
  simp [paid, selfPaid, List.filter_map, Function.comp_def]

/-- What a round takes out of a wallet that owns its coins and its change. -/
theorem Rounded.outflow_le_iff (h : Rounded env fees back fault expiryHeight coins recipients fee p
    p' want chosen outs paidOuts) (hfee : dustFloor ≤ fee) {w : Wallet}
    (hchange : ∀ s, changeScript env back fault chosen p = (.ok s, p') →
      (w.keyOfScript s).isSome = true) :
    worth chosen - paid (outs.filter fun o ↦ (w.keyOfScript o.scriptPubkey).isSome) ≤
        totalOf recipients + fee ↔ ¬ Overruns w back coins recipients fee := by
  have hnonneg := paid_filter_nonneg h.value_nonneg fun o ↦ (w.keyOfScript o.scriptPubkey).isSome
  have hcovered := h.covered
  obtain ⟨rest, houts, hrest⟩ := h.outs_eq
  have hworth : worth chosen = needOf recipients fee + leftover coins recipients fee := by
    rw [h.took, leftover]
    ring
  by_cases hany : recipients.any Recipient.subtract = true
  · refine iff_of_true ?_ fun hover ↦ hover.1 hany
    rw [hworth, needOf_of_any hany]
    rcases hrest with ⟨hnot, -⟩ | ⟨-, s, hs, rfl⟩
    · have := leftover_le_of_any hany hnot hcovered
      omega
    · have hraise := @raiseAt_nonneg back coins recipients fee
      have hfront : 0 ≤ paid ((lessAt (firstBearer recipients) (raiseAt back coins recipients fee)
          paidOuts).filter fun o ↦ (w.keyOfScript o.scriptPubkey).isSome) := by
        refine paid_filter_nonneg (fun o ho ↦ h.value_nonneg o ?_) _
        rw [houts]
        exact List.mem_append_left _ ho
      rw [houts, paid_filter_append_singleton _ _ (hchange s hs)]
      have : 0 ≤ dustFloor := by decide
      dsimp only
      omega
  · have hraise : raiseAt back coins recipients fee = 0 :=
      le_antisymm (not_lt.mp fun hpos ↦ hany (raiseAt_pos.mp hpos).1) raiseAt_nonneg
    rw [hraise, lessAt_zero, recipientOuts_eq_ok h.shared, lessShares_of_not_any hany] at houts
    rw [hworth, needOf_of_not_any hany]
    rcases hrest with ⟨hnot, rfl⟩ | ⟨hgives, s, hs, rfl⟩
    · rw [houts, List.append_nil, paid_filter_recipients]
      rw [houts, List.append_nil, paid_filter_recipients] at hnonneg
      constructor
      · rintro hle ⟨-, -, -, hlt⟩
        omega
      · intro hover
        rcases hcovered.eq_or_lt with hzero | hpos
        · omega
        · have := not_lt.mp fun hlt ↦ hover ⟨hany, hpos, hnot, hlt⟩
          omega
    · refine iff_of_true ?_ fun hover ↦ hover.2.2.1 hgives
      rw [houts, paid_filter_append_singleton _ _ (hchange s hs), paid_filter_recipients] at hnonneg ⊢
      rw [hraise] at hnonneg ⊢
      have hself : 0 ≤ selfPaid w recipients := by
        rw [← paid_filter_recipients]
        refine paid_filter_nonneg (fun o ho ↦ h.value_nonneg o ?_) _
        rw [houts]
        exact List.mem_append_left _ ho
      dsimp only
      omega

/-- **The cap of a payment.**  What the signer sees leave the wallet is under the cap that
`send_yec` states if and only if no change is left out of more than the payment pays to the wallet
itself.  The fee is the one the rounds settle on. -/
theorem sendYec_outflow_le_iff {rounds : Fin 8 → PlainFees × Option String} {minDepth : Int}
    {ask : SignAsk} (hw : p.wallet.Ready env)
    (h : sendYec env A back rounds recipients minDepth p = (.ok ask, p')) :
    ∃ coins fee, p.spendableYec A minDepth true = .ok coins ∧
      settledFee back coins recipients (List.ofFn rounds) firstFee = some fee ∧
      ask.cap = totalOf recipients + fee ∧
      (∀ C network, (compute C network ask.tx ask.prevouts ask.signed
        (ask.own p'.wallet)).outflowZat.toInt = (ask.outflow p'.wallet).bmod (2 ^ 64)) ∧
      (ask.outflow p'.wallet ≤ ask.cap ↔ ¬ Overruns p'.wallet back coins recipients fee) := by
  obtain ⟨coins, next, hcoins, h⟩ := sendYec_eq_ok h
  obtain ⟨fee', fees, fault, p₀, want, chosen, paidOuts, hle, hround, -, hcap, hinputs⟩ :=
    sendRounds_eq_ok h
  have hsettled := sendRounds_settles h
  rw [hcap, add_sub_cancel_left] at hsettled
  have hmoved : KeysMoved env p p' := by
    have := @keysMoved_sendRounds env back coins recipients firstFee next (List.ofFn rounds) p
    rwa [h] at this
  have hw' := hw.moved hmoved
  have howned : ∀ c ∈ chosen, (p'.wallet.book.ownsScript c.script).isSome := by
    intro c hc
    rw [hround.took] at hc
    exact hmoved.2.ownsScript (owns_spendableYec hw.backed hcoins c (mem_gather hc))
  -- every input is signed
  have hspent : (ask.inputs.filter fun i ↦ i.2 ≠ .none).map Prod.fst = chosen := by
    rw [hinputs, List.filter_eq_self.mpr, List.map_map]
    · exact List.map_id _
    · intro i hi
      obtain ⟨c, hc, rfl⟩ := List.mem_map.mp hi
      exact decide_eq_true (getD_keyOfScript_ne_none (howned c hc))
  refine ⟨coins, fee', hcoins, hsettled, hcap, fun C network ↦ ask.toInt_outflowZat _ C network, ?_⟩
  rw [SignAsk.outflow, hspent, hcap]
  refine hround.outflow_le_iff (le_trans ?_ hle) fun s hs ↦ ?_
  · decide
  · rw [isSome_keyOfScript]
    exact owns_changeScript hw' howned hs

end Capped

/-! ### Twenty zatoshi above the cap -/

theorem tipPurse_ready : tipPurse.wallet.Ready listEnv := by
  obtain ⟨⟨hbook, howned, hspelled, hrows, hparsed⟩, hhashed, hapart⟩ :=
    @listWallet_ready 1 (by decide) []
  exact ⟨⟨hbook, howned, hspelled, hrows, hparsed⟩, hhashed, hapart⟩

/-- Of 100,000 zatoshi 50,000 are paid, 10,000 are the fee and the rest is change. -/
theorem sendYec_outflow_le_half : ∃ ask p', tipSend 50000 false = (.ok ask, p') ∧
    ask.cap = 60000 ∧ ask.outflow p'.wallet ≤ 60000 := by
  have hrun : (tipSend 50000 false).1.toOption.map SignAsk.cap = some 60000 := by decide +kernel
  generalize hx : tipSend 50000 false = x at hrun
  obtain ⟨r, p'⟩ := x
  cases r with
  | error e => cases hrun
  | ok ask =>
    have hcap60 : ask.cap = 60000 := Option.some.inj hrun
    obtain ⟨coins, fee, hcoins, -, hcap, -, hiff⟩ := sendYec_outflow_le_iff tipPurse_ready hx
    obtain rfl := Except.ok.inj (hcoins.symm.trans spendableYec_tipPurse)
    rw [hcap60] at hcap hiff
    obtain rfl : fee = 10000 := by
      rw [show totalOf [⟨listScript 200, 50000, false⟩] = 50000 from rfl] at hcap
      omega
    refine ⟨ask, p', rfl, hcap60, hiff.mpr fun hover ↦ hover.2.2.1 ?_⟩
    decide +kernel

/-- Of 100,000 zatoshi 89,980 are paid and 10,000 are the fee.  The 20 that are left are dust: the
cap is 99,980, and all of 100,000 leave. -/
theorem not_outflow_le_dropped : tipPurse.wallet.Ready listEnv ∧
    (tipSend 89980 false).1.toOption.map (fun ask ↦
      (ask.cap, ask.outflow (tipSend 89980 false).2.wallet)) = some (99980, 100000) :=
  ⟨tipPurse_ready, by decide +kernel⟩

end Yew.Daemon
