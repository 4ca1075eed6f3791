import Yew.Daemon.SendSound

/-!
# The fee of a payment

What a round of `send_yec` asks for depends on the coins it takes and on the lengths of the scripts
it pays, not on the keys it draws for the change.  So the fee that the rounds settle on is a function
of the coins and the recipients.

The loop is that of `send_yec` in `yewd/wallet/src/send.rs`.  The settled fee is defined by
recursion on the rounds that are left, without the wallet's state; the lemma that ties it to the
code is the only one that unfolds a round.
-/

namespace Yew.Daemon

open Script Tx Pq Proto Proc Yellowback Build

/-! ## What a transaction asks for -/

/-- The bytes of outputs with scripts of the given lengths. -/
def outputsBytes (lengths : List Nat) : Nat := (lengths.map fun n ↦ 8 + compact n + n).sum

/-- The conventional fee of a payment. -/
def conventionalFor (chosen : List Chosen) (lengths : List Nat) : Int :=
  Build.zip317ConventionalFee
    (Transaction.inBytes (chosen.map fun c ↦ scriptSigSizeBound c.script)) (outputsBytes lengths) 0

/-- The fee of a payment that spends some coins to scripts of the given lengths. -/
def feeFor (fees : PlainFees) (chosen : List Chosen) (lengths : List Nat) : Int :=
  if chosen.any fun c ↦ (pqpkhOf c.script).isSome then
    let sizes := chosen.map fun c ↦ scriptSigSizeBound c.script
    let unsigned := 4 + 4 + compact chosen.length + 41 * chosen.length +
      compact lengths.length + outputsBytes lengths + 4 + 4 + 8 + 1 + 1 + 1
    let bytes := unsigned + (sizes.map fun n ↦ n + (if n ≤ 252 then 1 else 3) - 1).sum
    let sizeFee := max 1000 (Int.tdiv (fees.zatPerKb * bytes) 1000)
    max (min (max (conventionalFor chosen lengths) sizeFee) fees.maxTxFee)
      (conventionalFor chosen lengths)
  else conventionalFor chosen lengths

section Payment

variable (chosen : List Chosen) (outs : List Out) (expiryHeight : UInt32)

/-- The unsigned transaction of a payment. -/
def unsignedPayment : Transaction :=
  newV4 (chosen.map fun c ↦ newTxIn c.outpoint) outs 0 expiryHeight

theorem outBytes_unsignedPayment : (unsignedPayment chosen outs expiryHeight).outBytes =
    outputsBytes (outs.map fun o ↦ o.scriptPubkey.length) := by
  simp [unsignedPayment, newV4, Transaction.outBytes, Out.toTxOut, outputsBytes, Function.comp_def]

theorem conventional_unsignedPayment :
    (unsignedPayment chosen outs expiryHeight).zip317ConventionalFee
        (chosen.map fun c ↦ scriptSigSizeBound c.script) =
      .ok (conventionalFor chosen (outs.map fun o ↦ o.scriptPubkey.length)) := by
  rw [Transaction.zip317ConventionalFee, outBytes_unsignedPayment, if_neg]
  · rfl
  · simp [unsignedPayment, newV4]

theorem inBytes_unsignedPayment :
    Transaction.inBytes (unsignedPayment chosen outs expiryHeight).scriptSigSizes =
      41 * chosen.length := by
  have hsizes : (unsignedPayment chosen outs expiryHeight).scriptSigSizes =
      List.replicate chosen.length 0 := by
    simp [unsignedPayment, newV4, Transaction.scriptSigSizes, newTxIn, Function.comp_def]
  rw [hsizes, Transaction.inBytes, List.map_replicate, List.sum_replicate, compact]
  simp [Nat.mul_comm]

theorem isSaplingV4_unsignedPayment :
    (unsignedPayment chosen outs expiryHeight).isSaplingV4 = true := by
  show Transaction.saplingV4Of txHeaderV4 saplingVersionGroupId = true
  decide

theorem serialize_unsignedPayment : ∃ b, (unsignedPayment chosen outs expiryHeight).serialize = .ok b ∧
    b.length = 4 + 4 + compact chosen.length + 41 * chosen.length + compact outs.length +
      outputsBytes (outs.map fun o ↦ o.scriptPubkey.length) + 4 + 4 + 8 + 1 + 1 + 1 := by
  have hv4 := isSaplingV4_unsignedPayment chosen outs expiryHeight
  have hwritten : Transaction.writtenOf (unsignedPayment chosen outs expiryHeight).header
      (unsignedPayment chosen outs expiryHeight).versionGroupId = true := by
    rw [Transaction.writtenOf]
    exact Bool.or_eq_true_iff.mpr (.inl hv4)
  refine ⟨_, Transaction.serialize_eq_ok_iff.mpr ⟨rfl, hwritten, rfl⟩, ?_⟩
  rw [Transaction.length_bytes, inBytes_unsignedPayment, outBytes_unsignedPayment, hv4, if_pos rfl]
  simp only [unsignedPayment, newV4, List.length_map]

/-- What a payment asks for, in closed form. -/
theorem paymentFee_eq (fees : PlainFees) : paymentFee fees chosen outs expiryHeight =
    .ok (feeFor fees chosen (outs.map fun o ↦ o.scriptPubkey.length)) := by
  obtain ⟨b, hb, hlen⟩ := serialize_unsignedPayment chosen outs expiryHeight
  unfold paymentFee
  dsimp only
  rw [← unsignedPayment, conventional_unsignedPayment, feeFor]
  show (if _ then _ else _) = _
  split
  · rw [pqSpendFee, hb]
    dsimp only
    rw [hlen, List.length_map]
  · rfl

end Payment

/-! ## What the rounds ask for -/

/-- The length of the script that the change goes to. -/
def changeLength (back : Bool) (chosen : List Chosen) : Nat :=
  match backCoin back chosen with
  | some c => c.script.length
  | none => 25

/-- What a round asks for at a fee. -/
def wantAt (fees : PlainFees) (back : Bool) (coins : List Chosen) (recipients : List Recipient)
    (fee : Int) : Int :=
  let chosen := gather (needOf recipients fee) 0 coins
  feeFor fees chosen (recipients.map (fun r ↦ r.script.length) ++
    if GivesChange back coins recipients fee then [changeLength back chosen] else [])

/-- The fee that the rounds settle on. -/
def settledFee (back : Bool) (coins : List Chosen) (recipients : List Recipient)
    (rounds : List (PlainFees × Option String)) : Int → Option Int :=
  settle (fun r ↦ wantAt r.1 back coins recipients) rounds

section Rounds

variable {env : Env} {back : Bool} {coins : List Chosen} {recipients : List Recipient} {fee : Int}
  {p p' : Purse}

theorem length_changeScript {fault : Option String} {chosen : List Chosen} {s : Bytes}
    (h : changeScript env back fault chosen p = (.ok s, p')) :
    s.length = changeLength back chosen := by
  rcases changeScript_cases h with ⟨c, hc, rfl, -⟩ | ⟨hnone, hnew⟩
  · rw [changeLength, hc]
  · obtain ⟨hash, rfl⟩ := newChange_p2pkh hnew
    rw [changeLength, hnone, length_p2pkhScript]

theorem scripts_lessAt (i : Nat) (less : Int) (outs : List Out) :
    (lessAt i less outs).map Out.scriptPubkey = outs.map Out.scriptPubkey := by
  rw [lessAt]
  induction outs generalizing i with
  | nil => simp
  | cons o outs ih =>
    cases i with
    | zero => simp
    | succ i => simp [ih]

theorem scripts_lessShares {shares : List Int} (h : shares.length = recipients.length) :
    (lessShares recipients shares).map Out.scriptPubkey = recipients.map Recipient.script := by
  rw [lessShares, List.map_zipWith]
  apply List.ext_getElem
  · simp [h]
  · intro i h₁ h₂
    simp

theorem Rounded.want_eq {fees : PlainFees} {fault : Option String} {expiryHeight : UInt32}
    {want : Int} {chosen : List Chosen} {outs paidOuts : List Out}
    (h : Rounded env fees back fault expiryHeight coins recipients fee p p' want chosen outs
      paidOuts) : want = wantAt fees back coins recipients fee := by
  obtain ⟨rest, houts, hrest⟩ := h.outs_eq
  have hasked := h.asked
  rw [paymentFee_eq] at hasked
  rw [← Except.ok.inj hasked, wantAt, ← h.took]
  have hscripts : outs.map Out.scriptPubkey =
      recipients.map Recipient.script ++ rest.map Out.scriptPubkey := by
    rw [houts, List.map_append, scripts_lessAt, recipientOuts_eq_ok h.shared,
      scripts_lessShares length_shares]
  have hlengths : outs.map (fun o ↦ o.scriptPubkey.length) =
      recipients.map (fun r ↦ r.script.length) ++ rest.map fun o ↦ o.scriptPubkey.length := by
    simpa [Function.comp_def] using congrArg (List.map List.length) hscripts
  rw [hlengths]
  rcases hrest with ⟨hnone, rfl⟩ | ⟨hgives, s, hs, rfl⟩
  · rw [if_neg hnone, List.map_nil]
  · rw [if_pos hgives, List.map_singleton, length_changeScript hs]

/-- The fee in the cap is the one that the rounds settle on. -/
theorem sendRounds_settles {next : Next} {rounds : List (PlainFees × Option String)} {ask : SignAsk}
    (h : sendRounds env back next coins recipients rounds fee p = (.ok ask, p')) :
    settledFee back coins recipients rounds fee = some (ask.cap - totalOf recipients) := by
  induction rounds generalizing fee p with
  | nil => cases h
  | cons r rs ih =>
    obtain ⟨⟨want, chosen, outs⟩, p₁, hround, h⟩ := bind_eq_ok.mp h
    obtain ⟨paidOuts, hr⟩ := sendRound_eq_ok hround
    obtain rfl := hr.want_eq
    dsimp only at h
    rw [settledFee, settle]
    split at h
    · rename_i hlt
      rw [if_pos hlt]
      exact ih h
    · rename_i hge
      obtain ⟨_, _, ⟨⟩, h⟩ := bind_eq_ok.mp h
      cases h
      rw [if_neg hge]
      refine congrArg some ?_
      show fee = totalOf recipients + fee - totalOf recipients
      ring

end Rounds

end Yew.Daemon
