import Mathlib.Tactic.Ring
import Yew.Daemon.YedSound

/-!
# What `send_yec` pays

Who gets what in a payment, and what leaves the wallet.  The fee is settled by rounds; whatever the
last of them signs is the coins taken for the payment at its fee, the recipients less the shares of
those that bear the fee, and the change.  Change that is dust is left out, after it may have been
raised to what is still dust.

The function is `send_yec` of `yewd/wallet/src/send.rs`.  Shares of the fee are whole zatoshi, and
the first recipient that bears one bears the remainder.
-/

namespace Yew.Daemon

open Script Tx Pq Proto Proc Yellowback Build

/-! ## Coins in order -/

/-- The coins gathered are a front of the list. -/
theorem gather_front (needed got : Int) (cs : List Chosen) : gather needed got cs <+: cs := by
  induction cs generalizing got with
  | nil => exact List.prefix_rfl
  | cons c cs ih =>
    rw [gather]
    split
    · exact List.nil_prefix
    · exact (List.prefix_cons_inj c).mpr (ih _)

theorem gather_of_le {needed got : Int} (h : needed ≤ got) (cs : List Chosen) :
    gather needed got cs = [] := by
  cases cs with
  | nil => rfl
  | cons c cs => exact if_pos h

/-! ## One round -/

section Round

/-- What the recipients are to get. -/
def totalOf (recipients : List Recipient) : Int := (recipients.map Recipient.value).sum

/-- How many recipients bear the fee. -/
def bearers (recipients : List Recipient) : Int := recipients.countP Recipient.subtract

/-- What the coins have to cover at a fee. -/
def needOf (recipients : List Recipient) (fee : Int) : Int :=
  totalOf recipients + if 0 < bearers recipients then 0 else fee

/-- What the coins taken leave over at a fee. -/
def leftover (coins : List Chosen) (recipients : List Recipient) (fee : Int) : Int :=
  worth (gather (needOf recipients fee) 0 coins) - needOf recipients fee

/-- A round that came out: it took the coins in order and paid the recipients, and the change if
there is any. -/
structure Rounded (env : Env) (fees : PlainFees) (back : Bool) (fault : Option String)
    (expiryHeight : UInt32) (coins : List Chosen) (recipients : List Recipient) (fee : Int)
    (p p' : Purse) (want : Int) (chosen : List Chosen) (outs paidOuts : List Out) : Prop where
  took : chosen = gather (needOf recipients fee) 0 coins
  covered : 0 ≤ leftover coins recipients fee
  shared : recipientOuts fee (bearers recipients) true recipients = .ok paidOuts
  change : leftover coins recipients fee = 0 ∧ outs = paidOuts ∧ p' = p ∨
    0 < leftover coins recipients fee ∧ ∃ s, changeScript env back fault chosen p = (.ok s, p') ∧
      changeOuts recipients (bearers recipients) (leftover coins recipients fee) s paidOuts =
        .ok outs
  asked : paymentFee fees chosen outs expiryHeight = .ok want

variable {env : Env} {back : Bool} {coins : List Chosen} {recipients : List Recipient} {fee : Int}
  {p p' : Purse}

theorem payChange_eq_ok {fault : Option String} {change : Int} {chosen : List Chosen}
    {outs paidOuts : List Out}
    (h : payChange env back fault recipients change chosen paidOuts p = (.ok outs, p')) :
    change ≤ 0 ∧ outs = paidOuts ∧ p' = p ∨
      0 < change ∧ ∃ s, changeScript env back fault chosen p = (.ok s, p') ∧
        changeOuts recipients (bearers recipients) change s paidOuts = .ok outs := by
  unfold payChange at h
  split at h
  · rename_i hpos
    obtain ⟨s, p₂, hs, h⟩ := bind_eq_ok.mp h
    obtain ⟨houts, rfl⟩ := Prod.mk.inj h
    exact .inr ⟨hpos, s, hs, houts⟩
  · rename_i hle
    cases h
    exact .inl ⟨not_lt.mp hle, rfl, rfl⟩

theorem sendRound_eq_ok {fees : PlainFees} {fault : Option String} {expiryHeight : UInt32}
    {want : Int} {chosen : List Chosen} {outs : List Out}
    (h : sendRound env fees back fault expiryHeight coins recipients fee p =
      (.ok (want, chosen, outs), p')) :
    ∃ paidOuts, Rounded env fees back fault expiryHeight coins recipients fee p p' want chosen outs
      paidOuts := by
  obtain ⟨paidOuts, hrecipients, h⟩ := lift_bind_eq_ok.mp h
  obtain ⟨hcovered, h⟩ := guard_eq_ok.mp h
  obtain ⟨outs', p₁, hchange, h⟩ := bind_eq_ok.mp h
  obtain ⟨want', hfee, h⟩ := lift_bind_eq_ok.mp h
  cases h
  have hnonneg : 0 ≤ leftover coins recipients fee := sub_nonneg.mpr (not_lt.mp hcovered)
  refine ⟨paidOuts, rfl, hnonneg, hrecipients, ?_, hfee⟩
  rcases payChange_eq_ok hchange with ⟨hle, houts, hp⟩ | ⟨hpos, hs⟩
  · exact .inl ⟨le_antisymm hle hnonneg, houts, hp⟩
  · exact .inr ⟨hpos, hs⟩

/-- The fee that the rounds begin with. -/
def firstFee : Int := 10000

/-- The round that is signed: it asks for no more than its fee, which is in the cap. -/
theorem sendRounds_eq_ok {next : Next} {rounds : List (PlainFees × Option String)} {ask : SignAsk}
    (h : sendRounds env back next coins recipients rounds fee p = (.ok ask, p')) :
    ∃ fee' fees fault p₀ want chosen paidOuts, fee ≤ fee' ∧
      Rounded env fees back fault ask.expiryHeight coins recipients fee' p₀ p' want chosen ask.outs
        paidOuts ∧ want ≤ fee' ∧ ask.cap = totalOf recipients + fee' ∧
      ask.inputs = chosen.map fun c ↦ (c, (p'.wallet.keyOfScript c.script).getD .none) := by
  induction rounds generalizing fee p with
  | nil => cases h
  | cons r rs ih =>
    obtain ⟨⟨want, chosen, outs⟩, p₁, hround, h⟩ := bind_eq_ok.mp h
    dsimp only at h
    split at h
    · rename_i hlt
      obtain ⟨fee', fees, fault, p₀, want', chosen', paidOuts, hle, hrest⟩ := ih h
      exact ⟨fee', fees, fault, p₀, want', chosen', paidOuts, hlt.le.trans hle, hrest⟩
    · rename_i hge
      obtain ⟨_, _, ⟨⟩, h⟩ := bind_eq_ok.mp h
      cases h
      obtain ⟨paidOuts, hr⟩ := sendRound_eq_ok hround
      exact ⟨fee, r.1, r.2, p, want, chosen, paidOuts, le_refl _, hr, not_lt.mp hge, rfl, rfl⟩

theorem sendYec_eq_ok {A : Answers} {rounds : Fin 8 → PlainFees × Option String} {minDepth : Int}
    {ask : SignAsk} (h : sendYec env A back rounds recipients minDepth p = (.ok ask, p')) :
    ∃ coins next, p.spendableYec A minDepth true = .ok coins ∧
      sendRounds env back next coins recipients (List.ofFn rounds) firstFee p = (.ok ask, p') := by
  obtain ⟨next, -, h⟩ := lift_bind_eq_ok.mp h
  obtain ⟨_, _, ⟨⟩, h⟩ := bind_eq_ok.mp h
  obtain ⟨coins, hcoins, h⟩ := lift_bind_eq_ok.mp h
  exact ⟨coins, next, hcoins, h⟩

end Round

/-! ## The recipients -/

/-- The share of the fee that each recipient bears. -/
def shares (fee bearers : Int) : Bool → List Recipient → List Int
  | _, [] => []
  | first, r :: rs =>
    (if r.subtract then Int.tdiv fee bearers + if first then Int.tmod fee bearers else 0 else 0) ::
      shares fee bearers (first && !r.subtract) rs

/-- The outputs of the recipients less their shares. -/
def lessShares (recipients : List Recipient) (shares : List Int) : List Out :=
  List.zipWith (fun r s ↦ ⟨r.value - s, r.script⟩) recipients shares

section Shares

variable {fee n : Int} {first : Bool} {recipients : List Recipient}

@[simp] theorem length_shares : (shares fee n first recipients).length = recipients.length := by
  induction recipients generalizing first with
  | nil => rfl
  | cons r rs ih => simp [shares, ih]

theorem shares_of_not_subtract {i : Nat} {r : Recipient} {s : Int} (hr : recipients[i]? = some r)
    (hs : (shares fee n first recipients)[i]? = some s) (hsub : r.subtract = false) : s = 0 := by
  induction recipients generalizing first i with
  | nil => cases hr
  | cons r' rs ih =>
    cases i with
    | zero =>
      cases hr
      rw [shares, List.getElem?_cons_zero, hsub] at hs
      exact (Option.some.inj hs).symm
    | succ i => exact ih hr hs

/-- The shares are a part of the fee for each that bears it, and what is left for the first. -/
theorem sum_shares : (shares fee n first recipients).sum =
    recipients.countP Recipient.subtract * Int.tdiv fee n +
      if first ∧ recipients.any Recipient.subtract then Int.tmod fee n else 0 := by
  induction recipients generalizing first with
  | nil => simp [shares]
  | cons r rs ih =>
    rw [shares, List.sum_cons, ih, List.countP_cons, List.any_cons]
    cases r.subtract with
    | true =>
      cases first <;> simp <;> ring
    | false => cases first <;> simp

/-- The shares make the fee, where anyone bears it. -/
theorem sum_shares_eq_fee (h : recipients.any Recipient.subtract = true) :
    (shares fee (bearers recipients) true recipients).sum = fee := by
  rw [sum_shares, if_pos ⟨rfl, h⟩]
  exact Int.mul_tdiv_add_tmod fee (bearers recipients)

theorem recipientOuts_eq_ok {outs : List Out}
    (h : recipientOuts fee n first recipients = .ok outs) :
    outs = lessShares recipients (shares fee n first recipients) := by
  induction recipients generalizing first outs with
  | nil =>
    cases h
    rfl
  | cons r rs ih =>
    rw [recipientOuts, Result.guard_eq_ok] at h
    obtain ⟨outs', houts, h⟩ := Result.bind_eq_ok.mp h.2
    cases h
    rw [ih houts]
    cases hsub : r.subtract with
    | true => simp [lessShares, shares, hsub]
    | false => simp [lessShares, shares, hsub]

/-- A recipient gets at least what is no dust. -/
theorem dustThreshold_le_of_mem {outs : List Out}
    (h : recipientOuts fee n first recipients = .ok outs) :
    ∀ o ∈ outs, dustThreshold o.scriptPubkey ≤ o.value := by
  induction recipients generalizing first outs with
  | nil =>
    cases h
    nofun
  | cons r rs ih =>
    rw [recipientOuts, Result.guard_eq_ok] at h
    obtain ⟨hdust, h⟩ := h
    obtain ⟨outs', houts, h⟩ := Result.bind_eq_ok.mp h
    cases h
    intro o ho
    rcases List.mem_cons.mp ho with rfl | ho
    · exact not_lt.mp hdust
    · exact ih houts o ho

theorem paid_lessShares {shares : List Int} (h : shares.length = recipients.length) :
    paid (lessShares recipients shares) = totalOf recipients - shares.sum := by
  induction recipients generalizing shares with
  | nil =>
    rw [List.length_nil, List.length_eq_zero_iff] at h
    subst h
    rfl
  | cons r rs ih =>
    cases shares with
    | nil => cases h
    | cons s ss =>
      have := ih (Nat.succ.inj h)
      unfold lessShares totalOf at this ⊢
      rw [List.zipWith_cons_cons, paid_cons, this, List.map_cons, List.sum_cons, List.sum_cons]
      ring

end Shares

/-! ## The change -/

theorem length_p2pkhScript (h : Arr 20) : (p2pkhScript h).length = 25 := by
  simp [p2pkhScript, pushData, opPushdata1]

/-- The dust of a P2PKH output. -/
theorem dustThreshold_p2pkhScript (h : Arr 20) : dustThreshold (p2pkhScript h) = dustFloor := by
  rw [dustThreshold, pqpkhOf_p2pkhScript, length_p2pkhScript]
  decide

theorem newChange_p2pkh {env : Env} {fault : Option String} {p p' : Purse} {s : Bytes}
    (h : newChange env fault p = (.ok s, p')) : ∃ hash, s = p2pkhScript hash := by
  obtain ⟨_, _, ⟨⟩, h⟩ := bind_eq_ok.mp h
  obtain ⟨_, _, -, h⟩ := bind_eq_ok.mp h
  obtain ⟨_, _, -, h⟩ := bind_eq_ok.mp h
  obtain ⟨_, _, ⟨⟩, h⟩ := bind_eq_ok.mp h
  generalize KeyBook.key _ internal _ = o at h
  cases o with
  | none => cases h
  | some k =>
    cases h
    exact ⟨k.hash, rfl⟩

/-- The coin whose script takes the change back, if it is not to go to a new key. -/
def backCoin (back : Bool) (chosen : List Chosen) : Option Chosen :=
  if back then largestCoin chosen else none

/-- The dust of the change: that of the coin's script it goes back to, or of a new P2PKH key. -/
def changeDust (back : Bool) (chosen : List Chosen) : Int :=
  match backCoin back chosen with
  | some c => dustThreshold c.script
  | none => dustFloor

section Change

variable {env : Env} {back : Bool} {fault : Option String} {chosen : List Chosen} {p p' : Purse}
  {s : Bytes}

theorem changeScript_cases (h : changeScript env back fault chosen p = (.ok s, p')) :
    (∃ c, backCoin back chosen = some c ∧ s = c.script ∧ p' = p) ∨
      backCoin back chosen = none ∧ newChange env fault p = (.ok s, p') := by
  unfold changeScript at h
  rw [← backCoin] at h
  cases hback : backCoin back chosen with
  | some c =>
    rw [hback] at h
    cases h
    exact .inl ⟨c, rfl, rfl, rfl⟩
  | none =>
    rw [hback] at h
    exact .inr ⟨rfl, h⟩

theorem dustThreshold_changeScript (h : changeScript env back fault chosen p = (.ok s, p')) :
    dustThreshold s = changeDust back chosen := by
  rcases changeScript_cases h with ⟨c, hc, rfl, -⟩ | ⟨hnone, hnew⟩
  · rw [changeDust, hc]
  · obtain ⟨hash, rfl⟩ := newChange_p2pkh hnew
    rw [changeDust, hnone, dustThreshold_p2pkhScript]

/-- What small change is raised by, where somebody bears the fee. -/
def raiseOf (bearers change dust : Int) : Int :=
  if 0 < bearers ∧ change < dust then dust - change else 0

/-- Some outputs, of which the `i`-th gets less. -/
def lessAt (i : Nat) (less : Int) (outs : List Out) : List Out :=
  outs.modify i fun o ↦ { o with value := o.value - less }

/-- The first recipient that bears the fee. -/
def firstBearer (recipients : List Recipient) : Nat :=
  (recipients.findIdx? fun r ↦ r.subtract).getD 0

/-- The change output, unless it is dust. -/
def keptChange (value dust : Int) (s : Bytes) : List Out :=
  if max dust (dustFloor + 1) ≤ value then [⟨value, s⟩] else []

theorem changeOuts_eq_ok {recipients : List Recipient} {n change : Int} {outs paidOuts : List Out}
    (h : changeOuts recipients n change s paidOuts = .ok outs) :
    outs = lessAt (firstBearer recipients) (raiseOf n change (dustThreshold s)) paidOuts ++
      keptChange (change + raiseOf n change (dustThreshold s)) (dustThreshold s) s := by
  obtain ⟨-, h⟩ := Result.guard_eq_ok.mp h
  cases h
  by_cases hkeep : max (dustThreshold s) (dustFloor + 1) ≤
      change + raiseOf n change (dustThreshold s)
  · rw [keptChange, if_pos hkeep]
    exact if_pos hkeep
  · rw [keptChange, if_neg hkeep, List.append_nil]
    exact if_neg hkeep

theorem lessAt_zero (i : Nat) (outs : List Out) : lessAt i 0 outs = outs := by
  have hid : (fun o : Out ↦ { o with value := o.value - 0 }) = id := by
    funext o
    rw [sub_zero]
    rfl
  rw [lessAt, hid, List.modify_id]

theorem paid_lessAt {i : Nat} {outs : List Out} (hi : i < outs.length) (less : Int) :
    paid (lessAt i less outs) = paid outs - less := by
  induction outs generalizing i with
  | nil => cases hi
  | cons o outs ih =>
    cases i with
    | zero =>
      rw [lessAt, List.modify_zero_cons, paid_cons, paid_cons]
      dsimp only
      ring
    | succ i =>
      have := ih (Nat.lt_of_succ_lt_succ hi)
      rw [lessAt] at this
      rw [lessAt, List.modify_succ_cons, paid_cons, paid_cons, this]
      ring

@[simp] theorem length_lessAt (i : Nat) (less : Int) (outs : List Out) :
    (lessAt i less outs).length = outs.length := List.length_modify ..

theorem firstBearer_lt {recipients : List Recipient}
    (h : recipients.any Recipient.subtract = true) : firstBearer recipients < recipients.length := by
  unfold firstBearer
  cases hfirst : recipients.findIdx? fun r ↦ r.subtract with
  | none =>
    have := @List.findIdx?_isSome _ recipients Recipient.subtract
    rw [h, hfirst] at this
    cases this
  | some i => exact (List.findIdx?_eq_some_iff_findIdx_eq.mp hfirst).1

theorem raiseOf_nonneg (n change dust : Int) : 0 ≤ raiseOf n change dust := by
  unfold raiseOf
  split
  · rename_i h
    exact sub_nonneg.mpr h.2.le
  · exact le_refl 0

end Change

/-! ## Who bears the fee -/

section Bearers

variable {recipients : List Recipient}

theorem bearers_pos : 0 < bearers recipients ↔ recipients.any Recipient.subtract = true := by
  rw [bearers, Int.natCast_pos, List.countP_pos_iff, List.any_eq_true]

theorem bearers_nonneg : 0 ≤ bearers recipients := Int.natCast_nonneg _

theorem needOf_of_any (h : recipients.any Recipient.subtract = true) (fee : Int) :
    needOf recipients fee = totalOf recipients := by
  rw [needOf, if_pos (bearers_pos.mpr h), add_zero]

theorem needOf_of_not_any (h : ¬ recipients.any Recipient.subtract = true) (fee : Int) :
    needOf recipients fee = totalOf recipients + fee := by
  rw [needOf, if_neg fun hpos ↦ h (bearers_pos.mp hpos)]

theorem shares_nonneg {fee n : Int} (hfee : 0 ≤ fee) (hn : 0 ≤ n) {first : Bool} :
    ∀ s ∈ shares fee n first recipients, 0 ≤ s := by
  have hdiv : 0 ≤ Int.tdiv fee n := Int.tdiv_nonneg hfee hn
  have hmod : 0 ≤ Int.tmod fee n := Int.tmod_nonneg n hfee
  induction recipients generalizing first with
  | nil => nofun
  | cons r rs ih =>
    intro s hs
    rcases List.mem_cons.mp hs with rfl | hs
    · split
      · split
        · exact add_nonneg hdiv hmod
        · rwa [add_zero]
      · exact le_refl 0
    · exact ih s hs

end Bearers

/-- An exact payment with `spent` zatoshi at a fee.  A recipient without the flag bears nothing, the
shares of the others make the fee, and the first of them gets less only by what raises the change to
its dust, which is then paid. -/
def Exactly (recipients : List Recipient) (fee spent : Int) (outs : List Out) : Prop :=
  ∃ (shares : List Int) (raise : Int) (rest : List Out), shares.length = recipients.length ∧
    (∀ s ∈ shares, 0 ≤ s) ∧
    (∀ (i : Nat) r s, recipients[i]? = some r → shares[i]? = some s → r.subtract = false → s = 0) ∧
    (recipients.any Recipient.subtract = true → shares.sum = fee) ∧
    outs = lessAt (firstBearer recipients) raise (lessShares recipients shares) ++ rest ∧
    (raise = 0 ∨ 0 < raise ∧ recipients.any Recipient.subtract = true ∧
      0 < spent - totalOf recipients ∧
      ∃ s, spent - totalOf recipients + raise = dustThreshold s ∧ rest = [⟨dustThreshold s, s⟩])

/-- The dust of the change of a round. -/
def dustAt (back : Bool) (coins : List Chosen) (recipients : List Recipient) (fee : Int) : Int :=
  changeDust back (gather (needOf recipients fee) 0 coins)

/-- What the change of a round is raised by. -/
def raiseAt (back : Bool) (coins : List Chosen) (recipients : List Recipient) (fee : Int) : Int :=
  if 0 < leftover coins recipients fee then
    raiseOf (bearers recipients) (leftover coins recipients fee) (dustAt back coins recipients fee)
  else 0

/-- The transaction of a round has a change output. -/
def GivesChange (back : Bool) (coins : List Chosen) (recipients : List Recipient) (fee : Int) : Prop :=
  0 < leftover coins recipients fee ∧ max (dustAt back coins recipients fee) (dustFloor + 1) ≤
    leftover coins recipients fee + raiseAt back coins recipients fee

instance (back : Bool) (coins : List Chosen) (recipients : List Recipient) (fee : Int) :
    Decidable (GivesChange back coins recipients fee) := inferInstanceAs (Decidable (_ ∧ _))

section Exact

variable {env : Env} {back : Bool} {coins : List Chosen} {recipients : List Recipient} {fee : Int}
  {p p' : Purse} {fees : PlainFees} {fault : Option String} {expiryHeight : UInt32} {want : Int}
  {chosen : List Chosen} {outs paidOuts : List Out}

theorem raiseAt_nonneg : 0 ≤ raiseAt back coins recipients fee := by
  unfold raiseAt
  split
  · exact raiseOf_nonneg ..
  · exact le_refl 0

/-- The outputs of a round: the recipients less their shares and the raise, and the change. -/
theorem Rounded.outs_eq (h : Rounded env fees back fault expiryHeight coins recipients fee p p' want
    chosen outs paidOuts) : ∃ rest, outs =
      lessAt (firstBearer recipients) (raiseAt back coins recipients fee) paidOuts ++ rest ∧
    (¬ GivesChange back coins recipients fee ∧ rest = [] ∨
      GivesChange back coins recipients fee ∧ ∃ s, changeScript env back fault chosen p = (.ok s, p') ∧
        rest = [⟨leftover coins recipients fee + raiseAt back coins recipients fee, s⟩]) := by
  rcases h.change with ⟨hzero, rfl, -⟩ | ⟨hpos, s, hs, hchange⟩
  · have hraise : raiseAt back coins recipients fee = 0 := if_neg (not_lt.mpr hzero.le)
    refine ⟨[], ?_, .inl ⟨fun hkeeps ↦ hkeeps.1.ne' hzero, rfl⟩⟩
    rw [hraise, lessAt_zero, List.append_nil]
  · have hdust : dustThreshold s = dustAt back coins recipients fee := by
      rw [dustThreshold_changeScript hs, h.took, dustAt]
    have hraise : raiseAt back coins recipients fee =
        raiseOf (bearers recipients) (leftover coins recipients fee) (dustThreshold s) := by
      rw [hdust]
      exact if_pos hpos
    have houts := changeOuts_eq_ok hchange
    rw [← hraise, hdust] at houts
    refine ⟨_, houts, ?_⟩
    by_cases hkeeps : GivesChange back coins recipients fee
    · exact .inr ⟨hkeeps, s, hs, if_pos hkeeps.2⟩
    · exact .inl ⟨hkeeps, if_neg fun hmax ↦ hkeeps ⟨hpos, hmax⟩⟩

end Exact

/-- Change that is raised to a dust that is itself left out. -/
def Skims (back : Bool) (coins : List Chosen) (recipients : List Recipient) : Prop :=
  let chosen := gather (totalOf recipients) 0 coins
  let change := worth chosen - totalOf recipients
  recipients.any Recipient.subtract = true ∧ 0 < change ∧ change < changeDust back chosen ∧
    changeDust back chosen ≤ dustFloor

section Exact

variable {env : Env} {back : Bool} {coins : List Chosen} {recipients : List Recipient} {fee : Int}
  {p p' : Purse} {fees : PlainFees} {fault : Option String} {expiryHeight : UInt32} {want : Int}
  {chosen : List Chosen} {outs paidOuts : List Out}

theorem leftover_of_any (hany : recipients.any Recipient.subtract = true) (fee : Int) :
    leftover coins recipients fee =
      worth (gather (totalOf recipients) 0 coins) - totalOf recipients := by
  rw [leftover, needOf_of_any hany]

theorem dustAt_of_any (hany : recipients.any Recipient.subtract = true) (fee : Int) :
    dustAt back coins recipients fee = changeDust back (gather (totalOf recipients) 0 coins) := by
  rw [dustAt, needOf_of_any hany]

/-- Small change is raised to its dust. -/
theorem raiseAt_pos : 0 < raiseAt back coins recipients fee ↔
    recipients.any Recipient.subtract = true ∧ 0 < leftover coins recipients fee ∧
      leftover coins recipients fee < dustAt back coins recipients fee := by
  unfold raiseAt raiseOf
  rw [← bearers_pos]
  split
  · rename_i hpos
    split
    · rename_i hsmall
      exact iff_of_true (sub_pos.mpr hsmall.2) ⟨hsmall.1, hpos, hsmall.2⟩
    · rename_i hbig
      exact iff_of_false (lt_irrefl 0) fun h ↦ hbig ⟨h.1, h.2.2⟩
  · rename_i hle
    exact iff_of_false (lt_irrefl 0) fun h ↦ hle h.2.1

theorem leftover_add_raiseAt (h : 0 < raiseAt back coins recipients fee) :
    leftover coins recipients fee + raiseAt back coins recipients fee =
      dustAt back coins recipients fee := by
  obtain ⟨hany, hpos, hsmall⟩ := raiseAt_pos.mp h
  rw [raiseAt, if_pos hpos, raiseOf, if_pos ⟨bearers_pos.mpr hany, hsmall⟩]
  ring

/-- Change that is raised is left out when its dust is that of a P2PKH output. -/
theorem skims_iff (fee : Int) : Skims back coins recipients ↔
    0 < raiseAt back coins recipients fee ∧ ¬ GivesChange back coins recipients fee := by
  constructor
  · rintro ⟨hany, hpos, hsmall, hdust⟩
    rw [← leftover_of_any hany fee] at hpos hsmall
    rw [← dustAt_of_any hany fee] at hsmall hdust
    have hraise := raiseAt_pos.mpr ⟨hany, hpos, hsmall⟩
    refine ⟨hraise, fun hgives ↦ ?_⟩
    have hmax := hgives.2
    rw [leftover_add_raiseAt hraise] at hmax
    have := (le_max_right _ _).trans hmax
    omega
  · rintro ⟨hraise, hnot⟩
    obtain ⟨hany, hpos, hsmall⟩ := raiseAt_pos.mp hraise
    have hdust : dustAt back coins recipients fee ≤ dustFloor := by
      by_contra hlt
      refine hnot ⟨hpos, ?_⟩
      rw [leftover_add_raiseAt hraise]
      exact max_le (le_refl _) (by omega)
    rw [leftover_of_any hany] at hpos hsmall
    rw [dustAt_of_any hany] at hsmall hdust
    exact ⟨hany, hpos, hsmall, hdust⟩

theorem Rounded.exactly_iff (h : Rounded env fees back fault expiryHeight coins recipients fee p p'
    want chosen outs paidOuts) (hfee : 0 ≤ fee) :
    Exactly recipients fee (worth chosen) outs ↔ ¬ Skims back coins recipients := by
  obtain ⟨rest, houts, hrest⟩ := h.outs_eq
  have hpaid := recipientOuts_eq_ok h.shared
  constructor
  · rintro ⟨shares', raise, rest', hlen, -, -, hsum, heq, hraise⟩ hskims
    obtain ⟨hpos, hnot⟩ := (skims_iff fee).mp hskims
    have hany := (raiseAt_pos.mp hpos).1
    obtain rfl : rest = [] := by
      rcases hrest with ⟨-, hnil⟩ | ⟨hgives, -⟩
      · exact hnil
      · exact absurd hgives hnot
    -- no output is left for the change, so nothing can have been raised
    have hlens : outs.length = recipients.length := by
      rw [houts, List.append_nil, length_lessAt, hpaid, lessShares, List.length_zipWith,
        length_shares, min_self]
    obtain rfl : rest' = [] := by
      rw [heq, List.length_append, length_lessAt, lessShares, List.length_zipWith, hlen, min_self]
        at hlens
      exact List.length_eq_zero_iff.mp (by omega)
    obtain rfl : raise = 0 := by
      rcases hraise with hzero | ⟨-, -, -, s, -, hnil⟩
      · exact hzero
      · cases hnil
    have hfirst : firstBearer recipients < paidOuts.length := by
      rw [hpaid, lessShares, List.length_zipWith, length_shares, min_self]
      exact firstBearer_lt hany
    have hsums := congrArg paid (houts.symm.trans heq)
    rw [List.append_nil, List.append_nil, lessAt_zero, paid_lessAt hfirst, paid_lessShares hlen,
      hpaid, paid_lessShares length_shares, sum_shares_eq_fee hany, hsum hany] at hsums
    omega
  · intro hnot
    refine ⟨shares fee (bearers recipients) true recipients, raiseAt back coins recipients fee, rest,
      length_shares, shares_nonneg hfee bearers_nonneg, ?_, sum_shares_eq_fee, ?_, ?_⟩
    · intro i r s hr hs hsub
      exact shares_of_not_subtract hr hs hsub
    · rw [← hpaid]
      exact houts
    · rcases raiseAt_nonneg.eq_or_lt with hzero | hpos
      · exact .inl hzero.symm
      · obtain ⟨hany, hleft, -⟩ := raiseAt_pos.mp hpos
        have hspent : worth chosen - totalOf recipients = leftover coins recipients fee := by
          rw [h.took, leftover, needOf_of_any hany]
        refine .inr ⟨hpos, hany, hspent ▸ hleft, ?_⟩
        rcases hrest with ⟨hnone, -⟩ | ⟨-, s, hs, hrest⟩
        · exact absurd ((skims_iff fee).mpr ⟨hpos, hnone⟩) hnot
        · have hdust : dustThreshold s = dustAt back coins recipients fee := by
            rw [dustThreshold_changeScript hs, h.took, dustAt]
          rw [leftover_add_raiseAt hpos, ← hdust] at hrest
          exact ⟨s, by rw [hspent, leftover_add_raiseAt hpos, hdust], hrest⟩

/-- **Who bears the fee.**  A payment that reaches the signer is exact if and only if it does not
raise its change to a dust that is left out.  The fee is what the cap adds to the recipients'
amounts. -/
theorem sendYec_exactly_iff {A : Answers} {rounds : Fin 8 → PlainFees × Option String}
    {minDepth : Int} {ask : SignAsk}
    (h : sendYec env A back rounds recipients minDepth p = (.ok ask, p')) :
    ∃ coins, p.spendableYec A minDepth true = .ok coins ∧
      (Exactly recipients (ask.cap - totalOf recipients) (worth (ask.inputs.map Prod.fst))
          ask.outs ↔ ¬ Skims back coins recipients) := by
  obtain ⟨coins, next, hcoins, h⟩ := sendYec_eq_ok h
  obtain ⟨fee', fees, fault, p₀, want, chosen, paidOuts, hle, hround, -, hcap, hinputs⟩ :=
    sendRounds_eq_ok h
  refine ⟨coins, hcoins, ?_⟩
  have hfee : ask.cap - totalOf recipients = fee' := by
    rw [hcap]
    ring
  have hspent : ask.inputs.map Prod.fst = chosen := by
    rw [hinputs, List.map_map]
    exact List.map_id _
  rw [hfee, hspent]
  refine hround.exactly_iff (le_trans ?_ hle)
  decide

end Exact

/-! ### Thirty-four zatoshi for nobody -/

/-- The node lists no token. -/
def plainAnswers : Answers := { listAnswers with tokens := [] }

/-- A wallet with a coin of 100,000 zatoshi in the block at its tip. -/
def tipPurse : Purse := ⟨{ listWallet 1 [] with tip := some ⟨1, "paid"⟩ }, .empty, false⟩

/-- A payment of an amount to another wallet, which bears the fee or not. -/
def tipSend (value : Int) (subtract : Bool) : Except RpcError SignAsk × Purse :=
  sendYec listEnv plainAnswers false (fun _ ↦ (⟨1000, 100000⟩, none))
    [⟨listScript 200, value, subtract⟩] 0 tipPurse

theorem spendableYec_tipPurse : tipPurse.spendableYec plainAnswers 0 true =
    .ok [⟨⟨payTxid, 0⟩, 100000, listScript 0⟩] := by decide +kernel

/-- Of 50,000 that bear the fee 40,000 arrive, and the change is paid. -/
theorem sendYec_exactly_half : ∃ ask p', tipSend 50000 true = (.ok ask, p') ∧
    Exactly [⟨listScript 200, 50000, true⟩] 10000 100000 ask.outs := by
  have hrun : (tipSend 50000 true).1.toOption.map (fun ask ↦
      (ask.cap, worth (ask.inputs.map Prod.fst))) = some (60000, 100000) := by decide +kernel
  generalize hx : tipSend 50000 true = x at hrun
  obtain ⟨r, p'⟩ := x
  cases r with
  | error e => cases hrun
  | ok ask =>
    obtain ⟨hcap, hworth⟩ := Prod.mk.inj (Option.some.inj hrun)
    obtain ⟨coins, hcoins, hiff⟩ := sendYec_exactly_iff hx
    obtain rfl := Except.ok.inj (hcoins.symm.trans spendableYec_tipPurse)
    rw [hcap, hworth] at hiff
    refine ⟨ask, p', rfl, hiff.mpr fun hskims ↦ ?_⟩
    exact absurd hskims.2.2.1 (by decide +kernel)

/-- Of 99,980 zatoshi that bear the fee 89,946 arrive.  Of the others 10,000 are the fee in the cap,
and 34 were to raise the change of 20 to 54, which is then left out. -/
theorem not_exactly_skimmed : ∃ ask p', tipSend 99980 true = (.ok ask, p') ∧
    ask.cap = 99980 + 10000 ∧ ask.outs.map Out.value = [89946] ∧
    ¬ Exactly [⟨listScript 200, 99980, true⟩] 10000 (worth (ask.inputs.map Prod.fst)) ask.outs := by
  have hrun : (tipSend 99980 true).1.toOption.map (fun ask ↦ (ask.cap, ask.outs.map Out.value)) =
      some (109980, [89946]) := by decide +kernel
  generalize hx : tipSend 99980 true = x at hrun
  obtain ⟨r, p'⟩ := x
  cases r with
  | error e => cases hrun
  | ok ask =>
    obtain ⟨hcap, hvalues⟩ := Prod.mk.inj (Option.some.inj hrun)
    refine ⟨ask, p', rfl, hcap, hvalues, ?_⟩
    rintro ⟨shares, raise, rest, hlen, -, -, hsum, houts, hraise⟩
    obtain ⟨share, rfl⟩ := List.length_eq_one_iff.mp hlen
    have hshare : share = 10000 := by simpa using hsum rfl
    obtain rfl | ⟨-, -, -, s, -, rfl⟩ := hraise
    · rw [lessAt_zero] at houts
      rw [houts, hshare] at hvalues
      simp [lessShares] at hvalues
    · rw [houts] at hvalues
      simp [lessShares, lessAt, firstBearer] at hvalues

end Yew.Daemon
