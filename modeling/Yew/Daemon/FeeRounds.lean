import Yew.Daemon.FundYed
import Yew.Daemon.SendOutflow

/-!
# Rounds that end

`send_yec` and `fund_yed` look for a fee by a bounded number of rounds: a larger fee takes more
coins, and more coins ask for a larger fee.  When a front of the coins covers its own fee no round
fails, and the fee never passes that of the front.  But it may take more rounds than there are to
get there.

The loops are those of `send_yec` in `yewd/wallet/src/send.rs` and `fund_yed` in
`yewd/wallet/src/mint.rs`.  The fees of the rounds are a chain that climbs along the fronts of the
coins, and the bound on the rounds is compared with the length of that chain.
-/

namespace Yew.Daemon

open Script Tx Pq Proto Proc Yellowback Build

/-! ## Fronts of coins -/

section Fronts

variable {coins : List Chosen}

/-- The coins gathered for an amount that a front covers are within it, and cover it. -/
theorem gather_of_take {needed got : Int} {n : Nat} (h : needed ≤ got + worth (coins.take n)) :
    (gather needed got coins).length ≤ n ∧ needed ≤ got + worth (gather needed got coins) := by
  induction coins generalizing got n with
  | nil =>
    rw [List.take_nil] at h
    exact ⟨Nat.zero_le n, h⟩
  | cons c cs ih =>
    rw [gather]
    split
    · rename_i hle
      exact ⟨Nat.zero_le n, hle.trans_eq (add_zero got).symm⟩
    · rename_i hlt
      cases n with
      | zero => exact absurd (h.trans_eq (add_zero got)) hlt
      | succ n =>
        have hworth : ∀ ds, got + worth (c :: ds) = got + c.value + worth ds := by
          intro ds
          rw [worth, List.map_cons, List.sum_cons, worth]
          ring
        rw [List.take_succ_cons, hworth] at h
        obtain ⟨hlen, hcovers⟩ := ih h
        exact ⟨Nat.succ_le_succ hlen, hcovers.trans_eq (hworth _).symm⟩

theorem gather_front_take {needed : Int} {n : Nat} (h : needed ≤ worth (coins.take n)) :
    gather needed 0 coins <+: coins.take n := by
  have hlen := (gather_of_take (h.trans_eq (zero_add _).symm)).1
  have hfront := gather_front needed 0 coins
  refine List.prefix_take_iff.mpr ⟨hfront, hlen⟩

theorem inBytes_mono {front front' : List Chosen} (h : front <+: front') (more : List Nat) :
    Transaction.inBytes (front.map (fun c ↦ scriptSigSizeBound c.script) ++ more) ≤
      Transaction.inBytes (front'.map (fun c ↦ scriptSigSizeBound c.script) ++ more) := by
  obtain ⟨rest, rfl⟩ := h
  simp only [Transaction.inBytes, List.map_append, List.sum_append]
  omega

theorem outputsBytes_mono (lengths : List Nat) (n : Nat) (c : Prop) [Decidable c] :
    outputsBytes (lengths ++ if c then [n] else []) ≤ outputsBytes (lengths ++ [n]) := by
  unfold outputsBytes
  split
  · exact le_refl _
  · rw [List.append_nil, List.map_append, List.sum_append]
    exact Nat.le_add_right _ _

end Fronts

/-- A front of the coins covers an amount and the larger of a flat fee and its own price. -/
def Covered (coins : List Chosen) (amount flat : Int) (price : List Chosen → Int) : Prop :=
  ∃ n, amount + max flat (price (coins.take n)) ≤ worth (coins.take n)

/-- A fee that is raised to what is asked for at it settles within some rounds. -/
def SettlesWithin (rounds : Nat) (want : Int → Int) (fee : Int) : Prop :=
  ∃ k < rounds, want (want^[k] fee) ≤ want^[k] fee

/-! ## `send_yec` -/

/-- A coin that pays a P2PKH key. -/
def Plain (c : Chosen) : Prop := ∃ h, c.script = p2pkhScript h

/-- What a payment asks for that spends exactly some coins and has change. -/
def paymentPrice (recipients : List Recipient) (front : List Chosen) : Int :=
  conventionalFor front (recipients.map (fun r ↦ r.script.length) ++ [25])

/-- What a round asks for at a fee, where every coin is plain. -/
def plainWant (back : Bool) (coins : List Chosen) (recipients : List Recipient) (fee : Int) : Int :=
  conventionalFor (gather (needOf recipients fee) 0 coins)
    (recipients.map (fun r ↦ r.script.length) ++
      if GivesChange back coins recipients fee then [25] else [])

/-- No recipient bears the fee. -/
def Fixed (recipients : List Recipient) : Prop := ∀ r ∈ recipients, r.subtract = false

/-- No recipient gets dust. -/
def NoDust (recipients : List Recipient) : Prop :=
  ∀ r ∈ recipients, dustThreshold r.script ≤ r.value

section Send

variable {env : Env} {back : Bool} {coins : List Chosen} {recipients : List Recipient}

theorem Fixed.not_any (h : Fixed recipients) : ¬ recipients.any Recipient.subtract = true := by
  rw [List.any_eq_true]
  rintro ⟨r, hr, hsub⟩
  rw [h r hr] at hsub
  cases hsub

theorem mem_of_backCoin {chosen : List Chosen} {c : Chosen} (h : backCoin back chosen = some c) :
    c ∈ chosen := by
  unfold backCoin at h
  split at h
  · exact mem_of_largestCoin h
  · cases h

theorem wantAt_of_plain (hplain : ∀ c ∈ coins, Plain c) (fees : PlainFees) (fee : Int) :
    wantAt fees back coins recipients fee = plainWant back coins recipients fee := by
  have hchosen : ∀ c ∈ gather (needOf recipients fee) 0 coins, Plain c :=
    fun c hc ↦ hplain c (mem_gather hc)
  have hlength : changeLength back (gather (needOf recipients fee) 0 coins) = 25 := by
    unfold changeLength
    split
    · rename_i c hc
      obtain ⟨h, hscript⟩ := hchosen c (mem_of_backCoin hc)
      rw [hscript, length_p2pkhScript]
    · rfl
  have hpq : ¬ (gather (needOf recipients fee) 0 coins).any (fun c ↦ (pqpkhOf c.script).isSome) =
      true := by
    rw [List.any_eq_true]
    rintro ⟨c, hc, hsome⟩
    obtain ⟨h, hscript⟩ := hchosen c hc
    rw [hscript, pqpkhOf_p2pkhScript] at hsome
    cases hsome
  unfold wantAt feeFor
  dsimp only
  rw [if_neg hpq, hlength, plainWant]

/-- Outputs that are fixed are paid, unless one is dust. -/
theorem recipientOuts_of_fixed (h : Fixed recipients) (fee n : Int) (first : Bool) :
    NoDust recipients ∧ (∃ outs, recipientOuts fee n first recipients = .ok outs) ∨
      ¬ NoDust recipients ∧
        recipientOuts fee n first recipients = .error ⟨-4, "Transaction amount too small"⟩ := by
  induction recipients generalizing first with
  | nil => exact .inl ⟨nofun, [], rfl⟩
  | cons r rs ih =>
    obtain ⟨hsub, hrs⟩ := List.forall_mem_cons.mp h
    simp only [recipientOuts, hsub, Bool.false_eq_true, if_false, Bool.not_false, if_true]
    by_cases hvalue : r.value < dustThreshold r.script
    · refine .inr ⟨fun hdust ↦ ?_, if_pos hvalue⟩
      exact absurd hvalue (not_lt.mpr (hdust r List.mem_cons_self))
    · rw [if_neg hvalue]
      rcases ih hrs (first && true) with ⟨hdust, outs, houts⟩ | ⟨hdust, herr⟩
      · refine .inl ⟨List.forall_mem_cons.mpr ⟨not_lt.mp hvalue, hdust⟩,
          ⟨r.value, r.script⟩ :: outs, ?_⟩
        exact Result.bind_eq_ok.mpr ⟨outs, houts, rfl⟩
      · refine .inr ⟨fun h ↦ hdust (List.forall_mem_cons.mp h).2, ?_⟩
        rw [herr]
        rfl

theorem payChange_drawable (back : Bool) {n : Nat} {p : Purse}
    (hp : Drawable env (n + 1) p.wallet) (h : Fixed recipients) (change : Int)
    (chosen : List Chosen) (outs : List Out) :
    ∃ outs' p', payChange env back none recipients change chosen outs p = (.ok outs', p') ∧
      Drawable env n p'.wallet := by
  have hscript : ∃ s p', changeScript env back none chosen p = (.ok s, p') ∧
      Drawable env n p'.wallet := by
    unfold changeScript
    rw [← backCoin]
    cases backCoin back chosen with
    | some c => exact ⟨c.script, p, rfl, hp.of_succ⟩
    | none => exact newChange_drawable hp
  obtain ⟨s, p', hs, hp'⟩ := hscript
  unfold payChange
  split
  · have hbearers : (recipients.countP Recipient.subtract : Int) = 0 :=
      le_antisymm (not_lt.mp fun hpos ↦ h.not_any (bearers_pos.mp hpos)) bearers_nonneg
    have hchange : ∃ outs', changeOuts recipients (recipients.countP Recipient.subtract) change s
        outs = .ok outs' := by
      refine ⟨_, Result.guard_eq_ok.mpr ⟨?_, rfl⟩⟩
      rintro ⟨hraise, -⟩
      rw [if_neg fun hpos ↦ hpos.1.ne' hbearers] at hraise
      exact lt_irrefl 0 hraise
    obtain ⟨outs', houts⟩ := hchange
    exact ⟨outs', p', bind_eq_ok.mpr ⟨s, p', hs, Prod.ext houts rfl⟩, hp'⟩
  · exact ⟨outs, p, rfl, hp.of_succ⟩

/-- A round whose coins cover it comes out. -/
theorem sendRound_drawable (back : Bool) {n : Nat} {p : Purse}
    (hp : Drawable env (n + 1) p.wallet) (h : Fixed recipients) (hdust : NoDust recipients) {fee : Int}
    (hcovers : needOf recipients fee ≤ worth (gather (needOf recipients fee) 0 coins))
    (fees : PlainFees) (expiryHeight : UInt32) :
    ∃ chosen outs p', sendRound env fees back none expiryHeight coins recipients fee p =
        (.ok (wantAt fees back coins recipients fee, chosen, outs), p') ∧
      Drawable env n p'.wallet := by
  obtain ⟨-, paidOuts, hpaid⟩ :=
    (recipientOuts_of_fixed h fee (bearers recipients) true).resolve_right fun hout ↦ hout.1 hdust
  obtain ⟨outs, p', hchange, hp'⟩ := payChange_drawable back hp h
    (worth (gather (needOf recipients fee) 0 coins) - needOf recipients fee)
    (gather (needOf recipients fee) 0 coins) paidOuts
  have hround : sendRound env fees back none expiryHeight coins recipients fee p =
      (.ok (_, _, outs), p') := lift_bind_eq_ok.mpr ⟨paidOuts, hpaid, guard_eq_ok.mpr
    ⟨not_lt.mpr hcovers, bind_eq_ok.mpr ⟨outs, p', hchange,
      lift_bind_eq_ok.mpr ⟨_, paymentFee_eq _ _ _ _, rfl⟩⟩⟩⟩
  obtain ⟨_, hr⟩ := sendRound_eq_ok hround
  rw [hr.want_eq] at hround
  exact ⟨_, outs, p', hround, hp'⟩

/-- The rounds settle on a fee and come out, or run out. -/
theorem sendRounds_outcome (next : Next) (h : Fixed recipients) (hdust : NoDust recipients)
    {limit : Int}
    (hcovers : ∀ fee ≤ limit,
      needOf recipients fee ≤ worth (gather (needOf recipients fee) 0 coins))
    {rounds : List (PlainFees × Option String)} (hfaults : ∀ r ∈ rounds, r.2 = none)
    (hwant : ∀ r ∈ rounds, ∀ fee ≤ limit, wantAt r.1 back coins recipients fee ≤ limit) {fee : Int}
    (hfee : fee ≤ limit) {p : Purse} (hp : Drawable env rounds.length p.wallet) :
    (settledFee back coins recipients rounds fee).isSome ∧
        (∃ ask p', sendRounds env back next coins recipients rounds fee p = (.ok ask, p')) ∨
      ¬ (settledFee back coins recipients rounds fee).isSome ∧
        (sendRounds env back next coins recipients rounds fee p).1 =
          .error ⟨-4, "the fee did not converge"⟩ := by
  induction rounds generalizing fee p with
  | nil => exact .inr ⟨nofun, rfl⟩
  | cons r rs ih =>
    obtain ⟨fees, fault⟩ := r
    obtain ⟨rfl, hnone⟩ := List.forall_mem_cons.mp hfaults
    obtain ⟨hr, hrest⟩ := List.forall_mem_cons.mp hwant
    obtain ⟨chosen, outs, p', hround, hp'⟩ := sendRound_drawable back hp h hdust
      (hcovers fee hfee) fees (UInt32.ofNat (next.height + paymentExpiryDelta))
    rw [settledFee, settle, sendRounds, bind_apply, hround]
    dsimp only
    split
    · exact ih hnone hrest (hr fee hfee) hp'
    · exact .inl ⟨rfl, _, p', rfl⟩

/-- Below the fee of a front that covers itself, a round is covered and asks for no more than it. -/
theorem plainWant_le (back : Bool) (h : Fixed recipients) {n : Nat} {fee : Int}
    (hn : totalOf recipients + max firstFee (paymentPrice recipients (coins.take n)) ≤
      worth (coins.take n)) (hfee : fee ≤ max firstFee (paymentPrice recipients (coins.take n))) :
    needOf recipients fee ≤ worth (gather (needOf recipients fee) 0 coins) ∧
      plainWant back coins recipients fee ≤
        max firstFee (paymentPrice recipients (coins.take n)) := by
  have hneed : needOf recipients fee ≤ worth (coins.take n) := by
    rw [needOf_of_not_any h.not_any]
    omega
  have hcovers := (gather_of_take (hneed.trans_eq (zero_add _).symm)).2
  rw [zero_add] at hcovers
  have hbytes := inBytes_mono (gather_front_take hneed) []
  rw [List.append_nil, List.append_nil] at hbytes
  refine ⟨hcovers, le_max_of_le_right ?_⟩
  exact zip317ConventionalFee_mono 0 hbytes (outputsBytes_mono _ _ _)

end Send

/-- A payment for which the funds suffice.  The coins are P2PKH ones, the recipients' outputs are
fixed, keys for the change can be drawn, and a front of the coins covers the outputs and the larger
of the first fee and the conventional fee of what spends it with change. -/
structure SendFunded (env : Env) (A : Answers) (rounds : Fin 8 → PlainFees × Option String)
    (recipients : List Recipient) (minDepth : Int) (p : Purse) (coins : List Chosen) : Prop where
  next : (nextBlock A).isOk = true
  eligible : p.spendableYec A minDepth true = .ok coins
  plain : ∀ c ∈ coins, Plain c
  fixed : Fixed recipients
  keys : Drawable env 8 p.wallet
  signer : ∀ k, (rounds k).2 = none
  covered : Covered coins (totalOf recipients) firstFee (paymentPrice recipients)

namespace SendFunded

variable {env : Env} {A : Answers} {rounds : Fin 8 → PlainFees × Option String}
  {recipients : List Recipient} {minDepth : Int} {p : Purse} {coins : List Chosen}

theorem sendYec_eq (h : SendFunded env A rounds recipients minDepth p coins) (back : Bool) :
    ∃ next, sendYec env A back rounds recipients minDepth p =
      sendRounds env back next coins recipients (List.ofFn rounds) firstFee p := by
  have hok := h.next
  cases hnext : nextBlock A with
  | error e =>
    rw [hnext] at hok
    cases hok
  | ok next =>
    refine ⟨next, ?_⟩
    rw [sendYec, bind_apply, lift_apply, hnext]
    dsimp only
    rw [bind_apply, get_apply]
    dsimp only
    rw [bind_apply, lift_apply, h.eligible]
    rfl

/-- Dust is refused in the first round. -/
theorem sendYec_dust (h : SendFunded env A rounds recipients minDepth p coins) (back : Bool)
    (hdust : ¬ NoDust recipients) :
    (sendYec env A back rounds recipients minDepth p).1 =
      .error ⟨-4, "Transaction amount too small"⟩ := by
  obtain ⟨next, hrun⟩ := h.sendYec_eq back
  have herr := ((recipientOuts_of_fixed h.fixed firstFee (bearers recipients) true).resolve_left
    fun hout ↦ hdust hout.1).2
  rw [hrun, List.ofFn_succ, sendRounds, bind_apply, sendRound, bind_apply, lift_apply, ← bearers,
    herr]

/-- Without dust the rounds settle on a fee and a transaction is built, or they run out. -/
theorem outcome (h : SendFunded env A rounds recipients minDepth p coins) (back : Bool)
    (hdust : NoDust recipients) :
    SettlesWithin 8 (plainWant back coins recipients) firstFee ∧
        (∃ ask p', sendYec env A back rounds recipients minDepth p = (.ok ask, p')) ∨
      ¬ SettlesWithin 8 (plainWant back coins recipients) firstFee ∧
        (sendYec env A back rounds recipients minDepth p).1 =
          .error ⟨-4, "the fee did not converge"⟩ := by
  obtain ⟨n, hn⟩ := h.covered
  have hsame : ∀ r : PlainFees × Option String,
      wantAt r.1 back coins recipients = plainWant back coins recipients :=
    fun r ↦ funext fun fee ↦ wantAt_of_plain h.plain r.1 fee
  have hsettled : (settledFee back coins recipients (List.ofFn rounds) firstFee).isSome ↔
      SettlesWithin 8 (plainWant back coins recipients) firstFee := by
    rw [settledFee, funext hsame, isSome_settle, List.length_ofFn, SettlesWithin]
  obtain ⟨next, hrun⟩ := h.sendYec_eq back
  rw [hrun, ← hsettled]
  refine sendRounds_outcome next h.fixed hdust
    (fun fee hfee ↦ (plainWant_le back h.fixed hn hfee).1) ?_ ?_ (le_max_left _ _) ?_
  · intro r hr
    obtain ⟨k, rfl⟩ := (List.mem_ofFn' _ _).mp hr
    exact h.signer k
  · intro r _ fee hfee
    rw [hsame r]
    exact (plainWant_le back h.fixed hn hfee).2
  · rw [List.length_ofFn]
    exact h.keys

end SendFunded

/-! ## `fund_yed` -/

/-- The length of the script that the change of a build goes to. -/
def yedChangeLength (only : Option Bytes) : Nat := only.elim 25 List.length

/-- The conventional fee of a build funded with exactly some coins, with an output of change or
without. -/
def yedPrice (base : YedBase) (extra : YedExtra) (change : List Nat) (front : List Chosen) : Int :=
  Build.zip317ConventionalFee
    (Transaction.inBytes (front.map (fun c ↦ scriptSigSizeBound c.script) ++
      extra.inputs.map Prod.snd))
    (outputsBytes (base.outs.map (fun o ↦ o.scriptPubkey.length) ++ change)) 0

/-- What a build needs from coins at a fee. -/
def yedNeed (base : YedBase) (extra : YedExtra) (fee : Int) : Int :=
  paid base.outs + fee - extra.inputValue

/-- What a round asks for at a fee. -/
def yedWant (base : YedBase) (extra : YedExtra) (only : Option Bytes) (coins : List Chosen)
    (fee : Int) : Int :=
  let chosen := gather (yedNeed base extra fee) 0 coins
  yedPrice base extra
    (if 0 < yedChange chosen (yedNeed base extra fee) then [yedChangeLength only] else []) chosen

section Yed

variable {A : Answers} {p : Purse} {base : YedBase} {extra : YedExtra} {only : Option Bytes}
  {changeScript : Bytes} {coins : List Chosen}

theorem conventional_fundedYed (chosen : List Chosen) (outs : List Out) :
    (fundedYed base extra chosen outs).zip317ConventionalFee
        (chosen.map (fun c ↦ scriptSigSizeBound c.script) ++ extra.inputs.map Prod.snd) =
      .ok (yedPrice base extra (outs.map fun o ↦ o.scriptPubkey.length) chosen) := by
  have hout : (fundedYed base extra chosen outs).outBytes =
      outputsBytes (base.outs.map (fun o ↦ o.scriptPubkey.length) ++
        outs.map fun o ↦ o.scriptPubkey.length) := by
    simp [fundedYed, newV4, Transaction.outBytes, Out.toTxOut, outputsBytes, Function.comp_def]
  rw [Transaction.zip317ConventionalFee, hout, if_neg]
  · rfl
  · simp [fundedYed, newV4]

theorem lengths_yedChangeOuts (hlength : changeScript.length = yedChangeLength only) (change : Int) :
    (yedChangeOuts change changeScript).map (fun o ↦ o.scriptPubkey.length) =
      if 0 < change then [yedChangeLength only] else [] := by
  unfold yedChangeOuts
  split
  · rw [List.map_singleton, hlength]
  · rfl

/-- The coins of a round that a front covers. -/
theorem yecFor_of_covers {reading : Nat} {needed : Int}
    (hcoins : p.yecCandidates A reading only = .ok coins)
    (hcovers : needed ≤ worth (gather needed 0 coins)) :
    p.yecFor A reading needed only = .ok (gather needed 0 coins) := by
  unfold Purse.yecFor
  split
  · rename_i hle
    rw [gather_of_le hle]
  · rw [hcoins]
    exact if_neg (not_lt.mpr hcovers)

theorem yedRound_of_covers {reading : Nat} {fee : Int}
    (hcoins : p.yecCandidates A reading only = .ok coins)
    (hlength : changeScript.length = yedChangeLength only)
    (hcovers : yedNeed base extra fee ≤ worth (gather (yedNeed base extra fee) 0 coins)) :
    ∃ outs, yedRound A p base extra only changeScript reading fee =
      .ok (yedWant base extra only coins fee, gather (yedNeed base extra fee) 0 coins, outs) := by
  let chosen := gather (yedNeed base extra fee) 0 coins
  let outs := yedChangeOuts (yedChange chosen (yedNeed base extra fee)) changeScript
  have hwant : (((fundedYed base extra chosen outs).zip317ConventionalFee
      (chosen.map (fun c ↦ scriptSigSizeBound c.script) ++
        extra.inputs.map Prod.snd)).toOption.getD fee) = yedWant base extra only coins fee := by
    rw [conventional_fundedYed, lengths_yedChangeOuts hlength]
    rfl
  refine ⟨outs, Result.bind_eq_ok.mpr ⟨chosen, yecFor_of_covers hcoins hcovers, ?_⟩⟩
  rw [← hwant]
  rfl

/-- The rounds settle on a fee and come out, or run out. -/
theorem yedRounds_outcome {limit : Int} {readings : List Nat}
    (hcoins : ∀ reading ∈ readings, p.yecCandidates A reading only = .ok coins)
    (hlength : changeScript.length = yedChangeLength only)
    (hcovers : ∀ fee ≤ limit,
      yedNeed base extra fee ≤ worth (gather (yedNeed base extra fee) 0 coins))
    (hwant : ∀ fee ≤ limit, yedWant base extra only coins fee ≤ limit) {fee : Int}
    (hfee : fee ≤ limit) :
    (settle (fun _ ↦ yedWant base extra only coins) readings fee).isSome ∧
        (∃ tx chosen, yedRounds A p base extra only changeScript readings fee = .ok (tx, chosen)) ∨
      ¬ (settle (fun _ ↦ yedWant base extra only coins) readings fee).isSome ∧
        yedRounds A p base extra only changeScript readings fee =
          .error ⟨-4, "the fee did not converge"⟩ := by
  induction readings generalizing fee with
  | nil => exact .inr ⟨nofun, rfl⟩
  | cons reading readings ih =>
    obtain ⟨hreading, hrest⟩ := List.forall_mem_cons.mp hcoins
    obtain ⟨outs, hround⟩ := yedRound_of_covers hreading hlength (hcovers fee hfee)
    rw [settle, yedRounds, hround]
    by_cases hlt : fee < yedWant base extra only coins fee
    · rw [if_pos hlt]
      have hgo := ih hrest (hwant fee hfee)
      simpa only [bind, Except.bind, if_pos hlt] using hgo
    · rw [if_neg hlt]
      refine .inl ⟨rfl, fundedYed base extra (gather (yedNeed base extra fee) 0 coins) outs,
        gather (yedNeed base extra fee) 0 coins, ?_⟩
      exact if_neg hlt

/-- Below the fee of a front that covers itself, a round is covered and asks for no more than it. -/
theorem yedWant_le {flat : Int} {n : Nat} {fee : Int}
    (hn : paid base.outs - extra.inputValue +
      max flat (yedPrice base extra [yedChangeLength only] (coins.take n)) ≤ worth (coins.take n))
    (hfee : fee ≤ max flat (yedPrice base extra [yedChangeLength only] (coins.take n))) :
    yedNeed base extra fee ≤ worth (gather (yedNeed base extra fee) 0 coins) ∧
      yedWant base extra only coins fee ≤
        max flat (yedPrice base extra [yedChangeLength only] (coins.take n)) := by
  have hneed : yedNeed base extra fee ≤ worth (coins.take n) := by
    unfold yedNeed
    omega
  have hcovers := (gather_of_take (hneed.trans_eq (zero_add _).symm)).2
  rw [zero_add] at hcovers
  refine ⟨hcovers, le_max_of_le_right ?_⟩
  exact zip317ConventionalFee_mono 0 (inBytes_mono (gather_front_take hneed) _)
    (outputsBytes_mono _ _ _)

theorem length_yedChangeScript {env : Env} {fault : Option String} {q : Purse}
    (h : yedChangeScript env only fault p = (.ok changeScript, q)) :
    changeScript.length = yedChangeLength only := by
  cases only with
  | some o =>
    cases h
    rfl
  | none =>
    obtain ⟨hash, rfl⟩ := newChange_p2pkh h
    exact length_p2pkhScript hash

end Yed

/-- A build for which the funds suffice.  Once its change script is drawn, every round finds the
same coins, and a front of them covers the outputs, less what the build brings along, and the larger
of the flat fee and the conventional fee of what spends the front with change. -/
structure YedFunded (env : Env) (A : Answers) (base : YedBase) (extra : YedExtra) (flat : Int)
    (only : Option Bytes) (p : Purse) (coins : List Chosen) : Prop where
  keys : Drawable env 1 p.wallet
  eligible : ∀ script q, yedChangeScript env only none p = (.ok script, q) →
    ∀ reading < 6, q.yecCandidates A reading only = .ok coins
  covered : Covered coins (paid base.outs - extra.inputValue) flat
    (yedPrice base extra [yedChangeLength only])

theorem YedFunded.outcome {env : Env} {A : Answers} {base : YedBase} {extra : YedExtra} {flat : Int}
    {only : Option Bytes} {p : Purse} {coins : List Chosen}
    (h : YedFunded env A base extra flat only p coins) :
    SettlesWithin 6 (yedWant base extra only coins) flat ∧
        (∃ built p', fundYed env A base extra flat only none p = (.ok built, p')) ∨
      ¬ SettlesWithin 6 (yedWant base extra only coins) flat ∧
        (fundYed env A base extra flat only none p).1 =
          .error ⟨-4, "the fee did not converge"⟩ := by
  obtain ⟨n, hn⟩ := h.covered
  obtain ⟨script, q, hscript⟩ : ∃ script q, yedChangeScript env only none p = (.ok script, q) := by
    cases only with
    | some o => exact ⟨o, p, rfl⟩
    | none =>
      obtain ⟨s, q, hs, -⟩ := newChange_drawable h.keys
      exact ⟨s, q, hs⟩
  have hrun : fundYed env A base extra flat only none p =
      (yedRounds A q base extra only script (List.range 6) flat, q) := by
    rw [fundYed, bind_apply, hscript]
    rfl
  have hsettled :
      (settle (fun _ : Nat ↦ yedWant base extra only coins) (List.range 6) flat).isSome ↔
      SettlesWithin 6 (yedWant base extra only coins) flat := by
    rw [isSome_settle, List.length_range, SettlesWithin]
  rw [hrun, ← hsettled]
  rcases yedRounds_outcome (fun r hr ↦ h.eligible script q hscript r (List.mem_range.mp hr))
    (length_yedChangeScript hscript) (fun fee hfee ↦ (yedWant_le hn hfee).1)
    (fun fee hfee ↦ (yedWant_le hn hfee).2) (le_max_left _ _) with ⟨hsome, tx, chosen, hok⟩ | hout
  · exact .inl ⟨hsome, (tx, chosen), q, by rw [hok]⟩
  · exact .inr hout

/-! ## Enough rounds -/

/-- **Funds that suffice.**  Where a front of the coins covers its own fee, `send_yec` builds a
transaction if and only if no recipient gets dust and the fee settles within its eight rounds, and
`fund_yed` if and only if it settles within its six.  Otherwise the fee did not converge. -/
theorem funded_builds_iff (env : Env) (A : Answers) :
    (∀ {rounds recipients minDepth p coins} (back : Bool),
      SendFunded env A rounds recipients minDepth p coins →
      ((∃ ask p', sendYec env A back rounds recipients minDepth p = (.ok ask, p')) ↔
        NoDust recipients ∧ SettlesWithin 8 (plainWant back coins recipients) firstFee) ∧
      ((sendYec env A back rounds recipients minDepth p).1 =
          .error ⟨-4, "the fee did not converge"⟩ ↔
        NoDust recipients ∧ ¬ SettlesWithin 8 (plainWant back coins recipients) firstFee)) ∧
    ∀ {base extra flat only p coins}, YedFunded env A base extra flat only p coins →
      ((∃ built p', fundYed env A base extra flat only none p = (.ok built, p')) ↔
        SettlesWithin 6 (yedWant base extra only coins) flat) ∧
      ((fundYed env A base extra flat only none p).1 = .error ⟨-4, "the fee did not converge"⟩ ↔
        ¬ SettlesWithin 6 (yedWant base extra only coins) flat) := by
  constructor
  · intro rounds recipients minDepth p coins back h
    by_cases hdust : NoDust recipients
    · rcases h.outcome back hdust with ⟨hsettles, ask, p', hok⟩ | ⟨hsettles, herr⟩
      · simp [hok, hdust, hsettles]
      · refine ⟨⟨?_, fun hs ↦ absurd hs.2 hsettles⟩, fun _ ↦ ⟨hdust, hsettles⟩, fun _ ↦ herr⟩
        rintro ⟨ask, p', hok⟩
        rw [hok] at herr
        cases herr
    · have herr := h.sendYec_dust back hdust
      refine ⟨⟨?_, fun hs ↦ absurd hs.1 hdust⟩, ?_, fun hs ↦ absurd hs.1 hdust⟩
      · rintro ⟨ask, p', hok⟩
        rw [hok] at herr
        cases herr
      · intro hconverge
        rw [herr] at hconverge
        simp at hconverge
  · intro base extra flat only p coins h
    rcases h.outcome with ⟨hsettles, built, p', hok⟩ | ⟨hsettles, herr⟩
    · simp [hok, hsettles]
    · refine ⟨⟨?_, fun hs ↦ absurd hs hsettles⟩, fun _ ↦ hsettles, fun _ ↦ herr⟩
      rintro ⟨built, p', hok⟩
      rw [hok] at herr
      cases herr

/-! ### Twenty-eight coins -/

theorem listWallet_drawable (n k : Nat) : Drawable listEnv k (listWallet n []) where
  receive := fun i _ ↦ ⟨listKey external i, rfl⟩
  change := fun i _ ↦ ⟨listKey internal i, rfl⟩
  bundle := ⟨nofun, nofun, fun req ↦ ⟨rfl, nofun⟩⟩
  dense := by
    have hcount : (listBook []).count internal = 0 := by decide +kernel
    intro i hi
    exact absurd hi (hcount ▸ Nat.not_lt_zero i)

theorem tipPurse_drawable (k : Nat) : Drawable listEnv k tipPurse.wallet :=
  ⟨fun i _ ↦ ⟨listKey external i, rfl⟩, fun i _ ↦ ⟨listKey internal i, rfl⟩,
    (listWallet_drawable 1 k).bundle, (listWallet_drawable 1 k).dense⟩

/-- A node without tokens reserves nothing but what is in the mempool. -/
theorem yedReserved_of_no_tokens {A : Answers} (htokens : A.tokens = [])
    (hfault : ∀ reading chunk, A.tokensFault reading chunk = none) (w : Wallet) (reading : Nat) :
    w.yedReserved A reading = w.mempoolTokens := by
  have hlist : ∀ chunks, listTokens A reading chunks = .ok [] := by
    intro chunks
    induction chunks with
    | nil => rfl
    | cons c cs ih =>
      rw [listTokens, hfault, ih, htokens]
      rfl
  rw [Wallet.yedReserved, Wallet.tokens, hlist]
  rfl

/-- The node sees the coin of the wallet. -/
def tipAnswers : Answers :=
  { plainAnswers with
    txout := fun _ ↦ .ok (some ⟨some 100000, .ok (listScript 0), 1, "paid", false⟩) }

theorem yecCandidates_tipPurse (reading : Nat) :
    tipPurse.yecCandidates tipAnswers reading (some (listScript 0)) =
      .ok [⟨⟨payTxid, 0⟩, 100000, listScript 0⟩] := by
  have hreserved : tipPurse.wallet.yedReserved tipAnswers reading = [] :=
    (yedReserved_of_no_tokens rfl (fun _ _ ↦ rfl) _ _).trans (by decide +kernel)
  simp only [Purse.yecCandidates, Purse.eligible, Purse.candidates, hreserved]
  decide +kernel

/-- A coin of 100,000 pays 50,000 with either function. -/
theorem funded_builds_half : (∃ ask p', tipSend 50000 false = (.ok ask, p')) ∧
    ∃ built p', fundYed listEnv tipAnswers ⟨[⟨50000, listScript 200⟩], 0, 0⟩ ⟨0, []⟩ 1000
      (some (listScript 0)) none tipPurse = (.ok built, p') := by
  have hsend : SendFunded listEnv plainAnswers (fun _ ↦ (⟨1000, 100000⟩, none))
      [⟨listScript 200, 50000, false⟩] 0 tipPurse [⟨⟨payTxid, 0⟩, 100000, listScript 0⟩] := by
    refine ⟨by decide +kernel, spendableYec_tipPurse, ?_, ?_, tipPurse_drawable 8, fun _ ↦ rfl, 1,
      by decide +kernel⟩
    · intro c hc
      exact ⟨_, by rw [List.mem_singleton.mp hc]; rfl⟩
    · intro r hr
      rw [List.mem_singleton.mp hr]
  have hyed : YedFunded listEnv tipAnswers ⟨[⟨50000, listScript 200⟩], 0, 0⟩ ⟨0, []⟩ 1000
      (some (listScript 0)) tipPurse [⟨⟨payTxid, 0⟩, 100000, listScript 0⟩] := by
    refine ⟨tipPurse_drawable 1, ?_, 1, by decide +kernel⟩
    rintro _ _ ⟨⟩ reading -
    exact yecCandidates_tipPurse reading
  constructor
  · refine ((funded_builds_iff _ _).1 false hsend).1.mpr ⟨?_, 0, by decide, by decide +kernel⟩
    intro r hr
    rw [List.mem_singleton.mp hr]
    decide +kernel
  · exact ((funded_builds_iff _ _).2 hyed).1.mpr ⟨1, by decide, by decide +kernel⟩

/-- A coin of 502 zatoshi, as the wallet has it. -/
def miteCoin (n : Nat) : Coin :=
  ⟨txidHex payTxid, UInt32.ofNat n, 502, listScript 0, .t external 0, some 1, false, false⟩

/-- The coin as `spendable_yec` has it. -/
def mite (n : Nat) : Chosen := ⟨⟨payTxid, UInt32.ofNat n⟩, 502, listScript 0⟩

/-- A wallet with twenty-eight such coins. -/
def mitePurse : Purse :=
  ⟨{ tipPurse.wallet with coins := (List.range 28).map miteCoin }, .empty, false⟩

theorem readCoins_mites (ns : List Nat) :
    readCoins (ns.map fun n ↦ (miteCoin n, false)) = .ok (ns.map fun n ↦ (mite n, false)) := by
  induction ns with
  | nil => rfl
  | cons n ns ih =>
    rw [List.map_cons, readCoins, ih]
    dsimp only [miteCoin, Coin.at]
    rw [readOutpoint_txidHex]
    rfl

theorem spendableYec_mitePurse :
    mitePurse.spendableYec plainAnswers 0 true = .ok ((List.range 28).map mite) := by
  have hspendable : mitePurse.spendable plainAnswers 0 true =
      (List.range 28).map fun n ↦ (miteCoin n, false) := by
    have hreserved : mitePurse.wallet.yedReserved plainAnswers 0 = [] :=
      (yedReserved_of_no_tokens rfl (fun _ _ ↦ rfl) _ _).trans (by decide +kernel)
    simp only [Purse.spendable, hreserved]
    decide +kernel
  rw [Purse.spendableYec, hspendable, readCoins_mites]
  decide +kernel

/-- A payment of 56 zatoshi from them. -/
def miteSend : Except RpcError SignAsk × Purse :=
  sendYec listEnv plainAnswers false (fun _ ↦ (⟨1000, 100000⟩, none))
    [⟨listScript 200, 56, false⟩] 0 mitePurse

theorem mites_funded : SendFunded listEnv plainAnswers (fun _ ↦ (⟨1000, 100000⟩, none))
    [⟨listScript 200, 56, false⟩] 0 mitePurse ((List.range 28).map mite) where
  next := by decide +kernel
  eligible := spendableYec_mitePurse
  plain := by
    intro c hc
    obtain ⟨n, -, rfl⟩ := List.mem_map.mp hc
    exact ⟨_, rfl⟩
  fixed := by
    intro r hr
    rw [List.mem_singleton.mp hr]
  keys := ⟨(tipPurse_drawable 8).receive, (tipPurse_drawable 8).change,
    (tipPurse_drawable 8).bundle, (tipPurse_drawable 8).dense⟩
  signer := fun _ ↦ rfl
  covered := ⟨28, by decide +kernel⟩

theorem mites_unsettled : ¬ SettlesWithin 8
    (plainWant false ((List.range 28).map mite) [⟨listScript 200, 56, false⟩]) firstFee := by
  let want := plainWant false ((List.range 28).map mite) [⟨listScript 200, 56, false⟩]
  have hraised : ∀ k < 8, ¬ want (want^[k] firstFee) ≤ want^[k] firstFee := by decide +kernel
  rintro ⟨k, hk, hle⟩
  exact hraised k hk hle

/-- Twenty-eight coins of 502 zatoshi cover 56 zatoshi and their own fee of 14,000.  From 10,000 on
each round takes one coin more and asks for 500 more, and the eighth is the last. -/
theorem not_builds_mites :
    SendFunded listEnv plainAnswers (fun _ ↦ (⟨1000, 100000⟩, none))
      [⟨listScript 200, 56, false⟩] 0 mitePurse ((List.range 28).map mite) ∧
    miteSend.1 = .error ⟨-4, "the fee did not converge"⟩ := by
  have hdust : NoDust [⟨listScript 200, 56, false⟩] := by
    intro r hr
    rw [List.mem_singleton.mp hr]
    decide +kernel
  refine ⟨mites_funded, ?_⟩
  rcases mites_funded.outcome false hdust with ⟨hsettles, -⟩ | ⟨-, herr⟩
  · exact absurd hsettles mites_unsettled
  · exact herr

end Yew.Daemon
