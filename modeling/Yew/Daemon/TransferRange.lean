import Yew.Build.TransferSound
import Yew.Core.CoinChange
import Yew.Daemon.YedSound

/-!
# What a transfer assigns

The protocol gives an output of a transfer between a dollar and a hundred thousand.  Both wallets
check that of every recipient, and of the change they take what the selector leaves.  It is never
below the floor; it is past the limit when the tokens are overfull.

The builders are `build_yed_transfer` of `core/src/build/yed_transfer.rs` and `do_send` of
`yewd/wallet/src/yed.rs`; what the selector leaves is `Yew.Core.CoinChange`.
-/

namespace Yew.Daemon

open Script Tx Pq Keys Proto Proc Yellowback Build CoinSelect

/-- Cents that an output of a transfer may be assigned. -/
def InRange (cents : Nat) : Prop := minOutputCents ≤ cents ∧ cents ≤ maxOutputCents

instance (cents : Nat) : Decidable (InRange cents) := inferInstanceAs (Decidable (_ ∧ _))

/-- Tokens whose worths are ones that an output of a transfer may be assigned. -/
def TokensInRange (coins : List Int) : Prop := ∀ c ∈ coins, minOutputCents ≤ c ∧ c ≤ maxOutputCents

/-- The selector leaves change of more than an output may be assigned. -/
def OverfullFor (coins : List Int) (needed : Int) : Prop :=
  Overfull coins needed minOutputCents maxInputs maxOutputCents

/-! ## The change -/

/-- The change that the selector leaves. -/
theorem change_of_ok {coins : List Int} {needed : Int} (hpos : 0 < needed)
    (hsmall : needed ≤ maxRecipients * maxOutputCents) (hcoins : TokensInRange coins)
    (hok : (selectFloorAware coins needed minOutputCents maxInputs false).ok = true) :
    let change := (selectFloorAware coins needed minOutputCents maxInputs false).change
    (change = 0 ∨ minOutputCents ≤ change) ∧ change < 2 ^ 32 ∧
      (change ≤ maxOutputCents ↔ ¬ OverfullFor coins needed) := by
  have hstages := selectStages_of_ok hpos hok
  generalize selectFloorAware coins needed minOutputCents maxInputs false = s at *
  have hcap : 0 < maxInputs := by decide
  have hlimit : needed + 2 * (minOutputCents : Int) ≤ 2 ^ 32 := by
    rw [maxRecipients, maxAssignments, maxOutputCents] at hsmall
    rw [minOutputCents]
    omega
  have hsnug : Snug coins needed minOutputCents maxInputs (2 ^ 32) := by
    by_cases hall : ∀ c ∈ coins, c < needed + minOutputCents
    · exact .inr (.inr hall)
    · push Not at hall
      obtain ⟨c, hc, hge⟩ := hall
      have := (hcoins c hc).2
      rw [maxOutputCents] at this
      exact .inr (.inl ⟨c, hc, hge, by omega⟩)
  obtain ⟨-, -, hanswers⟩ := (@answers_selectStages _ _ _ _ hcap false) hstages
  refine ⟨hanswers.change, ?_, ?_⟩
  · exact (change_lt_iff hpos (by decide) hcap hlimit hstages).mpr hsnug
  · refine change_le_iff (by decide) hcoins hpos (by decide) hcap ?_ hstages
    rw [maxRecipients, maxAssignments, maxOutputCents] at hsmall
    rw [minOutputCents, maxInputs, maxOutputCents]
    omega

/-! ## The core's transfer -/

section Core

variable {C : Crypto} {w : Build.Wallet} {recipients : List (String × Nat)} {tip : Nat}
  {branchId : UInt32} {p : YedTransferPreview}

theorem selectYed_change {needed change : Nat} {us : List Coins.Utxo} {stage : SelectStage}
    (hpos : 0 < needed) (hsmall : needed ≤ maxRecipients * maxOutputCents)
    (hcoins : TokensInRange (tokenAmounts w)) (h : selectYed w needed = .ok (us, stage, change)) :
    (change = 0 ∨ minOutputCents ≤ change) ∧ change < 2 ^ 32 ∧
      (change ≤ maxOutputCents ↔ ¬ OverfullFor (tokenAmounts w) needed) := by
  rw [selectYed] at h
  dsimp only at h
  rw [← tokenAmounts] at h
  cases hok : (selectFloorAware (tokenAmounts w) needed minOutputCents maxInputs false).ok with
  | false =>
    rw [hok] at h
    simp only [Bool.not_false, if_true] at h
    split at h
    · cases h
    · split at h <;> cases h
  | true =>
    obtain ⟨hfloor, hlt, hiff⟩ := change_of_ok (by exact_mod_cast hpos) (by exact_mod_cast hsmall)
      hcoins hok
    rw [hok] at h
    generalize selectFloorAware (tokenAmounts w) needed minOutputCents maxInputs false = s at *
    cases h
    rw [← hiff]
    omega

theorem forall_assignmentsFor {outs : List TokenOutput} (P : UInt32 → Prop) :
    (∀ a ∈ assignmentsFor outs, P a.cents) ↔ ∀ t ∈ outs, P t.2 := by
  constructor
  · intro h t ht
    obtain ⟨i, hi, rfl⟩ := List.mem_iff_getElem.mp ht
    exact h _ (List.mem_mapIdx.mpr ⟨i, hi, rfl⟩)
  · intro h a ha
    obtain ⟨i, hi, rfl⟩ := List.mem_mapIdx.mp ha
    exact h _ (List.getElem_mem hi)

/-- What the core's transfer assigns. -/
theorem buildYedTransfer_range (hcoins : TokensInRange (tokenAmounts w))
    (h : buildYedTransfer C w recipients tip branchId = some (.ok p)) :
    ∃ tx as k, tx.serialize = .ok p.raw ∧ findPayload tx = some ⟨.transfer as, k⟩ ∧
      ((∀ a ∈ as, InRange a.cents.toNat) ↔
        ¬ OverfullFor (tokenAmounts w) (recipients.map Prod.snd).sum) := by
  obtain ⟨plan, a, hplan, hassemble, hpreview⟩ := buildYedTransfer_eq_ok h
  obtain ⟨outs, change, hplans⟩ := planTransfer_eq_ok hplan
  obtain ⟨baseFee, tx, ha⟩ := assemble_eq_ok hassemble
  rw [previewTransfer, Result.bind_eq_ok] at hpreview
  obtain ⟨-, -, hpreview⟩ := hpreview
  cases hpreview
  have hvout : tx.vout = (transferOuts plan.tokens a.payload a.yecChange
      plan.changeRow.hash160).map Out.toTxOut := ha.body.vout
  have hpayload := findPayload_transferOuts hvout ha.encoded hplans.isOpReturn_tokens
  refine ⟨tx, assignmentsFor plan.tokens, _, ha.raw, hpayload.2, ?_⟩
  have hsmall : (recipients.map Prod.snd).sum ≤ maxRecipients * maxOutputCents := by
    refine (sum_of_pays hplans.pays).2.2.trans ?_
    rw [Nat.mul_comm]
    exact Nat.mul_le_mul_right _ hplans.length_le
  obtain ⟨hfloor, hlt, hiff⟩ := selectYed_change hplans.needed_bounds.1 hsmall hcoins hplans.selected
  have hrecipients : ∀ t ∈ outs, InRange t.2.toNat := by
    intro t ht
    obtain ⟨i, hi, rfl⟩ := List.mem_iff_getElem.mp ht
    obtain ⟨-, hcents, hrange⟩ := (List.forall₂_iff_get.mp hplans.pays).2 i
      (by rwa [hplans.pays.length_eq]) hi
    rw [List.get_eq_getElem] at hcents
    rw [hcents]
    exact hrange
  rw [forall_assignmentsFor fun c ↦ InRange c.toNat, hplans.tokens, List.forall_mem_append,
    and_iff_right hrecipients, ← hiff]
  rcases changeOutput_eq_ok hplans.changed with ⟨hzero, rfl⟩ | ⟨script, -, hpos, rfl⟩
  · refine iff_of_true (List.forall_mem_nil _) ?_
    rw [hzero]
    exact Nat.zero_le _
  · rw [List.forall_mem_singleton, InRange, UInt32.toNat_ofNat', Nat.mod_eq_of_lt hlt]
    omega

end Core

/-! ## The daemon's send -/

section Send

variable {env : Env} {A : Answers} {p p' : Purse} {recipients : List (Bytes × Int)}

theorem selectTokens_change {coins tokens : List YedCoin} {needed change : Int} (hpos : 0 < needed)
    (hsmall : needed ≤ maxRecipients * maxOutputCents)
    (hcoins : TokensInRange (coins.map YedCoin.cents))
    (h : selectTokens coins needed = .ok (tokens, change)) :
    (change = 0 ∨ minOutputCents ≤ change) ∧ change < 2 ^ 32 ∧
      (change ≤ maxOutputCents ↔ ¬ OverfullFor (coins.map YedCoin.cents) needed) := by
  unfold selectTokens at h
  dsimp only at h
  split at h
  · rename_i hok
    cases h
    exact change_of_ok hpos hsmall hcoins hok
  · split at h
    · cases h
    · split at h <;> cases h

theorem drawHolder_cases {fault : Option String} {change : Int} {p p' : Purse}
    {holder : Option (Bytes × Int)} (h : drawHolder env fault change p = (.ok holder, p')) :
    change ≤ 0 ∧ holder = none ∨ 0 < change ∧ ∃ s, holder = some (s, change) := by
  unfold drawHolder at h
  split at h
  · rename_i hpos
    obtain ⟨s, _, -, h⟩ := bind_eq_ok.mp h
    cases h
    exact .inr ⟨hpos, s, rfl⟩
  · rename_i hle
    cases h
    exact .inl ⟨not_lt.mp hle, rfl⟩

theorem forall_assignmentsFrom {cents : List Int} (P : UInt32 → Prop) (i : Nat) :
    (∀ a ∈ assignmentsFrom i cents, P a.cents) ↔ ∀ c ∈ cents, P (asU32 c) := by
  induction cents generalizing i with
  | nil => exact iff_of_true nofun nofun
  | cons c cs ih =>
    have hrest := ih (i + 1)
    unfold assignmentsFrom at hrest ⊢
    rw [List.zipIdx_cons, List.map_cons, List.forall_mem_cons, List.forall_mem_cons, hrest]

/-- What the daemon's send assigns. -/
theorem doSend_range {info : Except NodeError InfoAnswer} {faults : Option String × Option String}
    {plan : SendPlan} {coins : List YedCoin} (hranked : p.wallet.rankedCoins A = .ok coins)
    (hcoins : TokensInRange (coins.map YedCoin.cents))
    (h : doSend env A info faults recipients p = (.ok (some plan), p')) :
    (∃ data, (⟨0, payloadScript data⟩ : Out) ∈ plan.ask.outs ∧
        decode data = some (.transfer plan.assignments)) ∧
      ((∀ a ∈ plan.assignments, InRange a.cents.toNat) ↔
        ¬ OverfullFor (coins.map YedCoin.cents) (recipients.map Prod.snd).sum) := by
  obtain ⟨info', needed, change, coins', holder, d, branch, -, hsends, ⟨-, hnone⟩ |
    ⟨floor, f, hfund, hplan⟩⟩ := doSend_eq_ok h
  · cases hnone
  obtain rfl := Option.some.inj hplan
  obtain rfl : coins = coins' := Except.ok.inj (hranked.symm.trans hsends.ranked)
  obtain ⟨data, hdata, houts⟩ := hsends.outs
  constructor
  · refine ⟨data, ?_, (decode_encode hdata).1⟩
    have hmem : (⟨0, payloadScript data⟩ : Out) ∈ d.outs := by
      rw [houts]
      exact List.mem_append_right _ List.mem_cons_self
    rcases (Draft.fund_eq_ok hfund).1.outs with hf | ⟨v, -, hf⟩
    · rw [hf]
      exact hmem
    · rw [hf]
      exact List.mem_append_left _ hmem
  · obtain ⟨-, hlen, hcents, hneeded⟩ := checkRecipients_eq_ok hsends.checked
    have hsmall : needed ≤ maxRecipients * maxOutputCents := by
      have hsum := sum_le_of_forall_le (l := recipients.map Prod.snd) (b := maxSendCents) (by
        intro x hx
        obtain ⟨r, hr, rfl⟩ := List.mem_map.mp hx
        exact (hcents r hr).2)
      rw [List.length_map] at hsum
      rw [hneeded]
      rw [maxAssignments] at hlen
      rw [maxSendCents] at hsum
      rw [maxRecipients, maxAssignments, maxOutputCents]
      omega
    obtain ⟨hfloor, hlt, hiff⟩ := selectTokens_change hsends.needed_pos hsmall hcoins hsends.selected
    obtain ⟨p₁, hholder, -⟩ := hsends.keys
    have hrange {c : Int} (h0 : 0 ≤ c) (hlt : c < 2 ^ 32) :
        InRange (asU32 c).toNat ↔ minOutputCents ≤ c ∧ c ≤ maxOutputCents := by
      have := toNat_asU32 h0 hlt
      rw [InRange]
      omega
    have hrecipients : ∀ c ∈ recipients.map Prod.snd, InRange (asU32 c).toNat := by
      intro c hc
      obtain ⟨r, hr, rfl⟩ := List.mem_map.mp hc
      have hr := hcents r hr
      rw [minOutputCents, maxSendCents] at hr
      rw [hrange (by omega) (by omega), minOutputCents, maxOutputCents]
      omega
    rw [draftOuts, forall_assignmentsFrom (fun c ↦ InRange c.toNat), List.map_append,
      List.forall_mem_append, and_iff_right hrecipients, ← hneeded, ← hiff]
    rcases drawHolder_cases hholder with ⟨hle, rfl⟩ | ⟨hpos, s, rfl⟩
    · refine iff_of_true (List.forall_mem_nil _) ?_
      rw [maxOutputCents]
      omega
    · rw [show ((some (s, change)).toList.map Prod.snd) = [change] from rfl,
        List.forall_mem_singleton, hrange hpos.le hlt]
      omega

end Send

/-! ## Both -/

/-- **What is assigned is in range** exactly when the tokens are not overfull for what is sent, in
the core's transfers and in the daemon's. -/
theorem assignments_inRange_iff (C : Crypto) :
    (∀ (w : Build.Wallet) (recipients : List (String × Nat)) (tip : Nat)
        (branchId : UInt32) (p : YedTransferPreview), TokensInRange (tokenAmounts w) →
      buildYedTransfer C w recipients tip branchId = some (.ok p) →
      ∃ tx as k, tx.serialize = .ok p.raw ∧ findPayload tx = some ⟨.transfer as, k⟩ ∧
        ((∀ a ∈ as, InRange a.cents.toNat) ↔
          ¬ OverfullFor (tokenAmounts w) (recipients.map Prod.snd).sum)) ∧
    ∀ (env : Env) (A : Answers) (info : Except NodeError InfoAnswer)
        (faults : Option String × Option String) (recipients : List (Bytes × Int)) (p p' : Purse)
        (coins : List YedCoin) (plan : SendPlan), p.wallet.rankedCoins A = .ok coins →
      TokensInRange (coins.map YedCoin.cents) →
      doSend env A info faults recipients p = (.ok (some plan), p') →
      (∃ data, (⟨0, payloadScript data⟩ : Out) ∈ plan.ask.outs ∧
          decode data = some (.transfer plan.assignments)) ∧
        ((∀ a ∈ plan.assignments, InRange a.cents.toNat) ↔
          ¬ OverfullFor (coins.map YedCoin.cents) (recipients.map Prod.snd).sum) :=
  ⟨fun _ _ _ _ _ hcoins h ↦ buildYedTransfer_range hcoins h,
    fun _ _ _ _ _ _ _ _ _ hranked hcoins h ↦ doSend_range hranked hcoins h⟩

/-- A hundred dollars from a token of three hundred, and two from one of five. -/
theorem assignments_inRange_sample :
    (∃ p tx as k, buildYedTransfer Crypto.blank (sampleWallet 30000) sampleRecipients 100 0 =
        some (.ok p) ∧ tx.serialize = .ok p.raw ∧ findPayload tx = some ⟨.transfer as, k⟩ ∧
      ∀ a ∈ as, InRange a.cents.toNat) ∧
    ∃ plan p', listSend 1 [] 200 = (.ok (some plan), p') ∧
      ∀ a ∈ plan.assignments, InRange a.cents.toNat := by
  constructor
  · obtain ⟨p, hp⟩ := isOk_sample 30000 (by decide +kernel)
    obtain ⟨tx, as, k, hraw, hpayload, hiff⟩ :=
      (assignments_inRange_iff _).1 _ _ _ _ p (by unfold TokensInRange; decide +kernel) hp
    refine ⟨p, tx, as, k, hp, hraw, hpayload, hiff.mpr fun hover ↦ ?_⟩
    exact absurd (hover.2.1 30000 (by decide +kernel)) (by decide +kernel)
  · have hrun : (listSend 1 [] 200).1.toOption.join.isSome := by decide +kernel
    have hranked : (listPurse 1 []).wallet.rankedCoins listAnswers =
        .ok [⟨⟨payTxid, 0⟩, 500, listScript 0, 100000⟩] := by decide +kernel
    generalize hx : listSend 1 [] 200 = x at hrun
    obtain ⟨r, p'⟩ := x
    cases r with
    | error e => cases hrun
    | ok o =>
      cases o with
      | none => cases hrun
      | some plan =>
        have hiff := ((assignments_inRange_iff Crypto.blank).2 _ _ _ _ _ _ _ _ _ hranked
          (by unfold TokensInRange; decide) hx).2
        refine ⟨plan, p', rfl, hiff.mpr fun hover ↦ ?_⟩
        exact absurd (hover.2.1 500 (by decide)) (by decide)

/-- A wallet with the tokens of `sampleWallet`, and more of them. -/
def overfullWallet : Build.Wallet :=
  { sampleWallet 7500050 with
    spendable := (sampleWallet 7500050).spendable ++ [
      ⟨⟨List.Vector.replicate 32 1, 1⟩, "token", p2pkhScript (List.Vector.replicate 20 1), 10000, 5,
        .token, 7500049⟩,
      ⟨⟨List.Vector.replicate 32 1, 2⟩, "token", p2pkhScript (List.Vector.replicate 20 1), 10000, 5,
        .token, 10000000⟩] }

/-- Two recipients of 75,000 dollars. -/
def overfullRecipients : List (String × Nat) :=
  [(encodeP2pkh Crypto.blank .regtest (List.Vector.replicate 20 7), 7500000),
    (encodeP2pkh Crypto.blank .regtest (List.Vector.replicate 20 8), 7500000)]

/-- The two smaller tokens are 99 cents past what is sent, so the third goes in as well: the change
is 10,000,099 cents. -/
theorem not_inRange_overfull :
    TokensInRange (tokenAmounts overfullWallet) ∧
    ∃ p tx as k, buildYedTransfer Crypto.blank overfullWallet overfullRecipients 100 0 =
        some (.ok p) ∧ tx.serialize = .ok p.raw ∧ findPayload tx = some ⟨.transfer as, k⟩ ∧
      ∃ a ∈ as, ¬ InRange a.cents.toNat := by
  have hcoins : TokensInRange (tokenAmounts overfullWallet) := by
    unfold TokensInRange
    decide +kernel
  refine ⟨hcoins, ?_⟩
  have hok : (buildYedTransfer Crypto.blank overfullWallet overfullRecipients 100 0).any
      Except.isOk = true := by decide +kernel
  obtain ⟨x, hp, hxok⟩ := (Option.any_eq_true _ _).mp hok
  cases x with
  | error e => cases hxok
  | ok p =>
    obtain ⟨tx, as, k, hraw, hpayload, hiff⟩ := buildYedTransfer_range hcoins hp
    refine ⟨p, tx, as, k, hp, hraw, hpayload, ?_⟩
    have hover : OverfullFor (tokenAmounts overfullWallet) (overfullRecipients.map Prod.snd).sum :=
      ⟨by decide +kernel, by decide +kernel, 2, by decide, by decide +kernel, by decide +kernel,
        by decide +kernel⟩
    by_contra hall
    push Not at hall
    exact hiff.mp hall hover

end Yew.Daemon
