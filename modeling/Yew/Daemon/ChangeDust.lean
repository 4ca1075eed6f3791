import Yew.Daemon.FeeRounds

/-!
# Change that cannot be paid

A node relays no output of fewer than 54 zatoshi, and an output of exactly 10,000 looks like a YED
token.  The change is what the coins leave over at the fee that the rounds settle on.  `send_yec`
leaves dust to the fee; `do_send` and `fund_yed` pay whatever is left over, and none of the three
looks for the value of a token.

The functions are `send_yec` of `yewd/wallet/src/send.rs`, `do_send` of `yed.rs` and `fund_yed` of
`mint.rs`.  For each of them the change is written out as a function of the coins the wallet offers,
in their order, and of the outputs that are paid: the front that is taken at the settled fee, less
the outputs and that fee.
-/

namespace Yew.Daemon

open Script Tx Pq Proto Proc Yellowback Build

/-- A value that change may have. -/
def Payable (v : Int) : Prop := dustFloor ≤ v ∧ v ≠ tokenZat

instance (v : Int) : Decidable (Payable v) := inferInstanceAs (Decidable (_ ∧ _))

/-- The outputs after the first `n` ones are change that may be paid. -/
def CleanAfter (n : Nat) (outs : List Out) : Prop := ∀ o ∈ outs.drop n, Payable o.value

/-- Nothing is left over, or what may be paid. -/
def CleanLeft (v : Int) : Prop := v ≤ 0 ∨ Payable v

instance (v : Int) : Decidable (CleanLeft v) := inferInstanceAs (Decidable (_ ∨ _))

/-- Outputs with change, if there is any. -/
theorem cleanAfter_iff {n : Nat} {outs : List Out} (hn : outs.length = n) (v : Int) (s : Bytes) :
    CleanAfter n (outs ++ if 0 < v then [⟨v, s⟩] else []) ↔ CleanLeft v := by
  rw [CleanAfter, ← hn, List.drop_left]
  by_cases hv : 0 < v
  · rw [if_pos hv, CleanLeft, or_iff_right (not_le.mpr hv)]
    simp
  · rw [if_neg hv]
    exact iff_of_true nofun (.inl (not_lt.mp hv))

/-! ## `send_yec` -/

section Send

variable {env : Env} {A : Answers} {back : Bool} {recipients : List Recipient} {p p' : Purse}

/-- The change of a payment at a fee. -/
def sendChange (back : Bool) (coins : List Chosen) (recipients : List Recipient) (fee : Int) : Int :=
  if GivesChange back coins recipients fee then
    leftover coins recipients fee + raiseAt back coins recipients fee
  else 0

theorem sendYec_clean {rounds : Fin 8 → PlainFees × Option String} {minDepth : Int} {ask : SignAsk}
    (h : sendYec env A back rounds recipients minDepth p = (.ok ask, p')) :
    ∃ coins fee, p.spendableYec A minDepth true = .ok coins ∧
      settledFee back coins recipients (List.ofFn rounds) firstFee = some fee ∧
      (CleanAfter recipients.length ask.outs ↔
        sendChange back coins recipients fee ≠ tokenZat) := by
  obtain ⟨coins, next, hcoins, h⟩ := sendYec_eq_ok h
  have hsettled := sendRounds_settles h
  obtain ⟨fee, fees, fault, p₀, want, chosen, paidOuts, -, hround, -, hcap, -⟩ := sendRounds_eq_ok h
  have hfee : ask.cap - totalOf recipients = fee := by
    rw [hcap]
    ring
  rw [hfee] at hsettled
  refine ⟨coins, fee, hcoins, hsettled, ?_⟩
  obtain ⟨rest, houts, hrest⟩ := hround.outs_eq
  have hlength : (lessAt (firstBearer recipients) (raiseAt back coins recipients fee)
      paidOuts).length = recipients.length := by
    have := congrArg List.length (scripts_lessAt (firstBearer recipients)
      (raiseAt back coins recipients fee) paidOuts)
    rw [List.length_map, List.length_map, recipientOuts_eq_ok hround.shared] at this
    rw [recipientOuts_eq_ok hround.shared, this]
    simp [lessShares, length_shares]
  rw [CleanAfter, houts, ← hlength, List.drop_left, sendChange]
  rcases hrest with ⟨hnone, rfl⟩ | ⟨hgives, s, -, rfl⟩
  · rw [if_neg hnone]
    exact iff_of_true (List.forall_mem_nil _) (by decide)
  · rw [if_pos hgives, List.forall_mem_singleton, Payable]
    refine and_iff_right ?_
    have hfloor := (le_max_right _ _).trans hgives.2
    exact (lt_add_one dustFloor).le.trans hfloor

end Send

/-! ## `fund_yed` -/

section Yed

variable {env : Env} {A : Answers} {p p' : Purse} {base : YedBase} {extra : YedExtra}
  {only : Option Bytes}

/-- The coins that a round of `fund_yed` has to take from. -/
def Purse.yecCoins (p : Purse) (A : Answers) (only : Option Bytes) (reading : Nat) : List Chosen :=
  (p.yecCandidates A reading only).toOption.getD []

/-- What is left over at a fee of the coins taken for a build. -/
def yedLeft (base : YedBase) (extra : YedExtra) (coins : List Chosen) (fee : Int) : Int :=
  yedChange (gather (yedNeed base extra fee) 0 coins) (yedNeed base extra fee)

/-- What is left over at the fee that the rounds settle on, where each round has its own coins. -/
def settledLeft (base : YedBase) (extra : YedExtra) (only : Option Bytes) :
    List (List Chosen) → Int → Option Int
  | [], _ => none
  | coins :: rounds, fee =>
    if fee < yedWant base extra only coins fee then
      settledLeft base extra only rounds (yedWant base extra only coins fee)
    else some (yedLeft base extra coins fee)

theorem yecFor_eq_ok {reading : Nat} {needed : Int} {chosen : List Chosen}
    (h : p.yecFor A reading needed only = .ok chosen) :
    chosen = gather needed 0 (p.yecCoins A only reading) := by
  unfold Purse.yecFor at h
  split at h
  · rename_i hle
    cases h
    rw [gather_of_le hle]
  · obtain ⟨cand, hcand, h⟩ := Result.bind_eq_ok.mp h
    obtain ⟨-, h⟩ := Result.guard_eq_ok.mp h
    cases h
    rw [Purse.yecCoins, hcand]
    rfl

/-- A round takes a front of its coins, and asks for what the closed form says. -/
theorem yedRound_eq_ok {changeScript : Bytes} (hlength : changeScript.length = yedChangeLength only)
    {reading : Nat} {fee want : Int} {chosen : List Chosen} {outs : List Out}
    (h : yedRound A p base extra only changeScript reading fee = .ok (want, chosen, outs)) :
    want = yedWant base extra only (p.yecCoins A only reading) fee ∧
      chosen = gather (yedNeed base extra fee) 0 (p.yecCoins A only reading) ∧
      outs = yedChangeOuts (yedLeft base extra (p.yecCoins A only reading) fee) changeScript := by
  obtain ⟨taken, htaken, h⟩ := Result.bind_eq_ok.mp h
  obtain rfl := yecFor_eq_ok htaken
  dsimp only at h
  rw [conventional_fundedYed, lengths_yedChangeOuts hlength] at h
  cases h
  exact ⟨rfl, rfl, rfl⟩

/-- The rounds add the change that is left over. -/
theorem yedRounds_eq_ok {changeScript : Bytes} (hlength : changeScript.length = yedChangeLength only)
    {readings : List Nat} {fee : Int} {tx : Transaction} {chosen : List Chosen}
    (h : yedRounds A p base extra only changeScript readings fee = .ok (tx, chosen)) :
    ∃ left, settledLeft base extra only (readings.map (p.yecCoins A only)) fee = some left ∧
      tx = fundedYed base extra chosen (yedChangeOuts left changeScript) := by
  induction readings generalizing fee with
  | nil => cases h
  | cons reading readings ih =>
    rw [yedRounds] at h
    obtain ⟨⟨want, taken, outs⟩, hround, h⟩ := Result.bind_eq_ok.mp h
    obtain ⟨rfl, rfl, rfl⟩ := yedRound_eq_ok hlength hround
    rw [List.map_cons, settledLeft]
    dsimp only at h
    split at h
    · rename_i hlt
      rw [if_pos hlt]
      exact ih h
    · rename_i hge
      cases h
      rw [if_neg hge]
      exact ⟨_, rfl, rfl⟩

theorem fundYed_clean {flat : Int} {fault : Option String} {tx : Transaction} {chosen : List Chosen}
    (h : fundYed env A base extra flat only fault p = (.ok (tx, chosen), p')) :
    ∃ outs left, tx = fundedYed base extra chosen outs ∧
      settledLeft base extra only ((List.range 6).map (p'.yecCoins A only)) flat = some left ∧
      (CleanAfter 0 outs ↔ CleanLeft left) := by
  obtain ⟨script, q, hscript, h⟩ := bind_eq_ok.mp h
  obtain ⟨_, _, ⟨⟩, h⟩ := bind_eq_ok.mp h
  obtain ⟨hrounds, rfl⟩ := Prod.mk.inj h
  obtain ⟨left, hleft, htx⟩ := yedRounds_eq_ok (length_yedChangeScript hscript) hrounds
  exact ⟨_, left, htx, hleft, @cleanAfter_iff 0 [] rfl left script⟩

end Yed

/-! ## `do_send` -/

/-- What the rounds of `do_send` start from: the node's fees, the tokens that are spent, the lengths
of the outputs' scripts, and what the outputs take beyond the tokens. -/
structure SendTerms where
  info : YedInfo
  tokens : List YedCoin
  lengths : List Nat
  short : Int

/-- Coins that cross a cap on the YEC inputs. -/
def Crosses (front : List Chosen) : Prop :=
  maxYecInputs < front.length ∨
    maxYecInputBytes < (front.map fun c ↦ inputBytes c.script).sum

instance (front : List Chosen) : Decidable (Crosses front) := inferInstanceAs (Decidable (_ ∨ _))

namespace SendTerms

variable (t : SendTerms)

/-- The fee with some coins: the floor, or the largest network fee on the way to them. -/
def fee (floor : Int) (front : List Chosen) : Int :=
  (front.inits.map fun f ↦
    t.info.networkFee (t.tokens.map YedCoin.script ++ f.map Chosen.script)).foldl max floor

/-- What some coins leave over. -/
def left (floor : Int) (front : List Chosen) : Int := worth front - (t.short + t.fee floor front)

/-- The first front of some coins that covers the need or crosses a cap. -/
def stop (floor : Int) (coins : List Chosen) : Option (List Chosen) :=
  (coins.inits.drop 1).find? fun front ↦ Crosses front ∨ 0 ≤ t.left floor front

/-- The coins that are taken: none if none are needed, the first smallest ones that cover, or, where
these are too many, the first largest ones. -/
def front (floor : Int) (cand : List Chosen) : Option (List Chosen) :=
  let order := cand.insertionSort fun a b ↦ a.value ≤ b.value
  if 0 ≤ t.left floor [] then some []
  else match t.stop floor order with
    | some front =>
      if Crosses front then (t.stop floor order.reverse).filter fun front ↦ ¬ Crosses front
      else some front
    | none => none

/-- The conventional fee with some coins, and with change if there is any. -/
def price (floor : Int) (front : List Chosen) : Int :=
  conventionalFor ((t.tokens.map fun y ↦ ⟨y.outpoint, y.value, y.script⟩) ++ front)
    (t.lengths ++ if 0 < t.left floor front then [25] else [])

/-- What is left over at the floor that the rounds settle on. -/
def settledLeft (cand : List Chosen) : Nat → Int → Option Int
  | 0, _ => none
  | rounds + 1, floor => do
    let front ← t.front floor cand
    if t.fee floor front < t.price floor front then settledLeft cand rounds (t.price floor front)
    else some (t.left floor front)

variable {t}

theorem fee_nil (t : SendTerms) (floor : Int) :
    t.fee floor [] = max floor (t.info.networkFee (t.tokens.map YedCoin.script)) := by
  simp [fee]

theorem fee_append (floor : Int) (front : List Chosen) (c : Chosen) :
    t.fee floor (front ++ [c]) = max (t.fee floor front)
      (t.info.networkFee (t.tokens.map YedCoin.script ++ (front ++ [c]).map Chosen.script)) := by
  simp [fee, List.inits_append, List.foldl_append]

theorem le_fee (t : SendTerms) (floor : Int) (front : List Chosen) : floor ≤ t.fee floor front := by
  induction front using List.reverseRecOn with
  | nil =>
    rw [fee_nil]
    exact le_max_left _ _
  | append_singleton front c ih =>
    rw [fee_append]
    exact ih.trans (le_max_left _ _)

theorem inits_drop_cons (c : Chosen) (cs front : List Chosen) :
    ((c :: cs).inits.drop 1).map (front ++ ·) =
      (front ++ [c]) :: (cs.inits.drop 1).map (front ++ [c] ++ ·) := by
  cases cs with
  | nil => simp
  | cons c' cs => simp [Function.comp_def]

/-- One attempt of `pick_yec` ends at the first front that covers the need or crosses a cap. -/
theorem pick_cases (floor : Int) {picked cs : List Chosen} {r : Picked}
    (h : pick t.info (t.tokens.map YedCoin.script) picked (t.short + t.fee floor picked)
      (t.fee floor picked) cs = r) :
    let stop := ((cs.inits.drop 1).map (picked ++ ·)).find? fun front ↦
      Crosses front ∨ 0 ≤ t.left floor front
    (r = .tooMany → ∃ front, stop = some front ∧ Crosses front) ∧
      ∀ coins out, r = .enough coins out →
        stop = some coins ∧ ¬ Crosses coins ∧ out = t.fee floor coins := by
  induction cs generalizing picked with
  | nil =>
    subst h
    constructor
    · rintro ⟨⟩
    · rintro _ _ ⟨⟩
  | cons c cs ih =>
    have hfee : (if t.fee floor picked < t.info.networkFee (t.tokens.map YedCoin.script ++
        (picked ++ [c]).map Chosen.script) then t.info.networkFee (t.tokens.map YedCoin.script ++
        (picked ++ [c]).map Chosen.script) else t.fee floor picked) = t.fee floor (picked ++ [c]) := by
      rw [fee_append, max_def]
      split <;> split <;> omega
    have hneed : (if t.fee floor picked < t.info.networkFee (t.tokens.map YedCoin.script ++
        (picked ++ [c]).map Chosen.script) then t.short + t.fee floor picked +
          (t.info.networkFee (t.tokens.map YedCoin.script ++ (picked ++ [c]).map Chosen.script) -
            t.fee floor picked) else t.short + t.fee floor picked) =
        t.short + t.fee floor (picked ++ [c]) := by
      rw [← hfee]
      split <;> omega
    rw [inits_drop_cons, List.find?_cons]
    rw [pick] at h
    dsimp only at h
    rw [hfee, hneed] at h
    split at h
    · rename_i hcross
      subst h
      have hstop : Crosses (picked ++ [c]) := hcross
      simp only [hstop, true_or, decide_true]
      refine ⟨fun _ ↦ ⟨_, rfl, hstop⟩, ?_⟩
      rintro _ _ ⟨⟩
    · rename_i hcross
      have hfree : ¬ Crosses (picked ++ [c]) := hcross
      split at h
      · rename_i hle
        subst h
        have hstop : 0 ≤ t.left floor (picked ++ [c]) := Int.sub_nonneg.mpr hle
        simp only [hstop, or_true, decide_true]
        constructor
        · rintro ⟨⟩
        · rintro coins out ⟨⟩
          exact ⟨rfl, hfree, rfl⟩
      · rename_i hlt
        have hstop : ¬ 0 ≤ t.left floor (picked ++ [c]) := fun hle ↦ hlt (Int.sub_nonneg.mp hle)
        simp only [hfree, hstop, or_self, decide_false]
        exact ih h

/-- `pick_yec` takes the coins that are described, at the fee with them. -/
theorem pickYec_front (t : SendTerms) {A : Answers} {p : Purse} {floor fee : Int} {coins : List Chosen}
    (h : p.pickYec A (t.short + t.fee floor []) t.info (t.tokens.map YedCoin.script)
      (t.fee floor []) = .ok (coins, fee)) :
    t.front floor ((p.pickable A).toOption.getD []) = some coins ∧ fee = t.fee floor coins := by
  unfold Purse.pickYec at h
  unfold front
  dsimp only
  split at h
  · rename_i hneeded
    cases h
    have hnone : 0 ≤ t.left floor [] := by
      rw [left]
      simp only [worth, List.map_nil, List.sum_nil]
      omega
    rw [if_pos hnone]
    exact ⟨rfl, rfl⟩
  · rename_i hneeded
    have hsome : ¬ 0 ≤ t.left floor [] := by
      rw [left]
      simp only [worth, List.map_nil, List.sum_nil]
      omega
    obtain ⟨cand, hcand, h⟩ := Result.bind_eq_ok.mp h
    rw [if_neg hsome, hcand]
    split at h
    · rename_i hpick
      cases h
      unfold pickBest at hpick
      dsimp only at hpick
      simp only [Except.toOption, Option.getD_some]
      split at hpick
      · rename_i hmany
        obtain ⟨front, hfront, hcross⟩ := (pick_cases floor hmany).1 rfl
        obtain ⟨hcoins, hfree, hfee⟩ := (pick_cases floor hpick).2 _ _ rfl
        simp only [List.nil_append, List.map_id'] at hfront hcoins
        simp only [stop, hfront, if_pos hcross, hcoins, Option.filter_some, hfree, not_false_eq_true,
          decide_true, if_true]
        exact ⟨trivial, hfee⟩
      · obtain ⟨hcoins, hfree, hfee⟩ := (pick_cases floor hpick).2 _ _ rfl
        simp only [List.nil_append, List.map_id'] at hcoins
        simp only [stop, hcoins, if_neg hfree]
        exact ⟨trivial, hfee⟩
    · cases h
    · cases h

end SendTerms

namespace Draft

variable {A : Answers} {d : Draft} {p : Purse} {info : YedInfo}

/-- What the rounds of a draft start from. -/
def terms (d : Draft) (info : YedInfo) : SendTerms :=
  ⟨info, d.tokens, d.outs.map fun o ↦ o.scriptPubkey.length, d.short⟩

theorem conventional_eq (d : Draft) (coins : List Chosen) (outs : List Out) :
    d.conventional coins outs =
      conventionalFor (d.inputs coins) (outs.map fun o ↦ o.scriptPubkey.length) := by
  have hout : (d.tx coins outs).outBytes = outputsBytes (outs.map fun o ↦ o.scriptPubkey.length) := by
    simp [tx, newV4, Transaction.outBytes, Out.toTxOut, outputsBytes, Function.comp_def]
  rw [conventional, Transaction.zip317ConventionalFee, hout, if_neg]
  · rfl
  · simp [tx, sizes, newV4]

/-- One turn: its coins, its outputs, and whether it goes on. -/
theorem turn_terms (hchange : d.changeScript.length = 25) {floor asked : Int} {f : Funded}
    (h : d.turn A p info floor = .ok (asked, f)) :
    (d.terms info).front floor ((p.pickable A).toOption.getD []) = some f.coins ∧
      f.outs = d.outs ++ (if 0 < (d.terms info).left floor f.coins then
        [⟨(d.terms info).left floor f.coins, d.changeScript⟩] else []) ∧
      asked = if (d.terms info).fee floor f.coins < (d.terms info).price floor f.coins then
        (d.terms info).price floor f.coins else floor := by
  obtain ⟨hturned, hasked⟩ := turn_eq_ok h
  unfold turn at h
  dsimp only at h
  obtain ⟨⟨coins, fee⟩, hpick, h⟩ := Result.bind_eq_ok.mp h
  have hfee₀ : max floor (info.networkFee (d.tokens.map YedCoin.script)) =
      (d.terms info).fee floor [] := ((d.terms info).fee_nil floor).symm
  rw [hfee₀] at hpick h
  obtain ⟨hfront, rfl⟩ := (d.terms info).pickYec_front hpick
  have hleft : worth coins - (d.short + (d.terms info).fee floor []) -
      ((d.terms info).fee floor coins - (d.terms info).fee floor []) =
      (d.terms info).left floor coins := by
    rw [SendTerms.left]
    change _ = worth coins - (d.short + _)
    omega
  rw [hleft] at h
  cases h
  refine ⟨hfront, rfl, ?_⟩
  rw [hasked]
  have hprice : d.conventional coins (d.outs ++ if 0 < (d.terms info).left floor coins then
      [⟨(d.terms info).left floor coins, d.changeScript⟩] else []) =
      (d.terms info).price floor coins := by
    rw [conventional_eq, SendTerms.price, List.map_append]
    congr 2
    split
    · rw [List.map_singleton, hchange]
    · rfl
  dsimp only
  rw [hprice]

/-- The loop adds the change that is left over. -/
theorem fund_left (hchange : d.changeScript.length = 25) {rounds : Nat} {floor z : Int} {f : Funded}
    (h : climb (d.turn A p info) rounds floor = some (.ok (z, f))) :
    ∃ left, (d.terms info).settledLeft ((p.pickable A).toOption.getD []) rounds floor = some left ∧
      f.outs = d.outs ++ if 0 < left then [⟨left, d.changeScript⟩] else [] := by
  induction rounds generalizing floor with
  | zero => cases h
  | succ rounds ih =>
    rw [climb] at h
    split at h
    · cases h
    · rename_i asked f' hturn
      obtain ⟨hfront, houts, hasked⟩ := turn_terms hchange hturn
      rw [SendTerms.settledLeft, hfront, Option.bind_eq_bind, Option.bind_some]
      have hfloor := (d.terms info).le_fee floor f'.coins
      by_cases hlt : (d.terms info).fee floor f'.coins < (d.terms info).price floor f'.coins
      · rw [if_pos hlt] at hasked ⊢
        rw [hasked, if_pos (hfloor.trans_lt hlt)] at h
        exact ih h
      · rw [if_neg hlt] at hasked ⊢
        rw [hasked, if_neg (lt_irrefl floor)] at h
        cases h
        exact ⟨_, rfl, houts⟩

end Draft

/-- What the rounds start from, for tokens that leave some cents of change. -/
def sendTerms (info : YedInfo) (falcon : Bool) (recipients : List (Bytes × Int))
    (tokens : List YedCoin) (change : Int) : SendTerms :=
  -- a holder of the change is a Falcon key or a P2PKH one
  let holder : List Nat := if 0 < change then [if falcon then 35 else 25] else []
  let cents := recipients.map Prod.snd ++ if 0 < change then [change] else []
  let payload := payloadScript ((encode (.transfer (assignmentsFrom 0 cents))).getD [])
  { info
    tokens
    lengths := recipients.map (fun r ↦ r.1.length) ++ holder ++ [payload.length]
    short := cents.length * tokenZat - (tokens.map YedCoin.value).sum }

theorem length_freshHolder {env : Env} {fault : Option String} {p p' : Purse} {s : Bytes}
    (h : freshHolder env fault p = (.ok s, p')) : s.length = if p.falconNext then 35 else 25 := by
  obtain ⟨_, _, ⟨⟩, h⟩ := bind_eq_ok.mp h
  split at h
  · rename_i hfalcon
    obtain ⟨id, _, -, h⟩ := bind_eq_ok.mp h
    rw [if_pos hfalcon]
    generalize hscript : pqpkhScript id = o at h
    cases o with
    | none => cases h
    | some script =>
      cases h
      unfold pqpkhScript at hscript
      split at hscript
      · cases hscript
        simp [pushData, opPushdata1]
      · cases hscript
  · rename_i hfalcon
    obtain ⟨pk, _, -, h⟩ := bind_eq_ok.mp h
    cases h
    rw [if_neg hfalcon]
    exact length_p2pkhScript _

theorem drawHolder_lengths {env : Env} {fault : Option String} {change : Int} {p p' : Purse}
    {holder : Option (Bytes × Int)} (h : drawHolder env fault change p = (.ok holder, p')) :
    holder.toList.map (fun r ↦ r.1.length) =
        (if 0 < change then [if p.falconNext then 35 else 25] else []) ∧
      holder.toList.map Prod.snd = if 0 < change then [change] else [] := by
  unfold drawHolder at h
  split at h
  · rename_i hpos
    obtain ⟨s, _, hfresh, h⟩ := bind_eq_ok.mp h
    cases h
    rw [if_pos hpos, if_pos hpos, Option.toList_some, List.map_singleton, length_freshHolder hfresh]
    exact ⟨rfl, rfl⟩
  · rename_i hpos
    cases h
    rw [if_neg hpos, if_neg hpos]
    exact ⟨rfl, rfl⟩

/-- The draft of a send starts from the terms of its request. -/
theorem Sends.terms_eq {env : Env} {A : Answers} {info : YedInfo} {p p' : Purse}
    {faults : Option String × Option String} {recipients : List (Bytes × Int)} {needed change : Int}
    {coins : List YedCoin} {holder : Option (Bytes × Int)} {d : Draft}
    (h : Sends env A info faults recipients p p' needed change coins holder d) :
    d.terms info = sendTerms info p.falconNext recipients d.tokens change := by
  obtain ⟨p₁, hholder, -⟩ := h.keys
  obtain ⟨hlengths, hcents⟩ := drawHolder_lengths hholder
  obtain ⟨data, hdata, houts⟩ := h.outs
  have hall : (recipients ++ holder.toList).map Prod.snd =
      recipients.map Prod.snd ++ if 0 < change then [change] else [] := by
    rw [List.map_append, hcents]
  have hpayload : encode (.transfer (assignmentsFrom 0 (recipients.map Prod.snd ++
      if 0 < change then [change] else []))) = some data := by
    rw [← hall]
    exact hdata
  unfold Draft.terms sendTerms
  dsimp only
  rw [hpayload]
  congr 1
  · rw [houts, List.map_append, draftOuts, List.map_map, List.map_append, Option.getD_some, ← hlengths]
    rfl
  · rw [Draft.short, houts, paid_append, draftOuts, ← hall]
    simp [paid, Function.comp_def]

theorem doSend_clean {env : Env} {A : Answers} {p p' : Purse} {recipients : List (Bytes × Int)}
    {info : Except NodeError InfoAnswer} {faults : Option String × Option String} {plan : SendPlan}
    (h : doSend env A info faults recipients p = (.ok (some plan), p')) :
    ∃ info' coins tokens cand left, yedInfo info = .ok info' ∧ p.wallet.rankedCoins A = .ok coins ∧
      selectTokens coins (recipients.map Prod.snd).sum = .ok (tokens, plan.change) ∧
      cand = (p'.pickable A).toOption.getD [] ∧
      (sendTerms info' p.falconNext recipients tokens plan.change).settledLeft cand
        (4 * (cand.length + 1) + 2) info'.flatFee = some left ∧
      (CleanAfter (plan.assignments.length + 1) plan.ask.outs ↔ CleanLeft left) := by
  obtain ⟨info', needed, change, coins, holder, d, branch, hinfo, hsends, hr⟩ := doSend_eq_ok h
  obtain ⟨-, hnone⟩ | ⟨floor, f, hfund, hplan⟩ := hr
  · cases hnone
  obtain rfl := Option.some.inj hplan
  obtain ⟨p₁, -, hchange⟩ := hsends.keys
  obtain ⟨hash, hscript⟩ := newChange_p2pkh hchange
  obtain ⟨-, -, -, rfl⟩ := checkRecipients_eq_ok hsends.checked
  obtain ⟨left, hleft, houts⟩ := Draft.fund_left (hscript ▸ length_p2pkhScript hash) hfund
  rw [hsends.terms_eq] at hleft
  refine ⟨info', coins, d.tokens, _, left, hinfo, hsends.ranked, hsends.selected, rfl, hleft, ?_⟩
  obtain ⟨data, -, hdraft⟩ := hsends.outs
  have hlength : d.outs.length = (draftOuts recipients holder).2.length + 1 := by
    rw [hdraft, List.length_append, List.length_singleton]
    simp [draftOuts, assignmentsFrom]
  dsimp only
  rw [houts]
  exact cleanAfter_iff hlength _ _

/-! ## The three builders -/

/-- **Change that can be paid.**  What `do_send`, `fund_yed` and `send_yec` build has no change of
dust, and none of the value of a token, if and only if the coins leave no such value over at the fee
that is settled on.  For `send_yec` only the value of a token is in question. -/
theorem change_clean_iff (env : Env) (A : Answers) :
    (∀ {p p' recipients info faults} {plan : SendPlan},
      doSend env A info faults recipients p = (.ok (some plan), p') →
      ∃ info' coins tokens cand left, yedInfo info = .ok info' ∧
        p.wallet.rankedCoins A = .ok coins ∧
        selectTokens coins (recipients.map Prod.snd).sum = .ok (tokens, plan.change) ∧
        cand = (p'.pickable A).toOption.getD [] ∧
        (sendTerms info' p.falconNext recipients tokens plan.change).settledLeft cand
          (4 * (cand.length + 1) + 2) info'.flatFee = some left ∧
        (CleanAfter (plan.assignments.length + 1) plan.ask.outs ↔ CleanLeft left)) ∧
    (∀ {p p' base extra only flat fault tx chosen},
      fundYed env A base extra flat only fault p = (.ok (tx, chosen), p') →
      ∃ outs left, tx = fundedYed base extra chosen outs ∧
        settledLeft base extra only ((List.range 6).map (p'.yecCoins A only)) flat = some left ∧
        (CleanAfter 0 outs ↔ CleanLeft left)) ∧
    ∀ {back rounds recipients minDepth p p'} {ask : SignAsk},
      sendYec env A back rounds recipients minDepth p = (.ok ask, p') →
      ∃ coins fee, p.spendableYec A minDepth true = .ok coins ∧
        settledFee back coins recipients (List.ofFn rounds) firstFee = some fee ∧
        (CleanAfter recipients.length ask.outs ↔
          sendChange back coins recipients fee ≠ tokenZat) :=
  ⟨doSend_clean, fundYed_clean, sendYec_clean⟩

/-- A build of an amount from the coin of 100,000, to which the change goes back. -/
def tipFund (value : Int) : Except RpcError (Transaction × List Chosen) × Purse :=
  fundYed listEnv tipAnswers ⟨[⟨value, listScript 200⟩], 0, 0⟩ ⟨0, []⟩ 1000 (some (listScript 0)) none
    tipPurse

theorem cleanAfter_of_values {n : Nat} {outs : List Out}
    (h : ∀ v ∈ (outs.map Out.value).drop n, Payable v) : CleanAfter n outs := by
  intro o ho
  rw [← List.map_drop] at h
  exact h o.value (List.mem_map_of_mem ho)

/-- Of 100,000 zatoshi a payment of 50,000 leaves 40,000, a build 49,000 and a send of two dollars
80,000. -/
theorem change_clean_half :
    (∃ plan p' info' tokens left, confirmedSend = (.ok (some plan), p') ∧
      (sendTerms info' false [(listScript 200, 200)] tokens 300).settledLeft
        ((p'.pickable confirmingAnswers).toOption.getD [])
        (4 * (((p'.pickable confirmingAnswers).toOption.getD []).length + 1) + 2) info'.flatFee =
          some left ∧ CleanLeft left) ∧
    (∃ tx chosen p' outs, tipFund 50000 = (.ok (tx, chosen), p') ∧
      tx = fundedYed ⟨[⟨50000, listScript 200⟩], 0, 0⟩ ⟨0, []⟩ chosen outs ∧ CleanAfter 0 outs) ∧
    ∃ ask p', tipSend 50000 false = (.ok ask, p') ∧ CleanAfter 1 ask.outs := by
  refine ⟨?_, ?_, ?_⟩
  · have hrun : confirmedSend.1.toOption.join.map (fun plan ↦
        (plan.change, plan.assignments.length, (plan.ask.outs.map Out.value).drop 3)) =
          some (300, 2, [80000]) := by
      decide +kernel
    generalize hx : confirmedSend = x at hrun
    obtain ⟨r, p'⟩ := x
    match r, hrun with
    | .ok (some plan), hrun =>
      obtain ⟨hchange, hrest⟩ := Prod.mk.inj (Option.some.inj hrun)
      obtain ⟨hlength, hvalues⟩ := Prod.mk.inj hrest
      obtain ⟨info', coins, tokens, cand, left, -, -, -, rfl, hleft, hiff⟩ :=
        (change_clean_iff _ _).1 hx
      rw [hlength] at hiff
      rw [hchange] at hleft
      refine ⟨plan, p', info', tokens, left, rfl, hleft, hiff.mp (cleanAfter_of_values ?_)⟩
      rw [hvalues]
      decide
  · have hrun : (tipFund 50000).1.isOk = true := by decide +kernel
    generalize hx : tipFund 50000 = x at hrun
    obtain ⟨r, p'⟩ := x
    match r, hrun with
    | .ok (tx, chosen), _ =>
      obtain ⟨outs, left, htx, hleft, hiff⟩ := (change_clean_iff _ _).2.1 hx
      obtain rfl : tipPurse = p' := congrArg Prod.snd hx
      refine ⟨tx, chosen, tipPurse, outs, rfl, htx, hiff.mpr ?_⟩
      have hcoins : tipPurse.yecCoins tipAnswers (some (listScript 0)) =
          fun _ ↦ [⟨⟨payTxid, 0⟩, 100000, listScript 0⟩] := by
        funext reading
        rw [Purse.yecCoins, yecCandidates_tipPurse]
        rfl
      rw [hcoins] at hleft
      have hsettled : settledLeft ⟨[⟨50000, listScript 200⟩], 0, 0⟩ ⟨0, []⟩ (some (listScript 0))
          ((List.range 6).map fun _ ↦ [⟨⟨payTxid, 0⟩, 100000, listScript 0⟩]) 1000 = some 49000 := by
        decide +kernel
      obtain rfl := Option.some.inj (hsettled.symm.trans hleft)
      decide
  · have hrun : (tipSend 50000 false).1.isOk = true := by decide +kernel
    generalize hx : tipSend 50000 false = x at hrun
    obtain ⟨r, p'⟩ := x
    match r, hrun with
    | .ok ask, _ =>
      obtain ⟨coins, fee, hcoins, hfee, hiff⟩ := (change_clean_iff _ _).2.2 hx
      obtain rfl := Except.ok.inj (hcoins.symm.trans spendableYec_tipPurse)
      have hsettled : settledFee false [⟨⟨payTxid, 0⟩, 100000, listScript 0⟩]
          [⟨listScript 200, 50000, false⟩] (List.ofFn fun _ : Fin 8 ↦ (⟨1000, 100000⟩, none))
          firstFee = some 10000 := by decide +kernel
      obtain rfl := Option.some.inj (hsettled.symm.trans hfee)
      exact ⟨ask, p', rfl, hiff.mpr (by decide +kernel)⟩

/-- Of 100,000 zatoshi a payment of 80,000 leaves the value of a token, and a build of 98,980
leaves 20. -/
theorem not_change_clean :
    (tipSend 80000 false).1.toOption.map (fun ask ↦ ask.outs.map Out.value) =
      some [80000, tokenZat] ∧
    (tipFund 98980).1.toOption.map (fun built ↦ built.1.vout.map TxOut.value) =
      some [98980, 20] := by
  constructor
  · decide +kernel
  · decide +kernel

end Yew.Daemon
