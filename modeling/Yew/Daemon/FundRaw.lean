import Yew.Daemon.SendFee

/-!
# `fundrawtransaction`

A given transaction is paid from the inputs it has and from coins of the wallet, and gets a change
output.  Nothing is signed.  What its own inputs bring beyond the need is no change: the fee takes
it.

The sizes are those of P2PKH inputs, as in the source, whatever the inputs are: for a post-quantum
input that is given, the transaction costs more by the time it is signed.

## Source

* `yewd/wallet/src/send.rs`: `Wallet::fundrawtransaction`
-/

namespace Yew.Daemon

open Script Tx Pq Proto Proc Yellowback Build

/-! ## The call -/

/-- `output_total`. -/
def outputTotal (vout : List TxOut) : Int := (vout.map fun o ↦ o.value.toInt).sum

/-- What `fundrawtransaction` answers: the transaction, which `hex` spells, where its change is, and
the fee. -/
structure RawFunded where
  tx : Transaction
  hex : Bytes
  changepos : Int
  fee : Int

section Call

variable (env : Env) (A : Answers)

/-- What the inputs of the given transaction bring. -/
def presetOf : List TxIn → Except RpcError Int
  | [] => .ok 0
  | i :: is => do
    match ← nodeCoin A i.prevout with
    | none => throw ⟨-32603, "Insufficient funds"⟩
    | some c =>
      let rest ← presetOf is
      return c.value.toInt + rest

/-- What a funding at a fee needs beyond the given inputs. -/
def rawNeed (base : Transaction) (preset fee : Int) : Int := outputTotal base.vout + fee - preset

/-- The change of a funding. -/
def rawChange (base : Transaction) (preset : Int) (coins : List Chosen) (fee : Int) : Int :=
  worth (gather (rawNeed base preset fee) 0 coins) - max (rawNeed base preset fee) 0

/-- The given transaction with more coins and outputs. -/
def fundedTx (base : Transaction) (chosen : List Chosen) (outs : List Out) : Transaction :=
  { base with
    vin := base.vin ++ chosen.map fun c ↦ newTxIn c.outpoint
    vout := base.vout ++ outs.map Out.toTxOut }

/-- The change output of a funding, unless it is dust. -/
def rawOuts (fault : Option String) (change : Int) : Proc Purse RpcError (List Out) :=
  if dustFloor < change then do
    let sc ← newChange env fault
    return [⟨change, sc⟩]
  else pure []

/-- One round of `fundrawtransaction` at a fee: the fee it would have to pay, the coins and the
change. -/
def rawRound (fault : Option String) (base : Transaction) (preset : Int) (coins : List Chosen)
    (fee : Int) : Proc Purse RpcError (Int × List Chosen × List Out) := do
  let chosen := gather (rawNeed base preset fee) 0 coins
  if worth chosen < rawNeed base preset fee then throw ⟨-32603, "Insufficient funds"⟩
  else
    let outs ← rawOuts env fault (rawChange base preset coins fee)
    let tx := fundedTx base chosen outs
    let sizes := List.replicate tx.vin.length maxP2pkhScriptSig
    let want ← lift ((tx.zip317ConventionalFee sizes).mapError fun e ↦ (⟨-32603, e.text⟩ : RpcError))
    return (want, chosen, outs)

/-- The rounds of `fundrawtransaction`. -/
def rawRounds (base : Transaction) (preset : Int) (coins : List Chosen) :
    List (Option String) → Int → Proc Purse RpcError RawFunded
  | [], _ => throw ⟨-32603, "the fee did not converge"⟩
  | fault :: faults, fee => do
    let (want, chosen, outs) ← rawRound env fault base preset coins fee
    if fee < want then rawRounds base preset coins faults want
    else
      let tx := fundedTx base chosen outs
      let hex ← lift (tx.serialize.mapError fun e ↦ (⟨-32603, e.text⟩ : RpcError))
      return {
        tx
        hex
        changepos := if outs.isEmpty then -1 else tx.vout.length - 1
        fee := preset + worth chosen - (outputTotal base.vout + paid outs) }

/-- The coins that the given transaction does not spend. -/
def unusedCoins (base : Transaction) (coins : List Chosen) : List Chosen :=
  coins.filter fun c ↦ !((txidHex c.outpoint.txid, c.outpoint.n) ∈ base.vin.map TxIn.spends)

/-- `fundrawtransaction` of a transaction's bytes: at most eight rounds. -/
def fundrawtransaction (faults : Fin 8 → Option String) (raw : Bytes) :
    Proc Purse RpcError RawFunded := do
  let (base, _) ← lift ((Transaction.parse env.C raw).mapError fun e ↦
    (⟨-22, "TX decode failed: " ++ e.text⟩ : RpcError))
  let preset ← lift (presetOf A base.vin)
  let p ← get
  let coins ← lift (p.spendableYec A 0 false)
  rawRounds env base preset (unusedCoins base coins) (List.ofFn faults) 10000

end Call

/-! ## The fee -/

/-- The transaction of a round has change. -/
def RawChange (base : Transaction) (preset : Int) (coins : List Chosen) (fee : Int) : Prop :=
  dustFloor < rawChange base preset coins fee

instance (base : Transaction) (preset : Int) (coins : List Chosen) (fee : Int) :
    Decidable (RawChange base preset coins fee) := inferInstanceAs (Decidable (_ < _))

/-- The conventional fee of the given transaction with more inputs and change, each a P2PKH one. -/
def rawFee (base : Transaction) (more : Nat) (change : Prop) [Decidable change] : Int :=
  Build.zip317ConventionalFee
    (Transaction.inBytes (List.replicate (base.vin.length + more) maxP2pkhScriptSig))
    (base.outBytes + if change then 34 else 0)
    (2 * base.shielded.joinsplits + max base.shielded.spends base.shielded.outputs)

/-- What a round asks for at a fee. -/
def rawWant (base : Transaction) (preset : Int) (coins : List Chosen) (fee : Int) : Int :=
  rawFee base (gather (rawNeed base preset fee) 0 coins).length (RawChange base preset coins fee)

section Rounds

variable {env : Env} {base : Transaction} {preset fee : Int} {coins : List Chosen} {p p' : Purse}

/-- A round that came out: the coins in order, and the change unless it is dust. -/
structure RawRounded (base : Transaction) (preset : Int) (coins : List Chosen) (fee want : Int)
    (chosen : List Chosen) (outs : List Out) : Prop where
  took : chosen = gather (rawNeed base preset fee) 0 coins
  covered : rawNeed base preset fee ≤ worth chosen
  change : paid outs = if RawChange base preset coins fee then rawChange base preset coins fee else 0
  asked : (fundedTx base chosen outs).zip317ConventionalFee
    (List.replicate (fundedTx base chosen outs).vin.length maxP2pkhScriptSig) = .ok want
  want_eq : want = rawWant base preset coins fee

theorem rawOuts_eq_ok {fault : Option String} {change : Int} {outs : List Out}
    (h : rawOuts env fault change p = (.ok outs, p')) :
    paid outs = (if dustFloor < change then change else 0) ∧
      (outs.map fun o ↦ o.scriptPubkey.length) = if dustFloor < change then [25] else [] := by
  unfold rawOuts at h
  split at h
  · rename_i hpos
    obtain ⟨sc, p₁, hnew, h⟩ := bind_eq_ok.mp h
    cases h
    obtain ⟨hash, rfl⟩ := newChange_p2pkh hnew
    rw [if_pos hpos, if_pos hpos, paid_cons, paid_nil, add_zero, List.map_singleton,
      length_p2pkhScript]
    exact ⟨rfl, rfl⟩
  · rename_i hle
    cases h
    rw [if_neg hle, if_neg hle]
    exact ⟨rfl, rfl⟩

theorem conventional_fundedTx (base : Transaction) (chosen : List Chosen) (outs : List Out) :
    (fundedTx base chosen outs).zip317ConventionalFee
        (List.replicate (fundedTx base chosen outs).vin.length maxP2pkhScriptSig) =
      .ok (Build.zip317ConventionalFee
        (Transaction.inBytes (List.replicate (base.vin.length + chosen.length) maxP2pkhScriptSig))
        (base.outBytes + outputsBytes (outs.map fun o ↦ o.scriptPubkey.length))
        (2 * base.shielded.joinsplits + max base.shielded.spends base.shielded.outputs)) := by
  have hvin : (fundedTx base chosen outs).vin.length = base.vin.length + chosen.length := by
    rw [fundedTx, List.length_append, List.length_map]
  have hout : (fundedTx base chosen outs).outBytes =
      base.outBytes + outputsBytes (outs.map fun o ↦ o.scriptPubkey.length) := by
    simp [fundedTx, Transaction.outBytes, Out.toTxOut, outputsBytes, Function.comp_def]
  rw [Transaction.zip317ConventionalFee, if_neg (not_not_intro List.length_replicate), hvin, hout]
  rfl

theorem rawRound_eq_ok {fault : Option String} {want : Int} {chosen : List Chosen} {outs : List Out}
    (h : rawRound env fault base preset coins fee p = (.ok (want, chosen, outs), p')) :
    RawRounded base preset coins fee want chosen outs := by
  obtain ⟨hcovered, h⟩ := guard_eq_ok.mp h
  obtain ⟨outs', p₁, houts, h⟩ := bind_eq_ok.mp h
  obtain ⟨want', hwant, h⟩ := lift_bind_eq_ok.mp h
  cases h
  obtain ⟨hpaid, hlengths⟩ := rawOuts_eq_ok houts
  rw [conventional_fundedTx] at hwant
  have hwant' := Except.ok.inj hwant
  refine ⟨rfl, not_lt.mp hcovered, hpaid, ?_, ?_⟩
  · rw [conventional_fundedTx, hwant']
  · have hbytes : outputsBytes (outs.map fun o ↦ o.scriptPubkey.length) =
        if RawChange base preset coins fee then 34 else 0 := by
      rw [hlengths]
      by_cases hc : dustFloor < rawChange base preset coins fee
      · rw [if_pos hc]
        exact (if_pos hc).symm
      · rw [if_neg hc]
        exact (if_neg hc).symm
    rw [← hwant', hbytes]
    rfl

theorem rawRounds_eq_ok {faults : List (Option String)} {r : RawFunded}
    (h : rawRounds env base preset coins faults fee p = (.ok r, p')) :
    ∃ fee' want chosen outs, RawRounded base preset coins fee' want chosen outs ∧ want ≤ fee' ∧
      settle (fun _ ↦ rawWant base preset coins) faults fee = some fee' ∧
      r.tx = fundedTx base chosen outs ∧ r.tx.serialize = .ok r.hex ∧
      r.fee = preset + worth chosen - (outputTotal base.vout + paid outs) := by
  induction faults generalizing fee p with
  | nil => cases h
  | cons fault faults ih =>
    obtain ⟨⟨want, chosen, outs⟩, p₁, hround, h⟩ := bind_eq_ok.mp h
    have hr := rawRound_eq_ok hround
    dsimp only at h
    rw [settle, ← hr.want_eq]
    split at h
    · rename_i hlt
      rw [if_pos hlt]
      exact ih h
    · rename_i hge
      rw [if_neg hge]
      obtain ⟨hex, hhex, h⟩ := lift_bind_eq_ok.mp h
      cases h
      refine ⟨fee, want, chosen, outs, hr, not_lt.mp hge, rfl, rfl, ?_, rfl⟩
      cases hs : (fundedTx base chosen outs).serialize with
      | error e =>
        rw [hs] at hhex
        cases hhex
      | ok b =>
        rw [hs] at hhex
        cases hhex
        rfl

end Rounds

/-! ## Coins and fees grow together -/

theorem length_gather_mono {needed needed' : Int} (h : needed ≤ needed') (got : Int)
    (cs : List Chosen) : (gather needed got cs).length ≤ (gather needed' got cs).length := by
  induction cs generalizing got with
  | nil => exact le_refl _
  | cons c cs ih =>
    rw [gather, gather]
    split
    · exact Nat.zero_le _
    · rename_i hlt
      rw [if_neg fun hle ↦ hlt (h.trans hle)]
      exact Nat.succ_le_succ (ih _)

section Bounds

variable {base : Transaction} {preset fee : Int} {coins : List Chosen}

theorem rawFee_mono {more more' : Nat} {change change' : Prop} [Decidable change]
    [Decidable change'] (hmore : more ≤ more') (hchange : change → change') :
    rawFee base more change ≤ rawFee base more' change' := by
  refine zip317ConventionalFee_mono _ ?_ (Nat.add_le_add_left ?_ _)
  · simp only [Transaction.inBytes, List.map_replicate, List.sum_replicate]
    exact Nat.mul_le_mul_right _ (Nat.add_le_add_left hmore _)
  · split
    · rename_i h
      rw [if_pos (hchange h)]
    · exact Nat.zero_le _

/-- Conventional fees lie apart by more than a dust. -/
theorem zip317ConventionalFee_gap {inBytes outBytes actions inBytes' outBytes' actions' : Nat}
    (h : Build.zip317ConventionalFee inBytes outBytes actions <
      Build.zip317ConventionalFee inBytes' outBytes' actions') :
    Build.zip317ConventionalFee inBytes outBytes actions + dustFloor <
      Build.zip317ConventionalFee inBytes' outBytes' actions' := by
  unfold Build.zip317ConventionalFee at h ⊢
  dsimp only at h ⊢
  rw [dustFloor]
  rw [i64Max] at h ⊢
  omega

theorem firstFee_gap {inBytes outBytes actions : Nat}
    (h : firstFee < Build.zip317ConventionalFee inBytes outBytes actions) :
    firstFee + dustFloor < Build.zip317ConventionalFee inBytes outBytes actions := by
  have hfirst : firstFee = Build.zip317ConventionalFee 3000 0 0 := by decide
  rw [hfirst] at h ⊢
  exact zip317ConventionalFee_gap h

/-- What the given transaction has to pay by itself. -/
def baseFee (base : Transaction) : Int := max firstFee (rawFee base 0 False)

/-- The given inputs bring more than the given outputs, their fee and a dust. -/
def Surplus (base : Transaction) (preset : Int) : Prop :=
  dustFloor < preset - outputTotal base.vout - baseFee base

/-- The fee was raised for a change that it leaves no room for, and the transaction without the
change asks for less. -/
def Vanishes (base : Transaction) (preset : Int) (coins : List Chosen) (fee : Int) : Prop :=
  firstFee < fee ∧ ¬ RawChange base preset coins fee ∧ rawWant base preset coins fee < fee

/-- Where the given inputs suffice no coin is taken and there is no change. -/
theorem rawWant_of_neg (h : rawNeed base preset fee < 0) :
    rawWant base preset coins fee = rawFee base 0 False ∧ rawChange base preset coins fee = 0 := by
  have hgather : gather (rawNeed base preset fee) 0 coins = [] := gather_of_le h.le coins
  have hchange : rawChange base preset coins fee = 0 := by
    rw [rawChange, hgather, max_eq_right h.le]
    rfl
  refine ⟨?_, hchange⟩
  have hno : ¬ RawChange base preset coins fee := by
    rw [RawChange, hchange]
    decide
  rw [rawWant, hgather, rawFee, rawFee, if_neg hno, if_neg not_false]
  rfl

theorem rawNeed_mono {fee' : Int} (h : fee ≤ fee') :
    rawNeed base preset fee ≤ rawNeed base preset fee' := by
  unfold rawNeed
  omega

/-- A settled fee is the first one, or was asked for at a smaller one. -/
theorem settle_cases {faults : List (Option String)}
    (h : settle (fun _ ↦ rawWant base preset coins) faults firstFee = some fee) :
    fee = firstFee ∨ ∃ fee' < fee, fee = rawWant base preset coins fee' :=
  settle_keeps (P := fun x ↦ x = firstFee ∨ ∃ y < x, x = rawWant base preset coins y)
    (fun _ x _ hlt ↦ .inr ⟨x, hlt, rfl⟩) (.inl rfl) h

/-- The fee is raised above that of the given transaction only for coins that are needed. -/
theorem le_baseFee_of_settle {faults : List (Option String)}
    (h : settle (fun _ ↦ rawWant base preset coins) faults firstFee = some fee) :
    fee ≤ baseFee base ∨ preset - outputTotal base.vout ≤ baseFee base := by
  refine settle_keeps (P := fun x ↦ x ≤ baseFee base ∨ preset - outputTotal base.vout ≤ baseFee base)
    ?_ (.inl (le_max_left _ _)) h
  rintro - x hx -
  rcases hx with hle | hle
  · rcases lt_or_ge (rawNeed base preset x) 0 with hneg | hpos
    · refine .inl ?_
      rw [(rawWant_of_neg hneg).1]
      exact le_max_right _ _
    · refine .inr ?_
      unfold rawNeed at hpos
      omega
  · exact .inr hle

/-- A fee that was raised is what a transaction with change asks for, or it asks for less. -/
theorem le_rawWant_of_change {faults : List (Option String)}
    (h : settle (fun _ ↦ rawWant base preset coins) faults firstFee = some fee)
    (hchange : RawChange base preset coins fee) :
    fee ≤ max firstFee (rawWant base preset coins fee) := by
  rcases settle_cases h with rfl | ⟨fee', hlt, heq⟩
  · exact le_max_left _ _
  · refine le_max_of_le_right ?_
    calc fee = rawWant base preset coins fee' := heq
      _ ≤ rawWant base preset coins fee :=
        rawFee_mono (length_gather_mono (rawNeed_mono hlt.le) _ _) fun _ ↦ hchange

/-- What a round pays: its fee and the change it leaves out, or all that the given inputs bring
beyond the outputs. -/
theorem RawRounded.fee_cases {want : Int} {chosen : List Chosen} {outs : List Out}
    (h : RawRounded base preset coins fee want chosen outs) :
    let x := preset + worth chosen - (outputTotal base.vout + paid outs)
    rawNeed base preset fee < 0 ∧ x = preset - outputTotal base.vout ∨
      0 ≤ rawNeed base preset fee ∧
        (RawChange base preset coins fee ∧ x = fee ∨
          ¬ RawChange base preset coins fee ∧ 0 ≤ rawChange base preset coins fee ∧
            x = fee + rawChange base preset coins fee) := by
  intro x
  have hx : x = preset + worth chosen - (outputTotal base.vout + paid outs) := rfl
  rw [h.change] at hx
  have hcovered := h.covered
  have hchange : rawChange base preset coins fee = worth chosen - max (rawNeed base preset fee) 0 := by
    rw [rawChange, h.took]
  rcases lt_or_ge (rawNeed base preset fee) 0 with hneg | hpos
  · refine .inl ⟨hneg, ?_⟩
    have hzero := (@rawWant_of_neg base preset fee coins hneg).2
    rw [hzero, ite_self] at hx
    rw [hzero, max_eq_right hneg.le] at hchange
    omega
  · refine .inr ⟨hpos, ?_⟩
    rw [max_eq_left hpos] at hchange
    have hneed : rawNeed base preset fee = outputTotal base.vout + fee - preset := rfl
    by_cases hc : RawChange base preset coins fee
    · rw [if_pos hc] at hx
      exact .inl ⟨hc, by omega⟩
    · rw [if_neg hc] at hx
      exact .inr ⟨hc, by omega, by omega⟩

/-- What a settled round pays is bounded if and only if the given inputs bring no surplus and the
change did not vanish. -/
theorem RawRounded.fee_le_iff {want : Int} {chosen : List Chosen} {outs : List Out}
    (h : RawRounded base preset coins fee want chosen outs) (hwant : want ≤ fee)
    {faults : List (Option String)}
    (hsettle : settle (fun _ ↦ rawWant base preset coins) faults firstFee = some fee) :
    preset + worth chosen - (outputTotal base.vout + paid outs) ≤ max firstFee want + dustFloor ↔
      ¬ Surplus base preset ∧ ¬ Vanishes base preset coins fee := by
  have hbase := le_baseFee_of_settle hsettle
  have hfirst : firstFee ≤ fee := (settle_eq_some hsettle).1
  have hwant_eq := h.want_eq
  have hdust : (0 : Int) ≤ dustFloor := by decide
  rcases h.fee_cases with ⟨hneg, hx⟩ | ⟨hpos, ⟨hchange, hx⟩ | ⟨hchange, hnonneg, hx⟩⟩
  · -- the fee is that of the given transaction
    rw [hx]
    rw [(rawWant_of_neg hneg).1] at hwant_eq
    have hsurplus : Surplus base preset ↔ dustFloor < preset - outputTotal base.vout -
        max firstFee want := by
      rw [Surplus, baseFee, hwant_eq]
    have hfee : fee ≤ max firstFee want := by
      rw [baseFee, ← hwant_eq] at hbase
      unfold rawNeed at hneg
      omega
    have hvanishes : ¬ Vanishes base preset coins fee := by
      rintro ⟨hlt, -, hless⟩
      rw [(rawWant_of_neg hneg).1, ← hwant_eq] at hless
      omega
    rw [hsurplus, not_lt]
    constructor
    · intro hle
      exact ⟨by omega, hvanishes⟩
    · rintro ⟨hle, -⟩
      omega
  · have hsurplus : ¬ Surplus base preset := by
      unfold Surplus
      unfold rawNeed at hpos
      omega
    refine iff_of_true ?_ ⟨hsurplus, fun hvanishes ↦ hvanishes.2.1 hchange⟩
    have := le_rawWant_of_change hsettle hchange
    rw [hx, hwant_eq]
    omega
  · have hsurplus : ¬ Surplus base preset := by
      unfold Surplus
      unfold rawNeed at hpos
      omega
    have hsmall : rawChange base preset coins fee ≤ dustFloor := not_lt.mp hchange
    rw [hx]
    constructor
    · intro hle
      refine ⟨hsurplus, ?_⟩
      rintro ⟨hlt, -, hless⟩
      rcases settle_cases hsettle with rfl | ⟨fee', -, heq⟩
      · exact lt_irrefl _ hlt
      · have h₁ : firstFee + dustFloor < rawWant base preset coins fee' :=
          firstFee_gap (hlt.trans_eq heq)
        have h₂ : rawWant base preset coins fee + dustFloor < rawWant base preset coins fee' :=
          zip317ConventionalFee_gap (hless.trans_eq heq)
        rw [← heq] at h₁ h₂
        omega
    · rintro ⟨-, hvanishes⟩
      by_contra hlt
      refine hvanishes ⟨?_, hchange, ?_⟩
      · omega
      · rw [← hwant_eq]
        omega

end Bounds

/-- **What `fundrawtransaction` pays.**  A funded transaction pays its conventional fee at least.  It
pays at most 10,000 zatoshi or that fee, whichever is larger, and a dropped change of at most 54, if
and only if the given inputs bring no surplus beyond the given outputs and their fee, and the fee
that the rounds settle on was not raised for a change that is left out.  The conventional fee is
that of P2PKH inputs. -/
theorem fundrawtransaction_fee_le_iff {env : Env} {A : Answers} {faults : Fin 8 → Option String}
    {raw : Bytes} {p p' : Purse} {r : RawFunded}
    (h : fundrawtransaction env A faults raw p = (.ok r, p')) :
    ∃ base id preset coins fee chosen outs conventional,
      Transaction.parse env.C raw = .ok (base, id) ∧ presetOf A base.vin = .ok preset ∧
      p.spendableYec A 0 false = .ok coins ∧
      settle (fun _ ↦ rawWant base preset (unusedCoins base coins)) (List.ofFn faults) firstFee =
        some fee ∧
      r.tx = fundedTx base chosen outs ∧ r.tx.serialize = .ok r.hex ∧
      r.fee = preset + worth chosen - (outputTotal base.vout + paid outs) ∧
      r.tx.zip317ConventionalFee (List.replicate r.tx.vin.length maxP2pkhScriptSig) =
        .ok conventional ∧
      conventional ≤ r.fee ∧
      (r.fee ≤ max 10000 conventional + 54 ↔
        ¬ Surplus base preset ∧ ¬ Vanishes base preset (unusedCoins base coins) fee) := by
  obtain ⟨⟨base, id⟩, hparse, h⟩ := lift_bind_eq_ok.mp h
  obtain ⟨preset, hpreset, h⟩ := lift_bind_eq_ok.mp h
  obtain ⟨_, _, ⟨⟩, h⟩ := bind_eq_ok.mp h
  obtain ⟨coins, hcoins, h⟩ := lift_bind_eq_ok.mp h
  obtain ⟨fee, want, chosen, outs, hround, hwant, hsettle, htx, hhex, hfee⟩ := rawRounds_eq_ok h
  have hparse' : Transaction.parse env.C raw = .ok (base, id) := by
    cases hp : Transaction.parse env.C raw with
    | error e =>
      rw [hp] at hparse
      cases hparse
    | ok x =>
      rw [hp] at hparse
      exact congrArg Except.ok (Except.ok.inj hparse)
  refine ⟨base, id, preset, coins, fee, chosen, outs, want, hparse', hpreset, hcoins, hsettle, htx,
    hhex, hfee, ?_, ?_, ?_⟩
  · rw [htx]
    exact hround.asked
  · rw [hfee]
    refine hwant.trans ?_
    rcases hround.fee_cases with ⟨hneg, hx⟩ | ⟨-, ⟨-, hx⟩ | ⟨-, hnonneg, hx⟩⟩
    · unfold rawNeed at hneg
      omega
    · exact hx.ge
    · omega
  · rw [hfee]
    exact hround.fee_le_iff hwant hsettle

/-! ### A surplus for the fee -/

/-- A transaction that spends a coin of 70,000 zatoshi to an output of `low + 256 * high`. -/
def givenBytes (low high : UInt8) : Bytes :=
  [4, 0, 0, 0x80, 0x85, 0x20, 0x2f, 0x89, 1] ++ List.replicate 32 3 ++
    [0, 0, 0, 0, 0, 0xff, 0xff, 0xff, 0xff, 1] ++
    [low, high, 0, 0, 0, 0, 0, 0, 25] ++ payScript ++ List.replicate 19 0

/-- The funding of such a transaction. -/
def fundGiven (low high : UInt8) : Except RpcError RawFunded × Purse :=
  fundrawtransaction listEnv plainAnswers (fun _ ↦ none) (givenBytes low high) tipPurse

/-- The conventional fee of the transaction that a funding answers. -/
def RawFunded.conventional (r : RawFunded) : Option Int :=
  (r.tx.zip317ConventionalFee (List.replicate r.tx.vin.length maxP2pkhScriptSig)).toOption

/-- An output of 60,000 zatoshi: the fee is 10,000. -/
theorem fundrawtransaction_fee_le_even : ∃ r p', fundGiven 96 234 = (.ok r, p') ∧ r.fee = 10000 ∧
    ∃ base preset conventional, r.conventional = some conventional ∧ conventional ≤ 10000 ∧
      presetOf plainAnswers base.vin = .ok preset ∧ ¬ Surplus base preset := by
  have hrun : (fundGiven 96 234).1.toOption.map RawFunded.fee = some 10000 := by decide +kernel
  generalize hx : fundGiven 96 234 = x at hrun
  obtain ⟨res, p'⟩ := x
  cases res with
  | error e => cases hrun
  | ok r =>
    have hfee : r.fee = 10000 := Option.some.inj hrun
    obtain ⟨base, _, preset, _, _, _, _, conventional, -, hpreset, -, -, -, -, -, hconv, hle, hiff⟩ :=
      fundrawtransaction_fee_le_iff hx
    rw [hfee] at hle hiff
    refine ⟨r, p', rfl, hfee, base, preset, conventional, ?_, hle, hpreset, (hiff.mp ?_).1⟩
    · rw [RawFunded.conventional, hconv]
      rfl
    · have := le_max_left (10000 : Int) conventional
      omega

/-- An output of 1,000 zatoshi: the fee is 69,000, and the conventional fee is 1,000. -/
theorem not_fee_le_surplus : (fundGiven 232 3).1.toOption.map (fun r ↦ (r.fee, r.conventional)) =
      some (69000, some 1000) ∧ ¬ (69000 : Int) ≤ max 10000 1000 + 54 :=
  ⟨by decide +kernel, by decide⟩

end Yew.Daemon
