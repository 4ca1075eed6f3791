import Mathlib.Order.OmegaCompletePartialOrder
import Mathlib.Dynamics.FixedPoints.Basic
import Yew.Daemon.SendSound

/-!
# What `z_sendmany` plans

The coins or notes are chosen at a fee, the fee of the choice is compared with it, and the choice is
made again at that fee, six times at most.  When the two agree the plan balances.  When they never
do, the last choice was made at one fee and the plan states another.

The proofs that are asked of Sapling are the signer's (`Yew.Signer.Sapling`); here is what is asked.

## Source

* `yewd/wallet/src/zsend.rs`: `Dest`, `Wallet::z_sendmany`, `Wallet::sapling_paths`,
  `conventional_fee`
* `yewd/wallet/src/zfund.rs`: `Wallet::sapling_out`
-/

namespace Yew.Daemon

open Script Tx Pq Proto Proc Yellowback Build

/-! ## The plan -/

/-- `Dest`. -/
inductive Dest where
  | t (script : Bytes)
  | z (address : String)

/-- A recipient of `z_sendmany`. -/
structure Payee where
  dest : Dest
  value : Int
  memo : String

/-- Whether a recipient is transparent. -/
def Payee.isT (r : Payee) : Bool :=
  match r.dest with
  | .t _ => true
  | .z _ => false

/-- `SaplingOut`, as `run_sendmany` writes it. -/
inductive PlanOut where
  | transparent (script : Bytes) (value : Int) (own : Bool)
  | shielded (address : String) (value : Int) (memo : String) (own : Bool)

namespace PlanOut

/-- The value of an output. -/
def value : PlanOut → Int
  | transparent _ v _ => v
  | shielded _ v _ _ => v

/-- Whether an output is transparent. -/
def isT : PlanOut → Bool
  | transparent .. => true
  | shielded .. => false

end PlanOut

/-- `SaplingBuildRequest`, as `run_sendmany` fills it: the coins, the notes with their positions and
paths, the outputs, the fee and the cap. -/
structure BuildAsk where
  inputs : List SendCoin
  spends : List (NoteRow × Nat × List String)
  outputs : List PlanOut
  fee : Int
  anchor : String
  cap : Int

/-- The witness of a note that the Sapling tree at the tip has: its root, and its position and path
unless it is empty. -/
structure Witness where
  root : String
  path : Option (Nat × List String)

/-- The last loop of `sapling_paths`: one path for every note, all to one root. -/
def saplingPaths (tip : Nat) : List (NoteRow × Option Witness) → Option String →
    Except RpcError (String × List (Nat × List String))
  | [], root => .ok (root.getD "", [])
  | (n, none) :: _, _ =>
    .error ⟨-4, "yewd: the note at position " ++ Text.decimal (n.position.getD (2 ^ 64 - 1)) ++
      " is not in the tree at " ++ Text.decimal tip⟩
  | (_, some w) :: ws, root =>
    match w.path with
    | none => .error ⟨-1, "an empty witness"⟩
    | some path =>
      if root.any (· ≠ w.root) then .error ⟨-1, "the witnesses disagree on the root"⟩
      else do
        let (r, paths) ← saplingPaths tip ws (some w.root)
        return (r, path :: paths)

section Plan

variable (env : Env) (A : Answers) (ownsAddress : String → Bool)
  (witness : NoteRow → Except RpcError (Option Witness))

/-- The witnesses of some notes, as the node's blocks give them. -/
def witnessesOf : List NoteRow → Except RpcError (List (NoteRow × Option Witness))
  | [] => .ok []
  | n :: ns => do
    let w ← witness n
    let ws ← witnessesOf ns
    return (n, w) :: ws

/-- `sapling_paths` of the notes to spend, if there are any. -/
def notePaths (tip : Nat) (notes : List NoteRow) :
    Except RpcError (String × List (Nat × List String)) :=
  if notes.isEmpty then .ok ("", [])
  else do
    let ws ← witnessesOf witness notes
    saplingPaths tip ws none

/-- The output to a recipient. -/
def payeeOut (book : KeyBook) (r : Payee) : PlanOut :=
  match r.dest with
  | .t s => .transparent s r.value (book.ownsScript s).isSome
  | .z a => .shielded a r.value r.memo (ownsAddress a)

/-- The change output: back to a Sapling source, or to a new key. -/
def planChange (fault : Option String) (source : Source) (change : Int) :
    Proc Purse RpcError (List PlanOut) :=
  if 0 < change then
    match source with
    | .z a => pure [.shielded a change "" true]
    | _ => do
      let sc ← newChange env fault
      return [.transparent sc change true]
  else pure []

/-- `run_sendmany`, up to the request it makes of the signer. -/
def sendmanyPlan (fault : Option String) (source : Source) (recipients : List Payee) (hasT : Bool)
    (min : Int) (fee : Option Int) (policy : Policy) : Proc Purse RpcError BuildAsk := do
  let p ← get
  let choice ← lift (p.runSendmany A source (recipients.map fun r ↦ (r.value, r.isT)) hasT min fee
    policy)
  let (anchor, paths) ← lift (notePaths witness p.wallet.tipHeight choice.notes)
  let change ← planChange env fault source choice.change
  return {
    inputs := choice.coins
    spends := choice.notes.zip paths
    outputs := recipients.map (payeeOut ownsAddress p.wallet.book) ++ change
    fee := choice.fee
    anchor
    cap := (recipients.map Payee.value).sum + choice.fee }

end Plan

/-! ## The choice at a fee -/

/-- What a choice brings. -/
def SendChoice.spent (c : SendChoice) : Int :=
  (c.coins.map fun c ↦ c.coin.value).sum + (c.notes.map fun n ↦ (n.value : Int)).sum

/-- The conventional fee of a choice for some transparent and shielded recipients. -/
def SendChoice.conventional (zSource : Bool) (nTOut nZOut : Nat) (c : SendChoice) : Int :=
  shapeFee c.coins.length (nTOut + if 0 < c.change ∧ !zSource then 1 else 0) c.notes.length
    (nZOut + if 0 < c.change ∧ zSource then 1 else 0)

/-- A choice that states another fee. -/
def SendChoice.stating (c : SendChoice) (fee : Int) : SendChoice := { c with fee }

@[simp] theorem SendChoice.stating_spent (c : SendChoice) (fee : Int) :
    (c.stating fee).spent = c.spent := rfl

@[simp] theorem SendChoice.stating_change (c : SendChoice) (fee : Int) :
    (c.stating fee).change = c.change := rfl

@[simp] theorem SendChoice.stating_fee (c : SendChoice) (fee : Int) :
    (c.stating fee).fee = fee := rfl

@[simp] theorem SendChoice.stating_conventional (c : SendChoice) (fee : Int) (zSource : Bool)
    (nTOut nZOut : Nat) : (c.stating fee).conventional zSource nTOut nZOut =
      c.conventional zSource nTOut nZOut := rfl

section Choice

variable (zSource : Bool) (coins : List SendCoin) (notes : List NoteRow) (total : Int)
  (nTOut nZOut : Nat)

/-- The choice at a fee. -/
def choiceAt (fee : Int) : SendChoice :=
  let selT := if zSource then [] else
    gatherBy (fun c : SendCoin ↦ c.coin.value) (total + fee) 0 coins
  let selZ := if zSource then gatherBy (fun n : NoteRow ↦ (n.value : Int)) (total + fee) 0 notes
    else []
  ⟨selT, selZ, (selT.map fun c ↦ c.coin.value).sum + (selZ.map fun n ↦ (n.value : Int)).sum -
    (total + fee), fee⟩

/-- The conventional fee of the choice at a fee. -/
def choiceFee (fee : Int) : Int :=
  (choiceAt zSource coins notes total fee).conventional zSource nTOut nZOut

/-- The fee the choice begins with: that of the recipients alone. -/
def firstChoiceFee : Int := shapeFee 0 nTOut 0 nZOut

/-- One of the first six fees is that of the choice made at it. -/
def FeeStands : Prop :=
  ∃ k < 6, Function.IsFixedPt (choiceFee zSource coins notes total nTOut nZOut)
    ((choiceFee zSource coins notes total nTOut nZOut)^[k] (firstChoiceFee nTOut nZOut))

end Choice

section Rounds

variable {zSource coinbaseOk : Bool} {coins : List SendCoin} {notes : List NoteRow} {total : Int}
  {nTOut nZOut : Nat} {fee : Option Int}

theorem choiceAt_spent (f : Int) : (choiceAt zSource coins notes total f).spent =
    total + f + (choiceAt zSource coins notes total f).change := by
  unfold SendChoice.spent choiceAt
  dsimp only
  ring

theorem choiceAt_fee (f : Int) : (choiceAt zSource coins notes total f).fee = f := rfl

/-- A round makes its choice at its fee, and asks for that of the choice unless one was given. -/
theorem sendManyRound_eq_ok {needFee want : Int} {c : SendChoice}
    (h : sendManyRound zSource coinbaseOk coins notes total nTOut nZOut fee needFee =
      .ok (want, c)) :
    c = choiceAt zSource coins notes total needFee ∧ 0 ≤ c.change ∧
      want = if fee.isSome then needFee else choiceFee zSource coins notes total nTOut nZOut needFee := by
  obtain ⟨hcovered, h⟩ := Result.guard_eq_ok.mp h
  obtain ⟨-, h⟩ := Result.guard_eq_ok.mp h
  have hnonneg : 0 ≤ (choiceAt zSource coins notes total needFee).change :=
    sub_nonneg.mpr (not_lt.mp hcovered)
  cases fee with
  | none =>
    cases h
    exact ⟨rfl, hnonneg, rfl⟩
  | some f =>
    obtain ⟨-, h⟩ := Result.guard_eq_ok.mp h
    cases h
    exact ⟨rfl, hnonneg, rfl⟩

/-- A given fee stands at once. -/
theorem sendManyRounds_some {f needFee : Int} {n : Nat} {last c : SendChoice}
    (h : sendManyRounds zSource coinbaseOk coins notes total nTOut nZOut (some f) (n + 1) needFee
      last = .ok c) : c = choiceAt zSource coins notes total needFee ∧ 0 ≤ c.change := by
  obtain ⟨⟨want, c'⟩, hround, h⟩ := Result.bind_eq_ok.mp h
  obtain ⟨hc, hnonneg, rfl⟩ := sendManyRound_eq_ok hround
  cases h.symm.trans (if_pos rfl)
  exact ⟨hc, hnonneg⟩

/-- One round without a given fee: it stands, or the rounds go on with the one asked for. -/
theorem sendManyRounds_step {needFee : Int} {n : Nat} {last c : SendChoice}
    (h : sendManyRounds zSource coinbaseOk coins notes total nTOut nZOut none (n + 1) needFee last =
      .ok c) :
    let c' := choiceAt zSource coins notes total needFee
    let want := choiceFee zSource coins notes total nTOut nZOut needFee
    0 ≤ c'.change ∧ (want = needFee ∧ c = c' ∨ want ≠ needFee ∧
      sendManyRounds zSource coinbaseOk coins notes total nTOut nZOut none n want
        (c'.stating want) = .ok c) := by
  intro c' want
  obtain ⟨⟨want', c''⟩, hround, h⟩ := Result.bind_eq_ok.mp h
  obtain ⟨rfl, hnonneg, rfl⟩ := sendManyRound_eq_ok hround
  refine ⟨hnonneg, ?_⟩
  by_cases hfix : want = needFee
  · cases h.symm.trans (if_pos hfix)
    exact .inl ⟨hfix, rfl⟩
  · exact .inr ⟨hfix, (if_neg hfix).symm.trans h⟩

/-- Without a given fee the rounds end with one that stands, or with the one that the last choice
asks for. -/
theorem sendManyRounds_none {needFee : Int} {n : Nat} {last c : SendChoice}
    (h : sendManyRounds zSource coinbaseOk coins notes total nTOut nZOut none (n + 1) needFee last =
      .ok c) :
    let want := choiceFee zSource coins notes total nTOut nZOut
    0 ≤ c.change ∧ ((∃ k < n + 1, Function.IsFixedPt want (want^[k] needFee) ∧
        c = choiceAt zSource coins notes total (want^[k] needFee)) ∨
      (∀ k < n + 1, ¬ Function.IsFixedPt want (want^[k] needFee)) ∧
        c = (choiceAt zSource coins notes total (want^[n] needFee)).stating
          (want (want^[n] needFee))) := by
  intro want
  induction n generalizing needFee last with
  | zero =>
    obtain ⟨hnonneg, ⟨hfix, rfl⟩ | ⟨hmoves, h⟩⟩ := sendManyRounds_step h
    · exact ⟨hnonneg, .inl ⟨0, Nat.zero_lt_one, hfix, rfl⟩⟩
    · cases h
      refine ⟨hnonneg, .inr ⟨fun k hk ↦ ?_, rfl⟩⟩
      obtain rfl := Nat.lt_one_iff.mp hk
      exact hmoves
  | succ n ih =>
    obtain ⟨hnonneg, ⟨hfix, rfl⟩ | ⟨hmoves, h⟩⟩ := sendManyRounds_step h
    · exact ⟨hnonneg, .inl ⟨0, Nat.succ_pos _, hfix, rfl⟩⟩
    · obtain ⟨hnonneg', ⟨k, hk, hfix, hc⟩ | ⟨hnone, hc⟩⟩ := ih h
      · exact ⟨hnonneg', .inl ⟨k + 1, Nat.succ_lt_succ hk, hfix, hc⟩⟩
      · refine ⟨hnonneg', .inr ⟨fun k hk ↦ ?_, hc⟩⟩
        cases k with
        | zero => exact hmoves
        | succ k => exact hnone k (Nat.lt_of_succ_lt_succ hk)

/-- The rounds balance if and only if the fee was given or stands, and without a given fee they
state that of their choice. -/
theorem sendManyRounds_balanced_iff {last c : SendChoice}
    (h : sendManyRounds zSource coinbaseOk coins notes total nTOut nZOut fee 6
      (fee.getD (firstChoiceFee nTOut nZOut)) last = .ok c) :
    0 ≤ c.change ∧ (c.spent = total + c.change + c.fee ↔
        fee.isSome ∨ FeeStands zSource coins notes total nTOut nZOut) ∧
      (fee = none → c.fee = c.conventional zSource nTOut nZOut) := by
  cases fee with
  | some f =>
    obtain ⟨rfl, hnonneg⟩ := sendManyRounds_some h
    refine ⟨hnonneg, iff_of_true ?_ (.inl rfl), nofun⟩
    rw [choiceAt_spent, choiceAt_fee]
    ring
  | none =>
    rw [Option.getD_none] at h
    obtain ⟨hnonneg, ⟨k, hk, hfix, hc⟩ | ⟨hnone, hc⟩⟩ := sendManyRounds_none h
    · refine ⟨hnonneg, iff_of_true ?_ (.inr ⟨k, hk, hfix⟩), fun _ ↦ ?_⟩
      · rw [hc, choiceAt_spent, choiceAt_fee]
        ring
      · rw [hc, choiceAt_fee]
        exact hfix.symm
    · -- the choice was made at the fee before the one that is stated
      have hmoves := hnone 5 (by decide)
      generalize (choiceFee zSource coins notes total nTOut nZOut)^[5] _ = x at hmoves hc
      have hspent : c.spent = total + x + c.change := by
        rw [hc, SendChoice.stating_spent, SendChoice.stating_change, choiceAt_spent]
      have hfee : c.fee = choiceFee zSource coins notes total nTOut nZOut x := by
        rw [hc, SendChoice.stating_fee]
      refine ⟨hnonneg, iff_of_false (fun hbalance ↦ hmoves ?_) ?_, fun _ ↦ ?_⟩
      · rw [Function.IsFixedPt, ← hfee]
        omega
      · rintro (hsome | ⟨k, hk, hfix⟩)
        · cases hsome
        · exact hnone k hk hfix
      · rw [hfee, hc, SendChoice.stating_conventional, choiceFee]

end Rounds

/-! ## The plan balances -/

namespace BuildAsk

variable (a : BuildAsk)

/-- The coins and notes are the outputs and the fee. -/
def Balanced : Prop :=
  (a.inputs.map fun c ↦ c.coin.value).sum + (a.spends.map fun s ↦ (s.1.value : Int)).sum =
    (a.outputs.map PlanOut.value).sum + a.fee

/-- `conventional_fee` of a plan. -/
def conventional : Int :=
  shapeFee a.inputs.length (a.outputs.countP PlanOut.isT) a.spends.length
    (a.outputs.countP fun o ↦ !o.isT)

end BuildAsk

/-- The notes a Sapling source may use, the largest first. -/
def Purse.sendNotes (p : Purse) (address : String) (min : Int) : List NoteRow :=
  (p.wallet.notes.filter fun n ↦ !n.spent && n.address = address &&
    max min 1 ≤ max (p.wallet.depthAt n.height) 0 && n.position.isSome).insertionSort
      fun a b ↦ b.value ≤ a.value

/-- Whether the source is a Sapling address. -/
def Source.isZ : Source → Bool
  | .z _ => true
  | _ => false

/-- Whether coinbases may be spent. -/
def coinbaseAllowed (source : Source) (policy : Policy) (hasT : Bool) : Bool :=
  (source matches .t _) && policy.revealSenders && !hasT

/-- The coins and notes a source may use. -/
def Purse.CandidatesOf (A : Answers) (p : Purse) (source : Source) (coinbaseOk : Bool) (min : Int)
    (coins : List SendCoin) (notes : List NoteRow) : Prop :=
  match source with
  | .z address => coins = [] ∧ notes = p.sendNotes address min
  | _ => p.sendCandidates A source coinbaseOk min = .ok coins ∧ notes = []

theorem runSendmany_eq_ok {A : Answers} {p : Purse} {source : Source}
    {recipients : List (Int × Bool)} {hasT : Bool} {min : Int} {fee : Option Int} {policy : Policy}
    {c : SendChoice} (h : p.runSendmany A source recipients hasT min fee policy = .ok c) :
    let total := (recipients.map Prod.fst).sum
    let nTOut := recipients.countP Prod.snd
    let nZOut := recipients.length - nTOut
    let coinbaseOk := coinbaseAllowed source policy hasT
    ∃ coins notes last, p.CandidatesOf A source coinbaseOk min coins notes ∧
      sendManyRounds source.isZ coinbaseOk coins notes total nTOut nZOut fee 6
        (fee.getD (firstChoiceFee nTOut nZOut)) last = .ok c := by
  obtain ⟨-, h⟩ := Result.guard_eq_ok.mp h
  cases source with
  | z address => exact ⟨[], p.sendNotes address min, _, ⟨rfl, rfl⟩, h⟩
  | t script =>
    obtain ⟨-, h⟩ := Result.guard_eq_ok.mp h
    obtain ⟨coins, hcoins, h⟩ := Result.bind_eq_ok.mp h
    exact ⟨coins, [], _, ⟨hcoins, rfl⟩, h⟩
  | anyTaddr =>
    obtain ⟨-, h⟩ := Result.guard_eq_ok.mp h
    obtain ⟨coins, hcoins, h⟩ := Result.bind_eq_ok.mp h
    exact ⟨coins, [], _, ⟨hcoins, rfl⟩, h⟩

theorem length_saplingPaths {tip : Nat} {ws : List (NoteRow × Option Witness)}
    {root : Option String} {r : String} {paths : List (Nat × List String)}
    (h : saplingPaths tip ws root = .ok (r, paths)) : paths.length = ws.length := by
  induction ws generalizing root paths with
  | nil =>
    cases h
    rfl
  | cons x ws ih =>
    obtain ⟨n, o⟩ := x
    cases o with
    | none => cases h
    | some w =>
      rw [saplingPaths] at h
      split at h
      · cases h
      · obtain ⟨-, h⟩ := Result.guard_eq_ok.mp h
        obtain ⟨⟨r', paths'⟩, hpaths, h⟩ := Result.bind_eq_ok.mp h
        cases h
        rw [List.length_cons, List.length_cons, ih hpaths]

theorem length_witnessesOf {witness : NoteRow → Except RpcError (Option Witness)}
    {notes : List NoteRow} {ws : List (NoteRow × Option Witness)}
    (h : witnessesOf witness notes = .ok ws) : ws.length = notes.length := by
  induction notes generalizing ws with
  | nil =>
    cases h
    rfl
  | cons n ns ih =>
    obtain ⟨w, -, h⟩ := Result.bind_eq_ok.mp h
    obtain ⟨ws', hws, h⟩ := Result.bind_eq_ok.mp h
    cases h
    rw [List.length_cons, List.length_cons, ih hws]

/-- Every note to spend has its path. -/
theorem length_notePaths {witness : NoteRow → Except RpcError (Option Witness)} {tip : Nat}
    {notes : List NoteRow} {anchor : String} {paths : List (Nat × List String)}
    (h : notePaths witness tip notes = .ok (anchor, paths)) : paths.length = notes.length := by
  unfold notePaths at h
  split at h
  · rename_i hempty
    cases h
    rw [List.isEmpty_iff.mp hempty]
    rfl
  · obtain ⟨ws, hws, h⟩ := Result.bind_eq_ok.mp h
    rw [length_saplingPaths h, length_witnessesOf hws]

theorem planChange_eq_ok {env : Env} {fault : Option String} {source : Source} {change : Int}
    {p p' : Purse} {outs : List PlanOut} (hnonneg : 0 ≤ change)
    (h : planChange env fault source change p = (.ok outs, p')) :
    (outs.map PlanOut.value).sum = change ∧
      outs.countP PlanOut.isT = (if 0 < change ∧ !source.isZ then 1 else 0) ∧
      outs.countP (fun o ↦ !o.isT) = if 0 < change ∧ source.isZ then 1 else 0 := by
  unfold planChange at h
  split at h
  · rename_i hpos
    cases source with
    | z a =>
      cases h
      simp [PlanOut.value, PlanOut.isT, Source.isZ, hpos]
    | t script =>
      obtain ⟨sc, p₁, -, h⟩ := bind_eq_ok.mp h
      cases h
      simp [PlanOut.value, PlanOut.isT, Source.isZ, hpos]
    | anyTaddr =>
      obtain ⟨sc, p₁, -, h⟩ := bind_eq_ok.mp h
      cases h
      simp [PlanOut.value, PlanOut.isT, Source.isZ, hpos]
  · rename_i hle
    cases h
    simp [hle]
    omega

section Payees

variable {ownsAddress : String → Bool} {book : KeyBook} (recipients : List Payee)

theorem value_payeeOut : PlanOut.value ∘ payeeOut ownsAddress book = Payee.value := by
  funext r
  rw [Function.comp_apply, payeeOut]
  cases r.dest <;> rfl

theorem isT_payeeOut : PlanOut.isT ∘ payeeOut ownsAddress book = Payee.isT := by
  funext r
  rw [Function.comp_apply, payeeOut, Payee.isT]
  cases r.dest <;> rfl

/-- The recipients that are not transparent are the others. -/
theorem countP_not_isT : recipients.length - recipients.countP Payee.isT =
    recipients.countP fun r ↦ !r.isT := by
  induction recipients with
  | nil => rfl
  | cons r rs ih =>
    have hle := rs.countP_le_length (p := Payee.isT)
    rw [List.length_cons, List.countP_cons, List.countP_cons]
    cases r.isT with
    | true => simpa using ih
    | false =>
      simp only [Bool.false_eq_true, if_false, Bool.not_false, if_true]
      omega

end Payees

/-- **The plans of `z_sendmany`.**  A plan that reaches the signer balances and states its
conventional fee, where none was given, if and only if a fee was given or one of the first six fees
is that of the choice made at it. -/
theorem sendmanyPlan_balanced_iff {env : Env} {A : Answers} {ownsAddress : String → Bool}
    {witness : NoteRow → Except RpcError (Option Witness)} {fault : Option String}
    {source : Source} {recipients : List Payee} {hasT : Bool} {min : Int} {fee : Option Int}
    {policy : Policy} {p p' : Purse} {ask : BuildAsk}
    (h : sendmanyPlan env A ownsAddress witness fault source recipients hasT min fee policy p =
      (.ok ask, p')) :
    ∃ coins notes, p.CandidatesOf A source (coinbaseAllowed source policy hasT) min coins notes ∧
      ((ask.Balanced ∧ (fee = none → ask.fee = ask.conventional)) ↔
        fee.isSome ∨ FeeStands source.isZ coins notes (recipients.map Payee.value).sum
          (recipients.countP Payee.isT) (recipients.countP fun r ↦ !r.isT)) := by
  obtain ⟨_, _, ⟨⟩, h⟩ := bind_eq_ok.mp h
  obtain ⟨choice, hchoice, h⟩ := lift_bind_eq_ok.mp h
  obtain ⟨⟨anchor, paths⟩, hpaths, h⟩ := lift_bind_eq_ok.mp h
  obtain ⟨change, p₁, hchange, h⟩ := bind_eq_ok.mp h
  cases h
  obtain ⟨coins, notes, last, hcandidates, hrounds⟩ := runSendmany_eq_ok hchoice
  obtain ⟨hnonneg, hiff, hfee⟩ := sendManyRounds_balanced_iff hrounds
  obtain ⟨hsum, hcountT, hcountZ⟩ := planChange_eq_ok hnonneg hchange
  have htotal : ((recipients.map fun r ↦ (r.value, r.isT)).map Prod.fst).sum =
      (recipients.map Payee.value).sum := by
    rw [List.map_map]
    rfl
  have hnT : (recipients.map fun r ↦ (r.value, r.isT)).countP Prod.snd =
      recipients.countP Payee.isT := by
    rw [List.countP_map]
    rfl
  rw [htotal, hnT, List.length_map, countP_not_isT] at hiff
  rw [hnT, List.length_map, countP_not_isT] at hfee
  refine ⟨coins, notes, hcandidates, ?_⟩
  have hspends : (choice.notes.zip paths).map (fun s ↦ (s.1.value : Int)) =
      choice.notes.map fun n ↦ (n.value : Int) := by
    have hzip : (choice.notes.zip paths).map Prod.fst = choice.notes :=
      List.map_fst_zip (length_notePaths hpaths).ge
    have := congrArg (List.map fun n : NoteRow ↦ (n.value : Int)) hzip
    rwa [List.map_map] at this
  have hconv : BuildAsk.conventional ⟨choice.coins, choice.notes.zip paths,
      recipients.map (payeeOut ownsAddress p.wallet.book) ++ change, choice.fee, anchor,
      (recipients.map Payee.value).sum + choice.fee⟩ =
        choice.conventional source.isZ (recipients.countP Payee.isT)
          (recipients.countP fun r ↦ !r.isT) := by
    have hnZ : (recipients.map (payeeOut ownsAddress p.wallet.book)).countP (fun o ↦ !o.isT) =
        recipients.countP fun r ↦ !r.isT := by
      rw [List.countP_map]
      exact congrArg (fun f ↦ recipients.countP fun r ↦ !f r) isT_payeeOut
    rw [BuildAsk.conventional, SendChoice.conventional, List.countP_append, List.countP_append, hnZ,
      List.countP_map, isT_payeeOut, hcountT, hcountZ, List.length_zip, length_notePaths hpaths,
      min_self]
  have hbalance : BuildAsk.Balanced ⟨choice.coins, choice.notes.zip paths,
      recipients.map (payeeOut ownsAddress p.wallet.book) ++ change, choice.fee, anchor,
      (recipients.map Payee.value).sum + choice.fee⟩ ↔
        choice.spent = (recipients.map Payee.value).sum + choice.change + choice.fee := by
    rw [BuildAsk.Balanced, SendChoice.spent, hspends, List.map_append, List.sum_append,
      List.map_map, value_payeeOut, hsum]
  rw [hconv, hbalance, ← hiff]
  exact ⟨fun hplan ↦ hplan.1, fun hspent ↦ ⟨hspent, hfee⟩⟩

/-! ### A fee that never stands -/

/-- A payment of two amounts from the coin of 100,000 zatoshi. -/
def tipSendmany (first second : Int) : Except RpcError BuildAsk × Purse :=
  sendmanyPlan listEnv plainAnswers (fun _ ↦ false) (fun _ ↦ .ok none) none (.t (listScript 0))
    [⟨.t (listScript 200), first, ""⟩, ⟨.t (listScript 201), second, ""⟩] true 1 none
    ⟨true, true, true⟩ tipPurse

theorem sendCandidates_tipPurse : tipPurse.sendCandidates plainAnswers (.t (listScript 0))
    (coinbaseAllowed (.t (listScript 0)) ⟨true, true, true⟩ true) 1 =
      .ok [⟨⟨⟨payTxid, 0⟩, 100000, listScript 0⟩, false, .bip32 0 0⟩] := by decide +kernel

/-- Two payments of 40,000 zatoshi: the fee stands at 1,500 and the change is 18,500. -/
theorem sendmanyPlan_balanced_twice : ∃ ask p', tipSendmany 40000 40000 = (.ok ask, p') ∧
    ask.Balanced ∧ ask.fee = ask.conventional := by
  have hrun : (tipSendmany 40000 40000).1.isOk = true := by decide +kernel
  generalize hx : tipSendmany 40000 40000 = x at hrun
  obtain ⟨r, p'⟩ := x
  cases r with
  | error e => cases hrun
  | ok ask =>
    obtain ⟨coins, notes, ⟨hcoins, rfl⟩, hiff⟩ := sendmanyPlan_balanced_iff hx
    obtain rfl := Except.ok.inj (hcoins.symm.trans sendCandidates_tipPurse)
    obtain ⟨hbalanced, hfee⟩ := hiff.mpr (.inr ⟨1, by decide, by
      unfold Function.IsFixedPt
      decide +kernel⟩)
    exact ⟨ask, p', rfl, hbalanced, hfee rfl⟩

/-- Two payments of 50,000 and 48,500 zatoshi.  At 1,000 there is change, and three outputs cost
1,500; at 1,500 there is none, and two outputs cost 1,000.  The plan spends 100,000 on payments of
98,500 and a fee of 1,000. -/
theorem not_balanced_wavering : (tipSendmany 50000 48500).1.toOption.map (fun ask ↦
    ((ask.inputs.map fun c ↦ c.coin.value), ask.spends.length, ask.outputs.map PlanOut.value,
      ask.fee)) = some ([100000], 0, [50000, 48500], 1000) ∧
    ¬ (100000 : Int) = 50000 + 48500 + 1000 :=
  ⟨by decide +kernel, by decide⟩

end Yew.Daemon
