import Yew.Core.VaultCodec
import Yew.Daemon.Amounts
import Yew.Daemon.CarrierRuns
import Yew.Daemon.Refee
import Yew.Daemon.SendSound

/-!
# Unlocking a vault

An unlock spends a vault into *intents*, one for each payee, and locks the rest again under the same
script.  One routine builds it and another judges what members are asked to sign.  Amounts are 64-bit
words: the builder's sum saturates, the judge's total wraps.

The builder is `vault_buildunlock` of `yewd/wallet/src/vaultrpc.rs`, the judge `validate_set_spend`
of the same file.  The judge reads the transaction, not the request it was built from.

## Source

* `yewd/wallet/src/vaultrpc.rs`: `Template`, `new_tx`, `Wallet::recipient_param`,
  `Wallet::add_intents`, `Wallet::fee_inputs_unspent`, `Wallet::vault_buildunlock`,
  `Wallet::validate_set_spend`
* `yewd/wallet/src/build.rs`: `Wallet::prune_builds`, `Wallet::unlock_build_inputs`,
  `Wallet::remember_build`, `tx_hex`
-/

namespace Yew.Daemon

open Script Tx Vault Proto Proc Build

/-! ## Building the outputs -/

/-- A signed 64-bit sum that saturates. -/
def satI64 (n : Int) : Int := max (-2 ^ 63) (min n (2 ^ 63 - 1))

section Intents

variable (C : Crypto) (recipientParam : Json → Except RpcError Bytes)
variable (amountParam : Json → Except RpcError Int64) (vp : VaultParams) (coin : NodeCoin)

/-- The loop of `add_intents`: the intents, and the sum of the amounts. -/
def intentsFrom : Int → List Json → Except RpcError (List TxOut × Int)
  | sum, [] => return ([], sum)
  | sum, r :: rs =>
    match r with
    | .obj _ => do
      let dest ← recipientParam r
      let amt ← amountParam ((member r "amount").getD .null)
      let sum := satI64 (sum + amt.toInt)
      if coin.value.toInt < sum ∨ maxMoney < sum then
        .error ⟨-8, "the recipients' amounts exceed the vault's value"⟩
      else match buildIntent (intentFor C vp coin.script dest) with
        | none => .error ⟨-8, "the intent is out of range"⟩
        | some spk => do
          let (outs, total) ← intentsFrom sum rs
          return (⟨amt, spk⟩ :: outs, total)
    | _ => .error ⟨-3, "Expected type object"⟩

/-- The re-lock of what is left. -/
def relockOf (sum : Int) : List TxOut :=
  if sum < coin.value.toInt then [⟨.ofInt (coin.value.toInt - sum), coin.script⟩] else []

/-- `add_intents`, with `recipient_param` and `amount_param` for the recipients. -/
def addIntents (recipients : Json) : Except RpcError (List TxOut) :=
  match recipients with
  | .arr rs => do
    let (outs, sum) ← intentsFrom C recipientParam amountParam vp coin 0 rs
    return outs ++ relockOf coin sum
  | _ => .error ⟨-3, "Expected type array"⟩

end Intents

/-! ## Judging them -/

/-- `Template`. -/
structure Template where
  idx : Nat
  coin : NodeCoin
  vault : Option VaultParams
  intent : Option IntentParams

/-- The refusal of `validate_set_spend`. -/
def setSignInvalid (why : String) : RpcError :=
  ⟨-8, "set-sign-invalid: " ++ why ++ "; nothing was recorded or signed"⟩

section Validate

variable (C : Crypto)

/-- An intent of this vault, whoever its payee is. -/
def matchesVault (vp : VaultParams) (script : Bytes) (ip : IntentParams) : Bool :=
  ip.vaultHash = C.sha256 script && ip.delay = vp.delay && ip.cancelSetId = vp.cancelSetId &&
    ip.setId = vp.setId && ip.owner = vp.owner && ip.tag = vp.tag

/-- The loop of `validate_set_spend` over an unlock's outputs: the total, and whether there is a
re-lock. -/
def unlockTotal (vp : VaultParams) (script : Bytes) : List TxOut → Except RpcError (Int64 × Bool)
  | [] => return (0, false)
  | o :: os =>
    match parseIntent o.scriptPubkey with
    | some ip =>
      if !matchesVault C vp script ip then .error (setSignInvalid "bad-txns-vault-intent")
      else do
        let (total, relock) ← unlockTotal vp script os
        return (o.value + total, relock)
    | none => do
      let (total, relock) ← unlockTotal vp script os
      if o.scriptPubkey = script then return (o.value + total, true)
      else return (total, relock)

/-- The unlock of `validate_set_spend`. -/
def validateUnlock (vp : VaultParams) (coin : NodeCoin) (vout : List TxOut) :
    Except RpcError Unit := do
  let (total, relock) ← unlockTotal C vp coin.script vout
  if total < coin.value ∨ coin.value < total ∧ relock then
    .error (setSignInvalid "bad-txns-vault-unlock-value")
  else return ()

/-- `validate_set_spend`, for an unlock (role 1) or a cancel (role 2). -/
def validateSetSpend (tx : Transaction) (t : Template) (role : UInt8) (next : Next) :
    Except RpcError Unit :=
  if role = 2 then
    match t.intent with
    -- the callers have checked the template
    | none => .error ⟨-32603, "an intent"⟩
    | some ip =>
      let h := t.coin.height.getD next.height
      if ip.delay ≤ (next.height : Int) - h then
        .error (setSignInvalid "bad-txns-vault-cancel-late")
      else match tx.vout.head? with
        | none => .error (setSignInvalid "bad-txns-vault-cancel")
        | some out0 =>
          if C.sha256 out0.scriptPubkey ≠ ip.vaultHash ∨ out0.value < t.coin.value then
            .error (setSignInvalid "bad-txns-vault-cancel")
          else return ()
  else match t.vault with
    | none => .error ⟨-32603, "a vault"⟩
    | some vp => validateUnlock C vp t.coin tx.vout

end Validate

/-! ## `vault_buildunlock` -/

/-- `unlock_build_inputs`. -/
def Purse.unlockBuildInputs (p : Purse) (templ : OutPoint) (t : Transaction) : Purse :=
  p.unlockCoins ((t.vin.map TxIn.prevout).filter (· ≠ templ))

/-- The loop of `prune_builds`. -/
def pruneEach (A : Answers) : List (String × Bytes) → Proc VaultDesk RpcError Unit
  | [] => return ()
  | (k, b) :: rest => do
    let op ← lift (outpointParam k "build")
    match ← lift (nodeCoin A op) with
    | some _ => pruneEach A rest
    | none =>
      modify fun d ↦ { d with
        builds := d.builds.erase k
        purse := match (Transaction.parseAt 64 b).toOption with
          | some t => d.purse.unlockBuildInputs op t
          | none => d.purse }
      pruneEach A rest

/-- `prune_builds`. -/
def pruneBuilds (A : Answers) : Proc VaultDesk RpcError Unit := do
  let d ← get
  pruneEach A d.builds.entries

/-- The scriptSig of the template is left out. -/
def cleared (templ : OutPoint) (i : TxIn) : TxIn :=
  if i.prevout = templ then { i with scriptSig := [] } else i

/-- `tx_hex`, as bytes. -/
def txBytes (tx : Transaction) : Except RpcError Bytes :=
  tx.serialize.mapError fun e ↦ ⟨-32603, e.text⟩

/-- `remember_build`. -/
def rememberBuild (templ : OutPoint) (tx : Transaction) : Proc VaultDesk RpcError Unit := do
  let bytes ← lift (txBytes { tx with vin := tx.vin.map (cleared templ) })
  modify fun d ↦ { d with builds := d.builds.insert templ.display bytes }

/-- `fee_inputs_unspent`. -/
def feeInputsUnspent (A : Answers) (w : Wallet) (templ : OutPoint) :
    List TxIn → Except RpcError Bool
  | [] => return true
  | i :: is =>
    if i.prevout = templ then feeInputsUnspent A w templ is
    else do
      let c ← nodeCoin A i.prevout
      if c.isNone ∨ (txidHex i.prevout.txid, i.prevout.n) ∈ w.mempoolSpent then return false
      else feeInputsUnspent A w templ is

section Build

variable (env : Env)

/-- `fund` on a transaction; what it needs is a 64-bit word. -/
def fundTx (A : Answers) (fault : Option String) (tx : Transaction) (inputValue fee : Int)
    (mode : FundMode) : Proc VaultDesk RpcError Transaction := do
  let outs : List Out := tx.vout.map fun o ↦ ⟨o.value.toInt, o.scriptPubkey⟩
  let needed := i64 (voutTotal tx + fee - inputValue)
  let (_, outs', chosen) ← atPurse (fund env A fault (tx.vin.map TxIn.prevout) outs
    (paid outs + fee - needed) fee mode)
  let change := (outs'.drop outs.length).map fun o ↦ (⟨.ofInt o.value, o.scriptPubkey⟩ : TxOut)
  return { tx with vin := tx.vin ++ chosen.map fun c ↦ newTxIn c.outpoint
                   vout := tx.vout ++ change }

/-- How a build came about. -/
inductive BuildKind where
  | new
  | reused
  | refunded
deriving DecidableEq

/-- The answers that `vault_buildunlock` gets: those of the node at each stage, whether the signer has
signed for the vault, and the threshold of its set. -/
structure UnlockAnswers where
  active : Except RpcError Next
  coin : Except RpcError (Option NodeCoin)
  prune : Answers
  coins : Answers
  signedPrevout : Bool
  refee : RefeeAnswers
  changeFault : Option String
  required : Except RpcError Int

/-- What `vault_buildunlock` returns; the intents are reported with the re-lock. -/
structure UnlockBuild where
  tx : Transaction
  outs : List TxOut
  required : Int
  sighash : Arr 32
  build : BuildKind

/-- `new_tx`, with its inputs and outputs. -/
def newTx (vin : List TxIn) (vout : List TxOut) : Transaction :=
  ⟨txHeaderV4, saplingVersionGroupId, vin, vout, 0, 0, .empty⟩

/-- A remembered build serves for the same outputs, with at most one more. -/
def servesFor (c : Transaction) (op : OutPoint) (outs : List TxOut) : Bool :=
  (c.vin.head?.any fun i ↦ i.prevout = op) && outs.length ≤ c.vout.length &&
    c.vout.length ≤ outs.length + 1 && c.vout.take outs.length = outs

variable (U : UnlockAnswers) (op : OutPoint) (coin : NodeCoin)

/-- A remembered build is used again, with a new fee coin where the old ones are spent. -/
def renewBuild (c : Transaction) : Proc VaultDesk RpcError (Transaction × BuildKind) := do
  let d ← get
  let unspent ← lift (feeInputsUnspent U.coins d.purse.wallet op c.vin)
  if unspent then return (c, .reused)
  else do
    let (tx, _) ← refee env U.refee c 0 coin
    return (tx, .refunded)

/-- A remembered build is used again if it serves for the outputs. -/
def reuseBuild (next : Next) (c : Transaction) (outs : List TxOut) :
    Proc VaultDesk RpcError (Transaction × BuildKind) :=
  if !servesFor c op outs then do
    let sighash ← lift (sighashSet env.C c 0 coin next.branch)
    throw ⟨-8, "this wallet already built a different unlock of " ++ op.display ++ " (sighash " ++
      Hex.encode sighash.toList ++ "): members sign once, so collect signatures on that build " ++
      "(call again with its recipients), or pass rebuild=true if no member has signed it"⟩
  else renewBuild env U op coin c

/-- A new build is funded. -/
def newBuild (outs : List TxOut) : Proc VaultDesk RpcError (Transaction × BuildKind) := do
  let tx ← fundTx env U.coins U.changeFault (newTx [newTxIn op] outs) coin.value.toInt vaultRpcFee
    .smallChange
  return (tx, .new)

/-- The transaction of `vault_buildunlock`. -/
def unlockTx (next : Next) (rebuild : Bool) (memo : Option Transaction) (outs : List TxOut) :
    Proc VaultDesk RpcError (Transaction × BuildKind) :=
  match memo with
  | none => newBuild env U op coin outs
  | some c =>
    if rebuild then do
      when (!U.signedPrevout)
        (modify fun d ↦ { d with purse := d.purse.unlockBuildInputs op c })
      newBuild env U op coin outs
    else reuseBuild env U op coin next c outs

/-- `vault_buildunlock`. -/
def vaultBuildunlock (recipientParam : Json → Except RpcError Bytes)
    (amountParam : Json → Except RpcError Int64) (recipients : Json) (rebuild : Bool) :
    Proc VaultDesk RpcError UnlockBuild := do
  let next ← lift U.active
  match ← lift U.coin with
  | none => throw ⟨-8, "not an unspent vault output"⟩
  | some coin =>
    match parseVault coin.script with
    | none => throw ⟨-8, "not an unspent vault output"⟩
    | some vp => do
      pruneBuilds U.prune
      let outs ← lift (addIntents env.C recipientParam amountParam vp coin recipients)
      let d ← get
      let memo := buildOf d.builds op
      let (tx, build) ← unlockTx env U op coin next rebuild memo outs
      when (!(memo.isSome && rebuild && U.signedPrevout)) (rememberBuild op tx)
      let required ← lift U.required
      let sighash ← lift (sighashSet env.C tx 0 coin next.branch)
      let _ ← lift (txBytes tx)
      return ⟨tx, outs, required, sighash, build⟩

end Build

/-! ## What the judge accepts -/

/-- An output that an unlock's total counts: an intent, or the vault's own script. -/
def counts (script : Bytes) (o : TxOut) : Bool :=
  (parseIntent o.scriptPubkey).isSome || o.scriptPubkey = script

/-- What the outputs pay into intents and the vault's own script. -/
def vaultPaid (script : Bytes) (vout : List TxOut) : Int :=
  ((vout.filter (counts script)).map fun o ↦ o.value.toInt).sum

/-- Some output locks the vault again. -/
def hasRelock (script : Bytes) (vout : List TxOut) : Bool :=
  vout.any fun o ↦ (parseIntent o.scriptPubkey).isNone && o.scriptPubkey = script

/-- Every intent is one of this vault. -/
def AllMatch (C : Crypto) (vp : VaultParams) (script : Bytes) (vout : List TxOut) : Prop :=
  ∀ o ∈ vout, ∀ ip, parseIntent o.scriptPubkey = some ip → matchesVault C vp script ip

section Judge

variable {C : Crypto} {vp : VaultParams} {script : Bytes} {coin : NodeCoin} {vout : List TxOut}

theorem vaultPaid_cons (o : TxOut) (os : List TxOut) : vaultPaid script (o :: os) =
    (if counts script o then o.value.toInt else 0) + vaultPaid script os := by
  unfold vaultPaid
  rw [List.filter_cons]
  split
  · rw [List.map_cons, List.sum_cons]
  · rw [Int.zero_add]

theorem vaultPaid_append (os os' : List TxOut) :
    vaultPaid script (os ++ os') = vaultPaid script os + vaultPaid script os' := by
  rw [vaultPaid, List.filter_append, List.map_append, List.sum_append]
  rfl

/-- The loop of the judge, where every intent matches. -/
theorem unlockTotal_of_allMatch (h : AllMatch C vp script vout) :
    unlockTotal C vp script vout = .ok (.ofInt (vaultPaid script vout), hasRelock script vout) := by
  induction vout with
  | nil => rfl
  | cons o os ih =>
    have hos := ih fun o' ho' ↦ h o' (List.mem_cons_of_mem _ ho')
    rw [unlockTotal]
    cases hparse : parseIntent o.scriptPubkey with
    | some ip =>
      have hmatch := h o List.mem_cons_self ip hparse
      have hcounts : counts script o := by simp [counts, hparse]
      simp only [hmatch, hos, Bool.not_true, Bool.false_eq_true, if_false]
      rw [vaultPaid_cons, if_pos hcounts, Int64.ofInt_add, Int64.ofInt_toInt]
      simp [hasRelock, hparse]
    | none =>
      rw [hos]
      dsimp only [bind, Except.bind]
      by_cases hscript : o.scriptPubkey = script
      · have hcounts : counts script o := by simp [counts, hscript]
        rw [vaultPaid_cons, if_pos hcounts, Int64.ofInt_add, Int64.ofInt_toInt]
        rw [if_pos hscript, hasRelock, List.any_cons, hparse, decide_eq_true hscript]
        rfl
      · have hcounts : ¬ counts script o := by simp [counts, hparse, hscript]
        rw [vaultPaid_cons, if_neg hcounts, Int.zero_add]
        have hrelock : hasRelock script (o :: os) = hasRelock script os := by
          simp [hasRelock, hscript]
        rw [if_neg hscript, hrelock]
        rfl

theorem allMatch_of_unlockTotal {x : Int64 × Bool} (h : unlockTotal C vp script vout = .ok x) :
    AllMatch C vp script vout := by
  induction vout generalizing x with
  | nil => exact nofun
  | cons o os ih =>
    rw [unlockTotal] at h
    intro o' ho' ip hparse
    cases ho : parseIntent o.scriptPubkey with
    | some ip' =>
      rw [ho] at h
      dsimp only at h
      obtain ⟨hmatch, h⟩ := Result.guard_eq_ok.mp h
      obtain ⟨y, hy, -⟩ := Result.bind_eq_ok.mp h
      rcases List.mem_cons.mp ho' with rfl | ho'
      · obtain rfl := Option.some.inj (ho.symm.trans hparse)
        simpa using hmatch
      · exact ih hy o' ho' ip hparse
    | none =>
      rw [ho] at h
      obtain ⟨y, hy, -⟩ := Result.bind_eq_ok.mp h
      rcases List.mem_cons.mp ho' with rfl | ho'
      · rw [ho] at hparse
        cases hparse
      · exact ih hy o' ho' ip hparse

/-- What an unlock is accepted for. -/
theorem validateUnlock_iff : validateUnlock C vp coin vout = .ok () ↔
    AllMatch C vp coin.script vout ∧ coin.value.toInt ≤ i64 (vaultPaid coin.script vout) ∧
      (coin.value.toInt < i64 (vaultPaid coin.script vout) → hasRelock coin.script vout = false) := by
  have hvalue : (Int64.ofInt (vaultPaid coin.script vout)).toInt =
      i64 (vaultPaid coin.script vout) := Int64.toInt_ofInt
  constructor
  · intro h
    obtain ⟨x, hx, h⟩ := Result.bind_eq_ok.mp h
    have hall := allMatch_of_unlockTotal hx
    rw [unlockTotal_of_allMatch hall] at hx
    cases hx
    obtain ⟨hrange, -⟩ := Result.guard_eq_ok.mp h
    rw [not_or, not_and, Int64.lt_iff_toInt_lt, Int64.lt_iff_toInt_lt, hvalue, not_lt] at hrange
    exact ⟨hall, hrange.1, fun hlt ↦ by simpa using hrange.2 hlt⟩
  · rintro ⟨hall, hle, hrelock⟩
    rw [validateUnlock, unlockTotal_of_allMatch hall]
    refine (if_neg ?_)
    rw [not_or, not_and, Int64.lt_iff_toInt_lt, Int64.lt_iff_toInt_lt, hvalue, not_lt]
    exact ⟨hle, fun hlt ↦ by simp [hrelock hlt]⟩

/-- An accepted unlock pays the vault's value, and no more where it locks the vault again, if and only
if the total is not below any 64-bit amount, nor above where it locks the vault again. -/
theorem pays_iff (h : validateUnlock C vp coin vout = .ok ()) :
    (coin.value.toInt ≤ vaultPaid coin.script vout ∧ (hasRelock coin.script vout →
        vaultPaid coin.script vout = coin.value.toInt)) ↔
      -2 ^ 63 ≤ vaultPaid coin.script vout ∧
        (hasRelock coin.script vout → FitsI64 (vaultPaid coin.script vout)) := by
  obtain ⟨-, hle, hrelock⟩ := validateUnlock_iff.mp h
  have hmin := coin.value.le_toInt
  have hmax := coin.value.toInt_lt
  generalize vaultPaid coin.script vout = total at *
  constructor
  · rintro ⟨hpays, hexact⟩
    refine ⟨hmin.trans hpays, fun hr ↦ ?_⟩
    rw [hexact hr]
    exact ⟨hmin, hmax⟩
  · rintro ⟨hlow, hfits⟩
    by_cases hhigh : total < 2 ^ 63
    · rw [show i64 total = total from FitsI64.bmod_eq ⟨hlow, hhigh⟩] at hle hrelock
      refine ⟨hle, fun hr ↦ ?_⟩
      by_contra hne
      have hfalse := hrelock (lt_of_le_of_ne hle (Ne.symm hne))
      rw [hr] at hfalse
      cases hfalse
    · refine ⟨by omega, fun hr ↦ absurd (hfits hr).2 hhigh⟩

end Judge

/-! ## What the builder makes -/

/-- A payee and the amount. -/
abbrev Payout := Bytes × Int64

/-- What a recipient of the payout list says. -/
def Payout.Read (recipientParam : Json → Except RpcError Bytes)
    (amountParam : Json → Except RpcError Int64) (r : Json) (p : Payout) : Prop :=
  recipientParam r = .ok p.1 ∧ amountParam ((member r "amount").getD .null) = .ok p.2

/-- The intent that pays a payee. -/
def Payout.Paid (C : Crypto) (vp : VaultParams) (script : Bytes) (o : TxOut) (p : Payout) : Prop :=
  o.value = p.2 ∧ parseIntent o.scriptPubkey = some (intentFor C vp script p.1)

/-- The amounts of the payees. -/
def amounts (pays : List Payout) : List Int := pays.map fun p ↦ p.2.toInt

/-- No sum of the builder leaves the 64-bit range: not those of the first amounts, nor the value that
is left for the re-lock. -/
def NoWrap (value : Int) (amounts : List Int) : Prop :=
  (∀ n, -2 ^ 63 ≤ (amounts.take n).sum) ∧ value - amounts.sum < 2 ^ 63

section Build

variable {C : Crypto} {recipientParam : Json → Except RpcError Bytes}
variable {amountParam : Json → Except RpcError Int64} {vp : VaultParams} {coin : NodeCoin}

theorem satI64_of_le {n : Int} (h : satI64 n ≤ maxMoney) : satI64 n = max (-2 ^ 63) n := by
  unfold satI64 maxMoney at *
  omega

/-- The loop of `add_intents`.  Its sum is the true one if and only if no partial sum was below the
64-bit range. -/
theorem intentsFrom_eq_ok {sum total : Int} {rs : List Json} {outs : List TxOut}
    (h : intentsFrom C recipientParam amountParam vp coin sum rs = .ok (outs, total))
    (hlow : -2 ^ 63 ≤ sum) (hsum : sum ≤ coin.value.toInt) : ∃ pays,
      List.Forall₂ (Payout.Read recipientParam amountParam) rs pays ∧
      List.Forall₂ (Payout.Paid C vp coin.script) outs pays ∧ total ≤ coin.value.toInt ∧
      sum + (amounts pays).sum ≤ total ∧
      (sum + (amounts pays).sum = total ↔
        ∀ n, -2 ^ 63 ≤ sum + ((amounts pays).take n).sum) := by
  induction rs generalizing sum outs with
  | nil =>
    cases h
    refine ⟨[], .nil, .nil, hsum, by simp [amounts], ?_⟩
    simpa [amounts] using hlow
  | cons r rs ih =>
    unfold intentsFrom at h
    split at h
    · obtain ⟨dest, hdest, h⟩ := Result.bind_eq_ok.mp h
      obtain ⟨amt, hamt, h⟩ := Result.bind_eq_ok.mp h
      obtain ⟨hrange, h⟩ := Result.guard_eq_ok.mp h
      rw [not_or, not_lt, not_lt] at hrange
      have hsat := satI64_of_le hrange.2
      rw [hsat] at hrange h
      cases hspk : buildIntent (intentFor C vp coin.script dest) with
      | none =>
        rw [hspk] at h
        cases h
      | some spk =>
        rw [hspk] at h
        obtain ⟨⟨outs', total'⟩, hrest, h⟩ := Result.bind_eq_ok.mp h
        cases h
        obtain ⟨pays, hread, hpaid, htotal, hle, heq⟩ := ih hrest (le_max_left _ _) hrange.1
        refine ⟨(dest, amt) :: pays, .cons ⟨hdest, hamt⟩ hread,
          .cons ⟨rfl, parseIntent_buildIntent hspk⟩ hpaid, htotal, ?_, ?_⟩
        all_goals rw [show amounts ((dest, amt) :: pays) = amt.toInt :: amounts pays from rfl,
          List.sum_cons]
        · have := le_max_right (-2 ^ 63) (sum + amt.toInt)
          omega
        · constructor
          · intro hexact n
            have hfirst : -2 ^ 63 ≤ sum + amt.toInt := by omega
            rw [max_eq_right hfirst] at heq hle
            cases n with
            | zero => simpa using hlow
            | succ n =>
              rw [List.take_succ_cons, List.sum_cons, ← add_assoc]
              exact heq.mp (by omega) n
          · intro hall
            have hfirst : -2 ^ 63 ≤ sum + amt.toInt := by simpa using hall 1
            rw [max_eq_right hfirst] at heq
            rw [← add_assoc]
            refine heq.mpr fun n ↦ ?_
            have := hall (n + 1)
            rwa [List.take_succ_cons, List.sum_cons, ← add_assoc] at this
    · cases h

/-- A word that wrapped is below the number it stands for. -/
theorem i64_of_nonneg {n : Int} (h : 0 ≤ n) : i64 n ≤ n ∧ (i64 n = n ↔ n < 2 ^ 63) := by
  have hle : i64 n ≤ n % 2 ^ 64 := by
    rw [i64, Int.bmod_eq_emod]
    split <;> omega
  refine ⟨hle.trans (by omega), fun heq ↦ ?_, fun hlt ↦ ?_⟩
  · rw [← heq]
    exact Int.bmod_lt (by decide)
  · exact FitsI64.bmod_eq ⟨by omega, hlt⟩

/-- What a list of outputs pays. -/
def outsTotal (outs : List TxOut) : Int := (outs.map fun o ↦ o.value.toInt).sum

theorem outsTotal_of_paid {script : Bytes} {outs : List TxOut} {pays : List Payout}
    (h : List.Forall₂ (Payout.Paid C vp script) outs pays) :
    outsTotal outs = (amounts pays).sum := by
  induction h with
  | nil => rfl
  | cons ho _ ih =>
    rw [outsTotal, List.map_cons, List.sum_cons, amounts, List.map_cons, List.sum_cons, ho.1]
    exact congrArg _ ih

/-- The outputs of `add_intents`. -/
structure Intents (C : Crypto) (vp : VaultParams) (coin : NodeCoin) (pays : List Payout)
    (outs : List TxOut) : Prop where
  paid : List.Forall₂ (Payout.Paid C vp coin.script) (outs.take pays.length) pays
  relock : outs.length ≤ pays.length + 1 ∧ ∀ o ∈ outs.drop pays.length, o.scriptPubkey = coin.script
  conserves : outsTotal outs = coin.value.toInt ↔ NoWrap coin.value.toInt (amounts pays)

theorem addIntents_eq_ok {recipients : Json} {outs : List TxOut}
    (h : addIntents C recipientParam amountParam vp coin recipients = .ok outs)
    (hvalue : 0 ≤ coin.value.toInt) : ∃ rs pays, recipients = .arr rs ∧
      List.Forall₂ (Payout.Read recipientParam amountParam) rs pays ∧
      Intents C vp coin pays outs := by
  unfold addIntents at h
  split at h
  · rename_i rs
    obtain ⟨⟨intents, sum⟩, hloop, h⟩ := Result.bind_eq_ok.mp h
    cases h
    obtain ⟨pays, hread, hpaid, hsum, hle, heq⟩ := intentsFrom_eq_ok hloop (by decide) hvalue
    simp only [Int.zero_add] at hle heq
    have hlen := hpaid.length_eq
    refine ⟨rs, pays, rfl, hread, ?_, ?_, ?_⟩
    · rwa [← hlen, List.take_left]
    · rw [← hlen, List.drop_left]
      unfold relockOf
      split
      · exact ⟨by simp, by simp⟩
      · exact ⟨by simp, nofun⟩
    · have htotal : outsTotal (intents ++ relockOf coin sum) =
          (amounts pays).sum + outsTotal (relockOf coin sum) := by
        rw [← outsTotal_of_paid hpaid, outsTotal, List.map_append, List.sum_append]
        rfl
      have hmax := coin.value.toInt_lt
      have hleft : outsTotal (relockOf coin sum) = i64 (coin.value.toInt - sum) := by
        unfold relockOf
        split
        · exact List.sum_singleton.trans Int64.toInt_ofInt
        · rw [show coin.value.toInt - sum = 0 by omega]
          rfl
      obtain ⟨hwrapped, hexact⟩ := i64_of_nonneg (Int.sub_nonneg_of_le hsum)
      rw [htotal, hleft, NoWrap, ← heq]
      constructor
      · intro hall
        have hsame : (amounts pays).sum = sum := by omega
        exact ⟨hsame, hsame ▸ hexact.mp (by omega)⟩
      · rintro ⟨hsame, hfits⟩
        rw [hsame] at hfits ⊢
        rw [hexact.mpr hfits]
        omega
  · cases h

/-- Every output of `add_intents` counts, and every intent matches. -/
theorem Intents.judged {pays : List Payout} {outs : List TxOut} (h : Intents C vp coin pays outs)
    (hvault : parseVault coin.script = some vp) :
    AllMatch C vp coin.script outs ∧ vaultPaid coin.script outs = outsTotal outs := by
  have hsplit : ∀ o ∈ outs, (∃ p, Payout.Paid C vp coin.script o p) ∨ o.scriptPubkey = coin.script := by
    intro o ho
    rw [← List.take_append_drop pays.length outs] at ho
    rcases List.mem_append.mp ho with ho | ho
    · obtain ⟨n, hn, rfl⟩ := List.getElem_of_mem ho
      have hlen := h.paid.length_eq
      exact .inl ⟨_, h.paid.get hn (hlen ▸ hn)⟩
    · exact .inr (h.relock.2 o ho)
  constructor
  · intro o ho ip hparse
    rcases hsplit o ho with ⟨p, -, hp⟩ | hscript
    · obtain rfl := Option.some.inj (hp.symm.trans hparse)
      simp [matchesVault, intentFor, scriptHash256]
    · rw [hscript, parseIntent_of_parseVault hvault] at hparse
      cases hparse
  · rw [vaultPaid, outsTotal, List.filter_eq_self.mpr]
    intro o ho
    rcases hsplit o ho with ⟨p, -, hp⟩ | hscript
    · simp [counts, hp]
    · simp [counts, hscript]

/-- A further output that the judge lets pass: one it does not count, or one that leaves the total in
range and adds nothing to an unlock that locks the vault again. -/
def Harmless (C : Crypto) (vp : VaultParams) (coin : NodeCoin) (outs : List TxOut) (x : TxOut) : Prop :=
  counts coin.script x → AllMatch C vp coin.script [x] ∧ 0 ≤ x.value.toInt ∧
    coin.value.toInt + x.value.toInt < 2 ^ 63 ∧
    (x.value.toInt ≠ 0 → hasRelock coin.script (outs ++ [x]) = false)

/-- A further amount leaves the total at the value or above it. -/
theorem le_i64_add_iff {value x : Int} (hvalue : 0 ≤ value) (hmax : value ≤ maxMoney)
    (hx : FitsI64 x) : value ≤ i64 (value + x) ↔ 0 ≤ x ∧ value + x < 2 ^ 63 := by
  unfold FitsI64 at hx
  unfold maxMoney at hmax
  by_cases hlt : value + x < 2 ^ 63
  · rw [show i64 (value + x) = value + x from FitsI64.bmod_eq ⟨by omega, hlt⟩]
    omega
  · have hwrap : i64 (value + x) = value + x - 2 ^ 64 := by
      rw [i64, ← Int.sub_bmod_right]
      exact FitsI64.bmod_eq ⟨by omega, by omega⟩
    omega

theorem allMatch_append {os os' : List TxOut} {script : Bytes} :
    AllMatch C vp script (os ++ os') ↔ AllMatch C vp script os ∧ AllMatch C vp script os' := by
  unfold AllMatch
  rw [List.forall_mem_append]

/-- An unlock that conserves the vault passes with one more output if and only if that is harmless. -/
theorem validateUnlock_append_iff {outs extra : List TxOut} (hvalue : 0 ≤ coin.value.toInt)
    (hmax : coin.value.toInt ≤ maxMoney) (hall : AllMatch C vp coin.script outs)
    (hpaid : vaultPaid coin.script outs = coin.value.toInt) (hlen : extra.length ≤ 1) :
    validateUnlock C vp coin (outs ++ extra) = .ok () ↔
      ∀ x ∈ extra, Harmless C vp coin outs x := by
  rw [validateUnlock_iff, allMatch_append, vaultPaid_append, hpaid]
  match extra, hlen with
  | [], _ =>
    have hsame : i64 (coin.value.toInt + vaultPaid coin.script []) = coin.value.toInt := by
      rw [show vaultPaid coin.script [] = 0 from rfl, add_zero]
      exact FitsI64.bmod_eq ⟨coin.value.le_toInt, coin.value.toInt_lt⟩
    rw [hsame]
    exact ⟨fun _ ↦ nofun, fun _ ↦ ⟨⟨hall, nofun⟩, le_rfl, fun h ↦ absurd h (lt_irrefl _)⟩⟩
  | [x], _ =>
    rw [List.forall_mem_singleton, Harmless, vaultPaid_cons]
    rw [show vaultPaid coin.script [] = 0 from rfl, add_zero]
    by_cases hcounts : counts coin.script x
    · rw [if_pos hcounts, le_i64_add_iff hvalue hmax ⟨x.value.le_toInt, x.value.toInt_lt⟩]
      have hsame (hx : 0 ≤ x.value.toInt) (hlt : coin.value.toInt + x.value.toInt < 2 ^ 63) :
          i64 (coin.value.toInt + x.value.toInt) = coin.value.toInt + x.value.toInt :=
        FitsI64.bmod_eq ⟨by omega, hlt⟩
      constructor
      · rintro ⟨⟨-, hmatch⟩, ⟨hx, hlt⟩, hrelock⟩ -
        rw [hsame hx hlt] at hrelock
        exact ⟨hmatch, hx, hlt, fun hne ↦ hrelock (by omega)⟩
      · intro h
        obtain ⟨hmatch, hx, hlt, hrelock⟩ := h hcounts
        rw [hsame hx hlt]
        exact ⟨⟨hall, hmatch⟩, ⟨hx, hlt⟩, fun hpos ↦ hrelock (by omega)⟩
    · rw [if_neg hcounts, add_zero, show i64 coin.value.toInt = coin.value.toInt from
        FitsI64.bmod_eq ⟨coin.value.le_toInt, coin.value.toInt_lt⟩]
      refine iff_of_true ⟨⟨hall, ?_⟩, le_rfl, fun h ↦ absurd h (lt_irrefl _)⟩ fun h ↦ absurd h hcounts
      intro o ho ip hparse
      rw [List.mem_singleton.mp ho] at hparse
      exact absurd (by simp [counts, hparse]) hcounts

end Build

/-! ## The transaction of a build -/

section Builds

variable {env : Env} {U : UnlockAnswers} {op : OutPoint} {coin : NodeCoin} {d d' : VaultDesk}

/-- The loop keeps a build if and only if the node still has its template. -/
theorem pruneEach_builds {A : Answers} {l : List (String × Bytes)} {u : Unit} {b : Bytes}
    (h : pruneEach A l d = (.ok u, d')) : d'.builds.get? op.display = some b ↔
      d.builds.get? op.display = some b ∧
        (op.display ∈ l.map Prod.fst → ∃ c, nodeCoin A op = .ok (some c)) := by
  induction l generalizing d with
  | nil =>
    cases h
    simp
  | cons kv l ih =>
    obtain ⟨k, b'⟩ := kv
    obtain ⟨o, ho, h⟩ := Proc.lift_bind_eq_ok.mp h
    obtain ⟨c, hc, h⟩ := Proc.lift_bind_eq_ok.mp h
    rw [List.map_cons, List.mem_cons]
    by_cases hk : op.display = k
    · obtain rfl : o = op := by
        rw [← hk, outpointParam_display] at ho
        exact (Except.ok.inj ho).symm
      cases c with
      | some c =>
        rw [ih h]
        exact and_congr_right fun _ ↦ iff_of_true (fun _ ↦ ⟨c, hc⟩) fun _ ↦ ⟨c, hc⟩
      | none =>
        obtain ⟨_, d₁, hmodify, hrest⟩ := Proc.bind_eq_ok.mp h
        cases hmodify
        rw [ih hrest]
        refine iff_of_false (fun hleft ↦ ?_) fun hright ↦ ?_
        · simp [hk] at hleft
        · obtain ⟨c, hc'⟩ := hright.2 (.inl hk)
          rw [hc] at hc'
          cases hc'
    · rw [or_iff_right hk]
      cases c with
      | some c => exact ih h
      | none =>
        obtain ⟨_, d₁, hmodify, hrest⟩ := Proc.bind_eq_ok.mp h
        cases hmodify
        rw [ih hrest, OrdMap.get?_erase, if_neg (Ne.symm hk)]

theorem pruneBuilds_buildOf {A : Answers} {u : Unit} {c : Transaction}
    (h : pruneBuilds A d = (.ok u, d')) : buildOf d'.builds op = some c ↔
      buildOf d.builds op = some c ∧ ∃ c, nodeCoin A op = .ok (some c) := by
  obtain ⟨d₀, _, hget, h⟩ := Proc.bind_eq_ok.mp h
  cases hget
  simp only [buildOf, Option.bind_eq_some_iff, pruneEach_builds h]
  constructor
  · rintro ⟨b, ⟨hb, hkept⟩, hc⟩
    exact ⟨⟨b, hb, hc⟩, hkept (List.mem_map_of_mem (OrdMap.mem_entries.mpr hb))⟩
  · rintro ⟨⟨b, hb, hc⟩, hkept⟩
    exact ⟨b, ⟨hb, fun _ ↦ hkept⟩, hc⟩

theorem fundChange_p2pkh {fault : Option String} {amount : Int} {p p' : Purse} {change : List Out}
    (h : fundChange env fault amount p = (.ok change, p')) : change.length ≤ 1 ∧
      ∀ o ∈ change, ∃ hash, o.scriptPubkey = p2pkhScript hash := by
  unfold fundChange at h
  split at h
  · obtain ⟨s, p₁, hs, h⟩ := Proc.bind_eq_ok.mp h
    cases h
    refine ⟨le_rfl, fun o ho ↦ ?_⟩
    rw [List.mem_singleton.mp ho]
    exact newChange_p2pkh hs
  · cases h
    exact ⟨Nat.zero_le _, nofun⟩

/-- A new build has its outputs, and change for the wallet. -/
theorem newBuild_eq_ok {outs : List TxOut} {tx : Transaction} {kind : BuildKind}
    (h : newBuild env U op coin outs d = (.ok (tx, kind), d')) : ∃ extra, tx.vout = outs ++ extra ∧
      extra.length ≤ 1 ∧ ∀ x ∈ extra, ∃ hash, x.scriptPubkey = p2pkhScript hash := by
  obtain ⟨tx₁, d₁, htx, h⟩ := Proc.bind_eq_ok.mp h
  cases h
  obtain ⟨⟨vin, outs', chosen⟩, d₂, hfund, htx⟩ := Proc.bind_eq_ok.mp htx
  cases htx
  obtain ⟨p, hfunded, -⟩ := atPurse_eq_ok hfund
  obtain ⟨_, change, _, _, _, _, hchange, _, rfl, _⟩ := fund_eq_ok hfunded
  obtain ⟨hlen, hscripts⟩ := fundChange_p2pkh hchange
  rw [List.drop_left]
  refine ⟨_, rfl, by rwa [List.length_map], fun x hx ↦ ?_⟩
  obtain ⟨o, ho, rfl⟩ := List.mem_map.mp hx
  exact hscripts o ho

/-- A build that is used again has the outputs it had. -/
theorem renewBuild_eq_ok {c tx : Transaction} {kind : BuildKind}
    (h : renewBuild env U op coin c d = (.ok (tx, kind), d')) : tx.vout = c.vout := by
  obtain ⟨d₀, _, hget, h⟩ := Proc.bind_eq_ok.mp h
  cases hget
  obtain ⟨unspent, -, h⟩ := Proc.lift_bind_eq_ok.mp h
  split at h
  · cases h
    rfl
  · obtain ⟨⟨tx', old⟩, d₁, hrefee, h⟩ := Proc.bind_eq_ok.mp h
    cases h
    obtain ⟨templ, extra, coins, d₂, -, -, rfl, -⟩ := refee_eq_ok hrefee
    rfl

theorem reuseBuild_eq_ok {next : Next} {c tx : Transaction} {outs : List TxOut} {kind : BuildKind}
    (h : reuseBuild env U op coin next c outs d = (.ok (tx, kind), d')) :
    tx.vout = outs ++ c.vout.drop outs.length ∧ (c.vout.drop outs.length).length ≤ 1 := by
  unfold reuseBuild at h
  split at h
  · obtain ⟨sighash, -, h⟩ := Proc.lift_bind_eq_ok.mp h
    cases h
  rename_i hserves
  simp only [Bool.not_eq_true, Bool.not_eq_false', servesFor, Bool.and_eq_true,
    decide_eq_true_eq] at hserves
  obtain ⟨⟨-, hlen⟩, hsame⟩ := hserves
  rw [renewBuild_eq_ok h]
  constructor
  · conv_lhs => rw [← List.take_append_drop outs.length c.vout, hsame]
  · rw [List.length_drop]
    omega

/-- The wallet's own change is harmless. -/
theorem Harmless.of_p2pkh {C : Crypto} {vp : VaultParams} {outs : List TxOut} {x : TxOut}
    (hvault : parseVault coin.script = some vp) (hx : ∃ hash, x.scriptPubkey = p2pkhScript hash) :
    Harmless C vp coin outs x := by
  obtain ⟨hash, hx⟩ := hx
  obtain ⟨o, ho, hlen⟩ := length_ops_p2pkh hash
  intro hcounts
  rcases (Bool.or_eq_true _ _).mp hcounts with hintent | hscript
  · rw [hx, parseIntent_eq_none ho (by rw [hlen]; decide)] at hintent
    cases hintent
  · rw [← of_decide_eq_true hscript, hx, parseVault_eq_none ho (by rw [hlen]; decide)] at hvault
    cases hvault

/-- The outputs of the transaction: change is the only further one, unless a build is used again. -/
theorem unlockTx_eq_ok {next : Next} {rebuild : Bool} {memo : Option Transaction} {outs : List TxOut}
    {tx : Transaction} {kind : BuildKind}
    (h : unlockTx env U op coin next rebuild memo outs d = (.ok (tx, kind), d')) :
    ∃ extra, tx.vout = outs ++ extra ∧ extra.length ≤ 1 ∧
      ((memo = none ∨ rebuild = true) ∧ (∀ x ∈ extra, ∃ hash, x.scriptPubkey = p2pkhScript hash) ∨
        rebuild = false ∧ ∃ c, memo = some c ∧ extra = c.vout.drop outs.length) := by
  unfold unlockTx at h
  cases memo with
  | none =>
    obtain ⟨extra, hvout, hlen, hscripts⟩ := newBuild_eq_ok h
    exact ⟨extra, hvout, hlen, .inl ⟨.inl rfl, hscripts⟩⟩
  | some c =>
    cases rebuild with
    | true =>
      obtain ⟨_, d₁, -, h⟩ := Proc.bind_eq_ok.mp h
      obtain ⟨extra, hvout, hlen, hscripts⟩ := newBuild_eq_ok h
      exact ⟨extra, hvout, hlen, .inl ⟨.inr rfl, hscripts⟩⟩
    | false =>
      obtain ⟨hvout, hlen⟩ := reuseBuild_eq_ok h
      exact ⟨_, hvout, hlen, .inr ⟨rfl, c, rfl, rfl⟩⟩

/-- The further output of a remembered build that is used again. -/
def Reused (U : UnlockAnswers) (op : OutPoint) (d : VaultDesk) (rebuild : Bool) (outs : List TxOut)
    (x : TxOut) : Prop :=
  rebuild = false ∧ (∃ coin, nodeCoin U.prune op = .ok (some coin)) ∧
    ∃ c, buildOf d.builds op = some c ∧ x ∈ c.vout.drop outs.length

section Unlock

variable {recipientParam : Json → Except RpcError Bytes}
variable {amountParam : Json → Except RpcError Int64} {recipients : Json} {rebuild : Bool}

/-- What `vault_buildunlock` made: the outputs of `add_intents` and at most one more, which is
harmless unless a remembered build brought a harmful one. -/
theorem vaultBuildunlock_eq_ok {r : UnlockBuild}
    (h : vaultBuildunlock env U op recipientParam amountParam recipients rebuild d = (.ok r, d')) :
    ∃ next coin vp extra, U.active = .ok next ∧ U.coin = .ok (some coin) ∧
      parseVault coin.script = some vp ∧
      addIntents env.C recipientParam amountParam vp coin recipients = .ok r.outs ∧
      r.tx.vout = r.outs ++ extra ∧ extra.length ≤ 1 ∧
      ((∀ x ∈ extra, Harmless env.C vp coin r.outs x) ↔
        ∀ x, Reused U op d rebuild r.outs x → Harmless env.C vp coin r.outs x) := by
  obtain ⟨next, hnext, h⟩ := Proc.lift_bind_eq_ok.mp h
  obtain ⟨coin, hcoin, h⟩ := Proc.lift_bind_eq_ok.mp h
  cases coin with
  | none => cases h
  | some coin =>
    dsimp only at h
    cases hvault : parseVault coin.script with
    | none =>
      rw [hvault] at h
      cases h
    | some vp =>
      rw [hvault] at h
      obtain ⟨_, d₁, hprune, h⟩ := Proc.bind_eq_ok.mp h
      obtain ⟨outs, houts, h⟩ := Proc.lift_bind_eq_ok.mp h
      obtain ⟨d₂, _, hget, h⟩ := Proc.bind_eq_ok.mp h
      cases hget
      obtain ⟨⟨tx, kind⟩, d₃, htx, h⟩ := Proc.bind_eq_ok.mp h
      obtain ⟨_, d₄, -, h⟩ := Proc.bind_eq_ok.mp h
      obtain ⟨required, -, h⟩ := Proc.lift_bind_eq_ok.mp h
      obtain ⟨sighash, -, h⟩ := Proc.lift_bind_eq_ok.mp h
      obtain ⟨bytes, -, h⟩ := Proc.lift_bind_eq_ok.mp h
      cases h
      obtain ⟨extra, hvout, hlen, hextra⟩ := unlockTx_eq_ok htx
      refine ⟨next, coin, vp, extra, hnext, hcoin, hvault, houts, hvout, hlen, ?_⟩
      rcases hextra with ⟨hnew, hscripts⟩ | ⟨hrebuild, c, hc, rfl⟩
      · refine iff_of_true (fun x hx ↦ .of_p2pkh hvault (hscripts x hx)) ?_
        rintro x ⟨hrebuild, hkept, c, hc, -⟩
        rcases hnew with hnone | htrue
        · rw [(pruneBuilds_buildOf hprune).mpr ⟨hc, hkept⟩] at hnone
          cases hnone
        · rw [hrebuild] at htrue
          cases htrue
      · obtain ⟨hc, hkept⟩ := (pruneBuilds_buildOf hprune).mp hc
        constructor
        · rintro hall x ⟨-, -, c', hc', hx⟩
          cases hc.symm.trans hc'
          exact hall x hx
        · intro hall x hx
          exact hall x ⟨hrebuild, hkept, c, hc, hx⟩

end Unlock

end Builds

/-- **Unlocks conserve the vault.**  The intents of an unlock that `vault_buildunlock` makes parse as
those of the vault for their payees, and what stands behind them is the vault's own script.  They pay
the vault's value together, and the transaction passes the judge, if and only if no sum of the amounts
leaves the 64-bit range and a remembered build that is used again has no harmful further output.  An
unlock that the judge accepts has matching intents alone; it pays the vault's value at least, and exactly
where it locks the vault again, if and only if what it pays is not below the 64-bit range, nor above it
where it locks the vault again. -/
theorem unlock_conserves_iff (env : Env) (U : UnlockAnswers) (op : OutPoint)
    (recipientParam : Json → Except RpcError Bytes) (amountParam : Json → Except RpcError Int64)
    (recipients : Json) (rebuild : Bool) (d : VaultDesk)
    (hmoney : ∀ coin, U.coin = .ok (some coin) →
      0 ≤ coin.value.toInt ∧ coin.value.toInt ≤ maxMoney) :
    (∀ r d', vaultBuildunlock env U op recipientParam amountParam recipients rebuild d = (.ok r, d') →
      ∃ next coin vp rs pays, U.active = .ok next ∧ U.coin = .ok (some coin) ∧
        parseVault coin.script = some vp ∧ recipients = .arr rs ∧
        List.Forall₂ (Payout.Read recipientParam amountParam) rs pays ∧
        List.Forall₂ (Payout.Paid env.C vp coin.script) (r.outs.take pays.length) pays ∧
        r.outs.length ≤ pays.length + 1 ∧
        (∀ o ∈ r.outs.drop pays.length, o.scriptPubkey = coin.script) ∧
        (outsTotal r.outs = coin.value.toInt ∧
            validateSetSpend env.C r.tx ⟨0, coin, some vp, none⟩ 1 next = .ok () ↔
          NoWrap coin.value.toInt (amounts pays) ∧
            ∀ x, Reused U op d rebuild r.outs x → Harmless env.C vp coin r.outs x)) ∧
      ∀ tx t vp next, t.vault = some vp → validateSetSpend env.C tx t 1 next = .ok () →
        AllMatch env.C vp t.coin.script tx.vout ∧
        (t.coin.value.toInt ≤ vaultPaid t.coin.script tx.vout ∧ (hasRelock t.coin.script tx.vout →
            vaultPaid t.coin.script tx.vout = t.coin.value.toInt) ↔
          -2 ^ 63 ≤ vaultPaid t.coin.script tx.vout ∧
            (hasRelock t.coin.script tx.vout → FitsI64 (vaultPaid t.coin.script tx.vout))) := by
  constructor
  · intro r d' h
    obtain ⟨next, coin, vp, extra, hnext, hcoin, hvault, houts, hvout, hlen, hharmless⟩ :=
      vaultBuildunlock_eq_ok h
    obtain ⟨hvalue, hmax⟩ := hmoney coin hcoin
    obtain ⟨rs, pays, hrs, hread, hintents⟩ := addIntents_eq_ok houts hvalue
    obtain ⟨hall, hpaid⟩ := hintents.judged hvault
    refine ⟨next, coin, vp, rs, pays, hnext, hcoin, hvault, hrs, hread, hintents.paid,
      hintents.relock.1, hintents.relock.2, ?_⟩
    rw [← hintents.conserves, ← hharmless]
    refine and_congr_right fun htotal ↦ ?_
    rw [show validateSetSpend env.C r.tx ⟨0, coin, some vp, none⟩ 1 next =
      validateUnlock env.C vp coin r.tx.vout from rfl, hvout]
    exact validateUnlock_append_iff hvalue hmax hall (hpaid.trans htotal) hlen
  · intro tx t vp next hvault h
    have h' : validateUnlock env.C vp t.coin tx.vout = .ok () := by
      unfold validateSetSpend at h
      rwa [hvault] at h
    exact ⟨(validateUnlock_iff.mp h').1, pays_iff h'⟩

/-! ### A total that wraps -/

/-- A vault, and its script. -/
def plainVault : VaultParams :=
  ⟨List.Vector.replicate 4 0, List.Vector.replicate 32 1, 1, List.Vector.replicate 32 2, 1,
    ⟨1, List.Vector.replicate 32 0⟩, 0⟩

@[inherit_doc plainVault]
def plainSpk : Bytes := (buildVault plainVault).getD []

/-- It is worth 70,000. -/
def plainCoin : NodeCoin := ⟨70000, plainSpk, some 1, false⟩

/-- The node has the vault, and nothing fails. -/
def plainUnlock : UnlockAnswers where
  active := .ok ⟨2, 0⟩
  coin := .ok (some plainCoin)
  prune := payAnswers none
  coins := payAnswers none
  signedPrevout := false
  refee := paidRefee
  changeFault := none
  required := .ok 1

/-- An intent of the vault. -/
def plainIntent : Bytes := (buildIntent (intentFor payEnv.C plainVault plainSpk [])).getD []

/-- `recipient_param` for a recipient that is given by its script. -/
def scriptRecipient (o : Json) : Except RpcError Bytes :=
  match ((member o "script").bind Json.str?).bind Hex.decode with
  | some b => .ok b
  | none => .error ⟨-8, "script must be hexadecimal"⟩

/-- Two payees, of 20,000 and 30,000. -/
def plainRecipients : Json :=
  .arr [.obj [("script", .str "51"), ("amount", .num "0.0002".toList)],
    .obj [("script", .str "52"), ("amount", .num "0.0003".toList)]]

/-- The vault that is unlocked. -/
def plainOutpoint : OutPoint := ⟨List.Vector.replicate 32 7, 0⟩

/-- The unlock for the two payees. -/
def plainBuild (d : VaultDesk) : Except RpcError UnlockBuild × VaultDesk :=
  vaultBuildunlock payEnv plainUnlock plainOutpoint scriptRecipient
    (fun v ↦ (amountParam v).map Int64.ofInt) plainRecipients false d

theorem eq_ok_of_toOption {α β : Type} {x : Except RpcError α × β} {a : α}
    (h : x.1.toOption = some a) : x = (.ok a, x.2) := by
  obtain ⟨e | b, d⟩ := x
  · cases h
  · cases h
    rfl

/-- The unlock is built with two intents, a re-lock and the change of its fee; asked for again, the
build that was remembered is used. -/
theorem unlock_conserves_payouts : ∃ r d' r' d'', plainBuild paidDesk = (.ok r, d') ∧
      plainBuild d' = (.ok r', d'') ∧
      (∀ b ∈ [r, r'], b.outs.length = 3 ∧ b.tx.vout.length = 4 ∧ outsTotal b.outs = 70000 ∧
        ∃ vp next, validateSetSpend payEnv.C b.tx ⟨0, plainCoin, some vp, none⟩ 1 next = .ok ()) ∧
      (buildOf d'.builds plainOutpoint).isSome := by
  -- what the two runs come to is evaluated, what they conserve is not
  obtain ⟨hfirst, hsecond, hmemo⟩ : (plainBuild paidDesk).1.toOption.map
        (fun r ↦ (r.outs.length, r.tx.vout.length)) = some (3, 4) ∧
      (plainBuild (plainBuild paidDesk).2).1.toOption.map
        (fun r ↦ (r.outs.length, r.tx.vout.length)) = some (3, 4) ∧
      (buildOf (plainBuild paidDesk).2.builds plainOutpoint).isSome ∧
      ∀ c ∈ buildOf (plainBuild paidDesk).2.builds plainOutpoint,
        ∀ x ∈ c.vout.drop 3, counts plainSpk x = false := by decide +kernel
  have hpays : ∀ rs pays, plainRecipients = .arr rs →
      List.Forall₂ (Payout.Read scriptRecipient fun v ↦ (amountParam v).map Int64.ofInt) rs pays →
      amounts pays = [20000, 30000] := by
    intro rs pays hrs hread
    cases hrs
    obtain _ | ⟨⟨-, h₁⟩, _ | ⟨⟨-, h₂⟩, _ | _⟩⟩ := hread
    rw [amounts, List.map_cons, List.map_cons, List.map_nil]
    have e₁ := congrArg (Option.map Int64.toInt ∘ Except.toOption) h₁
    have e₂ := congrArg (Option.map Int64.toInt ∘ Except.toOption) h₂
    rw [← Option.some.inj e₁, ← Option.some.inj e₂]
    decide +kernel
  have hbuilt {d d₁ : VaultDesk} {b : UnlockBuild} (hx : plainBuild d = (.ok b, d₁))
      (hreused : ∀ x, Reused plainUnlock plainOutpoint d false b.outs x → counts plainSpk x = false) :
      outsTotal b.outs = 70000 ∧
        ∃ vp next, validateSetSpend payEnv.C b.tx ⟨0, plainCoin, some vp, none⟩ 1 next = .ok () := by
    have hmoney : ∀ coin, plainUnlock.coin = .ok (some coin) →
        0 ≤ coin.value.toInt ∧ coin.value.toInt ≤ maxMoney := by
      intro coin hcoin
      cases hcoin
      decide
    obtain ⟨next, coin, vp, rs, pays, -, hcoin, -, hrs, hread, -, -, -, hiff⟩ :=
      (unlock_conserves_iff payEnv plainUnlock plainOutpoint scriptRecipient
        (fun v ↦ (amountParam v).map Int64.ofInt) plainRecipients false d hmoney).1 b d₁ hx
    cases hcoin
    have hamounts := hpays rs pays hrs hread
    have hnowrap : NoWrap plainCoin.value.toInt (amounts pays) := by
      rw [hamounts]
      refine ⟨fun n ↦ ?_, by decide⟩
      match n with
      | 0 | 1 | n + 2 => simp
    obtain ⟨htotal, hpasses⟩ := hiff.mpr ⟨hnowrap, fun x hx hcounts ↦ by
      rw [show plainCoin.script = plainSpk from rfl, hreused x hx] at hcounts
      cases hcounts⟩
    exact ⟨htotal, vp, next, hpasses⟩
  obtain ⟨r, hr, hlen⟩ := Option.map_eq_some_iff.mp hfirst
  obtain ⟨r', hr', hlen'⟩ := Option.map_eq_some_iff.mp hsecond
  have hx := eq_ok_of_toOption hr
  have hx' := eq_ok_of_toOption hr'
  obtain ⟨houts, hvout⟩ := Prod.mk.inj hlen
  obtain ⟨houts', hvout'⟩ := Prod.mk.inj hlen'
  refine ⟨r, _, r', _, hx, hx', ?_, hmemo.1⟩
  intro b hb
  rcases List.mem_pair.mp hb with rfl | rfl
  · refine ⟨houts, hvout, hbuilt hx ?_⟩
    rintro x ⟨-, -, c, hc, -⟩
    cases hc
  · refine ⟨houts', hvout', hbuilt hx' ?_⟩
    rintro x ⟨-, -, c, hc, hmem⟩
    rw [houts'] at hmem
    exact hmemo.2 c hc x hmem

/-- Intents of 2^64 + 70,000 together pass for 70,000, beside a re-lock. -/
theorem not_unlock_conserves : ∃ tx t vp next, parseVault t.coin.script = some vp ∧
    t.vault = some vp ∧ validateSetSpend payEnv.C tx t 1 next = .ok () ∧
    hasRelock t.coin.script tx.vout ∧ vaultPaid t.coin.script tx.vout ≠ t.coin.value.toInt :=
  ⟨newTx [newTxIn ⟨List.Vector.replicate 32 7, 0⟩] [⟨.maxValue, plainIntent⟩, ⟨.maxValue, plainIntent⟩,
      ⟨70002, plainIntent⟩, ⟨0, plainSpk⟩],
    ⟨0, plainCoin, some plainVault, none⟩, plainVault, ⟨2, 0⟩, by decide +kernel, rfl,
    by decide +kernel, by decide +kernel, by decide +kernel⟩

end Yew.Daemon
