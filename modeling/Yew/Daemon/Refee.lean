import Yew.Core.Sighash
import Yew.Daemon.Handoff

/-!
# Paying a new fee

A vault spend that set members have signed may wait so long that the coins for its fee are gone.
Their signatures cover one input and all outputs, not the other inputs; so `refee` puts one new coin
of the right value in the place of the others.  Coins are locked while a build uses them.

Only an exact coin will do, because the outputs are signed: so the coin is split off first, by a
payment to the wallet itself.

## Source

* `yewd/wallet/src/vaultrpc.rs`: `sighash_set`, `Wallet::sign_send`, `Wallet::exact_coin`,
  `Wallet::refee`
* `yewd/wallet/src/build.rs`: `Wallet::unlock_coin`, `Wallet::is_locked`
* `yewd/wallet/src/keys.rs`: `KeyBook::new`
* `yewd/wallet/src/sapling.rs`: `Viewing::new`
* `yewd/wallet/src/state.rs`: `State::new`
-/

namespace Yew.Daemon

open Script Tx Pq Proto Proc Build

/-! ## Coins and locks -/

/-- `unlock_coin`. -/
def Purse.unlockCoin (p : Purse) (o : OutPoint) : Purse :=
  { p with locks := p.locks.erase o.display }

/-- `is_locked`. -/
def Purse.isLocked (p : Purse) (o : OutPoint) : Bool := (p.locks.get? o.display).isSome

/-- The coins of a list are locked. -/
def Purse.lockCoins (p : Purse) (ops : List OutPoint) : Purse := ops.foldl Purse.lockCoin p

/-- The coins of a list are unlocked. -/
def Purse.unlockCoins (p : Purse) (ops : List OutPoint) : Purse := ops.foldl Purse.unlockCoin p

/-- A transaction that the node took, by its inputs and outputs. -/
structure Sent where
  vin : List OutPoint
  outs : List Out

/-- The purse, the remembered builds, and what the node took, the latest first. -/
structure VaultDesk where
  purse : Purse
  builds : Builds
  accepted : List Sent

section Calls

variable {σ ε α : Type}

/-- A call on the purse. -/
def atPurse (x : Proc Purse ε α) : Proc VaultDesk ε α := fun d ↦
  let (r, p) := x d.purse
  (r, { d with purse := p })

/-- A part of a call that may fail. -/
def reached (fault : Option ε) : Proc σ ε Unit :=
  match fault with
  | some e => throw e
  | none => pure ()

/-- A part of a call that is undone where it fails. -/
def undoing (undo : σ → σ) (x : Proc σ ε α) : Proc σ ε α := fun s ↦
  match x s with
  | (.ok a, s') => (.ok a, s')
  | (.error e, s') => (.error e, undo s')

end Calls

/-- `VAULT_RPC_FEE`. -/
def vaultRpcFee : Int := 10000

/-- `MAX_MONEY`. -/
def maxMoney : Int := 2100000000000000

/-- How a one-shot build is signed and sent: what fails before the node is asked, what the node
replies, and what fails after that. -/
structure SendAnswers where
  fault : Option RpcError
  reply : Except RpcError String
  syncFault : Option RpcError

/-- `sign_send`. -/
def signSend (S : SendAnswers) (t : Sent) : Proc VaultDesk RpcError String := do
  reached S.fault
  let txid ← lift S.reply
  modify fun d ↦ { d with accepted := t :: d.accepted }
  reached S.syncFault
  return txid

/-- The answers that `exact_coin` gets. -/
structure ExactAnswers where
  coins : Answers
  keyFault : Option String
  funding : Answers
  changeFault : Option String
  nextFault : Option RpcError
  send : SendAnswers

section Refee

variable (env : Env)

/-- `exact_coin`: a coin of the value, or one made by a payment to a new key. -/
def exactCoin (X : ExactAnswers) (value : Int) (avoid : List OutPoint) :
    Proc VaultDesk RpcError OutPoint := do
  let d ← get
  let eligible ← lift (d.purse.eligible X.coins 0 avoid)
  match eligible.reverse.find? fun c ↦ value ≤ c.value ∧ c.value < value + vaultRpcMinChange with
  | some c =>
    modify fun d ↦ { d with purse := d.purse.lockCoin c.outpoint }
    return c.outpoint
  | none =>
    let k ← atPurse (newWalletKey env X.keyFault)
    let (vin, outs, _) ← atPurse (fund env X.funding X.changeFault []
      [⟨value, p2pkhScript (env.C.hash160 k.toList)⟩] 0 vaultRpcFee .largestFirst)
    reached X.nextFault
    let txid ← signSend X.send ⟨vin, outs⟩
    let op ← lift (readOutpoint (txid, 0))
    modify fun d ↦ { d with purse := d.purse.lockCoin op }
    return op

/-- `sighash_set`. -/
def sighashSet (C : Crypto) (tx : Transaction) (idx : Nat) (coin : NodeCoin) (branch : UInt32) :
    Except RpcError (Arr 32) :=
  (tx.sighash C idx coin.script coin.value (sighashAll ||| anyonecanpay) branch).mapError
    fun e ↦ ⟨-32603, e.text⟩

/-- `TxIn::new`. -/
def newTxIn (op : OutPoint) : TxIn := ⟨op, [], sequenceFinal⟩

/-- The value of a signed 64-bit word after it wrapped. -/
def i64 (n : Int) : Int := n.bmod (2 ^ 64)

/-- What the outputs of a transaction pay together. -/
def voutTotal (tx : Transaction) : Int := (tx.vout.map fun o ↦ o.value.toInt).sum

/-- The answers that `refee` gets: `node_coin` of the new input, after it was chosen, and the fee
cap. -/
structure RefeeAnswers where
  next : Except RpcError Next
  exact : ExactAnswers
  recheck : OutPoint → Except RpcError (Option NodeCoin)
  cap : Int64

/-- The coin in the place of the other inputs, where one is needed. -/
def newFeeCoin (X : ExactAnswers) (needed : Int) (avoid : List OutPoint) :
    Proc VaultDesk RpcError (List OutPoint) :=
  if 0 < needed then do
    let op ← exactCoin env X needed avoid
    return [op]
  else return []

/-- The value of the new input, if the node still has it and it is not one of the old ones. -/
def recheckCoins (F : RefeeAnswers) (old : List OutPoint) (undo : VaultDesk → VaultDesk) :
    List OutPoint → Proc VaultDesk RpcError Int
  | [] => return 0
  | op :: ops => do
    match ← lift (F.recheck op) with
    | some c =>
      if op ∈ old then
        undoing undo (throw ⟨-4, "vault_refee: the new fee input " ++ op.display ++
          " is spent or is a replaced input; nothing was changed"⟩)
      else
        let rest ← recheckCoins F old undo ops
        return c.value.toInt + rest
    | none =>
      undoing undo (throw ⟨-4, "vault_refee: the new fee input " ++ op.display ++
        " is spent or is a replaced input; nothing was changed"⟩)

/-- `refee`: the transaction with its new inputs, and the inputs that were replaced. -/
def refee (F : RefeeAnswers) (tx : Transaction) (idx : Nat) (coin : NodeCoin) :
    Proc VaultDesk RpcError (Transaction × List OutPoint) := do
  let next ← lift F.next
  let before ← lift (sighashSet env.C tx idx coin next.branch)
  match tx.vin[idx]? with
  -- `sighash` has refused the index
  | none => throw ⟨-32603, ""⟩
  | some templ =>
    let old := (tx.vin.eraseIdx idx).map TxIn.prevout
    let d ← get
    let released := old.filter d.purse.isLocked
    modify fun d ↦ { d with purse := d.purse.unlockCoins released }
    let relock (d : VaultDesk) : VaultDesk := { d with purse := d.purse.lockCoins released }
    let needed := i64 (voutTotal tx + vaultRpcFee - coin.value.toInt)
    let extra ← undoing relock (newFeeCoin env F.exact needed (templ.prevout :: old))
    let tx' := { tx with vin := templ :: extra.map newTxIn }
    let after ← lift (sighashSet env.C tx' 0 coin next.branch)
    if after ≠ before then throw ⟨-32603, "re-funding changed the set sighash"⟩
    else
      -- `unlock_build_inputs`, and the released coins locked again
      let undo (d : VaultDesk) : VaultDesk := relock { d with
        purse := d.purse.unlockCoins (extra.filter (· ≠ templ.prevout)) }
      let input ← recheckCoins F old undo extra
      let fee := i64 (coin.value.toInt + input - voutTotal tx)
      if fee ≤ 0 ∨ F.cap.toInt < fee then
        undoing undo (throw ⟨-4, "vault_refee: the re-funded spend would pay a fee of " ++
          money fee ++ " (allowed: above 0, at most " ++ money F.cap.toInt ++ "); nothing was changed"⟩)
      else
        modify fun d ↦ { d with
          purse := d.purse.unlockCoins (old.filter (· ∉ templ.prevout :: extra)) }
        return (tx', old)

end Refee

/-! ## How the parts end -/

section Ends

variable {env : Env} {σ ε α : Type}

theorem reached_eq_ok {fault : Option ε} {s s' : σ} {u : Unit}
    (h : reached fault s = (.ok u, s')) : fault = none ∧ s = s' := by
  cases fault with
  | some e => cases h
  | none =>
    cases h
    exact ⟨rfl, rfl⟩

theorem undoing_eq_ok {undo : σ → σ} {x : Proc σ ε α} {s s' : σ} {a : α} :
    undoing undo x s = (.ok a, s') ↔ x s = (.ok a, s') := by
  unfold undoing
  constructor
  · intro h
    split at h
    · rename_i hx
      rw [hx]
      exact h
    · cases h
  · intro h
    rw [h]

theorem atPurse_eq_ok {x : Proc Purse ε α} {d d' : VaultDesk} {a : α}
    (h : atPurse x d = (.ok a, d')) :
    ∃ p, x d.purse = (.ok a, p) ∧ d' = { d with purse := p } := by
  obtain ⟨hr, hd⟩ := Prod.mk.inj h
  exact ⟨(x d.purse).2, Prod.ext hr rfl, hd.symm⟩

/-- What `fund` did. -/
theorem fund_eq_ok {A : Answers} {fault : Option String} {vin vin' : List OutPoint}
    {outs outs' : List Out} {inputValue fee : Int} {mode : FundMode} {chosen : List Chosen}
    {p p' : Purse}
    (h : fund env A fault vin outs inputValue fee mode p = (.ok (vin', outs', chosen), p')) :
    ∃ eligible change p₁, p.eligible A 0 vin = .ok eligible ∧
      chosen = fundChoice mode (paid outs + fee - inputValue) eligible ∧
      paid outs + fee - inputValue ≤ worth chosen ∧
      fundChange env fault (worth chosen - (paid outs + fee - inputValue)) p = (.ok change, p₁) ∧
      vin' = vin ++ chosen.map Chosen.outpoint ∧ outs' = outs ++ change ∧
      p' = p₁.lockCoins (chosen.map Chosen.outpoint) := by
  obtain ⟨p₀, _, hget, h⟩ := Proc.bind_eq_ok.mp h
  cases hget
  obtain ⟨eligible, heligible, h⟩ := Proc.lift_bind_eq_ok.mp h
  obtain ⟨henough, h⟩ := Proc.guard_eq_ok.mp h
  obtain ⟨change, p₁, hchange, h⟩ := Proc.bind_eq_ok.mp h
  obtain ⟨_, p₂, hlock, h⟩ := Proc.bind_eq_ok.mp h
  cases hlock
  cases h
  refine ⟨eligible, change, p₁, heligible, rfl, not_lt.mp henough, hchange, rfl, rfl, ?_⟩
  rw [Purse.lockCoins, List.foldl_map]

theorem signSend_eq_ok {S : SendAnswers} {t : Sent} {d d' : VaultDesk} {txid : String}
    (h : signSend S t d = (.ok txid, d')) :
    S.reply = .ok txid ∧ d' = { d with accepted := t :: d.accepted } := by
  obtain ⟨_, d₁, hfault, h⟩ := Proc.bind_eq_ok.mp h
  obtain ⟨-, rfl⟩ := reached_eq_ok hfault
  obtain ⟨txid', hreply, h⟩ := Proc.lift_bind_eq_ok.mp h
  obtain ⟨_, d₂, hmodify, h⟩ := Proc.bind_eq_ok.mp h
  cases hmodify
  obtain ⟨_, d₃, hsync, h⟩ := Proc.bind_eq_ok.mp h
  obtain ⟨-, rfl⟩ := reached_eq_ok hsync
  cases h
  exact ⟨hreply, rfl⟩

/-- A coin of the wallet: one it has, or one that a payment to a key it has just issued made. -/
def WalletCoin (env : Env) (X : ExactAnswers) (d d' : VaultDesk) (op : OutPoint) : Prop :=
  (∃ c ∈ d.purse.wallet.coins, readOutpoint c.at = .ok op) ∨
    ∃ k p p' value txid, p.wallet = d.purse.wallet ∧
      newWalletKey env X.keyFault p = (.ok k, p') ∧ X.send.reply = .ok txid ∧
      readOutpoint (txid, 0) = .ok op ∧ ∃ t ∈ d'.accepted,
        t.outs.head? = some ⟨value, p2pkhScript (env.C.hash160 k.toList)⟩

/-- What `exact_coin` found or made. -/
theorem exactCoin_eq_ok {X : ExactAnswers} {value : Int} {avoid : List OutPoint}
    {d d' : VaultDesk} {op : OutPoint} (h : exactCoin env X value avoid d = (.ok op, d')) :
    WalletCoin env X d d' op ∧ (op ∉ avoid ∨
      ∃ txid, X.send.reply = .ok txid ∧ readOutpoint (txid, 0) = .ok op) := by
  obtain ⟨d₀, _, hget, h⟩ := Proc.bind_eq_ok.mp h
  cases hget
  obtain ⟨eligible, heligible, h⟩ := Proc.lift_bind_eq_ok.mp h
  generalize hfound : List.find? _ eligible.reverse = found at h
  cases found with
  | some c =>
    obtain ⟨_, d₁, hmodify, h⟩ := Proc.bind_eq_ok.mp h
    cases hmodify
    cases h
    obtain ⟨cs, hcs, heligible⟩ := Result.bind_eq_ok.mp heligible
    cases heligible
    have hmem := List.mem_reverse.mp (List.mem_of_find?_eq_some hfound)
    obtain ⟨coin, hcoin, hread, hnot⟩ :=
      mem_confirmedCoins hcs ((List.mem_insertionSort _).mp hmem)
    exact ⟨.inl ⟨coin, (mem_candidates hcoin).1, hread⟩, .inl hnot⟩
  | none =>
    obtain ⟨k, d₁, hk, h⟩ := Proc.bind_eq_ok.mp h
    obtain ⟨p₁, hissued, rfl⟩ := atPurse_eq_ok hk
    obtain ⟨⟨vin, outs, chosen⟩, d₂, hfund, h⟩ := Proc.bind_eq_ok.mp h
    obtain ⟨p₂, hfunded, rfl⟩ := atPurse_eq_ok hfund
    obtain ⟨-, change, -, -, -, -, -, -, rfl, -⟩ := fund_eq_ok hfunded
    obtain ⟨_, d₃, hnext, h⟩ := Proc.bind_eq_ok.mp h
    obtain ⟨-, rfl⟩ := reached_eq_ok hnext
    obtain ⟨txid, d₄, hsend, h⟩ := Proc.bind_eq_ok.mp h
    obtain ⟨hreply, rfl⟩ := signSend_eq_ok hsend
    obtain ⟨op', hop, h⟩ := Proc.lift_bind_eq_ok.mp h
    obtain ⟨_, d₅, hmodify, h⟩ := Proc.bind_eq_ok.mp h
    cases hmodify
    cases h
    exact ⟨.inr ⟨k, _, p₁, value, txid, rfl, hissued, hreply, hop, _, List.mem_cons_self, rfl⟩,
      .inr ⟨txid, hreply, hop⟩⟩

theorem newFeeCoin_eq_ok {X : ExactAnswers} {needed : Int} {avoid extra : List OutPoint}
    {d d' : VaultDesk} (h : newFeeCoin env X needed avoid d = (.ok extra, d')) :
    extra.length ≤ 1 ∧ ∀ op ∈ extra, WalletCoin env X d d' op ∧ (op ∉ avoid ∨
      ∃ txid, X.send.reply = .ok txid ∧ readOutpoint (txid, 0) = .ok op) := by
  unfold newFeeCoin at h
  split at h
  · obtain ⟨op, d₁, hop, h⟩ := Proc.bind_eq_ok.mp h
    cases h
    refine ⟨le_rfl, fun op' hop' ↦ ?_⟩
    rw [List.mem_singleton.mp hop']
    exact exactCoin_eq_ok hop
  · cases h
    exact ⟨Nat.zero_le _, nofun⟩

/-- What was read of the new inputs: none is an old one, and together they are worth this. -/
theorem recheckCoins_eq_ok {F : RefeeAnswers} {old extra : List OutPoint}
    {undo : VaultDesk → VaultDesk} {d d' : VaultDesk} {input : Int}
    (h : recheckCoins F old undo extra d = (.ok input, d')) : d = d' ∧ ∃ coins,
      List.Forall₂ (fun op c ↦ op ∉ old ∧ F.recheck op = .ok (some c)) extra coins ∧
      input = (coins.map fun c ↦ c.value.toInt).sum := by
  induction extra generalizing input d' with
  | nil =>
    cases h
    exact ⟨rfl, [], .nil, rfl⟩
  | cons op ops ih =>
    obtain ⟨c, hc, h⟩ := Proc.lift_bind_eq_ok.mp h
    cases c with
    | none => cases undoing_eq_ok.mp h
    | some c =>
      dsimp only at h
      split at h
      · cases undoing_eq_ok.mp h
      rename_i hold
      obtain ⟨rest, d₁, hrest, h⟩ := Proc.bind_eq_ok.mp h
      cases h
      obtain ⟨rfl, coins, hcoins, rfl⟩ := ih hrest
      exact ⟨rfl, c :: coins, .cons ⟨hold, hc⟩ hcoins, by rw [List.map_cons, List.sum_cons]⟩

end Ends

/-! ## What `refee` keeps -/

section Keeps

variable {env : Env} {F : RefeeAnswers} {tx tx' : Transaction} {idx : Nat} {coin : NodeCoin}
variable {d d' : VaultDesk} {replaced : List OutPoint}

/-- What a `refee` that succeeds did. -/
theorem refee_eq_ok (h : refee env F tx idx coin d = (.ok (tx', replaced), d')) :
    ∃ templ extra coins d₂,
      let old := (tx.vin.eraseIdx idx).map TxIn.prevout
      let d₁ : VaultDesk := { d with
        purse := d.purse.unlockCoins (old.filter d.purse.isLocked) }
      tx.vin[idx]? = some templ ∧
      newFeeCoin env F.exact (i64 (voutTotal tx + vaultRpcFee - coin.value.toInt))
        (templ.prevout :: old) d₁ = (.ok extra, d₂) ∧
      tx' = { tx with vin := templ :: extra.map newTxIn } ∧
      List.Forall₂ (fun op c ↦ op ∉ old ∧ F.recheck op = .ok (some c)) extra coins ∧
      let fee := i64 (coin.value.toInt + (coins.map fun c ↦ c.value.toInt).sum - voutTotal tx)
      0 < fee ∧ fee ≤ F.cap.toInt ∧ replaced = old ∧
      d' = { d₂ with purse := d₂.purse.unlockCoins (old.filter (· ∉ templ.prevout :: extra)) } := by
  obtain ⟨next, -, h⟩ := Proc.lift_bind_eq_ok.mp h
  obtain ⟨before, -, h⟩ := Proc.lift_bind_eq_ok.mp h
  generalize hvin : tx.vin[idx]? = templ at h
  cases templ with
  | none => cases h
  | some templ =>
    obtain ⟨d₀, _, hget, h⟩ := Proc.bind_eq_ok.mp h
    cases hget
    obtain ⟨_, d₁, hunlock, h⟩ := Proc.bind_eq_ok.mp h
    cases hunlock
    obtain ⟨extra, d₂, hextra, h⟩ := Proc.bind_eq_ok.mp h
    obtain ⟨after, -, h⟩ := Proc.lift_bind_eq_ok.mp h
    obtain ⟨-, h⟩ := Proc.guard_eq_ok.mp h
    obtain ⟨input, d₃, hinput, h⟩ := Proc.bind_eq_ok.mp h
    obtain ⟨rfl, coins, hcoins, rfl⟩ := recheckCoins_eq_ok hinput
    dsimp only at h
    split at h
    · cases undoing_eq_ok.mp h
    rename_i hfee
    rw [not_or, not_le, not_lt] at hfee
    obtain ⟨_, d₄, hmodify, h⟩ := Proc.bind_eq_ok.mp h
    cases hmodify
    cases h
    exact ⟨templ, extra, coins, d₂, rfl, undoing_eq_ok.mp hextra, rfl, hcoins, hfee.1, hfee.2, rfl,
      rfl⟩

theorem Purse.wallet_unlockCoins (p : Purse) (ops : List OutPoint) :
    (p.unlockCoins ops).wallet = p.wallet := by
  induction ops generalizing p with
  | nil => rfl
  | cons op ops ih => exact ih (p.unlockCoin op)

/-- A wrapped fee that is in range is the true one if and only if the outputs' total did not wrap. -/
theorem fee_iff {value input total cap : Int} (hvalue : 0 ≤ value ∧ value ≤ maxMoney)
    (hinput : 0 ≤ input ∧ input ≤ maxMoney) (hcap : cap < 2 ^ 63)
    (hpos : 0 < i64 (value + input - total)) (hle : i64 (value + input - total) ≤ cap) :
    0 < value + input - total ∧ value + input - total ≤ cap ↔ FitsI64 total := by
  unfold FitsI64
  rw [maxMoney] at hvalue hinput
  constructor
  · omega
  · intro htotal
    have hfits : value + input - total < 2 ^ 63 := by
      by_contra hlarge
      have hwrap : i64 (value + input - total) = value + input - total - 2 ^ 64 := by
        unfold i64 Int.bmod
        rw [Int.emod_eq_of_lt (by omega) (by norm_num; omega), if_neg (by norm_num; omega)]
        rfl
      omega
    have htrue : i64 (value + input - total) = value + input - total :=
      FitsI64.bmod_eq ⟨by omega, hfits⟩
    rw [htrue] at hpos hle
    exact ⟨hpos, hle⟩

/-- The amounts the node reports are in the range of money. -/
def InMoney (F : RefeeAnswers) (coin : NodeCoin) : Prop :=
  (0 ≤ coin.value.toInt ∧ coin.value.toInt ≤ maxMoney) ∧
    ∀ op c, F.recheck op = .ok (some c) → 0 ≤ c.value.toInt ∧ c.value.toInt ≤ maxMoney

theorem sum_le_of_length_le_one {extra : List OutPoint} {coins : List NodeCoin}
    (hmoney : InMoney F coin) {P : OutPoint → Prop} (hlen : extra.length ≤ 1)
    (hcoins : List.Forall₂ (fun op c ↦ P op ∧ F.recheck op = .ok (some c)) extra coins) :
    0 ≤ (coins.map fun c ↦ c.value.toInt).sum ∧
      (coins.map fun c ↦ c.value.toInt).sum ≤ maxMoney := by
  cases hcoins with
  | nil => exact ⟨le_rfl, by decide⟩
  | cons hop hrest =>
    cases hrest with
    | nil => simpa using hmoney.2 _ _ hop.2
    | cons => simp at hlen

theorem mem_prevouts_iff {templ : TxIn} (htempl : tx.vin[idx]? = some templ) {op : OutPoint} :
    op ∈ tx.vin.map TxIn.prevout ↔
      op = templ.prevout ∨ op ∈ (tx.vin.eraseIdx idx).map TxIn.prevout := by
  obtain ⟨hlt, rfl⟩ := List.getElem?_eq_some_iff.mp htempl
  rw [← ((List.getElem_cons_eraseIdx_perm hlt).map TxIn.prevout).mem_iff, List.map_cons,
    List.mem_cons]

theorem not_mem_of_forall₂ {old extra : List OutPoint} {coins : List NodeCoin}
    (h : List.Forall₂ (fun op c ↦ op ∉ old ∧ F.recheck op = .ok (some c)) extra coins) :
    ∀ op ∈ extra, op ∉ old := by
  induction h with
  | nil => exact nofun
  | cons hop _ ih => exact List.forall_mem_cons.mpr ⟨hop.1, ih⟩

/-- **Paying a new fee.**  Whatever the other inputs are, the set signatures' hash is the same, so the
check of `refee` is always passed.  A `refee` that succeeds changes the inputs alone: the template
stands first, and at most one coin of the wallet behind it, which was no input before.  The true fee is
above zero and within the cap if and only if the total of the outputs is a 64-bit amount. -/
theorem refee_keeps_iff (env : Env) (F : RefeeAnswers) (tx : Transaction) (idx : Nat)
    (coin : NodeCoin) (d : VaultDesk) (hmoney : InMoney F coin)
    (hfresh : ∀ txid op templ, F.exact.send.reply = .ok txid → readOutpoint (txid, 0) = .ok op →
      tx.vin[idx]? = some templ → op ≠ templ.prevout) :
    (∀ templ, tx.vin[idx]? = some templ → ∀ others script amount branch,
      ({ tx with vin := templ :: others } : Transaction).sighash env.C 0 script amount
          (sighashAll ||| anyonecanpay) branch =
        tx.sighash env.C idx script amount (sighashAll ||| anyonecanpay) branch) ∧
    ∀ tx' replaced d', refee env F tx idx coin d = (.ok (tx', replaced), d') →
      ∃ templ extra coins, tx.vin[idx]? = some templ ∧
        tx' = { tx with vin := templ :: extra.map newTxIn } ∧ extra.length ≤ 1 ∧
        (∀ op ∈ extra, op ∉ tx.vin.map TxIn.prevout ∧ WalletCoin env F.exact d d' op) ∧
        List.Forall₂ (fun op c ↦ F.recheck op = .ok (some c)) extra coins ∧
        let fee := coin.value.toInt + (coins.map fun c ↦ c.value.toInt).sum - voutTotal tx'
        (0 < fee ∧ fee ≤ F.cap.toInt ↔ FitsI64 (voutTotal tx)) := by
  refine ⟨fun templ htempl others script amount branch ↦ ?_, fun tx' replaced d' h ↦ ?_⟩
  · exact tx.sighash_anyonecanpay env.C htempl rfl script amount branch
  · obtain ⟨templ, extra, coins, d₂, htempl, hextra, rfl, hcoins, hpos, hle, -, rfl⟩ := refee_eq_ok h
    obtain ⟨hlen, hwallet⟩ := newFeeCoin_eq_ok hextra
    refine ⟨templ, extra, coins, htempl, rfl, hlen, fun op hop ↦ ⟨?_, ?_⟩, ?_, ?_⟩
    · rw [mem_prevouts_iff htempl, not_or]
      refine ⟨?_, not_mem_of_forall₂ hcoins op hop⟩
      rcases (hwallet op hop).2 with hnot | ⟨txid, hreply, hread⟩
      · exact fun heq ↦ hnot (heq ▸ List.mem_cons_self)
      · exact hfresh txid op templ hreply hread htempl
    · rcases (hwallet op hop).1 with ⟨c, hc, hread⟩ | ⟨k, p, p', value, txid, hp, hrest⟩
      · exact .inl ⟨c, Purse.wallet_unlockCoins d.purse _ ▸ hc, hread⟩
      · exact .inr ⟨k, p, p', value, txid, hp.trans (Purse.wallet_unlockCoins d.purse _), hrest⟩
    · exact hcoins.imp fun _ _ h ↦ h.2
    · exact fee_iff hmoney.1 (sum_le_of_length_le_one hmoney hlen hcoins) F.cap.toInt_lt hpos hle

end Keeps

/-! ### Outputs that wrap -/

/-- The template is worth 70,000. -/
def templCoin : NodeCoin := ⟨70000, [], some 1, false⟩

/-- A spend of the template alone, with these outputs. -/
def templTx (values : List Int64) : Transaction :=
  ⟨txHeaderV4, saplingVersionGroupId, [newTxIn ⟨List.Vector.replicate 32 7, 0⟩],
    values.map fun v ↦ ⟨v, []⟩, 0, 0, .empty⟩

/-- A wallet whose coins are the two of the payment. -/
def paidDesk : VaultDesk := ⟨paidPurse, .empty, []⟩

/-- The node has both coins, nothing fails, and the fee cap is 20,000. -/
def paidRefee : RefeeAnswers where
  next := .ok ⟨2, 0⟩
  exact := ⟨payAnswers none, none, payAnswers none, none, none, ⟨some ⟨-4, ""⟩, .error ⟨-26, ""⟩, none⟩⟩
  recheck := nodeCoin (payAnswers none)
  cap := 20000

theorem paidRefee_recheck (op : OutPoint) : paidRefee.recheck op =
    .ok (some ⟨if op.n = 0 then 70000 else 60000, payScript, some 1, false⟩) := rfl

theorem inMoney_paidRefee : InMoney paidRefee templCoin := by
  refine ⟨by decide, fun op c hc ↦ ?_⟩
  rw [paidRefee_recheck] at hc
  cases hc
  dsimp only
  split <;> decide

/-- A spend of the template behind two coins for its fee, with an output of 119,500. -/
def staleTx : Transaction :=
  { templTx [119500] with vin := [newTxIn ⟨List.Vector.replicate 32 8, 0⟩,
      newTxIn ⟨List.Vector.replicate 32 7, 0⟩, newTxIn ⟨List.Vector.replicate 32 8, 1⟩] }

/-- Both are replaced by a coin of 60,000 behind the template, and the fee is 10,500.  What the set
signed is the same. -/
theorem refee_keeps_paid : ∃ tx' d',
    refee payEnv paidRefee staleTx 1 templCoin paidDesk = (.ok (tx',
      [⟨List.Vector.replicate 32 8, 0⟩, ⟨List.Vector.replicate 32 8, 1⟩]), d') ∧
    tx'.vin = [newTxIn ⟨List.Vector.replicate 32 7, 0⟩, newTxIn ⟨payTxid, 1⟩] ∧
    (∃ coins : List NodeCoin,
      let fee := templCoin.value.toInt + (coins.map fun c ↦ c.value.toInt).sum - voutTotal tx'
      0 < fee ∧ fee ≤ 20000) ∧
    tx'.sighash payEnv.C 0 [] 70000 (sighashAll ||| anyonecanpay) 0 =
      staleTx.sighash payEnv.C 1 [] 70000 (sighashAll ||| anyonecanpay) 0 := by
  have hrun : (refee payEnv paidRefee staleTx 1 templCoin paidDesk).1 = .ok
      ({ staleTx with vin := [newTxIn ⟨List.Vector.replicate 32 7, 0⟩, newTxIn ⟨payTxid, 1⟩] },
        [⟨List.Vector.replicate 32 8, 0⟩, ⟨List.Vector.replicate 32 8, 1⟩]) := by decide +kernel
  obtain ⟨d', hx⟩ := exists_of_fst_eq hrun
  obtain ⟨hsighash, hkeeps⟩ := refee_keeps_iff payEnv paidRefee staleTx 1 templCoin paidDesk
    inMoney_paidRefee nofun
  obtain ⟨templ, extra, coins, -, -, -, -, -, hfee⟩ := hkeeps _ _ _ hx
  exact ⟨_, d', hx, rfl, ⟨coins, hfee.mpr ⟨by decide, by decide⟩⟩, hsighash _ rfl _ _ _ _⟩

/-- Outputs of 2^64 + 60,000 together are taken for 60,000, and the fee for 10,000. -/
theorem not_refee_keeps : InMoney paidRefee templCoin ∧ ∃ tx' d',
    refee payEnv paidRefee (templTx [.maxValue, .maxValue, 60002]) 0 templCoin paidDesk =
      (.ok (tx', []), d') ∧ tx'.vin = [newTxIn ⟨List.Vector.replicate 32 7, 0⟩] ∧
    templCoin.value.toInt - voutTotal tx' < 0 := by
  have hrun : (refee payEnv paidRefee (templTx [.maxValue, .maxValue, 60002]) 0 templCoin
      paidDesk).1 = .ok (templTx [.maxValue, .maxValue, 60002], []) := by decide +kernel
  obtain ⟨d', hx⟩ := exists_of_fst_eq hrun
  exact ⟨inMoney_paidRefee, _, d', hx, rfl, by decide⟩

end Yew.Daemon
