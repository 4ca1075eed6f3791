import Mathlib.Data.Int.ConditionallyCompleteOrder
import Yew.Build.YecSend

/-!
# Shielding YEC

Plain coins are moved into the wallet's own private balance, either an amount or everything.  The
transaction is made by a library, which also prices it; the price depends on how many coins are
spent, and those on the price.

What the library does beyond its price is left open: it may refuse any coins.

The library is librustzcash's builder.  `FeeRule` says what is asked of its price: it is at least
the conventional fee's floor, it does not fall with the number of coins, and a change output that
stands beside the note does not raise it.

## Source

* `core/src/build/yec_move.rs`: `ShieldPlan`, `plan_move`, `plan_shield`, `shield_inputs`,
  `confirm_shield`
* `core/src/shielded.rs`: `ShieldInput`, `zat`, `Shielded::shield_fee`
* `core/src/wallet.rs`: `yec`, `Balances`, `Wallet::balances`
-/

namespace Yew.Build

open Script Tx Keys Coins

/-! ## The library -/

/-- The price of a shielding transaction by the number of its inputs and of its transparent
outputs. -/
structure FeeRule where
  fee : Nat → Nat → Int
  floor : ∀ n k, 10000 ≤ fee n k
  mono : ∀ k, Monotone (fee · k)
  change : ∀ n, 1 ≤ n → fee n 0 = fee n 1

/-- `ShieldInput`. -/
structure ShieldInput where
  outpoint : OutPoint
  value : UInt64
  pubkey : Bytes
  hash160 : Arr 20
deriving DecidableEq

/-- Why no shield is planned. -/
inductive ShieldError where
  | wallet (e : WalletError)
  | propose (why : String)

/-- `Zatoshis::MAX_MONEY`. -/
def maxZatoshis : Nat := 2100000000000000

/-- `zat`. -/
def zat (v : UInt64) : Except ShieldError Unit :=
  if v.toNat ≤ maxZatoshis then .ok ()
  else .error (.propose ("bad amount " ++ Text.decimal v.toNat))

/-- The wallet a shield reads. -/
structure ShieldWallet extends Wallet where
  /-- `default_address` of the shielded part, or why there is none. -/
  shielded : Except WalletError String
  /-- The public key behind an own key hash. -/
  pubkeyForHash : Arr 20 → Bytes
  /-- What the library refuses to build. -/
  refuses : List ShieldInput → Option (Arr 20) → Option String

/-- `ShieldPlan`. -/
structure ShieldPlan where
  to_ : String
  amount : Int
  amountBumped : Bool
  fee : Int
  change : Int
  changeAddress : Option (String × Arr 20)
  inputs : List Utxo
  shieldInputs : List ShieldInput
  target : UInt32
  expiryHeight : UInt32
deriving DecidableEq

section Plan

variable (rule : FeeRule) (w : ShieldWallet)

/-- `shield_fee`. -/
def shieldFee (inputs : List ShieldInput) (amountZat : UInt64) (change : Option (Arr 20)) :
    Except ShieldError Int := do
  inputs.forM fun i ↦ zat i.value
  zat (max amountZat 1)
  match w.refuses inputs change with
  | some why => .error (.propose why)
  | none => .ok (rule.fee inputs.length (if change.isSome then 1 else 0))

/-- The builder's view of a coin. -/
def shieldInput (u : Utxo) : Except WalletError ShieldInput :=
  match p2pkhHash u.script with
  | none => .error (.other ("input " ++ u.outpoint.display ++ " is not P2PKH"))
  | some h =>
    match w.keyForHash h with
    | .error e => .error e
    | .ok none => .error (.other ("no key for input " ++ u.outpoint.display))
    | .ok (some _) =>
      .ok ⟨u.outpoint, (Int64.ofInt u.value).toUInt64, w.pubkeyForHash h, h⟩

/-- `shield_inputs`. -/
def shieldInputs (us : List Utxo) : Except ShieldError (List ShieldInput) :=
  (us.mapM (shieldInput w)).mapError .wallet

/-- The coins of a plan, its amount, its change and its fee. -/
abbrev Shielding := List Utxo × Int × Int × Int

/-- Everything: the largest `YEC` coins, as many as fit. -/
def shieldAll : Except ShieldError Shielding := do
  let all := ((w.spendable.filter fun u ↦ u.utxoClass = .yec).insertionSort
    fun a b ↦ b.value ≤ a.value).take maxInputs
  if all.isEmpty then .error (.wallet (.coins (.insufficient 1 0)))
  else
    let si ← shieldInputs w all
    let fee ← shieldFee rule w si (Int64.ofInt (zats all)).toUInt64 none
    if zats all ≤ fee then .error (.wallet (.coins (.insufficient (fee + 1) (zats all))))
    else .ok (all, zats all - fee, 0, fee)

/-- One turn of the loop for an amount: a plan, or the fee to try next. -/
def shieldTurn (a : Int64) (changeHash : Arr 20) (fee : Int) :
    Except ShieldError (Shielding ⊕ Int) := do
  let sel ← (selectYec w.spendable (a.toInt + fee) false).mapError fun e ↦ .wallet (.coins e)
  let si ← shieldInputs w sel
  let f ← shieldFee rule w si a.toUInt64 (some changeHash)
  if zats sel ≥ a.toInt + f then return .inl (sel, a.toInt, zats sel - a.toInt - f, f)
  else return .inr f

/-- The coins, amount, change and fee, before the change is adjusted. -/
def chooseShield (amount : Option Int64) (changeHash : Arr 20) :
    Option (Except ShieldError Shielding) :=
  match amount with
  | none => some (shieldAll rule w)
  | some a => retry (shieldTurn rule w a changeHash) (w.spendable.length + 2) 10000

/-- The plan: what of the change is not given back goes into the amount. -/
def finishShield (to_ : String) (row : AddressRow) (tip : Nat) (s : Shielding) :
    Except ShieldError ShieldPlan := do
  let (inputs, amount, spare, fee) := s
  let change := keepChange spare
  let si ← shieldInputs w inputs
  let target := UInt32.ofNat (min (tip % 2 ^ 32 + 1) (2 ^ 32 - 1))
  return { to_, amount := amount + (spare - change), amountBumped := spare ≠ change, fee, change,
           changeAddress := if change > 0 then some (row.addressS, row.hash160) else none,
           inputs, shieldInputs := si, target,
           expiryHeight := UInt32.ofNat (min (target.toNat + txExpiryDelta) (2 ^ 32 - 1)) }

/-- `plan_shield`.  No outcome would be a loop that does not end. -/
def planShield (amount : Option Int64) (tip : Nat) : Option (Except ShieldError ShieldPlan) :=
  match w.shielded, w.changeAddress with
  | .error e, _ => some (.error (.wallet e))
  | .ok _, .error e => some (.error (.wallet e))
  | .ok to_, .ok row =>
    match chooseShield rule w amount row.hash160 with
    | none => none
    | some (.error e) => some (.error e)
    | some (.ok s) => some (finishShield w to_ row tip s)

end Plan

/-! ## What a plan is made of -/

variable {rule : FeeRule} {w : ShieldWallet}

theorem shieldInputs_eq_ok {us : List Utxo} {si : List ShieldInput}
    (h : shieldInputs w us = .ok si) : si.length = us.length := by
  rw [shieldInputs, Result.mapError_eq_ok] at h
  induction us generalizing si with
  | nil =>
    cases h
    rfl
  | cons u us ih =>
    simp only [List.mapM_cons, Result.bind_eq_ok] at h
    obtain ⟨i, -, is, his, h⟩ := h
    cases h
    rw [List.length_cons, List.length_cons, ih his]

theorem shieldFee_eq_ok {inputs : List ShieldInput} {amountZat : UInt64} {change : Option (Arr 20)}
    {f : Int} (h : shieldFee rule w inputs amountZat change = .ok f) :
    amountZat.toNat ≤ maxZatoshis ∧ f = rule.fee inputs.length (if change.isSome then 1 else 0) := by
  simp only [shieldFee, Result.bind_eq_ok] at h
  obtain ⟨-, -, _, hzat, h⟩ := h
  constructor
  · rw [zat] at hzat
    split at hzat
    · rename_i hle
      rw [UInt64.toNat_max] at hle
      exact (le_max_left _ _).trans hle
    · cases hzat
  · split at h
    · cases h
    · cases h
      rfl

/-- An amount that is one, read as unsigned, is not negative. -/
theorem toInt_nonneg_of_zat {a : Int64} (h : a.toUInt64.toNat ≤ maxZatoshis) : 0 ≤ a.toInt := by
  have hcond := BitVec.toInt_eq_toNat_cond a.toBitVec
  have hnat : a.toBitVec.toNat ≤ 2100000000000000 := h
  rw [if_pos (by omega)] at hcond
  show 0 ≤ a.toBitVec.toInt
  omega

/-- What one turn selects, and what it asks for. -/
theorem shieldTurn_eq_ok {a : Int64} {changeHash : Arr 20} {x : Int} {r : Shielding ⊕ Int}
    (h : shieldTurn rule w a changeHash x = .ok r) :
    ∃ sel f, sel <+: pool w.spendable false ∧ a.toInt + x ≤ zats sel ∧ 0 ≤ a.toInt ∧
      f = rule.fee sel.length 1 ∧
      r = if zats sel ≥ a.toInt + f then .inl (sel, a.toInt, zats sel - a.toInt - f, f)
        else .inr f := by
  simp only [shieldTurn, Result.bind_eq_ok, Result.mapError_eq_ok] at h
  obtain ⟨sel, hsel, si, hsi, f, hf, h⟩ := h
  obtain ⟨hfront, hcovers⟩ := selectYec_eq_ok hsel
  obtain ⟨hle, hfee⟩ := shieldFee_eq_ok hf
  refine ⟨sel, f, hfront, hcovers, ?_, ?_, ?_⟩
  · exact toInt_nonneg_of_zat hle
  · rw [hfee, shieldInputs_eq_ok hsi]
    rfl
  · split at h
    · rename_i hge
      cases h
      rw [if_pos hge]
    · rename_i hlt
      cases h
      rw [if_neg hlt]

/-- The loop for an amount ends. -/
theorem chooseShield_ne_none {amount : Option Int64} {changeHash : Arr 20} :
    chooseShield rule w amount changeHash ≠ none := by
  cases amount with
  | none => nofun
  | some a =>
    let figures := ((List.range (w.spendable.length + 1)).map (rule.fee · 1)).toFinset
    have hcard : figures.card ≤ w.spendable.length + 1 := by
      refine (List.toFinset_card_le _).trans ?_
      rw [List.length_map, List.length_range]
    refine Climb.retry_ne_none (fun x y hturn ↦ ?_)
      (Nat.lt_of_le_of_lt ((Finset.card_filter_le figures _).trans hcard) (Nat.lt_succ_self _))
    obtain ⟨sel, f, hfront, hcovers, -, hfee, hr⟩ := shieldTurn_eq_ok hturn
    split at hr
    · cases hr
    · cases hr
      refine ⟨by omega, ?_⟩
      rw [List.mem_toFinset, List.mem_map]
      have hlen := hfront.length_le.trans (length_pool_le w.spendable false)
      exact ⟨sel.length, List.mem_range.mpr (by omega), hfee.symm⟩

/-- What a plan is made of, before its change is adjusted. -/
structure Chosen (rule : FeeRule) (w : ShieldWallet) (amount : Option Int64) (s : Shielding) :
    Prop where
  yec : ∀ u ∈ s.1, u ∈ w.spendable ∧ u.utxoClass = .yec
  nonempty : s.1 ≠ []
  total : zats s.1 = s.2.1 + s.2.2.2 + s.2.2.1
  requested : ∀ a, amount = some a → s.2.1 = a.toInt
  spare : 0 ≤ s.2.2.1
  fee : s.2.2.2 = rule.fee s.1.length 1

theorem chooseShield_eq_ok {amount : Option Int64} {changeHash : Arr 20} {s : Shielding}
    (h : chooseShield rule w amount changeHash = some (.ok s)) : Chosen rule w amount s := by
  cases amount with
  | none =>
    have hall := Option.some.inj h
    simp only [shieldAll, Result.guard_eq_ok, Result.bind_eq_ok] at hall
    obtain ⟨hne, si, hsi, fee, hfee, hlt, hall⟩ := hall
    cases hall
    rw [List.isEmpty_iff] at hne
    have hlen := List.length_pos_iff.mpr hne
    refine ⟨fun u hu ↦ ?_, hne, ?_, nofun, le_rfl, ?_⟩
    · have hmem := List.mem_of_mem_take hu
      rw [List.mem_insertionSort, List.mem_filter] at hmem
      exact ⟨hmem.1, of_decide_eq_true hmem.2⟩
    · dsimp only
      omega
    · rw [(shieldFee_eq_ok hfee).2, shieldInputs_eq_ok hsi]
      exact rule.change _ hlen
  | some a =>
    have hfloor : ∀ x y, 10000 ≤ x → shieldTurn rule w a changeHash x = .ok (.inr y) →
        10000 ≤ y := by
      intro x y _ hturn
      obtain ⟨sel, f, -, -, -, hfee, hr⟩ := shieldTurn_eq_ok hturn
      split at hr
      · cases hr
      · cases hr
        rw [hfee]
        exact rule.floor _ 1
    obtain ⟨x, hx, hturn⟩ := Climb.retry_eq_ok hfloor le_rfl h
    obtain ⟨sel, f, hfront, hcovers, hpos, hfee, hr⟩ := shieldTurn_eq_ok hturn
    split at hr
    · rename_i hge
      cases hr
      refine ⟨fun u hu ↦ mem_pool_false (hfront.subset hu), ?_, ?_, ?_, ?_, hfee⟩
      · rintro rfl
        rw [zats_nil] at hcovers
        omega
      · dsimp only
        omega
      · rintro _ ⟨⟩
        rfl
      · dsimp only
        omega
    · cases hr

/-! ## Plans balance -/

/-- A plan that balances. -/
structure Balances (rule : FeeRule) (w : ShieldWallet) (amount : Option Int64) (p : ShieldPlan) :
    Prop where
  /-- Every input is a plain coin of the wallet's. -/
  yec : ∀ u ∈ p.inputs, u ∈ w.spendable ∧ u.utxoClass = .yec
  total : zats p.inputs = p.amount + p.fee + p.change
  /-- The amount is the requested one, or exceeds it by less than an output is worth. -/
  requested : ∀ a, amount = some a → a.toInt ≤ p.amount ∧ p.amount < a.toInt + minChange
  change : (p.change = 0 ∨ minChange ≤ p.change) ∧ p.change ≠ tokenZat
  /-- The fee is the price of these inputs, with the change output that the plan has or has not. -/
  fee : p.fee = rule.fee p.inputs.length (if p.changeAddress.isSome then 1 else 0)
  changeAddress : p.changeAddress.isSome ↔ 0 < p.change

theorem balances_of_finishShield {amount : Option Int64} {to_ : String} {row : AddressRow}
    {tip : Nat} {s : Shielding} {p : ShieldPlan} (hs : Chosen rule w amount s)
    (h : finishShield w to_ row tip s = .ok p) : Balances rule w amount p := by
  obtain ⟨inputs, a, spare, fee⟩ := s
  simp only [finishShield, Result.bind_eq_ok] at h
  obtain ⟨si, -, h⟩ := h
  cases h
  obtain ⟨hyec, hne, htotal, hrequested, hspare, hfee⟩ := hs
  dsimp only at hyec hne htotal hrequested hspare hfee
  obtain ⟨hpos, hle, hmin, htoken⟩ := keepChange_spec hspare
  have hlen := List.length_pos_iff.mpr hne
  refine ⟨hyec, ?_, ?_, ⟨hmin, htoken⟩, ?_, ?_⟩
  · dsimp only
    omega
  · intro r hr
    have hr' := hrequested r hr
    have hlt := lt_keepChange_add spare
    dsimp only
    constructor
    · omega
    · omega
  · dsimp only
    split
    · exact hfee
    · exact hfee.trans (rule.change _ hlen).symm
  · dsimp only
    split
    · exact iff_of_true rfl ‹_›
    · exact iff_of_false nofun ‹_›

/-- The loop ends, and every plan it comes to balances. -/
theorem planShield_balances (rule : FeeRule) (w : ShieldWallet) (amount : Option Int64) (tip : Nat) :
    planShield rule w amount tip ≠ none ∧
      ∀ p, planShield rule w amount tip = some (.ok p) → Balances rule w amount p := by
  rw [planShield]
  split
  · exact ⟨nofun, nofun⟩
  · exact ⟨nofun, nofun⟩
  · rename_i to_ row _ _
    split
    · rename_i hnone
      exact absurd hnone chooseShield_ne_none
    · exact ⟨nofun, nofun⟩
    · rename_i s hs
      refine ⟨nofun, fun p hp ↦ ?_⟩
      exact balances_of_finishShield (chooseShield_eq_ok hs) (Option.some.inj hp)

/-! ## A wallet of one coin -/

/-- Five thousand zatoshi an action, of which a private output makes two. -/
def zip317Rule : FeeRule where
  fee n k := 5000 * (max n k + 2 : Nat)
  floor n k := by omega
  mono k n m h := by
    dsimp only
    omega
  change n h := by
    rw [max_eq_left (Nat.zero_le n), max_eq_left h]

/-- A wallet with one coin of a million zatoshi and keys for every hash. -/
def sampleShieldWallet : ShieldWallet where
  network := .regtest
  pqTerms := ⟨100, 100, 100, 1000, 1000000000, none, false⟩
  spendable := [⟨⟨List.Vector.replicate 32 2, 0⟩, "yec", p2pkhScript (List.Vector.replicate 20 2),
    1000000, 5, .yec, 0⟩]
  changeAddress := .ok ⟨List.Vector.replicate 20 3, "change", none⟩
  freshExternal _ := .error (.other "none")
  addresses := .ok []
  pqOwnerForHash _ := none
  keyForHash _ := .ok (some .one)
  scriptSig _ _ _ _ := .ok []
  classOf _ := some .yec
  shielded := .ok "own"
  pubkeyForHash _ := []
  refuses _ _ := none

theorem planShield_balances_sample :
    ∃ p, planShield zip317Rule sampleShieldWallet (some 900000) 100 = some (.ok p) ∧
      Balances zip317Rule sampleShieldWallet (some 900000) p := by
  have hok : ((planShield zip317Rule sampleShieldWallet (some 900000) 100).map
      Except.isOk).getD false = true := by
    decide +kernel
  obtain ⟨p, hp⟩ := exists_of_mapIsOk hok
  exact ⟨p, hp, (planShield_balances zip317Rule sampleShieldWallet (some 900000) 100).2 p hp⟩

end Yew.Build
