import Yew.Daemon.Handoff

/-!
# The balance as of a height

A balance can be asked for as of a height.  Depth, trust, maturity and spentness are then each judged
in that view.  The view is the wallet as it would be if the chain ended there: without the
transactions that are unconfirmed or confirmed above the height.

The restriction of the wallet is ours: the source has one function of a wallet and a height, and the
result says that it is the plain function of the restricted wallet.

## Source

* `yewd/wallet/src/rpc.rs`: `as_of`, `Wallet::available_credit`, `Wallet::balance`
-/

namespace Yew.Daemon.Wallet

open Script Tx

variable (env : Env) (w : Wallet) (asof : Option Nat)

/-! ## Views -/

/-- The height a view ends at. -/
def topOf : Nat := (asof.map fun a ↦ min a w.tipHeight).getD w.tipHeight

/-- `depth_at`. -/
def depthIn : Option Nat → Int
  | some h => if h ≤ w.topOf asof then w.topOf asof - h + 1 else -1
  | none => if asof.isSome then -1 else 0

/-- `tx_depth`, in a view. -/
def txDepthIn (txid : String) : Int :=
  match w.wtx.get? txid with
  | some t => w.depthIn asof (t.block.map fun b ↦ b.height)
  | none => -1

/-- `spent_at`, in a view. -/
def spentIn (o : String × UInt32) : Bool :=
  w.parsed.entries.any fun e ↦
    0 ≤ w.txDepthIn asof e.1 && e.2.tx.vin.any fun i ↦ TxIn.spends i = o

/-- `trusted`, in a view. -/
def trustedIn (txid : String) : Bool :=
  if 1 ≤ w.txDepthIn asof txid then true
  else if w.txDepthIn asof txid < 0 ∨ asof.isSome then false
  else match w.parsed.get? txid with
    | none => false
    | some p => !p.tx.vin.isEmpty && p.tx.vin.all fun i ↦
      ((w.parsed.get? (txidHex i.prevout.txid)).bind fun c ↦
        c.tx.vout[i.prevout.n.toNat]?).any fun o ↦ (w.book.ownsScript o.scriptPubkey).isSome

/-- `available_credit`. -/
def availableCredit (txid : String) : Int64 :=
  match w.parsed.get? txid with
  | none => 0
  | some p =>
    if immature p.coinbase (w.txDepthIn asof txid) then 0
    else ((p.tx.vout.zipIdx.filter fun o ↦ (w.book.ownsScript o.1.scriptPubkey).isSome &&
      !w.spentIn asof (txid, UInt32.ofNat o.2)).map fun o ↦ o.1.value).sum

/-- `balance`. -/
def balance (minDepth : Int) : Int64 :=
  ((w.wtx.keys.filter fun t ↦ w.trustedIn asof t && minDepth ≤ w.txDepthIn asof t).map
    (w.availableCredit asof)).sum

/-! ## The wallet as of a height -/

/-- A transaction that is confirmed up to a height. -/
def keeps (h : Nat) (txid : String) : Bool :=
  ((w.wtx.get? txid).bind WalletTx.block).any fun b ↦ b.height ≤ h

/-- The wallet without the transactions that are unconfirmed or confirmed above a height, whose tip
is that height if it was higher. -/
def asOf (h : Nat) : Wallet :=
  rebuild env { w with
    wtx := w.wtx.filter (w.keeps h)
    parsed := w.parsed.filter (w.keeps h)
    tip := w.tip.map fun t ↦ { t with height := min h t.height } }

variable {w} {h : Nat}

theorem topOf_asOf : (w.asOf env h).topOf none = w.topOf (some h) := by
  show ((w.tip.map fun t ↦ { t with height := min h t.height }).map Tip.height).getD 0 =
    min h ((w.tip.map Tip.height).getD 0)
  cases w.tip with
  | none => exact (Nat.min_zero h).symm
  | some t => rfl

theorem get?_wtx_asOf (txid : String) : (w.asOf env h).wtx.get? txid =
    if w.keeps h txid then w.wtx.get? txid else none :=
  OrdMap.get?_filter (w.keeps h) w.wtx txid

theorem get?_parsed_asOf (txid : String) : (w.asOf env h).parsed.get? txid =
    if w.keeps h txid then w.parsed.get? txid else none :=
  OrdMap.get?_filter (w.keeps h) w.parsed txid

/-- What is not kept is not there in the view. -/
theorem txDepthIn_of_not_keeps {txid : String} (hk : w.keeps h txid = false) :
    w.txDepthIn (some h) txid = -1 := by
  rw [txDepthIn]
  rw [keeps] at hk
  cases hget : w.wtx.get? txid with
  | none => rfl
  | some t =>
    rw [hget] at hk
    dsimp only
    cases hblock : t.block with
    | none => rfl
    | some b =>
      have habove : ¬ b.height ≤ h := by simpa [hblock] using hk
      show (if b.height ≤ min h w.tipHeight then _ else (-1 : Int)) = -1
      exact if_neg fun hle ↦ habove (hle.trans (min_le_left _ _))

/-- What is kept is as deep as in the view. -/
theorem txDepthIn_asOf (txid : String) :
    (w.asOf env h).txDepthIn none txid = w.txDepthIn (some h) txid := by
  cases hk : w.keeps h txid with
  | false =>
    rw [txDepthIn_of_not_keeps hk, txDepthIn, get?_wtx_asOf, hk]
    rfl
  | true =>
    rw [txDepthIn, get?_wtx_asOf, hk, if_pos rfl, txDepthIn]
    rw [keeps] at hk
    cases hget : w.wtx.get? txid with
    | none => rfl
    | some t =>
      rw [hget] at hk
      dsimp only
      cases hblock : t.block with
      | none => simp [hblock] at hk
      | some b =>
        show (if b.height ≤ (w.asOf env h).topOf none then _ else _) = _
        rw [topOf_asOf]
        rfl

theorem keeps_of_txDepthIn {txid : String} (hd : 0 ≤ w.txDepthIn (some h) txid) :
    w.keeps h txid = true := by
  by_contra hk
  rw [txDepthIn_of_not_keeps (Bool.eq_false_iff.mpr hk)] at hd
  cases hd

/-- An output is spent in the view when a transaction that is kept spends it. -/
theorem spentIn_asOf (o : String × UInt32) :
    (w.asOf env h).spentIn none o = w.spentIn (some h) o := by
  rw [Bool.eq_iff_iff, spentIn, spentIn, List.any_eq_true, List.any_eq_true]
  simp only [Bool.and_eq_true, decide_eq_true_eq, txDepthIn_asOf]
  constructor
  · rintro ⟨⟨txid, p⟩, hmem, hdepth, hspends⟩
    rw [OrdMap.mem_entries, get?_parsed_asOf, keeps_of_txDepthIn hdepth, if_pos rfl] at hmem
    exact ⟨(txid, p), OrdMap.mem_entries.mpr hmem, hdepth, hspends⟩
  · rintro ⟨⟨txid, p⟩, hmem, hdepth, hspends⟩
    refine ⟨(txid, p), ?_, hdepth, hspends⟩
    rw [OrdMap.mem_entries, get?_parsed_asOf, keeps_of_txDepthIn hdepth, if_pos rfl]
    exact OrdMap.mem_entries.mp hmem

/-- In the view a transaction is confirmed or not there. -/
theorem txDepthIn_some_cases (w : Wallet) (h : Nat) (txid : String) :
    w.txDepthIn (some h) txid = -1 ∨ 1 ≤ w.txDepthIn (some h) txid := by
  rw [txDepthIn]
  cases w.wtx.get? txid with
  | none => exact .inl rfl
  | some t =>
    dsimp only
    cases t.block with
    | none => exact .inl rfl
    | some b =>
      show (if b.height ≤ w.topOf (some h) then (w.topOf (some h) - b.height + 1 : Int) else -1) = -1 ∨
        1 ≤ if b.height ≤ w.topOf (some h) then (w.topOf (some h) - b.height + 1 : Int) else -1
      split
      · omega
      · exact .inl rfl

/-- Only what is confirmed in it is trusted in the view. -/
theorem trustedIn_some (txid : String) :
    w.trustedIn (some h) txid = decide (1 ≤ w.txDepthIn (some h) txid) := by
  rw [trustedIn]
  split
  · rename_i hdepth
    exact (decide_eq_true hdepth).symm
  · rename_i hdepth
    rw [if_pos (.inr rfl)]
    exact (decide_eq_false hdepth).symm

theorem trustedIn_asOf (txid : String) :
    (w.asOf env h).trustedIn none txid = w.trustedIn (some h) txid := by
  rw [trustedIn_some, trustedIn, txDepthIn_asOf]
  rcases txDepthIn_some_cases w h txid with hd | hd
  · rw [hd]
    rfl
  · rw [if_pos hd, decide_eq_true hd]

theorem availableCredit_asOf {txid : String} (hk : w.keeps h txid = true) :
    (w.asOf env h).availableCredit none txid = w.availableCredit (some h) txid := by
  rw [availableCredit, availableCredit, get?_parsed_asOf, hk, if_pos rfl]
  simp only [txDepthIn_asOf, spentIn_asOf]
  rfl

theorem keys_wtx_asOf : (w.asOf env h).wtx.keys = w.wtx.keys.filter (w.keeps h) := by
  show (w.wtx.entries.filter fun e ↦ w.keeps h e.1).map Prod.fst =
    (w.wtx.entries.map Prod.fst).filter (w.keeps h)
  rw [List.filter_map]
  rfl

/-- The balance as of a height is the balance of the wallet without what is unconfirmed or confirmed
above it.  There a coin counts as unspent when only such transactions spend it, and these bring
nothing. -/
theorem balance_asOf (env : Env) (w : Wallet) (h : Nat) (minDepth : Int) :
    w.balance (some h) minDepth = (w.asOf env h).balance none minDepth ∧
    (∀ o, (∀ e ∈ w.parsed.entries, o ∈ e.2.tx.vin.map TxIn.spends → w.keeps h e.1 = false) →
      w.spentIn (some h) o = false) ∧
    ∀ txid, w.keeps h txid = false → w.trustedIn (some h) txid = false := by
  refine ⟨?_, ?_, ?_⟩
  · have hkeeps : ∀ t, (w.trustedIn (some h) t && minDepth ≤ w.txDepthIn (some h) t) = true →
        w.keeps h t = true := by
      intro t ht
      rw [Bool.and_eq_true, trustedIn_some, decide_eq_true_eq] at ht
      exact keeps_of_txDepthIn (zero_le_one.trans ht.1)
    have hfilter : (w.wtx.keys.filter fun t ↦
        (w.trustedIn (some h) t && minDepth ≤ w.txDepthIn (some h) t) && w.keeps h t) =
        w.wtx.keys.filter fun t ↦
          w.trustedIn (some h) t && minDepth ≤ w.txDepthIn (some h) t := by
      refine List.filter_congr fun t _ ↦ ?_
      cases hb : w.trustedIn (some h) t && decide (minDepth ≤ w.txDepthIn (some h) t) with
      | false => rfl
      | true => rw [hkeeps t hb, Bool.and_true]
    rw [balance, balance, keys_wtx_asOf, List.filter_filter]
    simp only [trustedIn_asOf, txDepthIn_asOf]
    rw [hfilter]
    refine congrArg List.sum (List.map_congr_left fun t ht ↦ ?_)
    exact (availableCredit_asOf env (hkeeps t (List.mem_filter.mp ht).2)).symm
  · intro o hspenders
    rw [Bool.eq_false_iff, Ne, spentIn, List.any_eq_true]
    rintro ⟨e, hmem, he⟩
    rw [Bool.and_eq_true, decide_eq_true_eq] at he
    obtain ⟨i, hi, hspends⟩ := List.any_eq_true.mp he.2
    have hout := hspenders e hmem (List.mem_map.mpr ⟨i, hi, of_decide_eq_true hspends⟩)
    rw [keeps_of_txDepthIn he.1] at hout
    cases hout
  · intro txid hk
    rw [trustedIn_some, txDepthIn_of_not_keeps hk]
    rfl

/-! ### A coin that is spent later -/

/-- The payment of a coin of 70,000. -/
def coinTx : Transaction :=
  ⟨txHeaderV4, saplingVersionGroupId, [⟨⟨List.Vector.replicate 32 2, 0⟩, [], sequenceFinal⟩],
    [⟨70000, payScript⟩], 0, 0, .empty⟩

/-- The transaction that spends it and pays 69,000 back. -/
def paidBackTx : Transaction :=
  ⟨txHeaderV4, saplingVersionGroupId, [⟨⟨payTxid, 0⟩, [], sequenceFinal⟩], [⟨69000, payScript⟩], 0, 0,
    .empty⟩

@[inherit_doc paidBackTx]
def backTxid : Arr 32 := List.Vector.replicate 32 3

/-- The coin is paid in block 5 and spent in block 20. -/
def spentWallet : Wallet :=
  { soleWallet with
    tip := some ⟨20, "tip"⟩
    wtx := (OrdMap.empty.insert (txidHex payTxid) ⟨[], some ⟨5, "five", 0, 0, none⟩, 0⟩).insert
      (txidHex backTxid) ⟨[], some ⟨20, "tip", 0, 0, none⟩, 0⟩
    parsed := (OrdMap.empty.insert (txidHex payTxid) ⟨coinTx, 0, false, [], [], [], 0⟩).insert
      (txidHex backTxid) ⟨paidBackTx, 0, false, [], [], [], 0⟩ }

/-- As of block 10 the coin counts and what was paid back does not. -/
theorem balance_asOf_ten :
    spentWallet.balance none 1 = 69000 ∧ (spentWallet.asOf payEnv 10).balance none 1 = 70000 ∧
    spentWallet.spentIn (some 10) (txidHex payTxid, 0) = false ∧
    spentWallet.trustedIn (some 10) (txidHex backTxid) = false := by
  obtain ⟨hbalance, hspent, htrusted⟩ := balance_asOf payEnv spentWallet 10 1
  refine ⟨by decide +kernel, hbalance.symm.trans (by decide +kernel), hspent _ ?_,
    htrusted _ (by decide +kernel)⟩
  have hall : (spentWallet.parsed.entries.all fun e ↦
      !((txidHex payTxid, (0 : UInt32)) ∈ e.2.tx.vin.map TxIn.spends) ||
        !spentWallet.keeps 10 e.1) = true := by
    decide +kernel
  intro e he hin
  have := List.all_eq_true.mp hall e he
  simpa [hin] using this

end Yew.Daemon.Wallet
