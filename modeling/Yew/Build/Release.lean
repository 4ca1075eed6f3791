import Yew.Build.FeeTerms
import Yew.Build.TransferSound
import Yew.Build.YecSend
import Yew.Store.Tables

/-!
# The release of an intent

An intent that has matured is released to the recipient it commits to.  It is spent whole, and the
network fee comes from the wallet's own coins.  A residual goes to a post-quantum key; once it is
released, its coin is moved to an own key, and pays for that itself.

The preview of a release shows the fee its coins were selected for.  What of their excess is not
given back is paid as well and not shown.

The set-aside coins of the wallet are an argument, as is the answer of the server about the intent.

## Source

* `core/src/build/release.rs`: `ReleaseKind`, `ReleaseBuild`, `pq_coin`, `not_releasable`,
  `residual_held`, `held_reason`, `build_release`, `build_pq_sweep`, `pq_move`
* `core/src/vault.rs`: `intent_release_script_sig`, `release_height`
-/

namespace Yew.Build

open Script Tx Pq Keys Coins Yellowback Addresses Vault Store

/-! ## Intents -/

/-- `ROLE_RESIDUAL`. -/
def roleResidual : String := "residual"

/-- `IntentState::as_str`. -/
def IntentState.asStr : IntentState → String
  | .pending => "PENDING"
  | .releasing => "RELEASING"
  | .released => "RELEASED"
  | .cancelled => "CANCELLED"
  | .swept => "SWEPT"

/-- `IntentState::open`. -/
def IntentState.isOpen : IntentState → Bool
  | .pending | .releasing => true
  | _ => false

/-- `release_height`, none while the intent is unconfirmed. -/
def releaseHeight (row : IntentRow) : Option Nat :=
  if row.height > 0 then some (row.height + row.delay.toNat) else none

/-- `pq_coin`: the coin of a released residual that still waits to be moved. -/
def pqCoin (row : IntentRow) : Option (OutPoint × PqKeyId) :=
  match pqpkhOf row.recipientScript with
  | none => none
  | some owner =>
    if row.role = roleResidual ∧ row.state = .released ∧
        row.spendTxid ≠ List.Vector.replicate 32 0 ∧ row.pqSpendTxid = List.Vector.replicate 32 0 then
      some (⟨row.spendTxid, 0⟩, owner)
    else none

/-- `not_releasable`. -/
def notReleasable (row : IntentRow) (tip : Nat) : Option String :=
  if (pqCoin row).isSome then none
  else if !IntentState.isOpen row.state ∨ row.state = .releasing then
    some ("intent-not-open: the intent is " ++ IntentState.asStr row.state)
  else match releaseHeight row with
    | none => some "intent-unconfirmed: the claim has not confirmed yet"
    | some h =>
      if h > tip + 1 then
        some ("intent-not-mature: the intent can be released from height " ++ Text.decimal h ++
          " (tip " ++ Text.decimal tip ++ ")")
      else none

/-- The fields of a `VaultRow` that a release reads. -/
structure VaultRow where
  status : String
  claimable : Bool
  heldResiduals : List OutPoint
  quietUntil : Nat
deriving DecidableEq

/-- `held_reason`. -/
def heldReason (v : VaultRow) (tip : Nat) : Option String :=
  if v.status = "CLOSED" ∨ v.status = "CLAIMED" then none
  else if v.status = "ACTIVE" then
    if tip + 1 < v.quietUntil then
      some ("intent-residual-held: held after a cancelled claim until height " ++
        Text.decimal v.quietUntil ++ " (the quiet period), and after that only while the vault " ++
        "cannot be claimed; redeeming the vault releases it")
    else if v.claimable then
      some ("intent-residual-held: held while the vault can be claimed; it is released once the " ++
        "vault cannot be claimed, or once the vault is closed (redeem it)")
    else none
  else
    some ("intent-residual-held: held while a claim of the vault is in progress; it is released " ++
      "once the vault is closed, or active again and past its quiet period while it cannot be " ++
      "claimed")

/-- `residual_held`. -/
def residualHeld (row : IntentRow) (vaults : List VaultRow) (tip : Nat) : Option String :=
  if (pqCoin row).isSome ∨ !IntentState.isOpen row.state then none
  else (vaults.find? fun v ↦ row.outpoint ∈ v.heldResiduals).bind (heldReason · tip)

/-! ## The builder -/

/-- The wallet a release reads.  Its flat fee is never below `FEE_ZAT`: the terms of a server are
checked for it, stored ones are raised to it, and the default has it. -/
structure ReleaseWallet extends Wallet where
  /-- `store.vaults`. -/
  vaults : Except WalletError (List VaultRow)
  /-- `own_hashes`. -/
  ownHashes : Except WalletError (List (Arr 20))
  /-- `own_pq_owners`: the external key paired with an own vault owner. -/
  ownPqOwners : Except WalletError (PqKeyId → Option (Arr 20))
  /-- `pq_key_for_owner`. -/
  pqKeyForOwner : PqKeyId → Arr 20 → Except WalletError (Option PqKey)
  /-- The scriptSig of a post-quantum key for the first input of a transaction. -/
  pqScriptSig : PqKey → Transaction → Bytes → Int → UInt32 → Except WalletError Bytes
  flat_le : feeZat ≤ pqTerms.flatZat

/-- `ReleaseKind`. -/
inductive ReleaseKind where
  | release
  | pqSweep
deriving DecidableEq

/-- `ReleaseBuild`. -/
structure ReleaseBuild where
  kind : ReleaseKind
  intent : OutPoint
  value : Int
  recipientAddress : String
  fee : Int
  inputs : List Utxo
  change : Int
  expiryHeight : UInt32
  raw : Bytes
  txid : Arr 32
deriving DecidableEq

/-- The amounts a release or a move pays. -/
def ReleaseBuild.amounts (p : ReleaseBuild) : List Int :=
  p.value :: if p.change > 0 then [p.change] else []

/-- `intent_release_script_sig`. -/
def intentReleaseScriptSig : Bytes := [op1]

/-- The fee of a release with `n` inputs of the wallet's. -/
def releaseFee (t : PqTerms) (row : IntentRow) (n : Nat) : Int :=
  t.yedFee (30 + 45 + n * 151 + 90 + row.recipientScript.length)

/-- What a coin of `valueIn` is moved as, at a fee. -/
def movedValue (valueIn fee : Int) : Int :=
  if valueIn - fee = tokenZat then valueIn - fee - 1 else valueIn - fee

section Build

variable (C : Crypto) (w : ReleaseWallet)

/-- The signature on a moved coin verifies. -/
def moveVerifies (tx : Transaction) (owner : PqKeyId) (sig script : Bytes) (valueIn : Int)
    (branchId : UInt32) : Bool :=
  match (ops sig).toOption.bind parsePqSigOps, tx.sighash C 0 script (Int64.ofInt valueIn) 1 branchId with
  | some (s, pk), .ok digest => C.pqVerify owner.scheme pk s.dropLast digest
  | _, _ => false

/-- `pq_move`. -/
def pqMove (intent coin : OutPoint) (valueIn : Int) (script : Bytes) (key : PqKey) (tip : Nat)
    (branchId : UInt32) : Except WalletError ReleaseBuild :=
  let owner := key.id C
  if pqpkhOf script ≠ some owner then
    .error (.other "the post-quantum key does not match the coin's script")
  else do
    let dest ← w.changeAddress
    let unpriced := newV4 [newTxIn coin] [⟨valueIn, p2pkhScript dest.hash160⟩] 0 (expiryAfter tip)
    match pqSigPushesSize owner.scheme with
    | none => .error (.other "the key's scheme is not registered")
    | some ss =>
      let size ← (unpriced.sizeWithScriptSigs [ss]).mapError .tx
      let conventional ← (unpriced.zip317ConventionalFee [ss]).mapError .tx
      let fee := max (w.pqTerms.fee (UInt64.ofNat size)) conventional
      let value := movedValue valueIn fee
      if value < minChange then
        .error (.other ("pq-coin-too-small: the coin (" ++ Text.decimalInt valueIn ++
          " zat) does not cover the " ++ Text.decimalInt fee ++ " zat fee of a post-quantum spend"))
      else
        let tx := newV4 [newTxIn coin] [⟨value, p2pkhScript dest.hash160⟩] 0 (expiryAfter tip)
        let sig ← w.pqScriptSig key tx script valueIn branchId
        let signed := { tx with vin := tx.vin.modify 0 fun t ↦ { t with scriptSig := sig } }
        if !moveVerifies C tx owner sig script valueIn branchId then
          .error (.other "the post-quantum signature does not verify")
        else
          signed.checkScriptSigSizes.mapError .tx
          let raw ← signed.serialize.mapError .tx
          let _ ← (Gate.check (.pqSweep coin) w.classOf C raw).mapError .gate
          return { kind := .pqSweep, intent, value, recipientAddress := dest.addressS,
                   fee := valueIn - value, inputs := [], change := 0,
                   expiryHeight := signed.expiryHeight, raw, txid := C.sha256d raw }

/-- `build_pq_sweep`. -/
def buildPqSweep (row : IntentRow) (coin : OutPoint) (owner : PqKeyId) (tip : Nat)
    (branchId : UInt32) : Except WalletError ReleaseBuild := do
  match (← w.ownPqOwners) owner with
  | none =>
    .error (.other "intent-not-ours: the residual's owner is not a key of this wallet")
  | some paired =>
    match ← w.pqKeyForOwner owner paired with
    | none => .error (.other "vault-not-owned: owner key missing")
    | some key => pqMove C w row.outpoint coin row.value row.recipientScript key tip branchId

/-- The address of an intent's recipient, an own key. -/
def recipientAddress (script : Bytes) : Except WalletError String :=
  match (p2pkhHash script).filter fun h ↦ (w.ownHashes.toOption.map (·.contains h)).getD false with
  | some h => .ok (encodeP2pkh C w.network h)
  | none =>
    match (pqpkhOf script).filter fun id ↦
        (w.ownPqOwners.toOption.map fun owners ↦ (owners id).isSome).getD false with
    | some id => .ok ((encodePqYellowback C w.network id).getD "")
    | none => .error (.other "intent-not-ours: the intent does not pay this wallet")

/-- The intent of a row, and where it goes. -/
def readIntent (row : IntentRow) : Except WalletError (IntentParams × String) :=
  match parseIntent row.intentScript with
  | none => .error (.other "intent-malformed: the stored intent does not parse")
  | some ip =>
    if scriptHash256 C row.recipientScript ≠ ip.recipientHash then
      .error (.other "intent-recipient: the stored recipient is not the intent's")
    else (recipientAddress C w row.recipientScript).map fun a ↦ (ip, a)

/-- The loop over coins and fees: it starts with the fee of one input. -/
def fundRelease (row : IntentRow) : Option (Except CoinError (Int × List Utxo)) :=
  climb (fundTurn w.spendable 0 fun us ↦ releaseFee w.pqTerms row us.length)
    (w.spendable.length + 2) (releaseFee w.pqTerms row 1)

/-- The outputs of a release. -/
def releaseOuts (row : IntentRow) (change : Int) (changeHash : Arr 20) : List Out :=
  ⟨row.value, row.recipientScript⟩ ::
    if change > 0 then [⟨change, p2pkhScript changeHash⟩] else []

/-- The release, funded. -/
def finishRelease (row : IntentRow) (ip : IntentParams) (address : String) (tip : Nat)
    (branchId : UInt32) (fee : Int) (inputs : List Utxo) : Except WalletError ReleaseBuild := do
  let change := keepChange (zats inputs - fee)
  let changeRow ← w.changeAddress
  let intent := TxIn.mk row.outpoint intentReleaseScriptSig (UInt32.ofNat (ip.delay % 2 ^ 32).toNat)
  let tx := newV4 (intent :: inputs.map fun u ↦ newTxIn u.outpoint)
    (releaseOuts row change changeRow.hash160) 0 (expiryAfter tip)
  let signed ← w.signP2pkhInputs branchId tx 1 inputs
  let raw ← signed.serialize.mapError .tx
  let _ ← (Gate.check (.intentRelease row.outpoint) w.classOf C raw).mapError .gate
  return { kind := .release, intent := row.outpoint, value := row.value, recipientAddress := address,
           fee, inputs, change, expiryHeight := signed.expiryHeight, raw, txid := C.sha256d raw }

/-- `build_release`. -/
def buildRelease (row : IntentRow) (tip : Nat) (branchId : UInt32) :
    Option (Except WalletError ReleaseBuild) :=
  match notReleasable row tip, w.vaults with
  | some why, _ => some (.error (.other why))
  | none, .error e => some (.error e)
  | none, .ok vaults =>
    match residualHeld row vaults tip, pqCoin row with
    | some why, _ => some (.error (.other why))
    | none, some (coin, owner) => some (buildPqSweep C w row coin owner tip branchId)
    | none, none =>
      match readIntent C w row with
      | .error e => some (.error e)
      | .ok (ip, address) =>
        match fundRelease w row with
        | none => none
        | some (.error e) => some (.error (.coins e))
        | some (.ok (fee, inputs)) =>
          some (finishRelease C w row ip address tip branchId fee inputs)

end Build

/-! ## What its coins are -/

/-- What a release with some coins of the wallet's costs; one is counted in any case. -/
def releasePrice (t : PqTerms) (row : IntentRow) (us : List Utxo) : Int :=
  releaseFee t row (max 1 us.length)

/-- A size that is not 0 is never priced below the flat fee, so a fee per byte that is rounded up
does not show. -/
theorem PqTerms.yedFee_eq {t : PqTerms} (hflat : feeZat ≤ t.flatZat) {size : Nat} (hpos : 0 < size) :
    t.yedFee size = max (min (max (min (max t.yedRateZatPerKb 0 * size) i64Max / 1000) t.flatZat)
      t.maxFeeZat) t.flatZat := by
  have hflat' : 1000 ≤ t.flatZat := hflat
  rw [PqTerms.yedFee, rateFee]
  congr 2
  split
  · rename_i hzero
    obtain ⟨hzero, hrate⟩ := hzero
    have hle : t.yedRateZatPerKb * 1 ≤ max t.yedRateZatPerKb 0 * size := by
      rw [max_eq_left hrate.le]
      exact Int.mul_le_mul_of_nonneg_left (by omega) hrate.le
    generalize max t.yedRateZatPerKb 0 * (size : Int) = priced at hzero hle ⊢
    rw [hzero, max_eq_right, max_eq_right (by omega)]
    unfold i64Max at hzero
    omega
  · rfl

theorem releaseFee_mono {t : PqTerms} (hflat : feeZat ≤ t.flatZat) (row : IntentRow) {n n' : Nat}
    (h : n ≤ n') : releaseFee t row n ≤ releaseFee t row n' := by
  rw [releaseFee, releaseFee, PqTerms.yedFee_eq hflat (by omega), PqTerms.yedFee_eq hflat (by omega)]
  refine max_le_max_right _ (min_le_min_right _ (max_le_max_right _ ?_))
  refine Int.ediv_le_ediv (by decide) (min_le_min_right _ ?_)
  refine Int.mul_le_mul_of_nonneg_left ?_ (le_max_right _ _)
  exact_mod_cast (by omega)

theorem releaseFee_pos {t : PqTerms} (hflat : feeZat ≤ t.flatZat) (row : IntentRow) (n : Nat) :
    0 < releaseFee t row n := by
  have hflat' : 1000 ≤ t.flatZat := hflat
  have hle : t.flatZat ≤ releaseFee t row n := le_max_right _ _
  omega

variable {C : Crypto} {w : ReleaseWallet}

theorem fundRelease_ne_none (w : ReleaseWallet) (row : IntentRow) : fundRelease w row ≠ none :=
  climb_fundTurn_ne_none _

/-- Coins that were selected for something are not none, so each of them is counted. -/
theorem fundTurn_releasePrice (row : IntentRow) {x : Int} (hx : 0 < x) :
    fundTurn w.spendable 0 (fun us ↦ releaseFee w.pqTerms row us.length) x =
      fundTurn w.spendable 0 (releasePrice w.pqTerms row) x := by
  rw [fundTurn, fundTurn]
  cases hsel : selectYec w.spendable (0 + x) true with
  | error e => rfl
  | ok sel =>
    have hcovers := (selectYec_eq_ok hsel).2
    have hlen : 1 ≤ sel.length := by
      cases sel with
      | nil =>
        rw [zats_nil] at hcovers
        omega
      | cons u us => exact Nat.le_add_left 1 us.length
    show Except.ok (_, sel) = Except.ok (releaseFee w.pqTerms row (max 1 sel.length), sel)
    rw [max_eq_right hlen]

/-- The coins of a release are the first ones that pay for themselves, and the fee is their price. -/
theorem fundRelease_eq_ok {row : IntentRow} {fee : Int} {inputs : List Utxo}
    (h : fundRelease w row = some (.ok (fee, inputs))) :
    fee ≤ zats inputs ∧ fee = releasePrice w.pqTerms row inputs ∧
      ownFunding w.spendable 0 (releasePrice w.pqTerms row) = inputs := by
  have hcovers : fee ≤ zats inputs := by
    obtain ⟨-, p, hturn, -⟩ := Climb.climb_eq_ok h
    have hle := (selectYec_eq_ok (fundTurn_eq_ok hturn).1).2
    omega
  have hcongr : fundRelease w row = climb (fundTurn w.spendable 0 (releasePrice w.pqTerms row))
      (w.spendable.length + 2) (releasePrice w.pqTerms row []) := by
    refine Climb.climb_congr (P := (0 < ·)) (fun x hx ↦ fundTurn_releasePrice row hx) ?_ ?_
    · intro x y b _ hturn
      rw [(fundTurn_eq_ok hturn).2]
      exact releaseFee_pos w.flat_le row _
    · exact releaseFee_pos w.flat_le row 1
  rw [hcongr] at h
  refine ⟨hcovers,
    climb_eq_ownFunding (fun x p b hturn ↦ fundTurn_eq_ok hturn) (fun us more ↦ ?_) h⟩
  refine releaseFee_mono w.flat_le row ?_
  rw [List.length_append]
  omega

/-! ## The fee a preview shows -/

/-- The amounts a transfer pays: its tokens, its payload and its change. -/
def YedTransferPreview.amounts (p : YedTransferPreview) : List Int :=
  List.replicate (p.recipients.length + if p.changeCents > 0 then 1 else 0) tokenZat ++
    0 :: if p.yecChange > 0 then [p.yecChange] else []

/-- The fee a transfer shows is what its inputs bring and its outputs do not take. -/
theorem buildYedTransfer_fee {w : Wallet} {recipients : List (String × Nat)} {tip : Nat}
    {branchId : UInt32} {p : YedTransferPreview}
    (h : buildYedTransfer C w recipients tip branchId = some (.ok p)) :
    OnWire p.raw ((p.yedInputs ++ p.yecInputs).map Utxo.outpoint) p.amounts ∧
      p.fee = zats (p.yedInputs ++ p.yecInputs) - p.amounts.sum := by
  obtain ⟨plan, a, hplan, ha, hp⟩ := buildYedTransfer_eq_ok h
  obtain ⟨outs, change, hplans⟩ := planTransfer_eq_ok hplan
  obtain ⟨baseFee, tx, hasm⟩ := assemble_eq_ok ha
  simp only [previewTransfer, Result.bind_eq_ok] at hp
  obtain ⟨-, -, hp⟩ := hp
  cases hp
  have hchange : change.length = if plan.changeCents > 0 then 1 else 0 := by
    rcases changeOutput_eq_ok hplans.changed with ⟨hzero, rfl⟩ | ⟨script, -, hpos, rfl⟩
    · rw [hzero]
      rfl
    · exact (if_pos hpos).symm
  have hvalues : (transferOuts plan.tokens a.payload a.yecChange plan.changeRow.hash160).map
      Out.value = List.replicate (recipients.length + if plan.changeCents > 0 then 1 else 0) tokenZat
        ++ 0 :: if a.yecChange > 0 then [a.yecChange] else [] := by
    have htokens : plan.tokens.length =
        recipients.length + if plan.changeCents > 0 then 1 else 0 := by
      rw [hplans.tokens, List.length_append, hplans.pays.length_eq, hchange]
    have hmap : plan.tokens.map (Out.value ∘ fun o ↦ ⟨tokenZat, o.1⟩) =
        List.replicate plan.tokens.length tokenZat := List.map_const' ..
    rw [transferOuts, List.map_append, List.map_map, List.map_cons, map_value_kept, hmap, htokens]
  have hwire := onWire_of_sameBody hasm.body hasm.raw (map_prevout_newTxIn _) rfl
  have hbalance := hasm.balance
  rw [hvalues] at hwire
  rw [paid, hvalues] at hbalance
  exact ⟨hwire, hbalance.symm⟩

theorem keepChange_eq_self_iff {spare : Int} (h : 0 ≤ spare) :
    keepChange spare = spare ↔ spare = 0 ∨ minChange ≤ spare ∧ spare ≠ tokenZat := by
  have htoken := tokenZat_eq
  rcases keepChange_cases spare with ⟨hspare, hkeep⟩ | ⟨hne, ⟨hpos, hlt, hkeep⟩ | ⟨hge, hkeep⟩⟩
  · rw [hkeep]
    omega
  · rw [hkeep]
    omega
  · rw [hkeep]
    omega

/-- The outputs that a release or the move of a row's coin spends. -/
def spentBy (row : IntentRow) (p : ReleaseBuild) : List OutPoint :=
  match pqCoin row with
  | some (coin, _) => [coin]
  | none => row.outpoint :: p.inputs.map Utxo.outpoint

/-- The coins a release takes, the first ones that pay for themselves, bring what they cost or
enough more for an output that does not look like a token. -/
def GivesBack (w : ReleaseWallet) (row : IntentRow) : Prop :=
  let us := ownFunding w.spendable 0 (releasePrice w.pqTerms row)
  let spare := zats us - releasePrice w.pqTerms row us
  spare = 0 ∨ minChange ≤ spare ∧ spare ≠ tokenZat

theorem pqMove_fee {intent coin : OutPoint} {valueIn : Int} {script : Bytes} {key : PqKey} {tip : Nat}
    {branchId : UInt32} {p : ReleaseBuild}
    (h : pqMove C w intent coin valueIn script key tip branchId = .ok p) :
    OnWire p.raw [coin] p.amounts ∧ p.fee = valueIn - p.amounts.sum ∧ p.inputs = [] := by
  rw [pqMove] at h
  dsimp only at h
  split at h
  · cases h
  · simp only [Result.bind_eq_ok] at h
    obtain ⟨dest, -, h⟩ := h
    split at h
    · cases h
    · simp only [Result.bind_eq_ok, Result.guard_eq_ok, Result.mapError_eq_ok] at h
      obtain ⟨size, -, conventional, -, -, sig, -, -, -, -, raw, hraw, -, -, h⟩ := h
      cases h
      refine ⟨?_, ?_, rfl⟩
      · exact onWire_of_sameBody (SameBody.setScriptSig _ 0 sig) hraw rfl rfl
      · simp [ReleaseBuild.amounts]

theorem finishRelease_fee {row : IntentRow} {ip : IntentParams} {address : String} {tip : Nat}
    {branchId : UInt32} {fee : Int} {inputs : List Utxo} {p : ReleaseBuild}
    (hspare : 0 ≤ zats inputs - fee)
    (h : finishRelease C w row ip address tip branchId fee inputs = .ok p) :
    OnWire p.raw (row.outpoint :: inputs.map Utxo.outpoint) p.amounts ∧ p.inputs = inputs ∧
      p.fee = fee ∧ p.amounts.sum = row.value + keepChange (zats inputs - fee) := by
  simp only [finishRelease, Result.bind_eq_ok, Result.mapError_eq_ok] at h
  obtain ⟨changeRow, -, tx, hsign, raw, hraw, -, -, h⟩ := h
  cases h
  refine ⟨?_, rfl, rfl, ?_⟩
  · have hwire := onWire_of_sameBody (Wallet.sameBody_of_signP2pkhInputs hsign) hraw
      (congrArg (row.outpoint :: ·) (map_prevout_newTxIn inputs)) rfl
    rw [releaseOuts, List.map_cons, map_value_kept] at hwire
    exact hwire
  · rw [ReleaseBuild.amounts, List.sum_cons, sum_kept (keepChange_spec hspare).1]

/-- The fee that is shown: always that of a move, and that of a release when its coins give back. -/
theorem buildRelease_fee {row : IntentRow} {tip : Nat} {branchId : UInt32} {p : ReleaseBuild}
    (h : buildRelease C w row tip branchId = some (.ok p)) :
    OnWire p.raw (spentBy row p) p.amounts ∧
      (p.fee = row.value + zats p.inputs - p.amounts.sum ↔
        (pqCoin row).isSome ∨ GivesBack w row) := by
  rw [buildRelease] at h
  split at h
  · cases h
  · cases h
  · split at h
    · cases h
    · rename_i coin owner _ hcoin
      rw [Option.some.injEq, buildPqSweep, Result.bind_eq_ok] at h
      obtain ⟨owners, -, h⟩ := h
      split at h
      · cases h
      · rw [Result.bind_eq_ok] at h
        obtain ⟨key, -, h⟩ := h
        split at h
        · cases h
        · obtain ⟨hwire, hfee, hinputs⟩ := pqMove_fee h
          rw [spentBy, hcoin, hinputs, zats_nil, Int.add_zero]
          exact ⟨hwire, iff_of_true hfee (.inl rfl)⟩
    · rename_i hcoin
      split at h
      · cases h
      · split at h
        · cases h
        · cases h
        · rename_i ip address _ fee inputs hfund
          obtain ⟨hcovers, hprice, hown⟩ := fundRelease_eq_ok hfund
          have hspare : 0 ≤ zats inputs - fee := sub_nonneg.mpr hcovers
          obtain ⟨hwire, hinputs, hfee, hsum⟩ := finishRelease_fee hspare (Option.some.inj h)
          rw [spentBy, hcoin, hinputs]
          refine ⟨hwire, ?_⟩
          rw [GivesBack, hown, ← hprice, ← keepChange_eq_self_iff hspare, hfee, hsum]
          simp only [Option.isSome_none, Bool.false_eq_true, false_or]
          omega

theorem buildRelease_ne_none {row : IntentRow} {tip : Nat} {branchId : UInt32} :
    buildRelease C w row tip branchId ≠ none := by
  rw [buildRelease]
  split
  · nofun
  · nofun
  · split
    · nofun
    · nofun
    · split
      · nofun
      · split
        · rename_i hnone
          exact absurd hnone (fundRelease_ne_none w row)
        · nofun
        · nofun

/-- The network fee that is shown and the one that is paid: what goes in less what comes out.  For a
send and a transfer, and for the move of a released coin, they are the same; for a release they are
the same exactly when its coins give back all that they bring in excess. -/
theorem previewed_fee_iff (C : Crypto) (w : ReleaseWallet) (to_ : String) (amount : Int)
    (sendEverything : Bool) (recipients : List (String × Nat)) (row : IntentRow) (tip : Nat)
    (branchId : UInt32) :
    (∀ p, buildYecSend C w.toWallet to_ amount sendEverything tip branchId = .ok p →
      OnWire p.raw (p.inputs.map Utxo.outpoint) p.amounts ∧
        p.fee = zats p.inputs - p.amounts.sum) ∧
    (∀ p, buildYedTransfer C w.toWallet recipients tip branchId = some (.ok p) →
      OnWire p.raw ((p.yedInputs ++ p.yecInputs).map Utxo.outpoint) p.amounts ∧
        p.fee = zats (p.yedInputs ++ p.yecInputs) - p.amounts.sum) ∧
    buildRelease C w row tip branchId ≠ none ∧
    ∀ p, buildRelease C w row tip branchId = some (.ok p) →
      OnWire p.raw (spentBy row p) p.amounts ∧
        (p.fee = row.value + zats p.inputs - p.amounts.sum ↔
          (pqCoin row).isSome ∨ GivesBack w row) :=
  ⟨fun _ h ↦ buildYecSend_fee h, fun _ h ↦ buildYedTransfer_fee h, buildRelease_ne_none,
    fun _ h ↦ buildRelease_fee h⟩

/-! ## A release with one coin -/

/-- A wallet with one coin of `value` zatoshi. -/
def sampleReleaseWallet (value : Int) : ReleaseWallet where
  network := .regtest
  pqTerms := ⟨100, 100, 100, 1000, 1000000000, none, false⟩
  spendable := [⟨⟨List.Vector.replicate 32 2, 0⟩, "yec", p2pkhScript (List.Vector.replicate 20 2),
    value, 5, .yec, 0⟩]
  changeAddress := .ok ⟨List.Vector.replicate 20 3, "change", none⟩
  freshExternal _ := .error (.other "none")
  addresses := .ok []
  pqOwnerForHash _ := none
  keyForHash _ := .ok none
  scriptSig _ _ _ _ := .ok []
  classOf _ := some .yec
  vaults := .ok []
  ownHashes := .ok [List.Vector.replicate 20 1]
  ownPqOwners := .ok fun _ ↦ none
  pqKeyForOwner _ _ := .ok none
  pqScriptSig _ _ _ _ _ := .ok []
  flat_le := le_rfl

/-- A matured intent of half a million zatoshi for the wallet's own key. -/
def sampleIntentRow : IntentRow where
  outpoint := ⟨List.Vector.replicate 32 4, 0⟩
  vaultTxid := List.Vector.replicate 32 5
  role := "claimant"
  value := 500000
  recipientScript := p2pkhScript (List.Vector.replicate 20 1)
  intentScript := (buildIntent {
    tag := yedTag
    recipientHash := scriptHash256 Crypto.blank (p2pkhScript (List.Vector.replicate 20 1))
    vaultHash := List.Vector.replicate 32 0
    delay := 10
    cancelSetId := List.Vector.replicate 32 0
    setId := List.Vector.replicate 32 0
    owner := ⟨schemeSlhDsa, List.Vector.replicate 32 9⟩ }).getD []
  delay := 10
  height := 50
  state := .pending
  spendTxid := List.Vector.replicate 32 0
  pqSpendTxid := List.Vector.replicate 32 0
  note := ""
  refundScript := []
  refundCents := 0

/-- A coin of 50,000 zatoshi gives back all but the fee. -/
theorem previewed_fee_sample :
    ∃ p, buildRelease Crypto.blank (sampleReleaseWallet 50000) sampleIntentRow 100 0 =
        some (.ok p) ∧
      p.fee = sampleIntentRow.value + zats p.inputs - p.amounts.sum := by
  obtain ⟨p, hp⟩ := @exists_of_mapIsOk _ _
    (buildRelease Crypto.blank (sampleReleaseWallet 50000) sampleIntentRow 100 0)
    (by decide +kernel)
  have hfee := (previewed_fee_iff Crypto.blank (sampleReleaseWallet 50000) "" 0 false []
    sampleIntentRow 100 0).2.2.2 p hp
  refine ⟨p, hp, hfee.2.mpr (.inr ?_)⟩
  unfold GivesBack
  decide +kernel

/-- Of a coin of 1,050 zatoshi a fee of 1,000 is shown and all of it is paid. -/
theorem not_previewed_fee :
    ∃ p, buildRelease Crypto.blank (sampleReleaseWallet 1050) sampleIntentRow 100 0 =
        some (.ok p) ∧
      OnWire p.raw (spentBy sampleIntentRow p) p.amounts ∧
      p.fee ≠ sampleIntentRow.value + zats p.inputs - p.amounts.sum := by
  obtain ⟨p, hp⟩ := @exists_of_mapIsOk _ _
    (buildRelease Crypto.blank (sampleReleaseWallet 1050) sampleIntentRow 100 0)
    (by decide +kernel)
  obtain ⟨hwire, hiff⟩ := buildRelease_fee hp
  refine ⟨p, hp, hwire, ?_⟩
  rw [Ne, hiff]
  unfold GivesBack
  decide +kernel

end Yew.Build
