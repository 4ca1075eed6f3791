import Yew.Build.Mint

/-!
# What the second step of a mint balances

One inversion lemma per part of the builder, and from them what holds of every mint transaction
that was built (`MintBalances`).

The builder is `finish` of `core/src/build/mint.rs`.  A mint is read off its wire form: the outputs,
the payload and the fee are those of the bytes that were signed.
-/

namespace Yew.Build

open Script Tx Pq Keys Coins Yellowback Vault Store

variable {C : Crypto} {w : Wallet} {m : MintRow}

/-! ## Outputs -/

theorem buildOrRefuse_eq_ok {p : VaultParams} {s : Bytes} (h : buildOrRefuse p = .ok s) :
    buildVault p = some s := by
  rw [buildOrRefuse] at h
  split at h
  · cases h
    assumption
  · cases h

theorem isOpReturn_mintTokenScript {s : Bytes} (h : mintTokenScript w m = .ok s) :
    isOpReturn s = false := by
  rw [mintTokenScript] at h
  split at h
  · cases h
    rfl
  · rw [Result.bind_eq_ok] at h
    obtain ⟨rows, -, h⟩ := h
    split at h
    · cases h
    · exact Wallet.isOpReturn_yedHolderScript h

/-- The output of a fee: none without a payee. -/
theorem payeeOut_eq_ok {payee : String} {value : Int} {outs : List Out}
    (h : payeeOut C w payee value = .ok outs) :
    (payee.isEmpty ∧ outs = []) ∨
      ¬ payee.isEmpty ∧ ∃ s, p2pkhOfAddress C w.network payee = .ok s ∧ outs = [⟨value, s⟩] := by
  rw [payeeOut] at h
  split at h
  · rename_i hempty
    cases h
    exact .inl ⟨hempty, rfl⟩
  · rename_i hempty
    rw [Result.bind_eq_ok] at h
    obtain ⟨s, hs, h⟩ := h
    cases h
    exact .inr ⟨hempty, s, hs, rfl⟩

theorem isOpReturn_payeeOut {payee : String} {value : Int} {outs : List Out}
    (h : payeeOut C w payee value = .ok outs) : ∀ o ∈ outs, isOpReturn o.scriptPubkey = false := by
  rcases payeeOut_eq_ok h with ⟨-, rfl⟩ | ⟨-, s, hs, rfl⟩
  · simp
  · intro o ho
    rw [List.mem_singleton] at ho
    subst ho
    exact isOpReturn_p2pkhOfAddress hs

/-- What `mint_outputs` made: the vault, the token and the payload, and the fees. -/
structure MintOuts (C : Crypto) (w : Wallet) (m : MintRow) (owner : PqKeyId) (vt : VaultTerms)
    (vault token payload : Bytes) (termClass : UInt8) (fee attest : List Out) : Prop where
  vault_eq : buildVault (vt.mintVaultParams owner m.refHeight) = some vault
  token_eq : mintTokenScript w m = .ok token
  payload_eq : encode (mintPayload m owner termClass) = some payload
  class_eq : termClassByte m.termClass = .ok termClass
  fee_eq : payeeOut C w m.payee m.feeZat = .ok fee
  attest_eq : payeeOut C w m.attestPayee m.attestFeeZat = .ok attest

/-- The outputs of a mint before change. -/
abbrev mintOutsOf (m : MintRow) (vault token payload : Bytes) (fee attest : List Out) : List Out :=
  [⟨m.collateralZat, vault⟩, ⟨tokenZat, token⟩, ⟨0, payloadScript payload⟩] ++ fee ++ attest

theorem mintOutputs_eq_ok {owner : PqKeyId} {vt : VaultTerms} {outs : List Out}
    (h : mintOutputs C w m owner vt = .ok outs) :
    ∃ vault token payload termClass fee attest,
      MintOuts C w m owner vt vault token payload termClass fee attest ∧
      outs = mintOutsOf m vault token payload fee attest := by
  rw [mintOutputs, Result.guard_eq_ok] at h
  obtain ⟨-, h⟩ := h
  simp only [Result.bind_eq_ok] at h
  obtain ⟨vault, hvault, termClass, hclass, h⟩ := h
  split at h
  · cases h
  · rename_i payload hpayload
    simp only [Result.bind_eq_ok] at h
    obtain ⟨token, htoken, fee, hfee, attest, hattest, h⟩ := h
    cases h
    exact ⟨vault, token, payload, termClass, fee, attest,
      ⟨buildOrRefuse_eq_ok hvault, htoken, hpayload, hclass, hfee, hattest⟩, rfl⟩

namespace MintOuts

variable {owner : PqKeyId} {vt : VaultTerms} {vault token payload : Bytes} {termClass : UInt8}
  {fee attest change : List Out}

/-- The fee's index points at the fee's output, or there is none. -/
theorem getElem?_fee (h : MintOuts C w m owner vt vault token payload termClass fee attest) :
    (m.payee.isEmpty ∧ mintFeeVout m = feeVoutNone) ∨
      ∃ s, p2pkhOfAddress C w.network m.payee = .ok s ∧ mintFeeVout m = 3 ∧
        (mintOutsOf m vault token payload fee attest ++ change)[3]? = some ⟨m.feeZat, s⟩ := by
  rcases payeeOut_eq_ok h.fee_eq with ⟨hempty, -⟩ | ⟨hempty, s, hs, rfl⟩
  · exact .inl ⟨hempty, if_pos hempty⟩
  · exact .inr ⟨s, hs, if_neg hempty, rfl⟩

/-- The attestors' index points at their output, behind the fee's if there is one. -/
theorem getElem?_attest (h : MintOuts C w m owner vt vault token payload termClass fee attest) :
    (m.attestPayee.isEmpty ∧ mintAttestFeeVout m = feeVoutNone) ∨
      ∃ s, p2pkhOfAddress C w.network m.attestPayee = .ok s ∧ mintAttestFeeVout m ≠ feeVoutNone ∧
        (mintOutsOf m vault token payload fee attest ++ change)[(mintAttestFeeVout m).toNat]? =
          some ⟨m.attestFeeZat, s⟩ := by
  rcases payeeOut_eq_ok h.attest_eq with ⟨hempty, -⟩ | ⟨hempty, s, hs, rfl⟩
  · exact .inl ⟨hempty, if_pos hempty⟩
  · refine .inr ⟨s, hs, ?_⟩
    rcases payeeOut_eq_ok h.fee_eq with ⟨hfee, rfl⟩ | ⟨hfee, s', -, rfl⟩
    · rw [mintAttestFeeVout, if_neg hempty, if_pos hfee]
      exact ⟨by decide, rfl⟩
    · rw [mintAttestFeeVout, if_neg hempty, if_neg hfee]
      exact ⟨by decide, rfl⟩

/-- The payload is the third output, and the only `OP_RETURN`. -/
theorem findPayload (h : MintOuts C w m owner vt vault token payload termClass fee attest)
    (hchange : ∀ o ∈ change, isOpReturn o.scriptPubkey = false) {tx : Transaction}
    (hvout : tx.vout =
      (mintOutsOf m vault token payload fee attest ++ change).map Out.toTxOut) :
    Yellowback.findPayload tx = some ⟨mintPayload m owner termClass, 2⟩ := by
  refine (@findPayload_outs _ [⟨m.collateralZat, vault⟩, ⟨tokenZat, token⟩]
    (fee ++ attest ++ change)) ?_ ?_ ?_ h.payload_eq ?_
  · rw [hvout]
    simp
  · intro o ho
    rcases List.mem_pair.mp ho with rfl | rfl
    · exact isOpReturn_buildVault h.vault_eq
    · exact isOpReturn_mintTokenScript h.token_eq
  · intro o ho
    rcases List.mem_append.mp ho with ho | ho
    · rcases List.mem_append.mp ho with ho | ho
      · exact isOpReturn_payeeOut h.fee_eq o ho
      · exact isOpReturn_payeeOut h.attest_eq o ho
    · exact hchange o ho
  · rw [mintPayload]
    nofun

end MintOuts

/-! ## Change and signatures -/

/-- The change output: none, or one of the change to a fresh key. -/
theorem mintChange_eq_ok {change : Int} {out : List Out} {row : Option AddressRow}
    (h : mintChange w change = .ok (out, row)) :
    (change ≤ 0 ∧ out = []) ∨
      0 < change ∧ ∃ r, w.changeAddress = .ok r ∧ out = [⟨change, p2pkhScript r.hash160⟩] := by
  rw [mintChange] at h
  split at h
  · rename_i hpos
    rw [Result.bind_eq_ok] at h
    obtain ⟨r, hr, h⟩ := h
    cases h
    exact .inr ⟨hpos, r, hr, rfl⟩
  · cases h
    exact .inl ⟨by omega, rfl⟩

theorem isOpReturn_mintChange {change : Int} {out : List Out} {row : Option AddressRow}
    (h : mintChange w change = .ok (out, row)) :
    ∀ o ∈ out, isOpReturn o.scriptPubkey = false := by
  rcases mintChange_eq_ok h with ⟨-, rfl⟩ | ⟨-, r, -, rfl⟩
  · simp
  · intro o ho
    rw [List.mem_singleton] at ho
    subst ho
    rfl

theorem paid_mintChange {change : Int} {out : List Out} {row : Option AddressRow}
    (hchange : 0 ≤ change) (h : mintChange w change = .ok (out, row)) : paid out = change := by
  rcases mintChange_eq_ok h with ⟨hle, rfl⟩ | ⟨-, r, -, rfl⟩
  · rw [paid_nil]
    omega
  · simp

theorem sameBody_of_signCarrierInput {tx tx' : Transaction} {index : Nat} {key : SecretKey}
    {redeem bundle : Bytes} {branchId : UInt32}
    (h : signCarrierInput C tx index key redeem bundle branchId = .ok tx') : SameBody tx tx' := by
  simp only [signCarrierInput, Result.bind_eq_ok] at h
  obtain ⟨digest, -, scriptSig, -, h⟩ := h
  cases h
  exact ⟨map_prevout_modify tx.vin index scriptSig, rfl, rfl, rfl⟩

/-- What `completeMint` came out with. -/
theorem completeMint_eq_ok {outs : List Out} {redeem : Bytes} {key : SecretKey}
    {validate : Bytes → Except WalletError Unit} {branchId : UInt32} {fee : Int}
    {inputs : List Utxo} {b : MintMain}
    (h : completeMint C w m outs redeem key validate branchId fee inputs = .ok b) :
    b.inputs = inputs ∧ b.change = keepChange (zats inputs - (paid outs + fee - carrierZat)) ∧
      ∃ changeOut tx, mintChange w b.change = .ok (changeOut, b.changeRow) ∧
        SameBody (mintTx m inputs (outs ++ changeOut)) tx ∧ tx.serialize = .ok b.raw := by
  simp only [completeMint, Result.bind_eq_ok] at h
  obtain ⟨⟨changeOut, row⟩, hchange, tx₁, h₁, tx₂, h₂, raw, hraw, -, -, -, -, h⟩ := h
  cases h
  exact ⟨rfl, rfl, changeOut, tx₂, hchange,
    (Wallet.sameBody_of_signP2pkhInputs h₁).trans (sameBody_of_signCarrierInput h₂),
    Result.mapError_eq_ok.mp hraw⟩

/-! ## The step -/

/-- A mint transaction that balances: `tx` is the transaction, `outs` are its outputs, `owner` the
vault's and `fee` what goes to the network. -/
structure MintBalances (C : Crypto) (w : Wallet) (m : MintRow) (vt : VaultTerms) (b : MintMain)
    (tx : Transaction) (outs : List Out) (owner : PqKeyId) (fee : Int) : Prop where
  raw : tx.serialize = .ok b.raw
  /-- The funding comes first and is the wallet's, the carrier is the last input. -/
  vin : tx.vin.map TxIn.prevout = b.inputs.map Utxo.outpoint ++ [m.carrier]
  spendable : ∀ u ∈ b.inputs, u ∈ w.spendable ∧ u.utxoClass.yecSpendable
  vout : tx.vout = outs.map Out.toTxOut
  balance : zats b.inputs + carrierZat = paid outs + fee
  priced : mintNetworkFee w b.inputs ≤ fee
  /-- YEC change is the last output if there is any, and never a trifle or a token. -/
  change : (b.change = 0 ∧ mintOutputs C w m owner vt = .ok outs) ∨
    minChange ≤ b.change ∧ b.change ≠ tokenZat ∧ ∃ base row, mintOutputs C w m owner vt = .ok base ∧
      w.changeAddress = .ok row ∧ outs = base ++ [⟨b.change, p2pkhScript row.hash160⟩]
  /-- The vault is of the recorded owner and reference height, with the recorded collateral. -/
  vault : m.owner = some owner ∧ ∃ script,
    buildVault (vt.mintVaultParams owner m.refHeight) = some script ∧
    outs[0]? = some ⟨m.collateralZat, script⟩
  token : ∃ script, mintTokenScript w m = .ok script ∧ outs[1]? = some ⟨tokenZat, script⟩
  /-- The payload is found at its place, and its indices point at the outputs of the fees. -/
  payload : ∃ termClass feeVout attestFeeVout,
    findPayload tx = some ⟨.mint termClass (UInt32.ofNat m.cents) m.lockHeight m.refHeight owner
      feeVout attestFeeVout, 2⟩ ∧
    ((m.payee.isEmpty ∧ feeVout = feeVoutNone) ∨
      ∃ script, p2pkhOfAddress C w.network m.payee = .ok script ∧ feeVout ≠ feeVoutNone ∧
        outs[feeVout.toNat]? = some ⟨m.feeZat, script⟩) ∧
    ((m.attestPayee.isEmpty ∧ attestFeeVout = feeVoutNone) ∨
      ∃ script, p2pkhOfAddress C w.network m.attestPayee = .ok script ∧
        attestFeeVout ≠ feeVoutNone ∧
        outs[attestFeeVout.toNat]? = some ⟨m.attestFeeZat, script⟩)

theorem mintOwner_eq_ok {owner : PqKeyId} (h : mintOwner w m = .ok owner) :
    m.owner = some owner ∧ w.pqOwnerForHash m.ownerHash160 = some owner := by
  rw [mintOwner] at h
  split at h
  · cases h
  · rename_i o ho
    rw [Result.check_eq_ok] at h
    obtain ⟨hpaired, h⟩ := h
    cases h
    exact ⟨ho, hpaired⟩

theorem finishMint_eq_ok {vt : Except WalletError VaultTerms}
    {validate : Bytes → Except WalletError Unit} {branchId : UInt32} {b : MintMain}
    (h : finishMint C w m vt validate branchId = some (.ok b)) :
    ∃ owner redeem key vt' outs fee inputs, mintOwner w m = .ok owner ∧ vt = .ok vt' ∧
      mintOutputs C w m owner vt' = .ok outs ∧
      fund w.spendable (paid outs - carrierZat) (mintNetworkFee w) = some (.ok (fee, inputs)) ∧
      completeMint C w m outs redeem key validate branchId fee inputs = .ok b := by
  rw [finishMint] at h
  split at h
  · cases h
  · rename_i outs redeem key hprep
    simp only [Result.bind_eq_ok] at hprep
    obtain ⟨owner, howner, ⟨redeem', key'⟩, -, vt', hvt, outs', houts, hprep⟩ := hprep
    cases hprep
    split at h
    · cases h
    · cases h
    · rename_i fee inputs hfund
      exact ⟨owner, redeem', key', vt', outs, fee, inputs, howner, hvt, houts, hfund,
        Option.some.inj h⟩

theorem finishMint_ne_none {vt : Except WalletError VaultTerms}
    {validate : Bytes → Except WalletError Unit} {branchId : UInt32} :
    finishMint C w m vt validate branchId ≠ none := by
  rw [finishMint]
  split
  · nofun
  · split
    · rename_i hfund
      exact absurd hfund fund_ne_none
    · nofun
    · nofun

theorem mintBalances_of_finishMint {vt : Except WalletError VaultTerms}
    {validate : Bytes → Except WalletError Unit} {branchId : UInt32} {b : MintMain}
    (h : finishMint C w m vt validate branchId = some (.ok b)) :
    ∃ vt' tx outs owner fee, vt = .ok vt' ∧ MintBalances C w m vt' b tx outs owner fee := by
  obtain ⟨owner, redeem, key, vt', base, fee, inputs, howner, hvt, hbase, hfund, hb⟩ :=
    finishMint_eq_ok h
  obtain ⟨rfl, hkeep, changeOut, tx, hchange, hbody, hraw⟩ := completeMint_eq_ok hb
  obtain ⟨vault, token, payload, termClass, feeOut, attest, houts, rfl⟩ := mintOutputs_eq_ok hbase
  obtain ⟨hfront, hcovers, hprice⟩ := fund_eq_ok hfund
  -- the coins cover what they were selected for, so the excess is not negative
  have hspare : 0 ≤ zats b.inputs -
      (paid (mintOutsOf m vault token payload feeOut attest) + fee - carrierZat) := by omega
  obtain ⟨hnonneg, hle, hkept, hne⟩ := keepChange_spec hspare
  rw [← hkeep] at hnonneg hle hkept hne
  have hpaid := paid_mintChange hnonneg hchange
  have hvout : tx.vout =
      (mintOutsOf m vault token payload feeOut attest ++ changeOut).map Out.toTxOut := hbody.vout
  refine ⟨vt', tx, mintOutsOf m vault token payload feeOut attest ++ changeOut, owner,
    zats b.inputs + carrierZat - paid (mintOutsOf m vault token payload feeOut attest) - b.change,
    hvt, hraw, ?_, ?_, hvout, ?_, ?_, ?_, ⟨(mintOwner_eq_ok howner).1, vault, houts.vault_eq, rfl⟩,
    ⟨token, houts.token_eq, rfl⟩, ⟨termClass, mintFeeVout m, mintAttestFeeVout m,
      houts.findPayload (isOpReturn_mintChange hchange) hvout, ?_, ?_⟩⟩
  · rw [hbody.prevouts, mintTx, newV4, List.map_map]
    exact List.map_id _
  · intro u hu
    exact mem_pool (hfront.subset hu)
  · rw [paid_append, hpaid]
    omega
  · omega
  · rcases mintChange_eq_ok hchange with ⟨hzero, rfl⟩ | ⟨hpos, row, hrow, rfl⟩
    · exact .inl ⟨by omega, by rw [List.append_nil]; exact hbase⟩
    · exact .inr ⟨hkept.resolve_left (by omega), hne, _, row, hbase, hrow, rfl⟩
  · rcases @MintOuts.getElem?_fee _ _ _ _ _ _ _ _ _ _ _ changeOut houts with hnone | ⟨s, hs, hvout, hget⟩
    · exact .inl hnone
    · refine .inr ⟨s, hs, ?_, ?_⟩
      · rw [hvout]
        decide
      · rw [hvout]
        exact hget
  · exact houts.getElem?_attest

/-- Every mint transaction that is built balances, and the loop that funds it ends. -/
theorem finishMint_balances (C : Crypto) (w : Wallet) (m : MintRow)
    (vt : Except WalletError VaultTerms) (validate : Bytes → Except WalletError Unit)
    (branchId : UInt32) :
    finishMint C w m vt validate branchId ≠ none ∧
      ∀ b, finishMint C w m vt validate branchId = some (.ok b) →
        ∃ vt' tx outs owner fee, vt = .ok vt' ∧ MintBalances C w m vt' b tx outs owner fee :=
  ⟨finishMint_ne_none, fun _ h ↦ mintBalances_of_finishMint h⟩

/-! ## A mint that pays both fees -/

/-- The key of the carrier. -/
def sampleSecret : SecretKey := ⟨1 ::ᵥ List.Vector.replicate 31 0, by decide +kernel⟩

/-- The owner of the vault. -/
def sampleOwner : PqKeyId := ⟨schemeSlhDsa, List.Vector.replicate 32 9⟩

/-- An address that fees go to. -/
def samplePayee : String := encodeP2pkh Crypto.blank .regtest (List.Vector.replicate 20 7)

/-- A mint of fifty dollars whose carrier is confirmed. -/
def sampleMint : MintRow where
  id := 1
  kind := .mint
  state := .carrierConfirmed
  createdHeight := 100
  cents := 5000
  lockBlocks := 1000
  termClass := "A"
  refHeight := 100
  lockHeight := 1100
  claimHeight := 1200
  collateralZat := 500000
  feeZat := 2000
  payee := samplePayee
  attestFeeZat := 3000
  attestPayee := samplePayee
  residualZat := 0
  bundle := [1, 2, 3]
  bundleSeqs := "0"
  carrierHash160 := List.Vector.replicate 20 4
  ownerHash160 := List.Vector.replicate 20 5
  carrierTxid := List.Vector.replicate 32 6
  carrierVout := 0
  mainTxid := List.Vector.replicate 32 0
  sweepTxid := List.Vector.replicate 32 0
  expiryHeight := 140
  vaultTxid := List.Vector.replicate 32 0
  owner := some sampleOwner
  note := ""

/-- A wallet with a coin that pays for it. -/
def sampleMinter : Wallet where
  network := .regtest
  pqTerms := ⟨100, 100, 100, 1000, 1000000000, none, false⟩
  spendable := [⟨⟨List.Vector.replicate 32 2, 0⟩, "yec", p2pkhScript (List.Vector.replicate 20 2),
    1000000, 5, .yec, 0⟩]
  changeAddress := .ok ⟨List.Vector.replicate 20 3, "change", none⟩
  freshExternal _ := .error (.other "none")
  addresses := .ok []
  pqOwnerForHash _ := some sampleOwner
  keyForHash _ := .ok (some sampleSecret)
  scriptSig _ _ _ _ := .ok []
  classOf o := if o.txid = List.Vector.replicate 32 6 then some .carrier else some .yec

/-- Vault terms a server may answer. -/
def sampleVaultTerms : VaultTerms := ⟨List.Vector.replicate 32 8, 20, 100⟩

theorem isOk_sampleMint :
    (match finishMint Crypto.blank sampleMinter sampleMint (.ok sampleVaultTerms)
        (fun _ ↦ .ok ()) 0 with
      | some (.ok b) => b.inputs.length == 1 && b.change == 494000
      | _ => false) = true := by
  decide +kernel

theorem finishMint_balances_sample :
    ∃ b, finishMint Crypto.blank sampleMinter sampleMint (.ok sampleVaultTerms)
        (fun _ ↦ .ok ()) 0 = some (.ok b) ∧
      ∃ vt tx outs owner fee, Except.ok (ε := WalletError) sampleVaultTerms = .ok vt ∧
        MintBalances Crypto.blank sampleMinter sampleMint vt b tx outs owner fee := by
  have h := isOk_sampleMint
  split at h
  · rename_i b hb
    exact ⟨b, hb, (finishMint_balances _ _ _ _ _ _).2 b hb⟩
  · cases h

end Yew.Build
