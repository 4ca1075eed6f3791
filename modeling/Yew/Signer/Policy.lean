import Yew.Core.VaultCodec
import Yew.Signer.Sign

/-!
# What a signature promises

The guarantees a signed transaction carries against the request it answers, whoever sent it: every
input is bound, every signature is made by the owner of the script it spends, nothing but
scriptSigs changes, and the wallet pays out no more than the cap.

The request is `sign` of `yewd/signer/src/sign.rs`.  A run of it that ends well is laid out once
(`SignRun`), and each of the promises is read off that.
-/

namespace Yew.Signer

open Script Tx Keys Pq Vault Proto SetAct Sapling

/-! ## The statement -/

section Statement

variable (C : Crypto)

/-- A script that a derived key owns, under the reference that named it. -/
inductive Owns : KeyRef → Derived → Bytes → Option String → Prop
  | p2pkh {chain index sk pk bundle} :
    Owns (.bip32 chain index) (.t sk pk) (p2pkhScript (C.hash160 pk.toList)) bundle
  | pqpkh {scheme index k script bundle} (h : pqpkhScript (k.id C) = some script) :
    Owns (.pq scheme index) (.pq k) script bundle
  | carrier {chain index sk pk hex bundle redeem} (hb : Hex.decode hex = some bundle)
    (hr : carrierScript C pk (C.sha256 bundle) = .ok redeem) :
    Owns (.carrier chain index) (.t sk pk) (p2shOf C redeem) (some hex)
  | bond {chain index locktime sk pk bundle} :
    Owns (.bond chain index locktime) (.t sk pk) (bondScriptPubkey C locktime pk) bundle
  | vault {scheme index selector k v script bundle} (hv : buildVault v = some script)
    (ho : v.owner = k.id C) (hs : selector = selOwner ∨ selector = selReleased) :
    Owns (.pqOwner scheme index selector) (.pq k) script bundle
  | intent {scheme index k i script bundle} (hi : buildIntent i = some script)
    (ho : i.owner = k.id C) :
    Owns (.pqOwner scheme index selReleased) (.pq k) script bundle

/-- A script that pays a derived key: a bond for a lock time, a P2PKH or a `TX_PQPKH`. -/
inductive Pays : Option UInt32 → Derived → Bytes → Prop
  | bond {locktime sk pk} : Pays (some locktime) (.t sk pk) (bondScriptPubkey C locktime pk)
  | p2pkh {sk pk} : Pays none (.t sk pk) (p2pkhScript (C.hash160 pk.toList))
  | pqpkh {k script} (h : pqpkhScript (k.id C) = some script) : Pays none (.pq k) script

/-- The transaction of a request, as its bytes spell it. -/
def RequestTx (text : String) (tx : Transaction) : Prop :=
  ∃ raw txid, Hex.decode text = some raw ∧ Transaction.parse C raw = .ok (tx, txid)

/-- The text of a transaction the signer returns. -/
def Spells (text : String) (tx : Transaction) : Prop :=
  ∃ bytes, tx.serialize = .ok bytes ∧ text = Hex.encode bytes

/-- Every input of the transaction is named once, in order. -/
def Bound (r : SignRequest) (tx : Transaction) : Prop :=
  r.inputs.length = tx.vin.length ∧ ∀ (i : Nat) (inp : SignInput) (vin : TxIn),
    r.inputs[i]? = some inp → tx.vin[i]? = some vin →
      parseOutPoint inp.prevout.outpoint = .ok vin.prevout

/-- The key named for every signed input owns the script it spends. -/
def Owned (s : St) (r : SignRequest) : Prop :=
  ∀ inp ∈ r.inputs, inp.key ≠ .none → ∃ d script, derive C inp.key s = (.ok (some d), s) ∧
    Hex.decode inp.prevout.script = some script ∧ Owns C inp.key d script inp.carrierBundle

/-- Every output named as own is there and pays the key named for it. -/
def OwnPaid (s : St) (r : SignRequest) (tx : Transaction) : Prop :=
  ∀ o ∈ r.ownOutputs, ∃ out d, tx.vout[o.n.toNat]? = some out ∧
    derive C o.key s = (.ok (some d), s) ∧ Pays C o.bondLocktime d out.scriptPubkey

end Statement

/-- Two transactions that differ at most in the scriptSigs of the inputs in `signed`. -/
structure SameButSigs (signed : Nat → Prop) (tx tx' : Transaction) : Prop where
  header : tx'.header = tx.header
  versionGroupId : tx'.versionGroupId = tx.versionGroupId
  vout : tx'.vout = tx.vout
  lockTime : tx'.lockTime = tx.lockTime
  expiryHeight : tx'.expiryHeight = tx.expiryHeight
  shielded : tx'.shielded = tx.shielded
  length : tx'.vin.length = tx.vin.length
  vin : ∀ i v, tx.vin[i]? = some v →
    ∃ ss, tx'.vin[i]? = some { v with scriptSig := ss } ∧ (¬ signed i → ss = v.scriptSig)

/-- The inputs the request names a key for. -/
def Keyed (r : SignRequest) (i : Nat) : Prop := ∃ inp, r.inputs[i]? = some inp ∧ inp.key ≠ .none

/-- The total of the signed inputs' amounts, over the integers. -/
def signedTotal (r : SignRequest) : Int :=
  ((r.inputs.filter fun i ↦ i.key ≠ .none).map fun i ↦ i.prevout.amountZat.toInt).sum

/-- The total of the outputs named as own, each once, over the integers. -/
def ownOutTotal (r : SignRequest) (tx : Transaction) : Int :=
  (((indexed 0 tx.vout).filter fun x ↦ r.ownOutputs.any fun o ↦ o.n.toNat = x.1).map
    fun x ↦ x.2.value.toInt).sum

/-- The outflow stays under the cap, when it fits the word it is computed in. -/
def Capped (r : SignRequest) (tx : Transaction) : Prop :=
  FitsI64 (signedTotal r - ownOutTotal r tx) →
    signedTotal r - ownOutTotal r tx ≤ r.outflowCapZat.toInt

/-! ## Each check, read back -/

section Checks

variable {C : Crypto} {L : Sapling.Lib} {s s' : St} {r : SignRequest} {tx tx' : Transaction}

theorem owns_of_ownsTemplate {k : PqKey} {scheme selector : UInt8} {index : UInt32}
    {script : Bytes} {bundle : Option String}
    (h : ownsTemplate (k.id C) selector script = .ok ()) :
    Owns C (.pqOwner scheme index selector) (.pq k) script bundle := by
  unfold ownsTemplate at h
  split at h
  · rename_i v hv
    obtain ⟨ho, h⟩ := Result.guard_eq_ok.mp h
    obtain ⟨hs, -⟩ := Result.guard_eq_ok.mp h
    refine .vault (of_parseVault hv).2 (not_not.mp ho) ?_
    rcases eq_or_ne selector selOwner with hsel | hsel
    · exact .inl hsel
    · exact .inr (not_not.mp fun hr ↦ hs ⟨hsel, hr⟩)
  · split at h
    · rename_i i hi
      obtain ⟨ho, h⟩ := Result.guard_eq_ok.mp h
      obtain ⟨hs, -⟩ := Result.guard_eq_ok.mp h
      obtain rfl := not_not.mp hs
      exact .intent (of_parseIntent hi).2 (not_not.mp ho)
    · cases h

/-- A passed `owns_input`. -/
theorem owns_of_ownsInput {k : KeyRef} {d : Derived} {script : Bytes} {bundle : Option String}
    (h : ownsInput C k d script bundle = .ok ()) : Owns C k d script bundle := by
  unfold ownsInput at h
  split at h
  · split at h
    · cases h
    · obtain ⟨b, hb, h⟩ := Result.bind_eq_ok.mp h
      obtain ⟨redeem, hr, h⟩ := Result.bind_eq_ok.mp h
      obtain ⟨rfl, -⟩ := Result.check_eq_ok.mp h
      refine .carrier (Hex.decodeOr_eq_ok.mp hb) ?_
      unfold carrierRedeem at hr
      revert hr
      cases carrierScript C _ _ with
      | ok b => simp [Except.mapError]
      | error e => simp [Except.mapError]
  · obtain ⟨rfl, -⟩ := Result.check_eq_ok.mp h
    exact .bond
  · obtain ⟨hs, -⟩ := Result.check_eq_ok.mp h
    rw [p2pkhHash_eq_some hs]
    exact .p2pkh
  · obtain ⟨hs, -⟩ := Result.check_eq_ok.mp h
    exact .pqpkh (pqpkhOf_eq_some hs)
  · exact owns_of_ownsTemplate h
  · cases h

theorem requestTx_of_parse {text : String} (h : parseRequestTx C text s = (.ok tx, s')) :
    RequestTx C text tx := by
  obtain ⟨raw, h₁, h⟩ := (quiet_orRefuse _ _ _).bind_eq_ok h
  obtain ⟨⟨t, txid⟩, h₂, h⟩ := (quiet_orRefuse _ _ _).bind_eq_ok h
  cases h
  refine ⟨raw, txid, Hex.decodeOr_eq_ok.mp (orRefuse_eq_ok.mp h₁).1, ?_⟩
  have h₃ := (orRefuse_eq_ok.mp h₂).1
  revert h₃
  cases Transaction.parse C raw with
  | ok x => simp [Except.mapError]
  | error e => simp [Except.mapError]

/-- A bound input names the outpoint it spends, and its script is the one that was decoded. -/
theorem bindInput_eq_ok {i : Nat} {vin : TxIn} {p : Prevout} {script : Bytes}
    (h : bindInput (i, vin, p) s = (.ok script, s')) :
    parseOutPoint p.outpoint = .ok vin.prevout ∧ Hex.decode p.script = some script := by
  obtain ⟨op, h₁, h⟩ := (quiet_outPointOr _ _ _).bind_eq_ok h
  have hop : parseOutPoint p.outpoint = .ok op := Halt.mapErr_eq_ok.mp (orHalt_eq_ok.mp h₁).1
  split at h
  · simp at h
  · rename_i hne
    rw [not_not] at hne
    split at h
    · simp at h
    · obtain ⟨b, h₂, h⟩ := (quiet_orRefuse _ _ _).bind_eq_ok h
      split at h
      · simp at h
      · cases h
        exact ⟨hne ▸ hop, Hex.decodeOr_eq_ok.mp (orRefuse_eq_ok.mp h₂).1⟩

theorem bindInputs_eq_ok {prevouts : List Prevout} {scripts : List Bytes}
    (h : bindInputs tx prevouts s = (.ok scripts, s')) : prevouts.length = tx.vin.length ∧
      scripts.length = prevouts.length ∧
      ∀ (i : Nat) (vin : TxIn) (p : Prevout), tx.vin[i]? = some vin → prevouts[i]? = some p →
        parseOutPoint p.outpoint = .ok vin.prevout ∧
          ∃ script, scripts[i]? = some script ∧ Hex.decode p.script = some script := by
  unfold bindInputs at h
  split at h
  · simp at h
  · rename_i hlen
    rw [not_not] at hlen
    have hlist := Proc.Quiet.forEach_eq_ok quiet_bindInput h
    refine ⟨hlen, ?_, fun i vin p hv hp ↦ ?_⟩
    · have := hlist.length_eq
      simp only [length_indexed, List.length_zip] at this
      omega
    · have hi : (indexed 0 (tx.vin.zip prevouts))[i]? = some (0 + i, vin, p) := by
        rw [getElem?_indexed, (List.getElem?_zip_eq_some (z := (vin, p))).mpr ⟨hv, hp⟩]
        rfl
      obtain ⟨script, hscript, hb⟩ := Proc.Quiet.forEach_getElem? quiet_bindInput h hi
      obtain ⟨hop, hdec⟩ := bindInput_eq_ok hb
      exact ⟨hop, script, hscript, hdec⟩

theorem checkInput_eq_ok {path : GatePath} {i : Nat} {inp : SignInput} {script : Bytes} {t : Bool}
    {d : Option Derived} (h : checkInput C path (i, inp, script) s = (.ok (t, d), s')) :
    derive C inp.key s = (.ok d, s) ∧
      ∀ d', d = some d' → Owns C inp.key d' script inp.carrierBundle := by
  obtain ⟨d₁, h₁, h⟩ := (quiet_derive C _).bind_eq_ok h
  obtain ⟨_, h₂, h⟩ := (quiet_checkOwner C ..).bind_eq_ok h
  obtain ⟨_, -, h⟩ := (quiet_pathAllowsKey ..).bind_eq_ok h
  split at h
  · simp at h
  · cases h
    refine ⟨h₁, ?_⟩
    rintro d' rfl
    exact owns_of_ownsInput (orRefuse_eq_ok.mp h₂).1

theorem checkOwn_eq_ok {o : OwnOutput} {n : Nat} (h : checkOwn C tx o s = (.ok n, s')) :
    n = o.n.toNat ∧ ∃ out d, tx.vout[o.n.toNat]? = some out ∧
      derive C o.key s = (.ok (some d), s) ∧ Pays C o.bondLocktime d out.scriptPubkey := by
  obtain ⟨out, h₁, h⟩ := (quiet_orElse _ _ _).bind_eq_ok h
  obtain ⟨d, h₂, h⟩ := (quiet_derive C _).bind_eq_ok h
  have hout := (orElse_eq_ok.mp h₁).1
  split at h
  · rename_i hp
    cases h
    refine ⟨rfl, out, ?_⟩
    unfold paidTo at hp
    split at hp
    · rename_i lt sk pk hlt
      rw [hlt, ← of_decide_eq_true hp]
      exact ⟨_, hout, h₂, .bond⟩
    · rename_i sk pk hlt
      rw [hlt, ← of_decide_eq_true hp]
      exact ⟨_, hout, h₂, .p2pkh⟩
    · rename_i k hlt
      rw [hlt]
      exact ⟨_, hout, h₂, .pqpkh (of_decide_eq_true hp)⟩
    · cases hp
  · simp at h

theorem checkPreview_eq_ok {want : Preview} {signed : List Nat}
    (h : checkPreview r want signed s = (.ok (), s')) :
    difference want r.preview = none ∧ 0 ≤ want.feeZat ∧ want.outflowZat ≤ r.outflowCapZat := by
  unfold checkPreview at h
  cases hd : difference want r.preview with
  | some d =>
    simp only [hd] at h
    cases hf : signed.find? fun i ↦ !(r.preview.sign.map PreviewCoin.vin).contains i with
    | some f => simp only [hf, no_ne_ok] at h
    | none => simp only [hf, no_ne_ok] at h
  | none =>
    simp only [hd] at h
    split at h
    · simp at h
    · rename_i hfee
      split at h
      · simp at h
      · rename_i hcap
        exact ⟨rfl, Int64.not_lt.mp hfee, Int64.not_lt.mp hcap⟩

/-! ## The signing loop -/

namespace SameButSigs

variable {A B : Nat → Prop} {a b c : Transaction}

theorem refl (a : Transaction) : SameButSigs A a a :=
  ⟨rfl, rfl, rfl, rfl, rfl, rfl, rfl, fun _ v hv ↦ ⟨v.scriptSig, hv, fun _ ↦ rfl⟩⟩

theorem trans (hab : SameButSigs A a b) (hbc : SameButSigs B b c) :
    SameButSigs (fun i ↦ A i ∨ B i) a c where
  header := hbc.header.trans hab.header
  versionGroupId := hbc.versionGroupId.trans hab.versionGroupId
  vout := hbc.vout.trans hab.vout
  lockTime := hbc.lockTime.trans hab.lockTime
  expiryHeight := hbc.expiryHeight.trans hab.expiryHeight
  shielded := hbc.shielded.trans hab.shielded
  length := hbc.length.trans hab.length
  vin i v hv := by
    obtain ⟨ss, hb, hA⟩ := hab.vin i v hv
    obtain ⟨ss', hc, hB⟩ := hbc.vin i _ hb
    refine ⟨ss', hc, fun hn ↦ ?_⟩
    rw [not_or] at hn
    rw [hB hn.2, ← hA hn.1]

theorem mono (h : SameButSigs A a b) (hAB : ∀ i, A i → B i) : SameButSigs B a b where
  header := h.header
  versionGroupId := h.versionGroupId
  vout := h.vout
  lockTime := h.lockTime
  expiryHeight := h.expiryHeight
  shielded := h.shielded
  length := h.length
  vin i v hv := by
    obtain ⟨ss, hb, hA⟩ := h.vin i v hv
    exact ⟨ss, hb, fun hn ↦ hA (mt (hAB i) hn)⟩

theorem setScriptSig (tx : Transaction) (i : Nat) (ss : Bytes) :
    SameButSigs (· = i) tx (setScriptSig tx i ss) where
  header := rfl
  versionGroupId := rfl
  vout := rfl
  lockTime := rfl
  expiryHeight := rfl
  shielded := rfl
  length := by simp [Signer.setScriptSig]
  vin j v hv := by
    simp only [Signer.setScriptSig, List.getElem?_modify, hv]
    by_cases hij : i = j
    · exact ⟨ss, by simp [hij], fun hn ↦ absurd hij.symm hn⟩
    · exact ⟨v.scriptSig, by simp [hij], fun _ ↦ rfl⟩

end SameButSigs

/-- Whatever the loop signs, it changes no more than the scriptSigs of the inputs it has keys
for. -/
theorem signInputs_eq_ok {part : Part} {xs : List (Nat × SignInput × Bytes × Option Derived)}
    {hs : List (Option String)} (h : signInputs C L r part xs tx s = (.ok (tx', hs), s')) :
    SameButSigs (fun i ↦ ∃ x ∈ xs, x.1 = i ∧ x.2.2.2.isSome) tx tx' := by
  induction xs generalizing tx hs with
  | nil =>
    cases h
    exact .refl _
  | cons x xs ih =>
    obtain ⟨i, inp, script, d⟩ := x
    cases d with
    | none =>
      obtain ⟨⟨t, hs'⟩, h₁, h⟩ := (quiet_signInputs C L ..).bind_eq_ok h
      cases h
      refine (ih h₁).mono ?_
      rintro j ⟨x, hx, hj⟩
      exact ⟨x, List.mem_cons_of_mem _ hx, hj⟩
    | some d =>
      obtain ⟨⟨digest, ss⟩, -, h⟩ := (quiet_signInput C L ..).bind_eq_ok h
      obtain ⟨⟨t, hs'⟩, h₁, h⟩ := (quiet_signInputs C L ..).bind_eq_ok h
      cases h
      refine ((SameButSigs.setScriptSig tx i ss).trans (ih h₁)).mono ?_
      rintro j (rfl | ⟨x, hx, hj⟩)
      · exact ⟨_, List.mem_cons_self, rfl, rfl⟩
      · exact ⟨x, List.mem_cons_of_mem _ hx, hj⟩

theorem spells_of_finishTx {bytes : Bytes} (h : finishTx L none tx s = (.ok bytes, s')) :
    Spells (Hex.encode bytes) tx := by
  have h₁ := (orRefuse_eq_ok.mp h).1
  revert h₁
  cases hser : tx.serialize with
  | ok b =>
    intro hb
    cases hb
    exact ⟨_, hser, rfl⟩
  | error e => simp [Except.mapError]

/-! ## The outflow -/

theorem mem_signedIndices {ds : List (Option Derived)} {i : Nat} :
    i ∈ signedIndices ds ↔ ∃ d, ds[i]? = some (some d) := by
  simp only [signedIndices, List.mem_map, List.mem_filter]
  constructor
  · rintro ⟨⟨n, d⟩, ⟨hm, hd⟩, rfl⟩
    obtain ⟨j, rfl, hj⟩ := mem_indexed.mp hm
    obtain ⟨d', rfl⟩ := Option.isSome_iff_exists.mp hd
    exact ⟨d', by simpa using hj⟩
  · rintro ⟨d, hd⟩
    exact ⟨(i, some d), ⟨mem_indexed.mpr ⟨i, by simp, hd⟩, rfl⟩, rfl⟩

/-- The preview adds up exactly the inputs that are signed. -/
theorem sum_signedAmounts {signed : List Nat}
    (h : ∀ i inp, r.inputs[i]? = some inp → (i ∈ signed ↔ inp.key ≠ .none)) :
    ((signedAmounts (r.inputs.map SignInput.prevout) signed).map Int64.toInt).sum =
      signedTotal r := by
  have hpick : ((indexed 0 (r.inputs.map SignInput.prevout)).filter fun x ↦ x.1 ∈ signed).map
      Prod.snd = (r.inputs.filter fun i ↦ i.key ≠ .none).map SignInput.prevout := by
    refine filter_indexed_map (p := fun n ↦ decide (n ∈ signed)) fun i inp hi ↦ ?_
    simp [h i inp hi]
  have hmap : signedAmounts (r.inputs.map SignInput.prevout) signed =
      (((indexed 0 (r.inputs.map SignInput.prevout)).filter fun x ↦ x.1 ∈ signed).map
        Prod.snd).map Prevout.amountZat := by
    simp [signedAmounts, Function.comp_def]
  rw [hmap, hpick]
  simp [signedTotal, Function.comp_def]

theorem sum_ownValues {own : List Nat} (h : own = r.ownOutputs.map fun o ↦ o.n.toNat) :
    ((ownValues tx.vout own).map Int64.toInt).sum = ownOutTotal r tx := by
  subst h
  have hmem : ∀ n : Nat, (n ∈ r.ownOutputs.map fun o ↦ o.n.toNat) ↔
      r.ownOutputs.any (fun o ↦ o.n.toNat = n) = true := by
    intro n
    simp
  simp only [ownValues, ownOutTotal, hmem, List.map_map, Function.comp_def, Bool.decide_eq_true]

/-- The cap bounds the true outflow whenever that fits a word. -/
theorem capped_of_le {signed own : List Nat} {network : Network}
    (hcap : (compute C network tx (r.inputs.map SignInput.prevout) signed own).outflowZat ≤
      r.outflowCapZat)
    (hsigned : ∀ i inp, r.inputs[i]? = some inp → (i ∈ signed ↔ inp.key ≠ .none))
    (hown : own = r.ownOutputs.map fun o ↦ o.n.toNat) : Capped r tx := by
  intro hfits
  have h := Int64.le_iff_toInt_le.mp hcap
  simp only [compute, Int64.toInt_sub, toInt_sumZat, Int.bmod_sub_bmod, Int.sub_bmod_bmod,
    sum_signedAmounts hsigned, sum_ownValues hown, hfits.bmod_eq] at h
  exact h

/-! ## The whole request -/

/-- A signed request, step by step: what each part of `sign` returned. -/
structure SignRun (C : Crypto) (L : Sapling.Lib) (s : St) (r : SignRequest) (out : Signed)
    (tx tx' : Transaction) (scripts : List Bytes) (checked : List (Bool × Option Derived))
    (own : List Nat) (part : Part) (bytes : Bytes) : Prop where
  parsed : parseRequestTx C r.tx s = (.ok tx, s)
  binds : bindInputs tx (r.inputs.map SignInput.prevout) s = (.ok scripts, s)
  checks : Proc.forEach (checkInput C r.gatePath) (indexed 0 (r.inputs.zip scripts)) s =
    (.ok checked, s)
  owns : Proc.forEach (checkOwn C tx) r.ownOutputs s = (.ok own, s)
  preview : checkPreview r (wantedPreview C s.core.network r tx
    (signedIndices (checked.map Prod.snd)) own) (signedIndices (checked.map Prod.snd)) s =
      (.ok (), s)
  prepared : preparePart L r tx s = (.ok part, s)
  signed : signInputs C L r part (indexed 0 (r.inputs.zip (scripts.zip (checked.map Prod.snd)))) tx
    s = (.ok (tx', out.sighashes), s)
  finished : finishTx L part tx' s = (.ok bytes, s)
  tx_eq : out.tx = Hex.encode bytes

theorem sign_eq_ok {out : Signed} (h : sign C L r s = (.ok out, s')) :
    ∃ tx tx' scripts checked own part bytes,
      SignRun C L s r out tx tx' scripts checked own part bytes := by
  obtain ⟨tx, hparsed, h⟩ := (quiet_parseRequestTx C _).bind_eq_ok h
  rw [signTx] at h
  split at h
  · simp at h
  obtain ⟨scripts, hbound, h⟩ := (quiet_bindInputs ..).bind_eq_ok h
  obtain ⟨checked, hchecked, h⟩ :=
    (Proc.Quiet.forEach (quiet_checkInput C _) _).bind_eq_ok h
  obtain ⟨_, -, h⟩ := (quiet_pathAllows ..).bind_eq_ok h
  obtain ⟨own, hown, h⟩ := (Proc.Quiet.forEach (quiet_checkOwn C _) _).bind_eq_ok h
  obtain ⟨c, hc, h⟩ := quiet_core.bind_eq_ok h
  cases hc
  obtain ⟨_, hpreview, h⟩ := (quiet_checkPreview ..).bind_eq_ok h
  obtain ⟨part, hpart, h⟩ := (quiet_preparePart L ..).bind_eq_ok h
  obtain ⟨⟨tx', hashes⟩, hsigned, h⟩ := (quiet_signInputs C L ..).bind_eq_ok h
  obtain ⟨bytes, hfinished, h⟩ := (quiet_finishTx L ..).bind_eq_ok h
  cases h
  exact ⟨tx, tx', scripts, checked, own, part, bytes, hparsed, hbound, hchecked, hown, hpreview,
    hpart, hsigned, hfinished, rfl⟩

section Run

variable {out : Signed} {scripts : List Bytes} {checked : List (Bool × Option Derived)}
  {own : List Nat} {part : Part} {bytes : Bytes}

namespace SignRun

/-- The key derived for an input, and its ownership of the script the input spends. -/
theorem input (R : SignRun C L s r out tx tx' scripts checked own part bytes) {i : Nat}
    {inp : SignInput} (hi : r.inputs[i]? = some inp) : ∃ d script,
      (checked.map Prod.snd)[i]? = some d ∧ derive C inp.key s = (.ok d, s) ∧
      Hex.decode inp.prevout.script = some script ∧
      ∀ d', d = some d' → Owns C inp.key d' script inp.carrierBundle := by
  obtain ⟨hlen, -, hbound⟩ := bindInputs_eq_ok R.binds
  have hlt : i < tx.vin.length := by
    rw [← hlen, List.length_map]
    exact (List.getElem?_eq_some_iff.mp hi).1
  obtain ⟨-, script, hscript, hdec⟩ := hbound i tx.vin[i] inp.prevout
    (List.getElem?_eq_getElem hlt) (by simp [hi])
  have hz : (indexed 0 (r.inputs.zip scripts))[i]? = some (0 + i, inp, script) := by
    rw [getElem?_indexed, (List.getElem?_zip_eq_some (z := (inp, script))).mpr ⟨hi, hscript⟩]
    rfl
  obtain ⟨⟨t, d⟩, hd, hcheck⟩ :=
    Proc.Quiet.forEach_getElem? (quiet_checkInput C _) R.checks hz
  obtain ⟨hder, howns⟩ := checkInput_eq_ok hcheck
  exact ⟨d, script, by simp [hd], hder, hdec, howns⟩

theorem bound (R : SignRun C L s r out tx tx' scripts checked own part bytes) : Bound r tx := by
  obtain ⟨hlen, -, hbound⟩ := bindInputs_eq_ok R.binds
  refine ⟨by simpa using hlen, fun i inp vin hi hv ↦ ?_⟩
  exact (hbound i vin inp.prevout hv (by simp [hi])).1

theorem owned (R : SignRun C L s r out tx tx' scripts checked own part bytes) : Owned C s r := by
  intro inp hmem hkey
  obtain ⟨i, hi⟩ := List.mem_iff_getElem?.mp hmem
  obtain ⟨d, script, -, hder, hdec, howns⟩ := R.input hi
  cases d with
  | none => exact absurd (derive_eq_none C hder) hkey
  | some d => exact ⟨d, script, hder, hdec, howns d rfl⟩

/-- The inputs in the signed set are those the request names a key for. -/
theorem mem_signed (R : SignRun C L s r out tx tx' scripts checked own part bytes) {i : Nat}
    {inp : SignInput} (hi : r.inputs[i]? = some inp) :
    i ∈ signedIndices (checked.map Prod.snd) ↔ inp.key ≠ .none := by
  obtain ⟨d, script, hd, hder, -, -⟩ := R.input hi
  rw [mem_signedIndices, hd]
  constructor
  · rintro ⟨d', hd'⟩ hnone
    cases hd'
    rw [hnone, derive_none] at hder
    cases hder
  · intro hkey
    cases d with
    | none => exact absurd (derive_eq_none C hder) hkey
    | some d => exact ⟨d, rfl⟩

theorem sameButSigs (R : SignRun C L s r out tx tx' scripts checked own part bytes) :
    SameButSigs (Keyed r) tx tx' := by
  refine (signInputs_eq_ok R.signed).mono ?_
  rintro i ⟨⟨n, inp, script, d⟩, hx, rfl, hsome⟩
  obtain ⟨j, rfl, hj⟩ := mem_indexed.mp hx
  obtain ⟨hinp, hz⟩ := List.getElem?_zip_eq_some.mp hj
  obtain ⟨-, hd⟩ := List.getElem?_zip_eq_some.mp hz
  obtain ⟨d', rfl⟩ := Option.isSome_iff_exists.mp hsome
  refine ⟨inp, by simpa using hinp, (R.mem_signed hinp).mp ?_⟩
  exact mem_signedIndices.mpr ⟨d', hd⟩

theorem ownPaid (R : SignRun C L s r out tx tx' scripts checked own part bytes) :
    OwnPaid C s r tx := by
  intro o ho
  obtain ⟨i, hi⟩ := List.mem_iff_getElem?.mp ho
  obtain ⟨n, -, hn⟩ := Proc.Quiet.forEach_getElem? (quiet_checkOwn C tx) R.owns hi
  exact (checkOwn_eq_ok hn).2

theorem own_eq (R : SignRun C L s r out tx tx' scripts checked own part bytes) :
    own = r.ownOutputs.map fun o ↦ o.n.toNat := by
  have h := Proc.Quiet.forEach_eq_ok (quiet_checkOwn C tx) R.owns
  clear R
  generalize r.ownOutputs = os at h
  induction h with
  | nil => rfl
  | cons hn _ ih => rw [List.map_cons, ← ih, (checkOwn_eq_ok hn).1]

theorem capped (R : SignRun C L s r out tx tx' scripts checked own part bytes)
    (hs : r.sapling = none) : Capped r tx := by
  obtain ⟨-, -, hcap⟩ := checkPreview_eq_ok R.preview
  rw [wantedPreview, hs] at hcap
  exact capped_of_le hcap (fun i inp hi ↦ R.mem_signed hi) R.own_eq

end SignRun

end Run

/-- **Signer policy soundness.**  Whoever asks, and whatever the request says, a transaction the
signer returns for a request without a Sapling part is the request's own but for scriptSigs; every
input is bound; each new scriptSig is its owner's; every output counted as own pays a key of this
signer; and the true outflow is at most the cap. -/
theorem sign_sound {out : Signed} (hs : r.sapling = none) (h : sign C L r s = (.ok out, s')) :
    ∃ tx tx', RequestTx C r.tx tx ∧ Spells out.tx tx' ∧ Bound r tx ∧ Owned C s r ∧
      SameButSigs (Keyed r) tx tx' ∧ OwnPaid C s r tx ∧ Capped r tx := by
  obtain ⟨tx, tx', scripts, checked, own, part, bytes, R⟩ := sign_eq_ok h
  have hpart : part = none := by
    have hp := R.prepared
    rw [preparePart, hs] at hp
    cases hp
    rfl
  subst hpart
  refine ⟨tx, tx', requestTx_of_parse R.parsed, ?_, R.bound, R.owned, R.sameButSigs, R.ownPaid,
    R.capped hs⟩
  rw [R.tx_eq]
  exact spells_of_finishTx R.finished

end Checks

/-! ## A signed request

One imported key pays five of ten to itself and three to a script of someone else's. -/

/-- The secret key one. -/
def sampleKey : SecretKey := .one

/-- An unencrypted signer that holds the sample key as its only imported one. -/
def sampleSt : St where
  core := {
    network := .regtest
    seedFp := ""
    keys := some ⟨⟨sampleKey, List.Vector.replicate 32 0⟩, List.Vector.replicate 32 0⟩
    once := .fresh false
    guard := []
    imported := ⟨[sampleKey], [Crypto.blank.publicKey sampleKey], none, none⟩
    pqImported := []
    ks := ⟨.regtest, some "", none, 0, false⟩
    unlockedUntil := 0 }
  disk := ⟨none, none, none, none, none, none⟩
  env := ⟨0, fun _ ↦ [], fun _ ↦ none⟩
  writes := []

/-- The script of the sample key. -/
def sampleOwn : Bytes := p2pkhScript (List.Vector.replicate 20 0)

/-- The transaction of the sample request. -/
def sampleTx : Transaction where
  header := txHeaderV4
  versionGroupId := saplingVersionGroupId
  vin := [⟨⟨List.Vector.replicate 32 0, 0⟩, [], sequenceFinal⟩]
  vout := [⟨5, sampleOwn⟩, ⟨3, p2shScript (List.Vector.replicate 20 0)⟩]
  lockTime := 0
  expiryHeight := 0
  shielded := .empty

/-- Its bytes. -/
def sampleRaw : Bytes := sampleTx.serialize.toOption.getD []

/-- The sample request, with the preview the signer computes. -/
def sampleRequest : SignRequest :=
  let coin : Prevout := ⟨OutPoint.display ⟨List.Vector.replicate 32 0, 0⟩, Hex.encode sampleOwn, 10⟩
  let r : SignRequest := {
    tx := Hex.encode sampleRaw
    branchId := 0
    inputs := [⟨coin, .bip32 importedChain 0, none⟩]
    ownOutputs := [⟨0, .bip32 importedChain 0, none⟩]
    gatePath := .yec
    outflowCapZat := 5
    preview := ⟨[], [], 0, 0⟩
    sapling := none }
  { r with preview := wantedPreview .blank .regtest r sampleTx [0] [0] }

theorem sign_sound_sampleRequest :
    ∃ out s', sign .blank .blank sampleRequest sampleSt = (.ok out, s') ∧ ∃ tx tx',
      RequestTx .blank sampleRequest.tx tx ∧ Spells out.tx tx' ∧ Bound sampleRequest tx ∧
      Owned .blank sampleSt sampleRequest ∧ SameButSigs (Keyed sampleRequest) tx tx' ∧
      OwnPaid .blank sampleSt sampleRequest tx ∧ Capped sampleRequest tx := by
  have hparse : parseRequestTx .blank sampleRequest.tx sampleSt = (.ok sampleTx, sampleSt) :=
    parseRequestTx_encode .blank (by decide +kernel) sampleSt
  have hok : (signTx .blank .blank sampleRequest sampleTx sampleSt).1.isOk := by decide +kernel
  obtain ⟨out, s', hout⟩ := Proc.exists_of_isOk hok
  have h : sign .blank .blank sampleRequest sampleSt = (.ok out, s') := by
    rw [sign, Proc.bind_eq_ok]
    exact ⟨sampleTx, sampleSt, hparse, hout⟩
  exact ⟨out, s', h, sign_sound rfl h⟩

end Yew.Signer
