import Yew.Signer.Sign

/-!
# Acts and set signatures

The signatures of set members: over an act, and over a vault spend.  A set signature passes the
sign-once record first, under the set id as the request spells it.

The act's own checks are in `Yew.Proto.Act`.

## Source

* `yewd/signer/src/sign.rs`: `SignerCore::sign_act`, `SignerCore::sign_set`
-/

namespace Yew.Signer

open Tx Keys Vault Proto SetAct

section

variable (C : Crypto)

/-- The secret of a member's key, for the signatures of a request. -/
def memberSecret (reason : String) (k : KeyRef) : M SecretKey := do
  match ← derive C k with
  | some (.t sk _) => return sk
  | _ => no Refuse.keyMismatch reason

/-- `sign_act`. -/
def signAct (r : ActSignRequest) : M ActSigs := do
  let tx ← parseRequestTx C r.tx
  let out ← orElse Refuse.malformed "the transaction carries no YV act"
    (tx.vout.find? fun o ↦ isActOutput o.scriptPubkey)
  let a ← orRefuse Refuse.malformed ("the act does not decode: " ++ ·) (decode out.scriptPubkey)
  let vin0 ← orElse Refuse.unboundInput "an act transaction needs vin[0]" tx.vin.head?
  let payload := encodePayload a.body
  let msg := actMsg C payload vin0.prevout
  let secrets ← Proc.forEach
    (memberSecret C "act signatures are made with BIP32 member or admit keys") r.keys
  return ⟨Hex.encode payload, Hex.encode msg.toList,
    secrets.map fun sk ↦ Hex.encode (C.signRecoverable sk msg).toList⟩

/-- The set that governs the branch of a template a role signs. -/
def templateSet (role : UInt8) (script : Bytes) : M (Option SetId) :=
  if role = 1 then return (parseVault script).map VaultParams.setId
  else if role = 2 then return (parseIntent script).map IntentParams.cancelSetId
  else no Refuse.malformed "role must be 1 (unlock) or 2 (cancel)"

/-- The template is one of the role's, and the set governs it. -/
def checkTemplate (role : UInt8) (set : SetId) : Option SetId → M Unit
  | none => no Refuse.gate (if role = 1 then "the template input is not a vault"
      else "the template input is not an intent")
  | some s => if s ≠ set then no Refuse.gate "the set does not govern this template's branch"
      else return ()

/-- What a set signature is over, once the request is checked: the set, the prevout and the
sighash. -/
structure SetSubject where
  set : SetId
  prevout : OutPoint
  sighash : Arr 32
deriving DecidableEq

/-- The input a set-sign request names, bound to its prevout. -/
def setInput (r : SetSignRequest) (tx : Transaction) : M OutPoint := do
  let idx := r.index.toNat
  let vin ← orElse Refuse.unboundInput ("input " ++ Text.decimal idx ++ " does not exist")
    tx.vin[idx]?
  let op ← outPointOr Refuse.unboundInput "the template prevout is not txid:n" r.prevout.outpoint
  if vin.prevout ≠ op then
    no Refuse.unboundInput ("input " ++ Text.decimal idx ++ " spends " ++ vin.prevout.display ++
      ", not " ++ op.display)
  else return op

/-- The first half of `sign_set`: every check, up to the sighash. -/
def setSubject (r : SetSignRequest) : M SetSubject := do
  let tx ← parseRequestTx C r.tx
  let op ← setInput r tx
  let script ← orRefuse Refuse.unboundInput ("script: " ++ ·) (Hex.decodeOr r.prevout.script)
  if r.prevout.amountZat < 0 ∨ r.prevout.amountZat > maxMoney then
    no Refuse.unboundInput "the template amount is out of range"
  else
    let set ← orHalt Refuse.malformed ("set id: " ++ ·) (txidFromHex r.setId)
    let _ ← checkTemplate r.role set (← templateSet r.role script)
    if tx.shielded.any then no Refuse.malformed "a vault spend has no shielded part"
    else
      let sighash ← orRefuse Refuse.failed id ((tx.sighash C r.index.toNat script
        r.prevout.amountZat (sighashAll ||| anyonecanpay) r.branchId).mapError TxError.text)
      return ⟨set, op, sighash⟩

/-- The refusal of a second, different signature. -/
def signOnceText (role : UInt8) (sighash prevout set : String) : String :=
  "set-sign-once: this wallet already signed a different " ++
    (if role = 1 then "unlock" else "cancel") ++ " (role " ++ Text.decimal role.toNat ++
    ", sighash " ++ sighash ++ ") of " ++ prevout ++ " for set " ++ set ++
    "; a second signature is a provable equivocation (SET_EQUIVOCATION ejects the member and " ++
    "freezes its bond). Collect signatures on the transaction already signed"

/-- The refusal of a wallet without its history. -/
def restoredText (prevout : String) : String :=
  "set-sign-restored: this wallet was restored or imported a member key and has no sign-once " ++
    "history; import it with set_importsigned (or a wallet dump) and then set_acknowledgerestore, " ++
    "or pass \x7b\"acknowledgerestore\": true\x7d if this key has never signed a set spend of " ++
    prevout

/-- The sign-once record of a request, under the set id as it spells it. -/
def setRecord (r : SetSignRequest) (x : SetSubject) : SignedRecord :=
  ⟨r.setId, x.prevout.display, r.role, Hex.encode x.sighash.toList⟩

/-- The sign-once step: pass on the same record, refuse a different one, record a new one unless
nothing is to be signed. -/
def signOnce (r : SetSignRequest) (x : SetSubject) (secrets : List SecretKey) : M Unit := do
  let o := (← core).once
  let rec' := setRecord r x
  match o.check rec'.setid rec'.prevout rec'.role rec'.sighash with
  | .same => return ()
  | .different role h =>
    no Refuse.setSignOnce (signOnceText role h rec'.prevout rec'.setid)
  | .absent =>
    if secrets.isEmpty then return ()
    else if o.restored ∧ !r.acknowledgeRestore then
      no Refuse.setSignRestored (restoredText rec'.prevout)
    else
      orRefuse Refuse.failed
        ("set-sign-once: cannot record the signature; nothing was signed: " ++ ·)
        (← recordOnce rec')

/-- The message of a set signature. -/
def setMsg (r : SetSignRequest) (x : SetSubject) : Arr 32 :=
  setSigMsg C x.set r.role x.prevout x.sighash

/-- `sign_set`. -/
def signSet (r : SetSignRequest) : M SetSigs := do
  let x ← setSubject C r
  let secrets ← Proc.forEach (memberSecret C "set signatures are made with BIP32 member keys") r.keys
  let _ ← signOnce r x secrets
  let msg := setMsg C r x
  return ⟨Hex.encode x.sighash.toList, Hex.encode msg.toList,
    secrets.map fun sk ↦ Hex.encode (C.signRecoverable sk msg).toList⟩

end

/-! ## What they leave alone -/

section

variable (C : Crypto)

theorem quiet_memberSecret (reason : String) (k : KeyRef) : Quiet (memberSecret C reason k) := by
  refine (quiet_derive C k).bind fun d ↦ ?_
  split
  · exact .pure _
  · exact quiet_no _ _

theorem quiet_signAct (r : ActSignRequest) : Quiet (signAct C r) :=
  (quiet_parseRequestTx C _).bind fun _ ↦ (quiet_orElse _ _ _).bind fun _ ↦
    (quiet_orRefuse _ _ _).bind fun _ ↦ (quiet_orElse _ _ _).bind fun _ ↦
      Proc.Quiet.bind (.forEach (quiet_memberSecret C _) _) fun _ ↦ .pure _

theorem quiet_templateSet (role : UInt8) (script : Bytes) : Quiet (templateSet role script) :=
  .ite (.pure _) (.ite (.pure _) (quiet_no _ _))

theorem quiet_checkTemplate (role : UInt8) (set : SetId) (t : Option SetId) :
    Quiet (checkTemplate role set t) := by
  cases t with
  | none => exact quiet_no _ _
  | some s => exact .ite (quiet_no _ _) (.pure _)

theorem quiet_setInput (r : SetSignRequest) (tx : Transaction) : Quiet (setInput r tx) :=
  (quiet_orElse _ _ _).bind fun _ ↦ (quiet_outPointOr _ _ _).bind fun _ ↦
    .ite (quiet_no _ _) (.pure _)

theorem quiet_setSubject (r : SetSignRequest) : Quiet (setSubject C r) :=
  (quiet_parseRequestTx C _).bind fun _ ↦ (quiet_setInput r _).bind fun _ ↦
    (quiet_orRefuse _ _ _).bind fun _ ↦ .ite (quiet_no _ _) <|
      (quiet_orHalt _ _ _).bind fun _ ↦ (quiet_templateSet _ _).bind fun _ ↦
        (quiet_checkTemplate _ _ _).bind fun _ ↦ .ite (quiet_no _ _) <|
          (quiet_orRefuse _ _ _).bind fun _ ↦ .pure _

/-- An input that was bound spends the prevout the request names. -/
theorem setInput_eq_ok {r : SetSignRequest} {tx : Transaction} {op : OutPoint} {s s' : St}
    (h : setInput r tx s = (.ok op, s')) : parseOutPoint r.prevout.outpoint = .ok op := by
  obtain ⟨vin, -, h⟩ := (quiet_orElse _ _ _).bind_eq_ok h
  obtain ⟨op', hop, h⟩ := (quiet_outPointOr _ _ _).bind_eq_ok h
  split at h
  · simp at h
  cases h
  exact Halt.mapErr_eq_ok.mp (orHalt_eq_ok.mp hop).1

/-- A checked subject is of the set the id decodes to, and of the prevout the request names. -/
theorem setSubject_eq_ok {r : SetSignRequest} {x : SetSubject} {s s' : St}
    (h : setSubject C r s = (.ok x, s')) :
    txidFromHex r.setId = .ok x.set ∧ parseOutPoint r.prevout.outpoint = .ok x.prevout := by
  obtain ⟨tx, -, h⟩ := (quiet_parseRequestTx C _).bind_eq_ok h
  obtain ⟨op, hop, h⟩ := (quiet_setInput r tx).bind_eq_ok h
  obtain ⟨script, -, h⟩ := (quiet_orRefuse _ _ _).bind_eq_ok h
  split at h
  · simp at h
  obtain ⟨set, hset, h⟩ := (quiet_orHalt _ _ _).bind_eq_ok h
  obtain ⟨t, -, h⟩ := (quiet_templateSet _ _).bind_eq_ok h
  obtain ⟨_, -, h⟩ := (quiet_checkTemplate _ _ _).bind_eq_ok h
  split at h
  · simp at h
  obtain ⟨sighash, -, h⟩ := (quiet_orRefuse _ _ _).bind_eq_ok h
  cases h
  exact ⟨(orHalt_eq_ok.mp hset).1, setInput_eq_ok hop⟩

/-- A sign-once step changes nothing, or there was no record and nothing stood against making it. -/
theorem signOnce_cases (r : SetSignRequest) (x : SetSubject) (secrets : List SecretKey) (s : St) :
    (signOnce r x secrets s).2 = s ∨
      s.core.once.record? r.setId x.prevout.display = none ∧
        ¬ (s.core.once.restored ∧ !r.acknowledgeRestore) ∧
        signOnce r x secrets s = (recordOnce (setRecord r x) >>= orRefuse Refuse.failed
          ("set-sign-once: cannot record the signature; nothing was signed: " ++ ·)) s := by
  cases hcheck : s.core.once.check r.setId x.prevout.display r.role
      (Hex.encode x.sighash.toList) with
  | same =>
    left
    simp [signOnce, Proc.bind_apply, core, setRecord, hcheck]
  | different role hash =>
    left
    simp [signOnce, Proc.bind_apply, core, setRecord, hcheck, no]
  | absent =>
    by_cases hempty : secrets.isEmpty
    · left
      simp [signOnce, Proc.bind_apply, core, setRecord, hcheck, hempty]
    · by_cases hrest : s.core.once.restored ∧ !r.acknowledgeRestore
      · left
        simp [signOnce, Proc.bind_apply, core, setRecord, hcheck, hempty, hrest, no]
      · refine .inr ⟨SignOnce.check_eq_absent.mp hcheck, hrest, ?_⟩
        simp only [signOnce, Proc.bind_apply, core, setRecord, hcheck, hempty, hrest]
        rfl

/-- What a passed sign-once step found or did, when something is to be signed: the record was there,
or there was none and it is now in memory and on disk. -/
theorem signOnce_eq_ok {r : SetSignRequest} {x : SetSubject} {secrets : List SecretKey} {s s' : St}
    (h : signOnce r x secrets s = (.ok (), s')) (hne : secrets ≠ []) :
    (s' = s ∧ s.core.once.record? r.setId x.prevout.display =
        some (r.role, Hex.encode x.sighash.toList)) ∨
      s.core.once.record? r.setId x.prevout.display = none ∧
        s'.core.once = s.core.once.insert (setRecord r x) ∧
        s'.disk.once = some s'.core.once.toFile := by
  obtain ⟨c, hc, h⟩ := quiet_core.bind_eq_ok h
  cases hc
  cases hcheck : s.core.once.check r.setId x.prevout.display r.role
      (Hex.encode x.sighash.toList) with
  | same =>
    simp only [setRecord, hcheck] at h
    cases h
    exact .inl ⟨rfl, SignOnce.check_eq_same.mp hcheck⟩
  | different role hash =>
    simp only [setRecord, hcheck, no_ne_ok] at h
  | absent =>
    refine .inr ⟨SignOnce.check_eq_absent.mp hcheck, ?_⟩
    simp only [setRecord, hcheck] at h
    rw [if_neg (by simpa using hne)] at h
    split at h
    · simp at h
    obtain ⟨y, t, hy, h⟩ := Proc.bind_eq_ok.mp h
    obtain ⟨hok, rfl⟩ := orRefuse_eq_ok.mp h
    subst hok
    obtain ⟨ws, -, hs | ⟨-, ⟨e, hs⟩ | ⟨d, -, hs⟩⟩⟩ := replaceFile_cases
      (fun d ↦ { d with once := some (s.core.once.insert (setRecord r x)).toFile })
      { s with core := { s.core with once := s.core.once.insert (setRecord r x) } }
    · have hy' : _ = _ := hy.symm.trans hs
      cases hy'
      exact ⟨rfl, rfl⟩
    · cases hy.symm.trans hs
    · cases hy.symm.trans hs

/-- What was signed, once `sign_set` has answered. -/
theorem signSet_eq_ok {r : SetSignRequest} {out : SetSigs} {s s' : St}
    (h : signSet C r s = (.ok out, s')) :
    ∃ x secrets, setSubject C r s = (.ok x, s) ∧ signOnce r x secrets s = (.ok (), s') ∧
      out.sighash = Hex.encode x.sighash.toList ∧ out.sigs.length = secrets.length := by
  obtain ⟨x, hx, h⟩ := (quiet_setSubject C r).bind_eq_ok h
  obtain ⟨secrets, -, h⟩ := Proc.Quiet.bind_eq_ok
    (.forEach (quiet_memberSecret C _) _) h
  obtain ⟨_, t, hone, h⟩ := Proc.bind_eq_ok.mp h
  cases h
  exact ⟨x, secrets, hx, hone, rfl, by simp⟩

/-! ## Requests that pass -/

/-- What the checks of a set-sign request ask, beside its transaction and template. -/
structure Checked (r : SetSignRequest) (tx : Transaction) (script : Bytes) (x : SetSubject) :
    Prop where
  input : tx.vin[r.index.toNat]?.map TxIn.prevout = some x.prevout
  outpoint : parseOutPoint r.prevout.outpoint = .ok x.prevout
  decoded : Hex.decode r.prevout.script = some script
  amount : ¬(r.prevout.amountZat < 0 ∨ r.prevout.amountZat > maxMoney)
  set : txidFromHex r.setId = .ok x.set
  template : r.role = 1 ∧ (parseVault script).map VaultParams.setId = some x.set ∨
    r.role = 2 ∧ (parseIntent script).map IntentParams.cancelSetId = some x.set
  transparent : tx.shielded.any = false
  sighash : tx.sighash C r.index.toNat script r.prevout.amountZat (sighashAll ||| anyonecanpay)
    r.branchId = .ok x.sighash

theorem setInput_of_checked {r : SetSignRequest} {tx : Transaction} {script : Bytes}
    {x : SetSubject} (hc : Checked C r tx script x) (s : St) :
    setInput r tx s = (.ok x.prevout, s) := by
  obtain ⟨vin, hvin, hprev⟩ := Option.map_eq_some_iff.mp hc.input
  simp [setInput, Proc.bind_apply, orElse, hvin, outPointOr, orHalt, hc.outpoint, Halt.mapErr,
    hprev]

/-- A request that meets the checks has a subject. -/
theorem setSubject_of_checked {r : SetSignRequest} {tx : Transaction} {script : Bytes}
    {x : SetSubject} {s : St} (htx : parseRequestTx C r.tx s = (.ok tx, s))
    (hc : Checked C r tx script x) : setSubject C r s = (.ok x, s) := by
  have hscript : Hex.decodeOr r.prevout.script = .ok script := Hex.decodeOr_eq_ok.mpr hc.decoded
  have htemplate : ∃ t, templateSet r.role script s = (.ok (some t), s) ∧ t = x.set := by
    rcases hc.template with ⟨hr, ht⟩ | ⟨hr, ht⟩
    · exact ⟨x.set, by simp [templateSet, hr, ht], rfl⟩
    · exact ⟨x.set, by simp [templateSet, hr, ht], rfl⟩
  obtain ⟨t, ht, rfl⟩ := htemplate
  have hset : checkTemplate r.role x.set (some x.set) s = (.ok (), s) := by simp [checkTemplate]
  simp only [setSubject, Proc.bind_apply, htx, setInput_of_checked C hc, orRefuse, hscript,
    if_neg hc.amount, orHalt, hc.set, ht, hset, hc.transparent, hc.sighash, Except.mapError,
    Proc.lift_apply, Proc.pure_apply, Bool.false_eq_true, if_false]

/-- The state behind a new record. -/
def recordedSt (s : St) (rec' : SignedRecord) : St :=
  { s with
    core := { s.core with once := s.core.once.insert rec' }
    disk := { s.disk with once := some (s.core.once.insert rec').toFile } }

/-- The same behind a record that could not be saved. -/
def unsavedSt (s : St) (rec' : SignedRecord) (writes : List WriteOutcome) : St :=
  { s with core := { s.core with once := s.core.once.insert rec' }, writes }

theorem signOnce_of_same {r : SetSignRequest} {x : SetSubject} {s : St}
    (h : s.core.once.record? r.setId x.prevout.display =
      some (r.role, Hex.encode x.sighash.toList)) (secrets : List SecretKey) :
    signOnce r x secrets s = (.ok (), s) := by
  simp [signOnce, Proc.bind_apply, core, setRecord, SignOnce.check_eq_same.mpr h]

theorem signOnce_of_absent {r : SetSignRequest} {x : SetSubject} {s : St}
    {secrets : List SecretKey} (h : s.core.once.record? r.setId x.prevout.display = none)
    (hne : secrets ≠ []) (hrest : s.core.once.restored = false) (hw : s.writes = []) :
    signOnce r x secrets s = (.ok (), recordedSt s (setRecord r x)) := by
  have hcheck := (@SignOnce.check_eq_absent _ _ _
    (Hex.encode x.sighash.toList) r.role).mpr h
  simp [signOnce, Proc.bind_apply, core, setRecord, hcheck, hne, hrest, recordOnce, changeOnce,
    modifyOnce, modifyCore, saveOnce, replaceFile, nextWrite, hw, modifyDisk, orRefuse, recordedSt]

theorem signOnce_of_failed {r : SetSignRequest} {x : SetSubject} {s : St}
    {secrets : List SecretKey} {e : String} {kept : Nat} {ws : List WriteOutcome}
    (h : s.core.once.record? r.setId x.prevout.display = none) (hne : secrets ≠ [])
    (hrest : s.core.once.restored = false) (hw : s.writes = .failed e kept :: ws) :
    signOnce r x secrets s =
      (.error (.refused Refuse.failed
        ("set-sign-once: cannot record the signature; nothing was signed: " ++ e)),
        unsavedSt s (setRecord r x) ws) := by
  have hcheck := (@SignOnce.check_eq_absent _ _ _
    (Hex.encode x.sighash.toList) r.role).mpr h
  simp [signOnce, Proc.bind_apply, core, setRecord, hcheck, hne, hrest, recordOnce, changeOnce,
    modifyOnce, modifyCore, saveOnce, replaceFile, nextWrite, hw, orRefuse, unsavedSt]

/-- The secrets of one member key of the account. -/
theorem memberSecrets_of_account {s : St} {k : Keyring} {x : ExtendedPrivKey}
    {chain index : UInt32} (reason : String) (hk : keys s = (.ok k, s))
    (hchain : chain ≠ importedChain) (hrange : ¬(chain > 1 ∨ index ≥ hardened))
    (hx : k.account.derive C [chain, index] = .ok x) :
    Proc.forEach (memberSecret C reason) [.bip32 chain index] s = (.ok [x.key], s) := by
  have ht := transparent_of_account C hk hchain hrange hx
  simp [Proc.forEach, memberSecret, derive, Proc.bind_apply, ht]

/-- The answer to a set-sign request whose parts succeed. -/
theorem signSet_of_signOnce {r : SetSignRequest} {x : SetSubject} {secrets : List SecretKey}
    {s : St} (hsub : setSubject C r s = (.ok x, s))
    (hsec : Proc.forEach (memberSecret C "set signatures are made with BIP32 member keys") r.keys s =
      (.ok secrets, s)) :
    signSet C r s = (signOnce r x secrets >>= fun _ ↦
      pure ⟨Hex.encode x.sighash.toList, Hex.encode (setMsg C r x).toList,
        secrets.map fun sk ↦ Hex.encode (C.signRecoverable sk (setMsg C r x)).toList⟩) s := by
  simp only [signSet, Proc.bind_apply, hsub, hsec]

end

end Yew.Signer
