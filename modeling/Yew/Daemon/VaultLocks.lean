import Yew.Daemon.Unlock

/-!
# Locks of the vault calls

A call of the vault and set commands locks the coins that it takes for a fee, so that no other call
takes them.  Here are the calls that build, send or pay a new fee, with what each does to the locks, and
when a call that fails leaves a coin locked that was free before it.  The parts of a call that touch no
lock are given by how they end.

Fifteen calls share three ways of locking: a coin for a fee, a coin split off for it, and a new fee.

## Source

* `yewd/wallet/src/vaultrpc.rs`: `Wallet::vault_call`, `Wallet::build_act_tx`, `Wallet::set_create`,
  `Wallet::set_join`, `Wallet::set_heartbeat`, `Wallet::set_leave`, `Wallet::set_buildact`,
  `Wallet::set_sendact` and 10 more
-/

namespace Yew.Daemon

open Script Tx Vault Proto Proc Build

/-! ## The calls -/

/-- How `fund` ends. -/
structure FundAnswers where
  coins : Answers
  changeFault : Option String

/-- A transaction before it is funded, with the value of its inputs. -/
structure Unfunded where
  tx : Transaction
  inputValue : Int

/-- An act's transaction: the outputs before the act, and the act. -/
def actDraft (before : List TxOut) (a : SetAct.Act) : Unfunded :=
  ⟨newTx [] (before ++ [⟨0, SetAct.encode a⟩]), 0⟩

/-- What the node is sent. -/
def sentOf (tx : Transaction) : Sent :=
  ⟨tx.vin.map TxIn.prevout, tx.vout.map fun o ↦ ⟨o.value.toInt, o.scriptPubkey⟩⟩

/-- `remember_build` under the first input. -/
def rememberFirst (tx : Transaction) : Proc VaultDesk RpcError Unit :=
  match tx.vin with
  -- the source indexes the inputs
  | [] => throw ⟨-32603, ""⟩
  | i :: _ => rememberBuild i.prevout tx

section Calls

variable (env : Env)

/-- `fund`, with the fee of these calls. -/
def fundDraft (F : FundAnswers) (mode : FundMode) (t : Unfunded) :
    Proc VaultDesk RpcError Transaction :=
  fundTx env F.coins F.changeFault t.tx t.inputValue vaultRpcFee mode

/-- A draft is funded, finished and sent at once. -/
def buildAndSend (draft : Except RpcError Unfunded) (F : FundAnswers)
    (finish : Transaction → Except RpcError Transaction) (S : SendAnswers) :
    Proc VaultDesk RpcError Unit := do
  let t ← lift draft
  let tx ← fundDraft env F .largestFirst t
  let tx ← lift (finish tx)
  let _ ← signSend S (sentOf tx)
  return ()

/-- `set_create`. -/
def setCreate (create : Except RpcError SetAct.Act) (F : FundAnswers) (S : SendAnswers) :
    Proc VaultDesk RpcError Unit :=
  buildAndSend env (create.map (actDraft [])) F .ok S

/-- `set_equivocation`. -/
def setEquivocation (proof : Except RpcError SetAct.Act) (F : FundAnswers) (S : SendAnswers) :
    Proc VaultDesk RpcError Unit :=
  buildAndSend env (proof.map (actDraft [])) F .ok S

/-- `set_heartbeat`; `sign` is `sign_act_in_place`. -/
def setHeartbeat (heartbeat : Except RpcError SetAct.Act) (F : FundAnswers)
    (sign : Transaction → Except RpcError Transaction) (S : SendAnswers) :
    Proc VaultDesk RpcError Unit :=
  buildAndSend env (heartbeat.map (actDraft [])) F sign S

/-- `set_leave`; `sign` asks the signer for the member's own key. -/
def setLeave (remove : Except RpcError SetAct.Act) (F : FundAnswers)
    (sign : Transaction → Except RpcError Transaction) (S : SendAnswers) :
    Proc VaultDesk RpcError Unit :=
  buildAndSend env (remove.map (actDraft [])) F sign S

/-- `vault_lock`. -/
def vaultLock (vault : Except RpcError TxOut) (F : FundAnswers) (S : SendAnswers) :
    Proc VaultDesk RpcError Unit :=
  buildAndSend env (vault.map fun o ↦ ⟨newTx [] [o], 0⟩) F .ok S

/-- `vault_release`: the intent's input, and the output for its recipient. -/
def vaultRelease (intent : Except RpcError (TxIn × TxOut)) (F : FundAnswers) (S : SendAnswers) :
    Proc VaultDesk RpcError Unit :=
  buildAndSend env (intent.map fun (i, o) ↦ ⟨newTx [i] [o], o.value.toInt⟩) F .ok S

/-- `set_join`: sent if no signature is missing, remembered if one is. -/
def setJoin (join : Except RpcError (TxOut × SetAct.Act)) (F : FundAnswers)
    (sign : Transaction → Except RpcError (Transaction × Int)) (S : SendAnswers)
    (result : Option RpcError) : Proc VaultDesk RpcError Unit := do
  let (bond, a) ← lift join
  let tx ← fundDraft env F .largestFirst (actDraft [bond] a)
  let (tx, missing) ← lift (sign tx)
  if missing = 0 then do
    let _ ← signSend S (sentOf tx)
    reached result
  else do
    rememberFirst tx
    reached result

/-- `set_buildact`. -/
def setBuildact (act : Except RpcError (List TxOut × SetAct.Act)) (F : FundAnswers)
    (view result : Option RpcError) : Proc VaultDesk RpcError Unit := do
  let (before, a) ← lift act
  let tx ← fundDraft env F .largestFirst (actDraft before a)
  reached view
  rememberFirst tx
  reached result

/-- A transaction that was handed over is sent, unless the call was for a dry run. -/
def sendAct (prepared : Except RpcError (Option Sent)) (S : SendAnswers) :
    Proc VaultDesk RpcError Unit := do
  match ← lift prepared with
  | none => return ()
  | some t => do
    let _ ← signSend S t
    return ()

/-- `set_sendact`. -/
def setSendact (prune : Answers) (prepared : Except RpcError (Option Sent)) (S : SendAnswers) :
    Proc VaultDesk RpcError Unit := do
  pruneBuilds prune
  sendAct prepared S

/-- `vault_send`. -/
def vaultSend (prune : Answers) (prepared : Except RpcError (Option Sent)) (S : SendAnswers) :
    Proc VaultDesk RpcError Unit := do
  pruneBuilds prune
  sendAct prepared S

/-- `vault_ownerspend`: the fee comes from the output that is spent. -/
def vaultOwnerspend (prepared : Except RpcError Sent) (S : SendAnswers) :
    Proc VaultDesk RpcError Unit := sendAct (prepared.map some) S

/-- A remembered cancel serves for the same outputs. -/
def cancelServes (c : Transaction) (op : OutPoint) (outs : List TxOut) : Bool :=
  (c.vin.head?.any fun i ↦ i.prevout = op) && c.vout.take outs.length = outs

/-- The transaction of `build_intent_cancel`. -/
def cancelTx (U : UnlockAnswers) (op : OutPoint) (coin : NodeCoin) (rebuild : Bool)
    (memo : Option Transaction) (outs : List TxOut) :
    Proc VaultDesk RpcError (Transaction × BuildKind) :=
  match memo with
  | none => newBuild env U op coin outs
  | some c =>
    if rebuild || !cancelServes c op outs then do
      when (!U.signedPrevout)
        (modify fun d ↦ { d with purse := d.purse.unlockBuildInputs op c })
      newBuild env U op coin outs
    else renewBuild env U op coin c

/-- `build_intent_cancel`; `origin` is `intent_origin`, with the height the intent counts from. -/
def buildIntentCancel (U : UnlockAnswers) (op : OutPoint) (origin : Except RpcError (Bytes × Int))
    (extra : List TxOut) (yedAllowed rebuild : Bool) : Proc VaultDesk RpcError Unit := do
  let next ← lift U.active
  match ← lift U.coin with
  | none => throw ⟨-8, "not an unspent intent output"⟩
  | some coin =>
    match parseIntent coin.script with
    | none => throw ⟨-8, "not an unspent intent output"⟩
    | some ip =>
      if !yedAllowed && ip.tag = yedTag then
        throw ⟨-8, "a YED claim intent is cancelled with yed_buildcancel (its cancel refunds the " ++
          "claim's burn, CAN-1)"⟩
      else do
        let (script, height) ← lift origin
        if ip.delay ≤ (next.height : Int) - height then
          throw ⟨-1, "the intent matured at height " ++ toString (height + ip.delay) ++
            "; it can no longer be cancelled"⟩
        else do
          pruneBuilds U.prune
          let d ← get
          let memo := buildOf d.builds op
          let outs := ⟨coin.value, script⟩ :: extra
          let (tx, build) ← cancelTx env U op coin rebuild memo outs
          when (!(memo.isSome && build = .new && U.signedPrevout)) (rememberBuild op tx)
          let _ ← lift (sighashSet env.C tx 0 coin next.branch)
          let _ ← lift U.required
          let _ ← lift (txBytes tx)
          return ()

/-- `vault_buildcancel`. -/
def vaultBuildcancel (U : UnlockAnswers) (op : OutPoint) (origin : Except RpcError (Bytes × Int))
    (rebuild : Bool) : Proc VaultDesk RpcError Unit :=
  buildIntentCancel env U op origin [] false rebuild

/-- The answers that `vault_refee` gets. -/
structure VaultRefeeAnswers where
  active : Except RpcError Next
  tx : Except RpcError Transaction
  template : Except RpcError Template
  prune : Answers
  refee : RefeeAnswers
  signedPrevout : Bool
  coinsFault : Option RpcError

/-- `vault_refee`. -/
def vaultRefee (R : VaultRefeeAnswers) : Proc VaultDesk RpcError Unit := do
  let next ← lift R.active
  let tx ← lift R.tx
  let t ← lift R.template
  match tx.vin[t.idx]? with
  -- `find_template` gives the index of an input
  | none => throw ⟨-32603, ""⟩
  | some templ => do
    pruneBuilds R.prune
    let (tx, _) ← refee env R.refee tx t.idx t.coin
    let d ← get
    let same := (buildOf d.builds templ.prevout).all fun m ↦ m.vout = tx.vout
    when (same || !R.signedPrevout) (rememberBuild templ.prevout tx)
    reached R.coinsFault
    let _ ← lift (sighashSet env.C tx 0 t.coin next.branch)
    let _ ← lift (txBytes tx)
    return ()

/-- A build that `vault_app` finds remembered: one of another branch stays, and the new one is given
up; one with other outputs is let go. -/
def supersede (op : OutPoint) (tx : Transaction) : Proc VaultDesk RpcError Unit := do
  let d ← get
  match buildOf d.builds op with
  | none => return ()
  | some prev =>
    if prev.vin.head?.any fun i ↦ i.prevout = op && i.sequence ≠ sequenceFinal then
      when (prev.vout ≠ tx.vout)
        (modify fun d ↦ { d with purse := d.purse.unlockBuildInputs op prev })
    else do
      modify fun d ↦ { d with purse := d.purse.unlockBuildInputs op tx }
      throw ⟨-8, "this wallet already built a different spend of this vault"⟩

/-- `vault_app`; `spend` is the vault's value and lock time, with the outputs of `add_intents`. -/
def vaultApp (op : OutPoint) (spend : Except RpcError (Int × UInt32 × List TxOut))
    (F : FundAnswers) : Proc VaultDesk RpcError Unit := do
  let (value, lockTime, outs) ← lift spend
  let tx ← fundDraft env F .largestFirst
    ⟨{ newTx [⟨op, vaultAppScriptSig, sequenceLocktime⟩] outs with lockTime := lockTime }, value⟩
  supersede op tx
  rememberBuild op tx
  let _ ← lift (txBytes tx)
  return ()

end Calls

/-! ## Locks along a call -/

section Locks

variable {env : Env} {α β : Type}

theorem display_injective : Function.Injective OutPoint.display := by
  intro o o' h
  have hread := outpointParam_display o ""
  rw [h, outpointParam_display] at hread
  exact (Except.ok.inj hread).symm

theorem isLocked_lockCoin (p : Purse) (op o : OutPoint) :
    (p.lockCoin op).isLocked o ↔ p.isLocked o ∨ o = op := by
  unfold Purse.isLocked Purse.lockCoin
  rw [OrdMap.get?_insert]
  by_cases h : o = op
  · simp [h]
  · rw [if_neg fun hd ↦ h (display_injective hd.symm)]
    simp [h]

theorem isLocked_lockCoins (p : Purse) (ops : List OutPoint) (o : OutPoint) :
    (p.lockCoins ops).isLocked o ↔ p.isLocked o ∨ o ∈ ops := by
  induction ops generalizing p with
  | nil => simp [Purse.lockCoins]
  | cons op ops ih =>
    rw [show p.lockCoins (op :: ops) = (p.lockCoin op).lockCoins ops from rfl, ih,
      isLocked_lockCoin, List.mem_cons, or_assoc]

theorem isLocked_unlockCoins (p : Purse) (ops : List OutPoint) (o : OutPoint) :
    (p.unlockCoins ops).isLocked o ↔ p.isLocked o ∧ o ∉ ops := by
  induction ops generalizing p with
  | nil => simp [Purse.unlockCoins]
  | cons op ops ih =>
    have hone : (p.unlockCoin op).isLocked o ↔ p.isLocked o ∧ o ≠ op := by
      unfold Purse.isLocked Purse.unlockCoin
      rw [OrdMap.get?_erase]
      by_cases h : o = op
      · simp [h]
      · rw [if_neg fun hd ↦ h (display_injective hd.symm)]
        simp [h]
    rw [show p.unlockCoins (op :: ops) = (p.unlockCoin op).unlockCoins ops from rfl, ih, hone,
      List.mem_cons, not_or, and_assoc]

end Locks

/-- The node took nothing, and no coin is locked that was free. -/
def Shrinks (d d' : VaultDesk) : Prop :=
  d'.accepted = d.accepted ∧ ∀ o, d'.purse.isLocked o → d.purse.isLocked o

/-- The node took nothing, and the locks are as they were. -/
def Still (d d' : VaultDesk) : Prop := d'.accepted = d.accepted ∧ d'.purse.locks = d.purse.locks

/-- The node took nothing. -/
def Unsent (d d' : VaultDesk) : Prop := d'.accepted = d.accepted

instance : Proc.Path Shrinks where
  refl _ := ⟨rfl, fun _ ↦ id⟩
  trans h h' := ⟨h'.1.trans h.1, fun o ho ↦ h.2 o (h'.2 o ho)⟩

instance : Proc.Path Still where
  refl _ := ⟨rfl, rfl⟩
  trans h h' := ⟨h'.1.trans h.1, h'.2.trans h.2⟩

instance : Proc.Path Unsent where
  refl _ := rfl
  trans h h' := Eq.trans h' h

theorem Still.shrinks {d d' : VaultDesk} (h : Still d d') : Shrinks d d' := by
  refine ⟨h.1, fun o ho ↦ ?_⟩
  unfold Purse.isLocked at *
  rwa [h.2] at ho

/-- The node took nothing, though a coin is locked that was free. -/
def Took (d d' : VaultDesk) : Prop :=
  d'.accepted = d.accepted ∧ ∃ o, d'.purse.isLocked o ∧ ¬ d.purse.isLocked o

/-- A procedure of the call that started in `d₀` fails and leaves a coin locked that was free then. -/
def Leaks (d₀ : VaultDesk) {α : Type} (x : Proc VaultDesk RpcError α) (d : VaultDesk) : Prop :=
  ∃ e d', x d = (.error e, d') ∧ Took d₀ d'

/-- An answer that is an error. -/
def Fails {α : Type} (x : Except RpcError α) : Prop := ∃ e, x = .error e

theorem not_fails_ok {α : Type} (a : α) : ¬ Fails (.ok a : Except RpcError α) := by
  rintro ⟨e, he⟩
  cases he

section Leaks

variable {α β : Type} {d₀ d d' : VaultDesk}

theorem Shrinks.not_took (h : Shrinks d d') : ¬ Took d d' := by
  rintro ⟨-, o, ho, hfree⟩
  exact hfree (h.2 o ho)

theorem Still.took_iff (h : Still d d') : Took d₀ d' ↔ Took d₀ d := by
  unfold Took Purse.isLocked
  rw [h.1, h.2]

/-- A sequence leaks where a part does. -/
theorem leaks_bind {x : Proc VaultDesk RpcError α} {f : α → Proc VaultDesk RpcError β} :
    Leaks d₀ (x >>= f) d ↔ Leaks d₀ x d ∨ ∃ a d₁, x d = (.ok a, d₁) ∧ Leaks d₀ (f a) d₁ := by
  unfold Leaks
  constructor
  · rintro ⟨e, d', h, htook⟩
    rcases bind_eq_error.mp h with hx | ⟨a, d₁, hx, hf⟩
    · exact .inl ⟨e, d', hx, htook⟩
    · exact .inr ⟨a, d₁, hx, e, d', hf, htook⟩
  · rintro (⟨e, d', hx, htook⟩ | ⟨a, d₁, hx, e, d', hf, htook⟩)
    · exact ⟨e, d', bind_eq_error.mpr (.inl hx), htook⟩
    · exact ⟨e, d', bind_eq_error.mpr (.inr ⟨a, d₁, hx, hf⟩), htook⟩

theorem not_leaks_of_shrinks {x : Proc VaultDesk RpcError α} (hx : Moves Shrinks x)
    (hd : Shrinks d₀ d) : ¬ Leaks d₀ x d := by
  rintro ⟨e, d', h, htook⟩
  exact (Proc.Path.trans hd (moved hx h) : Shrinks d₀ d').not_took htook

/-- What fails without a lock leaves the rest to leak. -/
theorem leaks_bind_of_clean {x : Proc VaultDesk RpcError α} {f : α → Proc VaultDesk RpcError β}
    (hd : Shrinks d₀ d) (hx : ∀ e d', x d = (.error e, d') → Shrinks d d') :
    Leaks d₀ (x >>= f) d ↔ ∃ a d', x d = (.ok a, d') ∧ Leaks d₀ (f a) d' := by
  rw [leaks_bind, or_iff_right]
  rintro ⟨e, d', h, htook⟩
  exact (Proc.Path.trans hd (hx e d' h) : Shrinks d₀ d').not_took htook

theorem leaks_get_bind {f : VaultDesk → Proc VaultDesk RpcError β} :
    Leaks d₀ (get >>= f) d ↔ Leaks d₀ (f d) d := Iff.rfl

theorem leaks_modify_bind {g : VaultDesk → VaultDesk} {f : Unit → Proc VaultDesk RpcError β} :
    Leaks d₀ (modify g >>= f) d ↔ Leaks d₀ (f ()) (g d) := Iff.rfl

theorem not_leaks_pure (a : α) : ¬ Leaks d₀ (pure a) d := by
  rintro ⟨e, d', h, -⟩
  cases h

/-- Where nothing was locked before, an answer that is an error is no leak. -/
theorem leaks_lift_bind {x : Except RpcError α} {f : α → Proc VaultDesk RpcError β}
    (hd : Shrinks d₀ d) : Leaks d₀ (lift x >>= f) d ↔ ∃ a, x = .ok a ∧ Leaks d₀ (f a) d := by
  rw [leaks_bind, or_iff_right (not_leaks_of_shrinks (Moves.lift x) hd)]
  constructor
  · rintro ⟨a, d₁, h, hf⟩
    cases h
    exact ⟨a, rfl, hf⟩
  · rintro ⟨a, rfl, hf⟩
    exact ⟨a, d, rfl, hf⟩

/-! ### What follows a lock -/

theorem leaks_lift_bind_iff {x : Except RpcError α} {f : α → Proc VaultDesk RpcError β}
    {P : α → Prop} (hf : ∀ a, x = .ok a → (Leaks d₀ (f a) d ↔ Took d₀ d ∧ P a)) :
    Leaks d₀ (lift x >>= f) d ↔ Took d₀ d ∧ (Fails x ∨ ∃ a, x = .ok a ∧ P a) := by
  cases x with
  | error e =>
    constructor
    · rintro ⟨e', d', h, htook⟩
      cases h
      exact ⟨htook, .inl ⟨e, rfl⟩⟩
    · rintro ⟨htook, -⟩
      exact ⟨e, d, rfl, htook⟩
  | ok a =>
    rw [or_iff_right (not_fails_ok a)]
    refine (hf a rfl).trans (and_congr_right fun _ ↦ ?_)
    simp

theorem fails_or_exists {x : Except RpcError α} {P : Prop} :
    (Fails x ∨ ∃ a, x = .ok a ∧ P) ↔ Fails x ∨ P := by
  cases x with
  | error e => exact iff_of_true (.inl ⟨e, rfl⟩) (.inl ⟨e, rfl⟩)
  | ok a => simp

/-- A part of a call that leaves the locks alone and fails where `P` holds. -/
structure Tail (x : Proc VaultDesk RpcError α) (P : Prop) : Prop where
  still : Moves Still x
  fails : ∀ d, Fails (x d).1 ↔ P

namespace Tail

variable {P : Prop}

/-- Behind a lock, it leaks where it fails. -/
theorem leaks_iff {x : Proc VaultDesk RpcError α} (hx : Tail x P) :
    Leaks d₀ x d ↔ Took d₀ d ∧ P := by
  have hstep := hx.still d
  rw [← hx.fails d]
  constructor
  · rintro ⟨e, d', h, htook⟩
    rw [h] at hstep ⊢
    exact ⟨hstep.took_iff.mp htook, e, rfl⟩
  · rintro ⟨htook, e, he⟩
    exact ⟨e, (x d).2, by rw [← he], hstep.took_iff.mpr htook⟩

theorem pure (a : α) : Tail (pure a) False where
  still := .pure a
  fails _ := iff_of_false (not_fails_ok a) id

theorem reached (fault : Option RpcError) : Tail (reached fault) fault.isSome := by
  cases fault with
  | some e => exact ⟨.throw e, fun _ ↦ iff_of_true ⟨e, rfl⟩ rfl⟩
  | none => exact ⟨.pure (), fun _ ↦ iff_of_false (not_fails_ok ()) nofun⟩

theorem lift (x : Except RpcError α) : Tail (lift x) (Fails x) := ⟨.lift x, fun _ ↦ Iff.rfl⟩

theorem bind {Q : Prop} {x : Proc VaultDesk RpcError α} {f : α → Proc VaultDesk RpcError β}
    (hx : Tail x P) (hf : ∀ a, Tail (f a) Q) : Tail (x >>= f) (P ∨ Q) where
  still := hx.still.bind fun a ↦ (hf a).still
  fails d := by
    rw [← hx.fails d, bind_apply]
    generalize x d = p
    obtain ⟨y, d'⟩ := p
    cases y with
    | error e => exact iff_of_true ⟨e, rfl⟩ (.inl ⟨e, rfl⟩)
    | ok a => exact ((hf a).fails d').trans (or_iff_right (not_fails_ok a)).symm

theorem bind_pure {x : Proc VaultDesk RpcError α} {g : α → β} (hx : Tail x P) :
    Tail (x >>= fun a ↦ Pure.pure (g a)) P where
  still := hx.still.bind fun a ↦ .pure (g a)
  fails d := ((hx.bind fun a ↦ pure (g a)).fails d).trans (or_iff_left id)

theorem when {c : Bool} {x : Proc VaultDesk RpcError Unit} (hx : Tail x P) :
    Tail (when c x) (c ∧ P) := by
  cases c with
  | false => exact ⟨.pure (), fun _ ↦ iff_of_false (not_fails_ok ()) fun h ↦ nomatch h.1⟩
  | true => exact ⟨hx.still, fun d ↦ (hx.fails d).trans ⟨fun h ↦ ⟨rfl, h⟩, And.right⟩⟩

theorem rememberBuild (op : OutPoint) (tx : Transaction) : Tail (rememberBuild op tx)
    (Fails (txBytes { tx with vin := tx.vin.map (cleared op) })) where
  still := .bind (.lift _) fun _ _ ↦ ⟨rfl, rfl⟩
  fails d := by
    unfold Daemon.rememberBuild
    generalize txBytes _ = y
    cases y with
    | error e => exact iff_of_true ⟨e, rfl⟩ ⟨e, rfl⟩
    | ok b => exact iff_of_false (not_fails_ok ()) (not_fails_ok b)

end Tail

end Leaks

/-! ### What the parts do to the locks -/

section Parts

variable {env : Env} {d₀ d d' : VaultDesk}

/-- The locks of a purse are as they were. -/
def Purse.SameLocks (p p' : Purse) : Prop := p'.locks = p.locks

instance : Proc.Path Purse.SameLocks where
  refl _ := rfl
  trans h h' := Eq.trans h' h

theorem sameLocks_onWallet {ε α : Type} (x : Proc Wallet ε α) :
    Moves Purse.SameLocks (onWallet x) := fun _ ↦ rfl

theorem sameLocks_newChange (fault : Option String) :
    Moves Purse.SameLocks (newChange env fault) := by
  refine .bind .get fun p ↦ .bind (sameLocks_onWallet _) fun _ ↦ ?_
  refine .bind (.mapErr (sameLocks_onWallet _)) fun _ ↦ .bind .get fun p' ↦ ?_
  split
  · exact .pure _
  · exact .throw _

theorem sameLocks_newWalletKey (fault : Option String) :
    Moves Purse.SameLocks (newWalletKey env fault) := by
  refine .bind .get fun p ↦ .bind (sameLocks_onWallet _) fun _ ↦ ?_
  refine .bind (.mapErr (sameLocks_onWallet _)) fun _ ↦ .bind .get fun p' ↦ ?_
  split
  · exact .pure _
  · exact .throw _

theorem sameLocks_fundChange (fault : Option String) (change : Int) :
    Moves Purse.SameLocks (fundChange env fault change) :=
  .ite (.bind (sameLocks_newChange fault) fun _ ↦ .pure _) (.pure _)

variable {A : Answers} {fault : Option String} {mode : FundMode}

/-- A `fund` that fails has locked nothing. -/
theorem fund_eq_error {vin : List OutPoint} {outs : List Out} {inputValue fee : Int} {p p' : Purse}
    {e : RpcError} (h : fund env A fault vin outs inputValue fee mode p = (.error e, p')) :
    p'.locks = p.locks := by
  rcases bind_eq_error.mp h with h | ⟨p₀, _, hget, h⟩
  · cases h
  cases hget
  rcases lift_bind_eq_error.mp h with ⟨-, rfl⟩ | ⟨eligible, -, h⟩
  · rfl
  split at h
  · cases h
    rfl
  rcases bind_eq_error.mp h with h | ⟨change, p₁, hchange, h⟩
  · have hsame : Purse.SameLocks p p' := moved (sameLocks_fundChange fault _) h
    exact hsame
  · rcases bind_eq_error.mp h with h | ⟨_, _, hlock, h⟩
    · cases h
    · cases h

/-- A `fund` that succeeds has locked what it chose. -/
theorem isLocked_fund {vin vin' : List OutPoint} {outs outs' : List Out} {inputValue fee : Int}
    {chosen : List Chosen} {p p' : Purse}
    (h : fund env A fault vin outs inputValue fee mode p = (.ok (vin', outs', chosen), p'))
    (o : OutPoint) : p'.isLocked o ↔ p.isLocked o ∨ o ∈ chosen.map Chosen.outpoint := by
  obtain ⟨_, change, p₁, _, _, _, hchange, _, _, rfl⟩ := fund_eq_ok h
  have hsame : Purse.SameLocks p p₁ := moved (sameLocks_fundChange fault _) hchange
  rw [isLocked_lockCoins]
  unfold Purse.isLocked
  rw [show p₁.locks = p.locks from hsame]

theorem atPurse_eq_error {ε α : Type} {x : Proc Purse ε α} {e : ε}
    (h : atPurse x d = (.error e, d')) :
    ∃ p, x d.purse = (.error e, p) ∧ d' = { d with purse := p } := by
  obtain ⟨hr, hd⟩ := Prod.mk.inj h
  exact ⟨(x d.purse).2, Prod.ext hr rfl, hd.symm⟩

variable {tx tx' : Transaction} {inputValue fee : Int}

theorem fundTx_eq_error {e : RpcError}
    (h : fundTx env A fault tx inputValue fee mode d = (.error e, d')) : Still d d' := by
  rcases bind_eq_error.mp h with h | ⟨x, d₁, -, h⟩
  · obtain ⟨p, hp, rfl⟩ := atPurse_eq_error h
    exact ⟨rfl, fund_eq_error hp⟩
  · cases h

/-- The inputs that the funding added are locked. -/
theorem fundTx_eq_ok (h : fundTx env A fault tx inputValue fee mode d = (.ok tx', d')) :
    d'.accepted = d.accepted ∧ ∀ o, d'.purse.isLocked o ↔
      d.purse.isLocked o ∨ o ∈ (tx'.vin.drop tx.vin.length).map TxIn.prevout := by
  obtain ⟨⟨vin, outs, chosen⟩, d₁, hfund, h⟩ := Proc.bind_eq_ok.mp h
  obtain ⟨p, hfunded, rfl⟩ := atPurse_eq_ok hfund
  cases h
  refine ⟨rfl, fun o ↦ ?_⟩
  rw [List.drop_left, List.map_map]
  exact isLocked_fund hfunded o

/-- A free coin is among the inputs behind the first ones. -/
def AddsFree (d₀ : VaultDesk) (n : Nat) (tx : Transaction) : Prop :=
  ∃ i ∈ tx.vin.drop n, ¬ d₀.purse.isLocked i.prevout

theorem took_fundTx_iff (hd : Shrinks d₀ d)
    (h : fundTx env A fault tx inputValue fee mode d = (.ok tx', d')) :
    d'.accepted = d₀.accepted ∧ (Took d₀ d' ↔ AddsFree d₀ tx.vin.length tx') := by
  obtain ⟨haccepted, hlocked⟩ := fundTx_eq_ok h
  refine ⟨haccepted.trans hd.1, ?_⟩
  constructor
  · rintro ⟨-, o, ho, hfree⟩
    rcases (hlocked o).mp ho with ho | ho
    · exact absurd (hd.2 o ho) hfree
    · obtain ⟨i, hi, rfl⟩ := List.mem_map.mp ho
      exact ⟨i, hi, hfree⟩
  · rintro ⟨i, hi, hfree⟩
    exact ⟨haccepted.trans hd.1, _, (hlocked _).mpr (.inr (List.mem_map_of_mem hi)), hfree⟩

/-- A send leaks what was taken before it, where the node does not take the transaction. -/
theorem leaks_signSend_bind {β : Type} {S : SendAnswers} {t : Sent}
    {f : String → Proc VaultDesk RpcError β} (hd : d.accepted = d₀.accepted)
    (hf : ∀ txid, Moves Unsent (f txid)) : Leaks d₀ (signSend S t >>= f) d ↔
      Took d₀ d ∧ (S.fault.isSome ∨ Fails S.reply) := by
  obtain ⟨fault, reply, syncFault⟩ := S
  have hsent {d' : VaultDesk} (h : Unsent { d with accepted := t :: d.accepted } d') :
      ¬ Took d₀ d' := by
    rintro ⟨hsame, -⟩
    rw [← hd, show d'.accepted = t :: d.accepted from h] at hsame
    exact absurd (congrArg List.length hsame) (by simp)
  cases fault with
  | some e => exact ⟨fun ⟨_, _, h, htook⟩ ↦ by cases h; exact ⟨htook, .inl rfl⟩,
      fun ⟨htook, _⟩ ↦ ⟨e, d, rfl, htook⟩⟩
  | none =>
    cases reply with
    | error e => exact ⟨fun ⟨_, _, h, htook⟩ ↦ by cases h; exact ⟨htook, .inr ⟨e, rfl⟩⟩,
        fun ⟨htook, _⟩ ↦ ⟨e, d, rfl, htook⟩⟩
    | ok txid =>
      refine iff_of_false ?_ ?_
      · rintro ⟨e, d', h, htook⟩
        cases syncFault with
        | some e' =>
          cases h
          exact hsent (Proc.Path.refl _) htook
        | none =>
          exact hsent (moved (hf txid) h) htook
      · rintro ⟨-, h | ⟨e, h⟩⟩
        · cases h
        · cases h

theorem shrinks_unlock (d : VaultDesk) (ops : List OutPoint) (builds : Builds) :
    Shrinks d { d with purse := d.purse.unlockCoins ops, builds := builds } :=
  ⟨rfl, fun o ho ↦ ((isLocked_unlockCoins _ _ o).mp ho).1⟩

theorem shrinks_pruneEach (A : Answers) (l : List (String × Bytes)) :
    Moves Shrinks (pruneEach A l) := by
  induction l with
  | nil => exact .pure _
  | cons kv l ih =>
    refine .bind (.lift _) fun op ↦ .bind (.lift _) fun c ↦ ?_
    cases c with
    | some c => exact ih
    | none =>
      refine .bind (fun d ↦ ?_) fun _ ↦ ih
      dsimp only [modify_apply]
      split
      · exact shrinks_unlock d _ _
      · exact ⟨rfl, fun o ↦ id⟩

theorem shrinks_pruneBuilds (A : Answers) : Moves Shrinks (pruneBuilds A) :=
  .bind .get fun _ ↦ shrinks_pruneEach A _

/-- Remembered builds are let go first. -/
theorem leaks_pruneBuilds_bind {β : Type} {f : Unit → Proc VaultDesk RpcError β}
    (hd : Shrinks d₀ d) : Leaks d₀ (pruneBuilds A >>= f) d ↔
      ∃ d', pruneBuilds A d = (.ok (), d') ∧ Shrinks d₀ d' ∧ Leaks d₀ (f ()) d' := by
  rw [leaks_bind, or_iff_right (not_leaks_of_shrinks (shrinks_pruneBuilds A) hd)]
  constructor
  · rintro ⟨_, d', h, hleaks⟩
    exact ⟨d', h, Proc.Path.trans hd (moved (shrinks_pruneBuilds A) h), hleaks⟩
  · rintro ⟨d', h, -, hleaks⟩
    exact ⟨(), d', h, hleaks⟩

/-- `exact_coin` made no coin in the end: it took coins for a payment that the node was not sent or did
not take. -/
def ExactLate (env : Env) (X : ExactAnswers) (value : Int) (avoid : List OutPoint)
    (d₀ d : VaultDesk) : Prop :=
  ∃ eligible k p₁ vin outs chosen p₂, d.purse.eligible X.coins 0 avoid = .ok eligible ∧
    (∀ c ∈ eligible, ¬ (value ≤ c.value ∧ c.value < value + vaultRpcMinChange)) ∧
    newWalletKey env X.keyFault d.purse = (.ok k, p₁) ∧
    fund env X.funding X.changeFault [] [⟨value, p2pkhScript (env.C.hash160 k.toList)⟩] 0 vaultRpcFee
      .largestFirst p₁ = (.ok (vin, outs, chosen), p₂) ∧
    (∃ c ∈ chosen, ¬ d₀.purse.isLocked c.outpoint) ∧
    (X.nextFault.isSome ∨ X.send.fault.isSome ∨ Fails X.send.reply)

variable {X : ExactAnswers} {value : Int} {avoid : List OutPoint}

/-- The purse's own funding locks first, too. -/
theorem leaks_fund_bind {β : Type} {vin : List OutPoint} {outs : List Out}
    {f : List OutPoint × List Out × List Chosen → Proc VaultDesk RpcError β} (hd : Shrinks d₀ d) :
    Leaks d₀ (atPurse (fund env A fault vin outs inputValue fee mode) >>= f) d ↔
      ∃ vin' outs' chosen p',
        fund env A fault vin outs inputValue fee mode d.purse = (.ok (vin', outs', chosen), p') ∧
        (Took d₀ { d with purse := p' } ↔ ∃ c ∈ chosen, ¬ d₀.purse.isLocked c.outpoint) ∧
        Leaks d₀ (f (vin', outs', chosen)) { d with purse := p' } := by
  rw [leaks_bind_of_clean hd]
  · constructor
    · rintro ⟨⟨vin', outs', chosen⟩, d', h, hleaks⟩
      obtain ⟨p', hfunded, rfl⟩ := atPurse_eq_ok h
      refine ⟨vin', outs', chosen, p', hfunded, ?_, hleaks⟩
      constructor
      · rintro ⟨-, o, ho, hfree⟩
        rcases (isLocked_fund hfunded o).mp ho with ho | ho
        · exact absurd (hd.2 o ho) hfree
        · obtain ⟨c, hc, rfl⟩ := List.mem_map.mp ho
          exact ⟨c, hc, hfree⟩
      · rintro ⟨c, hc, hfree⟩
        exact ⟨hd.1, _, (isLocked_fund hfunded _).mpr (.inr (List.mem_map_of_mem hc)), hfree⟩
    · rintro ⟨vin', outs', chosen, p', hfunded, -, hleaks⟩
      refine ⟨_, _, ?_, hleaks⟩
      unfold atPurse
      rw [hfunded]
  · intro e d' h
    obtain ⟨p, hp, rfl⟩ := atPurse_eq_error h
    exact Still.shrinks ⟨rfl, fund_eq_error hp⟩

theorem still_newWalletKey (fault : Option String) :
    Moves Still (atPurse (newWalletKey env fault)) :=
  fun d ↦ ⟨rfl, sameLocks_newWalletKey fault d.purse⟩

/-- The payment of `exact_coin`. -/
theorem leaks_payment {vin : List OutPoint} {outs : List Out} (hd : d.accepted = d₀.accepted) :
    Leaks d₀ (do
      reached X.nextFault
      let txid ← signSend X.send ⟨vin, outs⟩
      let op ← lift (readOutpoint (txid, 0))
      modify fun d ↦ { d with purse := d.purse.lockCoin op }
      return op) d ↔
        Took d₀ d ∧ (X.nextFault.isSome ∨ X.send.fault.isSome ∨ Fails X.send.reply) := by
  cases hnext : X.nextFault with
  | some e =>
    constructor
    · rintro ⟨e', d', h, htook⟩
      cases h
      exact ⟨htook, .inl rfl⟩
    · rintro ⟨htook, -⟩
      exact ⟨e, d, rfl, htook⟩
  | none =>
    rw [Option.isSome_none, or_iff_right Bool.false_ne_true]
    refine leaks_signSend_bind hd fun txid ↦ ?_
    exact .bind (.lift _) fun op ↦ .bind (fun _ ↦ rfl) fun _ ↦ .pure _

theorem leaks_exactCoin (hd : Shrinks d₀ d) :
    Leaks d₀ (exactCoin env X value avoid) d ↔ ExactLate env X value avoid d₀ d := by
  unfold exactCoin ExactLate
  rw [leaks_get_bind, leaks_lift_bind hd]
  constructor
  · rintro ⟨eligible, heligible, h⟩
    generalize hfound : List.find? _ eligible.reverse = found at h
    cases found with
    | some c => exact absurd (leaks_modify_bind.mp h) (not_leaks_pure _)
    | none =>
      rw [leaks_bind_of_clean hd fun _ _ h ↦ (moved (still_newWalletKey _) h).shrinks] at h
      obtain ⟨k, d₁, hk, h⟩ := h
      have hd₁ : Shrinks d₀ d₁ := Proc.Path.trans hd (moved (still_newWalletKey _) hk).shrinks
      obtain ⟨p₁, hissued, rfl⟩ := atPurse_eq_ok hk
      rw [leaks_fund_bind hd₁] at h
      obtain ⟨vin, outs, chosen, p₂, hfunded, htook, h⟩ := h
      obtain ⟨hlocked, hlate⟩ := (leaks_payment (d := { d with purse := p₂ }) hd.1).mp h
      refine ⟨eligible, k, p₁, vin, outs, chosen, p₂, heligible, fun c hc ↦ ?_, hissued, hfunded,
        htook.mp hlocked, hlate⟩
      simpa using List.find?_eq_none.mp hfound c (List.mem_reverse.mpr hc)
  · rintro ⟨eligible, k, p₁, vin, outs, chosen, p₂, heligible, hnone, hissued, hfunded, hlate⟩
    refine ⟨eligible, heligible, ?_⟩
    rw [List.find?_eq_none.mpr fun c hc ↦ by simpa using hnone c (List.mem_reverse.mp hc)]
    have hk : atPurse (newWalletKey env X.keyFault) d = (.ok k, { d with purse := p₁ }) := by
      unfold atPurse
      rw [hissued]
    refine leaks_bind.mpr (.inr ⟨k, _, hk, ?_⟩)
    rw [leaks_bind]
    refine .inr ⟨(vin, outs, chosen), { d with purse := p₂ }, ?_, ?_⟩
    · unfold atPurse
      rw [hfunded]
    · refine (leaks_payment (d := { d with purse := p₂ }) hd.1).mpr ⟨?_, hlate.2⟩
      obtain ⟨c, hc, hfree⟩ := hlate.1
      exact ⟨hd.1, _, (isLocked_fund hfunded _).mpr (.inr (List.mem_map_of_mem hc)), hfree⟩

/-- A coin that `exact_coin` found is locked. -/
theorem exactCoin_found {op : OutPoint} (h : exactCoin env X value avoid d = (.ok op, d'))
    (hd : d'.accepted = d.accepted) : op ∉ avoid ∧
      ∀ o, d'.purse.isLocked o ↔ d.purse.isLocked o ∨ o = op := by
  obtain ⟨d₁, _, hget, h⟩ := Proc.bind_eq_ok.mp h
  cases hget
  obtain ⟨eligible, heligible, h⟩ := Proc.lift_bind_eq_ok.mp h
  generalize hfound : List.find? _ eligible.reverse = found at h
  cases found with
  | some c =>
    cases h
    obtain ⟨cs, hcs, heligible⟩ := Result.bind_eq_ok.mp heligible
    cases heligible
    have hmem := List.mem_reverse.mp (List.mem_of_find?_eq_some hfound)
    obtain ⟨coin, -, -, hnot⟩ := mem_confirmedCoins hcs ((List.mem_insertionSort _).mp hmem)
    exact ⟨hnot, fun o ↦ isLocked_lockCoin _ _ o⟩
  | none =>
    obtain ⟨k, d₂, hk, h⟩ := Proc.bind_eq_ok.mp h
    obtain ⟨p₁, -, rfl⟩ := atPurse_eq_ok hk
    obtain ⟨⟨vin, outs, chosen⟩, d₃, hfund, h⟩ := Proc.bind_eq_ok.mp h
    obtain ⟨p₂, -, rfl⟩ := atPurse_eq_ok hfund
    obtain ⟨_, d₄, hnext, h⟩ := Proc.bind_eq_ok.mp h
    obtain ⟨-, rfl⟩ := reached_eq_ok hnext
    obtain ⟨txid, d₅, hsend, h⟩ := Proc.bind_eq_ok.mp h
    obtain ⟨-, rfl⟩ := signSend_eq_ok hsend
    obtain ⟨op', -, h⟩ := Proc.lift_bind_eq_ok.mp h
    cases h
    exact absurd (congrArg List.length hd) (by simp)

/-- `refee` fails after it took a coin: within `exact_coin`, or where the node does not answer for the
coin that was found. -/
def RefeeLate (env : Env) (F : RefeeAnswers) (tx : Transaction) (idx : Nat) (coin : NodeCoin)
    (d₀ d : VaultDesk) : Prop :=
  ∃ next before templ, F.next = .ok next ∧ sighashSet env.C tx idx coin next.branch = .ok before ∧
    tx.vin[idx]? = some templ ∧
    let old := (tx.vin.eraseIdx idx).map TxIn.prevout
    let d₁ : VaultDesk := { d with purse := d.purse.unlockCoins (old.filter d.purse.isLocked) }
    let needed := i64 (voutTotal tx + vaultRpcFee - coin.value.toInt)
    0 < needed ∧ ExactLate env F.exact needed (templ.prevout :: old) d₀ d₁ ∨
      ∃ extra d₂, newFeeCoin env F.exact needed (templ.prevout :: old) d₁ = (.ok extra, d₂) ∧
        d₂.accepted = d₀.accepted ∧
        ∃ op ∈ extra, ¬ d₀.purse.isLocked op ∧ Fails (F.recheck op)

theorem leaks_undoing {α : Type} {undo : VaultDesk → VaultDesk} {x : Proc VaultDesk RpcError α}
    (hundo : ∀ d', Took d₀ (undo d') ↔ Took d₀ d') :
    Leaks d₀ (undoing undo x) d ↔ Leaks d₀ x d := by
  unfold Leaks undoing
  generalize x d = p
  obtain ⟨y, d'⟩ := p
  cases y with
  | ok a => simp
  | error e => simp [hundo]

theorem leaks_newFeeCoin {needed : Int} (hd : Shrinks d₀ d) :
    Leaks d₀ (newFeeCoin env X needed avoid) d ↔
      0 < needed ∧ ExactLate env X needed avoid d₀ d := by
  unfold newFeeCoin
  split
  · rename_i hneeded
    rw [leaks_bind, leaks_exactCoin hd]
    constructor
    · rintro (hlate | ⟨op, d', -, h⟩)
      · exact ⟨hneeded, hlate⟩
      · exact absurd h (not_leaks_pure _)
    · exact fun h ↦ .inl h.2
  · rename_i hneeded
    exact iff_of_false (not_leaks_pure _) fun h ↦ hneeded h.1

theorem newFeeCoin_found {needed : Int} {extra : List OutPoint}
    (h : newFeeCoin env X needed avoid d = (.ok extra, d')) (hd : d'.accepted = d.accepted) :
    (∀ op ∈ extra, op ∉ avoid) ∧ ∀ o, d'.purse.isLocked o ↔ d.purse.isLocked o ∨ o ∈ extra := by
  unfold newFeeCoin at h
  split at h
  · obtain ⟨op, d₁, hop, h⟩ := Proc.bind_eq_ok.mp h
    cases h
    obtain ⟨hnot, hlocked⟩ := exactCoin_found hop hd
    simpa using ⟨hnot, hlocked⟩
  · cases h
    simp

/-- The new input is looked up again; what is undone leaks nothing. -/
theorem leaks_recheckCoins_bind {β : Type} {F : RefeeAnswers} {old extra : List OutPoint}
    {undo : VaultDesk → VaultDesk} {f : Int → Proc VaultDesk RpcError β}
    (hundo : ¬ Took d₀ (undo d)) (hlen : extra.length ≤ 1) (hf : ∀ input, ¬ Leaks d₀ (f input) d) :
    Leaks d₀ (recheckCoins F old undo extra >>= f) d ↔
      Took d₀ d ∧ ∃ op ∈ extra, Fails (F.recheck op) := by
  rw [leaks_bind, or_iff_left]
  · match extra, hlen with
    | [], _ => exact iff_of_false (not_leaks_pure _) fun ⟨_, _, hop, _⟩ ↦ nomatch hop
    | [op], _ =>
      simp only [List.mem_singleton, exists_eq_left]
      unfold recheckCoins
      cases hc : F.recheck op with
      | error e =>
        constructor
        · rintro ⟨e', d', h, htook⟩
          cases h
          exact ⟨htook, e, rfl⟩
        · rintro ⟨htook, -⟩
          exact ⟨e, d, rfl, htook⟩
      | ok c =>
        refine iff_of_false ?_ fun ⟨_, e, he⟩ ↦ nomatch he
        rintro ⟨e', d', h, htook⟩
        cases c with
        | none =>
          cases h
          exact hundo htook
        | some c =>
          rcases lift_bind_eq_error.mp h with ⟨he, -⟩ | ⟨c', hc', h⟩
          · cases he
          cases hc'
          dsimp only at h
          split at h
          · cases h
            exact hundo htook
          · cases h
  · rintro ⟨input, d', h, hleaks⟩
    obtain ⟨rfl, -⟩ := recheckCoins_eq_ok h
    exact hf input hleaks

/-- Locking what was locked at the start takes nothing. -/
theorem took_lockCoins {ops : List OutPoint} (hops : ∀ o ∈ ops, d₀.purse.isLocked o)
    (d' : VaultDesk) : Took d₀ { d' with purse := d'.purse.lockCoins ops } ↔ Took d₀ d' := by
  unfold Took
  refine and_congr_right fun _ ↦ exists_congr fun o ↦ ?_
  rw [isLocked_lockCoins]
  constructor
  · rintro ⟨ho | ho, hfree⟩
    · exact ⟨ho, hfree⟩
    · exact absurd (hops o ho) hfree
  · rintro ⟨ho, hfree⟩
    exact ⟨.inl ho, hfree⟩

theorem leaks_lift_ok_bind {α β : Type} {a : α} {f : α → Proc VaultDesk RpcError β} :
    Leaks d₀ (lift (.ok a) >>= f) d ↔ Leaks d₀ (f a) d := Iff.rfl

theorem took_newFeeCoin_iff {needed : Int} {extra : List OutPoint} (hd : Shrinks d₀ d)
    (h : newFeeCoin env X needed avoid d = (.ok extra, d')) :
    Took d₀ d' ↔ d'.accepted = d₀.accepted ∧ ∃ op ∈ extra, ¬ d₀.purse.isLocked op := by
  refine and_congr_right fun haccepted ↦ ?_
  obtain ⟨-, hlocked⟩ := newFeeCoin_found h (haccepted.trans hd.1.symm)
  constructor
  · rintro ⟨o, ho, hfree⟩
    rcases (hlocked o).mp ho with ho | ho
    · exact absurd (hd.2 o ho) hfree
    · exact ⟨o, ho, hfree⟩
  · rintro ⟨op, hop, hfree⟩
    exact ⟨op, (hlocked op).mpr (.inr hop), hfree⟩

/-- What `refee` undoes is all it took. -/
theorem not_took_undo {needed : Int} {extra ops : List OutPoint} {templ : OutPoint}
    (hd : Shrinks d₀ d) (hops : ∀ o ∈ ops, d₀.purse.isLocked o)
    (h : newFeeCoin env X needed (templ :: avoid) d = (.ok extra, d')) :
    ¬ Took d₀ { d' with
      purse := (d'.purse.unlockCoins (extra.filter (· ≠ templ))).lockCoins ops } := by
  rw [took_lockCoins hops { d' with purse := d'.purse.unlockCoins (extra.filter (· ≠ templ)) }]
  rintro ⟨haccepted, o, ho, hfree⟩
  obtain ⟨hnot, hlocked⟩ := newFeeCoin_found h (haccepted.trans hd.1.symm)
  obtain ⟨ho, hgone⟩ := (isLocked_unlockCoins _ _ o).mp ho
  rcases (hlocked o).mp ho with ho | ho
  · exact hfree (hd.2 o ho)
  · refine hgone (List.mem_filter.mpr ⟨ho, decide_eq_true fun htempl ↦ ?_⟩)
    exact hnot o ho (htempl ▸ List.mem_cons_self)

theorem eq_of_length_le_one {α : Type} {l : List α} (hlen : l.length ≤ 1) {a b : α} (ha : a ∈ l)
    (hb : b ∈ l) : a = b := by
  match l, hlen with
  | [c], _ => rw [List.mem_singleton.mp ha, List.mem_singleton.mp hb]

theorem leaks_refee {F : RefeeAnswers} {idx : Nat} {coin : NodeCoin} (hd : Shrinks d₀ d) :
    Leaks d₀ (refee env F tx idx coin) d ↔ RefeeLate env F tx idx coin d₀ d := by
  unfold refee RefeeLate
  rw [leaks_lift_bind hd]
  refine exists_congr fun next ↦ ?_
  rw [leaks_lift_bind hd]
  simp only [exists_and_left]
  refine and_congr_right fun _ ↦ exists_congr fun before ↦ and_congr_right fun hbefore ↦ ?_
  cases htempl : tx.vin[idx]? with
  | none => exact iff_of_false (not_leaks_of_shrinks (Moves.throw _) hd) nofun
  | some templ =>
    simp only [Option.some.injEq, exists_eq_left']
    let old := (tx.vin.eraseIdx idx).map TxIn.prevout
    let d₁ : VaultDesk := { d with purse := d.purse.unlockCoins (old.filter d.purse.isLocked) }
    have hd₁ : Shrinks d₀ d₁ := Proc.Path.trans hd (shrinks_unlock d _ _)
    have hreleased : ∀ o ∈ old.filter d.purse.isLocked, d₀.purse.isLocked o := fun o ho ↦
      hd.2 o (List.mem_filter.mp ho).2
    rw [leaks_get_bind, leaks_modify_bind, leaks_bind, leaks_undoing (took_lockCoins hreleased),
      leaks_newFeeCoin hd₁]
    refine or_congr_right (exists₂_congr fun extra d₂ ↦ ?_)
    rw [undoing_eq_ok]
    refine and_congr_right fun hextra ↦ ?_
    have hundo := not_took_undo hd₁ hreleased hextra
    have hafter : sighashSet env.C { tx with vin := templ :: extra.map newTxIn } 0 coin next.branch =
        .ok before := by
      rw [← hbefore, sighashSet, sighashSet, tx.sighash_anyonecanpay env.C htempl rfl]
    rw [hafter, leaks_lift_ok_bind, if_neg (not_not.mpr rfl)]
    rw [leaks_recheckCoins_bind hundo (newFeeCoin_eq_ok hextra).1, took_newFeeCoin_iff hd₁ hextra]
    · rw [and_assoc]
      refine and_congr_right fun _ ↦ ?_
      constructor
      · rintro ⟨⟨op, hop, hfree⟩, op', hop', hfails⟩
        obtain rfl := eq_of_length_le_one (newFeeCoin_eq_ok hextra).1 hop hop'
        exact ⟨op, hop, hfree, hfails⟩
      · rintro ⟨op, hop, hfree, hfails⟩
        exact ⟨⟨op, hop, hfree⟩, op, hop, hfails⟩
    · intro input
      split
      · rintro ⟨e, d', h, htook⟩
        cases h
        exact hundo htook
      · rw [leaks_modify_bind]
        exact not_leaks_pure _

/-- A `refee` that succeeds took the new input. -/
theorem took_refee_iff {F : RefeeAnswers} {idx : Nat} {coin : NodeCoin} {replaced : List OutPoint}
    (hd : Shrinks d₀ d) (h : refee env F tx idx coin d = (.ok (tx', replaced), d')) :
    Took d₀ d' ↔ d'.accepted = d₀.accepted ∧ AddsFree d₀ 1 tx' := by
  obtain ⟨templ, extra, coins, d₂, -, hextra, rfl, -, -, -, -, rfl⟩ := refee_eq_ok h
  refine and_congr_right fun haccepted ↦ ?_
  have hd₁ := Proc.Path.trans hd (shrinks_unlock d (((tx.vin.eraseIdx idx).map TxIn.prevout).filter
    d.purse.isLocked) d.builds)
  obtain ⟨-, hlocked⟩ := newFeeCoin_found hextra (haccepted.trans hd₁.1.symm)
  constructor
  · rintro ⟨o, ho, hfree⟩
    obtain ⟨ho, -⟩ := (isLocked_unlockCoins _ _ o).mp ho
    rcases (hlocked o).mp ho with ho | ho
    · exact absurd (hd₁.2 o ho) hfree
    · exact ⟨newTxIn o, List.mem_map_of_mem ho, hfree⟩
  · rintro ⟨i, hi, hfree⟩
    obtain ⟨op, hop, rfl⟩ := List.mem_map.mp hi
    refine ⟨op, (isLocked_unlockCoins _ _ op).mpr ⟨(hlocked op).mpr (.inr hop), fun hgone ↦ ?_⟩,
      hfree⟩
    have hnot := of_decide_eq_true (List.mem_filter.mp hgone).2
    exact hnot (List.mem_cons_of_mem _ hop)

end Parts

/-! ## Which calls leak -/

/-- A free coin was taken for the transaction, and then `late` holds of it. -/
def FundLate (env : Env) (F : FundAnswers) (mode : FundMode) (t : Unfunded) (d₀ : VaultDesk)
    (late : Transaction → Prop) : Prop :=
  ∃ tx d', fundDraft env F mode t d₀ = (.ok tx, d') ∧ AddsFree d₀ t.tx.vin.length tx ∧ late tx

/-- The node was not sent the transaction, or did not take it. -/
def SendLate (S : SendAnswers) : Prop := S.fault.isSome ∨ Fails S.reply

/-- `remember_build` fails. -/
def RememberLate (op : OutPoint) (tx : Transaction) : Prop :=
  Fails (txBytes { tx with vin := tx.vin.map (cleared op) })

section Calls

variable {env : Env} {d : VaultDesk} {F : FundAnswers} {S : SendAnswers}

theorem leaks_fundDraft_bind {β : Type} {mode : FundMode} {t : Unfunded}
    {f : Transaction → Proc VaultDesk RpcError β} {late : Transaction → Prop}
    (hf : ∀ tx d', fundDraft env F mode t d = (.ok tx, d') →
      (Leaks d (f tx) d' ↔ Took d d' ∧ late tx)) :
    Leaks d (fundDraft env F mode t >>= f) d ↔ FundLate env F mode t d late := by
  rw [leaks_bind_of_clean (x := fundDraft env F mode t) (Proc.Path.refl d) fun e d' h ↦
    (fundTx_eq_error h).shrinks]
  refine exists₂_congr fun tx d' ↦ and_congr_right fun h ↦ ?_
  rw [hf tx d' h, (took_fundTx_iff (Proc.Path.refl d) h).2]

theorem leaks_buildAndSend {draft : Except RpcError Unfunded}
    {finish : Transaction → Except RpcError Transaction} :
    Leaks d (buildAndSend env draft F finish S) d ↔ ∃ t, draft = .ok t ∧
      FundLate env F .largestFirst t d fun tx ↦ Fails (finish tx) ∨ SendLate S := by
  unfold buildAndSend
  rw [leaks_lift_bind (Proc.Path.refl d)]
  refine exists_congr fun t ↦ and_congr_right fun _ ↦ leaks_fundDraft_bind fun tx d' h ↦ ?_
  have haccepted := (took_fundTx_iff (Proc.Path.refl d) h).1
  rw [leaks_lift_bind_iff fun tx' _ ↦ leaks_signSend_bind haccepted fun _ ↦ .pure (), fails_or_exists]
  rfl

theorem leaks_rememberFirst_bind {tx : Transaction} {result : Option RpcError} {d₀ : VaultDesk} :
    Leaks d₀ (do rememberFirst tx; reached result) d ↔ Took d₀ d ∧
      ((∀ i ∈ tx.vin.head?, RememberLate i.prevout tx) ∨ result.isSome) := by
  unfold rememberFirst
  cases tx.vin with
  | nil =>
    constructor
    · rintro ⟨e, d', h, htook⟩
      cases h
      exact ⟨htook, .inl nofun⟩
    · rintro ⟨htook, -⟩
      exact ⟨_, d, rfl, htook⟩
  | cons i is =>
    rw [((Tail.rememberBuild i.prevout tx).bind fun _ ↦ Tail.reached result).leaks_iff]
    simp [RememberLate]

theorem leaks_setJoin {join : Except RpcError (TxOut × SetAct.Act)}
    {sign : Transaction → Except RpcError (Transaction × Int)} {result : Option RpcError} :
    Leaks d (setJoin env join F sign S result) d ↔ ∃ bond a, join = .ok (bond, a) ∧
      FundLate env F .largestFirst (actDraft [bond] a) d fun tx ↦ Fails (sign tx) ∨
        ∃ r, sign tx = .ok r ∧ (r.2 = 0 ∧ SendLate S ∨
          r.2 ≠ 0 ∧ ((∀ i ∈ r.1.vin.head?, RememberLate i.prevout r.1) ∨ result.isSome)) := by
  unfold setJoin
  rw [leaks_lift_bind (Proc.Path.refl d), Prod.exists]
  refine exists₂_congr fun bond a ↦ and_congr_right fun _ ↦ leaks_fundDraft_bind fun tx d' h ↦ ?_
  have haccepted := (took_fundTx_iff (Proc.Path.refl d) h).1
  refine leaks_lift_bind_iff fun r _ ↦ ?_
  obtain ⟨tx', missing⟩ := r
  dsimp only
  split
  · rename_i hmissing
    rw [leaks_signSend_bind haccepted fun _ ↦ fun d ↦ ((Tail.reached result).still d).1]
    simp [hmissing, SendLate]
  · rename_i hmissing
    rw [leaks_rememberFirst_bind]
    simp [hmissing]

theorem leaks_setBuildact {act : Except RpcError (List TxOut × SetAct.Act)}
    {view result : Option RpcError} :
    Leaks d (setBuildact env act F view result) d ↔ ∃ before a, act = .ok (before, a) ∧
      FundLate env F .largestFirst (actDraft before a) d fun tx ↦ view.isSome ∨
        (∀ i ∈ tx.vin.head?, RememberLate i.prevout tx) ∨ result.isSome := by
  unfold setBuildact
  rw [leaks_lift_bind (Proc.Path.refl d), Prod.exists]
  refine exists₂_congr fun before a ↦ and_congr_right fun _ ↦ leaks_fundDraft_bind fun tx d' _ ↦ ?_
  cases view with
  | some e =>
    constructor
    · rintro ⟨e', d₁, h, htook⟩
      cases h
      exact ⟨htook, .inl rfl⟩
    · rintro ⟨htook, -⟩
      exact ⟨e, d', rfl, htook⟩
  | none =>
    rw [Option.isSome_none, or_iff_right Bool.false_ne_true]
    exact leaks_rememberFirst_bind

theorem not_leaks_sendAct {d₀ : VaultDesk} {prepared : Except RpcError (Option Sent)}
    (hd : Shrinks d₀ d) : ¬ Leaks d₀ (sendAct prepared S) d := by
  unfold sendAct
  rw [leaks_lift_bind hd]
  rintro ⟨t, -, h⟩
  cases t with
  | none => exact not_leaks_pure _ h
  | some t => exact hd.not_took ((leaks_signSend_bind hd.1 fun _ ↦ .pure ()).mp h).1

theorem not_leaks_prune_sendAct {prune : Answers} {prepared : Except RpcError (Option Sent)} :
    ¬ Leaks d (do pruneBuilds prune; sendAct prepared S) d := by
  rw [leaks_pruneBuilds_bind (Proc.Path.refl d)]
  rintro ⟨d', -, hd, h⟩
  exact not_leaks_sendAct hd h

end Calls

section Builds

variable {env : Env} {d₀ d d' : VaultDesk} {U : UnlockAnswers} {op : OutPoint} {coin : NodeCoin}

/-- A remembered build is to be used again, its fee coins are spent, and `refee` fails after it took
a coin. -/
def RenewLate (env : Env) (U : UnlockAnswers) (op : OutPoint) (coin : NodeCoin) (c : Transaction)
    (d₀ d : VaultDesk) : Prop :=
  feeInputsUnspent U.coins d.purse.wallet op c.vin = .ok false ∧
    RefeeLate env U.refee c 0 coin d₀ d

/-- A coin is taken by a build that is new or has a new fee coin. -/
def Built (d₀ d' : VaultDesk) (tx : Transaction) (kind : BuildKind) : Prop :=
  kind ≠ .reused ∧ d'.accepted = d₀.accepted ∧ AddsFree d₀ 1 tx

theorem leaks_renewBuild {c : Transaction} (hd : Shrinks d₀ d) :
    Leaks d₀ (renewBuild env U op coin c) d ↔ RenewLate env U op coin c d₀ d := by
  unfold renewBuild RenewLate
  rw [leaks_get_bind, leaks_lift_bind hd]
  constructor
  · rintro ⟨unspent, hunspent, h⟩
    cases unspent with
    | true => exact absurd h (not_leaks_pure _)
    | false =>
      rcases leaks_bind.mp h with h | ⟨r, d₁, -, h⟩
      · exact ⟨hunspent, (leaks_refee hd).mp h⟩
      · exact absurd h (not_leaks_pure _)
  · rintro ⟨hunspent, hlate⟩
    exact ⟨false, hunspent, leaks_bind.mpr (.inl ((leaks_refee hd).mpr hlate))⟩

theorem took_renewBuild_iff {c tx : Transaction} {kind : BuildKind} (hd : Shrinks d₀ d)
    (h : renewBuild env U op coin c d = (.ok (tx, kind), d')) :
    Took d₀ d' ↔ Built d₀ d' tx kind := by
  obtain ⟨d₁, _, hget, h⟩ := Proc.bind_eq_ok.mp h
  cases hget
  obtain ⟨unspent, -, h⟩ := Proc.lift_bind_eq_ok.mp h
  split at h
  · cases h
    exact iff_of_false hd.not_took fun hbuilt ↦ hbuilt.1 rfl
  · obtain ⟨⟨tx', old⟩, d₂, hrefee, h⟩ := Proc.bind_eq_ok.mp h
    cases h
    rw [took_refee_iff hd hrefee]
    exact ⟨fun h ↦ ⟨nofun, h⟩, And.right⟩

theorem not_leaks_newBuild {outs : List TxOut} (hd : Shrinks d₀ d) :
    ¬ Leaks d₀ (newBuild env U op coin outs) d := by
  unfold newBuild
  rw [leaks_bind_of_clean hd fun e d' h ↦ (fundTx_eq_error h).shrinks]
  rintro ⟨tx, d', -, h⟩
  exact not_leaks_pure _ h

theorem took_newBuild_iff {outs : List TxOut} {tx : Transaction} {kind : BuildKind}
    (hd : Shrinks d₀ d) (h : newBuild env U op coin outs d = (.ok (tx, kind), d')) :
    Took d₀ d' ↔ Built d₀ d' tx kind := by
  obtain ⟨tx₁, d₁, hfund, h⟩ := Proc.bind_eq_ok.mp h
  cases h
  obtain ⟨haccepted, htook⟩ := took_fundTx_iff hd hfund
  rw [htook]
  exact ⟨fun h ↦ ⟨nofun, haccepted, h⟩, fun h ↦ h.2.2⟩

theorem shrinks_unlockBuildInputs {c : Transaction} {cond : Bool} :
    Moves Shrinks (when cond (modify fun d ↦ { d with purse := d.purse.unlockBuildInputs op c }) :
      Proc VaultDesk RpcError Unit) := .when fun d ↦ shrinks_unlock d _ d.builds

theorem leaks_reuseBuild {next : Next} {c : Transaction} {outs : List TxOut} (hd : Shrinks d₀ d) :
    Leaks d₀ (reuseBuild env U op coin next c outs) d ↔
      servesFor c op outs ∧ RenewLate env U op coin c d₀ d := by
  unfold reuseBuild
  split
  · rename_i hserves
    refine iff_of_false (fun h ↦ ?_) fun h ↦ ?_
    · exact not_leaks_of_shrinks (.bind (.lift _) fun _ ↦ .throw _) hd h
    · rw [h.1] at hserves
      cases hserves
  · rename_i hserves
    rw [leaks_renewBuild hd]
    exact (and_iff_right (by simpa using hserves)).symm

theorem leaks_unlockTx {next : Next} {rebuild : Bool} {memo : Option Transaction}
    {outs : List TxOut} (hd : Shrinks d₀ d) :
    Leaks d₀ (unlockTx env U op coin next rebuild memo outs) d ↔ rebuild = false ∧
      ∃ c, memo = some c ∧ servesFor c op outs ∧ RenewLate env U op coin c d₀ d := by
  unfold unlockTx
  cases memo with
  | none => exact iff_of_false (not_leaks_newBuild hd) fun ⟨_, _, h, _⟩ ↦ nomatch h
  | some c =>
    cases rebuild with
    | true =>
      refine iff_of_false (fun h ↦ ?_) fun h ↦ nomatch h.1
      rcases leaks_bind.mp h with h | ⟨_, d₁, hunlock, h⟩
      · exact not_leaks_of_shrinks shrinks_unlockBuildInputs hd h
      · exact not_leaks_newBuild (Proc.Path.trans hd (moved shrinks_unlockBuildInputs hunlock)) h
    | false =>
      simp only [Option.some.injEq, exists_eq_left', true_and]
      exact leaks_reuseBuild hd

theorem took_unlockTx_iff {next : Next} {rebuild : Bool} {memo : Option Transaction}
    {outs : List TxOut} {tx : Transaction} {kind : BuildKind} (hd : Shrinks d₀ d)
    (h : unlockTx env U op coin next rebuild memo outs d = (.ok (tx, kind), d')) :
    Took d₀ d' ↔ Built d₀ d' tx kind := by
  unfold unlockTx at h
  cases memo with
  | none => exact took_newBuild_iff hd h
  | some c =>
    cases rebuild with
    | true =>
      obtain ⟨_, d₁, hunlock, h⟩ := Proc.bind_eq_ok.mp h
      exact took_newBuild_iff (Proc.Path.trans hd (moved shrinks_unlockBuildInputs hunlock)) h
    | false =>
      replace h : reuseBuild env U op coin next c outs d = (.ok (tx, kind), d') := h
      unfold reuseBuild at h
      split at h
      · obtain ⟨sighash, -, h⟩ := Proc.lift_bind_eq_ok.mp h
        cases h
      · exact took_renewBuild_iff hd h

theorem leaks_cancelTx {rebuild : Bool} {memo : Option Transaction} {outs : List TxOut}
    (hd : Shrinks d₀ d) : Leaks d₀ (cancelTx env U op coin rebuild memo outs) d ↔ rebuild = false ∧
      ∃ c, memo = some c ∧ cancelServes c op outs ∧ RenewLate env U op coin c d₀ d := by
  unfold cancelTx
  cases memo with
  | none => exact iff_of_false (not_leaks_newBuild hd) fun ⟨_, _, h, _⟩ ↦ nomatch h
  | some c =>
    simp only [Option.some.injEq, exists_eq_left']
    split
    · rename_i hdiffers
      refine iff_of_false (fun h ↦ ?_) fun h ↦ ?_
      · rcases leaks_bind.mp h with h | ⟨_, d₁, hunlock, h⟩
        · exact not_leaks_of_shrinks shrinks_unlockBuildInputs hd h
        · exact not_leaks_newBuild (Proc.Path.trans hd (moved shrinks_unlockBuildInputs hunlock)) h
      · rw [h.1, h.2.1] at hdiffers
        cases hdiffers
    · rename_i hserves
      rw [leaks_renewBuild hd]
      simp only [Bool.or_eq_true, Bool.not_eq_true', not_or, Bool.not_eq_true,
        Bool.not_eq_false] at hserves
      exact ⟨fun h ↦ ⟨hserves.1, hserves.2, h⟩, fun h ↦ h.2.2⟩

theorem took_cancelTx_iff {rebuild : Bool} {memo : Option Transaction} {outs : List TxOut}
    {tx : Transaction} {kind : BuildKind} (hd : Shrinks d₀ d)
    (h : cancelTx env U op coin rebuild memo outs d = (.ok (tx, kind), d')) :
    Took d₀ d' ↔ Built d₀ d' tx kind := by
  unfold cancelTx at h
  cases memo with
  | none => exact took_newBuild_iff hd h
  | some c =>
    dsimp only at h
    split at h
    · obtain ⟨_, d₁, hunlock, h⟩ := Proc.bind_eq_ok.mp h
      exact took_newBuild_iff (Proc.Path.trans hd (moved shrinks_unlockBuildInputs hunlock)) h
    · exact took_renewBuild_iff hd h

/-- What a build call does after it has its transaction. -/
theorem leaks_built {β : Type} {x : Proc VaultDesk RpcError (Transaction × BuildKind)}
    {f : Transaction × BuildKind → Proc VaultDesk RpcError β} {late : Prop}
    {tail : Transaction → BuildKind → Prop} (hx : Leaks d₀ x d ↔ late)
    (htook : ∀ tx kind d', x d = (.ok (tx, kind), d') → (Took d₀ d' ↔ Built d₀ d' tx kind))
    (hf : ∀ tx kind, Tail (f (tx, kind)) (tail tx kind)) :
    Leaks d₀ (x >>= f) d ↔ late ∨ ∃ tx kind d', x d = (.ok (tx, kind), d') ∧
      Built d₀ d' tx kind ∧ tail tx kind := by
  rw [leaks_bind, hx, Prod.exists]
  refine or_congr_right (exists₃_congr fun tx kind d' ↦ and_congr_right fun h ↦ ?_)
  rw [(hf tx kind).leaks_iff, htook tx kind d' h]

/-- `vault_buildunlock` fails after it took a coin: within `refee`, or where the build cannot be
remembered, or the node does not answer for the set, or the transaction cannot be hashed or written. -/
def UnlockLate (env : Env) (U : UnlockAnswers) (op : OutPoint)
    (recipientParam : Json → Except RpcError Bytes) (amountParam : Json → Except RpcError Int64)
    (recipients : Json) (rebuild : Bool) (d : VaultDesk) : Prop :=
  ∃ next coin vp d₁ outs, U.active = .ok next ∧ U.coin = .ok (some coin) ∧
    parseVault coin.script = some vp ∧ pruneBuilds U.prune d = (.ok (), d₁) ∧
    addIntents env.C recipientParam amountParam vp coin recipients = .ok outs ∧
    let memo := buildOf d₁.builds op
    ((rebuild = false ∧ ∃ c, memo = some c ∧ servesFor c op outs ∧ RenewLate env U op coin c d d₁) ∨
      ∃ tx kind d₂, unlockTx env U op coin next rebuild memo outs d₁ = (.ok (tx, kind), d₂) ∧
        Built d d₂ tx kind ∧
        (!(memo.isSome && rebuild && U.signedPrevout) ∧ RememberLate op tx ∨ Fails U.required ∨
          Fails (sighashSet env.C tx 0 coin next.branch) ∨ Fails (txBytes tx)))

theorem leaks_vaultBuildunlock {recipientParam : Json → Except RpcError Bytes}
    {amountParam : Json → Except RpcError Int64} {recipients : Json} {rebuild : Bool} :
    Leaks d (vaultBuildunlock env U op recipientParam amountParam recipients rebuild) d ↔
      UnlockLate env U op recipientParam amountParam recipients rebuild d := by
  unfold vaultBuildunlock UnlockLate
  rw [leaks_lift_bind (Proc.Path.refl d)]
  refine exists_congr fun next ↦ ?_
  rw [leaks_lift_bind (Proc.Path.refl d)]
  simp only [exists_and_left]
  refine and_congr_right fun _ ↦ ?_
  rw [Option.exists, or_iff_right fun h ↦ not_leaks_of_shrinks (.throw _) (Proc.Path.refl d) h.2]
  refine exists_congr fun coin ↦ and_congr_right fun _ ↦ ?_
  dsimp only
  cases parseVault coin.script with
  | none => exact iff_of_false (not_leaks_of_shrinks (.throw _) (Proc.Path.refl d)) nofun
  | some vp =>
    simp only [Option.some.injEq, exists_eq_left']
    rw [leaks_pruneBuilds_bind (Proc.Path.refl d)]
    refine exists_congr fun d₁ ↦ and_congr_right fun hprune ↦ ?_
    have hd₁ : Shrinks d d₁ := moved (shrinks_pruneBuilds _) hprune
    rw [and_iff_right hd₁, leaks_lift_bind hd₁]
    refine exists_congr fun outs ↦ and_congr_right fun _ ↦ ?_
    rw [leaks_get_bind]
    refine leaks_built (leaks_unlockTx hd₁) (fun tx kind d₂ ↦ took_unlockTx_iff hd₁) fun tx kind ↦ ?_
    exact (Tail.rememberBuild op tx).when.bind fun _ ↦ (Tail.lift _).bind fun _ ↦
      (Tail.lift _).bind fun _ ↦ (Tail.lift _).bind_pure

/-- `build_intent_cancel` fails after it took a coin, as `vault_buildunlock` does. -/
def CancelLate (env : Env) (U : UnlockAnswers) (op : OutPoint)
    (origin : Except RpcError (Bytes × Int)) (extra : List TxOut) (yedAllowed rebuild : Bool)
    (d : VaultDesk) : Prop :=
  ∃ next coin ip script height d₁, U.active = .ok next ∧ U.coin = .ok (some coin) ∧
    parseIntent coin.script = some ip ∧ ¬ (!yedAllowed && ip.tag = yedTag) ∧
    origin = .ok (script, height) ∧ ¬ ip.delay ≤ (next.height : Int) - height ∧
    pruneBuilds U.prune d = (.ok (), d₁) ∧
    let memo := buildOf d₁.builds op
    let outs := ⟨coin.value, script⟩ :: extra
    ((rebuild = false ∧ ∃ c, memo = some c ∧ cancelServes c op outs ∧
        RenewLate env U op coin c d d₁) ∨
      ∃ tx kind d₂, cancelTx env U op coin rebuild memo outs d₁ = (.ok (tx, kind), d₂) ∧
        Built d d₂ tx kind ∧
        (!(memo.isSome && kind = .new && U.signedPrevout) ∧ RememberLate op tx ∨
          Fails (sighashSet env.C tx 0 coin next.branch) ∨ Fails U.required ∨ Fails (txBytes tx)))

theorem leaks_buildIntentCancel {origin : Except RpcError (Bytes × Int)} {extra : List TxOut}
    {yedAllowed rebuild : Bool} :
    Leaks d (buildIntentCancel env U op origin extra yedAllowed rebuild) d ↔
      CancelLate env U op origin extra yedAllowed rebuild d := by
  unfold buildIntentCancel CancelLate
  rw [leaks_lift_bind (Proc.Path.refl d)]
  refine exists_congr fun next ↦ ?_
  rw [leaks_lift_bind (Proc.Path.refl d)]
  simp only [exists_and_left]
  refine and_congr_right fun _ ↦ ?_
  rw [Option.exists, or_iff_right fun h ↦ not_leaks_of_shrinks (.throw _) (Proc.Path.refl d) h.2]
  refine exists_congr fun coin ↦ and_congr_right fun _ ↦ ?_
  dsimp only
  cases parseIntent coin.script with
  | none => exact iff_of_false (not_leaks_of_shrinks (.throw _) (Proc.Path.refl d)) nofun
  | some ip =>
    simp only [Option.some.injEq, exists_eq_left']
    split
    · rename_i hyed
      exact iff_of_false (not_leaks_of_shrinks (.throw _) (Proc.Path.refl d)) fun h ↦ h.1 hyed
    rename_i hyed
    rw [and_iff_right hyed, leaks_lift_bind (Proc.Path.refl d), Prod.exists]
    refine exists₂_congr fun script height ↦ and_congr_right fun _ ↦ ?_
    split
    · rename_i hmature
      exact iff_of_false (not_leaks_of_shrinks (.throw _) (Proc.Path.refl d)) fun h ↦ h.1 hmature
    rename_i hmature
    rw [and_iff_right hmature, leaks_pruneBuilds_bind (Proc.Path.refl d)]
    refine exists_congr fun d₁ ↦ and_congr_right fun hprune ↦ ?_
    have hd₁ : Shrinks d d₁ := moved (shrinks_pruneBuilds _) hprune
    rw [and_iff_right hd₁, leaks_get_bind]
    refine leaks_built (leaks_cancelTx hd₁) (fun tx kind d₂ ↦ took_cancelTx_iff hd₁) fun tx kind ↦ ?_
    exact (Tail.rememberBuild op tx).when.bind fun _ ↦ (Tail.lift _).bind fun _ ↦
      (Tail.lift _).bind fun _ ↦ (Tail.lift _).bind_pure

/-- `vault_refee` fails after it took a coin: within `refee`, or where the transaction cannot be
remembered, hashed or written, or the node does not answer for its inputs. -/
def VaultRefeeLate (env : Env) (R : VaultRefeeAnswers) (d : VaultDesk) : Prop :=
  ∃ next tx t templ d₁, R.active = .ok next ∧ R.tx = .ok tx ∧ R.template = .ok t ∧
    tx.vin[t.idx]? = some templ ∧ pruneBuilds R.prune d = (.ok (), d₁) ∧
    (RefeeLate env R.refee tx t.idx t.coin d d₁ ∨
      ∃ tx' replaced d₂, refee env R.refee tx t.idx t.coin d₁ = (.ok (tx', replaced), d₂) ∧
        d₂.accepted = d.accepted ∧ AddsFree d 1 tx' ∧
        (((buildOf d₂.builds templ.prevout).all (fun m ↦ m.vout = tx'.vout) || !R.signedPrevout) ∧
            RememberLate templ.prevout tx' ∨ R.coinsFault.isSome ∨
          Fails (sighashSet env.C tx' 0 t.coin next.branch) ∨ Fails (txBytes tx')))

theorem leaks_vaultRefee {R : VaultRefeeAnswers} :
    Leaks d (vaultRefee env R) d ↔ VaultRefeeLate env R d := by
  unfold vaultRefee VaultRefeeLate
  rw [leaks_lift_bind (Proc.Path.refl d)]
  refine exists_congr fun next ↦ ?_
  rw [leaks_lift_bind (Proc.Path.refl d)]
  simp only [exists_and_left]
  refine and_congr_right fun _ ↦ exists_congr fun tx ↦ and_congr_right fun _ ↦ ?_
  rw [leaks_lift_bind (Proc.Path.refl d)]
  refine exists_congr fun t ↦ and_congr_right fun _ ↦ ?_
  cases tx.vin[t.idx]? with
  | none => exact iff_of_false (not_leaks_of_shrinks (.throw _) (Proc.Path.refl d)) nofun
  | some templ =>
    simp only [Option.some.injEq, exists_eq_left']
    rw [leaks_pruneBuilds_bind (Proc.Path.refl d)]
    refine exists_congr fun d₁ ↦ and_congr_right fun hprune ↦ ?_
    have hd₁ : Shrinks d d₁ := moved (shrinks_pruneBuilds _) hprune
    rw [and_iff_right hd₁, leaks_bind, leaks_refee hd₁, Prod.exists]
    refine or_congr_right (exists₃_congr fun tx' replaced d₂ ↦ and_congr_right fun h ↦ ?_)
    rw [leaks_get_bind, ← and_assoc, ← took_refee_iff hd₁ h]
    refine Tail.leaks_iff ?_
    exact (Tail.rememberBuild templ.prevout tx').when.bind fun _ ↦ (Tail.reached _).bind fun _ ↦
      (Tail.lift _).bind fun _ ↦ (Tail.lift _).bind_pure

/-- The funding adds coins that were no inputs, and outputs. -/
theorem fundTx_fresh {A : Answers} {fault : Option String} {tx tx' : Transaction}
    {inputValue fee : Int} {mode : FundMode}
    (h : fundTx env A fault tx inputValue fee mode d = (.ok tx', d')) :
    (∃ vin vout, tx' = { tx with vin := tx.vin ++ vin, vout := vout }) ∧
      ∀ i ∈ tx'.vin.drop tx.vin.length, i.prevout ∉ tx.vin.map TxIn.prevout := by
  obtain ⟨⟨vin, outs, chosen⟩, d₁, hfund, h⟩ := Proc.bind_eq_ok.mp h
  obtain ⟨p, hfunded, rfl⟩ := atPurse_eq_ok hfund
  cases h
  refine ⟨⟨_, _, rfl⟩, fun i hi ↦ ?_⟩
  rw [List.drop_left] at hi
  obtain ⟨c, hc, rfl⟩ := List.mem_map.mp hi
  obtain ⟨eligible, _, _, heligible, rfl, _⟩ := fund_eq_ok hfunded
  obtain ⟨cs, hcs, heligible⟩ := Result.bind_eq_ok.mp heligible
  cases heligible
  obtain ⟨coin, -, -, hnot⟩ :=
    mem_confirmedCoins hcs ((List.mem_insertionSort _).mp (mem_fundChoice hc))
  exact hnot

theorem not_fails_txBytes {tx : Transaction} (hheader : tx.header = txHeaderV4)
    (hgroup : tx.versionGroupId = saplingVersionGroupId) (hshielded : tx.shielded = .empty) :
    ¬ Fails (txBytes tx) := by
  have hv4 : tx.isSaplingV4 = true := by
    rw [Transaction.isSaplingV4, hheader, hgroup]
    decide
  rw [txBytes, Transaction.serialize, hshielded, hv4, if_neg (by decide), if_neg (by simp)]
  exact not_fails_ok _

theorem took_supersede {op : OutPoint} {tx : Transaction} (hd : Shrinks d₀ d)
    (hlocked : ∀ o, d'.purse.isLocked o → d.purse.isLocked o ∨
      o ∈ tx.vin.map TxIn.prevout ∧ o ≠ op) : ¬ Leaks d₀ (supersede op tx) d' := by
  unfold supersede
  rw [leaks_get_bind]
  split
  · exact not_leaks_pure _
  · split
    · rintro ⟨e, d₁, h, -⟩
      unfold when at h
      split at h
      · cases h
      · cases h
    · rw [leaks_modify_bind]
      rintro ⟨e, d₁, h, -, o, ho, hfree⟩
      cases h
      obtain ⟨ho, hgone⟩ := (isLocked_unlockCoins _ _ o).mp ho
      rcases hlocked o ho with ho | ⟨ho, hne⟩
      · exact hfree (hd.2 o ho)
      · exact hgone (List.mem_filter.mpr ⟨ho, decide_eq_true hne⟩)

/-- `vault_app` gives up what it took where it finds another build, and nothing can fail after that. -/
theorem not_leaks_vaultApp {spend : Except RpcError (Int × UInt32 × List TxOut)} {F : FundAnswers} :
    ¬ Leaks d (vaultApp env op spend F) d := by
  unfold vaultApp
  rw [leaks_lift_bind (Proc.Path.refl d)]
  rintro ⟨⟨value, lockTime, outs⟩, -, h⟩
  obtain ⟨tx, d₁, hfund, h⟩ := (leaks_bind_of_clean (Proc.Path.refl d) fun e d' h ↦
    (fundTx_eq_error h).shrinks).mp h
  obtain ⟨⟨vin, vout, rfl⟩, hfresh⟩ := fundTx_fresh hfund
  obtain ⟨-, hlocked⟩ := fundTx_eq_ok hfund
  rcases leaks_bind.mp h with h | ⟨_, d₂, -, h⟩
  · refine took_supersede (Proc.Path.refl d) (fun o ho ↦ ?_) h
    rcases (hlocked o).mp ho with ho | ho
    · exact .inl ho
    · obtain ⟨i, hi, rfl⟩ := List.mem_map.mp ho
      refine .inr ⟨List.mem_map_of_mem (List.mem_of_mem_drop hi), fun heq ↦ hfresh i hi ?_⟩
      rw [heq]
      exact List.mem_cons_self
  · rcases (((Tail.rememberBuild op _).bind fun _ ↦ (Tail.lift _).bind_pure).leaks_iff.mp h).2
      with hfails | hfails
    · exact not_fails_txBytes rfl rfl rfl hfails
    · exact not_fails_txBytes rfl rfl rfl hfails

end Builds

/-! ## All calls -/

/-- A call that builds or sends, or pays a new fee. -/
inductive VaultCall where
  | setCreate (create : Except RpcError SetAct.Act) (F : FundAnswers) (S : SendAnswers)
  | setEquivocation (proof : Except RpcError SetAct.Act) (F : FundAnswers) (S : SendAnswers)
  | setHeartbeat (heartbeat : Except RpcError SetAct.Act) (F : FundAnswers)
      (sign : Transaction → Except RpcError Transaction) (S : SendAnswers)
  | setLeave (remove : Except RpcError SetAct.Act) (F : FundAnswers)
      (sign : Transaction → Except RpcError Transaction) (S : SendAnswers)
  | setJoin (join : Except RpcError (TxOut × SetAct.Act)) (F : FundAnswers)
      (sign : Transaction → Except RpcError (Transaction × Int)) (S : SendAnswers)
      (result : Option RpcError)
  | setBuildact (act : Except RpcError (List TxOut × SetAct.Act)) (F : FundAnswers)
      (view result : Option RpcError)
  | setSendact (prune : Answers) (prepared : Except RpcError (Option Sent)) (S : SendAnswers)
  | vaultLock (vault : Except RpcError TxOut) (F : FundAnswers) (S : SendAnswers)
  | vaultBuildunlock (U : UnlockAnswers) (op : OutPoint)
      (recipientParam : Json → Except RpcError Bytes) (amountParam : Json → Except RpcError Int64)
      (recipients : Json) (rebuild : Bool)
  | buildIntentCancel (U : UnlockAnswers) (op : OutPoint) (origin : Except RpcError (Bytes × Int))
      (extra : List TxOut) (yedAllowed rebuild : Bool)
  | vaultRefee (R : VaultRefeeAnswers)
  | vaultSend (prune : Answers) (prepared : Except RpcError (Option Sent)) (S : SendAnswers)
  | vaultRelease (intent : Except RpcError (TxIn × TxOut)) (F : FundAnswers) (S : SendAnswers)
  | vaultOwnerspend (prepared : Except RpcError Sent) (S : SendAnswers)
  | vaultApp (op : OutPoint) (spend : Except RpcError (Int × UInt32 × List TxOut)) (F : FundAnswers)

/-- `vault_call`. -/
def vaultCall (env : Env) : VaultCall → Proc VaultDesk RpcError Unit
  | .setCreate create F S => setCreate env create F S
  | .setEquivocation proof F S => setEquivocation env proof F S
  | .setHeartbeat heartbeat F sign S => setHeartbeat env heartbeat F sign S
  | .setLeave remove F sign S => setLeave env remove F sign S
  | .setJoin join F sign S result => setJoin env join F sign S result
  | .setBuildact act F view result => setBuildact env act F view result
  | .setSendact prune prepared S => setSendact prune prepared S
  | .vaultLock vault F S => vaultLock env vault F S
  | .vaultBuildunlock U op recipientParam amountParam recipients rebuild => do
    let _ ← vaultBuildunlock env U op recipientParam amountParam recipients rebuild
    return ()
  | .buildIntentCancel U op origin extra yedAllowed rebuild =>
    buildIntentCancel env U op origin extra yedAllowed rebuild
  | .vaultRefee R => vaultRefee env R
  | .vaultSend prune prepared S => vaultSend prune prepared S
  | .vaultRelease intent F S => vaultRelease env intent F S
  | .vaultOwnerspend prepared S => vaultOwnerspend prepared S
  | .vaultApp op spend F => vaultApp env op spend F

/-- A call that sends at once fails after it took a free coin. -/
def BuildAndSendLate (env : Env) (draft : Except RpcError Unfunded) (F : FundAnswers)
    (finish : Transaction → Except RpcError Transaction) (S : SendAnswers) (d : VaultDesk) : Prop :=
  ∃ t, draft = .ok t ∧ FundLate env F .largestFirst t d fun tx ↦ Fails (finish tx) ∨ SendLate S

/-- The call fails after it took a free coin. -/
def VaultCall.Late (env : Env) (d : VaultDesk) : VaultCall → Prop
  | .setCreate create F S => BuildAndSendLate env (create.map (actDraft [])) F .ok S d
  | .setEquivocation proof F S => BuildAndSendLate env (proof.map (actDraft [])) F .ok S d
  | .setHeartbeat heartbeat F sign S =>
    BuildAndSendLate env (heartbeat.map (actDraft [])) F sign S d
  | .setLeave remove F sign S => BuildAndSendLate env (remove.map (actDraft [])) F sign S d
  | .setJoin join F sign S result => ∃ bond a, join = .ok (bond, a) ∧
      FundLate env F .largestFirst (actDraft [bond] a) d fun tx ↦ Fails (sign tx) ∨
        ∃ r, sign tx = .ok r ∧ (r.2 = 0 ∧ SendLate S ∨
          r.2 ≠ 0 ∧ ((∀ i ∈ r.1.vin.head?, RememberLate i.prevout r.1) ∨ result.isSome))
  | .setBuildact act F view result => ∃ before a, act = .ok (before, a) ∧
      FundLate env F .largestFirst (actDraft before a) d fun tx ↦ view.isSome ∨
        (∀ i ∈ tx.vin.head?, RememberLate i.prevout tx) ∨ result.isSome
  | .vaultLock vault F S => BuildAndSendLate env (vault.map fun o ↦ ⟨newTx [] [o], 0⟩) F .ok S d
  | .vaultBuildunlock U op recipientParam amountParam recipients rebuild =>
    UnlockLate env U op recipientParam amountParam recipients rebuild d
  | .buildIntentCancel U op origin extra yedAllowed rebuild =>
    CancelLate env U op origin extra yedAllowed rebuild d
  | .vaultRefee R => VaultRefeeLate env R d
  | .vaultRelease intent F S =>
    BuildAndSendLate env (intent.map fun (i, o) ↦ ⟨newTx [i] [o], o.value.toInt⟩) F .ok S d
  -- these take no coin, or give up what they took
  | .setSendact .. | .vaultSend .. | .vaultOwnerspend .. | .vaultApp .. => False

theorem leaks_vaultCall (env : Env) (c : VaultCall) (d : VaultDesk) :
    Leaks d (vaultCall env c) d ↔ c.Late env d := by
  cases c with
  | setCreate => exact leaks_buildAndSend
  | setEquivocation => exact leaks_buildAndSend
  | setHeartbeat => exact leaks_buildAndSend
  | setLeave => exact leaks_buildAndSend
  | setJoin => exact leaks_setJoin
  | setBuildact => exact leaks_setBuildact
  | setSendact => exact iff_of_false not_leaks_prune_sendAct id
  | vaultLock => exact leaks_buildAndSend
  | vaultBuildunlock =>
    refine leaks_bind.trans (Iff.trans (or_iff_left ?_) leaks_vaultBuildunlock)
    rintro ⟨_, d', -, h⟩
    exact not_leaks_pure _ h
  | buildIntentCancel => exact leaks_buildIntentCancel
  | vaultRefee => exact leaks_vaultRefee
  | vaultSend => exact iff_of_false not_leaks_prune_sendAct id
  | vaultRelease => exact leaks_buildAndSend
  | vaultOwnerspend => exact iff_of_false (not_leaks_sendAct (Proc.Path.refl d)) id
  | vaultApp => exact iff_of_false not_leaks_vaultApp id

/-- **A failed call leaves no coin locked** that was free before it, where the node did not take its
transaction, if and only if it did not fail after it took a free coin. -/
theorem failed_call_unlocks_iff (env : Env) (c : VaultCall) (d : VaultDesk) :
    (∀ e d', vaultCall env c d = (.error e, d') → d'.accepted = d.accepted →
      ∀ o, d'.purse.isLocked o → d.purse.isLocked o) ↔ ¬ c.Late env d := by
  rw [← leaks_vaultCall]
  constructor
  · rintro h ⟨e, d', hrun, haccepted, o, ho, hfree⟩
    exact hfree (h e d' hrun haccepted o ho)
  · intro h e d' hrun haccepted o ho
    by_contra hfree
    exact h ⟨e, d', hrun, haccepted, o, ho, hfree⟩

/-- A vault is to be locked, and the signer refuses. -/
def refusedLock : VaultCall :=
  .vaultLock (.ok ⟨20000, plainSpk⟩) ⟨payAnswers none, none⟩ ⟨some ⟨-4, "refused"⟩, .ok "", none⟩

/-- The coin of 60,000 that was to pay for it stays locked. -/
theorem not_failed_call_unlocks :
    (vaultCall payEnv refusedLock paidDesk).1 = .error ⟨-4, "refused"⟩ ∧
      (vaultCall payEnv refusedLock paidDesk).2.accepted = paidDesk.accepted ∧
      (vaultCall payEnv refusedLock paidDesk).2.purse.isLocked ⟨payTxid, 1⟩ ∧
      ¬ paidDesk.purse.isLocked ⟨payTxid, 1⟩ := by
  obtain ⟨hrefused, haccepted, hlocked⟩ :
      (vaultCall payEnv refusedLock paidDesk).1 = .error ⟨-4, "refused"⟩ ∧
      (vaultCall payEnv refusedLock paidDesk).2.accepted.length = 0 ∧
      (vaultCall payEnv refusedLock paidDesk).2.purse.isLocked ⟨payTxid, 1⟩ := by decide +kernel
  exact ⟨hrefused, List.length_eq_zero_iff.mp haccepted, hlocked, by decide +kernel⟩

end Yew.Daemon
