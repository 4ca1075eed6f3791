import Yew.Core.Coins
import Yew.Util.Proc
import Mathlib.Tactic.Tauto

/-!
# The broadcast gate

The local layer of the gate: the raw bytes about to be sent are parsed, every input is classified,
and the classes, their positions and the payload must fit the path that built the transaction.
The main result reads off an accepted transaction which coins it can spend.

What an input is worth and where it comes from is the class map of the caller; the gate believes the
map and nothing else.

## Source

* `core/src/gate.rs`: `GateError`, `Path`, `Path::name`, `Path::allows`, `check`,
  `check_shield_shape`, `check_shielded`
-/

namespace Yew.Gate

open Script Tx Yellowback Coins

/-- `GateError`, of the local layer. -/
inductive GateError where
  | parse (e : TxError)
  | shielded
  | noInputs
  | unknownInput (outpoint : String)
  | forbiddenInput (outpoint className path : String)
  | payloadOnYecPath (i : Nat)
  | noTransferPayload
  | noTokenInput
  | noPayload (type : String)
  | carrierShape (path : String)
  | vaultShape (path outpoint : String)
  | shieldedShape (why : String)
  | carrierOutput
deriving DecidableEq

/-- Which builder produced the transaction. -/
inductive Path where
  | yec
  | yedTransfer
  | carrier
  | mint
  | redeem
  | release
  | claim (vault : OutPoint)
  | sweep
  | intentRelease (intent : OutPoint)
  | pqSweep (coin : OutPoint)
  | shielded
  | shield
deriving DecidableEq

namespace Path

/-- `Path::name`. -/
def name : Path → String
  | yec => "YEC"
  | yedTransfer => "YED transfer"
  | carrier => "carrier"
  | mint => "mint"
  | redeem => "redeem"
  | release => "release"
  | claim _ => "claim"
  | sweep => "sweep"
  | intentRelease _ => "intent release"
  | pqSweep _ => "post-quantum coin move"
  | shielded => "shielded"
  | shield => "shield"

/-- `Path::allows`. -/
def allows : Path → UtxoClass → Bool
  | yec, c | carrier, c => c.yecSpendable
  | yedTransfer, c => c.transferSpendable
  | mint, c => c.mintSpendable
  | redeem, c => c.redeemSpendable
  | release, c => c = .vault
  | claim _, c => c.claimSpendable
  | sweep, c => c = .carrier
  | intentRelease _, c => c.yecSpendable
  | pqSweep _, _ => false
  | shielded, _ => false
  | shield, c => c = .yec

/-- The output a path names for its first input, which is then not classified. -/
def named : Path → Option OutPoint
  | claim o | intentRelease o | pqSweep o => some o
  | _ => none

/-- The payload type a path requires. -/
def requires : Path → Option PayloadType
  | yedTransfer => some .transfer
  | mint => some .mint
  | redeem | claim _ => some .redeem
  | _ => none

end Path

/-- What the loop over the inputs counts: tokens, and the positions of carriers. -/
structure Tally where
  tokens : Nat
  carriers : List Nat
deriving DecidableEq

section Check

variable (path : Path) (classOf : OutPoint → Option UtxoClass)

/-- The loop over the inputs from position `n` on. -/
def scan : Nat → Tally → List TxIn → Except GateError Tally
  | _, t, [] => .ok t
  | n, t, i :: is =>
    match path.named, n with
    | some o, 0 =>
      if i.prevout ≠ o then .error (.vaultShape path.name o.display) else scan 1 t is
    | _, _ =>
      match classOf i.prevout with
      | none => .error (.unknownInput i.prevout.display)
      | some c =>
        if path.allows c then
          if c = .vault ∧ n ≠ 0 then .error (.vaultShape path.name i.prevout.display)
          else scan (n + 1) ⟨if c = .token then t.tokens + 1 else t.tokens,
            if c = .carrier then t.carriers ++ [n] else t.carriers⟩ is
        else .error (.forbiddenInput i.prevout.display c.asStr path.name)

/-- `no_payload`. -/
def noPayload (tx : Transaction) : Except GateError Unit :=
  match tx.vout.findIdx? fun o ↦ isOpReturn o.scriptPubkey with
  | some i => .error (.payloadOnYecPath i)
  | none => .ok ()

/-- `one_carrier_last`. -/
def oneCarrierLast (name : String) (tx : Transaction) (t : Tally) : Except GateError Unit :=
  if t.carriers.length ≠ 1 ∨ t.carriers.head? ≠ some (tx.vin.length - 1) then
    .error (.carrierShape name)
  else .ok ()

/-- The transaction carries a payload of type `t`. -/
def carries (tx : Transaction) (t : PayloadType) : Bool :=
  match findPayload tx with
  | some fp => fp.payload.payloadType = t
  | none => false

/-- The display form of the first input's prevout. -/
def firstInput (tx : Transaction) : String :=
  match tx.vin with
  | [] => ""
  | i :: _ => i.prevout.display

/-- The rules on the whole transaction, once its inputs are classified. -/
def rules (tx : Transaction) (t : Tally) : Except GateError Unit :=
  match path with
  | .yec => noPayload tx
  | .carrier => do
    let _ ← noPayload tx
    match tx.vout with
    | [] => .error .carrierOutput
    | o :: _ =>
      if o.value = carrierValue ∧ (p2shHash o.scriptPubkey).isSome then .ok ()
      else .error .carrierOutput
  | .yedTransfer =>
    if !carries tx .transfer then .error .noTransferPayload
    else if t.tokens = 0 then .error .noTokenInput
    else .ok ()
  | .mint =>
    if !carries tx .mint then .error (.noPayload "MINT") else oneCarrierLast "mint" tx t
  | .redeem =>
    if !carries tx .redeem then .error (.noPayload "REDEEM")
    else if (tx.vin.head?.bind fun i ↦ classOf i.prevout) ≠ some .vault then
      .error (.vaultShape "redeem" (firstInput tx))
    else if !t.carriers.isEmpty then .error (.carrierShape "redeem")
    else .ok ()
  | .claim _ =>
    if !carries tx .redeem then .error (.noPayload "REDEEM") else oneCarrierLast "claim" tx t
  | .release => do
    let _ ← noPayload tx
    if tx.vin.length ≠ 1 then .error (.vaultShape "release" (firstInput tx)) else .ok ()
  | .sweep | .shield | .intentRelease _ => noPayload tx
  | .pqSweep o => do
    let _ ← noPayload tx
    if tx.vin.length ≠ 1 then .error (.vaultShape (Path.pqSweep o).name o.display) else .ok ()
  | .shielded => .ok ()

/-- `check_shield_shape`. -/
def checkShieldShape (tx : Transaction) : Except GateError Unit :=
  if tx.shielded.joinsplits > 0 then .error (.shieldedShape "it carries a Sprout JoinSplit")
  else if tx.shielded.spends > 0 then .error (.shieldedShape "a shield spends no Sapling note")
  else if tx.shielded.outputs = 0 then .error (.shieldedShape "a shield makes a Sapling output")
  else if tx.vout.any fun o ↦ o.value = tokenValue then
    .error (.shieldedShape
      "a transparent output of exactly TOKEN_VALUE would look like a YED token")
  else .ok ()

/-- `check_shielded`. -/
def checkShielded (tx : Transaction) : Except GateError Transaction :=
  if !tx.vin.isEmpty then .error (.shieldedShape "it spends a transparent input")
  else if tx.shielded.joinsplits > 0 then .error (.shieldedShape "it carries a Sprout JoinSplit")
  else if tx.shielded.spends = 0 then .error (.shieldedShape "it spends no Sapling note")
  else do
    let _ ← noPayload tx
    if tx.vout.any fun o ↦ o.value = tokenValue then
      .error (.shieldedShape
        "a transparent output of exactly TOKEN_VALUE would look like a YED token")
    else .ok tx

/-- The shielded parts a transparent path allows. -/
def checkShape (tx : Transaction) : Except GateError Unit :=
  if path = .shield then checkShieldShape tx
  else if tx.shielded.any then .error .shielded
  else .ok ()

/-- `check` on the parsed transaction. -/
def checkTx (tx : Transaction) : Except GateError Transaction :=
  if path = .shielded then checkShielded tx
  else do
    let _ ← checkShape path tx
    if tx.vin.isEmpty then .error .noInputs
    else
      let t ← scan path classOf 0 ⟨0, []⟩ tx.vin
      let _ ← rules path classOf tx t
      return tx

/-- `check`: the local layer of the gate. -/
def check (C : Crypto) (raw : Bytes) : Except GateError Transaction :=
  match Transaction.parse C raw with
  | .error e => .error (.parse e)
  | .ok (tx, _) => checkTx path classOf tx

end Check

/-! ## What an accepted transaction spends

A path judges every input it does not name.  `scan` is followed once, by `scan_cons`; what the
loop guarantees about classes and positions comes from it by induction on the inputs. -/

/-- The path classifies the input at position `n`. -/
def Path.Judges (path : Path) (n : Nat) : Prop := path.named = none ∨ n ≠ 0

/-- The classes no path spends. -/
def UtxoClass.Stranded (c : UtxoClass) : Prop :=
  c = .pendingToken ∨ c = .held ∨ c = .unknownP2sh ∨ c = .foreign ∨ c = .pqOwned

/-- Which coins a transaction may spend on a path, and which payload it carries. -/
structure Admitted (path : Path) (classOf : OutPoint → Option UtxoClass) (tx : Transaction) :
    Prop where
  /-- The input a path names is the first one. -/
  named : ∀ o, path.named = some o → tx.vin.head?.map TxIn.prevout = some o
  /-- Every judged input has a class, and not one that no path spends. -/
  classed : ∀ n i, tx.vin[n]? = some i → path.Judges n →
    ∃ c, classOf i.prevout = some c ∧ ¬ UtxoClass.Stranded c
  /-- Tokens move on the YED transfer, redeem and claim paths only, under their payload. -/
  token : ∀ n i, tx.vin[n]? = some i → path.Judges n → classOf i.prevout = some .token →
    (path = .yedTransfer ∨ path = .redeem ∨ ∃ o, path = .claim o) ∧
    opReturns tx.vout = 1 ∧ ∃ o ∈ tx.vout, isOpReturn o.scriptPubkey ∧ ∃ data p,
      extractOpReturnData o.scriptPubkey = some data ∧ decode data = some p ∧
      path.requires = some p.payloadType
  /-- A vault is the first input of a redeem or the only input of a release. -/
  vault : ∀ n i, tx.vin[n]? = some i → path.Judges n → classOf i.prevout = some .vault →
    (path = .redeem ∧ n = 0) ∨ (path = .release ∧ tx.vin = [i])
  /-- A carrier is the single last input of a mint or claim, or one of a sweep of carriers. -/
  carrier : ∀ n i, tx.vin[n]? = some i → path.Judges n → classOf i.prevout = some .carrier →
    ((path = .mint ∨ ∃ o, path = .claim o) ∧ n + 1 = tx.vin.length ∧
      ∀ m j, tx.vin[m]? = some j → path.Judges m → classOf j.prevout = some .carrier → m = n) ∨
    (path = .sweep ∧ ∀ j ∈ tx.vin, classOf j.prevout = some .carrier)
  /-- A shield spends plain YEC. -/
  shield : path = .shield → ∀ i ∈ tx.vin, classOf i.prevout = some .yec
  /-- The paths without a payload carry no `OP_RETURN`. -/
  silent : path.requires = none → opReturns tx.vout = 0
  /-- A YEC payment spends YEC and the fee reserve, so no coin that carries YED. -/
  yec : path = .yec → ∀ i ∈ tx.vin,
    classOf i.prevout = some .yec ∨ classOf i.prevout = some .feeReserve

section Sound

variable {path : Path} {classOf : OutPoint → Option UtxoClass}

theorem scan_judged {n : Nat} (hj : path.Judges n) (t : Tally) (i : TxIn) (is : List TxIn) :
    scan path classOf n t (i :: is) =
      match classOf i.prevout with
      | none => .error (.unknownInput i.prevout.display)
      | some c =>
        if path.allows c then
          if c = .vault ∧ n ≠ 0 then .error (.vaultShape path.name i.prevout.display)
          else scan path classOf (n + 1) ⟨if c = .token then t.tokens + 1 else t.tokens,
            if c = .carrier then t.carriers ++ [n] else t.carriers⟩ is
        else .error (.forbiddenInput i.prevout.display c.asStr path.name) := by
  rcases hj with hj | hj
  · simp only [scan, hj]
  · obtain ⟨m, rfl⟩ := Nat.exists_eq_succ_of_ne_zero hj
    cases hp : path.named <;> simp only [scan, hp]

/-- One round of the loop: the input is the named one, or it is judged and allowed. -/
theorem scan_cons {n : Nat} {t t' : Tally} {i : TxIn} {is : List TxIn}
    (h : scan path classOf n t (i :: is) = .ok t') :
    (path.named = some i.prevout ∧ n = 0 ∧ scan path classOf (n + 1) t is = .ok t') ∨
    (path.Judges n ∧ ∃ c, classOf i.prevout = some c ∧ path.allows c = true ∧
      (c = .vault → n = 0) ∧
      scan path classOf (n + 1) ⟨if c = .token then t.tokens + 1 else t.tokens,
        if c = .carrier then t.carriers ++ [n] else t.carriers⟩ is = .ok t') := by
  by_cases hj : path.Judges n
  · refine .inr ⟨hj, ?_⟩
    rw [scan_judged hj] at h
    split at h
    · cases h
    · rename_i c hc
      split at h
      · rename_i ha
        split at h
        · cases h
        · rename_i hv
          exact ⟨c, hc, ha, fun e ↦ by simpa [e] using hv, h⟩
      · cases h
  · obtain ⟨hn, h0⟩ := not_or.mp hj
    obtain ⟨o, ho⟩ := Option.ne_none_iff_exists'.mp hn
    obtain rfl : n = 0 := not_not.mp h0
    simp only [scan, ho] at h
    split at h
    · cases h
    · rename_i hi
      exact .inl ⟨by rw [ho, not_not.mp hi], rfl, h⟩

/-- The loop lets a judged input pass only in a class the path allows, a vault only in front. -/
theorem scan_class {vin : List TxIn} {n : Nat} {t t' : Tally}
    (h : scan path classOf n t vin = .ok t') {k : Nat} {i : TxIn} (hk : vin[k]? = some i)
    (hj : path.Judges (n + k)) :
    ∃ c, classOf i.prevout = some c ∧ path.allows c = true ∧ (c = .vault → n + k = 0) := by
  induction vin generalizing n t k with
  | nil => simp at hk
  | cons j js ih =>
    rcases scan_cons h with ⟨hn, h0, hs⟩ | ⟨-, c, hc, ha, hv, hs⟩
    · cases k with
      | zero =>
        subst h0
        rcases hj with hj | hj
        · simp [hn] at hj
        · exact absurd rfl hj
      | succ k =>
        rw [show n + (k + 1) = n + 1 + k by omega] at hj ⊢
        exact ih hs (by simpa using hk) hj
    · cases k with
      | zero =>
        obtain rfl : j = i := by simpa using hk
        exact ⟨c, hc, ha, hv⟩
      | succ k =>
        rw [show n + (k + 1) = n + 1 + k by omega] at hj ⊢
        exact ih hs (by simpa using hk) hj

theorem scan_mem_carriers {vin : List TxIn} {n : Nat} {t t' : Tally}
    (h : scan path classOf n t vin = .ok t') {m : Nat} (hm : m ∈ t.carriers) :
    m ∈ t'.carriers := by
  induction vin generalizing n t with
  | nil =>
    obtain rfl : t = t' := by simpa [scan] using h
    exact hm
  | cons j js ih =>
    rcases scan_cons h with ⟨-, -, hs⟩ | ⟨-, c, -, -, -, hs⟩
    · exact ih hs hm
    · refine ih hs ?_
      dsimp only
      split
      · exact List.mem_append_left _ hm
      · exact hm

/-- Every judged carrier is in the tally. -/
theorem scan_carrier {vin : List TxIn} {n : Nat} {t t' : Tally}
    (h : scan path classOf n t vin = .ok t') {k : Nat} {i : TxIn} (hk : vin[k]? = some i)
    (hj : path.Judges (n + k)) (hc : classOf i.prevout = some .carrier) :
    n + k ∈ t'.carriers := by
  induction vin generalizing n t k with
  | nil => simp at hk
  | cons j js ih =>
    have later : ∀ {u : Tally} {k' : Nat}, k = k' + 1 → scan path classOf (n + 1) u js = .ok t' →
        n + k ∈ t'.carriers := by
      rintro u k' rfl hs
      rw [show n + (k' + 1) = n + 1 + k' by omega] at hj ⊢
      exact ih hs (by simpa using hk) hj
    rcases scan_cons h with ⟨hn, h0, hs⟩ | ⟨-, c, hc', -, -, hs⟩
    · cases k with
      | zero =>
        subst h0
        rcases hj with hj | hj
        · simp [hn] at hj
        · exact absurd rfl hj
      | succ k => exact later rfl hs
    · cases k with
      | zero =>
        obtain rfl : j = i := by simpa using hk
        obtain rfl : c = .carrier := Option.some.inj (hc'.symm.trans hc)
        exact scan_mem_carriers hs (by simp)
      | succ k => exact later rfl hs

/-- The named input comes first. -/
theorem scan_named {vin : List TxIn} {t t' : Tally} {o : OutPoint}
    (h : scan path classOf 0 t vin = .ok t') (ho : path.named = some o) (hne : vin ≠ []) :
    vin.head?.map TxIn.prevout = some o := by
  cases vin with
  | nil => exact absurd rfl hne
  | cons i is =>
    rcases scan_cons h with ⟨hn, -, -⟩ | ⟨hj, -⟩
    · simpa using hn.symm.trans ho
    · rcases hj with hj | hj
      · simp [ho] at hj
      · exact absurd rfl hj

theorem noPayload_ok {tx : Transaction} (h : noPayload tx = .ok ()) : opReturns tx.vout = 0 := by
  unfold noPayload at h
  split at h
  · cases h
  · rename_i hf
    rw [List.findIdx?_eq_none_iff] at hf
    exact opReturns_eq_zero_iff.mpr fun o ho ↦ by simpa using hf o ho

theorem oneCarrierLast_ok {name : String} {tx : Transaction} {t : Tally}
    (h : oneCarrierLast name tx t = .ok ()) : t.carriers = [tx.vin.length - 1] := by
  simp only [oneCarrierLast, Result.guard_eq_ok, and_true] at h
  obtain ⟨hl, hh⟩ := not_or.mp h
  obtain ⟨m, hm⟩ := List.length_eq_one_iff.mp (not_not.mp hl)
  rw [hm] at hh ⊢
  simpa using hh

/-- A transaction that carries a payload of a type has one `OP_RETURN`, which decodes to it. -/
theorem carries_spec {tx : Transaction} {t : PayloadType} (h : carries tx t = true) :
    opReturns tx.vout = 1 ∧ ∃ o ∈ tx.vout, isOpReturn o.scriptPubkey ∧ ∃ data p,
      extractOpReturnData o.scriptPubkey = some data ∧ decode data = some p ∧
      p.payloadType = t := by
  unfold carries at h
  split at h
  · rename_i fp hfp
    obtain ⟨hc, o, data, hget, ho, hdata, hp⟩ := findPayload_spec hfp
    exact ⟨hc, o, List.mem_of_getElem? hget, ho, data, fp.payload, hdata, hp,
      of_decide_eq_true h⟩
  · cases h

/-- A path that requires a payload has it; every other path but the shielded one has none. -/
theorem rules_payload {tx : Transaction} {t : Tally} (h : rules path classOf tx t = .ok ())
    (hp : path ≠ .shielded) :
    match path.requires with
    | some ty => carries tx ty = true
    | none => opReturns tx.vout = 0 := by
  cases path with
  | shielded => exact absurd rfl hp
  | yec | sweep | shield | intentRelease => exact noPayload_ok h
  | carrier | release | pqSweep =>
    simp only [rules, Result.bind_eq_ok] at h
    obtain ⟨_, hn, -⟩ := h
    exact noPayload_ok hn
  | yedTransfer | mint | redeem | claim =>
    simp only [rules, Result.guard_eq_ok] at h
    simpa [Path.requires] using h.1

theorem rules_carriers {tx : Transaction} {t : Tally} (h : rules path classOf tx t = .ok ()) :
    (path = .mint ∨ ∃ o, path = .claim o) → t.carriers = [tx.vin.length - 1] := by
  rintro (rfl | ⟨o, rfl⟩) <;>
  · simp only [rules, Result.guard_eq_ok] at h
    exact oneCarrierLast_ok h.2

theorem rules_release {tx : Transaction} {t : Tally}
    (h : rules .release classOf tx t = .ok ()) : tx.vin.length = 1 := by
  simp only [rules, Result.bind_eq_ok, Result.guard_eq_ok] at h
  obtain ⟨_, -, hl, -⟩ := h
  exact not_not.mp hl

/-- Which paths allow a class: read once off `Path.allows`. -/
theorem allows_cases {c : UtxoClass} (h : path.allows c = true) :
    ¬ UtxoClass.Stranded c ∧
    (c = .token → path = .yedTransfer ∨ path = .redeem ∨ ∃ o, path = .claim o) ∧
    (c = .vault → path = .redeem ∨ path = .release) ∧
    (c = .carrier → path = .mint ∨ (∃ o, path = .claim o) ∨ path = .sweep) ∧
    (path = .shield → c = .yec) ∧ (path = .sweep → c = .carrier) ∧
    (path = .yec → c = .yec ∨ c = .feeReserve) := by
  cases path <;> cases c <;> simp [Path.allows, UtxoClass.yecSpendable,
    UtxoClass.transferSpendable, UtxoClass.mintSpendable, UtxoClass.redeemSpendable,
    UtxoClass.claimSpendable, UtxoClass.Stranded] at h ⊢

/-- `check` returns the transaction it parsed. -/
theorem checkTx_self {C : Crypto} {raw : Bytes} {tx : Transaction}
    (h : check path classOf C raw = .ok tx) : checkTx path classOf tx = .ok tx := by
  unfold check at h
  split at h
  · cases h
  rename_i tx' _ _
  suffices tx = tx' by rw [this] at h ⊢; exact h
  unfold checkTx at h
  split at h
  · simp only [checkShielded, Result.bind_eq_ok, Result.guard_eq_ok] at h
    obtain ⟨-, -, -, _, -, -, h⟩ := h
    cases h; rfl
  · simp only [Result.bind_eq_ok, Result.guard_eq_ok] at h
    obtain ⟨_, -, -, t, -, _, -, h⟩ := h
    cases h; rfl

/-- What `check` went through before it accepted. -/
theorem check_ok {C : Crypto} {raw : Bytes} {tx : Transaction}
    (h : check path classOf C raw = .ok tx) :
    (path = .shielded ∧ tx.vin = [] ∧ opReturns tx.vout = 0) ∨
    (path ≠ .shielded ∧ tx.vin ≠ [] ∧ ∃ t, scan path classOf 0 ⟨0, []⟩ tx.vin = .ok t ∧
      rules path classOf tx t = .ok ()) := by
  have h : checkTx path classOf tx = .ok tx := checkTx_self h
  unfold checkTx at h
  split at h
  · rename_i hp
    simp only [checkShielded, Result.bind_eq_ok, Result.guard_eq_ok] at h
    obtain ⟨hv, -, -, _, hn, -⟩ := h
    exact .inl ⟨hp, by simpa using hv, noPayload_ok hn⟩
  · rename_i hp
    simp only [Result.bind_eq_ok, Result.guard_eq_ok] at h
    obtain ⟨_, -, hv, t, ht, _, hr, -⟩ := h
    exact .inr ⟨hp, fun he ↦ hv (by simp [he]), t, ht, hr⟩

/-- The gate accepts a transaction only with inputs its path may spend, in the places the path
gives them, and under the payload the path requires. -/
theorem check_sound (path : Path) (classOf : OutPoint → Option UtxoClass) (C : Crypto)
    (raw : Bytes) (tx : Transaction) (h : check path classOf C raw = .ok tx) :
    Admitted path classOf tx := by
  rcases check_ok h with ⟨rfl, hvin, hop⟩ | ⟨hp, hvin, t, hs, hr⟩
  · constructor <;> simp [hvin, hop, Path.named]
  have allowed : ∀ {n i}, tx.vin[n]? = some i → path.Judges n →
      ∃ c, classOf i.prevout = some c ∧ path.allows c = true ∧ (c = .vault → n = 0) := by
    intro n i hi hj
    simpa using scan_class hs hi (by simpa using hj)
  have allows : ∀ {n i c}, tx.vin[n]? = some i → path.Judges n → classOf i.prevout = some c →
      path.allows c = true ∧ (c = .vault → n = 0) := by
    intro n i c hi hj hc
    obtain ⟨c', hc', ha, hv⟩ := allowed hi hj
    obtain rfl : c' = c := Option.some.inj (hc'.symm.trans hc)
    exact ⟨ha, hv⟩
  -- on a path that names no input, every input is judged
  have every : path.named = none → ∀ i ∈ tx.vin,
      ∃ c, classOf i.prevout = some c ∧ path.allows c = true := by
    intro hn i hi
    obtain ⟨n, hn'⟩ := List.getElem?_of_mem hi
    obtain ⟨c, hc, ha, -⟩ := allowed hn' (.inl hn)
    exact ⟨c, hc, ha⟩
  have payload := rules_payload hr hp
  constructor
  case named => exact fun o ho ↦ scan_named hs ho hvin
  case classed =>
    intro n i hi hj
    obtain ⟨c, hc, ha, -⟩ := allowed hi hj
    exact ⟨c, hc, (allows_cases ha).1⟩
  case token =>
    intro n i hi hj hc
    have hpath := (allows_cases (allows hi hj hc).1).2.1 rfl
    refine ⟨hpath, ?_⟩
    obtain ⟨ty, hty⟩ : ∃ ty, path.requires = some ty := by
      rcases hpath with rfl | rfl | ⟨o, rfl⟩ <;> exact ⟨_, rfl⟩
    rw [hty] at payload ⊢
    obtain ⟨hc, o, ho, hr, data, p, hd, hp, ht⟩ := carries_spec payload
    exact ⟨hc, o, ho, hr, data, p, hd, hp, by rw [ht]⟩
  case vault =>
    intro n i hi hj hc
    obtain ⟨ha, hv⟩ := allows hi hj hc
    obtain rfl : n = 0 := hv rfl
    rcases (allows_cases ha).2.2.1 rfl with rfl | rfl
    · exact .inl ⟨rfl, rfl⟩
    · obtain ⟨j, hj⟩ := List.length_eq_one_iff.mp (rules_release hr)
      rw [hj] at hi ⊢
      obtain rfl : j = i := by simpa using hi
      exact .inr ⟨rfl, rfl⟩
  case carrier =>
    intro n i hi hj hc
    rcases (allows_cases (allows hi hj hc).1).2.2.2.1 rfl with hm | hm | rfl
    iterate 2
      have hpath : path = .mint ∨ ∃ o, path = .claim o := by tauto
      have hcs := rules_carriers hr hpath
      have last : ∀ m j, tx.vin[m]? = some j → path.Judges m →
          classOf j.prevout = some .carrier → m = tx.vin.length - 1 := by
        intro m j hm hjm hcm
        have := scan_carrier hs hm (by simpa using hjm) hcm
        rw [hcs] at this
        simpa using this
      have hlt : n < tx.vin.length := (List.getElem?_eq_some_iff.mp hi).1
      have hn := last n i hi hj hc
      refine .inl ⟨hpath, by omega, fun m j hm hjm hcm ↦ ?_⟩
      rw [last m j hm hjm hcm, hn]
    refine .inr ⟨rfl, fun j hj ↦ ?_⟩
    obtain ⟨c, hc, ha⟩ := every rfl j hj
    rw [hc, (allows_cases ha).2.2.2.2.2.1 rfl]
  case shield =>
    rintro rfl i hi
    obtain ⟨c, hc, ha⟩ := every rfl i hi
    rw [hc, (allows_cases ha).2.2.2.2.1 rfl]
  case silent =>
    intro hq
    rw [hq] at payload
    exact payload
  case yec =>
    rintro rfl i hi
    obtain ⟨c, hc, ha⟩ := every rfl i hi
    rw [hc]
    rcases (allows_cases ha).2.2.2.2.2.2 rfl with rfl | rfl
    · exact .inl rfl
    · exact .inr rfl

end Sound

/-- A transfer of one token: its payload assigns 700 cents to the second output. -/
def sampleTransfer : Transaction where
  header := txHeaderV4
  versionGroupId := saplingVersionGroupId
  vin := [⟨⟨List.Vector.replicate 32 7, 1⟩, [], sequenceFinal⟩]
  vout := [⟨0, payloadScript [0x59, 0x42, 3, 2, 1, 1, 0xbc, 2, 0, 0]⟩,
    ⟨tokenValue, p2pkhScript (List.Vector.replicate 20 9)⟩]
  lockTime := 0
  expiryHeight := 500
  shielded := .empty

theorem check_sound_sampleTransfer :
    (∃ raw, sampleTransfer.serialize = .ok raw ∧
      check .yedTransfer (fun _ ↦ some .token) Crypto.blank raw = .ok sampleTransfer) ∧
    Admitted .yedTransfer (fun _ ↦ some .token) sampleTransfer := by
  obtain ⟨raw, hraw⟩ : ∃ raw, sampleTransfer.serialize = .ok raw := ⟨_, rfl⟩
  have hok : check .yedTransfer (fun _ ↦ some .token) Crypto.blank raw = .ok sampleTransfer := by
    cases hraw
    decide +kernel
  exact ⟨⟨raw, hraw, hok⟩, check_sound _ _ _ raw _ hok⟩

end Yew.Gate
