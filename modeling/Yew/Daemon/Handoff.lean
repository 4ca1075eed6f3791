import Yew.Daemon.ActSign
import Yew.Daemon.Carriers
import Yew.Daemon.Reserve
import Yew.Proto.ActCodec
import Yew.Util.Record

/-!
# Builds that are handed over

A build of this wallet travels to others for their signatures and comes back, and the wallet signs its
own inputs then.  By that time the transaction may be another one: an input is signed only if this
wallet chose it for these very outputs, or the caller allows it.

What the wallet remembers of a build is the digest of its outputs and the inputs it chose.

## Source

* `yewd/wallet/src/vaultrpc.rs`: `Handoff`, `handoff_options`, `same_handoff_outputs`,
  `Wallet::handoff_send`
* `yewd/wallet/src/build.rs`: `Wallet::prevouts_of`, `Wallet::sign_inputs_hex`, `Wallet::build_of`
-/

namespace Yew.Daemon

open Tx Vault SetAct Proto

/-! ## The same outputs -/

/-- One output of `same_handoff_outputs`: an act is compared without its signatures. -/
def sameOutput (a b : TxOut) : Bool :=
  a.value = b.value &&
    if isActOutput a.scriptPubkey || isActOutput b.scriptPubkey then
      match decode a.scriptPubkey, decode b.scriptPubkey with
      | .ok x, .ok y => encodePayload x.body = encodePayload y.body
      | _, _ => false
    else a.scriptPubkey = b.scriptPubkey

/-- `same_handoff_outputs`. -/
def sameHandoffOutputs (memo tx : Transaction) : Bool :=
  memo.vout.length = tx.vout.length && (memo.vout.zip tx.vout).all fun x ↦ sameOutput x.1 x.2

/-- Two outputs pay the same, up to the signatures of an act. -/
def SameOutput (a b : TxOut) : Prop :=
  a.value = b.value ∧ (a.scriptPubkey = b.scriptPubkey ∨
    ∃ x y, decode a.scriptPubkey = .ok x ∧ decode b.scriptPubkey = .ok y ∧ x.body = y.body)

theorem encodePayload_injective : Function.Injective encodePayload := by
  intro b b' h
  have hdecode := decodePayload_encodePayload b
  rw [h, decodePayload_encodePayload] at hdecode
  exact (Except.ok.inj hdecode).symm

theorem SameOutput.of_sameOutput {a b : TxOut} (h : sameOutput a b) : SameOutput a b := by
  rw [sameOutput, Bool.and_eq_true, decide_eq_true_eq] at h
  obtain ⟨hvalue, h⟩ := h
  refine ⟨hvalue, ?_⟩
  split at h
  · split at h
    · rename_i x y hx hy
      exact .inr ⟨x, y, hx, hy, encodePayload_injective (of_decide_eq_true h)⟩
    · cases h
  · exact .inl (of_decide_eq_true h)

theorem forall₂_of_sameHandoffOutputs {memo tx : Transaction} (h : sameHandoffOutputs memo tx) :
    List.Forall₂ SameOutput memo.vout tx.vout := by
  rw [sameHandoffOutputs, Bool.and_eq_true, decide_eq_true_eq, List.all_eq_true] at h
  refine List.forall₂_iff_zip.mpr ⟨h.1, fun {a b} hab ↦ ?_⟩
  exact .of_sameOutput (h.2 (a, b) hab)

/-! ## Options -/

/-- The last value an object has under a key. -/
def member (o : Json) (k : String) : Option Json :=
  match o with
  | .obj ms => (Json.lookup ms k).getLast?
  | _ => none

/-- `outpoint_param`. -/
def outpointOf (v : Json) (name : String) : Except RpcError OutPoint :=
  let bad : RpcError := ⟨-8, name ++ " must be \"txid:n\" or \x7b\"txid\", \"vout\"\x7d"⟩
  match v with
  | .str s => outpointParam s name
  | .obj _ =>
    match (member v "txid").bind Json.str?, (member v "vout").bind (Json.uint? (2 ^ 64)) with
    | some t, some n =>
      if Text.byteLen t.toList ≠ 64 then .error bad
      else match Keys.txidFromHex t with
        | .ok txid => .ok ⟨txid, UInt32.ofNat n⟩
        | .error _ => .error bad
    | _, _ => .error bad
  | _ => .error bad

/-- `Handoff`. -/
structure Handoff where
  dryrun : Bool
  allowInputs : List OutPoint
  allowOutflow : Option Int64

/-- The outpoints of `allowinputs`. -/
def allowedInputs : List Json → Except RpcError (List OutPoint)
  | [] => return []
  | v :: vs => do
    let op ← outpointOf v "allowinputs"
    let ops ← allowedInputs vs
    return op :: ops

/-- `handoff_options`, with `amount_param` for the amount. -/
def handoffOptions (amountParam : Json → Except RpcError Int64) (o : Option Json) :
    Except RpcError Handoff :=
  match o with
  | none | some .null => return ⟨false, [], none⟩
  | some (.obj ms) => do
    let dryrun ← match member (.obj ms) "dryrun" with
      | none | some .null => pure false
      | some (.bool b) => pure b
      | some _ => .error ⟨-8, "dryrun must be a boolean"⟩
    let allowInputs ← match member (.obj ms) "allowinputs" with
      | none | some .null => pure []
      | some (.arr vs) => allowedInputs vs
      | some _ => .error ⟨-8, "allowinputs must be an array of outpoints"⟩
    let allowOutflow ← match member (.obj ms) "allowoutflow" with
      | none | some .null => pure none
      | some f => (amountParam f).map some
    return ⟨dryrun, allowInputs, allowOutflow⟩
  | some _ => .error ⟨-8, "options must be an object"⟩

/-! ## The inputs -/

/-- The remembered builds, under the outpoints of their templates. -/
abbrev Builds := OrdMap String Bytes

/-- `build_of`. -/
def buildOf (builds : Builds) (templ : OutPoint) : Option Transaction :=
  (builds.get? templ.display).bind fun b ↦ (Transaction.parseAt 64 b).toOption

/-- `prevouts_of`. -/
def prevoutsOf (A : Answers) : List TxIn → Except RpcError (List (Option NodeCoin))
  | [] => return []
  | i :: is => do
    let c ← nodeCoin A i.prevout
    let cs ← prevoutsOf A is
    return c :: cs

/-- The key the wallet could sign a coin with; a template is not the wallet's. -/
def ownKey (w : Wallet) (c : NodeCoin) : Option KeyRef :=
  if (parseVault c.script).isSome || (parseIntent c.script).isSome then none
  else w.keyOfScript c.script

/-- A row of the report: an input, its outpoint and amount. -/
structure HandoffRow where
  vin : Nat
  outpoint : String
  amount : Int64
deriving DecidableEq

/-- What the loop over the inputs finds. -/
structure HandoffScan where
  sign : List HandoffRow
  foreign : List HandoffRow
  keys : List KeyRef
  signedIn : Int64
  refuse : Option String

section Send

variable (C : Crypto) (network : Keys.Network) (w : Wallet) (A : Answers)
variable (carrierBundle : String → Option String) (chosen : OutPoint → Bool) (opt : Handoff)

/-- The loop of `handoff_send` over the inputs from index `i` on. -/
def scanInputs : Nat → List (TxIn × Option NodeCoin) → HandoffScan
  | _, [] => ⟨[], [], [], 0, none⟩
  | i, (vin, p) :: rest =>
    let s := scanInputs (i + 1) rest
    match p.bind fun c ↦ (ownKey w c).map fun k ↦ (c, k) with
    | none => { s with keys := .none :: s.keys }
    | some (c, k) =>
      let row : HandoffRow := ⟨i, vin.prevout.display, c.value⟩
      let s := if chosen vin.prevout then s else { s with foreign := row :: s.foreign }
      if chosen vin.prevout || vin.prevout ∈ opt.allowInputs then
        { s with sign := row :: s.sign, keys := k :: s.keys, signedIn := c.value + s.signedIn }
      else { s with
        keys := .none :: s.keys
        refuse := some ("vault-send-foreign-input: input " ++ Text.decimal i ++ " (" ++
          vin.prevout.display ++ ", " ++ money c.value.toInt ++
          ") is this wallet's coin but was not chosen by this wallet for these outputs; " ++
          "nothing was signed") }

/-! ## The outputs -/

/-- What the loop over the outputs finds: the indices of the wallet's own, a bond among them, and the
first act that decodes. -/
structure OutputScan where
  own : List Nat
  extraOwn : List OwnOutput
  act : Option Act

/-- The bond of a join of a member key that the wallet holds is its own. -/
def scanBond (outputs : Nat) (a : Act) (s : OutputScan) : OutputScan :=
  match a.body with
  | .join _ memberKey bondLocktime bondVout =>
    match keyOfPubkey C w.book memberKey with
    | some k =>
      if bondVout.toNat < outputs ∧ bondVout.toNat ∉ s.own then
        { s with
          own := s.own ++ [bondVout.toNat]
          extraOwn := s.extraOwn ++ [⟨bondVout.toUInt32, k, some bondLocktime⟩] }
      else s
    | none => s
  | _ => s

/-- One output. -/
def scanOutput (outputs : Nat) (s : OutputScan) (x : TxOut × Nat) : OutputScan :=
  let s := if (w.keyOfScript x.1.scriptPubkey).isSome ∧ x.2 ∉ s.own
    then { s with own := s.own ++ [x.2] } else s
  if s.act.isSome || !isActOutput x.1.scriptPubkey then s
  else match decode x.1.scriptPubkey with
    | .error _ => s
    | .ok a => scanBond C w outputs a { s with act := some a }

/-- The loop of `handoff_send` over the outputs. -/
def scanOutputs (tx : Transaction) : OutputScan :=
  tx.vout.zipIdx.foldl (scanOutput C w tx.vout.length) ⟨[], [], none⟩

/-- What the outputs at some indices pay. -/
def valueAt (tx : Transaction) (own : List Nat) : Int64 :=
  sumZat (own.map fun n ↦ (tx.vout[n]?.map TxOut.value).getD 0)

/-! ## The request -/

/-- `sign_inputs_hex` without a Sapling part: what the signer is asked for. -/
def signRequest (tx : Transaction) (prevouts : List NodeCoin) (keys : List KeyRef)
    (extraOwn : List OwnOutput) (path : GatePath) (cap : Int64) (branch : UInt32) :
    Except RpcError SignRequest := do
  let inputs : List SignInput := (tx.vin.zip (prevouts.zip keys)).map fun x ↦
    ⟨⟨x.1.prevout.display, Hex.encode x.2.1.script, x.2.1.value⟩, x.2.2,
      match x.2.2 with
      | .carrier .. => carrierBundle x.1.prevout.display
      | _ => none⟩
  let paid : List OwnOutput := tx.vout.zipIdx.filterMap fun x ↦
    (w.keyOfScript x.1.scriptPubkey).map fun k ↦ ⟨UInt32.ofNat x.2, k, none⟩
  let ownOutputs := extraOwn.foldl
    (fun os e ↦ if e.n ∈ os.map OwnOutput.n then os else os ++ [e]) paid
  let signed := (inputs.zipIdx.filter fun x ↦ x.1.key ≠ .none).map Prod.snd
  let bytes ← tx.serialize.mapError fun e ↦ (⟨-32603, e.text⟩ : RpcError)
  return {
    tx := Hex.encode bytes
    branchId := branch
    inputs
    ownOutputs
    gatePath := path
    outflowCapZat := cap
    preview := compute C network tx (inputs.map SignInput.prevout) signed
      (ownOutputs.map fun e ↦ e.n.toNat)
    sapling := none }

/-- The answer of a dry run. -/
structure HandoffReport where
  act : Option Act
  sign : List HandoffRow
  foreign : List HandoffRow
  mine : List Bool
  fee : Option Int64
  outflow : Int64
  wouldRefuse : Option String

/-- How `handoff_send` ends, up to the signer: a report, or a request. -/
inductive HandoffEnd where
  | report (r : HandoffReport)
  | ask (r : SignRequest)

/-- Every prevout, where the node knows them all. -/
def knownCoins : Nat → List (Option NodeCoin) → Except RpcError (List NodeCoin)
  | _, [] => return []
  | i, p :: ps =>
    match p with
    | none => .error ⟨-25, "Missing inputs: input " ++ Text.decimal i ++ " is spent or unknown"⟩
    | some c => do
      let cs ← knownCoins (i + 1) ps
      return c :: cs

/-- The inputs this wallet chose for these outputs: those of the remembered build, if it has the
same. -/
def chosenFor (memo : Option Transaction) (tx : Transaction) (op : OutPoint) : Bool :=
  memo.any fun m ↦ sameHandoffOutputs m tx && op ∈ m.vin.map TxIn.prevout

/-- The refusal of a transaction that pays more than the cap and the caller allow. -/
def refuseOutflow (cap outflow : Int64) : Option String :=
  if cap < outflow ∧ opt.allowOutflow.all (· < outflow) then
    some ("vault-send-outflow: this wallet would pay " ++ money outflow.toInt ++
      " beyond its own outputs (the fee cap is " ++ money cap.toInt ++ "); nothing was signed")
  else none

/-- `handoff_send` up to the signer, with the fee cap that `max_tx_fee` gives. -/
def handoffSend (builds : Builds) (cap : Int64) (tx : Transaction) (buildKey : OutPoint) :
    Except RpcError HandoffEnd := do
  let prevouts ← prevoutsOf A tx.vin
  let s := scanInputs w (chosenFor (buildOf builds buildKey) tx) opt 0 (tx.vin.zip prevouts)
  let o := scanOutputs C w tx
  let outflow := s.signedIn - valueAt tx o.own
  let refuse := s.refuse.or (refuseOutflow opt cap outflow)
  if opt.dryrun then
    let fee := if prevouts.all Option.isSome then
      some (sumZat (prevouts.filterMap fun p ↦ p.map NodeCoin.value) -
        sumZat (tx.vout.map TxOut.value)) else none
    return .report ⟨o.act, s.sign, s.foreign,
      (List.range tx.vout.length).map fun n ↦ n ∈ o.own, fee, outflow, refuse⟩
  else match refuse with
    | some why => .error ⟨-4, why⟩
    | none => do
      let coins ← knownCoins 0 prevouts
      let next ← nextBlock A
      let r ← signRequest C network w carrierBundle tx coins s.keys o.extraOwn .vault
        (match opt.allowOutflow with | some a => max a cap | none => cap) next.branch
      return .ask r

end Send

/-! ## What is agreed -/

/-- An input is agreed on: it belongs to the build that this wallet remembers and that pays the same,
or the caller allows it. -/
def Agreed (builds : Builds) (buildKey : OutPoint) (tx : Transaction) (opt : Handoff)
    (op : OutPoint) : Prop :=
  (∃ memo, buildOf builds buildKey = some memo ∧ List.Forall₂ SameOutput memo.vout tx.vout ∧
    op ∈ memo.vin.map TxIn.prevout) ∨ op ∈ opt.allowInputs

section Agreed

variable {C : Crypto} {network : Keys.Network} {w : Wallet} {A : Answers}
variable {carrierBundle : String → Option String} {opt : Handoff}

theorem Agreed.of_chosenFor {builds : Builds} {buildKey op : OutPoint} {tx : Transaction}
    (h : chosenFor (buildOf builds buildKey) tx op ∨ op ∈ opt.allowInputs) :
    Agreed builds buildKey tx opt op := by
  rcases h with h | h
  · rw [chosenFor, Option.any_eq_true] at h
    obtain ⟨memo, hmemo, h⟩ := h
    rw [Bool.and_eq_true, decide_eq_true_eq] at h
    exact .inl ⟨memo, hmemo, forall₂_of_sameHandoffOutputs h.1, h.2⟩
  · exact .inr h

theorem prevoutsOf_eq_ok {vin : List TxIn} {prevouts : List (Option NodeCoin)}
    (h : prevoutsOf A vin = .ok prevouts) :
    List.Forall₂ (fun i p ↦ nodeCoin A i.prevout = .ok p) vin prevouts := by
  induction vin generalizing prevouts with
  | nil =>
    cases h
    exact .nil
  | cons i is ih =>
    obtain ⟨c, hc, h⟩ := Result.bind_eq_ok.mp h
    obtain ⟨cs, hcs, h⟩ := Result.bind_eq_ok.mp h
    cases h
    exact .cons hc (ih hcs)

theorem knownCoins_eq_ok {i : Nat} {prevouts : List (Option NodeCoin)} {coins : List NodeCoin}
    (h : knownCoins i prevouts = .ok coins) : prevouts = coins.map some := by
  induction prevouts generalizing i coins with
  | nil =>
    cases h
    rfl
  | cons p ps ih =>
    cases p with
    | none => cases h
    | some c =>
      obtain ⟨cs, hcs, h⟩ := Result.bind_eq_ok.mp h
      cases h
      rw [ih hcs, List.map_cons]

/-- A key is given only to an input that was chosen or is allowed. -/
theorem keys_scanInputs (chosen : OutPoint → Bool) (i : Nat) (ins : List (TxIn × Option NodeCoin)) :
    List.Forall₂ (fun x k ↦ k ≠ KeyRef.none →
      (chosen x.1.prevout ∨ x.1.prevout ∈ opt.allowInputs) ∧ ∃ c, x.2 = some c ∧ ownKey w c = some k)
      ins (scanInputs w chosen opt i ins).keys := by
  induction ins generalizing i with
  | nil => exact .nil
  | cons x rest ih =>
    obtain ⟨vin, p⟩ := x
    rw [scanInputs]
    split
    · exact .cons (fun h ↦ (h rfl).elim) (ih _)
    · rename_i c k hown
      obtain ⟨c', rfl, hown⟩ := Option.bind_eq_some_iff.mp hown
      obtain ⟨k', hk', hck⟩ := Option.map_eq_some_iff.mp hown
      cases hck
      dsimp only
      split
      · rename_i hagreed
        rw [Bool.or_eq_true, decide_eq_true_eq] at hagreed
        refine .cons (fun _ ↦ ⟨hagreed, _, rfl, hk'⟩) ?_
        split <;> exact ih _
      · refine .cons (fun h ↦ (h rfl).elim) ?_
        split <;> exact ih _

/-- Where nothing is refused, every input that the wallet could sign was chosen or is allowed. -/
theorem agreed_of_scanInputs {chosen : OutPoint → Bool} {i : Nat}
    {ins : List (TxIn × Option NodeCoin)} (h : (scanInputs w chosen opt i ins).refuse = none) :
    ∀ x ∈ ins, ∀ c ∈ x.2, (ownKey w c).isSome →
      chosen x.1.prevout ∨ x.1.prevout ∈ opt.allowInputs := by
  induction ins generalizing i with
  | nil => exact nofun
  | cons x rest ih =>
    obtain ⟨vin, p⟩ := x
    rw [scanInputs] at h
    intro x hx c hc hown
    split at h
    · rename_i hnone
      rcases List.mem_cons.mp hx with rfl | hx
      · obtain ⟨k, hk⟩ := Option.isSome_iff_exists.mp hown
        obtain rfl : p = some c := hc
        rw [Option.bind_some, hk] at hnone
        cases hnone
      · exact ih h x hx c hc hown
    · dsimp only at h
      split at h
      · rename_i hagreed
        rw [Bool.or_eq_true, decide_eq_true_eq] at hagreed
        rcases List.mem_cons.mp hx with rfl | hx
        · exact hagreed
        · have hrest : (scanInputs w chosen opt (i + 1) rest).refuse = none := by
            split at h <;> exact h
          exact ih hrest x hx c hc hown
      · cases h

theorem signRequest_eq_ok {tx : Transaction} {prevouts : List NodeCoin} {keys : List KeyRef}
    {extraOwn : List OwnOutput} {path : GatePath} {cap : Int64} {branch : UInt32} {r : SignRequest}
    (h : signRequest C network w carrierBundle tx prevouts keys extraOwn path cap branch = .ok r) :
    (∃ bytes, tx.serialize = .ok bytes ∧ r.tx = Hex.encode bytes) ∧ r.outflowCapZat = cap ∧
      r.inputs.map (fun i ↦ (i.prevout.outpoint, i.key)) =
        (tx.vin.zip (prevouts.zip keys)).map fun x ↦ (x.1.prevout.display, x.2.2) := by
  obtain ⟨bytes, hbytes, h⟩ := Result.bind_eq_ok.mp h
  cases h
  refine ⟨⟨bytes, Result.mapError_eq_ok.mp hbytes, rfl⟩, rfl, ?_⟩
  rw [List.map_map]
  rfl

theorem toInt_max (a b : Int64) : (max a b).toInt = max a.toInt b.toInt := by
  show (if a ≤ b then b else a).toInt = _
  split
  · rename_i h
    exact (max_eq_right (Int64.le_iff_toInt_le.mp h)).symm
  · rename_i h
    rw [Int64.le_iff_toInt_le, not_le] at h
    exact (max_eq_left h.le).symm

theorem exists_mem_zip {α β : Type} {as : List α} {bs : List β} (hlen : as.length = bs.length)
    {a : α} (ha : a ∈ as) : ∃ b, (a, b) ∈ as.zip bs := by
  rw [← List.map_fst_zip hlen.le] at ha
  obtain ⟨⟨a', b⟩, hmem, rfl⟩ := List.mem_map.mp ha
  exact ⟨b, hmem⟩

/-- Inputs, coins and keys side by side. -/
theorem forall₂_zip_keys {P : TxIn → KeyRef → Prop} {vin : List TxIn} {coins : List NodeCoin}
    {keys : List KeyRef} (hlen : vin.length = coins.length)
    (h : List.Forall₂ (fun x k ↦ P x.1 k) (vin.zip (coins.map some)) keys) :
    List.Forall₂ (fun v x ↦ x.1 = v ∧ P v x.2.2) vin (vin.zip (coins.zip keys)) := by
  induction vin generalizing coins keys with
  | nil => exact .nil
  | cons v vin ih =>
    cases coins with
    | nil => cases hlen
    | cons c coins =>
      cases h with
      | cons hk hrest => exact .cons ⟨rfl, hk⟩ (ih (Nat.succ.inj hlen) hrest)

/-- What a call found that asks the signer. -/
theorem handoffSend_eq_ask {builds : Builds} {cap : Int64} {tx : Transaction} {buildKey : OutPoint}
    {r : SignRequest} (h : handoffSend C network w A carrierBundle opt builds cap tx buildKey =
      .ok (.ask r)) :
    ∃ (coins : List NodeCoin) (extraOwn : List OwnOutput) (branch : UInt32),
      let s := scanInputs w (chosenFor (buildOf builds buildKey) tx) opt 0
        (tx.vin.zip (coins.map some))
      opt.dryrun = false ∧ prevoutsOf A tx.vin = .ok (coins.map some) ∧ s.refuse = none ∧
      signRequest C network w carrierBundle tx coins s.keys extraOwn .vault
        (match opt.allowOutflow with | some a => max a cap | none => cap) branch = .ok r := by
  obtain ⟨prevouts, hprevouts, h⟩ := Result.bind_eq_ok.mp h
  dsimp only at h
  split at h
  · cases h
  rename_i hdry
  split at h
  · cases h
  rename_i hrefuse
  obtain ⟨coins, hcoins, h⟩ := Result.bind_eq_ok.mp h
  obtain ⟨next, -, h⟩ := Result.bind_eq_ok.mp h
  obtain ⟨r', hr, h⟩ := Result.bind_eq_ok.mp h
  cases h
  obtain rfl := knownCoins_eq_ok hcoins
  exact ⟨coins, _, next.branch, by simpa using hdry, hprevouts, (Option.or_eq_none_iff.mp hrefuse).1,
    hr⟩

/-- **Builds that are handed over.**  A call that asks the signer for anything asks for this very
transaction; every input with a key was agreed on, and so was every other input that the wallet could
sign; and the cap on the outflow is at most the larger of the fee cap and what the caller allows.  No
other call asks for a signature. -/
theorem handoff_signs_agreed (C : Crypto) (network : Keys.Network) (w : Wallet) (A : Answers)
    (carrierBundle : String → Option String) (opt : Handoff) (builds : Builds) (cap : Int64)
    (tx : Transaction) (buildKey : OutPoint) {r : SignRequest}
    (h : handoffSend C network w A carrierBundle opt builds cap tx buildKey = .ok (.ask r)) :
    opt.dryrun = false ∧ (∃ bytes, tx.serialize = .ok bytes ∧ r.tx = Hex.encode bytes) ∧
    List.Forall₂ (fun vin i ↦ i.prevout.outpoint = vin.prevout.display ∧
      (i.key ≠ .none → Agreed builds buildKey tx opt vin.prevout)) tx.vin r.inputs ∧
    (∀ vin ∈ tx.vin, ∀ c, nodeCoin A vin.prevout = .ok (some c) → (ownKey w c).isSome →
      Agreed builds buildKey tx opt vin.prevout) ∧
    r.outflowCapZat.toInt ≤ max cap.toInt (opt.allowOutflow.getD cap).toInt := by
  obtain ⟨coins, extraOwn, branch, hdry, hprevouts, hrefuse, hr⟩ := handoffSend_eq_ask h
  obtain ⟨htx, hcap, hinputs⟩ := signRequest_eq_ok hr
  have hnode := prevoutsOf_eq_ok hprevouts
  have hlen : tx.vin.length = coins.length := by
    rw [hnode.length_eq, List.length_map]
  refine ⟨hdry, htx, ?_, fun vin hvin c hc hown ↦ ?_, ?_⟩
  · have hkeys : List.Forall₂ (fun x k ↦ k ≠ KeyRef.none → Agreed builds buildKey tx opt x.1.prevout)
        (tx.vin.zip (coins.map some)) _ :=
      (@keys_scanInputs w opt (chosenFor (buildOf builds buildKey) tx) 0 _).imp
        fun x k hk hne ↦ .of_chosenFor (hk hne).1
    have hzip := forall₂_zip_keys
      (P := fun vin k ↦ k ≠ .none → Agreed builds buildKey tx opt vin.prevout) hlen hkeys
    have hmap : List.Forall₂ (fun vin (x : String × KeyRef) ↦ x.1 = vin.prevout.display ∧
        (x.2 ≠ .none → Agreed builds buildKey tx opt vin.prevout)) tx.vin
        (r.inputs.map fun i ↦ (i.prevout.outpoint, i.key)) := by
      rw [hinputs, List.forall₂_map_right_iff]
      apply hzip.imp
      rintro vin x ⟨rfl, hx⟩
      exact ⟨rfl, hx⟩
    exact List.forall₂_map_right_iff.mp hmap
  · obtain ⟨p, hmem⟩ := exists_mem_zip (hlen.trans (List.length_map some).symm) hvin
    obtain rfl := Except.ok.inj (hc.symm.trans (List.forall₂_zip hnode hmem))
    exact .of_chosenFor (agreed_of_scanInputs hrefuse _ hmem c rfl hown)
  · rw [hcap]
    cases opt.allowOutflow with
    | none => exact le_max_left _ _
    | some a => exact ((toInt_max a cap).trans (max_comm _ _)).le

end Agreed

/-! ### A build that comes back -/

/-- A wallet with one key. -/
def soleWallet : Wallet := { newWallet with book := soleBook }

/-- Two coins at its key, a coin of somebody else, and a payment of 129,000 back to the wallet. -/
def backTx (inputs : List OutPoint) : Transaction :=
  ⟨txHeaderV4, saplingVersionGroupId, inputs.map fun op ↦ ⟨op, [], sequenceFinal⟩,
    [⟨129000, payScript⟩], 0, 0, .empty⟩

@[inherit_doc backTx]
def otherCoin : OutPoint := ⟨List.Vector.replicate 32 9, 0⟩

/-- The node shows the coins of `payTxid` at the wallet's key, and others elsewhere. -/
def backAnswers : Answers := { payAnswers none with
  txout := fun o ↦ if o.txid = payTxid then (payAnswers none).txout o
    else .ok (some ⟨some 5000, .ok [0x51], 1, "paid", false⟩) }

/-- The wallet remembers a build with its two coins. -/
def backBuilds : Builds :=
  OrdMap.empty.insert (OutPoint.display ⟨payTxid, 0⟩)
    (((backTx [⟨payTxid, 0⟩, ⟨payTxid, 1⟩]).serialize.toOption).getD [])

/-- It comes back with the coin of somebody else beside them, and the signer is asked for two
signatures under the fee cap.  When it comes back with a third coin of the wallet, the signer is
asked for none. -/
theorem handoff_signs_back :
    (∃ r, handoffSend soleCrypto .regtest soleWallet backAnswers (fun _ ↦ none) ⟨false, [], none⟩
        backBuilds 10000 (backTx [⟨payTxid, 0⟩, ⟨payTxid, 1⟩, otherCoin]) ⟨payTxid, 0⟩ =
          .ok (.ask r) ∧
      r.inputs.map SignInput.key = [.bip32 0 0, .bip32 0 0, .none] ∧
      r.outflowCapZat.toInt ≤ 10000) ∧
    ∀ r, handoffSend soleCrypto .regtest soleWallet backAnswers (fun _ ↦ none) ⟨false, [], none⟩
      backBuilds 10000 (backTx [⟨payTxid, 0⟩, ⟨payTxid, 1⟩, ⟨payTxid, 2⟩]) ⟨payTxid, 0⟩ ≠
        .ok (.ask r) := by
  constructor
  · have hrun : ((handoffSend soleCrypto .regtest soleWallet backAnswers (fun _ ↦ none)
        ⟨false, [], none⟩ backBuilds 10000 (backTx [⟨payTxid, 0⟩, ⟨payTxid, 1⟩, otherCoin])
        ⟨payTxid, 0⟩).toOption.bind fun
          | .ask r => some (r.inputs.map SignInput.key)
          | .report _ => none) = some [.bip32 0 0, .bip32 0 0, .none] := by
      decide +kernel
    generalize hx : handoffSend soleCrypto .regtest soleWallet backAnswers (fun _ ↦ none)
      ⟨false, [], none⟩ backBuilds 10000 (backTx [⟨payTxid, 0⟩, ⟨payTxid, 1⟩, otherCoin])
      ⟨payTxid, 0⟩ = x at hrun
    match x, hrun with
    | .ok (.ask r), hrun =>
      obtain ⟨-, -, -, -, hcap⟩ := handoff_signs_agreed _ _ _ _ _ _ _ _ _ _ hx
      exact ⟨r, rfl, Option.some.inj hrun, hcap⟩
  · intro r h
    obtain ⟨-, -, -, hagreed, -⟩ := handoff_signs_agreed _ _ _ _ _ _ _ _ _ _ h
    have hbuild : (buildOf backBuilds ⟨payTxid, 0⟩).map (fun memo ↦ memo.vin.map TxIn.prevout) =
        some [⟨payTxid, 0⟩, ⟨payTxid, 1⟩] := by decide +kernel
    have hown : ∃ c, nodeCoin backAnswers ⟨payTxid, 2⟩ = .ok (some c) ∧
        (ownKey soleWallet c).isSome := ⟨_, rfl, by decide +kernel⟩
    obtain ⟨c, hcoin, hkey⟩ := hown
    rcases hagreed ⟨⟨payTxid, 2⟩, [], sequenceFinal⟩ (by decide) c hcoin hkey with
      ⟨memo, hmemo, -, hmem⟩ | hallowed
    · rw [hmemo] at hbuild
      have hvin : memo.vin.map TxIn.prevout = _ := Option.some.inj hbuild
      rw [hvin] at hmem
      exact absurd hmem (by decide)
    · exact absurd hallowed (by decide)

end Yew.Daemon
