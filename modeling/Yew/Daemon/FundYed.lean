import Yew.Daemon.ChangeKeys
import Yew.Daemon.SendFee
import Yew.Daemon.YedSend

/-!
# Funding a Yellowback build

`fund_yed` pays the outputs of a build, less what its carrier brings, from plain coins, the smallest
first.  Like `send_yec` it raises its fee by rounds, from the flat fee of the network.

The carrier is given by its value; its confirmation is the caller's matter.

## Source

* `yewd/wallet/src/mint.rs`: `Wallet::yec_for`, `Wallet::fund_yed`
-/

namespace Yew.Daemon

open Script Tx Pq Proto Proc Yellowback Build

/-- The transaction to be funded, as every caller gives it: outputs and no inputs. -/
structure YedBase where
  outs : List Out
  lockTime : UInt32
  expiryHeight : UInt32

/-- What a build brings along: the value of its other inputs, and their outpoints with the sizes of
their scriptSigs. -/
structure YedExtra where
  inputValue : Int
  inputs : List (OutPoint × Nat)

section Model

variable (env : Env) (A : Answers)

/-- The coins `yec_for` takes from, the smallest first, and only those that pay `only`. -/
def Purse.yecCandidates (p : Purse) (reading : Nat) (only : Option Bytes) :
    Except RpcError (List Chosen) := do
  let cs ← p.eligible A reading []
  return (cs.filter fun c ↦ only.all (c.script = ·)).insertionSort fun a b ↦ a.value ≤ b.value

/-- `yec_for`. -/
def Purse.yecFor (p : Purse) (reading : Nat) (needed : Int) (only : Option Bytes) :
    Except RpcError (List Chosen) :=
  if needed ≤ 0 then .ok []
  else do
    let cand ← p.yecCandidates A reading only
    let out := gather needed 0 cand
    if worth out < needed then
      throw (buildError ("insufficient-yec: need " ++ money needed ++ ", have " ++
        money (worth out) ++ " confirmed and unlocked"))
    else return out

/-- The change of a build funded with some coins. -/
def yedChange (coins : List Chosen) (needed : Int) : Int := worth coins - max needed 0

/-- The change output of a build. -/
def yedChangeOuts (change : Int) (script : Bytes) : List Out :=
  if 0 < change then [⟨change, script⟩] else []

/-- A build funded with some coins. -/
def fundedYed (base : YedBase) (extra : YedExtra) (coins : List Chosen) (outs : List Out) :
    Transaction :=
  newV4 (coins.map (fun c ↦ newTxIn c.outpoint) ++ extra.inputs.map fun e ↦ newTxIn e.1)
    (base.outs ++ outs) base.lockTime base.expiryHeight

/-- One round of `fund_yed` at a fee: the conventional fee, the coins and the change output. -/
def yedRound (p : Purse) (base : YedBase) (extra : YedExtra) (only : Option Bytes)
    (changeScript : Bytes) (reading : Nat) (fee : Int) :
    Except RpcError (Int × List Chosen × List Out) := do
  let needed := paid base.outs + fee - extra.inputValue
  let coins ← p.yecFor A reading needed only
  let outs := yedChangeOuts (yedChange coins needed) changeScript
  let sizes := coins.map (fun c ↦ scriptSigSizeBound c.script) ++ extra.inputs.map Prod.snd
  let conventional :=
    ((fundedYed base extra coins outs).zip317ConventionalFee sizes).toOption.getD fee
  return (conventional, coins, outs)

/-- The rounds of `fund_yed`, each with its own reading of the token state. -/
def yedRounds (p : Purse) (base : YedBase) (extra : YedExtra) (only : Option Bytes)
    (changeScript : Bytes) : List Nat → Int → Except RpcError (Transaction × List Chosen)
  | [], _ => throw ⟨-4, "the fee did not converge"⟩
  | reading :: readings, fee => do
    let (conventional, coins, outs) ← yedRound A p base extra only changeScript reading fee
    if fee < conventional then yedRounds p base extra only changeScript readings conventional
    else return (fundedYed base extra coins outs, coins)

/-- The script the change of a build goes to: back to `only`, or to a new key. -/
def yedChangeScript (only : Option Bytes) (fault : Option String) : Proc Purse RpcError Bytes :=
  match only with
  | some o => pure o
  | none => newChange env fault

/-- `fund_yed`: at most six rounds from the flat fee. -/
def fundYed (base : YedBase) (extra : YedExtra) (flat : Int) (only : Option Bytes)
    (fault : Option String) : Proc Purse RpcError (Transaction × List Chosen) := do
  let changeScript ← yedChangeScript env only fault
  let p ← get
  lift (yedRounds A p base extra only changeScript (List.range 6) flat)

end Model

end Yew.Daemon
