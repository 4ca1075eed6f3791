import Yew.Core.Coins
import Yew.Core.Pq

/-!
# The rows of the wallet's store

The two-step operations of the light wallet are rows that outlive the process: a carrier is sent
first, and the main transaction, a mint or a claim, spends it once it is confirmed.  A row holds
everything the carrier step fixed, so that the second step and the sweep can be made from it alone.

Columns that no modelled function reads are left out.

## Source

* `core/src/store.rs`: `MintState`, `MintState::as_str`, `MintState::in_flight`, `MintKind`,
  `MintKind::as_str`, `MintRow`, `IntentState::as_str`
-/

namespace Yew.Store

open Tx Pq

/-- `MintState`. -/
inductive MintState where
  | carrierSent
  | carrierConfirmed
  | mainSent
  | done
  | lapsed
  | sweepSent
  | swept
  | failed
deriving DecidableEq

namespace MintState

/-- `as_str`. -/
def asStr : MintState → String
  | carrierSent => "CARRIER_SENT"
  | carrierConfirmed => "CARRIER_CONFIRMED"
  | mainSent => "MAIN_SENT"
  | done => "DONE"
  | lapsed => "LAPSED"
  | sweepSent => "SWEEP_SENT"
  | swept => "SWEPT"
  | failed => "FAILED"

/-- `in_flight`: the sync still has something to do with the row. -/
def inFlight (s : MintState) : Bool := !(s = done || s = swept || s = failed)

end MintState

/-- `MintKind`. -/
inductive MintKind where
  | mint
  | claim
deriving DecidableEq

/-- `MintRow`. -/
structure MintRow where
  id : Int
  kind : MintKind
  state : MintState
  createdHeight : Nat
  cents : Nat
  lockBlocks : UInt32
  termClass : String
  refHeight : UInt32
  lockHeight : UInt32
  claimHeight : UInt32
  collateralZat : Int
  feeZat : Int
  payee : String
  attestFeeZat : Int
  attestPayee : String
  residualZat : Int
  bundle : Bytes
  bundleSeqs : String
  carrierHash160 : Arr 20
  ownerHash160 : Arr 20
  carrierTxid : Arr 32
  carrierVout : UInt32
  mainTxid : Arr 32
  sweepTxid : Arr 32
  expiryHeight : UInt32
  vaultTxid : Arr 32
  owner : Option PqKeyId
  note : String
deriving DecidableEq

namespace MintRow

/-- The outpoint of the carrier. -/
def carrier (m : MintRow) : OutPoint := ⟨m.carrierTxid, m.carrierVout⟩

end MintRow

end Yew.Store
