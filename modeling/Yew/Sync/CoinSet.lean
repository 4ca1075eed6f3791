import Yew.Build.FeeReserve
import Yew.Build.Mint
import Yew.Core.Payload
import Yew.Sync.GapScan
import Yew.Sync.Locks

/-!
# The coins of a sync

A YED token is an ordinary output of ten thousand zatoshi: what makes it a token is that the server
lists it as one.  The sync puts every output in a class by what is listed, and the builders select by
class.  So a coin that a YEC payment takes is never a token, and a token that a transfer takes has the
cents that were listed.

The server's lists are arguments.  Where two lists name one outpoint the source's order of insertion
decides, and so does the model's.

## Source

* `core/src/coins.rs`: `Utxo`, `classify`, `classify_pq_listed`, `pre_lock_scripts`
* `core/src/store.rs`: `MintState::holds_carrier`, `VaultRow`, `VaultRow::is_open`
* `core/src/wallet.rs`: `Wallet::key_for_hash`, `Wallet::is_own_holder_script`
* `core/src/build/redeem.rs`: `vault_script_of`
* `core/src/sync.rs`: `falcon_token_utxos`
-/

namespace Yew.Sync

open Script Tx Pq Keys Store Build Coins Addresses Yellowback Vault

/-! ## Classes -/

/-- `classify`: an output that the server lists for an own address. -/
def classify (own : List (Arr 20)) (tokens : OrdMap OutPoint Nat) (op : OutPoint) (script : Bytes)
    (value : Int) : UtxoClass × Nat :=
  if (p2shHash script).isSome then (.unknownP2sh, 0)
  else match p2pkhHash script with
    | none => (.foreign, 0)
    | some h =>
      if h ∉ own then (.foreign, 0)
      else if value = tokenValue.toInt then
        match tokens.get? op with
        | some cents => (.token, cents)
        | none => (.held, 0)
      else if (tokens.get? op).isSome then (.held, 0)
      else (.yec, 0)

/-- `classify_pq_listed`: an output that the server lists for an own post-quantum address. -/
def classifyPqListed (own : List PqKeyId) (tokens : OrdMap OutPoint Nat) (op : OutPoint)
    (script : Bytes) (value : Int) : UtxoClass × Nat :=
  match pqpkhOf script with
  | none => (.foreign, 0)
  | some id =>
    if id ∉ own then (.foreign, 0)
    else if (tokens.get? op).isSome ∨ value = tokenValue.toInt then (.held, 0)
    else (.pqOwned, 0)

/-- `pre_lock_scripts`: the outputs that the payload of an own transaction makes own YED. -/
def preLockScripts (tx : Transaction) (isOwnScript : Bytes → Bool) : List (Nat × Nat) :=
  let own (n : Nat) : Bool := (tx.vout[n]?).any fun o ↦ isOwnScript o.scriptPubkey
  match findPayload tx with
  | none => []
  | some found =>
    match found.payload with
    | .mint _ cents _ _ _ _ _ => if 1 < tx.vout.length && own 1 then [(1, cents.toNat)] else []
    | .transfer assignments | .redeem _ _ _ assignments =>
      (assignments.filter fun a ↦ own a.vout.toNat).map fun a ↦ (a.vout.toNat, a.cents.toNat)
    | _ => []

/-! ## What the server lists and the wallet knows -/

/-- `Utxo` of the compact client. -/
structure ListedUtxo where
  address : String
  txid : Arr 32
  index : UInt32
  script : Bytes
  valueZat : Int
  height : Nat

/-- A vault row, what its coin is made of. -/
structure VaultCoin where
  outpoint : OutPoint
  status : String
  owner : PqKeyId
  ownerHeight : UInt32
  appHeight : UInt32
  collateralZat : Int
  mintHeight : Nat

/-- `VaultRow::is_open`. -/
def VaultCoin.isOpen (v : VaultCoin) : Bool := v.status = "ACTIVE" || v.status = "VOID"

/-- `vault_script_at`. -/
def vaultScriptAt (vt : VaultTerms) (owner : PqKeyId) (ownerHeight appHeight : UInt32) :
    Except WalletError Bytes :=
  buildOrRefuse (yedVaultParamsAt vt.attestorSetId vt.claimDelay owner ownerHeight.toNat
    appHeight.toNat)

/-- What the server answers while the coins are rebuilt. -/
structure CoinAnswers where
  /-- The tokens of the P2PKH addresses. -/
  tokens : List Token
  /-- The tokens of the vault owners. -/
  ownerTokens : List Token
  /-- The tokens of the Falcon holders, from the gap scan. -/
  falconTokens : OrdMap OutPoint Token
  /-- The outputs of the P2PKH addresses. -/
  utxos : List ListedUtxo
  /-- The outputs of the post-quantum addresses, none if these are refused. -/
  pqUtxos : List ListedUtxo
  /-- `get_transaction`, read. -/
  transaction : Arr 32 → Option Transaction

/-- What the wallet knows. -/
structure CoinView where
  crypto : Crypto
  network : Network
  own : List (Arr 20)
  falcon : List PqKeyId
  pq : List PqKeyId
  publicKey : Arr 20 → Option (Arr 33)
  vaults : List VaultCoin
  terms : Option VaultTerms

namespace CoinView

variable (V : CoinView)

/-- `is_own_holder_script`. -/
def isOwnHolderScript (script : Bytes) : Bool :=
  match p2pkhHash script with
  | some h => h ∈ V.own
  | none => (pqpkhOf script).any fun id ↦ id ∈ V.falcon

/-- `holder_address`. -/
def holderAddress (script : Bytes) : String :=
  match p2pkhHash script with
  | some h => encodeP2pkh V.crypto V.network h
  | none => ((pqpkhOf script).bind fun id ↦ encodePqYellowback V.crypto V.network id).getD ""

/-! ## Rows -/

/-- The script of a Falcon holder's token: that of the row the last sync stored, or that of the output
itself. -/
def falconScript (A : CoinAnswers) (s : Tables) (op : OutPoint) (want : Bytes) : Option Bytes :=
  match (s.utxos.get? op).filter fun u ↦ (pqpkhOf u.script).isSome && u.script = want with
  | some u => if u.value ≠ tokenValue.toInt then none else some u.script
  | none =>
    match (A.transaction op.txid).bind fun tx ↦ tx.vout[op.n.toNat]? with
    | some o =>
      if o.scriptPubkey = want ∧ o.value = tokenValue then some want else none
    | none => none

/-- A token of `falcon_token_utxos`. -/
def falconRow (A : CoinAnswers) (s : Tables) (op : OutPoint) (t : Token) : Option Utxo :=
  match parsePqAddress V.crypto V.network t.address with
  | .error _ => none
  | .ok id =>
    if id ∉ V.falcon ∨ t.valueZat ≠ tokenValue.toInt then none
    else (falconScript A s op ((pqpkhScript id).getD [])).map fun script ↦
      ⟨op, t.address, script, tokenValue.toInt, t.height.toNat, .token, t.cents⟩

/-- `falcon_token_utxos`: by height, then by outpoint. -/
def falconTokenUtxos (A : CoinAnswers) (s : Tables) : List Utxo :=
  (A.falconTokens.entries.filterMap fun e ↦ V.falconRow A s e.1 e.2).insertionSort fun a b ↦
    (compare a.height b.height).then (outpointOrder a.outpoint b.outpoint) ≠ .gt

/-- The cents of every token that is listed, by outpoint. -/
def tokens (A : CoinAnswers) (s : Tables) : OrdMap OutPoint Nat :=
  (V.falconTokenUtxos A s).foldl (fun m u ↦ m.insert u.outpoint u.cents)
    (A.tokens.foldl (fun m t ↦ m.insert t.outpoint t.cents) .empty)

/-- The cents of every token at a post-quantum key. -/
def pqTokens (A : CoinAnswers) : OrdMap OutPoint Nat :=
  A.ownerTokens.foldl (fun m t ↦ m.insert t.outpoint t.cents)
    (A.falconTokens.entries.foldl (fun m e ↦ m.insert e.1 e.2.cents) .empty)

/-- A listed output in its class. -/
def row (u : ListedUtxo) (c : UtxoClass × Nat) : Utxo :=
  ⟨⟨u.txid, u.index⟩, u.address, u.script, u.valueZat, u.height, c.1, c.2⟩

/-- The outputs of the P2PKH addresses. -/
def plainRows (A : CoinAnswers) (s : Tables) : List Utxo :=
  A.utxos.map fun u ↦
    row u (classify V.own (V.tokens A s) ⟨u.txid, u.index⟩ u.script u.valueZat)

/-- The outputs of the post-quantum addresses but for the tokens that have rows. -/
def pqRows (A : CoinAnswers) (s : Tables) : List Utxo :=
  (A.pqUtxos.filter fun u ↦ (⟨u.txid, u.index⟩ : OutPoint) ∉
    (V.falconTokenUtxos A s).map Utxo.outpoint).map fun u ↦
      row u (classifyPqListed V.pq (pqTokens A) ⟨u.txid, u.index⟩ u.script u.valueZat)

/-- The own YED of the transactions that are pending. -/
def pendingRows (s : Tables) (present : List OutPoint) : List Utxo :=
  s.pending.entries.flatMap fun e ↦
    match Transaction.parse V.crypto e.2.raw with
    | .error _ => []
    | .ok (tx, _) =>
      (preLockScripts tx V.isOwnHolderScript).filterMap fun a ↦
        let op : OutPoint := ⟨e.1, UInt32.ofNat a.1⟩
        if op ∈ present then none
        else (tx.vout[a.1]?).map fun o ↦
          ⟨op, V.holderAddress o.scriptPubkey, o.scriptPubkey, o.value.toInt, 0, .pendingToken, a.2⟩

/-- The coin of a vault that is open.  A row without its heights waits for the server. -/
def vaultRow (present : List OutPoint) (v : VaultCoin) : Except WalletError (Option Utxo) :=
  if !v.isOpen || v.outpoint ∈ present then .ok none
  else match V.terms with
    | none => .ok none
    | some vt =>
      if v.ownerHeight = 0 ∨ v.appHeight = 0 then .ok none
      else (vaultScriptAt vt v.owner v.ownerHeight v.appHeight).map fun script ↦
        some ⟨v.outpoint, "", script, v.collateralZat, v.mintHeight, .vault, 0⟩

/-- `MintState::holds_carrier`. -/
def holdsCarrier : MintState → Bool
  | .carrierConfirmed | .mainSent | .lapsed | .sweepSent => true
  | _ => false

/-- The coin of a carrier that a two-step row holds. -/
def carrierRow (present : List OutPoint) (m : MintRow) : Except WalletError (Option Utxo) :=
  if !holdsCarrier m.state || m.carrier ∈ present then .ok none
  else match V.publicKey m.carrierHash160 with
    | none => .ok none
    | some pk =>
      match carrierScript V.crypto pk (V.crypto.sha256 m.bundle) with
      | .error e => .error (.mint (.script e))
      | .ok redeem =>
        let hash := V.crypto.hash160 redeem
        .ok (some ⟨m.carrier, encodeP2sh V.crypto V.network hash, p2shScript hash,
          carrierValue.toInt, m.createdHeight, .carrier, 0⟩)

/-- The coins that the addresses give, with the fee reserve. -/
def addressRows (A : CoinAnswers) (s : Tables) : List Utxo :=
  applyFeeReserve (V.plainRows A s ++ V.falconTokenUtxos A s) ++ V.pqRows A s

/-- Every coin. -/
def coinSet (A : CoinAnswers) (s : Tables) : Except WalletError (List Utxo) := do
  let utxos := V.addressRows A s
  let utxos := utxos ++ V.pendingRows s (utxos.map Utxo.outpoint)
  let present := utxos.map Utxo.outpoint
  let vaults ← V.vaults.mapM (V.vaultRow present)
  let carriers ← (s.mints.entries.map Prod.snd).mapM (V.carrierRow present)
  return utxos ++ vaults.filterMap id ++ carriers.filterMap id

end CoinView

end Yew.Sync
