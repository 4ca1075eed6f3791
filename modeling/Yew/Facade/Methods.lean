import Mathlib.Data.List.Basic

/-!
# The façade's method table

Every wallet RPC of the node is listed by name, so that none of them is ever relayed; what is not
listed is the node's own.

The table is data; what is proved of it is that the two lists do not meet.

## Source

* `yewd/facade/src/methods.rs`: `Class`, `Group`, `Stage`, `Stage::name`, `wallet_methods`,
  `classify`, `not_implemented_message`, `out_of_scope_message`
-/

namespace Yew.Facade

/-- `Stage`: the chunk that implements a wallet RPC. -/
inductive Stage where
  | s1
  | s2
  | s3
  | s4
  | s5
deriving DecidableEq

/-- `Stage::name`. -/
def Stage.name : Stage → String
  | .s1 => "S1"
  | .s2 => "S2"
  | .s3 => "S3"
  | .s4 => "S4"
  | .s5 => "S5"

/-- `Group`: where a wallet RPC comes from. -/
inductive Group where
  | vault
  | yed
  | pq
  | stock
  | role
deriving DecidableEq

/-- `Class`: what the façade does with a method. -/
inductive Class where
  | wallet (group : Group) (stage : Stage)
  | outOfScope
  | local
  | augmented
  | own
deriving DecidableEq

/-! ## The tables -/

/-- `VAULT_WALLET`: the vault RPCs. -/
def vaultWallet : List (String × Stage) :=
  [("set_create", .s2), ("set_join", .s2), ("set_heartbeat", .s2), ("set_leave", .s2),
    ("set_buildact", .s2), ("set_signact", .s2), ("set_sendact", .s2), ("set_equivocation", .s2),
    ("vault_lock", .s2), ("vault_getnewowner", .s1), ("vault_buildunlock", .s2),
    ("set_signunlock", .s2), ("vault_buildcancel", .s2), ("set_signcancel", .s2),
    ("vault_refee", .s2), ("set_listsigned", .s1), ("set_importsigned", .s2),
    ("set_acknowledgerestore", .s2), ("vault_send", .s2), ("vault_release", .s2),
    ("vault_ownerspend", .s2), ("vault_app", .s2)]

/-- `YED_WALLET`: the YED wallet RPCs. -/
def yedWallet : List (String × Stage) :=
  [("yed_getnewaddress", .s1), ("yed_validateaddress", .s1), ("yed_getbalance", .s1),
    ("yed_listunspent", .s1), ("yed_mint", .s2), ("yed_send", .s2), ("yed_sendmany", .s2),
    ("yed_redeem", .s2), ("yed_claim", .s2), ("yed_listpositions", .s1),
    ("yed_listtransactions", .s1), ("yed_listaddresses", .s1), ("yed_lockcoins", .s2),
    ("yed_estimatesend", .s2), ("yed_estimateredeem", .s2), ("yed_unlockcoin", .s2),
    ("yed_buildcancel", .s3), ("yed_signcancelcosign", .s3), ("yed_claimnotice", .s2),
    ("yed_sweepcarriers", .s2), ("yed_registerattestor", .s3), ("yed_withdrawbond", .s3),
    ("yed_revive", .s3), ("yed_reportequivocation", .s3), ("yed_signattestation", .s3)]

/-- `PQ_WALLET`. -/
def pqWallet : List (String × Stage) :=
  [("z_importpqkey", .s4)]

/-- `STOCK_WALLET`: the stock wallet RPCs the functional scripts call. -/
def stockWallet : List (String × Stage) :=
  [("addmultisigaddress", .s4), ("backupwallet", .s4), ("dumpprivkey", .s4),
    ("encryptwallet", .s4), ("fundrawtransaction", .s2), ("getbalance", .s1),
    ("getnewaddress", .s1), ("getreceivedbyaddress", .s1), ("gettransaction", .s1),
    ("getwalletinfo", .s1), ("importprivkey", .s4), ("importwallet", .s4),
    ("listlockunspent", .s1), ("listunspent", .s1), ("lockunspent", .s2), ("sendmany", .s2),
    ("sendtoaddress", .s2), ("settxfee", .s4), ("signrawtransaction", .s2), ("walletlock", .s4),
    ("walletpassphrase", .s4), ("z_exportwallet", .s4), ("z_getbalance", .s1),
    ("z_getnewaddress", .s1), ("z_getoperationresult", .s4), ("z_getoperationstatus", .s4),
    ("z_importwallet", .s4), ("z_listoperationids", .s4), ("z_listunspent", .s1),
    ("z_sendmany", .s4)]

/-- `ROLE_WALLET`: the stock wallet RPCs only the roles call. -/
def roleWallet : List (String × Stage) :=
  [("getrawchangeaddress", .s3), ("signmessage", .s3), ("z_getnewdiversifiedaddress", .s4),
    ("z_listreceivedbyaddress", .s4)]

/-- `GATE_WALLET`: stock wallet reads found by the gate. -/
def gateWallet : List (String × Stage) :=
  [("getaddressesbyaccount", .s5), ("listreceivedbyaddress", .s5), ("listtransactions", .s5),
    ("z_listaddresses", .s5), ("z_mergetoaddress", .s5)]

/-- `OUT_OF_SCOPE`: the rest of the node's wallet table. -/
def outOfScope : List String :=
  ["resendwallettransactions", "dumpwallet", "z_converttex", "getunconfirmedbalance",
    "importaddress", "importpubkey", "keypoolrefill", "listaddresses", "listaddressgroupings",
    "listsinceblock", "walletpassphrasechange", "walletconfirmbackup", "zcbenchmark",
    "zcsamplejoinsplit", "z_gettotalbalance", "z_getbalanceforviewingkey",
    "z_getbalanceforaccount", "z_setmigration", "z_getmigrationstatus", "z_shieldcoinbase",
    "z_getnewaccount", "z_listaccounts", "z_listunifiedreceivers", "z_getaddressforaccount",
    "z_exportkey", "z_importkey", "z_exportviewingkey", "z_importviewingkey", "z_exportivk",
    "z_importivk", "z_getalldiversifiedaddresses", "z_viewtransaction", "z_getnotescount",
    "z_getpaymentdisclosure", "z_validatepaymentdisclosure"]

/-- `LOCAL`: raw-transaction helpers served by the façade. -/
def localMethods : List String :=
  ["createrawtransaction", "decoderawtransaction", "decodescript"]

/-- `AUGMENTED`: node RPCs whose answers the wallet completes. -/
def augmentedMethods : List String :=
  ["getinfo", "validateaddress", "z_validateaddress", "set_getinfo", "vault_list",
    "yed_gettxinfo", "yed_getinfo"]

/-- `OWN`: answered by the façade itself. -/
def ownMethods : List String :=
  ["help", "stop"]

/-- `wallet_methods`. -/
def walletMethods : List (String × Group × Stage) :=
  let g (t : List (String × Stage)) (g : Group) := t.map fun x ↦ (x.1, g, x.2)
  g vaultWallet .vault ++ g yedWallet .yed ++ g pqWallet .pq ++ g stockWallet .stock ++
    g roleWallet .role ++ g gateWallet .stock

/-- `classify`: none for a node RPC. -/
def classify (method : String) : Option Class :=
  match walletMethods.find? fun x ↦ x.1 = method with
  | some (_, group, stage) => some (.wallet group stage)
  | none =>
    if method ∈ outOfScope then some .outOfScope
    else if method ∈ localMethods then some .local
    else if method ∈ augmentedMethods then some .augmented
    else if method ∈ ownMethods then some .own
    else none

/-- `not_implemented_message`. -/
def notImplementedMessage (method : String) (stage : Stage) : String :=
  "yewd: not yet implemented (" ++ method ++ "; plan §3b " ++ stage.name ++ ")"

/-- `out_of_scope_message`. -/
def outOfScopeMessage (method : String) : String :=
  "yewd: not served (" ++ method ++ " is outside the façade's scope, K-25)"

/-- The methods that must not reach the node: the wallet's, and those out of scope. -/
def blocked (method : String) : Bool :=
  match classify method with
  | some (.wallet _ _) => true
  | some .outOfScope => true
  | _ => false

end Yew.Facade
