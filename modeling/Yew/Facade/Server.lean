import Yew.Util.Proc
import Yew.Util.RawValue
import Yew.Facade.Methods

/-!
# The façade's server

A request body is one call or a batch of calls.  The façade decides on its own reading of a call,
the envelope, and hands the call's original text to the node.  The node reads an object as one
call and an array as a batch; the envelope is read from an object by field name, and from an array
by position.

The source is `yewd/facade/src/server.rs`.  A body is bytes; what `serde_json` keeps as a raw value
is the tree of its text, with strings as they are spelled.  Where the code reads a field as a string
or a key by its name, the spelling is decoded there; a text that cannot be decoded is refused there
and nowhere else.  The wallet and the node are functions of a state of their own, which nothing is
assumed of.

## Source

* `yewd/facade/src/server.rs`: `Envelope`, `Reply`, `params_of`, `Facade::dispatch`, `Facade::one`,
  `Facade::wallet_call`, `Facade::augmented`, `Facade::forward` and 3 more
* `yewd/facade/src/wallet.rs`: `ProcessSigner::run`, `WalletService::raw_helper`,
  `WalletService::call`, `WalletService::burn_guard`
-/

namespace Yew.Facade

open Proc

/-- `RpcError`: a code and a message. -/
structure RpcError where
  code : Int
  message : String

/-- `BackendError`, with its texts. -/
inductive BackendError where
  | unreachable (m : String)
  | unauthorized
  | other (m : String)

/-- `BackendError::fmt`. -/
def BackendError.text : BackendError → String
  | .unreachable m => "backend not reachable: " ++ m
  | .unauthorized => "backend refused the credentials"
  | .other m => "backend error: " ++ m

/-- A reply: an error, a result, a result whose text the wallet wrote, or what the node answered. -/
inductive Reply where
  | error (code : Int) (message : String) (id : Option Raw)
  | result (text : String) (id : Option Raw)
  | raw (text : String) (id : Option Raw)
  | relayed (status : Nat) (out : Bytes)
  | batch (replies : List Reply)

/-- The HTTP status of a reply. -/
def Reply.status : Reply → Nat
  | .error code _ _ => if code = -32601 then 404 else if code = -32600 then 400 else 500
  | .relayed status _ => status
  | _ => 200

/-! ## The envelope -/

/-- `Envelope`. -/
structure Envelope where
  method : Option Raw
  id : Option Raw
  params : Option Raw

/-- `Option<&RawValue>`: null is nothing, and any other value has to be UTF-8. -/
def rawField : Raw → Option (Option Raw)
  | .null => some none
  | v => if v.isUtf8 then some (some v) else none

/-- A field of an object: absent, read once, or repeated, which is an error. -/
def field (ms : List (Bytes × Raw)) (k : String) : Option (Option Raw) :=
  match Raw.lookup ms k with
  | [] => some none
  | [v] => rawField v
  | _ => none

/-- Whether every key of an object can be read as a string, as a derived struct does. -/
def keysRead (ms : List (Bytes × Raw)) : Bool := ms.all fun m ↦ (Raw.text m.1).isSome

/-- `Envelope`'s `Deserialize`: from an object by name, from an array by position.  A field of another
name is skipped. -/
def Envelope.ofRaw : Raw → Option Envelope
  | .obj ms =>
    if keysRead ms then do
      let method ← field ms "method"
      let id ← field ms "id"
      let params ← field ms "params"
      some ⟨method, id, params⟩
    else none
  | .arr vs =>
    if vs.length ≤ 3 then do
      let fs ← vs.mapM rawField
      some ⟨fs[0]?.join, fs[1]?.join, fs[2]?.join⟩
    else none
  | _ => none

/-! ## What the façade is built with -/

/-- What the façade reads of its tables and of `serde_json`. -/
structure Tables where
  /-- `yewd_wallet::rpc::served`. -/
  served : String → Bool
  /-- `ycashd::arity_error`. -/
  arityError : String → Nat → Bool → Option String
  /-- `ycashd::help`. -/
  help : String → Option String
  /-- `ycashd::merged_listing`. -/
  mergedListing : String → (String → Bool) → String
  /-- `zsend::pq_refusal_only` on the façade's network. -/
  pqRefusalOnly : String → List Raw → Except RpcError String
  /-- Whether the text of a reply contains `tx-not-found`. -/
  txNotFound : Reply → Bool
  /-- Whether a raw value can be read as a `serde_json::Value`, which decodes strings and bounds
  nesting and numbers. -/
  readable : Raw → Bool

/-- The façade's settings. -/
structure Config where
  /-- `-disablewallet`. -/
  disabled : Bool
  /-- `-stopbackend`. -/
  stopBackend : Bool

/-- The wallet, the node and the clock. -/
structure Outside (σ : Type) where
  encrypted : σ → Bool × σ
  call : String → List Raw → σ → Except RpcError String × σ
  rawHelper : String → List Raw → σ → Except RpcError String × σ
  yedBurnGuard : List Raw → σ → Except RpcError Unit × σ
  validate : List Raw → σ → Except RpcError String × σ
  answerError : String → List Raw → σ → Option String × σ
  augment : String → List Raw → Raw → σ → Except RpcError String × σ
  backend : String → Raw → σ → Except BackendError (Nat × Bytes) × σ
  setMocktime : Int → σ → σ

/-- A body handed to the node, with the parameters `burn_guard` has let pass for it. -/
structure Sent where
  body : Raw
  guarded : Option (List Raw)

/-- The façade's surroundings and everything it has handed to the node. -/
structure Desk (σ : Type) where
  outside : σ
  log : List Sent

/-- Handling a call: it ends in a reply, early or not. -/
abbrev Run (σ : Type) (α : Type) : Type := Proc (Desk σ) Reply α

variable {σ : Type}

/-- Ask the wallet or the clock. -/
def ask {α : Type} (f : σ → α × σ) : Run σ α := fun d ↦
  (.ok (f d.outside).1, { d with outside := (f d.outside).2 })

/-- `Backend::call`. -/
def Outside.send (O : Outside σ) (path : String) (body : Raw) (guarded : Option (List Raw)) :
    Run σ (Except BackendError (Nat × Bytes)) := fun d ↦
  (.ok (O.backend path body d.outside).1,
    ⟨(O.backend path body d.outside).2, d.log ++ [⟨body, guarded⟩]⟩)

/-- The parameters of a call, by position: null or absent is none. -/
def Tables.paramsOf (T : Tables) : Option Raw → Except String (List Raw)
  | none => .ok []
  | some v =>
    if T.readable v then
      match v with
      | .null => .ok []
      | .arr vs => .ok vs
      | _ => .error "Params must be an array"
    else .error "Parse error"

/-! ## The parts of a call -/

/-- The parameters, or the reply to a call that has no readable ones. -/
def Tables.requireParams (T : Tables) (params id : Option Raw) : Run σ (List Raw) :=
  match T.paramsOf params with
  | .ok ps => pure ps
  | .error m => throw (.error (-32600) m id)

/-- The reply a wallet call's outcome makes. -/
def replyOf (id : Option Raw) : Except RpcError String → Reply
  | .ok text => .raw text id
  | .error e => .error e.code e.message id

/-- `forward`. -/
def Outside.forward (O : Outside σ) (path : String) (body : Raw) (guarded : Option (List Raw))
    (id : Option Raw) : Run σ Reply := do
  match ← O.send path body guarded with
  | .ok (status, out) =>
    return .relayed status (out.reverse.dropWhile fun c ↦ c = 0x0a || c = 0x0d).reverse
  | .error (.unreachable m) =>
    return .error (-28) ("yewd: " ++ (BackendError.unreachable m).text) id
  | .error e => return .error (-1) ("yewd: " ++ e.text) id

/-- `wallet_call`. -/
def walletCall (T : Tables) (O : Outside σ) (method : String) (params id : Option Raw) :
    Run σ Reply := do
  let ps ← T.requireParams params id
  return replyOf id (← ask (O.call method ps))

/-- The body `begin_stop` sends. -/
def stopBody : Raw :=
  .obj [(Raw.plain "jsonrpc", .str (Raw.plain "1.0")), (Raw.plain "id", .str (Raw.plain "yewd")),
    (Raw.plain "method", .str (Raw.plain "stop")), (Raw.plain "params", .arr [])]

/-- `begin_stop`. -/
def beginStop (cfg : Config) (O : Outside σ) (path : String) : Run σ Bool :=
  if cfg.stopBackend then do
    match ← O.send path stopBody none with
    | .ok _ => return true
    | .error _ => return false
  else return false

/-- `stop`. -/
def stop (cfg : Config) (O : Outside σ) (path : String) (id : Option Raw) : Run σ Reply := do
  let stopped ← beginStop cfg O path
  return .result ("yewd stopping" ++ if stopped then " (backend stopping)" else "") id

/-- The topic `help` is asked for. -/
def Tables.topic (T : Tables) : Option Raw → Option String
  | some (.arr (.str m :: vs)) => if T.readable (.arr (.str m :: vs)) then Raw.text m else none
  | _ => none

/-- The result of the node's answer, if it is a text. -/
def Tables.resultText (T : Tables) (out : Bytes) : String :=
  match (Raw.parse out).filter T.readable with
  | some (.obj ms) => ((Raw.lookup ms "result").getLast?.bind Raw.str?).getD ""
  | _ => ""

/-- The methods that `help` adds to the node's list. -/
def Tables.listed (T : Tables) (m : String) : Bool :=
  match classify m with
  | some (.wallet _ _) | some .local => T.served m || decide (m ∈ localMethods)
  | _ => false

/-- `help` on a topic: the façade's own text, or none when the node is asked. -/
def Tables.helpText (T : Tables) (m : String) : Option String :=
  match classify m, T.help m with
  | some (.wallet _ _), some text | some .local, some text => some text
  | some (.wallet _ stage), none => some (m ++ "\n\n" ++ notImplementedMessage m stage ++ "\n")
  | some .outOfScope, _ => some (m ++ "\n\n" ++ outOfScopeMessage m ++ "\n")
  | some .own, _ =>
    if m = "stop" then some "stop\n\nStop yewd (and, with -stopbackend, the backend node).\n"
    else none
  | _, _ => none

/-- The two topics that are known on an encrypted wallet only. -/
def topicKnown (O : Outside σ) (m : String) (id : Option Raw) : Run σ Unit :=
  if m = "walletlock" ∨ m = "walletpassphrase" then do
    match ← ask O.encrypted with
    | true => pure ()
    | false => throw (.result ("help: unknown command: " ++ m) id)
  else pure ()

/-- `help`. -/
def help (T : Tables) (O : Outside σ) (path : String) (body : Raw) (params id : Option Raw) :
    Run σ Reply :=
  match T.topic params with
  | some m => do
    topicKnown O m id
    match T.helpText m with
    | some text => return .result text id
    | none => O.forward path body none id
  | none => do
    match ← O.forward path body none id with
    | .relayed 200 out => return .result (T.mergedListing (T.resultText out) T.listed) id
    | r => return r

/-- `strip_mine`: the filter without its `mine`. -/
def stripMine : List Raw → List Raw
  | .obj f :: ps => .obj (f.filter fun m ↦ Raw.text m.1 ≠ some "mine") :: ps
  | ps => ps

/-- The body the node is asked for an augmented read with. -/
def augmentedBody (method : String) (body : Raw) (ps : List Raw) (id : Option Raw) : Raw :=
  if method = "vault_list" then
    .obj [(Raw.plain "jsonrpc", .str (Raw.plain "1.0")), (Raw.plain "id", id.getD .null),
      (Raw.plain "method", .str (Raw.plain "vault_list")), (Raw.plain "params", .arr (stripMine ps))]
  else body

/-- The result in the node's answer, if it has one. -/
def answerResult (out : Bytes) : Option Raw :=
  match Raw.parse out with
  | some (.obj ms) => if keysRead ms then (field ms "result").join else none
  | some (.arr [v]) => (rawField v).join
  | _ => none

/-- An own expired transaction that the node has no trace of is answered by the wallet. -/
def answerInstead (T : Tables) (O : Outside σ) (method : String) (ps : List Raw)
    (id : Option Raw) (r : Reply) : Run σ Unit :=
  if method = "yed_gettxinfo" ∧ T.txNotFound r then do
    match ← ask (O.answerError method ps) with
    | some text => throw (.raw text id)
    | none => pure ()
  else pure ()

/-- What the wallet adds to the node's answer. -/
def complete (O : Outside σ) (method : String) (ps : List Raw) (id : Option Raw) (r : Reply) :
    Run σ Reply :=
  match r with
  | .relayed 200 out =>
    match answerResult out with
    | some result => do return replyOf id (← ask (O.augment method ps result))
    | none => return r
  | _ => return r

/-- `augmented`. -/
def augmented (T : Tables) (O : Outside σ) (path method : String) (body : Raw)
    (params id : Option Raw) : Run σ Reply := do
  let ps ← T.requireParams params id
  if method = "z_validateaddress" then
    return replyOf id (← ask (O.validate ps))
  else
    let r ← O.forward path (augmentedBody method body ps id) none id
    answerInstead T O method ps id r
    complete O method ps id r

/-- The type name `burn_guard` gives a parameter that is no flag. -/
def gotType : Raw → String
  | .str _ => "string"
  | .num _ => "number"
  | .arr _ => "array"
  | .obj _ => "object"
  | _ => "null"

/-- `burn_guard`'s check of one flag: absent, null or a boolean. -/
def flagError (ps : List Raw) (i : Nat) : Option RpcError :=
  match ps[i]? with
  | none | some .null | some (.bool _) => none
  | some v => some ⟨-3, "Expected type bool, got " ++ gotType v⟩

/-- `burn_guard`. -/
def burnGuard (O : Outside σ) (ps : List Raw) : Run σ (Except RpcError Unit) :=
  match flagError ps 1, flagError ps 2 with
  | some e, _ | none, some e => return .error e
  | none, none =>
    match (ps[2]? : Option Raw) with
    | some (.bool true) => return .ok ()
    | _ => ask (O.yedBurnGuard ps)

/-- `Value::as_i64`: a whole number without fraction or exponent. -/
def asI64 : Raw → Option Int
  | .num ('-' :: l) =>
    let n := Nat.ofDigitChars 10 l 0
    if l.all Json.isDigit ∧ n ≠ 0 ∧ n ≤ 2 ^ 63 then some (-n) else none
  | .num l =>
    let n := Nat.ofDigitChars 10 l 0
    if l.all Json.isDigit ∧ n < 2 ^ 63 then some n else none
  | _ => none

/-- Whether `encryptwallet`'s reply says that it took: a result that reads back. -/
def Tables.took (T : Tables) : Reply → Bool
  | .raw text id =>
    (Raw.parse (Text.utf8 text.toList)).any fun v ↦
      T.readable (.obj [(Raw.plain "result", v), (Raw.plain "error", .null),
        (Raw.plain "id", id.getD .null)])
  | _ => false

/-- `setmocktime` once the node has taken it. -/
def mocktime (T : Tables) (O : Outside σ) (params : Option Raw) : Run σ Unit :=
  match T.paramsOf params with
  | .ok (v :: _) =>
    match asI64 v with
    | some t => ask fun s ↦ ((), O.setMocktime t s)
    | none => pure ()
  | _ => pure ()

/-! ## A call -/

/-- Whether the help text of a wrong number of parameters needs the wallet, and what it says. -/
def tailEncrypted (O : Outside σ) (method : String) : Run σ Bool :=
  if method = "walletlock" ∨ method = "walletpassphrase" then ask O.encrypted else pure false

/-- The arity check of the node's table, made for wallet methods and the raw helpers. -/
def arityCheck (T : Tables) (O : Outside σ) (method : String) (params id : Option Raw) :
    Run σ Unit :=
  match T.paramsOf params with
  | .ok ps => do
    match T.arityError method ps.length (← tailEncrypted O method) with
    | some msg => throw (.error (-32602) msg id)
    | none => pure ()
  | .error _ => pure ()

/-- The raw-transaction helpers. -/
def rawHelper (T : Tables) (O : Outside σ) (method : String) (params id : Option Raw) :
    Run σ Reply := do
  let ps ← T.requireParams params id
  return replyOf id (← ask (O.rawHelper method ps))

/-- `one` without a wallet (`-disablewallet`). -/
def oneDisabled (T : Tables) (cfg : Config) (O : Outside σ) (path : String) (body : Raw)
    (method : String) (env : Envelope) : Run σ Reply :=
  match classify method with
  | some (.wallet _ _) => return .error (-32601) "Method not found" env.id
  | some .local => rawHelper T O method env.params env.id
  | some .own =>
    if method = "help" then help T O path body env.params env.id else stop cfg O path env.id
  | _ => O.forward path body none env.id

/-- `encryptwallet`: the node stops once it took. -/
def encryptwallet (T : Tables) (cfg : Config) (O : Outside σ) (method : String) (env : Envelope) :
    Run σ Reply := do
  let r ← walletCall T O method env.params env.id
  if T.took r then
    let _ ← beginStop cfg O "/"
    return r
  else return r

/-- `one` on a wallet method. -/
def walletMethod (T : Tables) (cfg : Config) (O : Outside σ) (method : String) (stage : Stage)
    (env : Envelope) : Run σ Reply := do
  arityCheck T O method env.params env.id
  if method = "encryptwallet" then encryptwallet T cfg O method env
  else if T.served method then walletCall T O method env.params env.id
  else return .error (-32601) (notImplementedMessage method stage) env.id

/-- `one` on a method of the node's own. -/
def nodeMethod (T : Tables) (O : Outside σ) (path : String) (body : Raw) (method : String)
    (env : Envelope) : Run σ Reply :=
  if method = "sendrawtransaction" then do
    let ps ← T.requireParams env.params env.id
    match ← burnGuard O ps with
    | .error e => return .error e.code e.message env.id
    | .ok () => O.forward path body (some ps) env.id
  else if method = "setmocktime" then do
    let r ← O.forward path body none env.id
    if r.status = 200 then
      mocktime T O env.params
      return r
    else return r
  else O.forward path body none env.id

/-- `one` with the wallet, by the method's class. -/
def oneEnabled (T : Tables) (cfg : Config) (O : Outside σ) (path : String) (body : Raw)
    (method : String) (env : Envelope) : Run σ Reply :=
  match classify method with
  | some (.wallet _ stage) => walletMethod T cfg O method stage env
  | some .local => do
    arityCheck T O method env.params env.id
    rawHelper T O method env.params env.id
  | some .outOfScope =>
    if method = "z_shieldcoinbase" then
      let ps := match T.paramsOf env.params with
        | .ok ps => ps
        | .error _ => []
      return replyOf env.id (T.pqRefusalOnly method ps)
    else return .error (-32601) (outOfScopeMessage method) env.id
  | some .own =>
    if method = "help" then help T O path body env.params env.id else stop cfg O path env.id
  | some .augmented => augmented T O path method body env.params env.id
  | none => nodeMethod T O path body method env

/-- `one`: a call, given as the tree of its text, if it is JSON. -/
def one (T : Tables) (cfg : Config) (O : Outside σ) (path : String) (body : Option Raw) :
    Run σ Reply :=
  match body with
  | none => return .error (-32700) "Parse error" none
  | some v =>
    match Envelope.ofRaw v with
    | none => return .error (-32700) "Parse error" none
    | some env =>
      match env.method with
      | none => return .error (-32600) "Missing method" env.id
      | some m =>
        match m.str? with
        | none => return .error (-32600) "Method must be a string" env.id
        | some method =>
          if cfg.disabled then oneDisabled T cfg O path v method env
          else oneEnabled T cfg O path v method env

/-- An early reply is a reply. -/
def settle (x : Run σ Reply) : Run σ Reply := fun d ↦
  match x d with
  | (.ok r, d') => (.ok r, d')
  | (.error r, d') => (.ok r, d')

/-- `u8::is_ascii_whitespace`. -/
def isAsciiWhitespace (c : Char) : Bool :=
  c = ' ' || c = '\t' || c = '\n' || c = Char.ofNat 12 || c = '\r'

/-- `from_slice::<Vec<&RawValue>>`: the elements of an array, if all are UTF-8. -/
def batchOf (body : Bytes) : Option (List Raw) :=
  match Raw.parse body with
  | some (.arr vs) => if Raw.areUtf8 vs then some vs else none
  | _ => none

/-- `dispatch`. -/
def dispatch (T : Tables) (cfg : Config) (O : Outside σ) (path : String) (body : Bytes) :
    Run σ Reply :=
  if (Raw.chars body).find? (fun c ↦ !isAsciiWhitespace c) = some '[' then
    match batchOf body with
    | some vs => do
      return .batch (← forEach (fun v ↦ settle (one T cfg O path (some v))) vs)
    | none => return .error (-32700) "Parse error" none
  else settle (one T cfg O path (Raw.parse body))

end Yew.Facade
