import Yew.Facade.Server

/-!
# What reaches the node

The node reads a body in its own way: an object is a call, an array is a batch, whatever the façade
took it for.  A call given as an object has one method in both readings.  A call given as an array
is a batch to the node, so the entries the façade takes for an id and for parameters are calls.

The entries the façade has no use for it does not read at all: a string in them may hold half of a
surrogate pair, which no string that is read may.  Such a text names no method to the node either.

The envelope is that of `yewd/facade/src/server.rs`.  The node's reading is not in the repository
and is the usual one of JSON-RPC: an object is a call, an array a batch.
-/

namespace Yew.Facade

open Proc

/-! ## The node's reading -/

/-- An object's members. -/
def members? : Raw → Option (List (Bytes × Raw))
  | .obj ms => some ms
  | _ => none

/-- The calls in a body: an object is one, an array has one for each of its objects. -/
def callsOf : Raw → List (List (Bytes × Raw))
  | .obj ms => [ms]
  | .arr vs => vs.filterMap members?
  | _ => []

/-- The methods a call names. -/
def calledMethods (ms : List (Bytes × Raw)) : List String :=
  (Raw.lookup ms "method").filterMap Raw.str?

/-- The parameters of a call. -/
def Tables.callParams (T : Tables) (ms : List (Bytes × Raw)) : Option (List Raw) :=
  (field ms "params").bind fun p ↦ (T.paramsOf p).toOption

/-- A call that may reach the node, when `burn_guard` has let `guarded` pass. -/
structure Tables.CallPassed (T : Tables) (guarded : Option (List Raw))
    (ms : List (Bytes × Raw)) : Prop where
  notBlocked : ∀ m ∈ calledMethods ms, blocked m = false
  burnGuard : "sendrawtransaction" ∈ calledMethods ms →
    ∃ ps, guarded = some ps ∧ T.callParams ms = some ps

/-- A body all of whose calls may reach the node. -/
def Tables.Passed (T : Tables) (s : Sent) : Prop :=
  ∀ ms ∈ callsOf s.body, T.CallPassed s.guarded ms

/-! ## What a call hands on -/

/-- Whether `one` can hand the call's own text to the node, and the parameters that `burn_guard`
has let pass when it does. -/
def Tables.relay (T : Tables) (method : String) (params : Option Raw) :
    Option (Option (List Raw)) :=
  match classify method with
  | none =>
    if method = "sendrawtransaction" then
      match T.paramsOf params with
      | .ok ps => if (flagError ps 1).isNone ∧ (flagError ps 2).isNone then some (some ps) else none
      | .error _ => none
    else some none
  | some .augmented =>
    match T.paramsOf params with
    | .ok _ => if method = "z_validateaddress" ∨ method = "vault_list" then none else some none
    | .error _ => none
  | some .own =>
    if method = "help" then
      match T.topic params with
      | some m => if (T.helpText m).isNone then some none else none
      | none => some none
    else none
  | _ => none

/-- A batch element that is an array smuggles no call: either `one` does not hand it on, or every
object in it is a call that may reach the node. -/
def Tables.Straight (T : Tables) (v : Raw) : Prop :=
  ∀ vs env method guarded, v = .arr vs → Envelope.ofRaw v = some env →
    env.method.bind Raw.str? = some method → T.relay method env.params = some guarded →
    ∀ ms ∈ vs.filterMap members?, T.CallPassed guarded ms

/-- A body in which no batch element smuggles a call. -/
def Tables.Plain (T : Tables) (body : Bytes) : Prop :=
  ∀ vs, batchOf body = some vs → ∀ v ∈ vs, T.Straight v

variable {σ : Type}

/-- The log grows, by bodies that `P` holds of. -/
def Adds (P : Sent → Prop) (a b : Desk σ) : Prop :=
  ∃ new, b.log = a.log ++ new ∧ ∀ s ∈ new, P s

instance (P : Sent → Prop) : Proc.Path (Adds (σ := σ) P) where
  refl a := ⟨[], by simp, by simp⟩
  trans := by
    rintro a b c ⟨new, hb, hnew⟩ ⟨more, hc, hmore⟩
    refine ⟨new ++ more, by rw [hc, hb, List.append_assoc], fun s hs ↦ ?_⟩
    rcases List.mem_append.mp hs with hs | hs
    · exact hnew s hs
    · exact hmore s hs

section Moves

variable {P : Sent → Prop} {T : Tables} {cfg : Config} {O : Outside σ} {path : String}

theorem moves_ask {α : Type} (f : σ → α × σ) : Moves (Adds P) (ask f) :=
  fun _ ↦ ⟨[], by simp [ask], by simp⟩

theorem moves_send {body : Raw} {guarded : Option (List Raw)} (h : P ⟨body, guarded⟩) :
    Moves (Adds P) (O.send path body guarded) :=
  fun _ ↦ ⟨[⟨body, guarded⟩], rfl, by simpa using h⟩

theorem moves_forward {body : Raw} {guarded : Option (List Raw)} {id : Option Raw}
    (h : P ⟨body, guarded⟩) : Moves (Adds P) (O.forward path body guarded id) := by
  refine Moves.bind (moves_send h) fun r ↦ ?_
  split <;> exact Moves.pure _

/-- Parameters are asked for first: what follows runs on those the call has. -/
theorem moves_withParams {α : Type} {params id : Option Raw} {f : List Raw → Run σ α}
    (h : ∀ ps, T.paramsOf params = .ok ps → Moves (Adds P) (f ps)) :
    Moves (Adds P) (T.requireParams params id >>= f) := by
  intro d
  unfold Tables.requireParams
  cases hps : T.paramsOf params with
  | ok ps => exact h ps hps d
  | error m => exact Proc.Path.refl d

theorem moves_walletCall {method : String} {params id : Option Raw} :
    Moves (Adds P) (walletCall T O method params id) :=
  moves_withParams fun _ _ ↦ Moves.bind (moves_ask _) fun _ ↦ Moves.pure _

theorem moves_rawHelper {method : String} {params id : Option Raw} :
    Moves (Adds P) (rawHelper T O method params id) :=
  moves_withParams fun _ _ ↦ Moves.bind (moves_ask _) fun _ ↦ Moves.pure _

theorem moves_arityCheck {method : String} {params id : Option Raw} :
    Moves (Adds P) (arityCheck T O method params id) := by
  unfold arityCheck
  split
  · refine Moves.bind ?_ fun b ↦ ?_
    · exact Moves.ite (moves_ask _) (Moves.pure _)
    · split
      · exact Moves.throw _
      · exact Moves.pure _
  · exact Moves.pure _

theorem moves_beginStop (h : P ⟨stopBody, none⟩) : Moves (Adds P) (beginStop cfg O path) := by
  unfold beginStop
  split
  · refine Moves.bind (moves_send h) fun r ↦ ?_
    split <;> exact Moves.pure _
  · exact Moves.pure _

theorem moves_stop {id : Option Raw} (h : P ⟨stopBody, none⟩) :
    Moves (Adds P) (stop cfg O path id) :=
  Moves.bind (moves_beginStop h) fun _ ↦ Moves.pure _

theorem moves_topicKnown {m : String} {id : Option Raw} :
    Moves (Adds P) (topicKnown O m id) := by
  refine Moves.ite (Moves.bind (moves_ask _) fun b ↦ ?_) (Moves.pure _)
  cases b
  · exact Moves.throw _
  · exact Moves.pure _

theorem moves_help {body : Raw} {params id : Option Raw}
    (h : (∀ m, T.topic params = some m → T.helpText m = none) → P ⟨body, none⟩) :
    Moves (Adds P) (help T O path body params id) := by
  unfold help
  split
  · rename_i m hm
    refine Moves.bind moves_topicKnown fun _ ↦ ?_
    split
    · exact Moves.pure _
    · rename_i ht
      refine moves_forward (h fun m' hm' ↦ ?_)
      cases hm.symm.trans hm'
      exact ht
  · rename_i hm
    refine Moves.bind (moves_forward (h fun m hm' ↦ ?_)) fun r ↦ ?_
    · rw [hm] at hm'
      cases hm'
    · split <;> exact Moves.pure _

/-- `burn_guard` is asked first: it lets pass only flags of the right type. -/
theorem moves_guarded {α : Type} {ps : List Raw} {f : Except RpcError Unit → Run σ α}
    (herror : ∀ e, Moves (Adds P) (f (.error e)))
    (hok : flagError ps 1 = none → flagError ps 2 = none → Moves (Adds P) (f (.ok ()))) :
    Moves (Adds P) (burnGuard O ps >>= f) := by
  unfold burnGuard
  split
  · exact herror _
  · exact herror _
  · rename_i h₁ h₂
    split
    · exact hok h₁ h₂
    · refine Moves.bind (moves_ask _) fun r ↦ ?_
      cases r with
      | ok u => exact hok h₁ h₂
      | error e => exact herror e

theorem moves_answerInstead {method : String} {ps : List Raw} {id : Option Raw} {r : Reply} :
    Moves (Adds P) (answerInstead T O method ps id r) := by
  refine Moves.ite (Moves.bind (moves_ask _) fun a ↦ ?_) (Moves.pure _)
  cases a
  · exact Moves.pure _
  · exact Moves.throw _

theorem moves_complete {method : String} {ps : List Raw} {id : Option Raw} {r : Reply} :
    Moves (Adds P) (complete O method ps id r) := by
  unfold complete
  split
  · split
    · exact Moves.bind (moves_ask _) fun _ ↦ Moves.pure _
    · exact Moves.pure _
  · exact Moves.pure _

theorem moves_augmented {method : String} {body : Raw} {params id : Option Raw}
    (h : ∀ ps, T.paramsOf params = .ok ps → method ≠ "z_validateaddress" →
      P ⟨augmentedBody method body ps id, none⟩) :
    Moves (Adds P) (augmented T O path method body params id) := by
  refine moves_withParams fun ps hps ↦ ?_
  split
  · exact Moves.bind (moves_ask _) fun _ ↦ Moves.pure _
  · rename_i hm
    refine Moves.bind (moves_forward (h ps hps hm)) fun r ↦ ?_
    exact Moves.bind moves_answerInstead fun _ ↦ moves_complete

theorem moves_mocktime {params : Option Raw} : Moves (Adds P) (mocktime T O params) := by
  unfold mocktime
  split
  · split
    · exact moves_ask _
    · exact Moves.pure _
  · exact Moves.pure _

theorem moves_walletMethod {method : String} {stage : Stage} {env : Envelope}
    (h : P ⟨stopBody, none⟩) : Moves (Adds P) (walletMethod T cfg O method stage env) := by
  refine Moves.bind moves_arityCheck fun _ ↦ ?_
  refine Moves.ite ?_ (Moves.ite moves_walletCall (Moves.pure _))
  refine Moves.bind moves_walletCall fun r ↦ Moves.ite ?_ (Moves.pure _)
  exact Moves.bind (moves_beginStop h) fun _ ↦ Moves.pure _

theorem moves_nodeMethod {body : Raw} {method : String} {env : Envelope}
    (hclass : classify method = none)
    (h : ∀ guarded, T.relay method env.params = some guarded → P ⟨body, guarded⟩) :
    Moves (Adds P) (nodeMethod T O path body method env) := by
  unfold nodeMethod
  simp only [Tables.relay, hclass] at h
  split
  · rename_i hm
    rw [if_pos hm] at h
    refine moves_withParams fun ps hps ↦ ?_
    refine moves_guarded (fun e ↦ Moves.pure _) fun h₁ h₂ ↦ moves_forward (h (some ps) ?_)
    simp [hps, h₁, h₂]
  · rename_i hm
    rw [if_neg hm] at h
    have hforward := (@moves_forward σ _ O path _ _ env.id) (h none rfl)
    split
    · refine Moves.bind hforward fun r ↦ Moves.ite ?_ (Moves.pure _)
      exact Moves.bind moves_mocktime fun _ ↦ Moves.pure _
    · exact hforward

/-- What `one` hands on, with the wallet: the call's own text when it may be relayed, or a body of
the façade's making. -/
theorem moves_oneEnabled {body : Raw} {method : String} {env : Envelope}
    (hstop : P ⟨stopBody, none⟩)
    (hlist : ∀ ps, P ⟨augmentedBody "vault_list" body ps env.id, none⟩)
    (hrelay : ∀ guarded, T.relay method env.params = some guarded → P ⟨body, guarded⟩) :
    Moves (Adds P) (oneEnabled T cfg O path body method env) := by
  unfold oneEnabled
  split
  · exact moves_walletMethod hstop
  · exact Moves.bind moves_arityCheck fun _ ↦ moves_rawHelper
  · exact Moves.ite (Moves.pure _) (Moves.pure _)
  · rename_i hclass
    simp only [Tables.relay, hclass] at hrelay
    split
    · rename_i hm
      rw [if_pos hm] at hrelay
      refine moves_help fun ht ↦ hrelay none ?_
      cases htopic : T.topic env.params with
      | none => rfl
      | some m => simp [ht m htopic]
    · exact moves_stop hstop
  · rename_i hclass
    refine moves_augmented fun ps hps hm ↦ ?_
    by_cases hv : method = "vault_list"
    · subst hv
      exact hlist ps
    · rw [augmentedBody, if_neg hv]
      exact hrelay none (by simp [Tables.relay, hclass, hps, hm, hv])
  · exact moves_nodeMethod ‹_› hrelay

end Moves

/-! ## A call as an object -/

theorem str?_of_rawField {v w : Raw} {m : String} (h : rawField v = some (some w))
    (hm : w.str? = some m) : v.str? = some m := by
  unfold rawField at h
  split at h
  · cases h
  · split at h
    · cases h
      exact hm
    · cases h

/-- An object's one method is the envelope's. -/
theorem calledMethods_of_field {ms : List (Bytes × Raw)} {w : Raw} {m : String}
    (h : field ms "method" = some (some w)) (hm : w.str? = some m) : calledMethods ms = [m] := by
  unfold field at h
  unfold calledMethods
  split at h
  · cases h
  · rename_i v hv
    rw [hv, List.filterMap_cons, str?_of_rawField h hm]
    rfl
  · cases h

/-- A method that is relayed is not blocked. -/
theorem not_blocked_of_relay {T : Tables} {method : String} {params : Option Raw}
    {guarded : Option (List Raw)} (h : T.relay method params = some guarded) :
    blocked method = false := by
  unfold Tables.relay at h
  unfold blocked
  split at h <;> rename_i hclass <;> simp_all

/-- A relayed `sendrawtransaction` has passed `burn_guard` with the envelope's parameters. -/
theorem guarded_of_relay {T : Tables} {params : Option Raw} {guarded : Option (List Raw)}
    (h : T.relay "sendrawtransaction" params = some guarded) :
    ∃ ps, guarded = some ps ∧ T.paramsOf params = .ok ps := by
  have hclass : classify "sendrawtransaction" = none := by decide +kernel
  simp only [Tables.relay, hclass, if_true] at h
  split at h
  · rename_i ps hps
    split at h
    · exact ⟨ps, (Option.some.inj h).symm, hps⟩
    · cases h
  · cases h

/-- A call given as an object means the same to the façade and to the node. -/
theorem passed_of_obj {T : Tables} {ms : List (Bytes × Raw)} {env : Envelope} {method : String}
    {guarded : Option (List Raw)} (henv : Envelope.ofRaw (.obj ms) = some env)
    (hmethod : env.method.bind Raw.str? = some method)
    (hrelay : T.relay method env.params = some guarded) : T.Passed ⟨.obj ms, guarded⟩ := by
  dsimp only [Envelope.ofRaw] at henv
  split at henv
  swap
  · cases henv
  obtain ⟨m, hm, henv⟩ := Option.bind_eq_some_iff.mp henv
  obtain ⟨i, hi, henv⟩ := Option.bind_eq_some_iff.mp henv
  obtain ⟨p, hp, henv⟩ := Option.bind_eq_some_iff.mp henv
  cases henv
  dsimp only at hmethod hrelay
  obtain ⟨w, rfl, hw⟩ := Option.bind_eq_some_iff.mp hmethod
  have hcalled := calledMethods_of_field hm hw
  intro ms' hms'
  obtain rfl : ms' = ms := by simpa [callsOf] using hms'
  constructor
  · rw [hcalled]
    simpa using not_blocked_of_relay hrelay
  · rw [hcalled]
    intro hsend
    obtain rfl : "sendrawtransaction" = method := by simpa using hsend
    obtain ⟨ps, rfl, hps⟩ := guarded_of_relay hrelay
    exact ⟨ps, rfl, by simp [Tables.callParams, hp, hps, Except.toOption]⟩

/-- A call of one method that is neither blocked nor `sendrawtransaction`. -/
theorem passed_of_calledMethods {T : Tables} {ms : List (Bytes × Raw)} {m : String}
    {guarded : Option (List Raw)} (h : calledMethods ms = [m]) (hblocked : blocked m = false)
    (hsend : "sendrawtransaction" ≠ m) : T.Passed ⟨.obj ms, guarded⟩ := by
  intro ms' hms'
  obtain rfl : ms' = ms := by simpa [callsOf] using hms'
  constructor
  · simpa [h] using hblocked
  · rw [h]
    intro hmem
    exact absurd (List.mem_singleton.mp hmem) hsend

theorem passed_stopBody (T : Tables) : T.Passed ⟨stopBody, none⟩ :=
  passed_of_calledMethods (m := "stop") (by decide +kernel) (by decide +kernel) (by decide)

theorem passed_vaultList (T : Tables) (body : Raw) (ps : List Raw) (id : Option Raw) :
    T.Passed ⟨augmentedBody "vault_list" body ps id, none⟩ := by
  rw [augmentedBody, if_pos rfl]
  refine passed_of_calledMethods (m := "vault_list") ?_ (by decide +kernel) (by decide)
  have hjsonrpc : Raw.text (Raw.plain "jsonrpc") = some "jsonrpc" := Raw.text_plain (by decide)
  have hid : Raw.text (Raw.plain "id") = some "id" := Raw.text_plain (by decide)
  have hmethod : Raw.text (Raw.plain "method") = some "method" := Raw.text_plain (by decide)
  have hparams : Raw.text (Raw.plain "params") = some "params" := Raw.text_plain (by decide)
  have hname : Raw.text (Raw.plain "vault_list") = some "vault_list" := Raw.text_plain (by decide)
  simp [calledMethods, Raw.lookup, Raw.str?, hjsonrpc, hid, hmethod, hparams, hname]

/-! ## An array begins with a bracket -/

theorem find?_of_ws {cs r : List Char} {c : Char} (h : Json.ws cs = c :: r)
    (hc : isAsciiWhitespace c = false) :
    cs.find? (fun c ↦ !isAsciiWhitespace c) = some c := by
  induction cs with
  | nil => cases h
  | cons d cs ih =>
    cases hd : Json.isWs d with
    | true =>
      have hws : isAsciiWhitespace d = true := by
        simp only [Json.isWs, Bool.or_eq_true, decide_eq_true_eq] at hd
        simp only [isAsciiWhitespace, Bool.or_eq_true, decide_eq_true_eq]
        tauto
      simp only [Json.ws, List.dropWhile_cons, hd, if_true] at h
      rw [List.find?_cons_of_neg (by simp [hws])]
      exact ih h
    | false =>
      simp only [Json.ws, List.dropWhile_cons, hd] at h
      cases h
      rw [List.find?_cons_of_pos (by simp [hc])]

theorem find?_of_parse {body : Bytes} {vs : List Raw} (h : Raw.parse body = some (.arr vs)) :
    (Raw.chars body).find? (fun c ↦ !isAsciiWhitespace c) = some '[' := by
  obtain ⟨cs, hcs⟩ := Raw.ws_of_parse h
  exact find?_of_ws hcs (by decide)

theorem parse_of_batchOf {body : Bytes} {vs : List Raw} (h : batchOf body = some vs) :
    Raw.parse body = some (.arr vs) := by
  unfold batchOf at h
  split at h
  · split at h
    · cases h
      assumption
    · cases h
  · cases h

/-! ## Every body -/

section

variable {T : Tables} {cfg : Config} {O : Outside σ} {path : String}

theorem moves_settle {P : Sent → Prop} {x : Run σ Reply} (h : Moves (Adds P) x) :
    Moves (Adds P) (settle x) := by
  intro d
  have hd := h d
  unfold settle
  split <;> simp_all

/-- What `one` hands on: a call's own text when it may be relayed, or a body of the façade's
making. -/
theorem moves_one {P : Sent → Prop} {body : Option Raw} (hcfg : cfg.disabled = false)
    (hstop : P ⟨stopBody, none⟩)
    (hlist : ∀ v ps id, P ⟨augmentedBody "vault_list" v ps id, none⟩)
    (hrelay : ∀ v env method guarded, body = some v → Envelope.ofRaw v = some env →
      env.method.bind Raw.str? = some method → T.relay method env.params = some guarded →
      P ⟨v, guarded⟩) :
    Moves (Adds P) (one T cfg O path body) := by
  unfold one
  split
  · exact Moves.pure _
  · rename_i v
    split
    · exact Moves.pure _
    · rename_i env henv
      split
      · exact Moves.pure _
      · rename_i m hm
        split
        · exact Moves.pure _
        · rename_i method hstr
          have hmethod : env.method.bind Raw.str? = some method := by rw [hm, Option.bind_some, hstr]
          rw [hcfg, if_neg Bool.false_ne_true]
          exact moves_oneEnabled hstop (fun ps ↦ hlist v ps env.id) fun guarded h ↦
            hrelay v env method guarded rfl henv hmethod h

/-- A call that is no array, or an array that smuggles nothing, hands on only what passes. -/
theorem moves_one_passed {body : Option Raw} (hcfg : cfg.disabled = false)
    (h : ∀ vs, body = some (.arr vs) → T.Straight (.arr vs)) :
    Moves (Adds T.Passed) (one T cfg O path body) := by
  refine moves_one hcfg (passed_stopBody T) (passed_vaultList T) ?_
  rintro v env method guarded rfl henv hmethod hrelay
  cases v with
  | obj ms => exact passed_of_obj henv hmethod hrelay
  | arr vs => exact fun ms hms ↦ h vs rfl vs env method guarded rfl henv hmethod hrelay ms hms
  | null | bool _ | num _ | str _ => cases henv

theorem moves_dispatch {body : Bytes} (hcfg : cfg.disabled = false) (h : T.Plain body) :
    Moves (Adds T.Passed) (dispatch T cfg O path body) := by
  unfold dispatch
  split
  · split
    · rename_i vs hvs
      refine Moves.bind (Moves.forEach_of_mem fun v hv ↦ ?_) fun _ ↦ Moves.pure _
      refine moves_settle (moves_one_passed hcfg fun es hes ↦ ?_)
      cases hes
      exact h vs hvs _ hv
    · exact Moves.pure _
  · rename_i hfirst
    refine moves_settle (moves_one_passed hcfg fun vs hvs ↦ ?_)
    exact absurd (find?_of_parse hvs) hfirst

end

/-! ## A smuggled call is handed on

With a wallet that lets everything pass, whatever may be relayed is.
-/

/-- A wallet and a node that answer every request. -/
def openDoor : Outside Unit where
  encrypted _ := (true, ())
  call _ _ _ := (.ok "null", ())
  rawHelper _ _ _ := (.ok "null", ())
  yedBurnGuard _ _ := (.ok (), ())
  validate _ _ := (.ok "null", ())
  answerError _ _ _ := (none, ())
  augment _ _ _ _ := (.ok "null", ())
  backend _ _ _ := (.ok (200, Text.utf8 "null".toList), ())
  setMocktime _ _ := ()

/-- Wherever it starts, the procedure hands on `s`. -/
def Hands {α : Type} (s : Sent) (x : Run σ α) : Prop := ∀ d, s ∈ (x d).2.log

theorem Adds.mem {P : Sent → Prop} {a b : Desk σ} {s : Sent} (h : Adds P a b) (hs : s ∈ a.log) :
    s ∈ b.log := by
  obtain ⟨new, hb, _⟩ := h
  rw [hb]
  exact List.mem_append_left _ hs

section Hands

variable {α β : Type} {s : Sent}

/-- What was handed on stays in the log. -/
theorem Hands.bind {x : Run σ α} {f : α → Run σ β} (hx : Hands s x)
    (hf : ∀ a, Moves (Adds fun _ ↦ True) (f a)) : Hands s (x >>= f) := by
  intro d
  have hd := hx d
  rw [bind_apply]
  split
  · rename_i a d' h
    rw [h] at hd
    exact (hf a d').mem hd
  · rename_i e d' h
    rwa [h] at hd

/-- A first part that returns leaves it to the rest. -/
theorem Hands.after {x : Run σ α} {f : α → Run σ β} {a : α} (hx : ∀ d, (x d).1 = .ok a)
    (hf : Hands s (f a)) : Hands s (x >>= f) := by
  intro d
  have hd := hx d
  rw [bind_apply]
  split
  · rename_i b d' h
    rw [h] at hd
    cases hd
    exact hf d'
  · rename_i e d' h
    rw [h] at hd
    cases hd

theorem Hands.settle {x : Run σ Reply} (hx : Hands s x) : Hands s (settle x) := by
  intro d
  have hd := hx d
  unfold Facade.settle
  split <;> simp_all

theorem hands_forward {O : Outside σ} {path : String} {body : Raw}
    {guarded : Option (List Raw)} {id : Option Raw} :
    Hands ⟨body, guarded⟩ (O.forward path body guarded id) := by
  refine Hands.bind (fun d ↦ ?_) fun r ↦ ?_
  · simp [Outside.send]
  · split <;> exact Moves.pure _

/-- One of a list of calls hands it on: so does the list. -/
theorem Hands.forEach {f : α → Run σ β} {as : List α} {a : α} (ha : a ∈ as) (h : Hands s (f a))
    (hok : ∀ a d, ∃ b d', f a d = (.ok b, d')) (hf : ∀ a, Moves (Adds fun _ ↦ True) (f a)) :
    Hands s (Proc.forEach f as) := by
  induction as with
  | nil => cases ha
  | cons c as ih =>
    rcases List.mem_cons.mp ha with rfl | ha
    · exact Hands.bind h fun b ↦ Moves.bind (Moves.forEach hf as) fun bs ↦ Moves.pure _
    · intro d
      obtain ⟨b, d', hb⟩ := hok c d
      have hrest : Hands s (Proc.forEach f as >>= fun bs ↦ pure (b :: bs)) :=
        Hands.bind (ih ha) fun bs ↦ Moves.pure _
      show s ∈ ((f c >>= fun b ↦ Proc.forEach f as >>= fun bs ↦ pure (b :: bs)) d).2.log
      rw [bind_apply, hb]
      exact hrest d'

end Hands

section

variable {T : Tables} {cfg : Config} {path : String}

theorem burnGuard_openDoor {ps : List Raw} (h₁ : flagError ps 1 = none)
    (h₂ : flagError ps 2 = none) (d : Desk Unit) :
    (burnGuard openDoor ps d).1 = .ok (.ok ()) := by
  unfold burnGuard
  rw [h₁, h₂]
  dsimp only
  generalize (ps[2]? : Option Raw) = flag
  rcases flag with _ | v
  · rfl
  · cases v with
    | bool b => cases b <;> rfl
    | null | num _ | str _ | arr _ | obj _ => rfl

theorem requireParams_eq {params id : Option Raw} {ps : List Raw}
    (h : T.paramsOf params = .ok ps) (d : Desk σ) : (T.requireParams params id d).1 = .ok ps := by
  simp [Tables.requireParams, h]

theorem topicKnown_openDoor (m : String) (id : Option Raw) (d : Desk Unit) :
    (topicKnown openDoor m id d).1 = .ok () := by
  unfold topicKnown
  split <;> rfl

theorem hands_oneEnabled {body : Raw} {method : String} {env : Envelope}
    {guarded : Option (List Raw)} (h : T.relay method env.params = some guarded) :
    Hands ⟨body, guarded⟩ (oneEnabled T cfg openDoor path body method env) := by
  unfold oneEnabled
  unfold Tables.relay at h
  split at h
  · rename_i hclass
    simp only [hclass]
    unfold nodeMethod
    split at h
    · rename_i hm
      rw [if_pos hm]
      split at h
      · rename_i ps hps
        split at h
        · rename_i hflags
          cases h
          refine Hands.after (requireParams_eq hps) ?_
          refine Hands.after (burnGuard_openDoor (Option.isNone_iff_eq_none.mp hflags.1)
            (Option.isNone_iff_eq_none.mp hflags.2)) ?_
          exact hands_forward
        · cases h
      · cases h
    · rename_i hm
      cases h
      rw [if_neg hm]
      split
      · refine Hands.bind (hands_forward) fun r ↦ Moves.ite ?_ (Moves.pure _)
        exact Moves.bind moves_mocktime fun _ ↦ Moves.pure _
      · exact hands_forward
  · rename_i hclass
    simp only [hclass]
    split at h
    · rename_i ps hps
      split at h
      · cases h
      · rename_i hm
        cases h
        push Not at hm
        refine Hands.after (requireParams_eq hps) ?_
        rw [if_neg hm.1, augmentedBody, if_neg hm.2]
        refine Hands.bind (hands_forward) fun r ↦ ?_
        exact Moves.bind moves_answerInstead fun _ ↦ moves_complete
    · cases h
  · rename_i hclass
    simp only [hclass]
    split at h
    · rename_i hm
      rw [if_pos hm]
      unfold help
      cases htopic : T.topic env.params with
      | none =>
        rw [htopic] at h
        cases h
        refine Hands.bind hands_forward fun r ↦ ?_
        split <;> exact Moves.pure _
      | some m =>
        simp only [htopic] at h
        split at h
        · rename_i ht
          cases h
          refine Hands.after (topicKnown_openDoor m env.id) ?_
          rw [Option.isNone_iff_eq_none.mp ht]
          exact hands_forward
        · cases h
    · cases h
  · cases h

theorem settle_isOk (x : Run σ Reply) (d : Desk σ) : ∃ r d', settle x d = (.ok r, d') := by
  unfold settle
  split
  · exact ⟨_, _, rfl⟩
  · exact ⟨_, _, rfl⟩

theorem hands_dispatch {body : Bytes} {vs : List Raw} {v : Raw} {env : Envelope}
    {method : String} {guarded : Option (List Raw)} (hcfg : cfg.disabled = false)
    (hbatch : batchOf body = some vs) (hv : v ∈ vs)
    (henv : Envelope.ofRaw v = some env) (hmethod : env.method.bind Raw.str? = some method)
    (hrelay : T.relay method env.params = some guarded) :
    Hands ⟨v, guarded⟩ (dispatch T cfg openDoor path body) := by
  unfold dispatch
  rw [if_pos (find?_of_parse (parse_of_batchOf hbatch)), hbatch]
  refine Hands.bind (Hands.forEach hv ?_ (fun v d ↦ settle_isOk _ d) fun v ↦ ?_)
    fun _ ↦ Moves.pure _
  · refine Hands.settle ?_
    obtain ⟨m, hm, hstr⟩ := Option.bind_eq_some_iff.mp hmethod
    simp only [one, henv, hm, hstr, hcfg]
    exact hands_oneEnabled hrelay
  · exact moves_settle (moves_one hcfg trivial (fun _ _ _ ↦ trivial) fun _ _ _ _ _ _ _ _ ↦ trivial)

end

/-- Whatever the wallet and the node do, every body handed to the node passes: exactly when no
batch element smuggles a call. -/
theorem passed_iff_plain (T : Tables) (stopBackend : Bool) (path : String) (body : Bytes) :
    (∀ (σ : Type) (O : Outside σ) (s : σ),
      ∀ sent ∈ (dispatch T ⟨false, stopBackend⟩ O path body ⟨s, []⟩).2.log, T.Passed sent) ↔
      T.Plain body := by
  constructor
  · rintro h vs hbatch v hv es env method guarded rfl henv hmethod hrelay
    refine h Unit openDoor () ⟨.arr es, guarded⟩ ?_
    exact hands_dispatch rfl hbatch hv henv hmethod hrelay ⟨(), []⟩
  · intro h σ O s sent hsent
    obtain ⟨new, hlog, hnew⟩ := (@moves_dispatch _ _ ⟨false, stopBackend⟩ O
      path _) rfl h ⟨s, []⟩
    rw [hlog] at hsent
    exact hnew sent (by simpa using hsent)

/-- Tables for the example below: nothing is served and every value is readable. -/
def sampleTables : Tables where
  served _ := false
  arityError _ _ _ := none
  help _ := none
  mergedListing text _ := text
  pqRefusalOnly method _ := .error ⟨-32601, outOfScopeMessage method⟩
  txNotFound _ := false
  readable _ := true

/-- A batch of one call in array form, with an object where the façade reads an id. -/
def smuggled : Bytes :=
  Text.utf8 "[[\"getblockcount\",\x7b\"method\":\"dumpprivkey\"\x7d]]".toList

/-- The call with a method in its parameter. -/
def smuggles : Option (List Raw) → Bool
  | some [.arr [.str m, .obj [(k, .str d)]]] =>
    decide (Raw.text m = some "getblockcount" ∧ Raw.text k = some "method" ∧
      Raw.text d = some "dumpprivkey") && (Raw.str m).isUtf8 && (Raw.obj [(k, .str d)]).isUtf8
  | _ => false

theorem batchOf_smuggled : ∃ m k d, batchOf smuggled = some [.arr [.str m, .obj [(k, .str d)]]] ∧
    (Raw.text m = some "getblockcount" ∧ Raw.text k = some "method" ∧
      Raw.text d = some "dumpprivkey") ∧ (Raw.str m).isUtf8 ∧ (Raw.obj [(k, .str d)]).isUtf8 := by
  have h : smuggles (batchOf smuggled) = true := by decide +kernel
  unfold smuggles at h
  split at h
  · rename_i m k d hbatch
    simp only [Bool.and_eq_true, decide_eq_true_eq] at h
    obtain ⟨⟨hnames, hmethod⟩, hid⟩ := h
    exact ⟨m, k, d, hbatch, hnames, hmethod, hid⟩
  · cases h

/-- The node is handed a call of `dumpprivkey`. -/
theorem not_passed_smuggled :
    ¬ ∀ sent ∈ (dispatch sampleTables ⟨false, false⟩ openDoor "/" smuggled ⟨(), []⟩).2.log,
      sampleTables.Passed sent := by
  intro h
  have hrelay : sampleTables.relay "getblockcount" none = some none := by
    have hclass : classify "getblockcount" = none := by decide +kernel
    simp [Tables.relay, hclass]
  obtain ⟨m, k, d, hbatch, ⟨hm, hk, hd⟩, hutf, hutf'⟩ := batchOf_smuggled
  have henv : Envelope.ofRaw (.arr [.str m, .obj [(k, .str d)]]) =
      some ⟨some (.str m), some (.obj [(k, .str d)]), none⟩ := by
    simp [Envelope.ofRaw, rawField, hutf, hutf']
  have hmem := (@hands_dispatch sampleTables ⟨false, false⟩ "/" _ _ _ _ _ _) rfl
    hbatch List.mem_cons_self henv hm hrelay ⟨(), []⟩
  have hcall := h _ hmem [(k, .str d)] List.mem_cons_self
  have hcalled : calledMethods [(k, .str d)] = ["dumpprivkey"] := by
    simp [calledMethods, Raw.lookup, Raw.str?, hk, hd]
  have hmember : "dumpprivkey" ∈ calledMethods [(k, .str d)] := by
    rw [hcalled]
    exact List.mem_cons_self
  exact absurd (hcall.notBlocked "dumpprivkey" hmember) (by decide +kernel)

end Yew.Facade
