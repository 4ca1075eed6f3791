import Mathlib.Data.Finset.Card
import Yew.Daemon.Sync
import Yew.Proto.Cosigns
import Yew.Signer.SignSet

/-!
# Signing a set act

An act travels as a transaction from member to member, and each adds the signatures its wallet holds
keys for.  The wallet then reports how many are still missing, from the number of signatures the act
carries.

The signer's half is `Yew.Signer.SignSet`.  The answer counts the signatures the act came with and
those this wallet added; whether the ones it came with are good is not looked at.

## Source

* `yewd/wallet/src/vaultrpc.rs`: `Member`, `SetView`, `set_view`, `Wallet::sign_act_in_place`,
  `Wallet::set_signact`
* `yewd/wallet/src/build.rs`: `Wallet::key_of_pubkey`
-/

namespace Yew.Daemon

open Tx SetAct Proto Proto.Attest

/-! ## The node's view of a set -/

/-- `Member`. -/
structure Member where
  key : Arr 33
  current : Bool

/-- `SetView`. -/
structure SetView where
  slashThreshold : Int
  isOpen : Bool
  admitKey : Arr 33
  current : Int
  members : List Member

/-- `set_view`: what the node says of a set, nothing where it does not know it. -/
abbrev SetViews := Arr 32 → Except RpcError (Option SetView)

/-- `set_view`, and the error of the callers that need the set. -/
def knownSet (view : SetViews) (setId : Arr 32) : Except RpcError SetView := do
  match ← view setId with
  | some s => return s
  | none => .error ⟨-8, "unknown set " ++ txidHex setId⟩

/-! ## Which signatures to add -/

section Plan

variable (holds : Arr 33 → Bool) (view : SetViews) (old : List (Arr 33))

/-- One member in the loop of `cosign`: a current one that the wallet holds and that has not signed
is added, until there are enough. -/
def cosignMember (enough : Int) (exclude : Option (Arr 33)) (add : List (Arr 33)) (m : Member) :
    List (Arr 33) :=
  if enough ≤ (old.length + add.length : Nat) then add
  else if !m.current || m.key ∈ old || m.key ∈ add || exclude = some m.key then add
  else if holds m.key then add ++ [m.key] else add

/-- `cosign` of `sign_act_in_place`: the keys to add, and how many signatures are missing. -/
def cosign (s : SetView) (add : List (Arr 33)) (start count : Int) (exclude : Option (Arr 33)) :
    List (Arr 33) × Int :=
  let add := s.members.foldl (cosignMember holds old (start + count) exclude) add
  (add, start + count - (old.length + add.length : Nat))

/-- What is to be added to an act, and what is missing then. -/
structure ActPlan where
  add : List (Arr 33)
  missing : Int
  required : Int

/-- The plan of a join, after the member's own signature. -/
def joinPlan (s : SetView) (memberKey : Arr 33) (add : List (Arr 33)) : ActPlan :=
  if s.isOpen then ⟨add, 0, 1⟩
  else if s.slashThreshold ≤ s.current then
    let (add, missing) := cosign holds old s add 1 s.slashThreshold (some memberKey)
    ⟨add, missing, 1 + s.slashThreshold⟩
  else
    let add := if old.length + add.length < 2 ∧ holds s.admitKey then add ++ [s.admitKey] else add
    ⟨add, if 2 ≤ old.length + add.length then 0 else 1, 2⟩

/-- The plan of an act that current members sign. -/
def memberPlan (s : SetView) (exclude : Option (Arr 33)) : ActPlan :=
  let (add, missing) := cosign holds old s [] 0 s.slashThreshold exclude
  ⟨add, missing, s.slashThreshold⟩

/-- The cases of `sign_act_in_place`, with the keys that have signed; nothing where a join has to wait
for the member. -/
def actPlan : Body → Except RpcError (Option ActPlan)
  | .create _ | .equivocation _ => return some ⟨[], 0, 0⟩
  | .heartbeat _ memberKey =>
    let add := if old.isEmpty ∧ holds memberKey then [memberKey] else []
    return some ⟨add, if old.isEmpty ∧ add.isEmpty then 1 else 0, 1⟩
  | .join setId memberKey _ _ =>
    if old.isEmpty ∧ ¬ holds memberKey then return none
    else do
      let s ← knownSet view setId
      return some (joinPlan holds old s memberKey (if old.isEmpty then [memberKey] else []))
  | .remove setId memberKey _ => do
    return some (memberPlan holds old (← knownSet view setId) (some memberKey))
  | .winddown setId => do return some (memberPlan holds old (← knownSet view setId) none)

end Plan

/-! ## Adding them -/

section Sign

variable (C : Crypto) (R : RecoverEcdsa) (book : KeyBook) (view : SetViews)
variable (request : ActSignRequest → Except RpcError ActSigs)

/-- `key_of_pubkey`. -/
def keyOfPubkey (pk : Arr 33) : Option KeyRef :=
  (book.byHash (C.hash160 pk.toList)).bind fun k ↦
    if k.pubkey = pk then some (.bip32 (UInt32.ofNat k.chain) (UInt32.ofNat k.index)) else none

/-- One signature of the signer's answer. -/
def readActSig (s : String) : Option (Arr 65) := (Hex.decode s).bind (Bytes.toArr? 65)

/-- The signatures the signer makes with the keys of the plan. -/
def requestSigs (tx : Transaction) (msg : Arr 32) (add : List (Arr 33)) :
    Except RpcError (List (Arr 65)) :=
  if add.isEmpty then return []
  else do
    let bytes ← tx.serialize.mapError fun e ↦ ⟨-32603, e.text⟩
    let sigs ← request ⟨Hex.encode bytes, add.filterMap (keyOfPubkey C book)⟩
    if sigs.msg ≠ Hex.encode msg.toList then
      .error ⟨-32603, "the signer signed another act message"⟩
    else match sigs.sigs.mapM readActSig with
      | some sigs => return sigs
      | none => .error ⟨-4, "signing failed"⟩

/-- What `sign_act_in_place` returns: the transaction and the act as it leaves them, and the counts. -/
structure ActSigned where
  tx : Transaction
  act : Act
  missing : Int
  required : Int
deriving DecidableEq

/-- `sign_act_in_place`, on the act in the output `ai`. -/
def signActInPlace (tx : Transaction) (ai : Nat) (a : Act) : Except RpcError ActSigned :=
  match tx.vin.head? with
  | none => .error ⟨-8, "an act transaction needs a transparent input " ++
      "(vin[0] is bound by the signatures)"⟩
  | some vin0 =>
    let msg := actMsg C (encodePayload a.body) vin0.prevout
    match a.sigs.mapM (recover R msg) with
    | none => .error ⟨-8, "an existing act signature does not recover (vin[0] changed?)"⟩
    | some old => do
      match ← actPlan (fun k ↦ (keyOfPubkey C book k).isSome) view old a.body with
      | none => return ⟨tx, a, 1, -1⟩
      | some plan => do
        let sigs ← requestSigs C book request tx msg plan.add
        let a := { a with sigs := a.sigs ++ sigs }
        let vout := tx.vout.modify ai fun o ↦ { o with scriptPubkey := encode a }
        return ⟨{ tx with vout }, a, max plan.missing 0, plan.required⟩

end Sign

/-! ## The rule of an act -/

namespace SetView

/-- A current member other than the one named. -/
def eligible (s : SetView) (exclude : Option (Arr 33)) (k : Arr 33) : Bool :=
  s.members.any (fun m ↦ m.current && m.key = k) && exclude ≠ some k

/-- The different keys of a list that may co-sign. -/
def cosigners (s : SetView) (exclude : Option (Arr 33)) (ks : List (Arr 33)) : Finset (Arr 33) :=
  (ks.filter (s.eligible exclude)).toFinset

theorem eligible_iff {s : SetView} {exclude : Option (Arr 33)} {k : Arr 33} :
    s.eligible exclude k ↔ (∃ m ∈ s.members, m.current ∧ m.key = k) ∧ exclude ≠ some k := by
  simp [eligible]

theorem cosigners_append (s : SetView) (exclude : Option (Arr 33)) {old new : List (Arr 33)}
    (hnodup : new.Nodup) (hnew : ∀ k ∈ new, s.eligible exclude k ∧ k ∉ old) :
    (s.cosigners exclude (old ++ new)).card = (s.cosigners exclude old).card + new.length := by
  have hfilter : new.filter (s.eligible exclude) = new :=
    List.filter_eq_self.mpr fun k hk ↦ (hnew k hk).1
  have hdisjoint : Disjoint (s.cosigners exclude old) new.toFinset := by
    rw [Finset.disjoint_left]
    intro k hold hk
    exact (hnew k (List.mem_toFinset.mp hk)).2
      (List.mem_of_mem_filter (List.mem_toFinset.mp hold))
  rw [cosigners, List.filter_append, hfilter, List.toFinset_append, ← cosigners,
    Finset.card_union_of_disjoint hdisjoint, List.toFinset_card_of_nodup hnodup]

/-- The keys behind the member's own in a join are enough. -/
def JoinComplete (s : SetView) (memberKey : Arr 33) (required : Int) (ks : List (Arr 33)) : Prop :=
  if s.isOpen then required = 1
  else if s.slashThreshold ≤ s.current then
    required = 1 + s.slashThreshold ∧ s.slashThreshold ≤ (s.cosigners (some memberKey) ks).card
  else required = 2 ∧ s.admitKey ≠ memberKey ∧ s.admitKey ∈ ks

/-- Those that a join came with count: as many as are needed are by different keys that may co-sign,
or the admission key, which is not the member's own, is among them. -/
def JoinSound (s : SetView) (memberKey : Arr 33) (ks : List (Arr 33)) : Prop :=
  s.isOpen ∨ if s.slashThreshold ≤ s.current then
      min (ks.length : Int) s.slashThreshold ≤ (s.cosigners (some memberKey) ks).card
    else s.admitKey ≠ memberKey ∧ (ks = [] ∨ s.admitKey ∈ ks)

end SetView

/-- The keys of an act's signatures are enough, and in the order that its rule asks for. -/
def ActComplete (view : SetViews) : Body → Int → List (Arr 33) → Prop
  | .create _, required, _ | .equivocation _, required, _ => required = 0
  | .heartbeat _ memberKey, required, ks => required = 1 ∧ ks.head? = some memberKey
  | .join setId memberKey _ _, required, ks =>
    ks.head? = some memberKey ∧
      ∃ s, view setId = .ok (some s) ∧ s.JoinComplete memberKey required ks.tail
  | .remove setId memberKey _, required, ks => ∃ s, view setId = .ok (some s) ∧
      required = s.slashThreshold ∧ s.slashThreshold ≤ (s.cosigners (some memberKey) ks).card
  | .winddown setId, required, ks => ∃ s, view setId = .ok (some s) ∧
      required = s.slashThreshold ∧ s.slashThreshold ≤ (s.cosigners none ks).card

/-- What the signatures that an act came with have to be for the count to be right: the member's own
is the first, and of the others as many as count are by different keys that the rule allows. -/
def ActSound (view : SetViews) : Body → List (Arr 33) → Prop
  | .create _, _ | .equivocation _, _ => True
  | .heartbeat _ memberKey, old => ∀ k ∈ old.head?, k = memberKey
  | .join setId memberKey _ _, old =>
    (∀ k ∈ old.head?, k = memberKey) ∧
      ∀ s, view setId = .ok (some s) → s.JoinSound memberKey old.tail
  | .remove setId memberKey _, old => ∀ s, view setId = .ok (some s) →
      min (old.length : Int) s.slashThreshold ≤ (s.cosigners (some memberKey) old).card
  | .winddown setId, old => ∀ s, view setId = .ok (some s) →
      min (old.length : Int) s.slashThreshold ≤ (s.cosigners none old).card

/-! ## The plan -/

section Plan

variable {holds : Arr 33 → Bool} {view : SetViews} {old : List (Arr 33)}

theorem cosignMember_cases (enough : Int) (exclude : Option (Arr 33)) (add : List (Arr 33))
    (m : Member) : cosignMember holds old enough exclude add m = add ∨
      cosignMember holds old enough exclude add m = add ++ [m.key] ∧
        (old.length + add.length : Nat) < enough ∧ (m.current ∧ exclude ≠ some m.key) ∧
        m.key ∉ old ∧ m.key ∉ add ∧ holds m.key := by
  unfold cosignMember
  split
  · exact .inl rfl
  rename_i hroom
  split
  · exact .inl rfl
  rename_i hnew
  split
  · rename_i hholds
    simp only [Bool.or_eq_true, Bool.not_eq_true', decide_eq_true_eq, not_or] at hnew
    obtain ⟨⟨⟨hcurrent, hold⟩, hadd⟩, hexclude⟩ := hnew
    exact .inr ⟨rfl, not_le.mp hroom, ⟨by simpa using hcurrent, hexclude⟩, hold, hadd, hholds⟩
  · exact .inl rfl

/-- What the loop over the members adds. -/
theorem foldl_cosignMember (enough : Int) (exclude : Option (Arr 33)) (ms : List Member) :
    ∀ add, ∃ new, ms.foldl (cosignMember holds old enough exclude) add = add ++ new ∧
      new.Nodup ∧ (∀ k ∈ new, ((∃ m ∈ ms, m.current ∧ m.key = k) ∧ exclude ≠ some k) ∧
        k ∉ old ∧ k ∉ add ∧ holds k) ∧
      (new ≠ [] → (old.length + (add ++ new).length : Nat) ≤ enough) := by
  induction ms with
  | nil => exact fun add ↦ ⟨[], by simp, .nil, nofun, fun h ↦ (h rfl).elim⟩
  | cons m ms ih =>
    intro add
    rw [List.foldl_cons]
    rcases cosignMember_cases enough exclude add m with h | ⟨h, hroom, hm, hold, hadd, hholds⟩
    · obtain ⟨new, heq, hnodup, hnew, hfew⟩ := ih add
      rw [h]
      refine ⟨new, heq, hnodup, fun k hk ↦ ?_, hfew⟩
      obtain ⟨⟨⟨m', hm', hk'⟩, hexclude⟩, hrest⟩ := hnew k hk
      exact ⟨⟨⟨m', List.mem_cons_of_mem _ hm', hk'⟩, hexclude⟩, hrest⟩
    · obtain ⟨new, heq, hnodup, hnew, hfew⟩ := ih (add ++ [m.key])
      rw [h, heq]
      refine ⟨m.key :: new, by simp, List.nodup_cons.mpr ⟨fun hmem ↦ ?_, hnodup⟩, ?_, fun _ ↦ ?_⟩
      · exact (hnew _ hmem).2.2.1 (List.mem_append_right _ (List.mem_singleton_self _))
      · intro k hk
        rcases List.mem_cons.mp hk with rfl | hk
        · exact ⟨⟨⟨m, List.mem_cons_self, hm.1, rfl⟩, hm.2⟩, hold, hadd, hholds⟩
        · obtain ⟨⟨⟨m', hm', hk'⟩, hexclude⟩, hold', hadd', hholds'⟩ := hnew k hk
          exact ⟨⟨⟨m', List.mem_cons_of_mem _ hm', hk'⟩, hexclude⟩, hold',
            fun hmem ↦ hadd' (List.mem_append_left _ hmem), hholds'⟩
      · by_cases hne : new = []
        · rw [hne, List.length_append, List.length_singleton, ← Nat.add_assoc]
          exact_mod_cast hroom
        · have hfew' := hfew hne
          rwa [List.append_assoc] at hfew'

/-- `cosign` adds different keys that may co-sign and have not signed, and never more than are
needed. -/
theorem cosign_spec (s : SetView) (add : List (Arr 33)) (start count : Int)
    (exclude : Option (Arr 33)) : ∃ new,
      cosign holds old s add start count exclude =
        (add ++ new, start + count - (old.length + (add ++ new).length : Nat)) ∧
      new.Nodup ∧ (∀ k ∈ new, s.eligible exclude k ∧ k ∉ old ∧ k ∉ add) ∧
      (∀ k ∈ new, holds k) ∧
      (new ≠ [] → (old.length + (add ++ new).length : Nat) ≤ start + count) := by
  obtain ⟨new, heq, hnodup, hnew, hfew⟩ :=
    @foldl_cosignMember holds old (start + count) exclude s.members add
  refine ⟨new, by rw [cosign, heq], hnodup, fun k hk ↦ ?_, fun k hk ↦ (hnew k hk).2.2.2, hfew⟩
  exact ⟨SetView.eligible_iff.mpr (hnew k hk).1, (hnew k hk).2.1, (hnew k hk).2.2.1⟩

/-- With as many keys as needed and no more, there are enough that may co-sign if and only if those
that were there before count. -/
theorem enough_iff (s : SetView) (exclude : Option (Arr 33)) {rest new : List (Arr 33)}
    {count : Int} (hnodup : new.Nodup) (hnew : ∀ k ∈ new, s.eligible exclude k ∧ k ∉ rest)
    (hall : count ≤ (rest.length + new.length : Nat))
    (hfew : new ≠ [] → (rest.length + new.length : Nat) ≤ count) :
    count ≤ (s.cosigners exclude (rest ++ new)).card ↔
      min (rest.length : Int) count ≤ (s.cosigners exclude rest).card := by
  rw [s.cosigners_append exclude hnodup hnew]
  by_cases hne : new = []
  · rw [hne] at hall ⊢
    rw [List.length_nil, Nat.add_zero] at hall ⊢
    rw [min_eq_right hall]
  · have hcount := le_antisymm (hfew hne) hall
    rw [← hcount, min_eq_left (by exact_mod_cast Nat.le_add_right _ _)]
    norm_cast
    exact Nat.add_le_add_iff_right

theorem knownSet_eq_ok {setId : Arr 32} {s : SetView} :
    knownSet view setId = .ok s ↔ view setId = .ok (some s) := by
  unfold knownSet
  rw [Result.bind_eq_ok]
  constructor
  · rintro ⟨s', h, h'⟩
    cases s' with
    | none => cases h'
    | some s' =>
      cases h'
      exact h
  · exact fun h ↦ ⟨_, h, rfl⟩

theorem memberPlan_spec (s : SetView) (exclude : Option (Arr 33)) :
    let plan := memberPlan holds old s exclude
    (∀ k ∈ plan.add, holds k) ∧ plan.required = s.slashThreshold ∧ (plan.missing ≤ 0 →
      (s.slashThreshold ≤ (s.cosigners exclude (old ++ plan.add)).card ↔
        min (old.length : Int) s.slashThreshold ≤ (s.cosigners exclude old).card)) := by
  obtain ⟨new, heq, hnodup, hnew, hholds, hfew⟩ :=
    @cosign_spec holds old s [] 0 s.slashThreshold exclude
  unfold memberPlan
  rw [heq, List.nil_append] at *
  rw [Int.zero_add] at hfew ⊢
  refine ⟨hholds, rfl, fun hmissing ↦ ?_⟩
  exact enough_iff s exclude hnodup (fun k hk ↦ ⟨(hnew k hk).1, (hnew k hk).2.1⟩)
    (sub_nonpos.mp hmissing) hfew

/-- A plan for a join that starts with these keys: it adds keys that the wallet holds, and where
nothing is missing then, the keys behind the first are enough if and only if those that were there
count. -/
def ActPlan.Joins (plan : ActPlan) (holds : Arr 33 → Bool) (old : List (Arr 33)) (s : SetView)
    (memberKey first : Arr 33) (rest : List (Arr 33)) : Prop :=
  (∀ k ∈ plan.add, holds k) ∧ (plan.missing ≤ 0 →
    ∃ new, old ++ plan.add = first :: (rest ++ new) ∧
      (s.JoinComplete memberKey plan.required (rest ++ new) ↔ s.JoinSound memberKey rest))

section Join

variable {s : SetView} {add : List (Arr 33)} {first : Arr 33} {rest : List (Arr 33)}

theorem joins_cosigned (memberKey : Arr 33) (hopen : s.isOpen = false)
    (hcosigned : s.slashThreshold ≤ s.current) (hadd : ∀ k ∈ add, holds k)
    (hfront : old ++ add = first :: rest) :
    (joinPlan holds old s memberKey add).Joins holds old s memberKey first rest := by
  obtain ⟨new, heq, hnodup, hnew, hholds, hfew⟩ :=
    @cosign_spec holds old s add 1 s.slashThreshold (some memberKey)
  have hnot : ∀ k ∈ new, s.eligible (some memberKey) k ∧ k ∉ rest := by
    intro k hk
    refine ⟨(hnew k hk).1, fun hrest ↦ ?_⟩
    have hmem : k ∈ old ++ add := hfront ▸ List.mem_cons_of_mem _ hrest
    exact (List.mem_append.mp hmem).elim (hnew k hk).2.1 (hnew k hk).2.2
  have hlen : old.length + (add ++ new).length = rest.length + new.length + 1 := by
    rw [List.length_append, ← Nat.add_assoc, ← List.length_append, hfront, List.length_cons]
    exact Nat.add_right_comm _ _ _
  rw [hlen] at heq hfew
  rw [joinPlan, if_neg (by simp [hopen]), if_pos hcosigned, heq]
  refine ⟨fun k hk ↦ ?_, fun hmissing ↦ ⟨new, ?_, ?_⟩⟩
  · exact (List.mem_append.mp hk).elim (hadd k) (hholds k)
  · show old ++ (add ++ new) = _
    rw [← List.append_assoc, hfront, List.cons_append]
  · have hall : s.slashThreshold ≤ (rest.length + new.length : Nat) := by
      have : 1 + s.slashThreshold - (rest.length + new.length + 1 : Nat) ≤ 0 := hmissing
      omega
    have key := enough_iff s (some memberKey) hnodup hnot hall fun hne ↦ by
      have := hfew hne
      omega
    simpa [SetView.JoinComplete, SetView.JoinSound, hopen, hcosigned] using key

theorem joins_admit (memberKey : Arr 33) (hopen : s.isOpen = false)
    (hfew : ¬ s.slashThreshold ≤ s.current) (hadd : ∀ k ∈ add, holds k)
    (hfront : old ++ add = first :: rest) :
    (joinPlan holds old s memberKey add).Joins holds old s memberKey first rest := by
  have hlen : old.length + add.length = rest.length + 1 := by
    rw [← List.length_append, hfront, List.length_cons]
  rw [joinPlan, if_neg (by simp [hopen]), if_neg hfew, hlen]
  unfold ActPlan.Joins SetView.JoinComplete SetView.JoinSound
  simp only [hopen, hfew, Bool.false_eq_true, if_false, false_or, true_and]
  by_cases hrest : rest = []
  · by_cases hholds : holds s.admitKey
    · rw [if_pos ⟨by simp [hrest], hholds⟩]
      refine ⟨fun k hk ↦ ?_, fun _ ↦ ⟨[s.admitKey], ?_, by simp [hrest]⟩⟩
      · rcases List.mem_append.mp hk with hk | hk
        · exact hadd k hk
        · rwa [List.mem_singleton.mp hk]
      · rw [← List.append_assoc, hfront, List.cons_append]
    · rw [if_neg fun h ↦ hholds h.2, hlen, hrest]
      exact ⟨hadd, fun hmissing ↦ absurd hmissing (by simp)⟩
  · have hpos := List.length_pos_iff.mpr hrest
    rw [if_neg fun h ↦ absurd h.1 (by omega)]
    exact ⟨hadd, fun _ ↦ ⟨[], by simpa using hfront, by simp [hrest]⟩⟩

/-- The plan of a join, where the member's signature is there or is the first to be added. -/
theorem joins_joinPlan (s : SetView) (memberKey : Arr 33) (hadd : ∀ k ∈ add, holds k)
    (hfront : old ++ add = first :: rest) :
    (joinPlan holds old s memberKey add).Joins holds old s memberKey first rest := by
  cases hopen : s.isOpen with
  | false =>
    by_cases hcosigned : s.slashThreshold ≤ s.current
    · exact joins_cosigned memberKey hopen hcosigned hadd hfront
    · exact joins_admit memberKey hopen hcosigned hadd hfront
  | true =>
    rw [joinPlan, if_pos hopen]
    exact ⟨hadd, fun _ ↦ ⟨[], by simpa using hfront,
      by simp [SetView.JoinComplete, SetView.JoinSound, hopen]⟩⟩

end Join

/-- **The plan of an act.**  It adds keys that the wallet holds, and where nothing is missing then, the
act is complete if and only if the signatures it came with count. -/
theorem actPlan_spec {body : Body} {plan : ActPlan}
    (h : actPlan holds view old body = .ok (some plan)) :
    (∀ k ∈ plan.add, holds k) ∧ (plan.missing ≤ 0 →
      (ActComplete view body plan.required (old ++ plan.add) ↔ ActSound view body old)) := by
  cases body with
  | create c | equivocation e =>
    cases h
    exact ⟨nofun, fun _ ↦ by simp [ActComplete, ActSound]⟩
  | heartbeat setId memberKey =>
    cases h
    cases old with
    | cons k old => exact ⟨by simp, fun _ ↦ by simp [ActComplete, ActSound]⟩
    | nil =>
      by_cases hholds : holds memberKey
      · simp [hholds, ActComplete, ActSound]
      · simp [hholds]
  | join setId memberKey locktime vout =>
    dsimp only [actPlan] at h
    split at h
    · cases h
    rename_i hfirst
    obtain ⟨s, hs, h⟩ := Result.bind_eq_ok.mp h
    cases h
    have hview := knownSet_eq_ok.mp hs
    cases old with
    | nil =>
      have hholds : holds memberKey := by simpa using hfirst
      obtain ⟨hadd, hiff⟩ : (joinPlan holds [] s memberKey [memberKey]).Joins holds [] s memberKey
        memberKey [] := joins_joinPlan s memberKey (by simpa using hholds) rfl
      refine ⟨hadd, fun hmissing ↦ ?_⟩
      obtain ⟨new, hnew, hiff⟩ := hiff hmissing
      show ActComplete _ _ _ ([] ++ (joinPlan holds [] s memberKey [memberKey]).add) ↔ _
      rw [hnew]
      simpa [ActComplete, ActSound, hview] using hiff
    | cons k old =>
      obtain ⟨hadd, hiff⟩ : (joinPlan holds (k :: old) s memberKey []).Joins holds (k :: old) s
        memberKey k old := joins_joinPlan s memberKey nofun (List.append_nil _)
      refine ⟨hadd, fun hmissing ↦ ?_⟩
      obtain ⟨new, hnew, hiff⟩ := hiff hmissing
      show ActComplete _ _ _ (k :: old ++ (joinPlan holds (k :: old) s memberKey []).add) ↔ _
      rw [hnew]
      simpa [ActComplete, ActSound, hview] using fun _ ↦ hiff
  | remove setId memberKey burn =>
    obtain ⟨s, hs, h⟩ := Result.bind_eq_ok.mp h
    cases h
    obtain ⟨hadd, hrequired, hiff⟩ := memberPlan_spec s (some memberKey)
    refine ⟨hadd, fun hmissing ↦ ?_⟩
    simpa [ActComplete, ActSound, knownSet_eq_ok.mp hs, hrequired] using hiff hmissing
  | winddown setId =>
    obtain ⟨s, hs, h⟩ := Result.bind_eq_ok.mp h
    cases h
    obtain ⟨hadd, hrequired, hiff⟩ := memberPlan_spec s none
    refine ⟨hadd, fun hmissing ↦ ?_⟩
    simpa [ActComplete, ActSound, knownSet_eq_ok.mp hs, hrequired] using hiff hmissing

end Plan

/-! ## The signer's side -/

/-- A signer for the wallet: it answers with one signature for each key, over the message it names;
the keys of the book are its own; and a signature recovers to the key that made it. -/
structure ActSigner (C : Crypto) (R : RecoverEcdsa) (book : KeyBook)
    (secretOf : KeyRef → Option SecretKey) (request : ActSignRequest → Except RpcError ActSigs) :
    Prop where
  answers : ∀ r s, request r = .ok s → ∃ (secrets : List SecretKey) (msg : Arr 32),
    List.Forall₂ (fun k sk ↦ secretOf k = some sk) r.keys secrets ∧
    s.msg = Hex.encode msg.toList ∧
    s.sigs = secrets.map fun sk ↦ Hex.encode (C.signRecoverable sk msg).toList
  paired : ∀ pk k sk, keyOfPubkey C book pk = some k → secretOf k = some sk → C.publicKey sk = pk
  recovers : ∀ sk msg, recover R msg (C.signRecoverable sk msg) = some (C.publicKey sk)

/-- The secret that the signer's store has for a reference. -/
def secretOf (C : Crypto) (s : Signer.St) (k : KeyRef) : Option SecretKey :=
  match (Signer.derive C k s).1 with
  | .ok (some (.t sk _)) => some sk
  | _ => none

theorem secretOf_of_memberSecret {C : Crypto} {s : Signer.St} {why : String} {k : KeyRef}
    {sk : SecretKey} (h : Signer.memberSecret C why k s = (.ok sk, s)) :
    secretOf C s k = some sk := by
  obtain ⟨d, hd, h⟩ := (Signer.quiet_derive C k).bind_eq_ok h
  unfold secretOf
  rw [hd]
  split at h
  · cases h
    rfl
  · cases h

/-- The signer of this repository answers so, from whatever state. -/
theorem answers_signAct (C : Crypto) (s : Signer.St) {r : ActSignRequest} {x : ActSigs}
    {s' : Signer.St} (h : Signer.signAct C r s = (.ok x, s')) :
    ∃ (secrets : List SecretKey) (msg : Arr 32),
      List.Forall₂ (fun k sk ↦ secretOf C s k = some sk) r.keys secrets ∧
      x.msg = Hex.encode msg.toList ∧
      x.sigs = secrets.map fun sk ↦ Hex.encode (C.signRecoverable sk msg).toList := by
  obtain ⟨tx, -, h⟩ := (Signer.quiet_parseRequestTx C r.tx).bind_eq_ok h
  obtain ⟨out, -, h⟩ := (Signer.quiet_orElse _ _ _).bind_eq_ok h
  obtain ⟨a, -, h⟩ := (Signer.quiet_orRefuse _ _ _).bind_eq_ok h
  obtain ⟨vin0, -, h⟩ := (Signer.quiet_orElse _ _ _).bind_eq_ok h
  obtain ⟨secrets, hsecrets, h⟩ :=
    (Proc.Quiet.forEach (Signer.quiet_memberSecret C _) _).bind_eq_ok h
  cases h
  refine ⟨secrets, _, ?_, rfl, rfl⟩
  exact (Proc.Quiet.forEach_eq_ok (Signer.quiet_memberSecret C _) hsecrets).imp
    fun _ _ ↦ secretOf_of_memberSecret

/-! ## The signatures an act ends with -/

/-- The keys that an act's signatures recover to, over its message in this transaction. -/
def SignedBy (C : Crypto) (R : RecoverEcdsa) (tx : Transaction) (a : Act) (keys : List (Arr 33)) :
    Prop :=
  ∃ vin0, tx.vin.head? = some vin0 ∧ List.Forall₂
    (fun s k ↦ recover R (actMsg C (encodePayload a.body) vin0.prevout) s = some k) a.sigs keys

theorem SignedBy.unique {C : Crypto} {R : RecoverEcdsa} {tx : Transaction} {a : Act}
    {keys keys' : List (Arr 33)} (h : SignedBy C R tx a keys) (h' : SignedBy C R tx a keys') :
    keys = keys' := by
  obtain ⟨vin0, hvin, h⟩ := h
  obtain ⟨vin0', hvin', h'⟩ := h'
  obtain rfl := Option.some.inj (hvin.symm.trans hvin')
  exact List.right_unique_forall₂' (fun _ _ _ hb hc ↦ Option.some.inj (hb.symm.trans hc)) h h'

section Sign

variable {C : Crypto} {R : RecoverEcdsa} {book : KeyBook} {view : SetViews}
variable {secrets : KeyRef → Option SecretKey}
variable {request : ActSignRequest → Except RpcError ActSigs}

theorem mapM_eq_some_iff {α β : Type} {f : α → Option β} {as : List α} {bs : List β} :
    as.mapM f = some bs ↔ List.Forall₂ (fun a b ↦ f a = some b) as bs := by
  induction as generalizing bs with
  | nil => simp [eq_comm]
  | cons a as ih =>
    rw [List.mapM_cons, List.forall₂_cons_left_iff]
    simp only [bind, Option.bind_eq_some_iff, pure, Option.some.injEq, ih]
    constructor
    · rintro ⟨b, hb, bs', hbs, rfl⟩
      exact ⟨b, bs', hb, hbs, rfl⟩
    · rintro ⟨b, bs', hb, hbs, rfl⟩
      exact ⟨b, hb, bs', hbs, rfl⟩

theorem forall₂_filterMap {α β γ : Type} {f : α → Option β} {P : β → γ → Prop} {as : List α}
    {cs : List γ} (hsome : ∀ a ∈ as, (f a).isSome) (h : List.Forall₂ P (as.filterMap f) cs) :
    List.Forall₂ (fun a c ↦ ∃ b, f a = some b ∧ P b c) as cs := by
  induction as generalizing cs with
  | nil =>
    cases h
    exact .nil
  | cons a as ih =>
    obtain ⟨b, hb⟩ := Option.isSome_iff_exists.mp (hsome a List.mem_cons_self)
    rw [List.filterMap_cons_some hb] at h
    cases h with
    | cons hbc hrest =>
      exact .cons ⟨b, hb, hbc⟩ (ih (fun a' ha' ↦ hsome a' (List.mem_cons_of_mem _ ha')) hrest)

/-- What the signer adds recovers to the keys of the plan. -/
theorem requestSigs_spec (hsigner : ActSigner C R book secrets request) {tx : Transaction}
    {msg : Arr 32} {add : List (Arr 33)} {sigs : List (Arr 65)}
    (hheld : ∀ k ∈ add, (keyOfPubkey C book k).isSome)
    (h : requestSigs C book request tx msg add = .ok sigs) :
    List.Forall₂ (fun s k ↦ recover R msg s = some k) sigs add := by
  unfold requestSigs at h
  split at h
  · rename_i hempty
    cases h
    rw [List.isEmpty_iff.mp hempty]
    exact .nil
  obtain ⟨bytes, -, h⟩ := Result.bind_eq_ok.mp h
  obtain ⟨x, hx, h⟩ := Result.bind_eq_ok.mp h
  obtain ⟨sks, msg', hsecrets, hmsg', hsigs⟩ := hsigner.answers _ _ hx
  obtain ⟨hmsg, hsigs'⟩ := Result.guard_eq_ok.mp h
  rw [not_not, hmsg'] at hmsg
  obtain rfl : msg' = msg := Subtype.ext (Hex.encode_injective hmsg)
  have hread : x.sigs.mapM readActSig = some (sks.map fun sk ↦ C.signRecoverable sk msg') := by
    rw [hsigs, mapM_eq_some_iff, List.forall₂_map_left_iff, List.forall₂_map_right_iff,
      List.forall₂_same]
    intro sk _
    rw [readActSig, Hex.decode_encode, Option.bind_some, Bytes.toArr?_toList]
  rw [hread] at hsigs'
  cases hsigs'
  rw [List.forall₂_map_left_iff]
  apply List.Forall₂.flip
  apply (forall₂_filterMap hheld hsecrets).imp
  rintro k sk ⟨ref, href, hsk⟩
  show recover R msg' (C.signRecoverable sk msg') = some k
  rw [hsigner.recovers, hsigner.paired k ref sk href hsk]

/-- What a call did that reports nothing missing. -/
theorem signActInPlace_eq_ok {tx : Transaction} {ai : Nat} {a : Act} {x : ActSigned}
    (h : signActInPlace C R book view request tx ai a = .ok x) (hmissing : x.missing = 0) :
    ∃ vin0 old plan sigs, tx.vin.head? = some vin0 ∧
      List.Forall₂ (fun s k ↦ recover R (actMsg C (encodePayload a.body) vin0.prevout) s = some k)
        a.sigs old ∧
      actPlan (fun k ↦ (keyOfPubkey C book k).isSome) view old a.body = .ok (some plan) ∧
      requestSigs C book request tx (actMsg C (encodePayload a.body) vin0.prevout) plan.add =
        .ok sigs ∧
      plan.missing ≤ 0 ∧ x.act = { a with sigs := a.sigs ++ sigs } ∧ x.required = plan.required ∧
      x.tx = { tx with
        vout := tx.vout.modify ai fun o ↦ { o with scriptPubkey := encode x.act } } := by
  unfold signActInPlace at h
  split at h
  · cases h
  rename_i vin0 hvin
  dsimp only at h
  split at h
  · cases h
  rename_i old hold
  obtain ⟨plan, hplan, h⟩ := Result.bind_eq_ok.mp h
  cases plan with
  | none =>
    cases h
    cases hmissing
  | some plan =>
    obtain ⟨sigs, hsigs, h⟩ := Result.bind_eq_ok.mp h
    cases h
    exact ⟨vin0, old, plan, sigs, hvin, mapM_eq_some_iff.mp hold, hplan, hsigs,
      max_eq_right_iff.mp hmissing, rfl, rfl, rfl⟩

/-- **Acts that are reported complete.**  A call that reports nothing missing wrote the act it
returns, and the act is complete if and only if the signatures it came with count: the first is the
member's own where the rule asks for it, and of the others as many as are needed are by different keys
that the rule allows. -/
theorem act_complete_iff (C : Crypto) (R : RecoverEcdsa) (book : KeyBook) (view : SetViews)
    {secrets : KeyRef → Option SecretKey} {request : ActSignRequest → Except RpcError ActSigs}
    (hsigner : ActSigner C R book secrets request) {tx : Transaction} {ai : Nat} {a : Act}
    {x : ActSigned} (h : signActInPlace C R book view request tx ai a = .ok x)
    (hmissing : x.missing = 0) :
    x.tx.vout = tx.vout.modify ai (fun o ↦ { o with scriptPubkey := encode x.act }) ∧
    ((∃ keys, SignedBy C R x.tx x.act keys ∧ ActComplete view x.act.body x.required keys) ↔
      ∃ old, SignedBy C R tx a old ∧ ActSound view a.body old) := by
  obtain ⟨vin0, old, plan, sigs, hvin, hold, hplan, hsigs, hmissing', hact, hrequired, htx⟩ :=
    signActInPlace_eq_ok h hmissing
  obtain ⟨hheld, hiff⟩ := actPlan_spec hplan
  have hnew := requestSigs_spec hsigner hheld hsigs
  have hall : SignedBy C R x.tx x.act (old ++ plan.add) := by
    refine ⟨vin0, by rw [htx]; exact hvin, ?_⟩
    rw [hact]
    exact List.rel_append hold hnew
  have hbody : x.act.body = a.body := by rw [hact]
  refine ⟨by rw [htx], ?_⟩
  rw [hbody, hrequired]
  constructor
  · rintro ⟨keys, hkeys, hcomplete⟩
    rw [hkeys.unique hall] at hcomplete
    exact ⟨old, ⟨vin0, hvin, hold⟩, (hiff hmissing').mp hcomplete⟩
  · rintro ⟨old', hold', hsound⟩
    rw [hold'.unique ⟨vin0, hvin, hold⟩] at hsound
    exact ⟨_, hall, (hiff hmissing').mpr hsound⟩

end Sign

/-! ### Two keys -/

/-- A key and a signature by it. -/
def byteKey (b : UInt8) : Arr 33 := List.Vector.replicate 33 b

@[inherit_doc byteKey]
def byteSig (b : UInt8) : Arr 65 := 31 ::ᵥ List.Vector.replicate 64 b

/-- The key of the wallet, its secret, and a signature by it. -/
def soleKey : Arr 33 := byteKey 2

@[inherit_doc soleKey]
def soleSecret : SecretKey := .one

@[inherit_doc soleKey]
def soleSig : Arr 65 := byteSig 2

/-- A curve on which a signature shows its key. -/
def soleCurve : RecoverEcdsa := fun _ sig _ ↦ some (byteKey (sig.headD 0))

/-- Cryptography with only the wallet's key. -/
def soleCrypto : Crypto :=
  { Crypto.blank with publicKey := fun _ ↦ soleKey, signRecoverable := fun _ _ ↦ soleSig }

/-- The book of a wallet that holds it. -/
def soleBook : KeyBook := KeyBook.empty.push ⟨0, 0, soleKey, List.Vector.replicate 20 0⟩

/-- Its signer. -/
def soleSigner (r : ActSignRequest) : Except RpcError ActSigs :=
  .ok ⟨"", Hex.encode (List.replicate 32 0), r.keys.map fun _ ↦ Hex.encode soleSig.toList⟩

/-- A set of one other member, which alone decides. -/
def otherSet : SetViews := fun _ ↦
  .ok (some ⟨1, false, byteKey 3, 1, [⟨byteKey 3, true⟩]⟩)

/-- A set of two members, which decide together. -/
def pairSet : SetViews := fun _ ↦
  .ok (some ⟨2, false, byteKey 3, 2, [⟨byteKey 3, true⟩, ⟨soleKey, true⟩]⟩)

/-- A transaction with an act in its first output. -/
def actTx (a : Act) : Transaction :=
  ⟨txHeaderV4, saplingVersionGroupId, [⟨⟨List.Vector.replicate 32 1, 0⟩, [], sequenceFinal⟩],
    [⟨0, encode a⟩], 0, 0, .empty⟩

/-- A winddown that the other member has signed. -/
def halfAct : Act := ⟨.winddown (List.Vector.replicate 32 4), [byteSig 3]⟩

theorem actSigner_sole :
    ActSigner soleCrypto soleCurve soleBook (fun _ ↦ some soleSecret) soleSigner := by
  refine ⟨fun r s hs ↦ ?_, fun pk k sk hk _ ↦ ?_, fun _ _ ↦ rfl⟩
  · cases hs
    refine ⟨r.keys.map fun _ ↦ soleSecret, List.Vector.replicate 32 0, ?_, rfl, ?_⟩
    · rw [List.forall₂_map_right_iff, List.forall₂_same]
      exact fun _ _ ↦ rfl
    · rw [List.map_map]
      rfl
  · obtain ⟨t, ht, hk⟩ := Option.bind_eq_some_iff.mp hk
    have hsole : t = ⟨0, 0, soleKey, List.Vector.replicate 20 0⟩ := by
      rw [soleBook, KeyBook.byHash, KeyBook.push, OrdMap.get?_insert] at ht
      exact (Option.some.inj (ht.symm.trans (if_pos rfl)))
    rw [hsole] at hk
    exact (Option.ite_none_right_eq_some.mp hk).1

/-- The wallet signs the winddown that the other member has signed, and it is complete. -/
theorem act_complete_winddown : ∃ x keys,
    signActInPlace soleCrypto soleCurve soleBook pairSet soleSigner (actTx halfAct) 0
      halfAct = .ok x ∧
    SignedBy soleCrypto soleCurve x.tx x.act keys ∧
      ActComplete pairSet x.act.body x.required keys := by
  have hrun : signActInPlace soleCrypto soleCurve soleBook pairSet soleSigner
      (actTx halfAct) 0 halfAct = .ok ⟨actTx ⟨halfAct.body, [byteSig 3, soleSig]⟩,
        ⟨halfAct.body, [byteSig 3, soleSig]⟩, 0, 2⟩ := by
    decide +kernel
  have hold : SignedBy soleCrypto soleCurve (actTx halfAct) halfAct [byteKey 3] :=
    ⟨_, rfl, .cons rfl .nil⟩
  have hsound : ActSound pairSet halfAct.body [byteKey 3] := by
    rintro s ⟨⟩
    decide
  obtain ⟨keys, hkeys⟩ := (act_complete_iff soleCrypto soleCurve soleBook pairSet
    actSigner_sole hrun rfl).2.mpr ⟨_, hold, hsound⟩
  exact ⟨_, keys, hrun, hkeys⟩

/-- A winddown that a key outside the set signed. -/
def strangerAct : Act := ⟨.winddown (List.Vector.replicate 32 4), [soleSig]⟩

/-- It is reported complete. -/
theorem not_act_complete : ∃ x,
    signActInPlace soleCrypto soleCurve .empty otherSet soleSigner (actTx strangerAct) 0
      strangerAct = .ok x ∧ x.missing = 0 ∧ x.required = 1 ∧
    ¬ ∃ keys, SignedBy soleCrypto soleCurve x.tx x.act keys ∧
      ActComplete otherSet x.act.body x.required keys := by
  have hrun : signActInPlace soleCrypto soleCurve .empty otherSet soleSigner (actTx strangerAct) 0
      strangerAct = .ok ⟨actTx strangerAct, strangerAct, 0, 1⟩ := by
    decide +kernel
  refine ⟨_, hrun, rfl, rfl, ?_⟩
  rintro ⟨keys, hkeys, s, hs, -, hcount⟩
  have hsole : SignedBy soleCrypto soleCurve (actTx strangerAct) strangerAct [soleKey] :=
    ⟨_, rfl, .cons rfl .nil⟩
  cases hs
  rw [hkeys.unique hsole] at hcount
  exact absurd hcount (by decide)

end Yew.Daemon
