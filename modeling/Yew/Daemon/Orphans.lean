import Yew.Daemon.Chain
import Yew.Daemon.SyncFrame
import Yew.Util.Trace

/-!
# Confirmations that stay on the chain

A wallet transaction with a block was placed there by a sync.  The rows of a wallet hang together:
every block named in them is an ancestor of the tip, so a wallet whose tip is the node's best block
names only blocks of the node's chain.  A sync that stops after it placed a transaction of the
next block, and before that block became the tip, breaks this.

The procedure is `sync` of `yewd/wallet/src/lib.rs`, and a run is any list of its calls against any
chains, each ending where the node or the store makes it end.
-/

namespace Yew.Daemon

open Tx Pq Proto Proc

/-! ## Rows that hang together -/

/-- The wallet's blocks: the window is sorted and ends in the tip, and every block it names, in
the window or in a row, lies below the tip; a row's block holds its transaction. -/
structure Wallet.Sound (L : Ledger) (w : Wallet) : Prop where
  tip : w.tip = w.recent.getLast?
  sorted : w.recent.Pairwise fun a b ↦ a.height < b.height
  recent : ∀ r ∈ w.recent, L.height r.hash = r.height ∧
    ∃ t, w.tip = some t ∧ L.Below t r.height r.hash
  rows : ∀ txid h x, w.placed txid = some (h, x) →
    (∃ t, w.tip = some t ∧ L.Below t h x) ∧ ∃ nt ∈ (L.body x).txs, nt.txid = txid

namespace Wallet.Sound

variable {L : Ledger} {env : Env} {w w' : Wallet}

theorem loosen (h : w.Sound L) (hw : Loosens env w w') : w'.Sound L where
  tip := by rw [hw.tip, hw.recent, h.tip]
  sorted := by rw [hw.recent]; exact h.sorted
  recent := by rw [hw.recent, hw.tip]; exact h.recent
  rows txid ht x hx := by
    rcases hw.placed txid with hp | hp
    · rw [hw.tip]
      exact h.rows txid ht x (hp ▸ hx)
    · rw [hp] at hx
      cases hx

theorem tip_mem (h : w.Sound L) {t : Tip} (ht : w.tip = some t) : t ∈ w.recent :=
  List.mem_of_getLast? (h.tip ▸ ht)

/-- Reading the block on top of the tip to its end. -/
theorem advance {height : Nat} {b : Block} (h : w.Sound L) (hw : Reads env height b w w')
    (hbody : L.body b.hash = b) (hheight : L.height b.hash = height)
    (hnext : ∀ t, w.tip = some t → height = t.height + 1 ∧ b.prev = t.hash) :
    (w'.advance ⟨height, b.hash⟩).Sound L := by
  have hbelow {h₁ : Nat} {x : String} (hx : ∃ t, w.tip = some t ∧ L.Below t h₁ x) :
      L.Below ⟨height, b.hash⟩ h₁ x := by
    obtain ⟨t, ht, hb⟩ := hx
    obtain ⟨hh, hprev⟩ := hnext t ht
    rw [hh]
    exact hb.step (by rw [hbody, hprev])
  refine ⟨(Wallet.getLast?_advance _ _).symm, Wallet.sorted_advance ?_ fun r hr ↦ ?_,
    fun r hr ↦ ?_, fun txid h₁ x hx ↦ ?_⟩
  · rw [hw.recent]
    exact h.sorted
  · rw [hw.recent] at hr
    obtain ⟨t, ht, hb⟩ := (h.recent r hr).2
    have := (hnext t ht).1
    have := hb.1
    dsimp only
    omega
  · rcases Wallet.mem_advance hr with hr | rfl
    · rw [hw.recent] at hr
      exact ⟨(h.recent r hr).1, _, rfl, hbelow (h.recent r hr).2⟩
    · exact ⟨hheight, _, rfl, Ledger.below_self _⟩
  · have hx' : w'.placed txid = some (h₁, x) := hx
    rcases hw.placed txid with hp | ⟨hp, ht⟩
    · obtain ⟨hb, hin⟩ := h.rows txid h₁ x (hp ▸ hx')
      exact ⟨⟨_, rfl, hbelow hb⟩, hin⟩
    · obtain ⟨rfl, rfl⟩ : height = h₁ ∧ b.hash = x := by
        rw [hp] at hx'
        simpa using hx'
      exact ⟨⟨_, rfl, Ledger.below_self _⟩, hbody.symm ▸ ht⟩

end Wallet.Sound

/-! ## Rewinding -/

theorem rewind_placed (w : Wallet) (fork : Option Nat) (txid : String) :
    (w.rewind fork).placed txid =
      (w.placed txid).filter fun p ↦ fork.any fun f ↦ p.1 ≤ f := by
  have hkeep (b : BlockRef) : (fork.any fun f ↦ b.height ≤ f) = !aboveFork fork b := by
    cases fork with
    | none => rfl
    | some f =>
      simp only [Option.any_some, aboveFork]
      by_cases h : b.height ≤ f
      · simp [h, Nat.not_lt.mpr h]
      · simp [h, Nat.not_le.mp h]
  simp only [Wallet.rewind, Wallet.placed, Wallet.blockOf, OrdMap.get?_map, OrdMap.get?_filter]
  cases ht : w.wtx.get? txid with
  | none => simp
  | some t =>
    cases hb : t.block with
    | none => simp [hb]
    | some b =>
      by_cases ha : aboveFork fork b = true
      · by_cases hp : (w.parsed.get? txid).any (fun p ↦ p.coinbase) = true
        · simp [hb, ha, hp, hkeep, Option.filter_some]
        · simp [hb, ha, hp, hkeep, Option.filter_some]
      · simp [hb, ha, hkeep, Option.filter_some]

theorem getLast?_filter_le {ts : List Tip} {r : Tip}
    (hs : ts.Pairwise fun a b ↦ a.height < b.height) (hr : r ∈ ts) :
    (ts.filter fun t ↦ t.height ≤ r.height).getLast? = some r := by
  obtain ⟨as, bs, rfl⟩ := List.append_of_mem hr
  obtain ⟨-, hbs, -⟩ := List.pairwise_append.mp hs
  have hbs' : bs.filter (fun t ↦ decide (t.height ≤ r.height)) = [] := by
    refine List.filter_eq_nil_iff.mpr fun t ht ↦ ?_
    have := (List.pairwise_cons.mp hbs).1 t ht
    simpa using this
  rw [List.filter_append, List.filter_cons_of_pos (by simp), hbs']
  simp

namespace Wallet.Sound

variable {L : Ledger} {w : Wallet}

theorem rewind_some {r : Tip} (h : w.Sound L) (hr : r ∈ w.recent) :
    (w.rewind (some r.height)).Sound L ∧ (w.rewind (some r.height)).tip = some r := by
  obtain ⟨t, ht, hbr⟩ := (h.recent r hr).2
  have htip : (w.rewind (some r.height)).tip = some r := getLast?_filter_le h.sorted hr
  refine ⟨⟨rfl, ?_, fun s hs ↦ ?_, fun txid h₁ x hx ↦ ?_⟩, htip⟩
  · exact h.sorted.sublist (List.filter_sublist)
  · obtain ⟨hs, hle⟩ := List.mem_filter.mp hs
    obtain ⟨hheight, t', ht', hbs⟩ := h.recent s hs
    obtain rfl : t' = t := Option.some.inj (ht'.symm.trans ht)
    exact ⟨hheight, r, htip, hbs.of_le hbr (by simpa using hle)⟩
  · rw [rewind_placed, Option.filter_eq_some_iff] at hx
    obtain ⟨hx, hle⟩ := hx
    obtain ⟨⟨t', ht', hb⟩, hin⟩ := h.rows txid h₁ x hx
    obtain rfl : t' = t := Option.some.inj (ht'.symm.trans ht)
    exact ⟨⟨r, htip, hb.of_le hbr (by simpa using hle)⟩, hin⟩

theorem rewind_none (w : Wallet) (L : Ledger) : (w.rewind none).Sound L := by
  have hrecent : (w.rewind none).recent = [] := by simp [Wallet.rewind]
  refine ⟨rfl, ?_, fun r hr ↦ ?_, fun txid h x hx ↦ ?_⟩
  · rw [hrecent]
    exact .nil
  · rw [hrecent] at hr
    exact nomatch hr
  · rw [rewind_placed] at hx
    simp at hx

end Wallet.Sound

theorem forkPoint_mem {F : Faults} {node : Node} {attempt f : Nat} {ts : List Tip}
    (h : forkPoint F node attempt ts = .ok (some f)) : ∃ r ∈ ts, r.height = f := by
  induction ts with
  | nil => cases h
  | cons t ts ih =>
    unfold forkPoint at h
    split at h
    · split_ifs at h
      · cases h
        exact ⟨t, List.mem_cons_self, rfl⟩
      · obtain ⟨r, hr, hf⟩ := ih h
        exact ⟨r, List.mem_cons_of_mem t hr, hf⟩
    · obtain ⟨r, hr, hf⟩ := ih h
      exact ⟨r, List.mem_cons_of_mem t hr, hf⟩
    · cases h

/-- Where a scan resumes: the rows hang together, and the next block is on top of the tip. -/
theorem sound_resume {L : Ledger} {w : Wallet} {fork : Option Nat} (h : w.Sound L)
    (hfork : ∀ f, fork = some f → ∃ r ∈ w.recent, r.height = f) :
    (w.resume fork).1.Sound L ∧
      ∀ t, (w.resume fork).1.tip = some t → (w.resume fork).2 = t.height + 1 := by
  cases fork with
  | none =>
    cases ht : w.tip with
    | none =>
      simp only [Wallet.resume, ht]
      exact ⟨h, fun t ht' ↦ nomatch ht'⟩
    | some t =>
      simp only [Wallet.resume, ht]
      refine ⟨Wallet.Sound.rewind_none w L, fun t' ht' ↦ ?_⟩
      simp [Wallet.rewind] at ht'
  | some f =>
    obtain ⟨r, hr, rfl⟩ := hfork f rfl
    obtain ⟨hs, htip⟩ := h.rewind_some hr
    have hlast : ∀ t, (w.rewind (some r.height)).tip = some t → r.height + 1 = t.height + 1 := by
      intro t ht
      rw [htip] at ht
      cases ht
      rfl
    cases ht : w.tip with
    | none =>
      simp only [Wallet.resume, ht]
      exact ⟨hs, hlast⟩
    | some t =>
      simp only [Wallet.resume, ht]
      split_ifs with heq
      · refine ⟨h, fun t' ht' ↦ ?_⟩
        obtain rfl : t = t' := Option.some.inj (ht.symm.trans ht')
        exact congrArg Nat.succ heq
      · exact ⟨hs, hlast⟩

theorem resume_keys (w : Wallet) (fork : Option Nat) :
    (w.resume fork).1.bundle = w.bundle ∧ (w.resume fork).1.issued = w.issued := by
  unfold Wallet.resume
  split
  · split_ifs <;> exact ⟨rfl, rfl⟩
  · exact ⟨rfl, rfl⟩
  · exact ⟨rfl, rfl⟩
  · exact ⟨rfl, rfl⟩

/-! ## A block read to its end -/

/-- No call fails that is made while a block is read: not the node's tree size, not the signer's
keys, not its `JoinsSeen`. -/
structure Faults.BlocksWhole (F : Faults) : Prop where
  info : ∀ a h, F.node (.blockInfo a h) = none
  keys : ∀ a h i, F.blockKeys a h i = none
  joins : ∀ a h, F.joins a h = none

section Whole

variable {env : Env} {F : Faults} {now : Int} {attempt height : Nat} {b : Block}

theorem ready_refreshKeys : Triple (KeysReady env) (refreshKeys env none)
    (fun _ ↦ KeysReady env) fun _ _ ↦ False := by
  refine triple_refreshKeys (fun _ h ↦ h) (fun _ _ _ h ↦ ⟨⟨h.external, h.internal⟩, h.bundle⟩)
    (fun w h ↦ ⟨⟨h.external, h.internal⟩, fun p hp ↦ ?_, h.bundle.imported, h.bundle.answers⟩)
    (fun _ h ↦ ⟨⟨h.external, h.internal⟩, h.bundle⟩)
    fun _ h ↦ ⟨⟨h.external, h.internal⟩, h.bundle⟩
  rcases List.mem_append.mp hp with hp | hp
  · exact h.bundle.pq p hp
  · exact (h.bundle.answers _).2 p hp

/-- `refresh_keys` stops only where a child cannot be derived. -/
theorem whole_refreshKeys : Triple (fun w ↦ BundleOk env w.bundle) (refreshKeys env none)
    (fun _ w ↦ BundleOk env w.bundle) fun _ w ↦ ¬ w.Derivable env := by
  intro w hw
  have hkeys := @keysOnly_refreshKeys env none w
  have hissued := @sameIssued_refreshKeys env none w
  refine ⟨fun _ w' hrun ↦ ?_, fun _ w' hrun hderivable ↦ ?_⟩
  · rw [hrun] at hkeys
    exact hkeys.bundle hw
  · rw [hrun] at hissued
    obtain ⟨_, _, hok, -⟩ := ready_refreshKeys.exists_ok ⟨hderivable.of_upto hissued.upto, hw⟩
    rw [hrun] at hok
    cases hok

theorem whole_followKeys {ε : Type} {f : RpcError → ε} {moved : Bool} :
    Triple (fun w ↦ BundleOk env w.bundle) (followKeys env f none moved)
      (fun _ w ↦ BundleOk env w.bundle) fun _ w ↦ ¬ w.Derivable env := by
  refine Triple.when (fun _ ↦ ?_) fun _ s hs ↦ hs
  exact whole_refreshKeys.mapErr fun _ _ h ↦ h

theorem whole_processTx (hF : F.BlocksWhole) (hb : b.Readable env) {g : Gathered}
    {t : NodeTx × Nat} (ht : t.1 ∈ b.txs) :
    Triple (fun w ↦ BundleOk env w.bundle) (processTx env F now attempt height b g t)
      (fun _ w ↦ BundleOk env w.bundle) fun _ w ↦ ¬ w.Derivable env := by
  refine Triple.bind (M := fun _ w ↦ BundleOk env w.bundle) (Triple.get fun _ h ↦ h) fun w ↦ ?_
  obtain ⟨p, hp⟩ := (@parseTx_ok _ w.book _) (hb.tx _ ht) (hb.shielded _ ht)
  rw [hp]
  refine Triple.bind (M := fun _ w ↦ BundleOk env w.bundle) (Triple.lift (fun _ _ _ h ↦ h) ?_)
    fun p ↦ ?_
  · rintro e s ⟨⟩
  refine Triple.bind (M := fun _ w ↦ BundleOk env w.bundle) (Triple.when (fun _ ↦ ?_)
    fun _ s hs ↦ hs) fun _ ↦ Triple.pure fun _ h ↦ h
  refine Triple.bind (M := fun _ w ↦ BundleOk env w.bundle) ?_ fun moved ↦ ?_
  · intro w hw
    constructor
    · rintro _ _ ⟨⟩
      exact (keysOnly_markAll (w.keysUsed p) w).bundle hw
    · rintro _ _ ⟨⟩
  refine Triple.bind (M := fun _ w ↦ BundleOk env w.bundle) (Triple.modify fun _ h ↦ h) fun _ ↦ ?_
  rw [hF.keys]
  exact whole_followKeys

theorem whole_processTxs (hF : F.BlocksWhole) (hb : b.Readable env) {g : Gathered}
    {ts : List (NodeTx × Nat)} (hts : ∀ t ∈ ts, t.1 ∈ b.txs) :
    Triple (fun w ↦ BundleOk env w.bundle) (processTxs env F now attempt height b g ts)
      (fun _ w ↦ BundleOk env w.bundle) fun _ w ↦ ¬ w.Derivable env := by
  induction ts generalizing g with
  | nil => exact Triple.pure fun _ h ↦ h
  | cons t ts ih =>
    refine Triple.bind (whole_processTx hF hb (hts t List.mem_cons_self)) fun g' ↦ ?_
    exact ih fun t' ht' ↦ hts t' (List.mem_cons_of_mem t ht')

theorem whole_placeNotes (hF : F.BlocksWhole) (hb : b.Readable env) {g : Gathered} :
    Triple (fun w ↦ BundleOk env w.bundle) (placeNotes env F attempt height b g)
      (fun _ w ↦ BundleOk env w.bundle) fun _ w ↦ ¬ w.Derivable env := by
  obtain ⟨size, hsize⟩ := Option.isSome_iff_exists.mp hb.size
  refine Triple.when (fun _ ↦ ?_) fun _ s hs ↦ hs
  rw [Faults.ask, hF.info, hsize]
  intro w hw
  constructor
  · rintro _ _ ⟨⟩
    exact (reads_setPositions (size - g.outputsBefore) g.admitted w height b).bundle hw
  · rintro _ _ ⟨⟩

/-- A readable block is read to its end when none of its calls fails and the keys it makes the
wallet derive can be derived. -/
theorem whole_processBlock (hF : F.BlocksWhole) (hb : b.Readable env) :
    Triple (fun w ↦ BundleOk env w.bundle) (processBlock env F now attempt height b)
      (fun _ w ↦ BundleOk env w.bundle) fun _ w ↦ ¬ w.Derivable env := by
  refine Triple.bind (whole_processTxs hF hb fun t ht ↦ List.fst_mem_of_mem_zipIdx ht)
    fun g ↦ Triple.bind (whole_placeNotes hF hb) fun _ ↦ ?_
  unfold reportJoins
  rw [hF.joins]
  exact Triple.ite (fun _ ↦ Triple.pure fun _ h ↦ h) fun _ ↦ Triple.pure fun _ h ↦ h

end Whole

/-! ## A sync -/

/-- The keys at hand are well formed, and the rows hang together if no child was refused so far. -/
structure Kept (L : Ledger) (env : Env) (w : Wallet) : Prop where
  bundle : BundleOk env w.bundle
  sound : w.Derivable env → w.Sound L

/-- The same, with a height on top of the tip. -/
structure KeptAt (L : Ledger) (env : Env) (height : Nat) (w : Wallet) : Prop
    extends Kept L env w where
  next : w.Derivable env → ∀ t, w.tip = some t → height = t.height + 1

theorem Kept.loosen {L : Ledger} {env : Env} {w w' : Wallet} (h : Kept L env w)
    (hw : Loosens env w w') : Kept L env w' :=
  ⟨hw.bundle h.bundle, fun hd ↦ (h.sound (hd.of_upto hw.issued)).loosen hw⟩

theorem ask_eq_ok {F : Faults} {c : Call} {α δ : Type} {answer : Except NodeError α}
    {f : NodeError → δ} {a : α} (h : (F.ask c answer).mapError f = .ok a) : answer = .ok a := by
  unfold Faults.ask at h
  split at h
  · cases h
  · cases answer with
    | error e => cases h
    | ok x =>
      cases h
      rfl

section Sync

variable {L : Ledger} {env : Env} {F : Faults} {node : Node} {now : Int} {attempt : Nat}
  (hF : F.BlocksWhole) (hon : node.On L) (hread : ∀ b ∈ node.chain, b.Readable env)

theorem kept_of_loosens {ε α : Type} {x : Proc Wallet ε α} (hx : Moves (Loosens env) x) :
    Triple (Kept L env) x (fun _ ↦ Kept L env) fun _ ↦ Kept L env :=
  Triple.of_ends (R := fun _ ↦ Loosens env) hx (fun _ _ hs h ↦ hs.loosen h)
    fun _ _ _ hs h ↦ hs.loosen h

include hF hon hread

theorem kept_scanBlock (height : Nat) :
    Triple (KeptAt L env height) (scanBlock env F node now attempt height)
      (fun _ ↦ KeptAt L env (height + 1)) fun _ ↦ Kept L env := by
  refine Triple.bind (M := fun hash w ↦ KeptAt L env height w ∧ node.blockHash height = .ok hash)
    (Triple.lift ?_ fun _ _ _ hs ↦ hs.toKept) fun hash ↦ ?_
  · exact fun hash s h hs ↦ ⟨hs, ask_eq_ok h⟩
  refine Triple.bind (M := fun b w ↦ KeptAt L env height w ∧ node.chain[height]? = some b)
    (Triple.lift ?_ fun _ _ _ hs ↦ hs.1.toKept) fun b ↦ ?_
  · intro b s h hs
    obtain ⟨b', hb', rfl, hraw⟩ := hon.blockHash hs.2
    obtain rfl : b' = b := by
      have := hraw.symm.trans (ask_eq_ok h)
      simpa using this
    exact ⟨hs.1, hb'⟩
  intro w hw
  obtain ⟨hkept, hb⟩ := hw
  obtain ⟨hbody, hheight⟩ := hon.body height b hb
  rw [bind_apply, get_apply]
  dsimp only
  split_ifs with hprev
  · constructor
    · rintro _ _ ⟨⟩
    · rintro _ _ ⟨⟩
      exact hkept.toKept
  · obtain ⟨hok, herror⟩ := (@whole_processBlock _ _ now attempt
      height _) hF (hread b (List.mem_of_getElem? hb)) w hkept.bundle
    have hreads := @reads_processBlock env F now attempt height b w
    rw [bind_apply]
    cases hrun : processBlock env F now attempt height b w with
    | mk y w' =>
      rw [hrun] at hreads
      cases y with
      | ok a =>
        have hbundle : BundleOk env w'.bundle := hok _ _ hrun
        constructor
        · rintro _ _ ⟨⟩
          refine ⟨⟨hbundle, fun hd ↦ ?_⟩, fun _ ↦ ?_⟩
          · have hbefore : w.Derivable env := hd.of_upto hreads.issued
            refine (hkept.sound hbefore).advance hreads hbody hheight fun t ht ↦
              ⟨hkept.next hbefore t ht, ?_⟩
            simpa [ht] using hprev
          · rintro t ⟨⟩
            rfl
        · rintro _ _ ⟨⟩
      | error e =>
        -- the reading stopped at a child, which the later hand-outs still need
        constructor
        · rintro _ _ ⟨⟩
        · rintro _ _ ⟨⟩
          exact ⟨hreads.bundle hkept.bundle, fun hd ↦ absurd hd (herror _ _ hrun)⟩

theorem kept_scanBlocks (height n : Nat) :
    Triple (KeptAt L env height)
      (scanBlocks env F node now attempt (List.range' height n))
      (fun _ ↦ Kept L env) fun _ ↦ Kept L env := by
  induction n generalizing height with
  | zero => exact Triple.pure fun _ h ↦ h.toKept
  | succ n ih =>
    rw [List.range'_succ]
    exact Triple.bind (kept_scanBlock hF hon hread height) fun _ ↦ ih (height + 1)

theorem kept_scanOrMoved (start : Nat) :
    Triple (KeptAt L env start) (scanOrMoved env F node now attempt start)
      (fun _ ↦ Kept L env) fun _ ↦ Kept L env := by
  have hscan : Triple (KeptAt L env start)
      (scanFrom env F node now attempt start) (fun _ ↦ Kept L env) fun _ ↦ Kept L env :=
    Triple.bind (M := fun _ ↦ KeptAt L env start)
      (Triple.lift (fun _ _ _ h ↦ h) fun _ _ _ h ↦ h.toKept)
      fun count ↦ kept_scanBlocks hF hon hread start _
  intro w hw
  obtain ⟨hok, herror⟩ := hscan w hw
  unfold scanOrMoved
  cases hrun : scanFrom env F node now attempt start w with
  | mk r w' =>
    rcases r with (_ | e) | _
    · refine ⟨?_, ?_⟩
      · rintro _ _ ⟨⟩
        exact herror _ _ hrun
      · rintro _ _ ⟨⟩
    · refine ⟨?_, ?_⟩
      · rintro _ _ ⟨⟩
      · rintro _ _ ⟨⟩
        exact herror _ _ hrun
    · refine ⟨?_, ?_⟩
      · rintro _ _ ⟨⟩
        exact hok _ _ hrun
      · rintro _ _ ⟨⟩

theorem kept_syncChain (best : String) :
    Triple (Kept L env) (syncChain env F node now attempt best) (fun _ ↦ Kept L env)
      fun _ ↦ Kept L env := by
  refine Triple.bind (M := fun _ ↦ Kept L env) (Triple.lift (fun _ _ _ h ↦ h) fun _ _ _ h ↦ h)
    fun _ ↦ ?_
  refine Triple.bind (M := fun w s ↦ s = w ∧ Kept L env s) (Triple.get fun _ h ↦ ⟨rfl, h⟩)
    fun w ↦ ?_
  refine Triple.bind (M := fun fork s ↦ (s = w ∧ Kept L env s) ∧
    ∀ f, fork = some f → ∃ r ∈ w.recent, r.height = f)
    (Triple.lift (fun fork s h hs ↦ ⟨hs, ?_⟩) fun _ _ _ hs ↦ hs.2) fun fork ↦ ?_
  · rintro f rfl
    simpa using forkPoint_mem h
  refine Triple.bind (M := fun _ ↦ KeptAt L env (w.resume fork).2) (Triple.modify ?_) fun _ ↦ ?_
  · rintro s ⟨⟨rfl, hs⟩, hfork⟩
    obtain ⟨hbundle, hissued⟩ := resume_keys s fork
    have hresume (hd : (s.resume fork).1.Derivable env) :=
      sound_resume (hs.sound (hd.of_upto (hissued ▸ .refl _))) hfork
    exact ⟨⟨hbundle ▸ hs.bundle, fun hd ↦ (hresume hd).1⟩, fun hd ↦ (hresume hd).2⟩
  refine Triple.bind (kept_scanOrMoved hF hon hread _) fun done ↦ Triple.ite (fun _ ↦ ?_)
    fun _ ↦ Triple.pure fun _ h ↦ h
  refine Triple.bind (kept_of_loosens loosens_syncMempool) fun _ ↦ ?_
  refine Triple.bind (M := fun _ ↦ Kept L env) (Triple.modify fun s hs ↦ ?_) fun _ ↦ ?_
  · exact hs.loosen ⟨rfl, rfl, rfl, fun _ ↦ .inl rfl, fun h ↦ h, .refl _⟩
  · exact Triple.bind (M := fun _ ↦ Kept L env) (Triple.get fun _ h ↦ h)
      fun _ ↦ Triple.pure fun _ h ↦ h

theorem kept_syncAttempts (attempts : List Nat) (changed : Bool) :
    Triple (Kept L env) (syncAttempts env F node now attempts changed) (fun _ ↦ Kept L env)
      fun _ ↦ Kept L env := by
  induction attempts generalizing changed with
  | nil => exact Triple.pure fun _ h ↦ h
  | cons a as ih =>
    refine Triple.bind (M := fun _ ↦ Kept L env) ?_ fun r ↦ ?_
    · refine Triple.bind (M := fun _ ↦ Kept L env)
        (Triple.lift (fun _ _ _ h ↦ h) fun _ _ _ h ↦ h) fun best ↦
          Triple.bind (M := fun _ ↦ Kept L env) (Triple.get fun _ h ↦ h) fun w ↦
            Triple.ite (fun _ ↦ ?_) fun _ ↦ kept_syncChain hF hon hread best
      exact Triple.bind (kept_of_loosens loosens_syncMempool)
        fun _ ↦ Triple.pure fun _ h ↦ h
    · cases r with
      | none => exact ih true
      | some answer => exact Triple.pure fun _ h ↦ h

/-- However a sync ends, its rows hang together. -/
theorem kept_sync : Triple (Kept L env) (sync env F node now) (fun _ ↦ Kept L env)
    fun _ ↦ Kept L env := by
  refine Triple.bind (M := fun _ ↦ Kept L env) ?_ fun _ ↦ kept_syncAttempts hF hon hread _ _
  refine Triple.bind (M := fun _ ↦ Kept L env) (Triple.get fun _ h ↦ h) fun w ↦
    Triple.ite (fun _ ↦ Triple.pure fun _ h ↦ h) fun _ ↦ ?_
  refine Triple.bind (M := fun _ ↦ Kept L env) (Triple.lift (fun _ _ _ h ↦ h) fun _ _ _ h ↦ h)
    fun _ ↦ Triple.modify fun s hs ↦ ?_
  exact hs.loosen ⟨rfl, rfl, rfl, fun _ ↦ .inl rfl, fun h ↦ h, .refl _⟩

end Sync

/-! ## Histories -/

/-- One sync of a history: the node it saw, the calls that failed, and the clock. -/
structure SyncEvent where
  node : Node
  faults : Faults
  now : Int

/-- A sync, as a step of the wallet. -/
def syncStep (env : Env) (w : Wallet) (e : SyncEvent) : Except RpcError Bool × Wallet :=
  sync env e.faults e.node e.now w

/-- A wallet that has read nothing yet. -/
structure Wallet.Blank (w : Wallet) : Prop where
  tip : w.tip = none
  recent : w.recent = []
  wtx : w.wtx = .empty
  parsed : w.parsed = .empty
  mempoolSeen : w.mempoolSeen = []
  coins : w.coins = []
  notes : w.notes = []

/-- The wallet's tip is the node's best block. -/
def Wallet.AtBest (node : Node) (w : Wallet) : Prop :=
  ∃ t b, w.tip = some t ∧ node.chain.getLast? = some b ∧ b.hash = t.hash

/-- Every transaction recorded with a block is in that block, and the block is on the node's chain
at that height. -/
def Wallet.OnChain (node : Node) (w : Wallet) : Prop :=
  ∀ txid t ref, w.wtx.get? txid = some t → t.block = some ref →
    ∃ b, node.chain[ref.height]? = some b ∧ b.hash = ref.hash ∧ ∃ nt ∈ b.txs, nt.txid = txid

theorem Wallet.Blank.kept {L : Ledger} {env : Env} {w : Wallet} (h : w.Blank)
    (hbundle : BundleOk env w.bundle) : Kept L env w := by
  refine ⟨hbundle, fun _ ↦ ⟨?_, ?_, ?_, ?_⟩⟩
  · rw [h.tip, h.recent]
    rfl
  · rw [h.recent]
    exact .nil
  · rw [h.recent]
    exact fun r hr ↦ nomatch hr
  · intro txid ht x hx
    simp [Wallet.placed, Wallet.blockOf, h.wtx] at hx

/-- Rows that hang together under the node's best block are on the node's chain. -/
theorem Wallet.Sound.onChain {L : Ledger} {node : Node} {w : Wallet} (h : w.Sound L)
    (hon : node.On L) (hbest : w.AtBest node) : w.OnChain node := by
  obtain ⟨t, b, htip, hlast, hash⟩ := hbest
  rw [List.getLast?_eq_getElem?] at hlast
  have hheight : t.height = node.chain.length - 1 := by
    rw [← (h.recent t (h.tip_mem htip)).1, ← hash, (hon.body _ b hlast).2]
  rw [← hheight] at hlast
  intro txid row ref hrow href
  have hplaced : w.placed txid = some (ref.height, ref.hash) := by
    simp [Wallet.placed, Wallet.blockOf, hrow, href]
  obtain ⟨⟨t', ht', hbelow⟩, hin⟩ := h.rows txid _ _ hplaced
  obtain rfl : t = t' := Option.some.inj (htip.symm.trans ht')
  obtain ⟨a, ha, hax⟩ := hon.below hlast hash hbelow
  refine ⟨a, ha, hax, ?_⟩
  rwa [← (hon.body _ a ha).1, hax]

/-- In every history of syncs in which no call fails while a block is being read, whatever other
calls fail and however the node's chain moves between the syncs: a sync that leaves the wallet at
the node's best block leaves it with confirmations of the node's chain only.  The keys a block makes
the wallet derive are among those up to the lookahead past the keys in use at the end, so these are
the ones that have to exist. -/
theorem onChain_of_blocksWhole {L : Ledger} {env : Env} {w₀ w : Wallet} {e : SyncEvent}
    {r : Except RpcError Bool} {h : List (SyncEvent × Except RpcError Bool)}
    (hblank : w₀.Blank) (hbundle : BundleOk env w₀.bundle)
    (trace : Trace (syncStep env)
      (fun _ e ↦ e.node.Legible L env ∧ e.faults.BlocksWhole) w₀ ((e, r) :: h) w)
    (hderivable : w.Derivable env) (hbest : w.AtBest e.node) : w.OnChain e.node := by
  have hkept : Kept L env w := by
    refine (@Trace.invariant _ _ _ _ _ _ _ _ (fun _ w ↦ Kept L env w) trace) (hblank.kept hbundle) ?_
    rintro _ s e hs ⟨hleg, hF⟩
    obtain ⟨hok, herror⟩ := (@kept_sync _ _ _ _ e.now) hF hleg.on hleg.readable s hs
    unfold syncStep
    cases hrun : sync env e.faults e.node e.now s with
    | mk y s' =>
      cases y with
      | ok c => exact hok c s' hrun
      | error err => exact herror err s' hrun
  obtain ⟨_, _, ⟨hleg, -⟩, -⟩ := trace.last
  exact (hkept.sound hderivable).onChain hleg.on hbest

/-! ### A block that is lost half read -/

/-- A transaction with one Sapling output and nothing else. -/
def noteBytes : Bytes :=
  [4, 0, 0, 0x80, 0x85, 0x20, 0x2f, 0x89, 0, 0] ++ List.replicate 16 0 ++ [0, 1] ++
    List.replicate 948 0 ++ [0] ++ List.replicate 64 0

/-- The one output is a note of the wallet. -/
def noteEnv : Env where
  C := .blank
  view := {
    shielded := fun b ↦
      .ok (if b.length = noteBytes.length then ⟨[⟨0, 7, "ys1", false, []⟩], [], 1⟩ else ⟨[], [], 0⟩)
    nullifier := fun _ _ ↦ List.Vector.replicate 32 0 }
  child := fun _ _ ↦ .ok (List.Vector.replicate 33 2)
  publicKeys := fun _ ↦ ⟨"", "", "", ⟨"", ""⟩, "", [], []⟩

/-- A new wallet. -/
def newWallet : Wallet where
  birthday := 0
  issued := ⟨0, 0, .empty⟩
  bundle := ⟨"", "", "", ⟨"", ""⟩, "", [], []⟩
  tip := none
  recent := []
  wtx := .empty
  expired := .empty
  evicted := .empty
  book := .empty
  parsed := .empty
  mempoolSeen := []
  reacceptPending := true
  chainRead := false
  coins := []
  notes := []

/-- The genesis block, the block with the note, and a block in its place. -/
def forkBlock (hash : String) : Block :=
  if hash = "with" then ⟨"with", "genesis", 0, [⟨"note", noteBytes⟩], some 1⟩
  else if hash = "without" then ⟨"without", "genesis", 0, [], some 0⟩
  else ⟨"genesis", "", 0, [], some 0⟩

/-- The blocks by their hashes. -/
def forkLedger : Ledger := ⟨forkBlock, fun x ↦ if x = "genesis" then 0 else 1⟩

/-- A node on one of the two branches. -/
def forkNode (hash : String) : Node := ⟨[forkBlock "genesis", forkBlock hash], [], fun _ ↦ false⟩

/-- The node goes away when it is asked for the size of the tree. -/
def infoFault : Faults where
  node := fun
    | .blockInfo _ _ => some (.unreachable "connection closed")
    | _ => none
  blockKeys := fun _ _ _ ↦ none
  joins := fun _ _ ↦ none
  mempoolKeys := fun _ _ ↦ none

theorem forkNode_legible {hash : String} (h : hash = "with" ∨ hash = "without") :
    (forkNode hash).Legible forkLedger noteEnv := by
  have hparse : ∃ r, Transaction.parse noteEnv.C noteBytes = .ok r := by
    have hok : (Transaction.parse noteEnv.C noteBytes).isOk = true := by decide +kernel
    cases hr : Transaction.parse noteEnv.C noteBytes with
    | ok r => exact ⟨r, rfl⟩
    | error e =>
      rw [hr] at hok
      cases hok
  refine ⟨⟨fun i b hb ↦ ?_, fun i a b ha hb ↦ ?_⟩, fun b hb ↦ ?_⟩
  · rcases h with rfl | rfl <;> rcases i with _ | _ | i <;> cases hb <;>
      simp [forkLedger, forkBlock]
  · rcases h with rfl | rfl <;> rcases i with _ | _ | i <;> cases ha <;> cases hb <;>
      simp [forkBlock]
  · have hb' : b = forkBlock "genesis" ∨ b = forkBlock hash := by simpa [forkNode] using hb
    have hempty {b : Block} (ht : b.txs = []) (hs : b.saplingSize.isSome) :
        b.Readable noteEnv := ⟨by simp [ht], by simp [ht], hs⟩
    rcases hb' with rfl | rfl
    · exact hempty rfl rfl
    · rcases h with rfl | rfl
      · refine ⟨fun t ht ↦ ?_, fun t _ ↦ ⟨_, rfl⟩, rfl⟩
        obtain rfl : t = ⟨"note", noteBytes⟩ := by simpa [forkBlock] using ht
        exact hparse
      · exact hempty rfl rfl

theorem newWallet_blank : newWallet.Blank := ⟨rfl, rfl, rfl, rfl, rfl, rfl, rfl⟩

theorem newWallet_bundleOk : BundleOk noteEnv newWallet.bundle :=
  ⟨fun _ h ↦ (nomatch h), fun _ h ↦ (nomatch h), fun _ ↦ ⟨rfl, fun _ h ↦ (nomatch h)⟩⟩

/-- The node fails after a note's transaction was placed in block 1, and comes back with another
block 1: the next sync succeeds, and the transaction stays in the block that is gone. -/
theorem not_onChain_of_half_read :
    newWallet.Blank ∧ BundleOk noteEnv newWallet.bundle ∧
      (forkNode "with").Legible forkLedger noteEnv ∧
      (forkNode "without").Legible forkLedger noteEnv ∧
      let w₁ := (syncStep noteEnv newWallet ⟨forkNode "with", infoFault, 0⟩).2
      let s₂ := syncStep noteEnv w₁ ⟨forkNode "without", .quiet, 0⟩
      s₂.1 = .ok true ∧ s₂.2.AtBest (forkNode "without") ∧
        ¬ s₂.2.OnChain (forkNode "without") := by
  refine ⟨newWallet_blank, newWallet_bundleOk, forkNode_legible (.inl rfl),
    forkNode_legible (.inr rfl), ?_⟩
  intro w₁ s₂
  have htip : s₂.2.tip = some ⟨1, "without"⟩ := by decide +kernel
  have hrow : s₂.2.wtx.get? "note" = some ⟨noteBytes, some ⟨1, "with", 0, 0, none⟩, 0⟩ := by
    decide +kernel
  refine ⟨by decide +kernel, ⟨_, forkBlock "without", htip, rfl, rfl⟩, fun hon ↦ ?_⟩
  obtain ⟨b, hb, hash, -⟩ := hon "note" _ _ hrow rfl
  cases hb
  exact absurd hash (by decide)

/-- The same node without the failure. -/
theorem onChain_whole :
    (syncStep noteEnv newWallet ⟨forkNode "with", .quiet, 0⟩).2.OnChain (forkNode "with") := by
  have hquiet : Faults.quiet.BlocksWhole :=
    ⟨fun _ _ ↦ rfl, fun _ _ _ ↦ rfl, fun _ _ ↦ rfl⟩
  have htip : (syncStep noteEnv newWallet ⟨forkNode "with", .quiet, 0⟩).2.tip =
      some ⟨1, "with"⟩ := by decide +kernel
  have htrace : Trace (syncStep noteEnv)
      (fun _ e ↦ e.node.Legible forkLedger noteEnv ∧ e.faults.BlocksWhole) newWallet _ _ :=
    .step ⟨forkNode "with", .quiet, 0⟩ .start ⟨forkNode_legible (.inl rfl), hquiet⟩
  refine onChain_of_blocksWhole newWallet_blank newWallet_bundleOk htrace ?_ ?_
  · exact ⟨fun _ _ ↦ ⟨_, rfl⟩, fun _ _ ↦ ⟨_, rfl⟩⟩
  · exact ⟨_, forkBlock "with", htip, by simp [forkNode], by simp [forkBlock]⟩

end Yew.Daemon
