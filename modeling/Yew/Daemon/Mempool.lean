import Yew.Daemon.Scan

/-!
# Reading the mempool

Once the whole chain of a snapshot is read, the passes over its mempool take up exactly the
transactions of the wallet there, and rows that are neither in the chain nor in the mempool go.

The procedure is `sync_mempool` of `yewd/wallet/src/lib.rs`, which repeats its pass until nothing
new is the wallet's.
-/

namespace Yew.Daemon

open Script Tx Pq Proto Proc Yellowback

@[simp] theorem Faults.ask_quiet {α : Type} (c : Call) (answer : Except NodeError α) :
    Faults.quiet.ask c answer = answer := rfl

/-! ## What is read -/

/-- The places of the wallet's chain. -/
def Node.Placed (S : Scene) (node : Node) (start : Nat) (t : String) (ref : BlockRef) : Prop :=
  ∃ h i b, start ≤ h ∧ node.At h i t ∧ node.chain[h]? = some b ∧ ref = S.fullRef b t h i

section

variable {S : Scene} {node : Node} {w : Wallet} {bound start : Nat}

/-- What is read of the mempool when every call is answered: what it holds of what is known, but
for what was seen before or has a block. -/
theorem readFresh_quiet (attempt : Nat) (w : Wallet) {known : List NodeTx} {ids : List String}
    (hids : ∀ id ∈ ids, id ∈ known.map NodeTx.txid) :
    ∃ ts, readFresh .quiet attempt w known ids = .ok ts ∧
      (∀ t ∈ ts, t ∈ known ∧ t.txid ∈ ids) ∧
      ∀ id ∈ ids, id ∈ w.mempoolSeen ∨ (w.blockOf id).isSome ∨ ∃ t ∈ ts, t.txid = id := by
  induction ids with
  | nil => exact ⟨[], rfl, by simp, by simp⟩
  | cons id ids ih =>
    obtain ⟨ts, hrun, hts, hall⟩ := ih fun x hx ↦ hids x (List.mem_cons_of_mem id hx)
    by_cases hold : w.mempoolSeen.contains id || (w.blockOf id).isSome
    · refine ⟨ts, ?_, fun t ht ↦ ⟨(hts t ht).1, List.mem_cons_of_mem id (hts t ht).2⟩,
        fun x hx ↦ ?_⟩
      · rw [readFresh, if_pos hold, hrun]
      · rcases List.mem_cons.mp hx with rfl | hx
        · simpa [or_assoc] using Or.inl hold
        · exact hall x hx
    · obtain ⟨t₀, ht₀, rfl⟩ := List.mem_map.mp (hids id List.mem_cons_self)
      cases hfind : known.find? fun t ↦ t.txid = t₀.txid with
      | none => simpa using List.find?_eq_none.mp hfind t₀ ht₀
      | some t =>
        have htxid : t.txid = t₀.txid := by simpa using List.find?_some hfind
        refine ⟨t :: ts, ?_, fun x hx ↦ ?_, fun x hx ↦ ?_⟩
        · rw [readFresh, if_neg hold, Faults.ask_quiet, hfind]
          simp only [hrun]
          rfl
        · rcases List.mem_cons.mp hx with rfl | hx
          · exact ⟨List.mem_of_find?_eq_some hfind, htxid ▸ List.mem_cons_self⟩
          · exact ⟨(hts x hx).1, List.mem_cons_of_mem _ (hts x hx).2⟩
        · rcases List.mem_cons.mp hx with rfl | hx
          · exact .inr (.inr ⟨t, List.mem_cons_self, htxid⟩)
          · rcases hall x hx with h | h | ⟨t', ht', h⟩
            · exact .inl h
            · exact .inr (.inl h)
            · exact .inr (.inr ⟨t', List.mem_cons_of_mem t ht', h⟩)

/-! ## Taking up transactions -/

/-- What reading mempool transactions does to the rows: it adds some. -/
structure Adds (w w' : Wallet) : Prop where
  rows : ∀ t, (w.wtx.get? t).isSome → (w'.wtx.get? t).isSome
  seen : w'.mempoolSeen = w.mempoolSeen
  pending : w'.reacceptPending = w.reacceptPending

instance : Proc.Path Adds where
  refl _ := ⟨fun _ h ↦ h, rfl, rfl⟩
  trans h₁ h₂ := ⟨fun t h ↦ h₂.rows t (h₁.rows t h), h₂.seen.trans h₁.seen,
    h₂.pending.trans h₁.pending⟩

/-- A mempool transaction of the wallet, taken up. -/
theorem admitTx_held (hroom : S.Roomy bound) (hv : node.Valid S) (now : Int) (attempt : Nat)
    {t : NodeTx} (ht : S.Means t) (hpool : node.Pool t.txid)
    (hw : S.Held bound (node.Placed S start) w) (hpend : w.reacceptPending = false)
    (hrel : S.Rel t.txid) :
    ∃ moved w₁ w₂, admitTx (ε := RpcError) now t none (S.parsed t.txid) w = (.ok moved, w₁) ∧
      followKeys S.env id (Faults.quiet.mempoolKeys attempt t.txid) moved w₁ = (.ok (), w₂) ∧
      S.Held bound (node.Placed S start) (w₂.rebuild S.env) ∧ Adds w (w₂.rebuild S.env) ∧
      ((w₂.rebuild S.env).wtx.get? t.txid).isSome := by
  have hapart {t' : String} {ref : BlockRef} (h : node.Placed S start t' ref) : t' ≠ t.txid := by
    obtain ⟨h, i, b, -, hat, -⟩ := h
    rintro rfl
    exact hv.apart hat hpool
  have hbare := (@Scene.Bare.admitRow _ _ (node.Placed S start) _ _ hroom hw.toBare now _ none)
    ht.occurs hrel (fun t' ref ↦ by
      constructor
      · exact fun h ↦ .inl ⟨hapart h, h⟩
      · rintro (⟨-, h⟩ | ⟨-, ⟨⟩⟩)
        exact h)
    (fun hp ↦ by rw [hpend] at hp; cases hp)
  rw [← ht.bytes] at hbare
  obtain ⟨wk, received, hk, hadmit⟩ := admit_spec S.env w now t.txid t.bytes none (S.parsed t.txid)
  obtain ⟨w₂, hfollow, hkeys, hkeyed⟩ := hbare.keyed.followKeys hroom (id : RpcError → RpcError)
    (w.admitRow now t.txid t.bytes none (S.parsed t.txid)).1
  refine ⟨_, _, w₂, rfl, hfollow, (hbare.keysOnly hkeys hkeyed).rebuild, ?_, ?_⟩
  · refine ⟨fun t' ht' ↦ ?_, ?_, ?_⟩
    · change (w₂.wtx.get? t').isSome
      rw [hkeys.wtx, hadmit, OrdMap.get?_insert]
      split
      · rfl
      · exact ht'
    · change w₂.mempoolSeen = _
      rw [hkeys.mempoolSeen, hadmit]
      exact hk.mempoolSeen
    · change w₂.reacceptPending = _
      rw [hkeys.reacceptPending, hadmit]
      exact hk.reacceptPending
  · change (w₂.wtx.get? t.txid).isSome
    rw [hkeys.wtx, hadmit, OrdMap.get?_insert, if_pos rfl]
    rfl

/-- One pass over mempool transactions. -/
theorem admitPass_held (hroom : S.Roomy bound) (hv : node.Valid S) (now : Int) (attempt : Nat)
    {ts : List NodeTx} (hts : ∀ t ∈ ts, S.Means t ∧ node.Pool t.txid) {w : Wallet}
    (hw : S.Held bound (node.Placed S start) w) (hpend : w.reacceptPending = false) :
    ∃ r w', admitPass S.env .quiet now attempt ts w = (.ok r, w') ∧
      S.Held bound (node.Placed S start) w' ∧ Adds w w' ∧
      (r.1 = false → w' = w ∧ ∀ t ∈ ts, ¬ w.wants t.txid (S.parsed t.txid)) ∧
      (r.1 = true → r.2.length < ts.length) ∧ r.2 ⊆ ts ∧ r.2.length ≤ ts.length ∧
      ∀ t ∈ ts, t ∈ r.2 ∨ (w'.wtx.get? t.txid).isSome := by
  induction ts generalizing w with
  | nil => exact ⟨(false, []), w, rfl, hw, Proc.Path.refl w, by simp, by simp, by simp, by simp, by simp⟩
  | cons t ts ih =>
    obtain ⟨ht, hpool⟩ := hts t List.mem_cons_self
    have hrest := fun x hx ↦ hts x (List.mem_cons_of_mem t hx)
    have hparse := hw.keyed.agrees.parseTx ht
    by_cases hwants : w.wants t.txid (S.parsed t.txid)
    · have hrel := hw.rows.rel_of_wants hw.derived hw.keyed.agrees ht.occurs hwants
      obtain ⟨moved, w₁, w₂, hadmit, hfollow, hheld, hadds, hrow⟩ :=
        admitTx_held hroom hv now attempt ht hpool hw hpend hrel
      obtain ⟨r, w', hrun, hw', hadds', -, -, hsub, hlen, hall⟩ :=
        ih hrest hheld (hadds.pending.trans hpend)
      refine ⟨(true, r.2), w', ?_, hw', Proc.Path.trans hadds hadds', by simp, fun _ ↦ ?_,
        fun x hx ↦ List.mem_cons_of_mem t (hsub hx), Nat.le_succ_of_le hlen, fun x hx ↦ ?_⟩
      · refine bind_eq_ok.mpr ⟨w, w, rfl, bind_eq_ok.mpr ⟨S.parsed t.txid, w, ?_, ?_⟩⟩
        · rw [hparse]
          rfl
        · rw [if_pos hwants]
          exact bind_eq_ok.mpr ⟨moved, w₁, hadmit, bind_eq_ok.mpr ⟨(), w₂, hfollow,
            bind_eq_ok.mpr ⟨(), _, rfl, bind_eq_ok.mpr ⟨r, w', hrun, rfl⟩⟩⟩⟩
      · exact Nat.lt_succ_of_le hlen
      · rcases List.mem_cons.mp hx with rfl | hx
        · exact .inr (hadds'.rows _ hrow)
        · exact hall x hx
    · obtain ⟨r, w', hrun, hw', hadds, hnone, hlt, hsub, hlen, hall⟩ := ih hrest hw hpend
      refine ⟨(r.1, t :: r.2), w', ?_, hw', hadds, fun hr ↦ ⟨(hnone hr).1, fun x hx ↦ ?_⟩,
        fun hr ↦ Nat.succ_lt_succ (hlt hr), List.cons_subset_cons t hsub, Nat.succ_le_succ hlen,
        fun x hx ↦ ?_⟩
      · refine bind_eq_ok.mpr ⟨w, w, rfl, bind_eq_ok.mpr ⟨S.parsed t.txid, w, ?_, ?_⟩⟩
        · rw [hparse]
          rfl
        · rw [if_neg hwants]
          exact bind_eq_ok.mpr ⟨r, w', hrun, rfl⟩
      · rcases List.mem_cons.mp hx with rfl | hx
        · exact hwants
        · exact (hnone hr).2 x hx
      · rcases List.mem_cons.mp hx with rfl | hx
        · exact .inl List.mem_cons_self
        · exact (hall x hx).imp_left (List.mem_cons_of_mem t)

/-- The passes over mempool transactions: what is left over is not wanted. -/
theorem admitAll_held (hroom : S.Roomy bound) (hv : node.Valid S) (now : Int) (attempt : Nat)
    {n : Nat} {ts : List NodeTx} (hn : ts.length < n)
    (hts : ∀ t ∈ ts, S.Means t ∧ node.Pool t.txid) {w : Wallet}
    (hw : S.Held bound (node.Placed S start) w) (hpend : w.reacceptPending = false) :
    ∃ c w', admitAll S.env .quiet now attempt n ts w = (.ok c, w') ∧
      S.Held bound (node.Placed S start) w' ∧ Adds w w' ∧ (c = false → w' = w) ∧
      ∀ t ∈ ts, w'.wants t.txid (S.parsed t.txid) → (w'.wtx.get? t.txid).isSome := by
  induction n generalizing ts w with
  | zero => exact absurd hn (Nat.not_lt_zero _)
  | succ n ih =>
    obtain ⟨r, w₁, hrun, hw₁, hadds, hnone, hlt, hsub, -, hall⟩ :=
      admitPass_held hroom hv now attempt hts hw hpend
    by_cases hdone : (!r.1 || r.2.isEmpty) = true
    · refine ⟨r.1, w₁, ?_, hw₁, hadds, fun hr ↦ (hnone hr).1, fun t ht hwants ↦ ?_⟩
      · refine bind_eq_ok.mpr ⟨r, w₁, hrun, ?_⟩
        rw [if_pos hdone]
        rfl
      · cases hr : r.1 with
        | false =>
          obtain ⟨rfl, hno⟩ := hnone hr
          exact absurd hwants (hno t ht)
        | true =>
          have hempty : r.2 = [] := by simpa [hr] using hdone
          have := hall t ht
          rw [hempty] at this
          exact this.resolve_left List.not_mem_nil
    · have htrue : r.1 = true := by
        cases hr : r.1 with
        | false => simp [hr] at hdone
        | true => rfl
      have hless : r.2.length < n := by
        have := hlt htrue
        omega
      obtain ⟨c, w', hrest, hw', hadds', -, hwant⟩ := ih hless
        (fun t ht ↦ hts t (hsub ht)) hw₁ (hadds.pending.trans hpend)
      refine ⟨true, w', ?_, hw', Proc.Path.trans hadds hadds', by simp, fun t ht hwants ↦ ?_⟩
      · refine bind_eq_ok.mpr ⟨r, w₁, hrun, ?_⟩
        rw [if_neg hdone]
        exact bind_eq_ok.mpr ⟨c, w', hrest, rfl⟩
      · rcases hall t ht with h | h
        · exact hwant t h hwants
        · exact hadds'.rows _ h

/-- Every wallet transaction of the chain has a row. -/
theorem Scene.Rows.chain (hv : node.Valid S) (hp : node.PaysFrom S start)
    (hw : S.Rows (node.Placed S start) w) {h i : Nat} {t : String} (hat : node.At h i t)
    (hrel : S.Rel t) : (w.wtx.get? t).isSome := by
  obtain ⟨b, -, hb, -⟩ := id hat
  obtain ⟨row, hrow, -⟩ := hw.complete ⟨h, i, b, hrel.above hv hp hat, hat, hb, rfl⟩ hrel
  rw [hrow]
  rfl

/-- A wallet that has taken up what it wants of the mempool has all of the wallet's transactions
there. -/
theorem Scene.Held.pool (hv : node.Valid S) (hp : node.PaysFrom S start)
    (hw : S.Held bound (node.Placed S start) w)
    (hwant : ∀ {t}, node.Pool t → w.wants t (S.parsed t) → (w.wtx.get? t).isSome) {t : String}
    (hrel : S.Rel t) : node.Pool t → (w.wtx.get? t).isSome := by
  have hocc {t : String} (hpool : node.Pool t) : S.occurs t := by
    obtain ⟨nt, hnt, rfl⟩ := hpool
    exact (hv.poolTx nt hnt).occurs
  have htouch {t : String} (ht : S.Touches t) (hpool : node.Pool t) :
      (w.wtx.get? t).isSome := hwant hpool (hw.keyed.agrees.wants_of_touches (hocc hpool) ht)
  induction hrel with
  | touch ht => exact htouch ht
  | spend hx hoccx hown =>
    intro hpool
    refine hwant hpool (hw.derived.wants_of_spend hx hown ?_)
    rcases hv.poolSpends hpool _ hx hoccx with ⟨h, i, hat⟩ | hpool'
    · exact hw.rows.chain hv hp hat (.touch hown.touches)
    · exact htouch hown.touches hpool'
  | payload hvin hoccx hrelx hpay ih =>
    intro hpool
    refine hwant hpool (hw.rows.wants_of_payload hvin hpay ?_)
    rcases hv.poolSpends hpool _ (hvin ▸ List.mem_cons_self) hoccx with ⟨h, i, hat⟩ | hpool'
    · exact hw.rows.chain hv hp hat hrelx
    · exact ih hpool'
  | @note _ c r pos hoccc hr hn =>
    intro hpool
    refine hwant hpool (Scene.wants_of_nullifier hn ?_)
    obtain ⟨h, i, b, hat, hb, rfl⟩ := hv.poolReveals hpool hoccc hr hn
    have hrel : S.Rel c := .touch (Scene.touches_of_received hr)
    obtain ⟨row, hrow, href⟩ := hw.rows.complete
      ⟨h, i, b, hrel.above hv hp hat, hat, hb, rfl⟩ hrel
    refine (@Scene.Derived.notes _ _ hw.derived _ (S.fullRef b c h i)) ?_ ?_ hr
    · rw [Wallet.blockOf, hrow]
      exact href
    · simp [Scene.fullRef, List.ne_nil_of_mem hr]

/-! ## Rows that are gone -/

theorem forgetAll_get? (ts : List String) (w : Wallet) (t : String) :
    (ts.foldl forget w).wtx.get? t = (if t ∈ ts then none else w.wtx.get? t) ∧
      (ts.foldl forget w).parsed.get? t = if t ∈ ts then none else w.parsed.get? t := by
  induction ts generalizing w with
  | nil => simp
  | cons x ts ih =>
    rw [List.foldl_cons, (ih _).1, (ih _).2]
    simp only [forget, OrdMap.get?_erase, List.mem_cons]
    by_cases hx : x = t
    · simp [hx]
    · simp [hx, Ne.symm hx]

theorem forgetAll_frame (ts : List String) (w : Wallet) :
    KeysOnly S.env w { ts.foldl forget w with wtx := w.wtx, parsed := w.parsed } ∧
      (ts.foldl forget w).book = w.book ∧ (ts.foldl forget w).bundle = w.bundle ∧
      (ts.foldl forget w).issued = w.issued := by
  induction ts generalizing w with
  | nil => exact ⟨Proc.Path.refl w, rfl, rfl, rfl⟩
  | cons x ts ih =>
    obtain ⟨hk, hbook, hbundle, hissued⟩ := ih (forget w x)
    exact ⟨⟨hk.birthday, hk.tip, hk.recent, rfl, rfl, hk.mempoolSeen, hk.coins, hk.notes,
      hk.reacceptPending, hk.bundle⟩, hbook, hbundle, hissued⟩

theorem mem_gone {ids : List String} {t : String} : t ∈ w.gone ids ↔
    ∃ row, w.wtx.get? t = some row ∧ row.block = none ∧ t ∉ ids := by
  constructor
  · intro h
    obtain ⟨⟨_, row⟩, he, rfl⟩ := List.mem_map.mp h
    obtain ⟨he, hnone⟩ := List.mem_filter.mp he
    exact ⟨row, OrdMap.mem_entries.mp he, by simpa using hnone⟩
  · rintro ⟨row, hrow, hblock, hids⟩
    refine List.mem_map.mpr ⟨(t, row), List.mem_filter.mpr ⟨OrdMap.mem_entries.mpr hrow, ?_⟩, rfl⟩
    simp [hblock, hids]

/-- The rows of a wallet that has read a snapshot's chain and mempool. -/
structure Wallet.Pooled (S : Scene) (bound start : Nat) (node : Node) (w : Wallet) : Prop where
  rows : S.Rows (node.Placed S start) w
  keyed : S.Keyed bound w
  unplaced : ∀ {t row}, w.wtx.get? t = some row → row.block = none → node.Pool t
  pool : ∀ {t}, node.Pool t → S.Rel t → (w.wtx.get? t).isSome
  seen : ∀ t ∈ w.mempoolSeen, node.Pool t
  pending : w.reacceptPending → ∀ t, w.wtx.get? t = none

/-- Rows without a block that the mempool does not hold are forgotten. -/
theorem Scene.Held.pooled {ids seen : List String} (hw : S.Held bound (node.Placed S start) w)
    (hids : ∀ t, t ∈ ids ↔ node.Pool t) (hseen : ∀ t ∈ seen, t ∈ ids)
    (hpool : ∀ {t}, node.Pool t → S.Rel t → (w.wtx.get? t).isSome)
    (hpend : w.reacceptPending = false) :
    ((w.gone ids).foldl forget { w with mempoolSeen := seen }).Pooled S bound start node := by
  set w' := (w.gone ids).foldl forget { w with mempoolSeen := seen } with hw'
  have hwtx (t : String) : w'.wtx.get? t = if t ∈ w.gone ids then none else w.wtx.get? t :=
    (forgetAll_get? (w.gone ids) { w with mempoolSeen := seen } t).1
  have hparsed (t : String) : w'.parsed.get? t = if t ∈ w.gone ids then none else w.parsed.get? t :=
    (forgetAll_get? (w.gone ids) { w with mempoolSeen := seen } t).2
  have hkept {t : String} {row : WalletTx} (h : w'.wtx.get? t = some row) :
      t ∉ w.gone ids ∧ w.wtx.get? t = some row := by
    rw [hwtx] at h
    split_ifs at h with hg
    exact ⟨hg, h⟩
  obtain ⟨hk, hbook, hbundle, hissued⟩ :=
    forgetAll_frame (S := S) (w.gone ids) { w with mempoolSeen := seen }
  refine ⟨⟨fun h ↦ hw.rows.rel (hkept h).2, fun h ↦ hw.rows.placed (hkept h).2, ?_, fun t ↦ ?_⟩,
    ⟨?_, ?_, ?_, ?_, ?_⟩, ?_, ?_, ?_, ?_⟩
  · intro t ref href hrel
    obtain ⟨row, hrow, hblock⟩ := hw.rows.complete href hrel
    refine ⟨row, ?_, hblock⟩
    rw [hwtx, if_neg, hrow]
    rintro hg
    obtain ⟨row', hrow', hnone, -⟩ := mem_gone.mp hg
    obtain rfl : row = row' := Option.some.inj (hrow.symm.trans hrow')
    rw [hblock] at hnone
    cases hnone
  · rw [hwtx, hparsed, hw.rows.parsed t]
    split <;> rfl
  · rw [hw', hbook]
    exact hw.keyed.agrees
  · rw [hw', hbundle]
    exact hw.keyed.bundle
  · rw [hw', hbundle]
    exact hw.keyed.known
  · rw [hw', hissued]
    exact hw.keyed.external
  · rw [hw', hissued]
    exact hw.keyed.internal
  · intro t row hrow hblock
    obtain ⟨hg, hrow⟩ := hkept hrow
    by_contra hno
    exact hg (mem_gone.mpr ⟨row, hrow, hblock, fun hid ↦ hno ((hids t).mp hid)⟩)
  · intro t ht hrel
    rw [hwtx, if_neg]
    · exact hpool ht hrel
    · intro hg
      obtain ⟨-, -, -, hno⟩ := mem_gone.mp hg
      exact hno ((hids t).mpr ht)
  · intro t ht
    have hsame : w'.mempoolSeen = seen := hk.mempoolSeen
    exact (hids t).mp (hseen t (hsame ▸ ht))
  · intro hp
    have hsame : w'.reacceptPending = false := hk.reacceptPending.trans hpend
    rw [hsame] at hp
    cases hp

/-! ## The mempool -/

/-- `sync_mempool` after the whole chain was read. -/
theorem syncMempool_held (hroom : S.Roomy bound) (hv : node.Valid S) (hp : node.PaysFrom S start)
    (now : Int) (attempt : Nat) (hw : S.Held bound (node.Placed S start) w) :
    ∃ c w', syncMempool S.env .quiet node now attempt w = (.ok c, w') ∧
      w'.Pooled S bound start node ∧
      ((w.coins = w.allCoins ∧ w.notes = w.allNotes S.env) →
        w'.coins = w'.allCoins ∧ w'.notes = w'.allNotes S.env) := by
  have hno : reaccepted node w = [] := by
    unfold reaccepted
    split
    · rename_i hpend
      rw [List.map_eq_nil_iff, List.filter_eq_nil_iff]
      rintro ⟨t, row⟩ he
      have := hw.pending hpend (OrdMap.mem_entries.mp he)
      simp [Option.ne_none_iff_isSome.mpr this]
    · rfl
  set ids := (OrdMap.ofList (node.mempool.map fun t ↦ (t.txid, ()))).keys with hidsdef
  have hids (t : String) : t ∈ ids ↔ node.Pool t := by
    rw [hidsdef, OrdMap.mem_keys_ofList]
    simp [Node.Pool]
  set w₁ := { w with reacceptPending := false } with hw₁
  have hheld₁ : S.Held bound (node.Placed S start) w₁ :=
    ⟨⟨⟨hw.rows.rel, hw.rows.placed, hw.rows.complete, hw.rows.parsed⟩, ⟨hw.keyed.agrees,
      hw.keyed.bundle, hw.keyed.known, hw.keyed.external, hw.keyed.internal⟩, hw.seen,
      (nomatch ·)⟩, ⟨hw.derived.coins, hw.derived.coinsOf, hw.derived.notes, hw.derived.notesOf⟩⟩
  obtain ⟨fresh, hfresh, hmem, hall⟩ := (@readFresh_quiet attempt w node.mempool
    ids) fun t ht ↦ by
      obtain ⟨nt, hnt, rfl⟩ := (hids t).mp ht
      exact List.mem_map.mpr ⟨nt, hnt, rfl⟩
  obtain ⟨c, w₂, hadmit, hw₂, hadds, hsame, hwant⟩ := admitAll_held hroom hv now attempt
    (Nat.lt_succ_self fresh.length) (fun t ht ↦
      ⟨hv.poolTx t (hmem t ht).1, (hids t.txid).mp (hmem t ht).2⟩) hheld₁ rfl
  have hpool {t : String} (ht : node.Pool t) (hrel : S.Rel t) : (w₂.wtx.get? t).isSome := by
    refine hw₂.pool hv hp (fun {t} ht hwants ↦ ?_) hrel ht
    rcases hall t ((hids t).mpr ht) with hseen | hblock | ⟨nt, hnt, rfl⟩
    · obtain ⟨nt, hnt, rfl⟩ := ht
      exact hadds.rows _ (hw.seen _ hseen (hw₂.rows.rel_of_wants hw₂.derived hw₂.keyed.agrees
        (hv.poolTx nt hnt).occurs hwants))
    · obtain ⟨ref, href⟩ := Option.isSome_iff_exists.mp hblock
      obtain ⟨row, hrow, -⟩ := Option.bind_eq_some_iff.mp href
      exact hadds.rows t (by rw [hw₁, hrow]; rfl)
    · exact hwant nt hnt hwants
  set seen := (w₂.mempoolSeen ++ fresh.map NodeTx.txid).filter fun t ↦ ids.contains t with hseen
  have hpooled := (@Scene.Held.pooled _ _ _ _ _ _ seen hw₂) hids
    (fun t ht ↦ by simpa using (List.mem_filter.mp ht).2) hpool hadds.pending
  set w₃ := (w₂.gone ids).foldl forget { w₂ with mempoolSeen := seen } with hw₃
  have hrun {w' : Wallet} (h : when (ε := RpcError) (c || !(w₂.gone ids).isEmpty)
      (modify fun w ↦ w.rebuild S.env) w₃ = (.ok (), w')) :
      syncMempool S.env .quiet node now attempt w =
        (.ok (c || !(w₂.gone ids).isEmpty), w') := by
    unfold syncMempool
    refine bind_eq_ok.mpr ⟨node.mempool, w, rfl, bind_eq_ok.mpr ⟨w, w, rfl, ?_⟩⟩
    rw [hno, List.append_nil]
    exact bind_eq_ok.mpr ⟨(), w₁, rfl, bind_eq_ok.mpr ⟨fresh, w₁, by rw [lift_apply, hfresh],
      bind_eq_ok.mpr ⟨c, w₂, hadmit, bind_eq_ok.mpr ⟨w₂, w₂, rfl, bind_eq_ok.mpr ⟨(), w₃, rfl,
        bind_eq_ok.mpr ⟨(), w', h, rfl⟩⟩⟩⟩⟩⟩
  by_cases hchanged : (c || !(w₂.gone ids).isEmpty) = true
  · refine ⟨_, w₃.rebuild S.env, hrun ?_, ?_, fun _ ↦ ⟨rfl, rfl⟩⟩
    · rw [when, if_pos hchanged]
      rfl
    · exact ⟨hpooled.rows.congr rfl rfl, ⟨hpooled.keyed.agrees, hpooled.keyed.bundle,
        hpooled.keyed.known, hpooled.keyed.external, hpooled.keyed.internal⟩, hpooled.unplaced,
        hpooled.pool, hpooled.seen, hpooled.pending⟩
  · refine ⟨_, w₃, hrun ?_, hpooled, fun hold ↦ ?_⟩
    · rw [when, if_neg hchanged]
      rfl
    · -- nothing was taken up and nothing is gone, so the rows are those of before
      have hc : c = false := by
        cases hc : c with
        | false => rfl
        | true => simp [hc] at hchanged
      have hgone : w₂.gone ids = [] := by simpa [hc] using hchanged
      rw [hw₃, hgone, hsame hc]
      exact hold

end

end Yew.Daemon
