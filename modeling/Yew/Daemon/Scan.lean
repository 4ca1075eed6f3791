import Yew.Daemon.Relevance

/-!
# The scan of a chain

The invariant of a scan, transaction by transaction: the rows are transactions of the wallet, and
those of the part of the chain that was read are in their block.  Rows without a block may be left
over from an earlier chain; they are taken up like any other when the scan comes to them.

The loops are those of `scan_from` and `process_block` in `yewd/wallet/src/lib.rs`, with `admit` for
each transaction.  The scan is cut at transactions, so that a step lemma speaks of one of them.
-/

namespace Yew.Daemon

open Script Tx Pq Proto Proc Yellowback

namespace Scene

variable {S : Scene} {D D' : String → BlockRef → Prop} {w w' : Wallet} {bound : Nat}

/-! ## Rows -/

variable (S) in
/-- The rows of a wallet whose blocks are those `D` gives: they are transactions of the wallet, and
every transaction of the wallet with a place in `D` has its row there. -/
structure Rows (D : String → BlockRef → Prop) (w : Wallet) : Prop where
  rel : ∀ {t row}, w.wtx.get? t = some row → S.occurs t ∧ S.Rel t ∧ row.hex = S.bytes t
  placed : ∀ {t row ref}, w.wtx.get? t = some row → row.block = some ref → D t ref
  complete : ∀ {t ref}, D t ref → S.Rel t → ∃ row, w.wtx.get? t = some row ∧ row.block = some ref
  parsed : ∀ t, w.parsed.get? t = (w.wtx.get? t).map fun _ ↦ S.parsed t

variable (S) in
/-- The coins and notes of a wallet are of the scene, and those of its rows are among them. -/
structure Derived (w : Wallet) : Prop where
  coins : ∀ {t n}, (w.wtx.get? t).isSome → S.Owns t n → (t, n) ∈ w.ownOutpoints
  coinsOf : ∀ {c n}, (c, n) ∈ w.ownOutpoints → S.occurs c ∧ S.Owns c n
  notes : ∀ {t ref q r}, w.blockOf t = some ref → ref.saplingPos = some q →
    r ∈ (S.parsed t).received → S.env.view.nullifier r (q + r.outindex) ∈ w.ownNullifiers
  notesOf : ∀ {n}, n ∈ w.ownNullifiers → ∃ c r pos, S.occurs c ∧ r ∈ (S.parsed c).received ∧
    n = S.env.view.nullifier r pos

theorem Rows.congr (h : S.Rows D w) (hwtx : w'.wtx = w.wtx) (hparsed : w'.parsed = w.parsed) :
    S.Rows D w' where
  rel := by rw [hwtx]; exact h.rel
  placed := by rw [hwtx]; exact h.placed
  complete := by rw [hwtx]; exact h.complete
  parsed := by rw [hwtx, hparsed]; exact h.parsed

theorem Derived.congr (h : S.Derived w) (hwtx : w'.wtx = w.wtx) (hcoins : w'.coins = w.coins)
    (hnotes : w'.notes = w.notes) : S.Derived w' where
  coins := by rw [hwtx, Wallet.ownOutpoints, hcoins]; exact h.coins
  coinsOf := by rw [Wallet.ownOutpoints, hcoins]; exact h.coinsOf
  notes := by
    unfold Wallet.blockOf
    rw [hwtx, Wallet.ownNullifiers, hnotes]
    exact h.notes
  notesOf := by rw [Wallet.ownNullifiers, hnotes]; exact h.notesOf

theorem Rows.mem_parsed (h : S.Rows D w) {t : String} {p : Parsed} :
    (t, p) ∈ w.parsed.entries ↔ (w.wtx.get? t).isSome ∧ p = S.parsed t := by
  rw [OrdMap.mem_entries, h.parsed t]
  cases w.wtx.get? t with
  | none => simp
  | some row => simp [eq_comm]

theorem mem_coinsOf {book : KeyBook} {spent : String × UInt32 → Bool} {t : String} {p : Parsed}
    {height : Option Nat} {c : Coin} : c ∈ coinsOf book spent t p height →
      c.txid = t ∧ ∃ i o, p.tx.vout[i]? = some o ∧ UInt32.ofNat i = c.vout ∧
        book.ownsScript o.scriptPubkey = some c.owner := by
  intro hc
  obtain ⟨o, ho, hown⟩ := List.mem_filterMap.mp hc
  obtain ⟨owner, hown', rfl⟩ := Option.map_eq_some_iff.mp hown
  exact ⟨rfl, o.2, o.1, List.mem_zipIdx_iff_getElem?.mp ho, rfl, hown'⟩

theorem exists_coinsOf {book : KeyBook} {spent : String × UInt32 → Bool} {t : String} {p : Parsed}
    {height : Option Nat} {i : Nat} {o : TxOut} {owner : Owner} (ho : p.tx.vout[i]? = some o)
    (hown : book.ownsScript o.scriptPubkey = some owner) :
    ∃ c ∈ coinsOf book spent t p height, c.txid = t ∧ c.vout = UInt32.ofNat i := by
  refine ⟨⟨t, UInt32.ofNat i, o.value, o.scriptPubkey, owner, height, p.coinbase,
    spent (t, UInt32.ofNat i)⟩, List.mem_filterMap.mpr ⟨(o, i), ?_, ?_⟩, rfl, rfl⟩
  · exact List.mem_zipIdx_iff_getElem?.mpr ho
  · simp only [hown, Option.map_some]

/-- What `rebuild` derives from the rows. -/
theorem Rows.derived (h : S.Rows D w) (hb : S.Agrees w.book) : S.Derived (w.rebuild S.env) where
  coins := by
    rintro t n ht ⟨i, o, ho, rfl, hown⟩
    obtain ⟨row, hrow⟩ := Option.isSome_iff_exists.mp ht
    have hocc := (h.rel hrow).1
    rw [← hb.ownsScript hocc (List.mem_of_getElem? ho)] at hown
    obtain ⟨owner, hown⟩ := Option.isSome_iff_exists.mp hown
    obtain ⟨c, hc, htx, hi⟩ := (@exists_coinsOf _ (fun o ↦ o ∈ w.spentOutpoints) t _
      ((w.blockOf t).map fun b ↦ b.height) _ _ _) ho hown
    refine List.mem_map.mpr ⟨c, ?_, by rw [htx, hi]⟩
    simp only [Wallet.rebuild, Wallet.allCoins, List.mem_insertionSort]
    exact List.mem_flatMap.mpr ⟨(t, S.parsed t), h.mem_parsed.mpr ⟨ht, rfl⟩, hc⟩
  coinsOf := by
    intro c n hc
    obtain ⟨coin, hcoin, hcn⟩ := List.mem_map.mp hc
    simp only [Wallet.rebuild, Wallet.allCoins, List.mem_insertionSort] at hcoin
    obtain ⟨⟨t, p⟩, ht, hcoin⟩ := List.mem_flatMap.mp hcoin
    obtain ⟨hrow, rfl⟩ := h.mem_parsed.mp ht
    obtain ⟨htx, i, o, ho, hi, hown⟩ := mem_coinsOf hcoin
    obtain ⟨rfl, rfl⟩ : coin.txid = c ∧ coin.vout = n := by simpa using hcn
    obtain ⟨row, hrow⟩ := Option.isSome_iff_exists.mp hrow
    have hocc := (h.rel hrow).1
    rw [htx]
    refine ⟨hocc, i, o, ho, hi, ?_⟩
    rw [← hb.ownsScript hocc (List.mem_of_getElem? ho), hown]
    rfl
  notes := by
    intro t ref q r href hq hr
    have hrow : (w.wtx.get? t).isSome := by
      cases hw : w.wtx.get? t with
      | none => simp [Wallet.blockOf, Wallet.rebuild, hw] at href
      | some row => rfl
    refine List.mem_filterMap.mpr ⟨_, List.mem_flatMap.mpr
      ⟨(t, S.parsed t), h.mem_parsed.mpr ⟨hrow, rfl⟩, List.mem_map.mpr ⟨r, hr, rfl⟩⟩, ?_⟩
    have href' : w.blockOf t = some ref := href
    simp [href', hq]
  notesOf := by
    intro n hn
    obtain ⟨note, hnote, hnf⟩ := List.mem_filterMap.mp hn
    obtain ⟨⟨t, p⟩, ht, hnote⟩ := List.mem_flatMap.mp hnote
    obtain ⟨hrow, rfl⟩ := h.mem_parsed.mp ht
    obtain ⟨row, hrow⟩ := Option.isSome_iff_exists.mp hrow
    obtain ⟨r, hr, rfl⟩ := List.mem_map.mp hnote
    obtain ⟨pos, -, hpos⟩ := Option.map_eq_some_iff.mp hnf
    exact ⟨t, r, pos, (h.rel hrow).1, hr, hpos.symm⟩

/-! ## What a wallet wants -/

theorem Rows.spendsPayload (h : S.Rows D w) {p : Parsed} :
    w.spendsPayload p ↔ ∃ i is, p.tx.vin = i :: is ∧
      (w.wtx.get? (txidHex i.prevout.txid)).isSome ∧
      (findPayload (S.parsed (txidHex i.prevout.txid)).tx).isSome := by
  unfold Wallet.spendsPayload
  cases hvin : p.tx.vin with
  | nil => simp
  | cons i is =>
    have hparsed := h.parsed (txidHex i.prevout.txid)
    cases hrow : w.wtx.get? (txidHex i.prevout.txid) with
    | none =>
      rw [hrow] at hparsed
      simp [hparsed, hrow]
    | some row =>
      rw [hrow] at hparsed
      simp [hparsed, hrow]

theorem relevant_iff {p : Parsed} : w.relevant p ↔
    (∃ o ∈ p.tx.vout, (w.book.ownsScript o.scriptPubkey).isSome) ∨
      (∃ i ∈ p.tx.vin, TxIn.spends i ∈ w.ownOutpoints) ∨ p.received ≠ [] ∨
      (∃ n ∈ p.nullifiers, n ∈ w.ownNullifiers) ∨ p.ownedTemplates ≠ [] ∨ w.spendsPayload p := by
  simp only [Wallet.relevant, Bool.or_eq_true, List.any_eq_true, decide_eq_true_eq,
    Bool.not_eq_true', List.isEmpty_eq_false_iff, or_assoc]

/-- What a wallet wants is a transaction of the wallet. -/
theorem Rows.rel_of_wants (h : S.Rows D w) (hd : S.Derived w) (hb : S.Agrees w.book) {t : String}
    (ht : S.occurs t) (hw : w.wants t (S.parsed t)) : S.Rel t := by
  rcases (Bool.or_eq_true _ _).mp hw with hknown | hrel
  · obtain ⟨row, hrow⟩ := Option.isSome_iff_exists.mp hknown
    exact (h.rel hrow).2.1
  rcases relevant_iff.mp hrel with ⟨o, ho, hown⟩ | ⟨i, hi, hown⟩ | hr | ⟨n, hn, hown⟩ | ht' | hpay
  · rw [hb.ownsScript ht ho] at hown
    exact .touch (.inl ⟨o, ho, hown⟩)
  · obtain ⟨hocc, hown⟩ := hd.coinsOf hown
    exact .spend hi hocc hown
  · exact .touch (.inr (.inl hr))
  · obtain ⟨c, r, pos, hocc, hr, rfl⟩ := hd.notesOf hown
    exact .note hocc hr hn
  · exact .touch (.inr (.inr ht'))
  · obtain ⟨i, is, hvin, hrow, hpay⟩ := h.spendsPayload.mp hpay
    obtain ⟨row, hrow⟩ := Option.isSome_iff_exists.mp hrow
    exact .payload hvin (h.rel hrow).1 (h.rel hrow).2.1 hpay

theorem wants_of_relevant {t : String} {p : Parsed} (h : w.relevant p) : w.wants t p :=
  (Bool.or_eq_true _ _).mpr (.inr h)

theorem Agrees.wants_of_touches (hb : S.Agrees w.book) {t : String} (ht : S.occurs t)
    (htouch : S.Touches t) : w.wants t (S.parsed t) := by
  refine wants_of_relevant (relevant_iff.mpr ?_)
  rcases htouch with ⟨o, ho, hown⟩ | hr | htpl
  · exact .inl ⟨o, ho, by rw [hb.ownsScript ht ho]; exact hown⟩
  · exact .inr (.inr (.inl hr))
  · exact .inr (.inr (.inr (.inr (.inl htpl))))

theorem Derived.wants_of_spend (hd : S.Derived w) {t : String} {x : TxIn} (hx : x ∈ S.vin t)
    (hown : S.Owns (txidHex x.prevout.txid) x.prevout.n)
    (hrow : (w.wtx.get? (txidHex x.prevout.txid)).isSome) : w.wants t (S.parsed t) :=
  wants_of_relevant (relevant_iff.mpr (.inr (.inl ⟨x, hx, hd.coins hrow hown⟩)))

theorem wants_of_nullifier {t : String} {n : Arr 32} (hn : n ∈ (S.parsed t).nullifiers)
    (hown : n ∈ w.ownNullifiers) : w.wants t (S.parsed t) :=
  wants_of_relevant (relevant_iff.mpr (.inr (.inr (.inr (.inl ⟨n, hn, hown⟩)))))

theorem Rows.wants_of_payload (h : S.Rows D w) {t : String} {x : TxIn} {xs : List TxIn}
    (hvin : S.vin t = x :: xs) (hpay : (findPayload (S.parsed (txidHex x.prevout.txid)).tx).isSome)
    (hrow : (w.wtx.get? (txidHex x.prevout.txid)).isSome) : w.wants t (S.parsed t) :=
  wants_of_relevant (relevant_iff.mpr (.inr (.inr (.inr (.inr (.inr
    (h.spendsPayload.mpr ⟨x, xs, hvin, hrow, hpay⟩)))))))

/-! ## Writing a row -/

/-- One more row, in the place `D'` gives it. -/
theorem Rows.insert (h : S.Rows D w) {t : String} {block : Option BlockRef} {received : Int}
    (ht : S.occurs t) (hrel : S.Rel t)
    (hD : ∀ t' ref, D' t' ref ↔ t' ≠ t ∧ D t' ref ∨ t' = t ∧ block = some ref)
    (hwtx : w'.wtx = w.wtx.insert t ⟨S.bytes t, block, received⟩)
    (hparsed : w'.parsed = w.parsed.insert t (S.parsed t)) : S.Rows D' w' where
  rel {t' row} hrow := by
    rw [hwtx, OrdMap.get?_insert] at hrow
    split_ifs at hrow with heq
    · cases hrow
      exact heq ▸ ⟨ht, hrel, rfl⟩
    · exact h.rel hrow
  placed {t' row ref} hrow href := by
    rw [hwtx, OrdMap.get?_insert] at hrow
    split_ifs at hrow with heq
    · cases hrow
      exact (hD t' ref).mpr (.inr ⟨heq.symm, href⟩)
    · exact (hD t' ref).mpr (.inl ⟨Ne.symm heq, h.placed hrow href⟩)
  complete {t' ref} href hrel' := by
    rw [hwtx, OrdMap.get?_insert]
    rcases (hD t' ref).mp href with ⟨hne, hd⟩ | ⟨rfl, hblock⟩
    · rw [if_neg (Ne.symm hne)]
      exact h.complete hd hrel'
    · rw [if_pos rfl]
      exact ⟨_, rfl, hblock⟩
  parsed t' := by
    rw [hwtx, hparsed, OrdMap.get?_insert, OrdMap.get?_insert]
    split
    · rename_i heq
      rw [heq]
      rfl
    · exact h.parsed t'

variable (S bound) in
/-- A wallet in the middle of a sync, but for what is derived: its rows are in the places of `D`;
what it saw of the mempool and did not take was not the wallet's; and before the first mempool
read every row has a block. -/
structure Bare (D : String → BlockRef → Prop) (w : Wallet) : Prop where
  rows : S.Rows D w
  keyed : S.Keyed bound w
  seen : ∀ t ∈ w.mempoolSeen, S.Rel t → (w.wtx.get? t).isSome
  pending : w.reacceptPending → ∀ {t row}, w.wtx.get? t = some row → row.block.isSome

variable (S bound) in
/-- A wallet in the middle of a sync. -/
structure Held (D : String → BlockRef → Prop) (w : Wallet) : Prop extends S.Bare bound D w where
  derived : S.Derived w

theorem Bare.keysOnly (h : S.Bare bound D w) (hk : KeysOnly S.env w w')
    (hkeyed : S.Keyed bound w') : S.Bare bound D w' where
  rows := h.rows.congr hk.wtx hk.parsed
  keyed := hkeyed
  seen := by rw [hk.mempoolSeen, hk.wtx]; exact h.seen
  pending := by rw [hk.reacceptPending, hk.wtx]; exact h.pending

theorem Held.keysOnly (h : S.Held bound D w) (hk : KeysOnly S.env w w')
    (hkeyed : S.Keyed bound w') : S.Held bound D w' where
  toBare := h.toBare.keysOnly hk hkeyed
  derived := h.derived.congr hk.wtx hk.coins hk.notes

theorem Bare.rebuild (h : S.Bare bound D w) : S.Held bound D (w.rebuild S.env) where
  rows := h.rows.congr rfl rfl
  keyed := ⟨h.keyed.agrees, h.keyed.bundle, h.keyed.known, h.keyed.external, h.keyed.internal⟩
  seen := h.seen
  pending := h.pending
  derived := h.rows.derived h.keyed.agrees

/-- The keys follow, and nothing else changes. -/
theorem Keyed.followKeys (hroom : S.Roomy bound) (h : S.Keyed bound w) {ε : Type}
    (f : RpcError → ε) (moved : Bool) :
    ∃ w', Daemon.followKeys S.env f none moved w = (.ok (), w') ∧ KeysOnly S.env w w' ∧
      S.Keyed bound w' := by
  have hmoves := @keysOnly_followKeys S.env _ f none moved w
  cases moved with
  | false => exact ⟨w, rfl, Proc.Path.refl w, h⟩
  | true =>
    obtain ⟨_, w', hrun, hw'⟩ := (Keyed.refreshKeys hroom).exists_ok h
    have hfollow : Daemon.followKeys S.env f none true w = (.ok (), w') := by
      simp [Daemon.followKeys, when, hrun, Except.mapError]
    rw [hfollow] at hmoves
    exact ⟨w', hfollow, hmoves, hw'⟩

/-- `admit` of a transaction of the wallet. -/
theorem Bare.admitRow (hroom : S.Roomy bound) (h : S.Bare bound D w) (now : Int) {t : String}
    {block : Option BlockRef} (ht : S.occurs t) (hrel : S.Rel t)
    (hD : ∀ t' ref, D' t' ref ↔ t' ≠ t ∧ D t' ref ∨ t' = t ∧ block = some ref)
    (hblock : w.reacceptPending → block.isSome) :
    S.Bare bound D' (w.admitRow now t (S.bytes t) block (S.parsed t)).2 := by
  have hkeys : KeysOnly S.env w _ := keysOnly_markAll (w.keysUsed (S.parsed t)) w
  have hkeyed := h.keyed.markAll (h.keyed.keysUsed hroom ht)
  set w₁ := (w.admitRow now t (S.bytes t) block (S.parsed t)).2 with hw₁
  obtain ⟨received, hwtx⟩ :
      ∃ received, w₁.wtx = w.wtx.insert t ⟨S.bytes t, block, received⟩ := by
    rw [← hkeys.wtx]
    exact ⟨_, rfl⟩
  have hparsed : w₁.parsed = w.parsed.insert t (S.parsed t) := by
    rw [← hkeys.parsed]
    rfl
  refine ⟨h.rows.insert ht hrel hD hwtx hparsed, ⟨hkeyed.agrees, hkeyed.bundle, hkeyed.known,
    hkeyed.external, hkeyed.internal⟩, fun t' ht' hrel' ↦ ?_, fun hp t' row hrow ↦ ?_⟩
  · have hseen := h.seen t' (hkeys.mempoolSeen ▸ ht') hrel'
    rw [hwtx, OrdMap.get?_insert]
    split
    · rfl
    · exact hseen
  · have hpend : w.reacceptPending = true := hkeys.reacceptPending ▸ hp
    rw [hwtx, OrdMap.get?_insert] at hrow
    split_ifs at hrow
    · cases hrow
      exact hblock hpend
    · exact h.pending hpend hrow

end Scene

/-! ## A block -/

/-- The places of the chain that have been read, from a height on: the blocks below `h` with their
notes placed, and the first `i` transactions of block `h` without. -/
def Node.Done (S : Scene) (node : Node) (start h i : Nat) (t : String) (ref : BlockRef) : Prop :=
  ∃ h' i' b, start ≤ h' ∧ node.At h' i' t ∧ node.chain[h']? = some b ∧
    (h' < h ∧ ref = S.fullRef b t h' i' ∨ h' = h ∧ i' < i ∧ ref = Scene.bareRef b h' i')

/-- What has been gathered from the first `i` transactions of a block. -/
structure Gathered.Of (S : Scene) (b : Block) (i : Nat) (g : Gathered) : Prop where
  outputsBefore : g.outputsBefore = S.outputsBefore b i
  admitted : ∀ e, e ∈ g.admitted ↔ ∃ j nt, j < i ∧ b.txs[j]? = some nt ∧
    (S.parsed nt.txid).received ≠ [] ∧ e = (nt.txid, S.outputsBefore b j)

section Block

variable {S : Scene} {node : Node} {w : Wallet} {bound start h : Nat} {b : Block}

theorem Node.At.of {i : Nat} {nt : NodeTx} (hb : node.chain[h]? = some b)
    (hnt : b.txs[i]? = some nt) : node.At h i nt.txid := ⟨b, nt, hb, hnt, rfl⟩

theorem Node.At.eq {i : Nat} {nt : NodeTx} {t : String} (hat : node.At h i t)
    (hb : node.chain[h]? = some b) (hnt : b.txs[i]? = some nt) : t = nt.txid := by
  obtain ⟨b', nt', hb', hnt', rfl⟩ := hat
  obtain rfl : b = b' := Option.some.inj (hb.symm.trans hb')
  obtain rfl : nt = nt' := Option.some.inj (hnt.symm.trans hnt')
  rfl

/-- One more transaction of a block has been read. -/
theorem Node.done_succ (hv : node.Valid S) (hstart : start ≤ h) {i : Nat} {nt : NodeTx}
    (hb : node.chain[h]? = some b) (hnt : b.txs[i]? = some nt) (t : String) (ref : BlockRef) :
    node.Done S start h (i + 1) t ref ↔ t ≠ nt.txid ∧ node.Done S start h i t ref ∨
      t = nt.txid ∧ some (Scene.bareRef b h i) = some ref := by
  have hat := Node.At.of hb hnt
  constructor
  · rintro ⟨h', i', b', hs, hat', hb', ⟨hlt, rfl⟩ | ⟨rfl, hlt, rfl⟩⟩
    · refine .inl ⟨?_, h', i', b', hs, hat', hb', .inl ⟨hlt, rfl⟩⟩
      rintro rfl
      exact hlt.ne (hv.once hat' hat).1
    · obtain rfl : b = b' := Option.some.inj (hb.symm.trans hb')
      rcases Nat.lt_succ_iff_lt_or_eq.mp hlt with hlt | rfl
      · refine .inl ⟨?_, h', i', b, hs, hat', hb', .inr ⟨rfl, hlt, rfl⟩⟩
        rintro rfl
        exact hlt.ne (hv.once hat' hat).2
      · exact .inr ⟨hat'.eq hb hnt, rfl⟩
  · rintro (⟨-, h', i', b', hs, hat', hb', hcase⟩ | ⟨rfl, href⟩)
    · refine ⟨h', i', b', hs, hat', hb', hcase.imp_right ?_⟩
      rintro ⟨rfl, hlt, rfl⟩
      exact ⟨rfl, hlt.trans (Nat.lt_succ_self i), rfl⟩
    · cases href
      exact ⟨h, i, b, hstart, hat, hb, .inr ⟨rfl, Nat.lt_succ_self i, rfl⟩⟩

theorem Scene.outputsBefore_succ (S : Scene) {i : Nat} {nt : NodeTx} (hnt : b.txs[i]? = some nt) :
    S.outputsBefore b (i + 1) = S.outputsBefore b i + (S.parsed nt.txid).saplingOutputs := by
  simp [Scene.outputsBefore, List.take_add_one, hnt]

/-- At its place in the chain, a wallet wants a transaction exactly when it is the wallet's. -/
theorem wants_iff_rel (hv : node.Valid S) (hp : node.PaysFrom S start) {i : Nat} {nt : NodeTx}
    (hb : node.chain[h]? = some b) (hnt : b.txs[i]? = some nt)
    (hw : S.Held bound (node.Done S start h i) w) :
    w.wants nt.txid (S.parsed nt.txid) ↔ S.Rel nt.txid := by
  have hocc := (hv.chainTx b (List.mem_of_getElem? hb) nt (List.mem_of_getElem? hnt)).occurs
  have hat := Node.At.of hb hnt
  refine ⟨hw.rows.rel_of_wants hw.derived hw.keyed.agrees hocc, fun hrel ↦ ?_⟩
  have hrow {x : TxIn} (hx : x ∈ S.vin nt.txid) (hoccx : S.occurs (txidHex x.prevout.txid))
      (hrelx : S.Rel (txidHex x.prevout.txid)) :
      (w.wtx.get? (txidHex x.prevout.txid)).isSome := by
    obtain ⟨h', i', hlt, hat'⟩ := hv.spends hat x hx hoccx
    have hs := hrelx.above hv hp hat'
    obtain ⟨b', nt', hb', hnt', -⟩ := id hat'
    rcases hlt with hlt | ⟨rfl, hlt⟩
    · obtain ⟨row, hrow, -⟩ := hw.rows.complete
        ⟨h', i', b', hs, hat', hb', .inl ⟨hlt, rfl⟩⟩ hrelx
      rw [hrow]
      rfl
    · obtain ⟨row, hrow, -⟩ := hw.rows.complete
        ⟨h', i', b', hs, hat', hb', .inr ⟨rfl, hlt, rfl⟩⟩ hrelx
      rw [hrow]
      rfl
  cases hrel with
  | touch ht => exact hw.keyed.agrees.wants_of_touches hocc ht
  | spend hx hoccx hown =>
    exact hw.derived.wants_of_spend hx hown (hrow hx hoccx (.touch hown.touches))
  | payload hvin hoccx hrelx hpay =>
    exact hw.rows.wants_of_payload hvin hpay (hrow (hvin ▸ List.mem_cons_self) hoccx hrelx)
  | @note _ c r pos hoccc hr hn =>
    refine Scene.wants_of_nullifier hn ?_
    obtain ⟨h', i', b', hlt, hat', hb', rfl⟩ := hv.reveals hat hoccc hr hn
    have htouch := Scene.touches_of_received hr
    obtain ⟨row, hrow, href⟩ := hw.rows.complete
      ⟨h', i', b', hp hat' htouch, hat', hb', .inl ⟨hlt, rfl⟩⟩ (.touch htouch)
    refine (@Scene.Derived.notes _ _ hw.derived _ (S.fullRef b' c h' i')) ?_ ?_ hr
    · rw [Wallet.blockOf, hrow]
      exact href
    · simp [Scene.fullRef, List.ne_nil_of_mem hr]

theorem Gathered.Of.add {g : Gathered} {i : Nat} {nt : NodeTx} (hg : g.Of S b i)
    (hnt : b.txs[i]? = some nt) (hwants : (S.parsed nt.txid).received ≠ [] →
      w.wants nt.txid (S.parsed nt.txid)) :
    (g.add S.env w nt (S.parsed nt.txid)).Of S b (i + 1) where
  outputsBefore := by
    rw [S.outputsBefore_succ hnt, ← hg.outputsBefore]
    rfl
  admitted e := by
    have hold : e ∈ g.admitted ↔ ∃ j nt, j < i ∧ b.txs[j]? = some nt ∧
      (S.parsed nt.txid).received ≠ [] ∧ e = (nt.txid, S.outputsBefore b j) := hg.admitted e
    have hnew : e ∈ (g.add S.env w nt (S.parsed nt.txid)).admitted ↔ e ∈ g.admitted ∨
        (S.parsed nt.txid).received ≠ [] ∧ e = (nt.txid, S.outputsBefore b i) := by
      by_cases hr : (S.parsed nt.txid).received = []
      · simp [Gathered.add, hr]
      · simp [Gathered.add, hr, hwants hr, hg.outputsBefore]
    rw [hnew, hold]
    constructor
    · rintro (⟨j, nt', hj, hnt', hr, rfl⟩ | ⟨hr, rfl⟩)
      · exact ⟨j, nt', hj.trans (Nat.lt_succ_self i), hnt', hr, rfl⟩
      · exact ⟨i, nt, Nat.lt_succ_self i, hnt, hr, rfl⟩
    · rintro ⟨j, nt', hj, hnt', hr, rfl⟩
      rcases Nat.lt_succ_iff_lt_or_eq.mp hj with hj | rfl
      · exact .inl ⟨j, nt', hj, hnt', hr, rfl⟩
      · obtain rfl : nt = nt' := Option.some.inj (hnt.symm.trans hnt')
        exact .inr ⟨hr, rfl⟩

/-- One transaction of a block, read. -/
theorem processTx_held (hroom : S.Roomy bound) (hv : node.Valid S) (hp : node.PaysFrom S start)
    (hstart : start ≤ h) (now : Int) (attempt : Nat) {i : Nat} {nt : NodeTx} {g : Gathered}
    (hb : node.chain[h]? = some b) (hnt : b.txs[i]? = some nt)
    (hw : S.Held bound (node.Done S start h i) w) (hg : g.Of S b i) :
    ∃ g' w', processTx S.env .quiet now attempt h b g (nt, i) w = (.ok g', w') ∧
      S.Held bound (node.Done S start h (i + 1)) w' ∧ g'.Of S b (i + 1) := by
  have hmeans := hv.chainTx b (List.mem_of_getElem? hb) nt (List.mem_of_getElem? hnt)
  have hwants := wants_iff_rel hv hp hb hnt hw
  have hdone := Node.done_succ hv hstart hb hnt
  have hg' := hg.add (w := w) hnt fun hr ↦ hwants.mpr (.touch (.inr (.inl hr)))
  have hrun {w' : Wallet} (hw' : when (w.wants nt.txid (S.parsed nt.txid))
      (takeUp S.env .quiet now attempt h b (nt, i) (S.parsed nt.txid)) w = (.ok (), w')) :
      processTx S.env .quiet now attempt h b g (nt, i) w =
        (.ok (g.add S.env w nt (S.parsed nt.txid)), w') := by
    refine bind_eq_ok.mpr ⟨w, w, rfl, bind_eq_ok.mpr ⟨S.parsed nt.txid, w, ?_, ?_⟩⟩
    · rw [hw.keyed.agrees.parseTx hmeans]
      rfl
    · exact bind_eq_ok.mpr ⟨(), w', hw', rfl⟩
  by_cases hrel : S.Rel nt.txid
  · -- the row is written, the derived rows follow, and then the keys
    have hadmit := ((@Scene.Bare.admitRow _ _ (node.Done S start h (i + 1)) _ _ hroom hw.toBare now)
      hmeans.occurs hrel hdone fun _ ↦ rfl).rebuild
    rw [← hmeans.bytes] at hadmit
    obtain ⟨w', hfollow, hkeys, hkeyed⟩ := hadmit.keyed.followKeys hroom ScanError.rpc
      (w.admitRow now nt.txid nt.bytes (some (Scene.bareRef b h i)) (S.parsed nt.txid)).1
    refine ⟨_, w', hrun ?_, hadmit.keysOnly hkeys hkeyed, hg'⟩
    rw [when, if_pos (hwants.mpr hrel)]
    exact bind_eq_ok.mpr ⟨_, _, rfl, bind_eq_ok.mpr ⟨(), _, rfl, hfollow⟩⟩
  · have hno : ¬ w.wants nt.txid (S.parsed nt.txid) := fun hwt ↦ hrel (hwants.mp hwt)
    refine ⟨_, w, hrun ?_, ⟨⟨⟨hw.rows.rel, ?_, ?_, hw.rows.parsed⟩, hw.keyed, hw.seen,
      hw.pending⟩, hw.derived⟩, hg'⟩
    · rw [when, if_neg hno]
      rfl
    · intro t row ref hrow href
      refine (hdone t ref).mpr (.inl ⟨?_, hw.rows.placed hrow href⟩)
      rintro rfl
      exact hrel (hw.rows.rel hrow).2.1
    · intro t ref href hrelt
      rcases (hdone t ref).mp href with ⟨-, hd⟩ | ⟨rfl, -⟩
      · exact hw.rows.complete hd hrelt
      · exact absurd hrelt hrel

/-- The transactions of a block from the `i`-th on, read. -/
theorem processTxs_held (hroom : S.Roomy bound) (hv : node.Valid S) (hp : node.PaysFrom S start)
    (hstart : start ≤ h) (now : Int) (attempt : Nat) (hb : node.chain[h]? = some b)
    {pre ts : List NodeTx} (hts : b.txs = pre ++ ts) {w : Wallet} {g : Gathered}
    (hw : S.Held bound (node.Done S start h pre.length) w) (hg : g.Of S b pre.length) :
    ∃ g' w', processTxs S.env .quiet now attempt h b g (ts.zipIdx pre.length) w = (.ok g', w') ∧
      S.Held bound (node.Done S start h b.txs.length) w' ∧ g'.Of S b b.txs.length := by
  induction ts generalizing pre w g with
  | nil =>
    have hlen : b.txs.length = pre.length := by rw [hts, List.append_nil]
    rw [hlen]
    exact ⟨g, w, rfl, hw, hg⟩
  | cons t ts ih =>
    have hnt : b.txs[pre.length]? = some t := by simp [hts]
    obtain ⟨g₁, w₁, hrun, hw₁, hg₁⟩ := processTx_held hroom hv hp hstart now attempt hb hnt hw hg
    have hts' : b.txs = (pre ++ [t]) ++ ts := by simp [hts]
    have hlen : (pre ++ [t]).length = pre.length + 1 := by simp
    obtain ⟨g', w', hrest, hw', hg'⟩ := ih hts' (by rw [hlen]; exact hw₁) (by rw [hlen]; exact hg₁)
    refine ⟨g', w', ?_, hw', hg'⟩
    rw [List.zipIdx_cons, processTxs, bind_apply, hrun, ← hlen]
    exact hrest

/-! ### The places of the notes -/

/-- A row with the place of its first Sapling output. -/
def WalletTx.at (pos : Nat) (row : WalletTx) : WalletTx :=
  { row with block := row.block.map fun b ↦ { b with saplingPos := some pos } }

theorem setPosition_wtx (base : Nat) (w : Wallet) (e : String × Nat) (t : String) :
    (setPosition base w e).wtx.get? t =
      if e.1 = t then (w.wtx.get? t).map (WalletTx.at (base + e.2)) else w.wtx.get? t := by
  unfold setPosition
  split
  · rename_i hnone
    split
    · rename_i heq
      rw [← heq, hnone]
      rfl
    · rfl
  · rename_i row hrow
    simp only [OrdMap.get?_insert]
    split
    · rename_i heq
      rw [← heq, hrow]
      rfl
    · rfl

theorem setPositions_wtx {base : Nat} {es : List (String × Nat)}
    (huniq : ∀ e ∈ es, ∀ e' ∈ es, e.1 = e'.1 → e = e') (w : Wallet) (t : String) :
    (∀ pos, (t, pos) ∈ es →
      (es.foldl (setPosition base) w).wtx.get? t = (w.wtx.get? t).map (WalletTx.at (base + pos))) ∧
    ((∀ pos, (t, pos) ∉ es) → (es.foldl (setPosition base) w).wtx.get? t = w.wtx.get? t) := by
  induction es generalizing w with
  | nil => exact ⟨fun _ h ↦ (nomatch h), fun _ ↦ rfl⟩
  | cons e es ih =>
    obtain ⟨hin, hout⟩ := ih (fun a ha a' ha' ↦ huniq a (List.mem_cons_of_mem e ha) a'
      (List.mem_cons_of_mem e ha')) (setPosition base w e)
    have hmap (o : Option WalletTx) (pos : Nat) :
        (o.map (WalletTx.at pos)).map (WalletTx.at pos) = o.map (WalletTx.at pos) := by
      cases o with
      | none => rfl
      | some row =>
        simp only [Option.map_some, WalletTx.at]
        cases row.block <;> rfl
    constructor
    · intro pos hpos
      rw [List.foldl_cons]
      rcases List.mem_cons.mp hpos with rfl | hmem
      · by_cases hagain : (t, pos) ∈ es
        · rw [hin pos hagain, setPosition_wtx, if_pos rfl, hmap]
        · rw [hout, setPosition_wtx, if_pos rfl]
          intro pos' hpos'
          have := huniq (t, pos) List.mem_cons_self (t, pos') (List.mem_cons_of_mem _ hpos') rfl
          cases this
          exact hagain hpos'
      · rw [hin pos hmem, setPosition_wtx]
        split
        · rename_i heq
          have : e = (t, pos) := huniq e List.mem_cons_self _ hpos heq
          rw [this, hmap]
        · rfl
    · intro hno
      rw [List.foldl_cons, hout fun pos hpos ↦ hno pos (List.mem_cons_of_mem e hpos),
        setPosition_wtx, if_neg]
      intro heq
      exact hno e.2 (heq ▸ List.mem_cons_self)

theorem setPosition_parsed (base : Nat) (w : Wallet) (e : String × Nat) :
    (setPosition base w e).parsed = w.parsed ∧ (setPosition base w e).book = w.book ∧
      (setPosition base w e).bundle = w.bundle ∧ (setPosition base w e).issued = w.issued ∧
      (setPosition base w e).mempoolSeen = w.mempoolSeen ∧
      (setPosition base w e).reacceptPending = w.reacceptPending := by
  unfold setPosition
  split <;> exact ⟨rfl, rfl, rfl, rfl, rfl, rfl⟩

theorem setPositions_parsed (base : Nat) (es : List (String × Nat)) (w : Wallet) :
    (es.foldl (setPosition base) w).parsed = w.parsed ∧
      (es.foldl (setPosition base) w).book = w.book ∧
      (es.foldl (setPosition base) w).bundle = w.bundle ∧
      (es.foldl (setPosition base) w).issued = w.issued ∧
      (es.foldl (setPosition base) w).mempoolSeen = w.mempoolSeen ∧
      (es.foldl (setPosition base) w).reacceptPending = w.reacceptPending := by
  induction es generalizing w with
  | nil => exact ⟨rfl, rfl, rfl, rfl, rfl, rfl⟩
  | cons e es ih =>
    obtain ⟨h₁, h₂, h₃, h₄, h₅, h₆⟩ := setPosition_parsed base w e
    obtain ⟨k₁, k₂, k₃, k₄, k₅, k₆⟩ := ih (setPosition base w e)
    exact ⟨k₁.trans h₁, k₂.trans h₂, k₃.trans h₃, k₄.trans h₄, k₅.trans h₅, k₆.trans h₆⟩

/-- The rows of a block that was read to its end, with their notes placed. -/
theorem Scene.Bare.setPositions (hv : node.Valid S) (hb : node.chain[h]? = some b)
    {es : List (String × Nat)}
    (hes : ∀ e, e ∈ es ↔ ∃ j nt, j < b.txs.length ∧ b.txs[j]? = some nt ∧
      (S.parsed nt.txid).received ≠ [] ∧ e = (nt.txid, S.outputsBefore b j))
    (hw : S.Bare bound (node.Done S start h b.txs.length) w) :
    S.Bare bound (node.Done S start (h + 1) 0)
      (es.foldl (setPosition (b.saplingSize.getD 0 - S.outputsBefore b b.txs.length)) w) := by
  set base := b.saplingSize.getD 0 - S.outputsBefore b b.txs.length with hbase
  have huniq : ∀ e ∈ es, ∀ e' ∈ es, e.1 = e'.1 → e = e' := by
    intro e he e' he' heq
    obtain ⟨j, nt, -, hnt, -, rfl⟩ := (hes e).mp he
    obtain ⟨j', nt', -, hnt', -, rfl⟩ := (hes e').mp he'
    have hat : node.At h j nt.txid := Node.At.of hb hnt
    have hat' : node.At h j' nt'.txid := Node.At.of hb hnt'
    dsimp only at heq
    rw [← heq] at hat'
    rw [heq, (hv.once hat hat').2]
  have hget (t : String) := @setPositions_wtx base _ huniq w t
  obtain ⟨hparsed, hbook, hbundle, hissued, hseen, hpending⟩ := setPositions_parsed base es w
  set w₁ := es.foldl (setPosition base) w with hw₁
  -- a transaction of this block gets its full reference, every other row stays
  have hhere {t : String} {j : Nat} {row : WalletTx} (hat : node.At h j t)
      (hrow : w.wtx.get? t = some row) (href : row.block = some (Scene.bareRef b h j)) :
      ∃ row₁, w₁.wtx.get? t = some row₁ ∧ row₁.hex = row.hex ∧
        row₁.block = some (S.fullRef b t h j) := by
    obtain ⟨b', nt, hb', hnt, rfl⟩ := id hat
    obtain rfl : b = b' := Option.some.inj (hb.symm.trans hb')
    by_cases hr : (S.parsed nt.txid).received = []
    · refine ⟨row, ?_, rfl, ?_⟩
      · rw [(hget nt.txid).2, hrow]
        intro pos hpos
        obtain ⟨j', nt', -, hnt', hr', heq⟩ := (hes _).mp hpos
        rw [Prod.mk.injEq] at heq
        exact hr' (heq.1 ▸ hr)
      · rw [href]
        simp [Scene.fullRef, Scene.bareRef, hr]
    · have hmem : (nt.txid, S.outputsBefore b j) ∈ es :=
        (hes _).mpr ⟨j, nt, (List.getElem?_eq_some_iff.mp hnt).1, hnt, hr, rfl⟩
      refine ⟨row.at (base + S.outputsBefore b j), ?_, rfl, ?_⟩
      · rw [(hget nt.txid).1 _ hmem, hrow]
        rfl
      · rw [WalletTx.at, href]
        simp [Scene.fullRef, Scene.bareRef, Scene.notePlace, hr, hbase]
  have hthere {t : String} {h' j : Nat} (hat : node.At h' j t) (hne : h' ≠ h) :
      w₁.wtx.get? t = w.wtx.get? t := by
    refine (hget t).2 fun pos hpos ↦ ?_
    obtain ⟨j', nt', -, hnt', -, heq⟩ := (hes _).mp hpos
    rw [Prod.mk.injEq] at heq
    exact hne (hv.once hat (heq.1 ▸ Node.At.of hb hnt')).1
  have hsome (t : String) : ∀ row₁, w₁.wtx.get? t = some row₁ → ∃ row, w.wtx.get? t = some row ∧
      row₁.hex = row.hex ∧ (row₁.block = row.block ∨ ∃ pos, row₁ = row.at pos) := by
    intro row₁ hrow₁
    by_cases hin : ∃ pos, (t, pos) ∈ es
    · obtain ⟨pos, hpos⟩ := hin
      rw [(hget t).1 pos hpos] at hrow₁
      obtain ⟨row, hrow, rfl⟩ := Option.map_eq_some_iff.mp hrow₁
      exact ⟨row, hrow, rfl, .inr ⟨_, rfl⟩⟩
    · rw [(hget t).2 (not_exists.mp hin)] at hrow₁
      exact ⟨row₁, hrow₁, rfl, .inl rfl⟩
  have hrev (t : String) : (w.wtx.get? t).isSome → (w₁.wtx.get? t).isSome := by
    intro ht
    by_cases hin : ∃ pos, (t, pos) ∈ es
    · obtain ⟨pos, hpos⟩ := hin
      rw [(hget t).1 pos hpos, Option.isSome_map]
      exact ht
    · rw [(hget t).2 (not_exists.mp hin)]
      exact ht
  refine ⟨⟨fun {t row₁} hrow₁ ↦ ?_, fun {t row₁ ref} hrow₁ href ↦ ?_, fun {t ref} href hrel ↦ ?_,
    fun t ↦ ?_⟩, ?_, fun t ht hrel ↦ ?_, fun hp {t row₁} hrow₁ ↦ ?_⟩
  · obtain ⟨row, hrow, hhex, -⟩ := hsome t row₁ hrow₁
    rw [hhex]
    exact hw.rows.rel hrow
  · obtain ⟨row, hrow, -, hblock⟩ := hsome t row₁ hrow₁
    obtain ⟨ref₀, href₀⟩ : ∃ ref₀, row.block = some ref₀ := by
      rcases hblock with hblock | ⟨pos, rfl⟩
      · exact ⟨ref, hblock ▸ href⟩
      · cases hrb : row.block with
        | none => simp [WalletTx.at, hrb] at href
        | some ref₀ => exact ⟨ref₀, rfl⟩
    obtain ⟨h', j, b', hs, hat, hb', ⟨hlt, rfl⟩ | ⟨rfl, hlt, rfl⟩⟩ := hw.rows.placed hrow href₀
    · rw [hthere hat hlt.ne, hrow] at hrow₁
      cases hrow₁
      rw [href₀] at href
      cases href
      exact ⟨h', j, b', hs, hat, hb', .inl ⟨hlt.trans (Nat.lt_succ_self h), rfl⟩⟩
    · obtain rfl : b = b' := Option.some.inj (hb.symm.trans hb')
      obtain ⟨row₂, hrow₂, -, href₂⟩ := hhere hat hrow href₀
      rw [hrow₁] at hrow₂
      cases hrow₂
      rw [href] at href₂
      cases href₂
      exact ⟨h', j, b, hs, hat, hb, .inl ⟨Nat.lt_succ_self h', rfl⟩⟩
  · obtain ⟨h', j, b', hs, hat, hb', ⟨hlt, rfl⟩ | ⟨-, hlt, -⟩⟩ := href
    · rcases Nat.lt_succ_iff_lt_or_eq.mp hlt with hlt | rfl
      · obtain ⟨row, hrow, href⟩ := hw.rows.complete ⟨h', j, b', hs, hat, hb', .inl ⟨hlt, rfl⟩⟩ hrel
        exact ⟨row, by rw [hthere hat hlt.ne, hrow], href⟩
      · obtain rfl : b = b' := Option.some.inj (hb.symm.trans hb')
        obtain ⟨b'', nt, hb'', hnt, -⟩ := id hat
        obtain rfl : b = b'' := Option.some.inj (hb.symm.trans hb'')
        have hj := (List.getElem?_eq_some_iff.mp hnt).1
        obtain ⟨row, hrow, href⟩ := hw.rows.complete
          ⟨h', j, b, hs, hat, hb, .inr ⟨rfl, hj, rfl⟩⟩ hrel
        obtain ⟨row₁, hrow₁, -, href₁⟩ := hhere hat hrow href
        exact ⟨row₁, hrow₁, href₁⟩
    · exact absurd hlt (Nat.not_lt_zero j)
  · rw [hparsed, hw.rows.parsed t]
    have hiff : (w₁.wtx.get? t).isSome ↔ (w.wtx.get? t).isSome := by
      refine ⟨fun ht ↦ ?_, hrev t⟩
      obtain ⟨row₁, hrow₁⟩ := Option.isSome_iff_exists.mp ht
      obtain ⟨row, hrow, -⟩ := hsome t row₁ hrow₁
      rw [hrow]
      rfl
    cases hc : w.wtx.get? t <;> cases hc₁ : w₁.wtx.get? t <;> simp [hc, hc₁] at hiff <;> rfl
  · refine ⟨hbook ▸ hw.keyed.agrees, hbundle ▸ hw.keyed.bundle, hbundle ▸ hw.keyed.known, ?_, ?_⟩
    · rw [hissued]
      exact hw.keyed.external
    · rw [hissued]
      exact hw.keyed.internal
  · exact hrev t (hw.seen t (hseen ▸ ht) hrel)
  · obtain ⟨row, hrow, -, hblock⟩ := hsome t row₁ hrow₁
    have hrowb := hw.pending (hpending ▸ hp) hrow
    rcases hblock with hblock | ⟨pos, rfl⟩
    · rw [hblock]
      exact hrowb
    · simpa [WalletTx.at] using hrowb

theorem Scene.Held.advance {D : String → BlockRef → Prop} (hw : S.Held bound D w) (t : Tip) :
    S.Held bound D (w.advance t) := by
  unfold Wallet.advance
  exact ⟨⟨⟨hw.rows.rel, hw.rows.placed, hw.rows.complete, hw.rows.parsed⟩,
    ⟨hw.keyed.agrees, hw.keyed.bundle, hw.keyed.known, hw.keyed.external, hw.keyed.internal⟩,
    hw.seen, hw.pending⟩,
    ⟨hw.derived.coins, hw.derived.coinsOf, hw.derived.notes, hw.derived.notesOf⟩⟩

/-- A block, read to its end. -/
theorem processBlock_held (hroom : S.Roomy bound) (hv : node.Valid S) (hp : node.PaysFrom S start)
    (hstart : start ≤ h) (now : Int) (attempt : Nat) (hb : node.chain[h]? = some b)
    (hw : S.Held bound (node.Done S start h 0) w) :
    ∃ w', processBlock S.env .quiet now attempt h b w = (.ok (), w') ∧
      S.Held bound (node.Done S start (h + 1) 0) w' := by
  have hg : (⟨[], 0, []⟩ : Gathered).Of S b 0 := ⟨rfl, fun e ↦ by simp⟩
  obtain ⟨g, w₁, hrun, hw₁, hg₁⟩ := (@processTxs_held _ _ _ _ _ _ hroom hv hp hstart now attempt hb
    [] b.txs) rfl hw hg
  obtain ⟨size, hsize⟩ := Option.isSome_iff_exists.mp (hv.size b (List.mem_of_getElem? hb))
  have hbare := hw₁.toBare.setPositions hv hb hg₁.admitted
  have hjoins (w : Wallet) : reportJoins .quiet attempt h g w = (.ok (), w) := by
    unfold reportJoins
    split <;> rfl
  have hnotes : ∃ w', placeNotes S.env .quiet attempt h b g w₁ = (.ok (), w') ∧
      S.Held bound (node.Done S start (h + 1) 0) w' := by
    by_cases hnone : g.admitted = []
    · rw [hnone] at hbare
      refine ⟨w₁, ?_, hbare, hw₁.derived⟩
      rw [placeNotes, hnone]
      rfl
    · refine ⟨_, ?_, hbare.rebuild⟩
      have hsome : (!g.admitted.isEmpty) = true := by simpa using hnone
      rw [placeNotes, when, if_pos hsome, hsize, ← hg₁.outputsBefore]
      rfl
  obtain ⟨w', hplace, hw'⟩ := hnotes
  exact ⟨w', bind_eq_ok.mpr ⟨g, w₁, hrun, bind_eq_ok.mpr ⟨(), w', hplace, hjoins w'⟩⟩, hw'⟩

end Block

/-! ## The chain -/

/-- The blocks a wallet remembers: a window of the node's chain that ends below height `n`. -/
structure Wallet.Window (node : Node) (start n : Nat) (w : Wallet) : Prop where
  tip : w.tip = w.recent.getLast?
  sorted : w.recent.Pairwise fun a b ↦ a.height < b.height
  recent : ∀ r ∈ w.recent, start ≤ r.height ∧ r.height < n ∧
    ∃ b, node.chain[r.height]? = some b ∧ b.hash = r.hash
  last : ∀ t, w.tip = some t → t.height + 1 = n
  none : w.tip = none → n = start

section Chain

variable {S : Scene} {node : Node} {w : Wallet} {bound start n : Nat}

theorem Wallet.Window.advance {w' : Wallet} {b : Block} (hwin : w.Window node start n)
    (hrecent : w'.recent = w.recent) (hb : node.chain[n]? = some b)
    (hn : start ≤ n) : (w'.advance ⟨n, b.hash⟩).Window node start (n + 1) := by
  refine ⟨(Wallet.getLast?_advance _ _).symm, Wallet.sorted_advance ?_ fun r hr ↦ ?_,
    fun r hr ↦ ?_, ?_, ?_⟩
  · rw [hrecent]
    exact hwin.sorted
  · rw [hrecent] at hr
    exact (hwin.recent r hr).2.1
  · rcases Wallet.mem_advance hr with hr | rfl
    · rw [hrecent] at hr
      obtain ⟨hs, hlt, hblock⟩ := hwin.recent r hr
      exact ⟨hs, hlt.trans (Nat.lt_succ_self n), hblock⟩
    · exact ⟨hn, Nat.lt_succ_self n, b, hb, rfl⟩
  · rintro t ⟨⟩
    rfl
  · rintro ⟨⟩

/-- The next block of the chain, read. -/
theorem scanBlock_held (hroom : S.Roomy bound) (hv : node.Valid S) (hp : node.PaysFrom S start)
    (hstart : start ≤ n) (now : Int) (attempt : Nat) (hn : n < node.chain.length)
    (hw : S.Held bound (node.Done S start n 0) w) (hwin : w.Window node start n) :
    ∃ w', scanBlock S.env .quiet node now attempt n w = (.ok (), w') ∧
      S.Held bound (node.Done S start (n + 1) 0) w' ∧ w'.Window node start (n + 1) ∧
      w'.birthday = w.birthday := by
  obtain ⟨b, hb⟩ : ∃ b, node.chain[n]? = some b := ⟨_, List.getElem?_eq_getElem hn⟩
  have hash : node.blockHash n = .ok b.hash := by simp [Node.blockHash, hb]
  obtain ⟨b', hb', hhash, hraw⟩ := hv.on.blockHash hash
  obtain rfl : b = b' := Option.some.inj (hb.symm.trans hb')
  have hmoved : ¬ (w.tip.any fun p ↦ decide (b.prev ≠ p.hash)) = true := by
    cases htip : w.tip with
    | none => simp
    | some t =>
      obtain ⟨-, -, bt, hbt, hbthash⟩ := hwin.recent t (List.mem_of_getLast? (hwin.tip ▸ htip))
      have hlink := hv.on.link t.height bt b hbt (by rw [hwin.last t htip, hb])
      simp [hlink, hbthash]
  obtain ⟨w₁, hrun, hw₁⟩ := processBlock_held hroom hv hp hstart now attempt hb hw
  have hreads : Reads S.env n b w w₁ := by
    have := @reads_processBlock S.env .quiet now attempt n b w
    rwa [hrun] at this
  refine ⟨w₁.advance ⟨n, b.hash⟩, ?_, hw₁.advance _,
    hwin.advance hreads.recent hb hstart, hreads.birthday⟩
  refine bind_eq_ok.mpr ⟨b.hash, w, ?_, bind_eq_ok.mpr ⟨b, w, ?_, bind_eq_ok.mpr ⟨w, w, rfl, ?_⟩⟩⟩
  · simp [Faults.ask, Faults.quiet, hash, Except.mapError]
  · simp [Faults.ask, Faults.quiet, hraw, Except.mapError]
  · rw [if_neg hmoved]
    exact bind_eq_ok.mpr ⟨(), w₁, hrun, rfl⟩

/-- The blocks up to a height, read. -/
theorem scanBlocks_held (hroom : S.Roomy bound) (hv : node.Valid S) (hp : node.PaysFrom S start)
    (now : Int) (attempt : Nat) {k : Nat} (hk : n + k ≤ node.chain.length ∨ k = 0)
    (hstart : start ≤ n) (hw : S.Held bound (node.Done S start n 0) w)
    (hwin : w.Window node start n) :
    ∃ w', scanBlocks S.env .quiet node now attempt (List.range' n k) w = (.ok (), w') ∧
      S.Held bound (node.Done S start (n + k) 0) w' ∧ w'.Window node start (n + k) ∧
      w'.birthday = w.birthday := by
  induction k generalizing n w with
  | zero => exact ⟨w, rfl, hw, hwin, rfl⟩
  | succ k ih =>
    obtain ⟨w₁, hrun, hw₁, hwin₁, hbirth⟩ := scanBlock_held hroom hv hp hstart now attempt
      (by omega) hw hwin
    obtain ⟨w', hrest, hw', hwin', hbirth'⟩ := ih (n := n + 1) (by omega) (by omega) hw₁ hwin₁
    rw [Nat.add_right_comm, Nat.add_assoc] at hw' hwin'
    refine ⟨w', ?_, hw', hwin', hbirth'.trans hbirth⟩
    rw [List.range'_succ]
    exact bind_eq_ok.mpr ⟨(), w₁, hrun, hrest⟩

end Chain

end Yew.Daemon
