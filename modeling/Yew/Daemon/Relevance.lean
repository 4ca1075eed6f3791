import Yew.Daemon.Chain
import Yew.Daemon.SyncFrame

/-!
# Which transactions are the wallet's

Whether a sync takes a transaction up depends on what it took up before.  On a chain in which
every transaction comes after those it spends, and with a key book that already knows every key
that occurs, this is a property of the transaction alone: `Rel`.  A wallet whose rows are such
transactions, and hold all of them up to some place of the chain, wants exactly those.

The predicate of the source is `relevant` in `yewd/wallet/src/lib.rs`, which reads the rows.  `Rel`
is ours and mentions no rows, only keys.
-/

namespace Yew.Daemon

open Script Tx Pq Proto Proc Yellowback

/-! ## A scene -/

/-- What a history of snapshots is about: the environment, the blocks by their hashes, the key book
at the start, the transactions by their txids, as bytes and as that book reads them, and which
txids occur. -/
structure Scene where
  env : Env
  ledger : Ledger
  book : KeyBook
  bytes : String → Bytes
  parsed : String → Parsed
  occurs : String → Prop

namespace Scene

variable (S : Scene)

/-- The outputs of a transaction. -/
def vout (t : String) : List TxOut := (S.parsed t).tx.vout

/-- The inputs of a transaction. -/
def vin (t : String) : List TxIn := (S.parsed t).tx.vin

/-- An output that pays a key of the book. -/
def Owns (c : String) (n : UInt32) : Prop :=
  ∃ i o, (S.vout c)[i]? = some o ∧ UInt32.ofNat i = n ∧ (S.book.ownsScript o.scriptPubkey).isSome

/-- A transaction that pays the wallet by itself: an output, a note, or a template. -/
def Touches (t : String) : Prop :=
  (∃ o ∈ S.vout t, (S.book.ownsScript o.scriptPubkey).isSome) ∨
    (S.parsed t).received ≠ [] ∨ (S.parsed t).ownedTemplates ≠ []

/-- A transaction of the wallet: one that pays it, spends a coin or a note of it, or spends an
output of a transaction of the wallet that carries a payload. -/
inductive Rel : String → Prop
  | touch {t : String} : S.Touches t → Rel t
  | spend {t : String} {i : TxIn} : i ∈ S.vin t → S.occurs (txidHex i.prevout.txid) →
      S.Owns (txidHex i.prevout.txid) i.prevout.n → Rel t
  | note {t c : String} {r : Received} {pos : Nat} : S.occurs c → r ∈ (S.parsed c).received →
      S.env.view.nullifier r pos ∈ (S.parsed t).nullifiers → Rel t
  | payload {t : String} {i : TxIn} {is : List TxIn} : S.vin t = i :: is →
      S.occurs (txidHex i.prevout.txid) → Rel (txidHex i.prevout.txid) →
      (findPayload (S.parsed (txidHex i.prevout.txid)).tx).isSome → Rel t

variable {S}

theorem Owns.touches {c : String} {n : UInt32} (h : S.Owns c n) : S.Touches c := by
  obtain ⟨i, o, ho, -, hown⟩ := h
  exact .inl ⟨o, List.mem_of_getElem? ho, hown⟩

theorem touches_of_received {c : String} {r : Received} (h : r ∈ (S.parsed c).received) :
    S.Touches c := .inr (.inl (List.ne_nil_of_mem h))

variable (S)

/-- The Sapling outputs of a block before its `i`-th transaction. -/
def outputsBefore (b : Block) (i : Nat) : Nat :=
  ((b.txs.take i).map fun t ↦ (S.parsed t.txid).saplingOutputs).sum

/-- The place of the `i`-th transaction's Sapling outputs in the commitment tree. -/
def notePlace (b : Block) (i : Nat) : Nat :=
  b.saplingSize.getD 0 - S.outputsBefore b b.txs.length + S.outputsBefore b i

/-- The block reference of the `i`-th transaction, before the notes are placed. -/
def bareRef (b : Block) (height i : Nat) : BlockRef := ⟨height, b.hash, i, b.time, none⟩

/-- The block reference of the `i`-th transaction. -/
def fullRef (b : Block) (t : String) (height i : Nat) : BlockRef :=
  { bareRef b height i with
    saplingPos := if (S.parsed t).received.isEmpty then none else some (S.notePlace b i) }

/-- A transaction as the scene knows it. -/
structure Means (t : NodeTx) : Prop where
  occurs : S.occurs t.txid
  bytes : t.bytes = S.bytes t.txid
  parses : parseTx S.env S.book t.bytes = .ok (S.parsed t.txid)

end Scene

/-! ## Snapshots -/

/-- The `i`-th transaction of the block at a height. -/
def Node.At (node : Node) (height i : Nat) (t : String) : Prop :=
  ∃ b nt, node.chain[height]? = some b ∧ b.txs[i]? = some nt ∧ nt.txid = t

/-- The transactions of the mempool. -/
def Node.Pool (node : Node) (t : String) : Prop := ∃ nt ∈ node.mempool, nt.txid = t

/-- A snapshot that follows the rules of the chain: a transaction is there once, after the
transactions it spends; a note that is spent is in an earlier block, at the place its nullifier
says. -/
structure Node.Valid (S : Scene) (node : Node) : Prop where
  on : node.On S.ledger
  size : ∀ b ∈ node.chain, b.saplingSize.isSome
  chainTx : ∀ b ∈ node.chain, ∀ t ∈ b.txs, S.Means t
  poolTx : ∀ t ∈ node.mempool, S.Means t
  once : ∀ {h i h' i' t}, node.At h i t → node.At h' i' t → h = h' ∧ i = i'
  apart : ∀ {h i t}, node.At h i t → ¬ node.Pool t
  spends : ∀ {h i t}, node.At h i t → ∀ x ∈ S.vin t, S.occurs (txidHex x.prevout.txid) →
    ∃ h' i', (h' < h ∨ h' = h ∧ i' < i) ∧ node.At h' i' (txidHex x.prevout.txid)
  poolSpends : ∀ {t}, node.Pool t → ∀ x ∈ S.vin t, S.occurs (txidHex x.prevout.txid) →
    (∃ h i, node.At h i (txidHex x.prevout.txid)) ∨ node.Pool (txidHex x.prevout.txid)
  reveals : ∀ {h i t}, node.At h i t → ∀ {c r pos}, S.occurs c → r ∈ (S.parsed c).received →
    S.env.view.nullifier r pos ∈ (S.parsed t).nullifiers →
    ∃ h' i' b, h' < h ∧ node.At h' i' c ∧ node.chain[h']? = some b ∧
      pos = S.notePlace b i' + r.outindex
  poolReveals : ∀ {t}, node.Pool t → ∀ {c r pos}, S.occurs c → r ∈ (S.parsed c).received →
    S.env.view.nullifier r pos ∈ (S.parsed t).nullifiers →
    ∃ h' i' b, node.At h' i' c ∧ node.chain[h']? = some b ∧ pos = S.notePlace b i' + r.outindex

/-- No transaction that pays the wallet is below a height. -/
def Node.PaysFrom (S : Scene) (height : Nat) (node : Node) : Prop :=
  ∀ {h i t}, node.At h i t → S.Touches t → height ≤ h

/-- A wallet's transactions start where the payments to it start. -/
theorem Scene.Rel.above {S : Scene} {node : Node} {start : Nat} (hv : node.Valid S)
    (hp : node.PaysFrom S start) {t : String} (hrel : S.Rel t) :
    ∀ {h i}, node.At h i t → start ≤ h := by
  induction hrel with
  | touch ht => exact fun hat ↦ hp hat ht
  | spend hx hocc hown =>
    intro h i hat
    obtain ⟨h', i', hlt, hat'⟩ := hv.spends hat _ hx hocc
    have := hp hat' hown.touches
    omega
  | note hocc hr hn =>
    intro h i hat
    obtain ⟨h', i', b, hlt, hat', -⟩ := hv.reveals hat hocc hr hn
    have := hp hat' (Scene.touches_of_received hr)
    omega
  | payload hvin hocc hrel hpay ih =>
    intro h i hat
    obtain ⟨h', i', hlt, hat'⟩ := hv.spends hat _ (hvin ▸ List.mem_cons_self) hocc
    have := ih hat'
    omega

/-! ## Keys -/

namespace Scene

variable (S : Scene)

/-- A key hash that an output of the scene pays. -/
def PaidHash (h : Arr 20) : Prop :=
  ∃ t o, S.occurs t ∧ o ∈ S.vout t ∧ p2pkhHash o.scriptPubkey = some h

/-- A post-quantum key that an output of the scene names. -/
def PaidPq (id : PqKeyId) : Prop :=
  ∃ t o, S.occurs t ∧ o ∈ S.vout t ∧
    (pqpkhOf o.scriptPubkey = some id ∨ KeyBook.templateOwner o.scriptPubkey = some id)

/-- A post-quantum public key that is in the book or does not occur. -/
def PqKnown (p : PqPublic) : Prop :=
  ∀ pk, Hex.decode p.pk = some pk →
    S.book.pqById (.of S.env.C p.scheme pk) =
      some ⟨p.scheme, p.index, pk, .of S.env.C p.scheme pk⟩ ∨
      ¬ S.PaidPq (.of S.env.C p.scheme pk)

/-- An imported key that is in the book or does not occur. -/
def ImportedKnown (s : String) : Prop :=
  ∀ pk, (Hex.decode s).bind (Bytes.toArr? 33) = some pk →
    (S.book.byHash (S.env.C.hash160 pk.toList)).isSome ∨
      ¬ S.PaidHash (S.env.C.hash160 pk.toList)

/-- Every key that occurs is in the book: a child, a key of the signer or an imported key that the
book has not is paid nowhere. -/
structure KeysKnown (bundle : PublicBundle) : Prop where
  child : ∀ chain i pk, S.env.child chain i = .ok pk →
    S.book.byHash (S.env.C.hash160 pk.toList) =
      some ⟨chain, i, pk, S.env.C.hash160 pk.toList⟩ ∨
      ¬ S.PaidHash (S.env.C.hash160 pk.toList)
  pq : ∀ p ∈ bundle.pq, S.PqKnown p
  answers : ∀ req, ∀ p ∈ (S.env.publicKeys req).pq, S.PqKnown p
  imported : ∀ s ∈ bundle.imported, S.ImportedKnown s

/-- A book that agrees with the first one on every key that occurs. -/
structure Agrees (b : KeyBook) : Prop where
  hash : ∀ h, S.PaidHash h → b.byHash h = S.book.byHash h
  pq : ∀ id, S.PaidPq id → b.pqById id = S.book.pqById id

variable {S}

theorem Agrees.ownsScript {b : KeyBook} (h : S.Agrees b) {t : String} {o : TxOut}
    (ht : S.occurs t) (ho : o ∈ S.vout t) :
    b.ownsScript o.scriptPubkey = S.book.ownsScript o.scriptPubkey := by
  unfold KeyBook.ownsScript
  split
  · rename_i hash hh
    rw [h.hash hash ⟨t, o, ht, ho, hh⟩]
  · cases hid : pqpkhOf o.scriptPubkey with
    | none => rfl
    | some id =>
      simp only [Option.bind_eq_bind, Option.bind_some, h.pq id ⟨t, o, ht, ho, .inl hid⟩]

theorem Agrees.ownsTemplate {b : KeyBook} (h : S.Agrees b) {t : String} {o : TxOut}
    (ht : S.occurs t) (ho : o ∈ S.vout t) :
    b.ownsTemplate o.scriptPubkey = S.book.ownsTemplate o.scriptPubkey := by
  unfold KeyBook.ownsTemplate
  cases hid : KeyBook.templateOwner o.scriptPubkey with
  | none => rfl
  | some id => simp only [Option.bind_some, h.pq id ⟨t, o, ht, ho, .inr hid⟩]

theorem parseTx_eq_ok {env : Env} {book : KeyBook} {bytes : Bytes} {p : Parsed} :
    parseTx env book bytes = .ok p ↔ ∃ tx id z, Transaction.parse env.C bytes = .ok (tx, id) ∧
      env.view.shielded bytes = .ok z ∧
      p = ⟨tx, bytes.length, isCoinbase tx, z.received, z.nullifiers, Daemon.ownedTemplates book tx,
        z.outputs⟩ := by
  unfold parseTx
  cases htx : Transaction.parse env.C bytes with
  | error e => simp [Except.mapError, bind, Except.bind]
  | ok r =>
    obtain ⟨tx, id⟩ := r
    cases hz : env.view.shielded bytes with
    | error e => simp [Except.mapError, bind, Except.bind]
    | ok z =>
      constructor
      · rintro ⟨⟩
        exact ⟨tx, id, z, rfl, rfl, rfl⟩
      · rintro ⟨_, _, _, ⟨⟩, ⟨⟩, rfl⟩
        rfl

/-- A book that agrees reads a transaction as the first one did. -/
theorem Agrees.parseTx {b : KeyBook} (h : S.Agrees b) {t : NodeTx} (ht : S.Means t) :
    Daemon.parseTx S.env b t.bytes = .ok (S.parsed t.txid) := by
  obtain ⟨tx, id, z, htx, hz, hp⟩ := parseTx_eq_ok.mp ht.parses
  refine parseTx_eq_ok.mpr ⟨tx, id, z, htx, hz, ?_⟩
  have hout : S.vout t.txid = tx.vout := by rw [vout, hp]
  rw [hp]
  congr 1
  refine List.filterMap_congr fun o ho ↦ ?_
  have hmem : o.1 ∈ S.vout t.txid := hout ▸ List.fst_mem_of_mem_zipIdx ho
  rw [h.ownsTemplate ht.occurs hmem]

theorem Agrees.push {b : KeyBook} (h : S.Agrees b) {k : TKey}
    (hk : S.book.byHash k.hash = some k ∨ ¬ S.PaidHash k.hash) : S.Agrees (b.push k) where
  hash x hx := by
    change (b.hashes.insert k.hash k).get? x = _
    rw [OrdMap.get?_insert]
    split
    · rename_i heq
      subst heq
      exact (hk.resolve_right fun hn ↦ hn hx).symm
    · exact h.hash x hx
  pq := h.pq

theorem Agrees.extend {b : KeyBook} {bundle : PublicBundle} (h : S.Agrees b)
    (hk : S.KeysKnown bundle) (chain upto : Nat) :
    S.Agrees (KeyBook.extend S.env.C S.env.child chain upto b).2 := by
  suffices hgo : ∀ is b, S.Agrees b →
      S.Agrees (KeyBook.extend.go S.env.C S.env.child chain is b).2 from hgo _ _ h
  intro is
  induction is with
  | nil => exact fun b hb ↦ hb
  | cons i is ih =>
    intro b hb
    unfold KeyBook.extend.go
    split
    · exact hb
    · rename_i pk hpk
      exact ih _ (hb.push (hk.child chain i pk hpk))

theorem Agrees.addPqKeys {ps : List PqPublic} (hps : ∀ p ∈ ps, S.PqKnown p) {b : KeyBook}
    (h : S.Agrees b) : S.Agrees (Daemon.addPqKeys S.env ps b).2 := by
  induction ps generalizing b with
  | nil => exact h
  | cons p ps ih =>
    have hrest := fun q hq ↦ hps q (List.mem_cons_of_mem p hq)
    unfold Daemon.addPqKeys
    split
    · exact ih hrest h
    split
    · exact h
    · rename_i b' hb'
      refine ih hrest ?_
      unfold KeyBook.addPq at hb'
      split at hb'
      · cases hb'
      · rename_i pk hpk
        cases hb'
        refine ⟨h.hash, fun id hid ↦ ?_⟩
        change (b.pq.insert _ _).get? id = _
        rw [OrdMap.get?_insert]
        split
        · rename_i heq
          subst heq
          exact ((hps p List.mem_cons_self pk hpk).resolve_right fun hn ↦ hn hid).symm
        · exact h.pq id hid

theorem Agrees.addImportedKeys {pks : List String} (hpks : ∀ s ∈ pks, S.ImportedKnown s)
    {b : KeyBook} (i : Nat) (h : S.Agrees b) : S.Agrees (Daemon.addImportedKeys S.env i pks b).2 := by
  induction pks generalizing i b with
  | nil => exact h
  | cons s pks ih =>
    have hrest := fun q hq ↦ hpks q (List.mem_cons_of_mem s hq)
    unfold Daemon.addImportedKeys
    split
    · exact h
    · rename_i pk hpk
      refine ih hrest (i + 1) ?_
      unfold KeyBook.addImported
      split
      · exact h
      · refine ⟨fun x hx ↦ ?_, h.pq⟩
        change (b.hashes.insertNew _ _).get? x = _
        rw [OrdMap.get?_insertNew]
        split
        · rename_i heq
          subst heq
          -- the hash occurs, so the first book has it, and a key that is there stays
          have hsome := (hpks s List.mem_cons_self pk hpk).resolve_right fun hn ↦ hn hx
          obtain ⟨k, hk⟩ := Option.isSome_iff_exists.mp hsome
          have hb : b.hashes.get? (S.env.C.hash160 pk.toList) = some k := (h.hash _ hx).trans hk
          rw [hb, hk]
          rfl
        · exact h.hash x hx

variable (S)

/-- Room for keys below a bound: children can be derived up to it, and the lookahead of the keys
that occur does not pass it. -/
structure Roomy (bound : Nat) : Prop where
  child : ∀ chain i, i < bound → ∃ pk, S.env.child chain i = .ok pk
  paid : ∀ h k, S.PaidHash h → S.book.byHash h = some k → k.index + 1 + lookahead ≤ bound

/-- The keys of a wallet in a scene: the book knows what occurs, and the pool can grow. -/
structure Keyed (bound : Nat) (w : Wallet) : Prop where
  agrees : S.Agrees w.book
  bundle : BundleOk S.env w.bundle
  known : S.KeysKnown w.bundle
  external : w.issued.external + lookahead ≤ bound
  internal : w.issued.internal + lookahead ≤ bound

variable {S}

theorem Keyed.refreshKeys {bound : Nat} (hroom : S.Roomy bound) :
    Triple (S.Keyed bound) (refreshKeys S.env none) (fun _ ↦ S.Keyed bound) fun _ _ ↦ False := by
  refine triple_refreshKeys (fun w h ↦ ⟨⟨fun i hi ↦ ?_, fun i hi ↦ ?_⟩, h.bundle⟩) ?_ ?_ ?_ ?_
  · exact hroom.child _ i (hi.trans_le h.external)
  · exact hroom.child _ i (hi.trans_le h.internal)
  · exact fun w chain upto h ↦
      ⟨h.agrees.extend h.known chain upto, h.bundle, h.known, h.external, h.internal⟩
  · intro w h
    refine ⟨h.agrees, ⟨fun p hp ↦ ?_, h.bundle.imported, h.bundle.answers⟩,
      ⟨h.known.child, fun p hp ↦ ?_, h.known.answers, h.known.imported⟩, h.external, h.internal⟩
    · rcases List.mem_append.mp hp with hp | hp
      · exact h.bundle.pq p hp
      · exact (h.bundle.answers _).2 p hp
    · rcases List.mem_append.mp hp with hp | hp
      · exact h.known.pq p hp
      · exact h.known.answers _ p hp
  · exact fun w h ↦
      ⟨h.agrees.addPqKeys h.known.pq, h.bundle, h.known, h.external, h.internal⟩
  · exact fun w h ↦
      ⟨h.agrees.addImportedKeys h.known.imported 0, h.bundle, h.known, h.external, h.internal⟩

theorem Keyed.markUsed {bound : Nat} {w : Wallet} (h : S.Keyed bound w) {o : Owner}
    (ho : ∀ chain i, o = .t chain i → i + 1 + lookahead ≤ bound) :
    S.Keyed bound (w.markUsed o).2 := by
  cases o with
  | t chain i =>
    have hi := ho chain i rfl
    simp only [Wallet.markUsed]
    split_ifs
    · exact ⟨h.agrees, h.bundle, h.known, hi, h.internal⟩
    · exact ⟨h.agrees, h.bundle, h.known, h.external, hi⟩
    · exact h
  | pq s i =>
    simp only [Wallet.markUsed]
    split_ifs
    · exact ⟨h.agrees, h.bundle, h.known, h.external, h.internal⟩
    · exact h

theorem Keyed.markAll {bound : Nat} {os : List Owner} {w : Wallet} (h : S.Keyed bound w)
    (hos : ∀ o ∈ os, ∀ chain i, o = .t chain i → i + 1 + lookahead ≤ bound) :
    S.Keyed bound (Wallet.markAll os w).2 := by
  induction os generalizing w with
  | nil => exact h
  | cons o os ih =>
    exact ih (h.markUsed (hos o List.mem_cons_self)) fun o' ho' ↦
      hos o' (List.mem_cons_of_mem o ho')

/-- The keys a transaction of the scene uses leave room. -/
theorem Keyed.keysUsed {bound : Nat} {w : Wallet} (hroom : S.Roomy bound) (h : S.Keyed bound w)
    {t : String} (ht : S.occurs t) :
    ∀ o ∈ w.keysUsed (S.parsed t), ∀ chain i, o = .t chain i → i + 1 + lookahead ≤ bound := by
  rintro _ ho chain i rfl
  rcases List.mem_append.mp ho with ho | ho
  · obtain ⟨out, hout, hown⟩ := List.mem_filterMap.mp ho
    rw [h.agrees.ownsScript ht hout] at hown
    unfold KeyBook.ownsScript at hown
    split at hown
    · rename_i hash hhash
      obtain ⟨k, hk, hki⟩ := Option.map_eq_some_iff.mp hown
      cases hki
      exact hroom.paid hash k ⟨t, out, ht, hout, hhash⟩ hk
    · simp [Option.bind_eq_some_iff] at hown
  · obtain ⟨j, -, hj⟩ := List.mem_filterMap.mp ho
    obtain ⟨k, -, hk⟩ := Option.map_eq_some_iff.mp hj
    cases hk

end Scene

end Yew.Daemon
