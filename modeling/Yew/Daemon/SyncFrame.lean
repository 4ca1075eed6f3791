import Yew.Daemon.Sync

/-!
# What a sync leaves alone

Frame lemmas of the daemon's sync, each for every way its procedure can end.  Reading keys changes
keys only; reading a block places its transactions in it and nothing else; reading the mempool
takes rows out of their block at most.

The procedures are those of `yewd/wallet/src/lib.rs`, and each lemma speaks of every outcome
(`Yew.Util.Proc`).
-/

namespace Yew.Daemon
open Tx Pq Proto Proc Yellowback

variable {env : Env} {F : Faults} {node : Node} {now : Int} {attempt : Nat}

/-! ## What keys can change -/

/-- The public keys at hand and those the signer would hand over are well formed, and all are of
one seed. -/
structure BundleOk (env : Env) (b : PublicBundle) : Prop where
  pq : ∀ p ∈ b.pq, (Hex.decode p.pk).isSome
  imported : ∀ s ∈ b.imported, ((Hex.decode s).bind (Bytes.toArr? 33)).isSome
  answers : ∀ req, (env.publicKeys req).seedFp = b.seedFp ∧
    ∀ p ∈ (env.publicKeys req).pq, (Hex.decode p.pk).isSome

/-- Only the keys changed: the book, the bundle and the hand-outs. -/
structure KeysOnly (env : Env) (w w' : Wallet) : Prop where
  birthday : w'.birthday = w.birthday
  tip : w'.tip = w.tip
  recent : w'.recent = w.recent
  wtx : w'.wtx = w.wtx
  parsed : w'.parsed = w.parsed
  mempoolSeen : w'.mempoolSeen = w.mempoolSeen
  coins : w'.coins = w.coins
  notes : w'.notes = w.notes
  reacceptPending : w'.reacceptPending = w.reacceptPending
  bundle : BundleOk env w.bundle → BundleOk env w'.bundle

instance : Proc.Path (KeysOnly env) where
  refl _ := ⟨rfl, rfl, rfl, rfl, rfl, rfl, rfl, rfl, rfl, fun h ↦ h⟩
  trans h₁ h₂ := ⟨h₂.1.trans h₁.1, h₂.2.trans h₁.2, h₂.3.trans h₁.3, h₂.4.trans h₁.4,
    h₂.5.trans h₁.5, h₂.6.trans h₁.6, h₂.7.trans h₁.7, h₂.8.trans h₁.8, h₂.9.trans h₁.9,
    fun h ↦ h₂.bundle (h₁.bundle h)⟩

theorem keysOnly_onBook (f : KeyBook → Except String Unit × KeyBook) :
    Moves (KeysOnly env) (onBook f) := fun _ ↦
  ⟨rfl, rfl, rfl, rfl, rfl, rfl, rfl, rfl, rfl, fun h ↦ h⟩

theorem keysOnly_topUp (fault : Option String) : Moves (KeysOnly env) (topUp env fault) := by
  refine Moves.bind (R := KeysOnly env) Moves.get fun w ↦ ?_
  split
  · exact Moves.pure ()
  split
  · exact Moves.throw _
  dsimp only
  split
  · exact Moves.throw _
  · refine fun s ↦ ⟨rfl, rfl, rfl, rfl, rfl, rfl, rfl, rfl, rfl, fun h ↦ ?_⟩
    refine ⟨fun p hp ↦ ?_, h.imported, h.answers⟩
    rcases List.mem_append.mp hp with hp | hp
    · exact h.pq p hp
    · exact (h.answers _).2 p hp

theorem keysOnly_refreshKeys (fault : Option String) :
    Moves (KeysOnly env) (refreshKeys env fault) := by
  refine Moves.bind (R := KeysOnly env) Moves.get fun w ↦ ?_
  refine (keysOnly_onBook _).bind fun _ ↦ (keysOnly_onBook _).bind fun _ ↦ ?_
  refine (keysOnly_topUp fault).bind fun _ ↦ Moves.bind (R := KeysOnly env) Moves.get fun w' ↦ ?_
  exact (keysOnly_onBook _).bind fun _ ↦ keysOnly_onBook _

theorem keysOnly_markUsed (w : Wallet) (o : Owner) : KeysOnly env w (w.markUsed o).2 := by
  cases o with
  | t chain i =>
    simp only [Wallet.markUsed]
    split_ifs <;> exact ⟨rfl, rfl, rfl, rfl, rfl, rfl, rfl, rfl, rfl, fun h ↦ h⟩
  | pq s i =>
    simp only [Wallet.markUsed]
    split_ifs <;> exact ⟨rfl, rfl, rfl, rfl, rfl, rfl, rfl, rfl, rfl, fun h ↦ h⟩

theorem keysOnly_markAll (os : List Owner) (w : Wallet) :
    KeysOnly env w (Wallet.markAll os w).2 := by
  induction os generalizing w with
  | nil => exact Proc.Path.refl w
  | cons o os ih => exact Proc.Path.trans (keysOnly_markUsed w o) (ih _)

/-! ## Keys handed out -/

/-- No hand-out is taken back. -/
structure Issued.Upto (a b : Issued) : Prop where
  external : a.external ≤ b.external
  internal : a.internal ≤ b.internal

theorem Issued.Upto.refl (a : Issued) : a.Upto a := ⟨Nat.le_refl _, Nat.le_refl _⟩

theorem Issued.Upto.trans {a b c : Issued} (h₁ : a.Upto b) (h₂ : b.Upto c) : a.Upto c :=
  ⟨h₁.external.trans h₂.external, h₁.internal.trans h₂.internal⟩

theorem upto_markUsed (w : Wallet) (o : Owner) : w.issued.Upto (w.markUsed o).2.issued := by
  cases o with
  | t chain i =>
    simp only [Wallet.markUsed]
    split_ifs with hexternal hinternal
    · exact ⟨Nat.le_succ_of_le hexternal.2, Nat.le_refl _⟩
    · exact ⟨Nat.le_refl _, Nat.le_succ_of_le hinternal.2⟩
    · exact .refl _
  | pq s i =>
    simp only [Wallet.markUsed]
    split_ifs
    · exact ⟨Nat.le_refl _, Nat.le_refl _⟩
    · exact .refl _

theorem upto_markAll (os : List Owner) (w : Wallet) :
    w.issued.Upto (Wallet.markAll os w).2.issued := by
  induction os generalizing w with
  | nil => exact .refl _
  | cons o os ih => exact (upto_markUsed w o).trans (ih _)

/-- The hand-outs are the same. -/
def SameIssued (w w' : Wallet) : Prop := w'.issued = w.issued

instance : Proc.Path SameIssued where
  refl _ := rfl
  trans h₁ h₂ := Eq.trans h₂ h₁

theorem SameIssued.upto {w w' : Wallet} (h : SameIssued w w') : w.issued.Upto w'.issued := by
  rw [h]
  exact .refl _

theorem sameIssued_topUp (fault : Option String) : Moves SameIssued (topUp env fault) := by
  refine Moves.bind (R := SameIssued) Moves.get fun w ↦ ?_
  split
  · exact Moves.pure ()
  split
  · exact Moves.throw _
  dsimp only
  split
  · exact Moves.throw _
  · exact fun _ ↦ rfl

/-- `refresh_keys` hands out nothing. -/
theorem sameIssued_refreshKeys (fault : Option String) :
    Moves SameIssued (refreshKeys env fault) := by
  have hbook (f : KeyBook → Except String Unit × KeyBook) : Moves SameIssued (onBook f) :=
    fun _ ↦ rfl
  refine Moves.bind (R := SameIssued) Moves.get fun w ↦ ?_
  refine (hbook _).bind fun _ ↦ (hbook _).bind fun _ ↦ (sameIssued_topUp fault).bind fun _ ↦ ?_
  exact Moves.bind (R := SameIssued) Moves.get fun w' ↦ (hbook _).bind fun _ ↦ hbook _

theorem sameIssued_followKeys {ε : Type} {f : RpcError → ε} {fault : Option String} {moved : Bool} :
    Moves SameIssued (followKeys env f fault moved) :=
  (sameIssued_refreshKeys fault).mapErr.when

/-! ## Where the rows are placed -/

/-- The height and the hash of a row's block. -/
def Wallet.placed (w : Wallet) (txid : String) : Option (Nat × String) :=
  (w.blockOf txid).map fun b ↦ (b.height, b.hash)

theorem KeysOnly.placed {w w' : Wallet} (h : KeysOnly env w w') (txid : String) :
    w'.placed txid = w.placed txid := by
  simp only [Wallet.placed, Wallet.blockOf, h.wtx]

/-- What reading a block may do to the rows: place its transactions in it. -/
structure Reads (env : Env) (height : Nat) (b : Block) (w w' : Wallet) : Prop where
  birthday : w'.birthday = w.birthday
  tip : w'.tip = w.tip
  recent : w'.recent = w.recent
  placed : ∀ txid, w'.placed txid = w.placed txid ∨
    w'.placed txid = some (height, b.hash) ∧ ∃ t ∈ b.txs, t.txid = txid
  bundle : BundleOk env w.bundle → BundleOk env w'.bundle
  issued : w.issued.Upto w'.issued

instance (height : Nat) (b : Block) : Proc.Path (Reads env height b) where
  refl _ := ⟨rfl, rfl, rfl, fun _ ↦ .inl rfl, fun h ↦ h, .refl _⟩
  trans h₁ h₂ := by
    refine ⟨h₂.1.trans h₁.1, h₂.2.trans h₁.2, h₂.3.trans h₁.3, fun txid ↦ ?_,
      fun h ↦ h₂.bundle (h₁.bundle h), h₁.issued.trans h₂.issued⟩
    rcases h₂.placed txid with h | h
    · rw [h]
      exact h₁.placed txid
    · exact .inr h

/-- What reading the mempool may do to the rows: take them out of their block. -/
structure Loosens (env : Env) (w w' : Wallet) : Prop where
  birthday : w'.birthday = w.birthday
  tip : w'.tip = w.tip
  recent : w'.recent = w.recent
  placed : ∀ txid, w'.placed txid = w.placed txid ∨ w'.placed txid = none
  bundle : BundleOk env w.bundle → BundleOk env w'.bundle
  issued : w.issued.Upto w'.issued

instance : Proc.Path (Loosens env) where
  refl _ := ⟨rfl, rfl, rfl, fun _ ↦ .inl rfl, fun h ↦ h, .refl _⟩
  trans h₁ h₂ := by
    refine ⟨h₂.1.trans h₁.1, h₂.2.trans h₁.2, h₂.3.trans h₁.3, fun txid ↦ ?_,
      fun h ↦ h₂.bundle (h₁.bundle h), h₁.issued.trans h₂.issued⟩
    rcases h₂.placed txid with h | h
    · rw [h]
      exact h₁.placed txid
    · exact .inr h

theorem KeysOnly.reads {w w' : Wallet} (h : KeysOnly env w w') (hissued : SameIssued w w')
    (height : Nat) (b : Block) : Reads env height b w w' :=
  ⟨h.birthday, h.tip, h.recent, fun txid ↦ .inl (h.placed txid), h.bundle, hissued.upto⟩

theorem KeysOnly.loosens {w w' : Wallet} (h : KeysOnly env w w') (hissued : SameIssued w w') :
    Loosens env w w' :=
  ⟨h.birthday, h.tip, h.recent, fun txid ↦ .inl (h.placed txid), h.bundle, hissued.upto⟩

/-- `admit` writes one row. -/
theorem admit_spec (env : Env) (w : Wallet) (now : Int) (txid : String) (hex : Bytes)
    (block : Option BlockRef) (p : Parsed) :
    ∃ w₁ received, KeysOnly env w w₁ ∧ (w.admitRow now txid hex block p).2 = { w₁ with
      evicted := w₁.evicted.erase txid
      wtx := w.wtx.insert txid ⟨hex, block, received⟩
      parsed := w.parsed.insert txid p } := by
  have hkeys : KeysOnly env w _ := keysOnly_markAll (w.keysUsed p) w
  rw [← hkeys.wtx, ← hkeys.parsed]
  exact ⟨_, _, hkeys, rfl⟩

theorem admit_placed (env : Env) (w : Wallet) (now : Int) (txid : String) (hex : Bytes)
    (block : Option BlockRef) (p : Parsed) (j : String) :
    (w.admitRow now txid hex block p).2.placed j =
      if txid = j then block.map fun b ↦ (b.height, b.hash) else w.placed j := by
  obtain ⟨w₁, received, _, h⟩ := admit_spec env w now txid hex block p
  rw [h]
  simp only [Wallet.placed, Wallet.blockOf, OrdMap.get?_insert]
  split <;> rfl

theorem reads_admitTx {ε : Type} {height : Nat} {b : Block} {t : NodeTx} {index : Nat}
    {p : Parsed} (ht : t ∈ b.txs) :
    Moves (ε := ε) (Reads env height b)
      (admitTx now t (some ⟨height, b.hash, index, b.time, none⟩) p) := by
  intro w
  have hkeys : KeysOnly env w _ := keysOnly_markAll (w.keysUsed p) w
  refine ⟨hkeys.birthday, hkeys.tip, hkeys.recent, fun txid ↦ ?_, hkeys.bundle,
    upto_markAll (w.keysUsed p) w⟩
  change (w.admitRow now t.txid t.bytes _ p).2.placed txid = _ ∨ (w.admitRow now _ _ _ p).2.placed _ = _ ∧ _
  rw [admit_placed env]
  split
  · exact .inr ⟨rfl, t, ht, ‹_›⟩
  · exact .inl rfl

theorem loosens_admitTx {ε : Type} {t : NodeTx} {p : Parsed} :
    Moves (ε := ε) (Loosens env) (admitTx now t none p) := by
  intro w
  have hkeys : KeysOnly env w _ := keysOnly_markAll (w.keysUsed p) w
  refine ⟨hkeys.birthday, hkeys.tip, hkeys.recent, fun txid ↦ ?_, hkeys.bundle,
    upto_markAll (w.keysUsed p) w⟩
  change (w.admitRow now t.txid t.bytes _ p).2.placed txid = _ ∨ (w.admitRow now _ _ _ p).2.placed _ = _
  rw [admit_placed env]
  split
  · exact .inr rfl
  · exact .inl rfl

theorem keysOnly_followKeys {ε : Type} {f : RpcError → ε} {fault : Option String} {moved : Bool} :
    Moves (KeysOnly env) (followKeys env f fault moved) :=
  (keysOnly_refreshKeys fault).mapErr.when

theorem reads_followKeys {ε : Type} {f : RpcError → ε} {fault : Option String} {moved : Bool}
    (height : Nat) (b : Block) : Moves (Reads env height b) (followKeys env f fault moved) := fun w ↦
  (keysOnly_followKeys w).reads (sameIssued_followKeys w) height b

theorem reads_processTx {height : Nat} {b : Block} {g : Gathered} {t : NodeTx × Nat}
    (ht : t.1 ∈ b.txs) : Moves (Reads env height b) (processTx env F now attempt height b g t) := by
  refine Moves.bind (R := Reads env height b) Moves.get fun w ↦
    Moves.bind (R := Reads env height b) (Moves.lift _) fun p ↦ ?_
  refine Moves.bind (R := Reads env height b) (Moves.when ?_) fun _ ↦ Moves.pure _
  refine Moves.bind (R := Reads env height b) (reads_admitTx ht) fun moved ↦ ?_
  refine Moves.bind (R := Reads env height b)
    (fun _ ↦ ⟨rfl, rfl, rfl, fun _ ↦ .inl rfl, fun h ↦ h, .refl _⟩) fun _ ↦ ?_
  exact reads_followKeys height b

theorem reads_processTxs {height : Nat} {b : Block} {g : Gathered} {ts : List (NodeTx × Nat)}
    (hts : ∀ t ∈ ts, t.1 ∈ b.txs) :
    Moves (Reads env height b) (processTxs env F now attempt height b g ts) := by
  induction ts generalizing g with
  | nil => exact Moves.pure g
  | cons t ts ih =>
    refine Moves.bind (R := Reads env height b) (reads_processTx (hts t List.mem_cons_self))
      fun g' ↦ ih fun t' ht' ↦ hts t' (List.mem_cons_of_mem t ht')

theorem setPosition_placed (start : Nat) (w : Wallet) (e : String × Nat) (txid : String) :
    (setPosition start w e).placed txid = w.placed txid := by
  unfold setPosition
  split
  · rfl
  · rename_i t ht
    simp only [Wallet.placed, Wallet.blockOf, OrdMap.get?_insert]
    split
    · rename_i h
      rw [← h, ht]
      cases hb : t.block <;> simp [hb]
    · rfl

theorem setPosition_chain (start : Nat) (w : Wallet) (e : String × Nat) :
    (setPosition start w e).birthday = w.birthday ∧ (setPosition start w e).tip = w.tip ∧
      (setPosition start w e).recent = w.recent ∧ (setPosition start w e).bundle = w.bundle ∧
      (setPosition start w e).issued = w.issued := by
  unfold setPosition
  split
  · exact ⟨rfl, rfl, rfl, rfl, rfl⟩
  · exact ⟨rfl, rfl, rfl, rfl, rfl⟩

theorem reads_setPositions (start : Nat) (es : List (String × Nat)) (w : Wallet) (height : Nat)
    (b : Block) : Reads env height b w (es.foldl (setPosition start) w) := by
  induction es generalizing w with
  | nil => exact Proc.Path.refl w
  | cons e es ih =>
    obtain ⟨h₁, h₂, h₃, h₄, h₅⟩ := setPosition_chain start w e
    refine Proc.Path.trans ⟨h₁, h₂, h₃, fun t ↦ .inl (setPosition_placed start w e t), ?_, ?_⟩ (ih _)
    · rw [h₄]
      exact fun h ↦ h
    · rw [h₅]
      exact .refl _

theorem reads_placeNotes {height : Nat} {b : Block} {g : Gathered} :
    Moves (Reads env height b) (placeNotes env F attempt height b g) := by
  refine Moves.when (Moves.bind (R := Reads env height b) (Moves.lift _) fun info ↦ ?_)
  cases info with
  | none => exact Moves.throw _
  | some size =>
    intro w
    refine Proc.Path.trans (c := Wallet.rebuild env _)
      (reads_setPositions (size - g.outputsBefore) g.admitted w height b) ?_
    exact ⟨rfl, rfl, rfl, fun _ ↦ .inl rfl, fun h ↦ h, .refl _⟩

theorem reads_reportJoins {height : Nat} {b : Block} {g : Gathered} :
    Moves (Reads env height b) (reportJoins F attempt height g) := by
  unfold reportJoins
  split
  · exact Moves.pure ()
  split
  · exact Moves.throw _
  · exact Moves.pure ()

/-- However the reading of a block ends, rows were at most placed in that block. -/
theorem reads_processBlock {height : Nat} {b : Block} :
    Moves (Reads env height b) (processBlock env F now attempt height b) := by
  refine Moves.bind (R := Reads env height b) (reads_processTxs fun t ht ↦ ?_) fun g ↦
    Moves.bind (R := Reads env height b) reads_placeNotes fun _ ↦ reads_reportJoins
  exact List.fst_mem_of_mem_zipIdx ht

theorem loosens_followKeys {ε : Type} {f : RpcError → ε} {fault : Option String} {moved : Bool} :
    Moves (Loosens env) (followKeys env f fault moved) := fun w ↦
  (keysOnly_followKeys w).loosens (sameIssued_followKeys w)

theorem loosens_admitPass (ts : List NodeTx) :
    Moves (Loosens env) (admitPass env F now attempt ts) := by
  induction ts with
  | nil => exact Moves.pure _
  | cons t ts ih =>
    refine Moves.bind (R := Loosens env) Moves.get fun w ↦
      Moves.bind (R := Loosens env) (Moves.lift _) fun p ↦ Moves.ite ?_ ?_
    · refine Moves.bind (R := Loosens env) loosens_admitTx fun moved ↦
        Moves.bind (R := Loosens env) loosens_followKeys fun _ ↦ ?_
      exact Moves.bind (R := Loosens env)
        (fun _ ↦ ⟨rfl, rfl, rfl, fun _ ↦ .inl rfl, fun h ↦ h, .refl _⟩) fun _ ↦
        ih.bind fun _ ↦ Moves.pure _
    · exact ih.bind fun _ ↦ Moves.pure _

theorem loosens_admitAll (n : Nat) (ts : List NodeTx) :
    Moves (Loosens env) (admitAll env F now attempt n ts) := by
  induction n generalizing ts with
  | zero => exact Moves.pure _
  | succ n ih =>
    refine (loosens_admitPass ts).bind fun r ↦ Moves.ite (Moves.pure _) ?_
    exact (ih r.2).bind fun _ ↦ Moves.pure _

theorem forget_placed (w : Wallet) (txid j : String) :
    (forget w txid).placed j = if txid = j then none else w.placed j := by
  simp only [forget, Wallet.placed, Wallet.blockOf, OrdMap.get?_erase]
  split <;> rfl

theorem loosens_forget (txids : List String) (w : Wallet) :
    Loosens env w (txids.foldl forget w) := by
  induction txids generalizing w with
  | nil => exact Proc.Path.refl w
  | cons t ts ih =>
    refine Proc.Path.trans (b := forget w t) ⟨rfl, rfl, rfl, fun j ↦ ?_, fun h ↦ h, .refl _⟩ (ih _)
    rw [forget_placed]
    split
    · exact .inr rfl
    · exact .inl rfl

/-- However the reading of the mempool ends, rows were at most taken out of their block. -/
theorem loosens_syncMempool : Moves (Loosens env) (syncMempool env F node now attempt) := by
  have hsame {f : Wallet → Wallet} (hf : ∀ w, Loosens env w (f w)) :
      Moves (ε := RpcError) (Loosens env) (Proc.modify f) := hf
  refine Moves.bind (R := Loosens env) (Moves.lift _) fun txs ↦
    Moves.bind (R := Loosens env) Moves.get fun w ↦ ?_
  refine Moves.bind (R := Loosens env) (hsame ?_) fun _ ↦ ?_
  · exact fun _ ↦ ⟨rfl, rfl, rfl, fun _ ↦ .inl rfl, fun h ↦ h, .refl _⟩
  refine Moves.bind (R := Loosens env) (Moves.lift _) fun fresh ↦
    (loosens_admitAll _ fresh).bind fun admitted ↦ Moves.bind (R := Loosens env) Moves.get fun w ↦ ?_
  refine Moves.bind (R := Loosens env) (hsame ?_) fun _ ↦ ?_
  · refine fun w ↦ Proc.Path.trans ?_ (loosens_forget _ _)
    exact ⟨rfl, rfl, rfl, fun _ ↦ .inl rfl, fun h ↦ h, .refl _⟩
  refine Moves.bind (R := Loosens env) (Moves.when (hsame ?_)) fun _ ↦ Moves.pure _
  exact fun _ ↦ ⟨rfl, rfl, rfl, fun _ ↦ .inl rfl, fun h ↦ h, .refl _⟩

/-! ## The window of recent blocks -/

theorem Wallet.advance_recent (t : Tip) (w : Wallet) : (w.advance t).recent =
    (w.recent ++ [t]).drop ((w.recent ++ [t]).length - recentCount) := by
  simp only [Wallet.advance]

theorem Wallet.getLast?_advance (t : Tip) (w : Wallet) :
    (w.advance t).recent.getLast? = some t := by
  rw [Wallet.advance_recent, List.getLast?_drop, if_neg]
  · rw [List.getLast?_append, List.getLast?_singleton]
    rfl
  · rw [List.length_append, List.length_singleton, recentCount]
    omega

theorem Wallet.mem_advance {t r : Tip} {w : Wallet} (h : r ∈ (w.advance t).recent) :
    r ∈ w.recent ∨ r = t := by
  rw [Wallet.advance_recent] at h
  simpa using List.mem_of_mem_drop h

theorem Wallet.sorted_advance {t : Tip} {w : Wallet}
    (hs : w.recent.Pairwise fun a b ↦ a.height < b.height)
    (hlt : ∀ r ∈ w.recent, r.height < t.height) :
    (w.advance t).recent.Pairwise fun a b ↦ a.height < b.height := by
  rw [Wallet.advance_recent]
  refine List.Pairwise.sublist (List.drop_sublist _ _) ?_
  rw [List.pairwise_append]
  refine ⟨hs, List.pairwise_singleton _ _, fun r hr s hs ↦ ?_⟩
  obtain rfl := List.mem_singleton.mp hs
  exact hlt r hr

/-! ## Keys that are there when they are asked for -/

/-- The children up to the lookahead past the keys in use can be derived. -/
structure Wallet.Derivable (env : Env) (w : Wallet) : Prop where
  external : ∀ i < w.issued.external + lookahead, ∃ pk, env.child external i = .ok pk
  internal : ∀ i < w.issued.internal + lookahead, ∃ pk, env.child internal i = .ok pk

/-- Where they can be derived, they could be before. -/
theorem Wallet.Derivable.of_upto {w w' : Wallet} (h : w'.Derivable env)
    (hissued : w.issued.Upto w'.issued) : w.Derivable env where
  external i hi := h.external i (hi.trans_le (Nat.add_le_add_right hissued.external _))
  internal i hi := h.internal i (hi.trans_le (Nat.add_le_add_right hissued.internal _))

/-- What `refresh_keys` needs to succeed: children up to the lookahead, and public keys of this
seed that are well formed. -/
structure KeysReady (env : Env) (w : Wallet) : Prop extends w.Derivable env where
  bundle : BundleOk env w.bundle

theorem extend_go_ok {C : Crypto} {child : Nat → Nat → Except String (Arr 33)} {chain : Nat}
    {is : List Nat} (h : ∀ i ∈ is, ∃ pk, child chain i = .ok pk) (b : KeyBook) :
    (KeyBook.extend.go C child chain is b).1 = .ok () := by
  induction is generalizing b with
  | nil => rfl
  | cons i is ih =>
    obtain ⟨pk, hpk⟩ := h i List.mem_cons_self
    simp only [KeyBook.extend.go, hpk]
    exact ih (fun j hj ↦ h j (List.mem_cons_of_mem i hj)) _

theorem extend_ok {C : Crypto} {child : Nat → Nat → Except String (Arr 33)} {chain upto : Nat}
    (h : ∀ i < upto, ∃ pk, child chain i = .ok pk) (b : KeyBook) :
    (KeyBook.extend C child chain upto b).1 = .ok () := by
  apply extend_go_ok
  intro i hi
  obtain ⟨hle, hlt⟩ := List.mem_range'_1.mp hi
  exact h i (by omega)

theorem addPqKeys_ok {ps : List PqPublic} (h : ∀ p ∈ ps, (Hex.decode p.pk).isSome) (b : KeyBook) :
    (addPqKeys env ps b).1 = .ok () := by
  induction ps generalizing b with
  | nil => rfl
  | cons p ps ih =>
    have hps := fun q hq ↦ h q (List.mem_cons_of_mem p hq)
    obtain ⟨pk, hpk⟩ := Option.isSome_iff_exists.mp (h p List.mem_cons_self)
    unfold addPqKeys
    split
    · exact ih hps b
    · simp only [KeyBook.addPq, hpk]
      exact ih hps _

theorem addImportedKeys_ok {pks : List String}
    (h : ∀ s ∈ pks, ((Hex.decode s).bind (Bytes.toArr? 33)).isSome) (i : Nat) (b : KeyBook) :
    (addImportedKeys env i pks b).1 = .ok () := by
  induction pks generalizing i b with
  | nil => rfl
  | cons s pks ih =>
    obtain ⟨pk, hpk⟩ := Option.isSome_iff_exists.mp (h s List.mem_cons_self)
    simp only [addImportedKeys, hpk]
    exact ih (fun q hq ↦ h q (List.mem_cons_of_mem s hq)) _ _

/-- A change of the book that cannot fail. -/
theorem triple_onBook {f : KeyBook → Except String Unit × KeyBook} {P : Wallet → Prop}
    (hok : ∀ w, P w → (f w.book).1 = .ok ())
    (hP : ∀ w, P w → P { w with book := (f w.book).2 }) :
    Triple P (onBook f) (fun _ ↦ P) fun _ _ ↦ False := by
  intro w hw
  have h : onBook f w = (.ok (), { w with book := (f w.book).2 }) := by
    rw [← hok w hw]
    rfl
  rw [h]
  constructor
  · rintro _ _ ⟨⟩
    exact hP w hw
  · rintro _ _ ⟨⟩

theorem topUp_none (env : Env) (w : Wallet)
    (h : (env.publicKeys ⟨w.pqWanted⟩).seedFp = w.bundle.seedFp) :
    topUp env none w = (.ok (), w) ∨ topUp env none w = (.ok (),
      { w with bundle := { w.bundle with
        pq := w.bundle.pq ++ (env.publicKeys ⟨w.pqWanted⟩).pq } }) := by
  by_cases hwant : w.pqWanted = []
  · left
    simp [topUp, bind_apply, hwant]
  · right
    simp [topUp, bind_apply, hwant, h]

/-- `refresh_keys` succeeds when its signer call does, and keeps whatever its parts keep. -/
theorem triple_refreshKeys {P : Wallet → Prop} (hready : ∀ w, P w → KeysReady env w)
    (hextend : ∀ w chain upto, P w →
      P { w with book := (KeyBook.extend env.C env.child chain upto w.book).2 })
    (htopUp : ∀ w, P w → P { w with bundle := { w.bundle with
      pq := w.bundle.pq ++ (env.publicKeys ⟨w.pqWanted⟩).pq } })
    (hpq : ∀ w, P w → P { w with book := (addPqKeys env w.bundle.pq w.book).2 })
    (himported : ∀ w, P w → P { w with book := (addImportedKeys env 0 w.bundle.imported w.book).2 }) :
    Triple P (refreshKeys env none) (fun _ ↦ P) fun _ _ ↦ False := by
  intro w hw
  suffices h : Triple (fun s ↦ P s ∧ s.issued = w.issued) (do
      onBook (KeyBook.extend env.C env.child external (w.issued.external + lookahead))
      onBook (KeyBook.extend env.C env.child internal (w.issued.internal + lookahead))
      topUp env none
      let w ← get
      onBook (addPqKeys env w.bundle.pq)
      onBook (addImportedKeys env 0 w.bundle.imported)) (fun _ ↦ P)
      fun _ _ ↦ False from h w ⟨hw, rfl⟩
  refine Triple.bind (M := fun _ s ↦ P s ∧ s.issued = w.issued) (triple_onBook ?_ ?_) fun _ ↦ ?_
  · exact fun s hs ↦ extend_ok (fun i hi ↦ (hready w hw).external i hi) _
  · exact fun s hs ↦ ⟨hextend s _ _ hs.1, hs.2⟩
  refine Triple.bind (M := fun _ s ↦ P s ∧ s.issued = w.issued) (triple_onBook ?_ ?_) fun _ ↦ ?_
  · exact fun s hs ↦ extend_ok (fun i hi ↦ (hready w hw).internal i hi) _
  · exact fun s hs ↦ ⟨hextend s _ _ hs.1, hs.2⟩
  refine Triple.bind (M := fun _ ↦ P) ?_ fun _ ↦ ?_
  · rintro s ⟨hs, -⟩
    rcases topUp_none env s ((hready s hs).bundle.answers _).1 with h | h
    · rw [h]
      constructor
      · rintro _ _ ⟨⟩
        exact hs
      · rintro _ _ ⟨⟩
    · rw [h]
      constructor
      · rintro _ _ ⟨⟩
        exact htopUp s hs
      · rintro _ _ ⟨⟩
  intro s hs
  have hbundle := (hready s hs).bundle
  suffices h : Triple (fun v ↦ P v ∧ v.bundle = s.bundle) (do
      onBook (addPqKeys env s.bundle.pq)
      onBook (addImportedKeys env 0 s.bundle.imported)) (fun _ ↦ P)
      fun _ _ ↦ False from h s ⟨hs, rfl⟩
  refine Triple.bind (M := fun _ v ↦ P v ∧ v.bundle = s.bundle) (triple_onBook ?_ ?_) fun _ ↦ ?_
  · exact fun v hv ↦ addPqKeys_ok (fun p hp ↦ hbundle.pq p hp) _
  · exact fun v hv ↦ ⟨hv.2 ▸ hpq v hv.1, hv.2⟩
  refine (triple_onBook (P := fun v ↦ P v ∧ v.bundle = s.bundle) ?_ ?_).mono
    (fun _ hv ↦ hv) (fun _ _ hv ↦ hv.1) fun _ _ hv ↦ hv
  · exact fun v hv ↦ addImportedKeys_ok (fun p hp ↦ hbundle.imported p hp) _ _
  · exact fun v hv ↦ ⟨hv.2 ▸ himported v hv.1, hv.2⟩

end Yew.Daemon
