import Yew.Daemon.Purse
import Yew.Daemon.Orphans

/-!
# Coins and the keys behind them

Every coin the wallet shows pays a key of its book, and its txid is spelled as the node spells it.
This holds of a wallet without rows and is kept by every way a sync or a request for keys can end.

The procedures are `sync`, `rebuild` and `refresh_keys` of `yewd/wallet/src/lib.rs`.  The invariant
is `Kept`: the rows are transactions the node can serve, the coins are what `rebuild` makes of the
rows, and the book holds the key of each.  It is proved of a blank wallet and of every step, so that
what a builder asks of its wallet (`Ready`) is a fact about runs and no assumption.
-/

namespace Yew.Daemon

open Script Tx Pq Proto Proc Yellowback

/-! ## Books -/

/-- A book whose indices name its keys. -/
structure KeyBook.Sound (b : KeyBook) : Prop where
  hash : ∀ h k, b.byHash h = some k → k.hash = h ∧ k ∈ b.tkeys
  pq : ∀ id k, b.pqById id = some k → k.id = id

/-- A book that finds each of its keys by its hash. -/
def KeyBook.Hashed (C : Crypto) (b : KeyBook) : Prop :=
  ∀ k ∈ b.tkeys, k.hash = C.hash160 k.pubkey.toList ∧ (b.byHash k.hash).isSome

/-- More keys, and as sound as before. -/
structure KeyBook.Grows (C : Crypto) (b b' : KeyBook) : Prop where
  sound : b.Sound → b'.Sound
  hashed : b.Hashed C → b'.Hashed C
  hash : ∀ h, (b.byHash h).isSome → (b'.byHash h).isSome
  pq : ∀ id, (b.pqById id).isSome → (b'.pqById id).isSome

namespace KeyBook

instance (C : Crypto) : Proc.Path (KeyBook.Grows C) where
  refl _ := ⟨fun h ↦ h, fun h ↦ h, fun _ h ↦ h, fun _ h ↦ h⟩
  trans h₁ h₂ := ⟨fun h ↦ h₂.sound (h₁.sound h), fun h ↦ h₂.hashed (h₁.hashed h),
    fun x h ↦ h₂.hash x (h₁.hash x h), fun x h ↦ h₂.pq x (h₁.pq x h)⟩

theorem Sound.empty : KeyBook.empty.Sound := ⟨nofun, nofun⟩

/-- A script pays a key of the book by its hash or by its post-quantum id. -/
theorem isSome_ownsScript {b : KeyBook} {s : Bytes} : (b.ownsScript s).isSome ↔
    (∃ h, p2pkhHash s = some h ∧ (b.byHash h).isSome) ∨
      p2pkhHash s = none ∧ ∃ id, pqpkhOf s = some id ∧ (b.pqById id).isSome := by
  unfold KeyBook.ownsScript
  cases hs : p2pkhHash s with
  | some h => simp
  | none =>
    cases hid : pqpkhOf s with
    | none => simp
    | some id => cases hk : b.pqById id <;> simp [hk]

/-- A script that pays a key of the book is one of its holder scripts. -/
theorem Sound.mem_holderScripts {b : KeyBook} (hb : b.Sound) {s : Bytes}
    (h : (b.ownsScript s).isSome) : s ∈ b.holderScripts := by
  rcases isSome_ownsScript.mp h with ⟨x, hx, h⟩ | ⟨-, id, hid, h⟩
  · obtain ⟨k, hk⟩ := Option.isSome_iff_exists.mp h
    obtain ⟨rfl, hmem⟩ := hb.hash x k hk
    exact List.mem_append_left _ (List.mem_map.mpr ⟨k, hmem, (p2pkhHash_eq_some hx).symm⟩)
  · obtain ⟨k, hk⟩ := Option.isSome_iff_exists.mp h
    refine List.mem_append_right _ (List.mem_filterMap.mpr ⟨(id, k), OrdMap.mem_entries.mpr hk, ?_⟩)
    rw [hb.pq id k hk]
    exact pqpkhOf_eq_some hid

theorem Grows.ownsScript {C : Crypto} {b b' : KeyBook} (h : b.Grows C b') {s : Bytes}
    (hs : (b.ownsScript s).isSome) : (b'.ownsScript s).isSome := by
  refine isSome_ownsScript.mpr ?_
  rcases isSome_ownsScript.mp hs with ⟨x, hx, hk⟩ | ⟨hx, id, hid, hk⟩
  · exact .inl ⟨x, hx, h.hash x hk⟩
  · exact .inr ⟨hx, id, hid, h.pq id hk⟩

theorem Grows.push {C : Crypto} (b : KeyBook) {k : TKey}
    (hk : k.hash = C.hash160 k.pubkey.toList) : b.Grows C (b.push k) where
  sound hb := by
    refine ⟨fun h j hj ↦ ?_, hb.pq⟩
    have hj' : (b.hashes.insert k.hash k).get? h = some j := hj
    rw [OrdMap.get?_insert] at hj'
    split at hj'
    · cases hj'
      exact ⟨‹_›, List.mem_append_right _ List.mem_cons_self⟩
    · obtain ⟨h₁, h₂⟩ := hb.hash h j hj'
      exact ⟨h₁, List.mem_append_left _ h₂⟩
  hashed hb := by
    intro j hj
    change j.hash = _ ∧ ((b.hashes.insert k.hash k).get? j.hash).isSome
    rw [OrdMap.get?_insert]
    rcases List.mem_append.mp hj with hj | hj
    · refine ⟨(hb j hj).1, ?_⟩
      split
      · rfl
      · exact (hb j hj).2
    · obtain rfl := List.mem_singleton.mp hj
      exact ⟨hk, by simp⟩
  hash h hh := by
    change ((b.hashes.insert k.hash k).get? h).isSome
    rw [OrdMap.get?_insert]
    split
    · rfl
    · exact hh
  pq _ h := h

theorem Grows.extend (C : Crypto) (child : Nat → Nat → Except String (Arr 33)) (chain upto : Nat)
    (b : KeyBook) : b.Grows C (KeyBook.extend C child chain upto b).2 := by
  suffices hgo : ∀ is b, KeyBook.Grows C b (KeyBook.extend.go C child chain is b).2 from hgo _ _
  intro is
  induction is with
  | nil => exact fun b ↦ Proc.Path.refl b
  | cons i is ih =>
    intro b
    unfold KeyBook.extend.go
    split
    · exact Proc.Path.refl b
    · exact Proc.Path.trans (Grows.push b rfl) (ih _)

theorem Grows.addImported (C : Crypto) (index : Nat) (pubkey : Arr 33) (b : KeyBook) :
    b.Grows C (b.addImported C index pubkey) := by
  unfold KeyBook.addImported
  split
  · exact Proc.Path.refl b
  · refine ⟨fun hb ↦ ⟨fun h j hj ↦ ?_, hb.pq⟩, fun hb j hj ↦ ?_, fun h hh ↦ ?_,
      fun _ h ↦ h⟩
    · change (b.hashes.insertNew _ _).get? h = some j at hj
      rw [OrdMap.get?_insertNew] at hj
      split at hj
      · rename_i heq
        -- a key that was there stays, and only then is it not the new one
        cases hold : b.hashes.get? h with
        | none =>
          rw [hold] at hj
          cases hj
          exact ⟨heq, List.mem_append_right _ List.mem_cons_self⟩
        | some k =>
          rw [hold] at hj
          cases hj
          obtain ⟨h₁, h₂⟩ := hb.hash h _ hold
          exact ⟨h₁, List.mem_append_left _ h₂⟩
      · obtain ⟨h₁, h₂⟩ := hb.hash h j hj
        exact ⟨h₁, List.mem_append_left _ h₂⟩
    · change j.hash = _ ∧ ((b.hashes.insertNew _ _).get? j.hash).isSome
      rw [OrdMap.get?_insertNew]
      rcases List.mem_append.mp hj with hj | hj
      · refine ⟨(hb j hj).1, ?_⟩
        split
        · simp
        · exact (hb j hj).2
      · obtain rfl := List.mem_singleton.mp hj
        exact ⟨rfl, by simp⟩
    · change ((b.hashes.insertNew _ _).get? h).isSome
      rw [OrdMap.get?_insertNew]
      split
      · simp
      · exact hh

theorem Grows.addPq {C : Crypto} {p : PqPublic} {b b' : KeyBook} (h : b.addPq C p = .ok b') :
    b.Grows C b' := by
  unfold KeyBook.addPq at h
  split at h
  · cases h
  · cases h
    refine ⟨fun hb ↦ ⟨hb.hash, fun id k hk ↦ ?_⟩, fun h ↦ h, fun _ h ↦ h, fun id hid ↦ ?_⟩
    · change (b.pq.insert _ _).get? id = some k at hk
      rw [OrdMap.get?_insert] at hk
      split at hk
      · cases hk
        exact ‹_›
      · exact hb.pq id k hk
    · change ((b.pq.insert _ _).get? id).isSome
      rw [OrdMap.get?_insert]
      split
      · rfl
      · exact hid

end KeyBook

variable {env : Env}

theorem grows_addPqKeys (ps : List PqPublic) (b : KeyBook) :
    b.Grows env.C (addPqKeys env ps b).2 := by
  induction ps generalizing b with
  | nil => exact Proc.Path.refl b
  | cons p ps ih =>
    unfold addPqKeys
    split
    · exact ih b
    split
    · exact Proc.Path.refl b
    · rename_i b' hb'
      exact Proc.Path.trans (KeyBook.Grows.addPq hb') (ih b')

theorem grows_addImportedKeys (pks : List String) (i : Nat) (b : KeyBook) :
    b.Grows env.C (addImportedKeys env i pks b).2 := by
  induction pks generalizing i b with
  | nil => exact Proc.Path.refl b
  | cons s pks ih =>
    unfold addImportedKeys
    split
    · exact Proc.Path.refl b
    · exact Proc.Path.trans (KeyBook.Grows.addImported _ _ _ b) (ih (i + 1) _)

/-- The book of the wallet has grown. -/
def MoreKeys (env : Env) (w w' : Wallet) : Prop := w.book.Grows env.C w'.book

instance : Proc.Path (MoreKeys env) where
  refl w := Proc.Path.refl w.book
  trans h₁ h₂ := Proc.Path.trans (R := KeyBook.Grows env.C) h₁ h₂

theorem moreKeys_onBook {f : KeyBook → Except String Unit × KeyBook}
    (hf : ∀ b : KeyBook, b.Grows env.C (f b).2) : Moves (MoreKeys env) (onBook f) := fun w ↦ hf w.book

theorem moreKeys_topUp (fault : Option String) : Moves (MoreKeys env) (topUp env fault) := by
  refine Moves.bind (R := MoreKeys env) Moves.get fun w ↦ ?_
  split
  · exact Moves.pure ()
  split
  · exact Moves.throw _
  dsimp only
  split
  · exact Moves.throw _
  · exact fun s ↦ Proc.Path.refl (R := KeyBook.Grows env.C) s.book

/-- However the refresh of the keys ends, no key is lost. -/
theorem moreKeys_refreshKeys (fault : Option String) :
    Moves (MoreKeys env) (refreshKeys env fault) := by
  refine Moves.bind (R := MoreKeys env) Moves.get fun w ↦ ?_
  refine (moreKeys_onBook (KeyBook.Grows.extend _ _ _ _)).bind fun _ ↦
    (moreKeys_onBook (KeyBook.Grows.extend _ _ _ _)).bind fun _ ↦ ?_
  refine (moreKeys_topUp fault).bind fun _ ↦ Moves.bind (R := MoreKeys env) Moves.get fun w' ↦ ?_
  exact (moreKeys_onBook (grows_addPqKeys _)).bind fun _ ↦
    moreKeys_onBook (grows_addImportedKeys _ _)

theorem markUsed_book (w : Wallet) (o : Owner) : (w.markUsed o).2.book = w.book := by
  cases o with
  | t chain i =>
    simp only [Wallet.markUsed]
    split_ifs <;> rfl
  | pq s i =>
    simp only [Wallet.markUsed]
    split_ifs <;> rfl

theorem markAll_book (os : List Owner) (w : Wallet) : (Wallet.markAll os w).2.book = w.book := by
  induction os generalizing w with
  | nil => rfl
  | cons o os ih => exact (ih _).trans (markUsed_book w o)

/-! ## Coins -/

/-- A txid as the node spells it. -/
def Spelled (txid : String) : Prop := ∃ x, txid = txidHex x

/-- Every coin pays a key of the book, and every row is named as the node spells it. -/
structure Wallet.Backed (w : Wallet) : Prop where
  book : w.book.Sound
  owned : ∀ c ∈ w.coins, (w.book.ownsScript c.script).isSome
  spelled : ∀ c ∈ w.coins, Spelled c.txid
  rows : ∀ t, (w.wtx.get? t).isSome → Spelled t
  parsed : ∀ t, (w.parsed.get? t).isSome → Spelled t

/-- The rows of a wallet are short: no transaction has more outputs than an output index can count. -/
structure Wallet.Sized (w : Wallet) : Prop where
  rows : ∀ t r, w.wtx.get? t = some r → r.hex.length < 2 ^ 32
  parsed : ∀ t p, w.parsed.get? t = some p → p.tx.vout.length < 2 ^ 32

/-- A wallet as its syncs leave it: every coin is backed and is there once, and the book finds its
keys. -/
structure Wallet.Ready (env : Env) (w : Wallet) : Prop where
  backed : w.Backed
  hashed : w.book.Hashed env.C
  apart : (w.coins.map Coin.at).Nodup

/-- What syncs keep. -/
structure Wallet.Kept (env : Env) (w : Wallet) : Prop extends w.Ready env where
  sized : w.Sized

/-- An invariant, as what a step may do. -/
def Keeps {σ : Type} (P : σ → Prop) (s s' : σ) : Prop := P s → P s'

instance {σ : Type} (P : σ → Prop) : Proc.Path (Keeps P) where
  refl _ h := h
  trans h₁ h₂ h := h₂ (h₁ h)

/-- A step that leaves the keys and the coins alone, and adds no row and no transaction but short ones
that are named as the node spells it. -/
structure RowStep (w w' : Wallet) : Prop where
  book : w'.book = w.book
  coins : w'.coins = w.coins
  rows : ∀ t r', w'.wtx.get? t = some r' → (∃ r, w.wtx.get? t = some r ∧ r'.hex = r.hex) ∨
    (Spelled t ∧ r'.hex.length < 2 ^ 32)
  parsed : ∀ t p, w'.parsed.get? t = some p → w.parsed.get? t = some p ∨
    (Spelled t ∧ p.tx.vout.length < 2 ^ 32)

namespace RowStep

variable {w w' : Wallet}

/-- A step that writes no row. -/
theorem same (hbook : w'.book = w.book) (hcoins : w'.coins = w.coins) (hwtx : w'.wtx = w.wtx)
    (hparsed : w'.parsed = w.parsed) : RowStep w w' :=
  ⟨hbook, hcoins, fun _ r h ↦ .inl ⟨r, hwtx ▸ h, rfl⟩, fun _ _ h ↦ .inl (hparsed ▸ h)⟩

theorem admitRow (env : Env) (w : Wallet) (now : Int) {txid : String} (htxid : Spelled txid)
    {hex : Bytes} (hhex : hex.length < 2 ^ 32) (block : Option BlockRef) {p : Parsed}
    (hp : p.tx.vout.length < 2 ^ 32) : RowStep w (w.admitRow now txid hex block p).2 := by
  have hkeys : KeysOnly env w _ := keysOnly_markAll (w.keysUsed p) w
  refine ⟨markAll_book _ w, hkeys.coins, fun t r hr ↦ ?_, fun t q hq ↦ ?_⟩
  · change ((Wallet.markAll (w.keysUsed p) w).2.wtx.insert txid _).get? t = some r at hr
    rw [hkeys.wtx, OrdMap.get?_insert] at hr
    split at hr
    · rename_i heq
      obtain rfl := Option.some.inj hr
      exact .inr ⟨heq ▸ htxid, hhex⟩
    · exact .inl ⟨r, hr, rfl⟩
  · change ((Wallet.markAll (w.keysUsed p) w).2.parsed.insert txid _).get? t = some q at hq
    rw [hkeys.parsed, OrdMap.get?_insert] at hq
    split at hq
    · rename_i heq
      obtain rfl := Option.some.inj hq
      exact .inr ⟨heq ▸ htxid, hp⟩
    · exact .inl hq

theorem setPosition (w : Wallet) (start : Nat) (e : String × Nat) :
    RowStep w (Daemon.setPosition start w e) := by
  unfold Daemon.setPosition
  split
  · exact .same rfl rfl rfl rfl
  · rename_i t ht
    refine ⟨rfl, rfl, fun j r hr ↦ .inl ?_, fun j q hq ↦ .inl hq⟩
    rw [OrdMap.get?_insert] at hr
    split at hr
    · rename_i heq
      obtain rfl := Option.some.inj hr
      exact ⟨t, heq ▸ ht, rfl⟩
    · exact ⟨r, hr, rfl⟩

theorem forget (w : Wallet) (txid : String) : RowStep w (Daemon.forget w txid) := by
  refine ⟨rfl, rfl, fun t r hr ↦ .inl ?_, fun t q hq ↦ .inl ?_⟩
  · change (w.wtx.erase txid).get? t = some r at hr
    rw [OrdMap.get?_erase] at hr
    split at hr
    · cases hr
    · exact ⟨r, hr, rfl⟩
  · change (w.parsed.erase txid).get? t = some q at hq
    rw [OrdMap.get?_erase] at hq
    split at hq
    · cases hq
    · exact hq

theorem rewind (w : Wallet) (fork : Option Nat) : RowStep w (w.rewind fork) := by
  refine ⟨rfl, rfl, fun t r hr ↦ .inl ?_, fun t q hq ↦ .inl ?_⟩
  · unfold Wallet.rewind at hr
    simp only [OrdMap.get?_map, OrdMap.get?_filter] at hr
    obtain ⟨r₀, hr₀, rfl⟩ := Option.map_eq_some_iff.mp hr
    split at hr₀
    · exact ⟨r₀, hr₀, rfl⟩
    · cases hr₀
  · unfold Wallet.rewind at hq
    simp only [OrdMap.get?_filter] at hq
    split at hq
    · exact hq
    · cases hq

end RowStep

namespace Wallet

theorem mem_allCoins {w : Wallet} {c : Coin} (h : c ∈ w.allCoins) :
    ∃ p, w.parsed.get? c.txid = some p ∧ (w.book.ownsScript c.script).isSome := by
  obtain ⟨e, he, hc⟩ := List.mem_flatMap.mp ((List.mem_insertionSort _).mp h)
  obtain ⟨o, -, ho⟩ := List.mem_filterMap.mp hc
  obtain ⟨owner, howner, rfl⟩ := Option.map_eq_some_iff.mp ho
  exact ⟨e.2, OrdMap.mem_entries.mp he, Option.isSome_iff_exists.mpr ⟨owner, howner⟩⟩

theorem mem_coinsOf {book : KeyBook} {spent : String × UInt32 → Bool} {txid : String} {p : Parsed}
    {height : Option Nat} {c : Coin} (h : c ∈ coinsOf book spent txid p height) : c.txid = txid := by
  obtain ⟨o, -, ho⟩ := List.mem_filterMap.mp h
  obtain ⟨owner, -, rfl⟩ := Option.map_eq_some_iff.mp ho
  rfl

/-- The coins of a short transaction are at different outputs of it. -/
theorem nodup_coinsOf {book : KeyBook} {spent : String × UInt32 → Bool} {txid : String} {p : Parsed}
    {height : Option Nat} (hp : p.tx.vout.length < 2 ^ 32) :
    ((coinsOf book spent txid p height).map Coin.at).Nodup := by
  -- the places of all outputs, of which the coins' are some
  have hplaces : (p.tx.vout.zipIdx.map fun o ↦ (txid, UInt32.ofNat o.2)).Nodup := by
    have hmap : (p.tx.vout.zipIdx.map fun o ↦ (txid, UInt32.ofNat o.2)) =
        (List.range p.tx.vout.length).map fun i ↦ (txid, UInt32.ofNat i) := by
      rw [List.range_eq_range', ← List.zipIdx_map_snd 0, List.map_map]
      rfl
    rw [hmap]
    refine List.Nodup.map_on (fun i hi j hj h ↦ ?_) List.nodup_range
    have hij := congrArg UInt32.toNat (Prod.mk.inj h).2
    rw [List.mem_range] at hi hj
    rwa [UInt32.toNat_ofNat_of_lt' (by rw [UInt32.size]; omega),
      UInt32.toNat_ofNat_of_lt' (by rw [UInt32.size]; omega)] at hij
  have hsub : ((coinsOf book spent txid p height).map Coin.at).Sublist
      (p.tx.vout.zipIdx.map fun o ↦ (txid, UInt32.ofNat o.2)) := by
    unfold coinsOf
    induction p.tx.vout.zipIdx with
    | nil => exact .slnil
    | cons o os ih =>
      rw [List.filterMap_cons]
      cases book.ownsScript o.1.scriptPubkey with
      | none => exact ih.cons _
      | some owner => exact ih.cons_cons _
  exact hplaces.sublist hsub

/-- The coins of short transactions are at different outpoints. -/
theorem nodup_allCoins {w : Wallet}
    (h : ∀ t p, w.parsed.get? t = some p → p.tx.vout.length < 2 ^ 32) :
    (w.allCoins.map Coin.at).Nodup := by
  refine ((List.perm_insertionSort _ _).map _).nodup_iff.mpr ?_
  rw [List.map_flatMap, List.nodup_flatMap]
  refine ⟨fun e he ↦ nodup_coinsOf (h e.1 e.2 (OrdMap.mem_entries.mp he)), ?_⟩
  refine w.parsed.sorted.imp fun {e e'} hlt at' hat hat' ↦ ?_
  obtain ⟨c, hc, rfl⟩ := List.mem_map.mp hat
  obtain ⟨c', hc', heq⟩ := List.mem_map.mp hat'
  have htxid := mem_coinsOf hc
  have htxid' := mem_coinsOf hc'
  have hsame : c'.txid = c.txid := congrArg Prod.fst heq
  rw [htxid, htxid'] at hsame
  exact absurd hsame hlt.ne'

theorem Backed.rebuild {w : Wallet} (h : w.Backed) : (w.rebuild env).Backed where
  book := h.book
  owned c hc := (mem_allCoins hc).choose_spec.2
  spelled c hc := by
    obtain ⟨p, hp, -⟩ := mem_allCoins hc
    exact h.parsed c.txid (Option.isSome_iff_exists.mpr ⟨p, hp⟩)
  rows := h.rows
  parsed := h.parsed

/-- A step that only adds keys. -/
theorem Backed.more {w w' : Wallet} (h : w.Backed) (hkeys : KeysOnly env w w')
    (hbook : MoreKeys env w w') : w'.Backed where
  book := hbook.sound h.book
  owned c hc := hbook.ownsScript (h.owned c (hkeys.coins ▸ hc))
  spelled c hc := h.spelled c (hkeys.coins ▸ hc)
  rows t ht := h.rows t (hkeys.wtx ▸ ht)
  parsed t ht := h.parsed t (hkeys.parsed ▸ ht)

theorem Backed.rowed {w w' : Wallet} (h : w.Backed) (hstep : RowStep w w') : w'.Backed where
  book := hstep.book ▸ h.book
  owned c hc := by
    rw [hstep.book]
    exact h.owned c (hstep.coins ▸ hc)
  spelled c hc := h.spelled c (hstep.coins ▸ hc)
  rows t ht := by
    obtain ⟨r', hr'⟩ := Option.isSome_iff_exists.mp ht
    rcases hstep.rows t r' hr' with ⟨r, hr, -⟩ | ⟨hspelled, -⟩
    · exact h.rows t (Option.isSome_iff_exists.mpr ⟨r, hr⟩)
    · exact hspelled
  parsed t ht := by
    obtain ⟨p, hp⟩ := Option.isSome_iff_exists.mp ht
    rcases hstep.parsed t p hp with hp | ⟨hspelled, -⟩
    · exact h.parsed t (Option.isSome_iff_exists.mpr ⟨p, hp⟩)
    · exact hspelled

/-- A step that only adds keys. -/
theorem Ready.more {w w' : Wallet} (h : w.Ready env) (hkeys : KeysOnly env w w')
    (hbook : MoreKeys env w w') : w'.Ready env where
  backed := h.backed.more hkeys hbook
  hashed := hbook.hashed h.hashed
  apart := by
    rw [hkeys.coins]
    exact h.apart

namespace Kept

variable {w w' : Wallet}

theorem rebuild (h : w.Kept env) : (w.rebuild env).Kept env where
  backed := h.backed.rebuild
  hashed := h.hashed
  apart := nodup_allCoins h.sized.parsed
  sized := ⟨h.sized.rows, h.sized.parsed⟩

theorem more (h : w.Kept env) (hkeys : KeysOnly env w w') (hbook : MoreKeys env w w') :
    w'.Kept env where
  toReady := h.toReady.more hkeys hbook
  sized := ⟨fun t r hr ↦ h.sized.rows t r (hkeys.wtx ▸ hr),
    fun t p hp ↦ h.sized.parsed t p (hkeys.parsed ▸ hp)⟩

theorem rowed (h : w.Kept env) (hstep : RowStep w w') : w'.Kept env where
  backed := h.backed.rowed hstep
  hashed := hstep.book ▸ h.hashed
  apart := by
    rw [hstep.coins]
    exact h.apart
  sized := by
    refine ⟨fun t r' hr' ↦ ?_, fun t p hp ↦ ?_⟩
    · rcases hstep.rows t r' hr' with ⟨r, hr, heq⟩ | ⟨-, hlt⟩
      · rw [heq]
        exact h.sized.rows t r hr
      · exact hlt
    · exact (hstep.parsed t p hp).elim (h.sized.parsed t p) And.right

theorem setPositions (h : w.Kept env) (start : Nat) (es : List (String × Nat)) :
    (es.foldl (Daemon.setPosition start) w).Kept env := by
  induction es generalizing w with
  | nil => exact h
  | cons e es ih => exact ih (h.rowed (.setPosition w start e))

theorem forgetAll (h : w.Kept env) (ts : List String) : (ts.foldl Daemon.forget w).Kept env := by
  induction ts generalizing w with
  | nil => exact h
  | cons t ts ih => exact ih (h.rowed (.forget w t))

theorem resume (h : w.Kept env) (fork : Option Nat) : (w.resume fork).1.Kept env := by
  have hrewind (fork : Option Nat) : (w.rewind fork).Kept env := h.rowed (.rewind w fork)
  unfold Wallet.resume
  split
  · split
    · exact h
    · exact hrewind _
  · exact hrewind _
  · exact h
  · exact hrewind _

end Kept

end Wallet

/-! ## Syncs -/

/-- A transaction is named as the node spells it, and is short. -/
structure NodeTx.Fits (t : NodeTx) : Prop where
  spelled : Spelled t.txid
  short : t.bytes.length < 2 ^ 32

/-- Every transaction that the node hands out is spelled and short. -/
structure Node.Fits (node : Node) : Prop where
  chain : ∀ b ∈ node.chain, ∀ t ∈ b.txs, t.Fits
  mempool : ∀ t ∈ node.mempool, t.Fits

/-- A transaction has no more outputs than bytes. -/
theorem length_vout_parseTx {book : KeyBook} {bytes : Bytes} {p : Parsed}
    (h : parseTx env book bytes = .ok p) : p.tx.vout.length ≤ bytes.length := by
  obtain ⟨⟨tx, txid⟩, hparse, h⟩ := Result.bind_eq_ok.mp h
  obtain ⟨z, -, h⟩ := Result.bind_eq_ok.mp h
  cases h
  have hok := Result.mapError_eq_ok.mp hparse
  exact (Transaction.of_parseAt ((Transaction.parse_eq_ok_iff _).mp hok).1).1.2

/-- The same, with the error it is reported with. -/
theorem NodeTx.Fits.length_vout {t : NodeTx} (ht : t.Fits) {book : KeyBook} {ε : Type}
    {f : String → ε} {p : Parsed} (h : (parseTx env book t.bytes).mapError f = .ok p) :
    p.tx.vout.length < 2 ^ 32 :=
  (length_vout_parseTx (Result.mapError_eq_ok.mp h)).trans_lt ht.short

section Sync

variable {F : Faults} {node : Node} {now : Int} {attempt : Nat}

theorem keeps_modify {ε : Type} {P : Wallet → Prop} {f : Wallet → Wallet} (hf : ∀ w, P w → P (f w)) :
    Moves (Keeps P) (Proc.modify f : Proc Wallet ε Unit) := hf

theorem keeps_followKeys {ε : Type} {f : RpcError → ε} {fault : Option String} {moved : Bool} :
    Moves (Keeps (Wallet.Kept env)) (followKeys env f fault moved) :=
  fun w hw ↦ hw.more (keysOnly_followKeys w)
    ((moreKeys_refreshKeys fault).mapErr.when (ε := ε) w)

theorem keeps_admitTx {ε : Type} {t : NodeTx} (ht : t.Fits) (block : Option BlockRef) {p : Parsed}
    (hp : p.tx.vout.length < 2 ^ 32) :
    Moves (Keeps (Wallet.Kept env)) (admitTx now t block p : Proc Wallet ε Bool) := fun w hw ↦
  hw.rowed (.admitRow env w now ht.spelled ht.short block hp)

theorem keeps_processTx {height : Nat} {b : Block} {g : Gathered} {t : NodeTx × Nat}
    (ht : t.1.Fits) :
    Moves (Keeps (Wallet.Kept env)) (processTx env F now attempt height b g t) := by
  refine Moves.bind Moves.get fun w ↦ Moves.lift_bind fun p hp ↦ ?_
  refine Moves.bind (Moves.when ?_) fun _ ↦ Moves.pure _
  refine Moves.bind (keeps_admitTx ht _ (ht.length_vout hp)) fun moved ↦ ?_
  exact Moves.bind (keeps_modify fun w hw ↦ hw.rebuild) fun _ ↦ keeps_followKeys

theorem keeps_processTxs {height : Nat} {b : Block} {g : Gathered}
    {ts : List (NodeTx × Nat)} (hts : ∀ t ∈ ts, t.1.Fits) :
    Moves (Keeps (Wallet.Kept env)) (processTxs env F now attempt height b g ts) := by
  induction ts generalizing g with
  | nil => exact Moves.pure g
  | cons t ts ih =>
    refine Moves.bind (keeps_processTx (hts t List.mem_cons_self)) fun g' ↦ ih fun t' ht' ↦ ?_
    exact hts t' (List.mem_cons_of_mem t ht')

theorem keeps_processBlock {height : Nat} {b : Block} (hb : ∀ t ∈ b.txs, t.Fits) :
    Moves (Keeps (Wallet.Kept env)) (processBlock env F now attempt height b) := by
  refine Moves.bind (keeps_processTxs fun t ht ↦ hb t.1 (List.fst_mem_of_mem_zipIdx ht))
    fun g ↦ Moves.bind (Moves.when (Moves.bind (Moves.lift _) fun info ↦ ?_)) fun _ ↦ ?_
  · cases info with
    | none => exact Moves.throw _
    | some size => exact fun w hw ↦ (hw.setPositions _ _).rebuild
  · unfold reportJoins
    split
    · exact Moves.pure ()
    split
    · exact Moves.throw _
    · exact Moves.pure ()

theorem keeps_scanBlock (hnode : node.Fits) (height : Nat) :
    Moves (Keeps (Wallet.Kept env)) (scanBlock env F node now attempt height) := by
  refine Moves.bind (Moves.lift _) fun hash ↦ Moves.lift_bind fun b hb ↦ ?_
  refine Moves.bind Moves.get fun w ↦ Moves.ite (Moves.throw _) ?_
  refine Moves.bind (keeps_processBlock fun t ht ↦ ?_) fun _ ↦ keeps_modify fun w hw ↦ ?_
  · refine hnode.chain b ?_ t ht
    have hraw : node.rawBlock hash = .ok b := ask_eq_ok hb
    unfold Node.rawBlock at hraw
    split at hraw
    · cases hraw
      exact List.mem_of_find?_eq_some ‹_›
    · cases hraw
  · exact hw.rowed (.same rfl rfl rfl rfl)

theorem keeps_scanBlocks (hnode : node.Fits) (heights : List Nat) :
    Moves (Keeps (Wallet.Kept env)) (scanBlocks env F node now attempt heights) := by
  induction heights with
  | nil => exact Moves.pure ()
  | cons h hs ih => exact Moves.bind (keeps_scanBlock hnode h) fun _ ↦ ih

theorem keeps_scanOrMoved (hnode : node.Fits) (start : Nat) :
    Moves (Keeps (Wallet.Kept env)) (scanOrMoved env F node now attempt start) := by
  have hscan : Moves (Keeps (Wallet.Kept env)) (scanFrom env F node now attempt start) :=
    Moves.bind (Moves.lift _) fun count ↦ keeps_scanBlocks hnode _
  intro w hw
  have hw' := hscan w hw
  unfold scanOrMoved
  split
  all_goals
    rename_i hrun
    rw [hrun] at hw'
    exact hw'

theorem fits_readFresh {w : Wallet} {known ts : List NodeTx} {ids : List String}
    (hknown : ∀ t ∈ known, t.Fits) (h : readFresh F attempt w known ids = .ok ts) :
    ∀ t ∈ ts, t.Fits := by
  induction ids generalizing ts with
  | nil =>
    cases h
    nofun
  | cons txid ids ih =>
    rw [readFresh] at h
    split at h
    · exact ih h
    split at h
    · rename_i t hask
      obtain ⟨ts', hts', h⟩ := Result.bind_eq_ok.mp h
      cases h
      refine List.forall_mem_cons.mpr ⟨?_, ih hts'⟩
      have hfind := ask_eq_ok (f := RpcError.ofNode) (congrArg (Except.mapError _) hask)
      split at hfind
      · cases hfind
        exact hknown t (List.mem_of_find?_eq_some ‹_›)
      · cases hfind
    · exact ih h
    · cases h

theorem keeps_admitPass {ts : List NodeTx} (hts : ∀ t ∈ ts, t.Fits) :
    Moves (Keeps (Wallet.Kept env)) (admitPass env F now attempt ts) := by
  induction ts with
  | nil => exact Moves.pure _
  | cons t ts ih =>
    obtain ⟨ht, hts⟩ := List.forall_mem_cons.mp hts
    refine Moves.bind Moves.get fun w ↦ Moves.lift_bind fun p hp ↦ Moves.ite ?_ ?_
    · refine Moves.bind (keeps_admitTx ht _ (ht.length_vout hp)) fun moved ↦
        Moves.bind keeps_followKeys fun _ ↦ ?_
      exact Moves.bind (keeps_modify fun w hw ↦ hw.rebuild) fun _ ↦
        Moves.bind (ih hts) fun _ ↦ Moves.pure _
    · exact Moves.bind (ih hts) fun _ ↦ Moves.pure _

theorem mem_admitPass {ts : List NodeTx} {w w' : Wallet} {r : Bool × List NodeTx}
    (h : admitPass env F now attempt ts w = (.ok r, w')) : ∀ t ∈ r.2, t ∈ ts := by
  induction ts generalizing w w' r with
  | nil =>
    cases h
    nofun
  | cons t ts ih =>
    obtain ⟨_, _, ⟨⟩, h⟩ := bind_eq_ok.mp h
    obtain ⟨p, _, hp, h⟩ := bind_eq_ok.mp h
    split at h
    · obtain ⟨_, _, -, h⟩ := bind_eq_ok.mp h
      obtain ⟨_, _, -, h⟩ := bind_eq_ok.mp h
      obtain ⟨_, _, -, h⟩ := bind_eq_ok.mp h
      obtain ⟨r', _, hr', h⟩ := bind_eq_ok.mp h
      cases h
      exact fun t ht ↦ List.mem_cons_of_mem _ (ih hr' t ht)
    · obtain ⟨r', _, hr', h⟩ := bind_eq_ok.mp h
      cases h
      exact fun t ht ↦ (List.mem_cons.mp ht).elim (fun h ↦ h ▸ List.mem_cons_self) fun ht ↦
        List.mem_cons_of_mem _ (ih hr' t ht)

theorem keeps_admitAll (n : Nat) {ts : List NodeTx}
    (hts : ∀ t ∈ ts, t.Fits) : Moves (Keeps (Wallet.Kept env)) (admitAll env F now attempt n ts) := by
  induction n generalizing ts with
  | zero => exact Moves.pure _
  | succ n ih =>
    refine Moves.bind_run (keeps_admitPass hts) fun w r w' hrun ↦ ?_
    refine Moves.ite (Moves.pure _) (Moves.bind (ih fun t ht ↦ ?_) fun _ ↦ Moves.pure _) w'
    exact hts t (mem_admitPass hrun t ht)

theorem fits_reaccepted {w : Wallet} (hw : w.Kept env) :
    ∀ t ∈ reaccepted node w, t.Fits := by
  unfold reaccepted
  split
  · intro t ht
    obtain ⟨e, he, rfl⟩ := List.mem_map.mp ht
    have hrow := OrdMap.mem_entries.mp (List.mem_filter.mp he).1
    exact ⟨hw.backed.rows e.1 (Option.isSome_iff_exists.mpr ⟨e.2, hrow⟩), hw.sized.rows e.1 e.2 hrow⟩
  · nofun

theorem keeps_syncMempool (hnode : node.Fits) :
    Moves (Keeps (Wallet.Kept env)) (syncMempool env F node now attempt) := by
  refine Moves.lift_bind fun txs htxs ↦ Moves.get_bind fun w hw ↦ ?_
  obtain rfl : node.mempool = txs := by simpa using ask_eq_ok htxs
  have hknown : ∀ t ∈ node.mempool ++ reaccepted node w, t.Fits := fun t ht ↦
    (List.mem_append.mp ht).elim (hnode.mempool t) (fits_reaccepted hw t)
  refine Moves.bind (keeps_modify fun w hw ↦ ?_) (fun _ ↦ Moves.lift_bind fun fresh hfresh ↦ ?_)
    w hw
  · exact hw.rowed (.same rfl rfl rfl rfl)
  refine Moves.bind (keeps_admitAll _ (fits_readFresh hknown hfresh)) fun admitted ↦
    Moves.bind Moves.get fun w ↦ Moves.bind (keeps_modify fun w hw ↦ ?_) fun _ ↦ ?_
  · refine Wallet.Kept.forgetAll (w := Wallet.mk ..) ?_ _
    exact hw.rowed (.same rfl rfl rfl rfl)
  · exact Moves.bind (Moves.when (keeps_modify fun w hw ↦ hw.rebuild)) fun _ ↦ Moves.pure _

theorem keeps_syncAttempt (hnode : node.Fits) (changed : Bool) :
    Moves (Keeps (Wallet.Kept env)) (syncAttempt env F node now attempt changed) := by
  refine Moves.bind (Moves.lift _) fun best ↦ Moves.bind Moves.get fun w ↦ Moves.ite ?_ ?_
  · exact Moves.bind (keeps_syncMempool hnode) fun _ ↦ Moves.pure _
  refine Moves.bind (Moves.lift _) fun _ ↦ Moves.bind Moves.get fun w ↦
    Moves.bind (Moves.lift _) fun fork ↦ Moves.bind (keeps_modify fun w hw ↦ hw.resume fork)
      fun _ ↦ Moves.bind (keeps_scanOrMoved hnode _) fun done ↦ Moves.ite ?_ (Moves.pure _)
  exact Moves.bind (keeps_syncMempool hnode) fun _ ↦
    Moves.bind (keeps_modify fun w hw ↦ hw.rebuild) fun _ ↦
      Moves.bind Moves.get fun _ ↦ Moves.pure _

/-- However a sync ends, it keeps the invariant. -/
theorem keeps_sync (hnode : node.Fits) :
    Moves (Keeps (Wallet.Kept env)) (sync env F node now) := by
  refine Moves.bind (Moves.bind Moves.get fun w ↦ Moves.ite (Moves.pure ()) ?_) fun _ ↦ ?_
  · refine Moves.bind (Moves.lift _) fun _ ↦ keeps_modify fun w hw ↦ ?_
    exact hw.rowed (.same rfl rfl rfl rfl)
  · generalize [0, 1, 2, 3] = attempts
    generalize false = changed
    induction attempts generalizing changed with
    | nil => exact Moves.pure changed
    | cons a as ih =>
      refine Moves.bind (keeps_syncAttempt hnode changed) fun r ↦ ?_
      cases r with
      | none => exact ih true
      | some answer => exact Moves.pure answer

/-- So does a request for keys. -/
theorem keeps_refreshKeys (fault : Option String) :
    Moves (Keeps (Wallet.Kept env)) (refreshKeys env fault) :=
  fun w hw ↦ hw.more (keysOnly_refreshKeys fault w) (moreKeys_refreshKeys fault w)

/-- A wallet without rows is kept from the start, if its book is. -/
theorem Wallet.Blank.kept_of_book {w : Wallet} (h : w.Blank) (hbook : w.book.Sound)
    (hhashed : w.book.Hashed env.C) : w.Kept env := by
  refine ⟨⟨⟨hbook, ?_, ?_, ?_, ?_⟩, hhashed, ?_⟩, ?_, ?_⟩
  · rw [h.coins]
    nofun
  · rw [h.coins]
    nofun
  · rw [h.wtx]
    nofun
  · rw [h.parsed]
    nofun
  · rw [h.coins]
    exact List.nodup_nil
  · rw [h.wtx]
    nofun
  · rw [h.parsed]
    nofun

end Sync

end Yew.Daemon
