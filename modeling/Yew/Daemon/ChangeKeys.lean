import Yew.Daemon.SendSound

/-!
# Keys for the change

A key of the change chain is there when it is asked for: the book has the keys of a chain without a
gap, and `refresh_keys` extends it past the last one in use.  So `new_change` succeeds as long as
the seed's children can be derived and the signer answers.

The functions are `new_change` of `yewd/wallet/src/build.rs` and `refresh_keys` of
`yewd/wallet/src/lib.rs`.  That a child can be derived is asked up to
the lookahead past the last key that is drawn: the library refuses indices from 2³¹ on.
-/

namespace Yew.Daemon

open Script Tx Pq Proto Proc Yellowback Build

/-! ## Books without gaps -/

namespace KeyBook

/-- How many keys of a chain the book has. -/
def count (b : KeyBook) (chain : Nat) : Nat := b.tkeys.countP fun k ↦ k.chain = chain

/-- The keys of a chain have no gap. -/
def Dense (b : KeyBook) (chain : Nat) : Prop :=
  ∀ i < b.count chain, ∃ k ∈ b.tkeys, k.chain = chain ∧ k.index = i

variable {b b' : KeyBook} {chain : Nat}

theorem isSome_key {index : Nat} :
    (b.key chain index).isSome ↔ ∃ k ∈ b.tkeys, k.chain = chain ∧ k.index = index := by
  rw [key, List.find?_isSome]
  simp

/-- Keys of other chains leave a chain as it is. -/
theorem count_append {ks : List TKey} (h : b'.tkeys = b.tkeys ++ ks)
    (hks : ∀ k ∈ ks, k.chain ≠ chain) : b'.count chain = b.count chain := by
  have hzero : ks.countP (fun k ↦ k.chain = chain) = 0 := by
    rw [List.countP_eq_zero]
    intro k hk
    simpa using hks k hk
  rw [count, h, List.countP_append, hzero, Nat.add_zero]
  rfl

theorem Dense.append {ks : List TKey} (hb : b.Dense chain) (h : b'.tkeys = b.tkeys ++ ks)
    (hks : ∀ k ∈ ks, k.chain ≠ chain) : b'.Dense chain := by
  intro i hi
  rw [count_append h hks] at hi
  obtain ⟨k, hk, hkey⟩ := hb i hi
  exact ⟨k, h ▸ List.mem_append_left ks hk, hkey⟩

theorem extend_go_tkeys {C : Crypto} {child : Nat → Nat → Except String (Arr 33)} (is : List Nat)
    (b : KeyBook) : ∃ ks, (extend.go C child chain is b).2.tkeys = b.tkeys ++ ks ∧
      ∀ k ∈ ks, k.chain = chain := by
  induction is generalizing b with
  | nil => exact ⟨[], (List.append_nil _).symm, nofun⟩
  | cons i is ih =>
    unfold extend.go
    split
    · exact ⟨[], (List.append_nil _).symm, nofun⟩
    · rename_i pk _
      obtain ⟨ks, htkeys, hks⟩ := ih (b.push ⟨chain, i, pk, C.hash160 pk.toList⟩)
      refine ⟨⟨chain, i, pk, C.hash160 pk.toList⟩ :: ks, ?_, ?_⟩
      · rw [htkeys, push, List.append_assoc, List.singleton_append]
      · intro k hk
        rcases List.mem_cons.mp hk with rfl | hk
        · rfl
        · exact hks k hk

theorem Dense.extend_go {C : Crypto} {child : Nat → Nat → Except String (Arr 33)} {n m : Nat}
    (hb : b.Dense chain) (hn : b.count chain = n)
    (hchild : ∀ i, n ≤ i → i < n + m → ∃ pk, child chain i = .ok pk) :
    (extend.go C child chain (List.range' n m) b).2.Dense chain ∧
      (extend.go C child chain (List.range' n m) b).2.count chain = n + m := by
  induction m generalizing n b with
  | zero => exact ⟨hb, hn⟩
  | succ m ih =>
    obtain ⟨pk, hpk⟩ := hchild n (Nat.le_refl n) (by omega)
    rw [List.range'_succ, extend.go, hpk]
    have hcount : (b.push ⟨chain, n, pk, C.hash160 pk.toList⟩).count chain = n + 1 := by
      rw [← hn]
      simp [count, push, List.countP_append]
    rw [Nat.add_comm m 1, ← Nat.add_assoc]
    refine ih ?_ hcount fun i hle hlt ↦ hchild i (by omega) (by omega)
    intro i hi
    rw [hcount] at hi
    rcases Nat.lt_succ_iff_lt_or_eq.mp hi with hi | rfl
    · obtain ⟨k, hk, hkey⟩ := hb i (by rwa [hn])
      exact ⟨k, List.mem_append_left _ hk, hkey⟩
    · exact ⟨_, List.mem_append_right _ (List.mem_singleton_self _), rfl, rfl⟩

/-- Extending a chain makes it as long as is asked. -/
theorem Dense.extend {C : Crypto} {child : Nat → Nat → Except String (Arr 33)} {upto : Nat}
    (hb : b.Dense chain) (hchild : ∀ i < upto, ∃ pk, child chain i = .ok pk) :
    (KeyBook.extend C child chain upto b).2.Dense chain ∧
      upto ≤ (KeyBook.extend C child chain upto b).2.count chain := by
  obtain ⟨hdense, hcount⟩ := hb.extend_go (C := C) (m := upto - b.count chain) rfl
    fun i _ hlt ↦ hchild i (by omega)
  refine ⟨hdense, ?_⟩
  unfold KeyBook.extend
  dsimp only
  rw [← count, hcount]
  omega

theorem Dense.extend_other {C : Crypto} {child : Nat → Nat → Except String (Arr 33)}
    {other upto : Nat} (hb : b.Dense chain) (hne : other ≠ chain) :
    (KeyBook.extend C child other upto b).2.Dense chain := by
  obtain ⟨ks, htkeys, hks⟩ := @extend_go_tkeys other C child _ b
  exact hb.append htkeys fun k hk h ↦ hne ((hks k hk).symm.trans h)

end KeyBook

section Book

variable {env : Env}

theorem tkeys_addPqKeys (ps : List PqPublic) (b : KeyBook) :
    (addPqKeys env ps b).2.tkeys = b.tkeys := by
  induction ps generalizing b with
  | nil => rfl
  | cons p ps ih =>
    unfold addPqKeys
    split
    · exact ih b
    · split
      · rfl
      · rename_i b' hadd
        rw [ih b']
        unfold KeyBook.addPq at hadd
        split at hadd
        · cases hadd
        · cases hadd
          rfl

theorem tkeys_addImported (i : Nat) (pk : Arr 33) (b : KeyBook) :
    ∃ ks, (b.addImported env.C i pk).tkeys = b.tkeys ++ ks ∧ ∀ k ∈ ks, k.chain = imported := by
  unfold KeyBook.addImported
  split
  · exact ⟨[], (List.append_nil _).symm, nofun⟩
  · refine ⟨_, rfl, fun k hk ↦ ?_⟩
    obtain rfl := List.mem_singleton.mp hk
    rfl

theorem tkeys_addImportedKeys (pks : List String) (i : Nat) (b : KeyBook) :
    ∃ ks, (addImportedKeys env i pks b).2.tkeys = b.tkeys ++ ks ∧ ∀ k ∈ ks, k.chain = imported := by
  induction pks generalizing i b with
  | nil => exact ⟨[], (List.append_nil _).symm, nofun⟩
  | cons s pks ih =>
    unfold addImportedKeys
    split
    · exact ⟨[], (List.append_nil _).symm, nofun⟩
    · rename_i pk _
      obtain ⟨ks, htkeys, hks⟩ := ih (i + 1) (b.addImported env.C i pk)
      obtain ⟨ks', htkeys', hks'⟩ := @tkeys_addImported env i pk b
      refine ⟨ks' ++ ks, ?_, ?_⟩
      · rw [htkeys, htkeys', List.append_assoc]
      · intro k hk
        rcases List.mem_append.mp hk with hk | hk
        · exact hks' k hk
        · exact hks k hk

end Book

/-! ## Drawing a key -/

/-- A wallet from which `n` change keys can be drawn: the seed's children can be derived up to the
lookahead past the last of them, the public keys it keeps are this seed's and well formed, and the
change chain has no gap. -/
structure Drawable (env : Env) (n : Nat) (w : Wallet) : Prop where
  receive : ∀ i < w.issued.external + lookahead, ∃ pk, env.child external i = .ok pk
  change : ∀ i < w.issued.internal + n + lookahead, ∃ pk, env.child internal i = .ok pk
  bundle : BundleOk env w.bundle
  dense : w.book.Dense internal

section Draw

variable {env : Env} {w : Wallet} {n : Nat}

theorem Drawable.of_succ (h : Drawable env (n + 1) w) : Drawable env n w :=
  ⟨h.receive, fun i hi ↦ h.change i (by omega), h.bundle, h.dense⟩

theorem onBook_of_ok {f : KeyBook → Except String Unit × KeyBook} (h : (f w.book).1 = .ok ()) :
    onBook f w = (.ok (), { w with book := (f w.book).2 }) := by
  rw [← h]
  rfl

theorem topUp_drawable (h : Drawable env n w) :
    ∃ bundle, topUp env none w = (.ok (), { w with bundle }) ∧ BundleOk env bundle := by
  obtain ⟨hfp, hpq⟩ := h.bundle.answers ⟨w.pqWanted⟩
  rcases topUp_none env w hfp with htop | htop
  · exact ⟨w.bundle, htop, h.bundle⟩
  · refine ⟨_, htop, ?_, h.bundle.imported, h.bundle.answers⟩
    intro p hp
    rcases List.mem_append.mp hp with hp | hp
    · exact h.bundle.pq p hp
    · exact hpq p hp

/-- `refresh_keys` extends the change chain past the last key in use. -/
theorem refreshKeys_drawable (h : Drawable env n w) :
    ∃ w', refreshKeys env none w = (.ok (), w') ∧ Drawable env n w' ∧
      w.issued.internal + lookahead ≤ w'.book.count internal := by
  let w₁ : Wallet :=
    { w with book := (KeyBook.extend env.C env.child external (w.issued.external + lookahead)
      w.book).2 }
  have h₁ : onBook (KeyBook.extend env.C env.child external (w.issued.external + lookahead)) w =
      (.ok (), w₁) := onBook_of_ok (extend_ok h.receive w.book)
  have hdense₁ : w₁.book.Dense internal := h.dense.extend_other (by decide)
  have hchange : ∀ i < w.issued.internal + lookahead, ∃ pk, env.child internal i = .ok pk :=
    fun i hi ↦ h.change i (by omega)
  let w₂ : Wallet :=
    { w₁ with book := (KeyBook.extend env.C env.child internal (w.issued.internal + lookahead)
      w₁.book).2 }
  have h₂ : onBook (KeyBook.extend env.C env.child internal (w.issued.internal + lookahead)) w₁ =
      (.ok (), w₂) := onBook_of_ok (extend_ok hchange w₁.book)
  obtain ⟨hdense₂, hcount⟩ : w₂.book.Dense internal ∧
      w.issued.internal + lookahead ≤ w₂.book.count internal :=
    hdense₁.extend hchange
  have hdraw₂ : Drawable env n w₂ := ⟨h.receive, h.change, h.bundle, hdense₂⟩
  obtain ⟨bundle, h₃, hbundle⟩ := topUp_drawable hdraw₂
  let w₄ : Wallet := { w₂ with bundle, book := (addPqKeys env bundle.pq w₂.book).2 }
  have h₄ : onBook (addPqKeys env bundle.pq) { w₂ with bundle } = (.ok (), w₄) :=
    onBook_of_ok (addPqKeys_ok hbundle.pq w₂.book)
  let w₅ : Wallet := { w₄ with book := (addImportedKeys env 0 bundle.imported w₄.book).2 }
  have h₅ : onBook (addImportedKeys env 0 bundle.imported) w₄ = (.ok (), w₅) :=
    onBook_of_ok (addImportedKeys_ok hbundle.imported 0 w₄.book)
  obtain ⟨ks, htkeys, hks⟩ := @tkeys_addImportedKeys env bundle.imported 0 w₄.book
  rw [tkeys_addPqKeys] at htkeys
  have hother : ∀ k ∈ ks, k.chain ≠ internal := by
    intro k hk heq
    rw [hks k hk] at heq
    cases heq
  refine ⟨w₅, ?_, ⟨h.receive, h.change, hbundle, hdense₂.append htkeys hother⟩, ?_⟩
  · exact bind_eq_ok.mpr ⟨w, w, rfl, bind_eq_ok.mpr ⟨(), w₁, h₁, bind_eq_ok.mpr ⟨(), w₂, h₂,
      bind_eq_ok.mpr ⟨(), _, h₃, bind_eq_ok.mpr ⟨_, _, rfl, bind_eq_ok.mpr ⟨(), w₄, h₄, h₅⟩⟩⟩⟩⟩⟩
  · rwa [KeyBook.count_append htkeys hother]

/-- A change key can be drawn, and then the others. -/
theorem newChange_drawable {p : Purse} (h : Drawable env (n + 1) p.wallet) :
    ∃ s p', newChange env none p = (.ok s, p') ∧ Drawable env n p'.wallet := by
  let w : Wallet :=
    { p.wallet with issued := { p.wallet.issued with internal := p.wallet.issued.internal + 1 } }
  have hissued : w.issued.internal = p.wallet.issued.internal + 1 := rfl
  have hw : Drawable env n w := ⟨h.receive, fun i hi ↦ h.change i (by omega), h.bundle, h.dense⟩
  obtain ⟨w', hrefresh, hdraw, hcount⟩ := refreshKeys_drawable hw
  have hlt : p.wallet.issued.internal < w'.book.count internal := by omega
  obtain ⟨k, hk⟩ := Option.isSome_iff_exists.mp (KeyBook.isSome_key.mpr (hdraw.dense _ hlt))
  have hfollow : followAll env none { p with wallet := w } = (.ok (), { p with wallet := w' }) := by
    rw [followAll, mapErr_apply, onWallet, hrefresh]
    rfl
  refine ⟨p2pkhScript k.hash, { p with wallet := w' }, ?_, hdraw⟩
  refine bind_eq_ok.mpr ⟨p, p, rfl, bind_eq_ok.mpr ⟨(), { p with wallet := w }, rfl,
    bind_eq_ok.mpr ⟨(), _, hfollow, bind_eq_ok.mpr ⟨_, _, rfl, ?_⟩⟩⟩⟩
  rw [hk]
  rfl

end Draw

end Yew.Daemon
