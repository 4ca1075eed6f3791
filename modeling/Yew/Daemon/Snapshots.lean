import Yew.Daemon.Converge

/-!
# Histories of snapshots

A wallet in step with a snapshot is determined by it, as far as the tip, the rows and the coins
go.  So the snapshots before the last one leave no trace, unless a payment to the wallet is below
its birthday in one of them.

The procedure is `sync` of `yewd/wallet/src/lib.rs`.  Keys are bounded (`Roomy`): no index of a
chain reaches 2³¹, where derivation ends.
-/

namespace Yew.Daemon

open Script Tx Pq Proto Proc Yellowback

/-! ## What a wallet shows -/

/-- Two wallets show the same: the tip, the transactions with their places, and the coins. -/
structure Wallet.Same (w w' : Wallet) : Prop where
  tip : w.tip = w'.tip
  rows : ∀ t, (w.wtx.get? t).map (fun row ↦ (row.hex, row.block)) =
    (w'.wtx.get? t).map fun row ↦ (row.hex, row.block)
  coins : w.coins = w'.coins

section

variable {S : Scene} {node : Node} {w w' : Wallet} {bound start : Nat}

theorem Wallet.Window.tip_eq {n : Nat} (h : w.Window node start n) (h' : w'.Window node start n) :
    w.tip = w'.tip := by
  have hmem {w : Wallet} (h : w.Window node start n) {t : Tip} (ht : w.tip = some t) :=
    h.recent t (List.mem_of_getLast? (h.tip ▸ ht))
  cases ht : w.tip with
  | none =>
    cases ht' : w'.tip with
    | none => rfl
    | some t' =>
      have := h.none ht
      have := h'.last t' ht'
      have := (hmem h' ht').1
      omega
  | some t =>
    cases ht' : w'.tip with
    | none =>
      have := h'.none ht'
      have := h.last t ht
      have := (hmem h ht).1
      omega
    | some t' =>
      obtain ⟨-, -, b, hb, hash⟩ := hmem h ht
      obtain ⟨-, -, b', hb', hash'⟩ := hmem h' ht'
      have hheight : t.height = t'.height := by
        have := h.last t ht
        have := h'.last t' ht'
        omega
      rw [hheight, hb', Option.some.injEq] at hb
      have hhash : t.hash = t'.hash := by rw [← hash, ← hash', hb]
      cases t
      cases t'
      cases hheight
      cases hhash
      rfl

/-- The rows are those of the snapshot. -/
theorem Wallet.Pooled.row (h : w.Pooled S bound start node) (h' : w'.Pooled S bound start node)
    (hv : node.Valid S) {t : String} {row : WalletTx} (hrow : w.wtx.get? t = some row) :
    ∃ row', w'.wtx.get? t = some row' ∧ row'.hex = row.hex ∧ row'.block = row.block := by
  obtain ⟨-, hrel, hhex⟩ := h.rows.rel hrow
  have hhex' {row' : WalletTx} (hrow' : w'.wtx.get? t = some row') : row'.hex = row.hex :=
    (h'.rows.rel hrow').2.2.trans hhex.symm
  cases hblock : row.block with
  | some ref =>
    obtain ⟨row', hrow', hblock'⟩ := h'.rows.complete (h.rows.placed hrow hblock) hrel
    exact ⟨row', hrow', hhex' hrow', hblock'⟩
  | none =>
    have hpool := h.unplaced hrow hblock
    obtain ⟨row', hrow'⟩ := Option.isSome_iff_exists.mp (h'.pool hpool hrel)
    refine ⟨row', hrow', hhex' hrow', ?_⟩
    cases hblock' : row'.block with
    | none => rfl
    | some ref =>
      obtain ⟨_, _, _, -, hat, -⟩ := h'.rows.placed hrow' hblock'
      exact absurd hpool (hv.apart hat)

theorem Wallet.Pooled.rows_eq (h : w.Pooled S bound start node) (h' : w'.Pooled S bound start node)
    (hv : node.Valid S) (t : String) : (w.wtx.get? t).map (fun row ↦ (row.hex, row.block)) =
      (w'.wtx.get? t).map fun row ↦ (row.hex, row.block) := by
  cases hrow : w.wtx.get? t with
  | some row =>
    obtain ⟨row', hrow', hhex, hblock⟩ := h.row h' hv hrow
    rw [hrow', Option.map_some, Option.map_some, hhex, hblock]
  | none =>
    cases hrow' : w'.wtx.get? t with
    | none => rfl
    | some row' =>
      obtain ⟨row, hrow₁, -⟩ := h'.row h hv hrow'
      rw [hrow] at hrow₁
      cases hrow₁

/-- Rows in the same places make the same coins. -/
theorem allCoins_eq (h : w.Pooled S bound start node) (h' : w'.Pooled S bound start node)
    (hv : node.Valid S) : w.allCoins = w'.allCoins := by
  have hrows := h.rows_eq h' hv
  have hparsed : w.parsed = w'.parsed := by
    refine OrdMap.ext_get? fun t ↦ ?_
    rw [h.rows.parsed, h'.rows.parsed]
    have := hrows t
    cases hw : w.wtx.get? t <;> cases hw' : w'.wtx.get? t <;> simp [hw, hw'] at this ⊢
  have hblock (t : String) : w.blockOf t = w'.blockOf t := by
    have := congrArg (Option.bind · fun e ↦ e.2) (hrows t)
    simpa [Wallet.blockOf, Option.bind_map, Function.comp_def] using this
  have hspent : w.spentOutpoints = w'.spentOutpoints := by
    rw [Wallet.spentOutpoints, hparsed, Wallet.spentOutpoints]
  unfold Wallet.allCoins
  congr 1
  rw [hspent, ← hparsed]
  refine List.flatMap_congr fun e he ↦ ?_
  obtain ⟨hrow, hp⟩ := h.rows.mem_parsed.mp he
  obtain ⟨row, hrow⟩ := Option.isSome_iff_exists.mp hrow
  have hocc := (h.rows.rel hrow).1
  rw [hblock]
  refine List.filterMap_congr fun o ho ↦ ?_
  have hmem : o.1 ∈ S.vout e.1 := by
    rw [Scene.vout, ← hp]
    exact List.fst_mem_of_mem_zipIdx ho
  rw [h.keyed.agrees.ownsScript hocc hmem, h'.keyed.agrees.ownsScript hocc hmem]

theorem Wallet.Synced.same (h : w.Synced S bound start node) (h' : w'.Synced S bound start node)
    (hv : node.Valid S) : w.Same w' where
  tip := h.window.tip_eq h'.window
  rows := h.rows_eq h'.toPooled hv
  coins := by rw [h.coins, h'.coins, allCoins_eq h.toPooled h'.toPooled hv]

/-! ## Histories -/

/-- Syncs against one snapshot after another, each at its own time. -/
def syncAll (env : Env) : List (Node × Int) → Proc Wallet RpcError Unit
  | [] => pure ()
  | e :: es => do
    let _ ← sync env .quiet e.1 e.2
    syncAll env es

/-- A chain without blocks, which a new wallet is in step with. -/
def Node.none : Node := ⟨[], [], fun _ ↦ false⟩

theorem Node.none_on (L : Ledger) : Node.none.On L :=
  ⟨fun _ _ h ↦ (nomatch h), fun _ _ _ h ↦ (nomatch h)⟩

theorem Wallet.Blank.synced (h : w.Blank) (hkeyed : S.Keyed bound w) :
    w.Synced S bound (max w.birthday 1) .none := by
  have hrow (t : String) : w.wtx.get? t = Option.none := by rw [h.wtx, OrdMap.get?_empty]
  have hsome {t : String} {row : WalletTx} (hr : w.wtx.get? t = some row) : False := by
    rw [hrow] at hr
    cases hr
  refine ⟨⟨⟨fun hr ↦ (hsome hr).elim, fun hr ↦ (hsome hr).elim, ?_, fun t ↦ ?_⟩, hkeyed,
    fun hr ↦ (hsome hr).elim, ?_, ?_, fun _ ↦ hrow⟩, ?_, ?_, ⟨?_, ?_, ?_, ?_, fun _ ↦ ?_⟩, rfl⟩
  · rintro t ref ⟨h, i, b, -, hat, -⟩
    exact absurd hat.lt_length (Nat.not_lt_zero h)
  · rw [hrow, h.parsed, OrdMap.get?_empty]
    rfl
  · rintro t ⟨nt, hnt, -⟩
    cases hnt
  · rw [h.mempoolSeen]
    intro t ht
    cases ht
  · simp [Wallet.allCoins, h.coins, h.parsed, OrdMap.empty]
  · simp [Wallet.allNotes, h.notes, h.parsed, OrdMap.empty]
  · rw [h.tip, h.recent]
    rfl
  · rw [h.recent]
    exact .nil
  · rw [h.recent]
    intro r hr
    cases hr
  · rw [h.tip]
    intro t ht
    cases ht
  · exact Nat.max_eq_left (Nat.zero_le _)

theorem syncAll_synced (hroom : S.Roomy bound) {prev node : Node} {now : Int}
    {es : List (Node × Int)} (hpon : prev.On S.ledger) (hw : w.Synced S bound start prev)
    (hnodes : ∀ e ∈ es ++ [(node, now)],
      e.1.Valid S ∧ e.1.chain ≠ [] ∧ e.1.PaysFrom S start) :
    ∃ w', syncAll S.env (es ++ [(node, now)]) w = (.ok (), w') ∧
      w'.Synced S bound start node := by
  induction es generalizing prev w with
  | nil =>
    obtain ⟨hv, hne, hp⟩ := hnodes (node, now) (by simp)
    obtain ⟨r, w', hrun, hw'⟩ := sync_synced hroom hpon hv hp hne now hw
    exact ⟨w', bind_eq_ok.mpr ⟨r, w', hrun, rfl⟩, hw'⟩
  | cons e es ih =>
    obtain ⟨hv, hne, hp⟩ := hnodes e (by simp)
    obtain ⟨r, w₁, hrun, hw₁⟩ := sync_synced hroom hpon hv hp hne e.2 hw
    obtain ⟨w', hrest, hw'⟩ := ih hv.on hw₁ fun x hx ↦ hnodes x (List.mem_cons_of_mem e hx)
    exact ⟨w', bind_eq_ok.mpr ⟨r, w₁, hrun, hrest⟩, hw'⟩

/-- Over every history of snapshots in which no payment to the wallet is below its birthday,
however deep the chain is reorganised between them: a new wallet that was synced against each of
them shows what a new wallet with the same keys and birthday shows that was synced against the
last one only. -/
theorem syncAll_same {S : Scene} {bound : Nat} {w₀ w₁ : Wallet} {es : List (Node × Int)}
    {node : Node} {now now' : Int} (hroom : S.Roomy bound) (hblank : w₀.Blank)
    (hkeyed : S.Keyed bound w₀) (hblank₁ : w₁.Blank) (hkeyed₁ : S.Keyed bound w₁)
    (hbirth : w₁.birthday = w₀.birthday)
    (hnodes : ∀ e ∈ es ++ [(node, now)],
      e.1.Valid S ∧ e.1.chain ≠ [] ∧ e.1.PaysFrom S (max w₀.birthday 1)) :
    ∃ w w', syncAll S.env (es ++ [(node, now)]) w₀ = (.ok (), w) ∧
      syncAll S.env [(node, now')] w₁ = (.ok (), w') ∧ w.Same w' := by
  obtain ⟨hv, hne, hp⟩ := hnodes (node, now) (by simp)
  obtain ⟨w, hrun, hw⟩ := syncAll_synced hroom (Node.none_on _) (hblank.synced hkeyed) hnodes
  obtain ⟨w', hrun', hw'⟩ := (@syncAll_synced _ _ _ _ hroom _ _ now' []) (Node.none_on _)
    (hblank₁.synced hkeyed₁) (by simpa [hbirth] using ⟨hv, hne, hp⟩)
  rw [hbirth] at hw'
  exact ⟨w, w', hrun, hrun', hw.same hw' hv⟩

end

/-! ## A payment below the birthday -/

/-- A version 4 transaction with one Sapling spend. -/
def spendBytes : Bytes :=
  [4, 0, 0, 0x80, 0x85, 0x20, 0x2f, 0x89, 0, 0] ++ List.replicate 16 0 ++ [1] ++
    List.replicate 384 0 ++ [0, 0] ++ List.replicate 64 0

/-- The spend is of the note, which is the first one of the tree. -/
def spendEnv : Env where
  C := noteEnv.C
  view := {
    shielded := fun b ↦
      .ok (if b.length = noteBytes.length then ⟨[⟨0, 7, "ys1", false, []⟩], [], 1⟩
        else if b.length = spendBytes.length then ⟨[], [List.Vector.replicate 32 0], 0⟩
        else ⟨[], [], 0⟩)
    nullifier := fun _ pos ↦ List.Vector.replicate 32 (UInt8.ofNat (min pos 1)) }
  child := noteEnv.child
  publicKeys := noteEnv.publicKeys

/-- The block with the note, or the block with the spend, at a place of a chain. -/
def noteBlock (hash prev : String) : Block := ⟨hash, prev, 0, [⟨"note", noteBytes⟩], some 1⟩

@[inherit_doc noteBlock]
def spendBlock (hash prev : String) : Block := ⟨hash, prev, 0, [⟨"spend", spendBytes⟩], some 1⟩

/-- The note is in block 2. -/
def lateNode : Node :=
  ⟨[forkBlock "genesis", ⟨"a1", "genesis", 0, [], some 0⟩, noteBlock "a2" "a1",
    spendBlock "a3" "a2"], [], fun _ ↦ false⟩

/-- The note is in block 1. -/
def earlyNode : Node :=
  ⟨[forkBlock "genesis", noteBlock "b1" "genesis", spendBlock "b2" "b1"], [], fun _ ↦ false⟩

/-- The note and its spend as the wallet reads them. -/
def moveParsed (t : String) : Parsed :=
  if t = "note" then
    ⟨⟨txHeaderV4, saplingVersionGroupId, [], [], 0, 0, ⟨0, 1, 0, 0⟩⟩, noteBytes.length, false,
      [⟨0, 7, "ys1", false, []⟩], [], [], 1⟩
  else
    ⟨⟨txHeaderV4, saplingVersionGroupId, [], [], 0, 0, ⟨1, 0, 0, 0⟩⟩, spendBytes.length, false,
      [], [List.Vector.replicate 32 0], [], 0⟩

/-- The note and its spend, on both branches. -/
def moveScene : Scene where
  env := spendEnv
  ledger := {
    body := fun x ↦ ((lateNode.chain ++ earlyNode.chain).find? fun b ↦ b.hash = x).getD
      (forkBlock "genesis")
    height := fun x ↦
      if x = "genesis" then 0 else if x = "a1" ∨ x = "b1" then 1
      else if x = "a2" ∨ x = "b2" then 2 else 3 }
  book := .empty
  bytes := fun t ↦ if t = "note" then noteBytes else spendBytes
  parsed := moveParsed
  occurs := fun t ↦ t = "note" ∨ t = "spend"

theorem moveScene_means : moveScene.Means ⟨"note", noteBytes⟩ ∧
    moveScene.Means ⟨"spend", spendBytes⟩ := by
  refine ⟨⟨.inl rfl, rfl, Scene.parseTx_eq_ok.mpr ⟨(moveParsed "note").tx,
    List.Vector.replicate 32 0, ⟨[⟨0, 7, "ys1", false, []⟩], [], 1⟩, ?_, ?_, ?_⟩⟩,
    ⟨.inr rfl, rfl, Scene.parseTx_eq_ok.mpr ⟨(moveParsed "spend").tx,
    List.Vector.replicate 32 0, ⟨[], [List.Vector.replicate 32 0], 0⟩, ?_, ?_, ?_⟩⟩⟩
  · decide +kernel
  · simp [moveScene, spendEnv]
  · rfl
  · decide +kernel
  · have hne : spendBytes.length ≠ noteBytes.length := by decide +kernel
    simp [moveScene, spendEnv, hne]
  · rfl

theorem moveScene_vin (t : String) : moveScene.vin t = [] := by
  simp only [Scene.vin, moveScene, moveParsed]
  split <;> rfl

theorem moveScene_vout (t : String) : moveScene.vout t = [] := by
  simp only [Scene.vout, moveScene, moveParsed]
  split <;> rfl

theorem moveScene_received {t : String} {r : Received} (h : r ∈ (moveScene.parsed t).received) :
    t = "note" ∧ r.outindex = 0 := by
  simp only [moveScene, moveParsed] at h
  split at h
  · obtain rfl := List.mem_singleton.mp h
    exact ⟨‹_›, rfl⟩
  · cases h

theorem moveScene_nullifier {t : String} {r : Received} {pos : Nat}
    (h : spendEnv.view.nullifier r pos ∈ (moveScene.parsed t).nullifiers) :
    t ≠ "note" ∧ pos = 0 := by
  simp only [moveScene, moveParsed] at h
  split at h
  · cases h
  · refine ⟨‹_›, ?_⟩
    have heq := congrArg List.Vector.head (List.mem_singleton.mp h)
    change UInt8.ofNat (min pos 1) = 0 at heq
    rcases Nat.eq_zero_or_pos pos with hpos | hpos
    · exact hpos
    · rw [Nat.min_eq_right hpos] at heq
      exact absurd heq (by decide)

/-- A snapshot with the note in block `k` and its spend in the next block. -/
theorem moveScene_valid {node : Node} {k : Nat} {b : Block} (hon : node.On moveScene.ledger)
    (hblocks : ∀ b ∈ node.chain, b.saplingSize.isSome ∧
      ∀ t ∈ b.txs, t = ⟨"note", noteBytes⟩ ∨ t = ⟨"spend", spendBytes⟩)
    (hpool : node.mempool = [])
    (hat : ∀ {h i t}, node.At h i t ↔ i = 0 ∧ (h = k ∧ t = "note" ∨ h = k + 1 ∧ t = "spend"))
    (hb : node.chain[k]? = some b) (hplace : moveScene.notePlace b 0 = 0) :
    node.Valid moveScene ∧ node.PaysFrom moveScene k := by
  have hempty {t : String} : ¬ node.Pool t := by
    rintro ⟨nt, hnt, -⟩
    rw [hpool] at hnt
    cases hnt
  refine ⟨⟨hon, fun b hb ↦ (hblocks b hb).1, fun b hb t ht ↦ ?_, ?_, ?_, fun _ ↦ hempty, ?_,
    fun h ↦ (hempty h).elim, ?_, fun h ↦ (hempty h).elim⟩, ?_⟩
  · rcases (hblocks b hb).2 t ht with rfl | rfl
    · exact moveScene_means.1
    · exact moveScene_means.2
  · rw [hpool]
    exact fun t ht ↦ (nomatch ht)
  · intro h i h' i' t ha ha'
    obtain ⟨rfl, hh⟩ := hat.mp ha
    obtain ⟨rfl, hh'⟩ := hat.mp ha'
    rcases hh with ⟨rfl, rfl⟩ | ⟨rfl, rfl⟩ <;> rcases hh' with ⟨rfl, ht⟩ | ⟨rfl, ht⟩
    · exact ⟨rfl, rfl⟩
    · exact absurd ht (by decide)
    · exact absurd ht (by decide)
    · exact ⟨rfl, rfl⟩
  · intro h i t _ x hx
    rw [moveScene_vin] at hx
    cases hx
  · intro h i t ha c r pos _ hr hn
    obtain ⟨rfl, hout⟩ := moveScene_received hr
    obtain ⟨hne, rfl⟩ := moveScene_nullifier hn
    obtain ⟨rfl, ⟨-, rfl⟩ | ⟨rfl, -⟩⟩ := hat.mp ha
    · exact absurd rfl hne
    · refine ⟨k, 0, b, Nat.lt_succ_self k, hat.mpr ⟨rfl, .inl ⟨rfl, rfl⟩⟩, hb, ?_⟩
      rw [hplace, hout]
  · intro h i t ha ht
    obtain ⟨-, ⟨rfl, -⟩ | ⟨rfl, rfl⟩⟩ := hat.mp ha
    · exact le_refl _
    · exact Nat.le_succ k

theorem lateNode_valid : lateNode.Valid moveScene ∧ lateNode.PaysFrom moveScene 2 := by
  refine moveScene_valid (b := noteBlock "a2" "a1") ⟨fun i b hb ↦ ?_, fun i a b ha hb ↦ ?_⟩
    (fun b hb ↦ ?_) rfl (fun {h i t} ↦ ?_) rfl (by decide +kernel)
  · rcases i with _ | _ | _ | _ | i <;> cases hb <;> exact ⟨rfl, rfl⟩
  · rcases i with _ | _ | _ | _ | i <;> cases ha <;> cases hb <;> rfl
  · simp only [lateNode, List.mem_cons, List.not_mem_nil, or_false] at hb
    rcases hb with rfl | rfl | rfl | rfl <;> simp [forkBlock, noteBlock, spendBlock]
  · constructor
    · rintro ⟨b, nt, hb, hnt, rfl⟩
      rcases h with _ | _ | _ | _ | h <;> cases hb <;> rcases i with _ | i <;> cases hnt <;>
        simp
    · rintro ⟨rfl, ⟨rfl, rfl⟩ | ⟨rfl, rfl⟩⟩
      · exact ⟨_, _, rfl, rfl, rfl⟩
      · exact ⟨_, _, rfl, rfl, rfl⟩

theorem earlyNode_valid : earlyNode.Valid moveScene ∧ earlyNode.PaysFrom moveScene 1 := by
  refine moveScene_valid (b := noteBlock "b1" "genesis") ⟨fun i b hb ↦ ?_, fun i a b ha hb ↦ ?_⟩
    (fun b hb ↦ ?_) rfl (fun {h i t} ↦ ?_) rfl (by decide +kernel)
  · rcases i with _ | _ | _ | i <;> cases hb <;> exact ⟨rfl, rfl⟩
  · rcases i with _ | _ | _ | i <;> cases ha <;> cases hb <;> rfl
  · simp only [earlyNode, List.mem_cons, List.not_mem_nil, or_false] at hb
    rcases hb with rfl | rfl | rfl <;> simp [forkBlock, noteBlock, spendBlock]
  · constructor
    · rintro ⟨b, nt, hb, hnt, rfl⟩
      rcases h with _ | _ | _ | h <;> cases hb <;> rcases i with _ | i <;> cases hnt <;>
        simp
    · rintro ⟨rfl, ⟨rfl, rfl⟩ | ⟨rfl, rfl⟩⟩
      · exact ⟨_, _, rfl, rfl, rfl⟩
      · exact ⟨_, _, rfl, rfl, rfl⟩

theorem moveScene_roomy : moveScene.Roomy lookahead := by
  refine ⟨fun _ _ _ ↦ ⟨_, rfl⟩, ?_⟩
  rintro h k ⟨t, o, -, ho, -⟩
  rw [moveScene_vout] at ho
  cases ho

theorem newWallet_keyed : moveScene.Keyed lookahead newWallet := by
  refine ⟨⟨fun _ _ ↦ rfl, fun _ _ ↦ rfl⟩, ⟨fun _ h ↦ (nomatch h), fun _ h ↦ (nomatch h),
    fun _ ↦ ⟨rfl, fun _ h ↦ (nomatch h)⟩⟩, ⟨fun _ _ _ _ ↦ .inr ?_, fun _ h ↦ (nomatch h),
    fun _ _ h ↦ (nomatch h), fun _ h ↦ (nomatch h)⟩, le_refl _, le_refl _⟩
  rintro ⟨t, o, -, ho, -⟩
  rw [moveScene_vout] at ho
  cases ho

/-- A wallet born at height 2 that saw the note in block 2 keeps its spend when the note moves to
block 1; a new wallet does not know it. -/
theorem not_same_below_birthday :
    let w₀ := { newWallet with birthday := 2 }
    moveScene.Roomy lookahead ∧ w₀.Blank ∧ moveScene.Keyed lookahead w₀ ∧
      lateNode.Valid moveScene ∧ earlyNode.Valid moveScene ∧
      (syncAll spendEnv [(lateNode, 0), (earlyNode, 0)] w₀).1 = .ok () ∧
      (syncAll spendEnv [(earlyNode, 0)] w₀).1 = .ok () ∧
      ¬ (syncAll spendEnv [(lateNode, 0), (earlyNode, 0)] w₀).2.Same
        (syncAll spendEnv [(earlyNode, 0)] w₀).2 := by
  intro w₀
  have hkeyed := newWallet_keyed
  refine ⟨moveScene_roomy, ⟨rfl, rfl, rfl, rfl, rfl, rfl, rfl⟩, ⟨hkeyed.agrees, hkeyed.bundle,
    hkeyed.known, hkeyed.external, hkeyed.internal⟩, lateNode_valid.1, earlyNode_valid.1,
    by decide +kernel, by decide +kernel, fun hsame ↦ ?_⟩
  have hold :
      ((syncAll spendEnv [(lateNode, 0), (earlyNode, 0)] w₀).2.wtx.get? "spend").isSome := by
    decide +kernel
  have hnew : (syncAll spendEnv [(earlyNode, 0)] w₀).2.wtx.get? "spend" = none := by
    decide +kernel
  have hrow := hsame.rows "spend"
  rw [hnew, Option.map_none, Option.map_eq_none_iff] at hrow
  rw [hrow] at hold
  cases hold

/-- The same two snapshots, for a wallet without a birthday. -/
theorem same_without_birthday : ∃ w w',
    syncAll spendEnv [(lateNode, 0), (earlyNode, 0)] newWallet = (.ok (), w) ∧
      syncAll spendEnv [(earlyNode, 5)] newWallet = (.ok (), w') ∧ w.Same w' := by
  refine (@syncAll_same moveScene _ _ _ [(lateNode, 0)] _ _ _) moveScene_roomy newWallet_blank
    newWallet_keyed newWallet_blank newWallet_keyed rfl fun e he ↦ ?_
  simp only [List.cons_append, List.nil_append, List.mem_cons, List.not_mem_nil, or_false] at he
  rcases he with rfl | rfl
  · exact ⟨lateNode_valid.1, List.cons_ne_nil _ _, fun ha ht ↦
      Nat.le_of_succ_le (lateNode_valid.2 ha ht)⟩
  · exact ⟨earlyNode_valid.1, List.cons_ne_nil _ _, earlyNode_valid.2⟩

end Yew.Daemon
