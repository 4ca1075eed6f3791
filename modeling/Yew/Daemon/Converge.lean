import Yew.Daemon.Mempool
import Yew.Daemon.Orphans

/-!
# A sync and the last snapshot

After a sync the wallet is what the snapshot makes it, whatever it had read before: the rows of
the wallet's transactions of that chain and mempool, each in its block, and the coins they make.

The procedure is `sync` of `yewd/wallet/src/lib.rs`.  The specification is a wallet that is computed
from a snapshot in one pass; a sync refines it from whatever rows it starts.
-/

namespace Yew.Daemon

open Script Tx Pq Proto Proc Yellowback

/-! ## The state after a sync -/

/-- A wallet that is in step with a snapshot. -/
structure Wallet.Synced (S : Scene) (bound start : Nat) (node : Node) (w : Wallet) : Prop
    extends w.Pooled S bound start node where
  coins : w.coins = w.allCoins
  notes : w.notes = w.allNotes S.env
  window : w.Window node start (max start node.chain.length)
  birthday : max w.birthday 1 = start

section

variable {S : Scene} {prev node : Node} {w w' : Wallet} {bound start n : Nat}

theorem Node.At.lt_length {h i : Nat} {t : String} (hat : node.At h i t) :
    h < node.chain.length := by
  obtain ⟨b, -, hb, -⟩ := hat
  exact (List.getElem?_eq_some_iff.mp hb).1

/-- Once the whole chain is read, every place of it is. -/
theorem Node.done_iff_placed (hn : node.chain.length ≤ n) (t : String) (ref : BlockRef) :
    node.Done S start n 0 t ref ↔ node.Placed S start t ref := by
  constructor
  · rintro ⟨h, i, b, hs, hat, hb, ⟨-, rfl⟩ | ⟨-, hlt, -⟩⟩
    · exact ⟨h, i, b, hs, hat, hb, rfl⟩
    · exact absurd hlt (Nat.not_lt_zero i)
  · rintro ⟨h, i, b, hs, hat, hb, rfl⟩
    exact ⟨h, i, b, hs, hat, hb, .inl ⟨hat.lt_length.trans_le hn, rfl⟩⟩

theorem Scene.Rows.iff {D D' : String → BlockRef → Prop} (h : S.Rows D w)
    (hD : ∀ t ref, D t ref ↔ D' t ref) : S.Rows D' w := by
  obtain rfl : D = D' := funext fun t ↦ funext fun ref ↦ propext (hD t ref)
  exact h

theorem Scene.Held.iff {D D' : String → BlockRef → Prop} (h : S.Held bound D w)
    (hD : ∀ t ref, D t ref ↔ D' t ref) : S.Held bound D' w := by
  obtain rfl : D = D' := funext fun t ↦ funext fun ref ↦ propext (hD t ref)
  exact h

theorem Wallet.Synced.derived (h : w.Synced S bound start node) : S.Derived w := by
  have hd := h.rows.derived h.keyed.agrees
  have heq : w.rebuild S.env = w := by
    rw [Wallet.rebuild, ← h.coins, ← h.notes]
  rwa [heq] at hd

/-- A wallet in step with a snapshot, at the start of the next sync. -/
theorem Wallet.Synced.held (h : w.Synced S bound start node) :
    S.Held bound (node.Placed S start) w where
  rows := h.rows
  keyed := h.keyed
  seen t ht hrel := h.pool (h.seen t ht) hrel
  pending hp {t row} hrow := by
    rw [h.pending hp t] at hrow
    cases hrow
  derived := h.derived

/-! ## Where the scan resumes -/

/-- Chains with a block in common agree up to it. -/
theorem Node.On.agree {L : Ledger} (hp : prev.On L) (hn : node.On L) {f : Nat} {b b' : Block}
    (hb : prev.chain[f]? = some b) (hb' : node.chain[f]? = some b') (hash : b.hash = b'.hash)
    {h : Nat} (hle : h ≤ f) : prev.chain[h]? = node.chain[h]? := by
  obtain ⟨a, ha, hup⟩ := hp.up hb (Nat.sub_le f h)
  obtain ⟨a', ha', hup'⟩ := hn.up hb' (Nat.sub_le f h)
  have hf : f - (f - h) = h := by omega
  rw [hf] at ha ha'
  have heq : a = a' := by
    rw [← (hp.body h a ha).1, ← (hn.body h a' ha').1, ← hup, ← hup', hash]
  rw [ha, ha', heq]

theorem Node.done_congr (h : ∀ m < n, prev.chain[m]? = node.chain[m]?) (t : String)
    (ref : BlockRef) : prev.Done S start n 0 t ref ↔ node.Done S start n 0 t ref := by
  have hone {prev node : Node} (h : ∀ m < n, prev.chain[m]? = node.chain[m]?)
      (hd : prev.Done S start n 0 t ref) : node.Done S start n 0 t ref := by
    obtain ⟨m, i, b, hs, ⟨b', nt, hb', hnt, htx⟩, hb, ⟨hlt, rfl⟩ | ⟨-, hlt, -⟩⟩ := hd
    · exact ⟨m, i, b, hs, ⟨b', nt, h m hlt ▸ hb', hnt, htx⟩, h m hlt ▸ hb, .inl ⟨hlt, rfl⟩⟩
    · exact absurd hlt (Nat.not_lt_zero i)
  exact ⟨hone h, hone fun m hm ↦ (h m hm).symm⟩

/-- The rows after a rewind. -/
theorem rewind_wtx (w : Wallet) (fork : Option Nat) (t : String) :
    (w.rewind fork).wtx.get? t =
      if (w.blockOf t).any (aboveFork fork) && (w.parsed.get? t).any fun p ↦ p.coinbase then none
      else (w.wtx.get? t).map fun row ↦
        { row with block := row.block.filter fun b ↦ !aboveFork fork b } := by
  simp only [Wallet.rewind, OrdMap.get?_map, OrdMap.get?_filter]
  cases (w.blockOf t).any (aboveFork fork) && (w.parsed.get? t).any fun p ↦ p.coinbase <;> rfl

theorem rewind_parsed (w : Wallet) (fork : Option Nat) (t : String) :
    (w.rewind fork).parsed.get? t =
      if (w.blockOf t).any (aboveFork fork) && (w.parsed.get? t).any fun p ↦ p.coinbase then none
      else w.parsed.get? t := by
  simp only [Wallet.rewind, OrdMap.get?_filter]
  cases (w.blockOf t).any (aboveFork fork) && (w.parsed.get? t).any fun p ↦ p.coinbase <;> rfl

/-- A rewind leaves the rows up to the fork in their blocks. -/
theorem Wallet.Synced.rewind {fork : Option Nat} (h : w.Synced S bound start prev)
    (hfork : ∀ b : BlockRef, aboveFork fork b = false ↔ b.height < n) :
    S.Held bound (prev.Done S start n 0) (w.rewind fork) := by
  have hrow {t : String} {row : WalletTx} (hr : (w.rewind fork).wtx.get? t = some row) :
      ∃ row₀, w.wtx.get? t = some row₀ ∧ row.hex = row₀.hex ∧
        row.block = row₀.block.filter fun b ↦ !aboveFork fork b := by
    rw [rewind_wtx] at hr
    split at hr
    · cases hr
    · obtain ⟨row₀, hrow₀, rfl⟩ := Option.map_eq_some_iff.mp hr
      exact ⟨row₀, hrow₀, rfl, rfl⟩
  have hblock {t : String} {ref : BlockRef} (hr : (w.rewind fork).blockOf t = some ref) :
      w.blockOf t = some ref ∧ ref.height < n := by
    obtain ⟨row, hr, href⟩ := Option.bind_eq_some_iff.mp hr
    obtain ⟨row₀, hrow₀, -, hb⟩ := hrow hr
    rw [href] at hb
    obtain ⟨hb, hbelow⟩ := Option.filter_eq_some_iff.mp hb.symm
    refine ⟨by rw [Wallet.blockOf, hrow₀]; exact hb, (hfork ref).mp ?_⟩
    simpa using hbelow
  have hd := h.derived
  refine ⟨⟨⟨fun {t row} hr ↦ ?_, fun {t row ref} hr href ↦ ?_, fun {t ref} href hrel ↦ ?_,
    fun t ↦ ?_⟩, ⟨h.keyed.agrees, h.keyed.bundle, h.keyed.known, h.keyed.external,
    h.keyed.internal⟩, fun t ht ↦ absurd ht List.not_mem_nil, fun hp {t row} hr ↦ ?_⟩,
    ⟨fun {t m} hr hown ↦ ?_, hd.coinsOf, fun {t ref q r} hr hq hmem ↦ ?_, hd.notesOf⟩⟩
  · obtain ⟨row₀, hrow₀, hhex, -⟩ := hrow hr
    rw [hhex]
    exact h.rows.rel hrow₀
  · have hr' : (w.rewind fork).blockOf t = some ref := by rw [Wallet.blockOf, hr]; exact href
    obtain ⟨hold, hlt⟩ := hblock hr'
    obtain ⟨row₀, hrow₀, href₀⟩ := Option.bind_eq_some_iff.mp hold
    obtain ⟨m, i, b, hs, hat, hb, rfl⟩ := h.rows.placed hrow₀ href₀
    exact ⟨m, i, b, hs, hat, hb, .inl ⟨hlt, rfl⟩⟩
  · obtain ⟨m, i, b, hs, hat, hb, ⟨hlt, rfl⟩ | ⟨-, hlt, -⟩⟩ := href
    · obtain ⟨row₀, hrow₀, href₀⟩ := h.rows.complete ⟨m, i, b, hs, hat, hb, rfl⟩ hrel
      have hkeep : aboveFork fork (S.fullRef b t m i) = false := (hfork _).mpr hlt
      have hblockOf : w.blockOf t = some (S.fullRef b t m i) := by
        rw [Wallet.blockOf, hrow₀]
        exact href₀
      refine ⟨{ row₀ with block := row₀.block.filter fun b ↦ !aboveFork fork b }, ?_, ?_⟩
      · rw [rewind_wtx, hblockOf, Option.any_some, hkeep, hrow₀]
        rfl
      · simp [href₀, hkeep, Option.filter_some]
    · exact absurd hlt (Nat.not_lt_zero i)
  · rw [rewind_parsed, rewind_wtx]
    split
    · rfl
    · rw [h.rows.parsed t, Option.map_map]
      rfl
  · obtain ⟨row₀, hrow₀, -⟩ := hrow hr
    rw [h.pending hp t] at hrow₀
    cases hrow₀
  · obtain ⟨row, hr⟩ := Option.isSome_iff_exists.mp hr
    obtain ⟨row₀, hrow₀, -⟩ := hrow hr
    exact hd.coins (by rw [hrow₀]; rfl) hown
  · exact hd.notes (hblock hr).1 hq hmem

/-- The fork search, when every call is answered. -/
theorem forkPoint_quiet (node : Node) (attempt : Nat) (ts : List Tip) :
    forkPoint .quiet node attempt ts = .ok
      ((ts.find? fun t ↦ node.chain[t.height]?.any fun b ↦ b.hash = t.hash).map Tip.height) := by
  induction ts with
  | nil => rfl
  | cons t ts ih =>
    unfold forkPoint
    cases hb : node.chain[t.height]? with
    | none => simp [Node.blockHash, hb, ih]
    | some b =>
      by_cases heq : b.hash = t.hash
      · simp [Node.blockHash, hb, heq]
      · simp [Node.blockHash, hb, heq, ih]

/-- Nothing is placed in a chain that ends below the wallet's first block. -/
theorem Node.not_placed (h : prev.chain.length ≤ start) (t : String) (ref : BlockRef) :
    ¬ prev.Placed S start t ref := by
  rintro ⟨h', i, b, hs, hat, -⟩
  have := hat.lt_length
  omega

theorem Node.not_done (h : n ≤ start) (t : String) (ref : BlockRef) :
    ¬ node.Done S start n 0 t ref := by
  rintro ⟨h', i, b, hs, hat, -, ⟨hlt, -⟩ | ⟨-, hlt, -⟩⟩
  · omega
  · exact Nat.not_lt_zero i hlt

/-- A window of the blocks up to a common block is one of the node's chain. -/
theorem Wallet.Window.common {r : Tip} {b : Block} (hwin : w.Window prev start n)
    (hpon : prev.On S.ledger) (hon : node.On S.ledger) (hr : r ∈ w.recent)
    (hb : node.chain[r.height]? = some b) (hash : b.hash = r.hash)
    (hrecent : w'.recent = w.recent.filter fun t ↦ t.height ≤ r.height)
    (htip : w'.tip = w'.recent.getLast?) : w'.Window node start (r.height + 1) := by
  obtain ⟨-, -, b₀, hb₀, hash₀⟩ := hwin.recent r hr
  have hlast : w'.tip = some r := by
    rw [htip, hrecent]
    exact getLast?_filter_le hwin.sorted hr
  refine ⟨htip, ?_, fun s hs ↦ ?_, fun t ht ↦ ?_, fun hnone ↦ ?_⟩
  · rw [hrecent]
    exact hwin.sorted.sublist List.filter_sublist
  · rw [hrecent] at hs
    obtain ⟨hs, hle⟩ := List.mem_filter.mp hs
    have hle : s.height ≤ r.height := by simpa using hle
    obtain ⟨hstart, -, hblock⟩ := hwin.recent s hs
    rw [hpon.agree hon hb₀ hb (hash₀.trans hash.symm) hle] at hblock
    exact ⟨hstart, Nat.lt_succ_of_le hle, hblock⟩
  · rw [hlast] at ht
    cases ht
    rfl
  · rw [hlast] at hnone
    cases hnone

/-- The whole window is up to the tip. -/
theorem Wallet.Window.filter_le {t : Tip} {height : Nat} (hwin : w.Window prev start n)
    (htip : w.tip = some t) (heq : height = t.height) :
    (w.recent.filter fun s ↦ s.height ≤ height) = w.recent := by
  refine List.filter_eq_self.mpr fun s hs ↦ ?_
  have hlast := hwin.last t htip
  have := (hwin.recent s hs).2.1
  simp only [decide_eq_true_eq]
  omega

/-- A wallet whose tip is on the node's chain has read the node's chain up to it. -/
theorem Wallet.Synced.onTip {t : Tip} {b : Block} (h : w.Synced S bound start prev)
    (hpon : prev.On S.ledger) (hon : node.On S.ledger) (htip : w.tip = some t)
    (hb : node.chain[t.height]? = some b) (hash : b.hash = t.hash) :
    S.Held bound (node.Done S start (t.height + 1) 0) w ∧ w.Window node start (t.height + 1) := by
  have ht : t ∈ w.recent := List.mem_of_getLast? (h.window.tip ▸ htip)
  obtain ⟨-, -, b₀, hb₀, hash₀⟩ := h.window.recent t ht
  have hlen := h.window.last t htip
  have hagree (m : Nat) (hm : m < t.height + 1) : prev.chain[m]? = node.chain[m]? :=
    hpon.agree hon hb₀ hb (hash₀.trans hash.symm) (Nat.le_of_lt_succ hm)
  refine ⟨h.held.iff fun t' ref ↦ ?_, h.window.common hpon hon ht hb hash
    (h.window.filter_le htip rfl).symm h.window.tip⟩
  rw [← Node.done_iff_placed (n := t.height + 1) (by omega)]
  exact Node.done_congr hagree t' ref

/-- Where a sync resumes: the rows and the window are those of the node's chain up to the fork. -/
theorem Wallet.Synced.resume (h : w.Synced S bound start prev) (hpon : prev.On S.ledger)
    (hon : node.On S.ledger) (attempt : Nat) :
    ∃ fork, forkPoint .quiet node attempt w.recent.reverse = .ok fork ∧
      ∃ w' n, w.resume fork = (w', n) ∧ start ≤ n ∧ n ≤ max start node.chain.length ∧
        S.Held bound (node.Done S start n 0) w' ∧ w'.Window node start n ∧
        w'.birthday = w.birthday := by
  refine ⟨_, forkPoint_quiet node attempt w.recent.reverse, ?_⟩
  cases hfind : w.recent.reverse.find? fun t ↦
      node.chain[t.height]?.any fun b ↦ b.hash = t.hash with
  | none =>
    cases htip : w.tip with
    | none =>
      -- nothing was read yet
      have hlen : max start prev.chain.length = start := h.window.none htip
      have hempty : w.recent = [] := by
        rw [← List.getLast?_eq_none_iff, ← h.window.tip, htip]
      refine ⟨w, start, by simp [Wallet.resume, htip, h.birthday], le_refl _, le_max_left _ _,
        h.held.iff fun t ref ↦ iff_of_false (Node.not_placed (by omega) t ref)
          (Node.not_done (le_refl _) t ref), ?_, rfl⟩
      refine ⟨h.window.tip, h.window.sorted, fun r hr ↦ ?_, fun t ht ↦ ?_, fun _ ↦ rfl⟩
      · rw [hempty] at hr
        cases hr
      · rw [htip] at ht
        cases ht
    | some t =>
      -- no block of the window is left on the chain
      have hheld := (@Wallet.Synced.rewind _ _ _ _ _ 0 none h) fun b ↦ by simp [aboveFork]
      have hrecent : (w.rewind none).recent = [] := by simp [Wallet.rewind]
      have htip' : (w.rewind none).tip = none := by simp [Wallet.rewind]
      refine ⟨w.rewind none, start, by simp [Wallet.resume, htip, h.birthday], le_refl _,
        le_max_left _ _, hheld.iff fun t ref ↦ iff_of_false (Node.not_done (Nat.zero_le _) t ref)
          (Node.not_done (le_refl _) t ref), ?_, rfl⟩
      refine ⟨rfl, ?_, fun r hr ↦ ?_, fun t ht ↦ ?_, fun _ ↦ rfl⟩
      · rw [hrecent]
        exact .nil
      · rw [hrecent] at hr
        cases hr
      · rw [htip'] at ht
        cases ht
  | some r =>
    have hr : r ∈ w.recent := List.mem_reverse.mp (List.mem_of_find?_eq_some hfind)
    obtain ⟨b, hb, hash⟩ : ∃ b, node.chain[r.height]? = some b ∧ b.hash = r.hash := by
      simpa [Option.any_eq_true] using List.find?_some hfind
    obtain ⟨hstart, -, b₀, hb₀, hash₀⟩ := h.window.recent r hr
    have hlt := (List.getElem?_eq_some_iff.mp hb).1
    have hagree (m : Nat) (hm : m < r.height + 1) : prev.chain[m]? = node.chain[m]? :=
      hpon.agree hon hb₀ hb (hash₀.trans hash.symm) (Nat.le_of_lt_succ hm)
    obtain ⟨t, htip⟩ : ∃ t, w.tip = some t := by
      rw [h.window.tip]
      exact ⟨_, List.getLast?_eq_some_getLast (List.ne_nil_of_mem hr)⟩
    by_cases heq : r.height = t.height
    · -- the tip itself is on the chain
      obtain rfl : r = t := by
        have hsorted := getLast?_filter_le h.window.sorted hr
        rw [h.window.filter_le htip heq] at hsorted
        exact Option.some.inj (hsorted.symm.trans (h.window.tip ▸ htip))
      obtain ⟨hheld, hwin⟩ := h.onTip hpon hon htip hb hash
      exact ⟨w, r.height + 1, by simp [Wallet.resume, htip], by omega, by omega, hheld, hwin, rfl⟩
    · have hheld := (@Wallet.Synced.rewind _ _ _ _ _ (r.height + 1) (some r.height) h) fun b ↦
        decide_eq_false_iff_not.trans (Nat.not_lt.trans Nat.lt_succ_iff.symm)
      exact ⟨w.rewind (some r.height), r.height + 1, by simp [Wallet.resume, htip, heq], by omega,
        by omega, hheld.iff (Node.done_congr hagree),
        h.window.common hpon hon hr hb hash rfl rfl, rfl⟩

theorem Wallet.Window.congr (hwin : w.Window node start n) (htip : w'.tip = w.tip)
    (hrecent : w'.recent = w.recent) : w'.Window node start n where
  tip := by rw [htip, hrecent]; exact hwin.tip
  sorted := by rw [hrecent]; exact hwin.sorted
  recent := by rw [hrecent]; exact hwin.recent
  last := by rw [htip]; exact hwin.last
  none := by rw [htip]; exact hwin.none

/-! ## A sync -/

/-- `scan_from`, where the sync resumes. -/
theorem scanFrom_held (hroom : S.Roomy bound) (hv : node.Valid S) (hp : node.PaysFrom S start)
    (hne : node.chain ≠ []) (now : Int) (attempt : Nat) (hstart : start ≤ n)
    (hn : n ≤ max start node.chain.length) (hw : S.Held bound (node.Done S start n 0) w)
    (hwin : w.Window node start n) :
    ∃ w', scanFrom S.env .quiet node now attempt n w = (.ok (), w') ∧
      S.Held bound (node.Placed S start) w' ∧
      w'.Window node start (max start node.chain.length) ∧ w'.birthday = w.birthday := by
  have hpos : 0 < node.chain.length := List.length_pos_of_ne_nil hne
  set k := node.blockCount + 1 - n with hk
  have hcount : node.blockCount = node.chain.length - 1 := rfl
  have hend : n + k = max start node.chain.length := by omega
  obtain ⟨w', hrun, hw', hwin', hbirth⟩ := scanBlocks_held hroom hv hp now attempt (k := k)
    (by omega) hstart hw hwin
  rw [hend] at hw' hwin'
  refine ⟨w', bind_eq_ok.mpr ⟨node.blockCount, w, rfl, hrun⟩, ?_, hwin', hbirth⟩
  exact hw'.iff (Node.done_iff_placed (le_max_right _ _))

/-- A mempool read leaves a wallet in step that was in step with the chain. -/
theorem syncMempool_synced (hroom : S.Roomy bound) (hv : node.Valid S)
    (hp : node.PaysFrom S start) (now : Int) (attempt : Nat)
    (hw : S.Held bound (node.Placed S start) w)
    (hwin : w.Window node start (max start node.chain.length))
    (hbirth : max w.birthday 1 = start) :
    ∃ c w', syncMempool S.env .quiet node now attempt w = (.ok c, w') ∧
      (w'.rebuild S.env).Synced S bound start node ∧
      ((w.coins = w.allCoins ∧ w.notes = w.allNotes S.env) → w'.Synced S bound start node) := by
  obtain ⟨c, w', hrun, hpooled, hcoins⟩ := syncMempool_held hroom hv hp now attempt hw
  have hloose : Loosens S.env w w' := by
    have := @loosens_syncMempool S.env .quiet node now attempt w
    rwa [hrun] at this
  have hwin' := hwin.congr hloose.tip hloose.recent
  have hbirth' : max w'.birthday 1 = start := by rw [hloose.birthday, hbirth]
  refine ⟨c, w', hrun, ⟨⟨hpooled.rows.congr rfl rfl, ⟨hpooled.keyed.agrees, hpooled.keyed.bundle,
    hpooled.keyed.known, hpooled.keyed.external, hpooled.keyed.internal⟩, hpooled.unplaced,
    hpooled.pool, hpooled.seen, hpooled.pending⟩, rfl, rfl, hwin'.congr rfl rfl, hbirth'⟩, ?_⟩
  exact fun hold ↦ ⟨hpooled, (hcoins hold).1, (hcoins hold).2, hwin', hbirth'⟩

/-- A wallet at the node's best block has read the node's chain. -/
theorem Wallet.Synced.atHash (h : w.Synced S bound start prev) (hpon : prev.On S.ledger)
    (hon : node.On S.ledger) {best : String} (hbest : node.bestHash = .ok best)
    (hat : w.atHash best) : S.Held bound (node.Placed S start) w ∧
      w.Window node start (max start node.chain.length) := by
  obtain ⟨t, htip, hash⟩ : ∃ t, w.tip = some t ∧ t.hash = best := by
    simpa [Wallet.atHash, Option.any_eq_true] using hat
  have ht : t ∈ w.recent := List.mem_of_getLast? (h.window.tip ▸ htip)
  obtain ⟨hstart, -, b₀, hb₀, hash₀⟩ := h.window.recent t ht
  obtain ⟨b, hlast, hb⟩ : ∃ b, node.chain.getLast? = some b ∧ b.hash = best := by
    unfold Node.bestHash at hbest
    split at hbest
    · rename_i b hlast
      cases hbest
      exact ⟨b, hlast, rfl⟩
    · cases hbest
  rw [List.getLast?_eq_getElem?] at hlast
  -- the height is the hash's
  have hheight : t.height = node.chain.length - 1 := by
    rw [← (hpon.body _ b₀ hb₀).2, ← (hon.body _ b hlast).2, hash₀, hash, hb]
  have hlt := (List.getElem?_eq_some_iff.mp hlast).1
  rw [← hheight] at hlast
  have hmax : max start node.chain.length = t.height + 1 := by omega
  rw [hmax]
  obtain ⟨hheld, hwin⟩ := h.onTip hpon hon htip hlast (hb.trans hash.symm)
  exact ⟨hheld.iff (Node.done_iff_placed (by omega)), hwin⟩

/-- One attempt of a sync, from a wallet in step with any snapshot. -/
theorem syncAttempt_synced (hroom : S.Roomy bound) (hpon : prev.On S.ledger) (hv : node.Valid S)
    (hp : node.PaysFrom S start) (hne : node.chain ≠ []) (now : Int) (attempt : Nat)
    (changed : Bool) (hw : w.Synced S bound start prev) :
    ∃ r w', syncAttempt S.env .quiet node now attempt changed w = (.ok r, w') ∧
      w'.Synced S bound start node := by
  obtain ⟨best, hbest⟩ : ∃ best, node.bestHash = .ok best := by
    unfold Node.bestHash
    rw [List.getLast?_eq_some_getLast hne]
    exact ⟨_, rfl⟩
  have hask : lift ((Faults.quiet.ask (.bestHash attempt) node.bestHash).mapError RpcError.ofNode)
      w = (.ok best, w) := by
    rw [Faults.ask_quiet, hbest]
    rfl
  by_cases hat : w.atHash best
  · obtain ⟨hheld, hwin⟩ := hw.atHash hpon hv.on hbest hat
    obtain ⟨c, w', hrun, -, hsynced⟩ := syncMempool_synced hroom hv hp now attempt hheld hwin
      hw.birthday
    refine ⟨some (changed || c), w', ?_, hsynced ⟨hw.coins, hw.notes⟩⟩
    refine bind_eq_ok.mpr ⟨best, w, hask, bind_eq_ok.mpr ⟨w, w, rfl, ?_⟩⟩
    rw [if_pos hat]
    exact bind_eq_ok.mpr ⟨c, w', hrun, rfl⟩
  · obtain ⟨fork, hfork, w₁, n, hresume, hstart, hn, hheld₁, hwin₁, hbirth₁⟩ :=
      hw.resume hpon hv.on attempt
    obtain ⟨w₂, hscan, hheld₂, hwin₂, hbirth₂⟩ := scanFrom_held hroom hv hp hne now attempt hstart
      hn hheld₁ hwin₁
    obtain ⟨c, w₃, hmempool, hsynced, -⟩ := syncMempool_synced hroom hv hp now attempt hheld₂ hwin₂
      (by rw [hbirth₂, hbirth₁, hw.birthday])
    refine ⟨if (w₃.rebuild S.env).atHash best then some true else none, w₃.rebuild S.env, ?_,
      hsynced⟩
    refine bind_eq_ok.mpr ⟨best, w, hask, bind_eq_ok.mpr ⟨w, w, rfl, ?_⟩⟩
    rw [if_neg hat]
    refine bind_eq_ok.mpr ⟨(), w, rfl, bind_eq_ok.mpr ⟨w, w, rfl, bind_eq_ok.mpr ⟨fork, w, ?_,
      bind_eq_ok.mpr ⟨(), w₁, ?_, bind_eq_ok.mpr ⟨true, w₂, ?_, ?_⟩⟩⟩⟩⟩
    · rw [lift_apply, hfork]
    · rw [modify_apply, hresume]
    · rw [scanOrMoved, hresume, hscan]
    · exact bind_eq_ok.mpr ⟨c, w₃, hmempool, bind_eq_ok.mpr ⟨(), _, rfl,
        bind_eq_ok.mpr ⟨_, _, rfl, rfl⟩⟩⟩

theorem syncAttempts_synced (hroom : S.Roomy bound) (hpon : prev.On S.ledger)
    (hv : node.Valid S) (hp : node.PaysFrom S start) (hne : node.chain ≠ []) (now : Int)
    {attempts : List Nat} (hsome : attempts ≠ []) (changed : Bool)
    (hw : w.Synced S bound start prev) :
    ∃ r w', syncAttempts S.env .quiet node now attempts changed w = (.ok r, w') ∧
      w'.Synced S bound start node := by
  induction attempts generalizing prev w changed with
  | nil => exact absurd rfl hsome
  | cons a as ih =>
    obtain ⟨r, w₁, hrun, hw₁⟩ := syncAttempt_synced hroom hpon hv hp hne now a changed hw
    cases r with
    | some answer => exact ⟨answer, w₁, bind_eq_ok.mpr ⟨some answer, w₁, hrun, rfl⟩, hw₁⟩
    | none =>
      cases as with
      | nil => exact ⟨true, w₁, bind_eq_ok.mpr ⟨none, w₁, hrun, rfl⟩, hw₁⟩
      | cons a' as =>
        obtain ⟨r', w', hrest, hw'⟩ := ih hv.on (List.cons_ne_nil a' as) true hw₁
        exact ⟨r', w', bind_eq_ok.mpr ⟨none, w₁, hrun, hrest⟩, hw'⟩

/-- A sync, from a wallet in step with any snapshot, leaves it in step with the node's. -/
theorem sync_synced (hroom : S.Roomy bound) (hpon : prev.On S.ledger) (hv : node.Valid S)
    (hp : node.PaysFrom S start) (hne : node.chain ≠ []) (now : Int)
    (hw : w.Synced S bound start prev) :
    ∃ r w', sync S.env .quiet node now w = (.ok r, w') ∧ w'.Synced S bound start node := by
  have hread : ∃ w₁, readChain .quiet w = (.ok (), w₁) ∧ w₁.Synced S bound start prev := by
    by_cases hr : w.chainRead
    · refine ⟨w, bind_eq_ok.mpr ⟨w, w, rfl, ?_⟩, hw⟩
      rw [if_pos hr]
      rfl
    · refine ⟨{ w with chainRead := true }, bind_eq_ok.mpr ⟨w, w, rfl, ?_⟩, ?_⟩
      · rw [if_neg hr]
        exact bind_eq_ok.mpr ⟨(), w, rfl, rfl⟩
      · exact ⟨⟨hw.rows.congr rfl rfl, ⟨hw.keyed.agrees, hw.keyed.bundle, hw.keyed.known,
          hw.keyed.external, hw.keyed.internal⟩, hw.unplaced, hw.pool, hw.seen, hw.pending⟩,
          hw.coins, hw.notes, hw.window.congr rfl rfl, hw.birthday⟩
  obtain ⟨w₁, hread, hw₁⟩ := hread
  obtain ⟨r, w', hrun, hw'⟩ := (@syncAttempts_synced _ _ _ _ _ _ hroom hpon hv hp hne now
    [0, 1, 2, 3]) (by simp) false hw₁
  exact ⟨r, w', bind_eq_ok.mpr ⟨(), w₁, hread, hrun⟩, hw'⟩

end

end Yew.Daemon
