import Mathlib.Logic.Function.Iterate
import Yew.Daemon.Sync

/-!
# Chains under block hashes

A block hash commits to the block, its parent and so its height.  Two chains that have a block in
common at some height agree below it, which is what the fork search of a sync relies on.

This is ours: the source compares hashes and relies on it.
-/

namespace Yew.Daemon

open Tx

/-! ## Block hashes -/

/-- What block hashes commit to: the block with its parent's hash, and so its height. -/
structure Ledger where
  body : String → Block
  height : String → Nat

namespace Ledger

variable (L : Ledger)

/-- The hash `n` blocks below. -/
def up (n : Nat) (hash : String) : String := (fun x ↦ (L.body x).prev)^[n] hash

/-- The block at a height below a tip, by the hashes. -/
def Below (t : Tip) (height : Nat) (hash : String) : Prop :=
  height ≤ t.height ∧ L.up (t.height - height) t.hash = hash

variable {L}

theorem up_add (m n : Nat) (x : String) : L.up m (L.up n x) = L.up (m + n) x :=
  (Function.iterate_add_apply _ m n x).symm

theorem below_self (t : Tip) : L.Below t t.height t.hash := by
  refine ⟨le_refl _, ?_⟩
  rw [Nat.sub_self]
  rfl

/-- Blocks below a tip of the same chain, seen from one of them. -/
theorem Below.of_le {t : Tip} {h₁ h₂ : Nat} {x₁ x₂ : String} (hx₁ : L.Below t h₁ x₁)
    (hx₂ : L.Below t h₂ x₂) (hle : h₁ ≤ h₂) : L.Below ⟨h₂, x₂⟩ h₁ x₁ := by
  obtain ⟨hle₁, hup₁⟩ := hx₁
  obtain ⟨hle₂, hup₂⟩ := hx₂
  refine ⟨hle, ?_⟩
  rw [← hup₂, up_add, ← hup₁]
  congr 1
  dsimp only
  omega

/-- A block on top of the tip. -/
theorem Below.step {t : Tip} {h : Nat} {x hash : String} (hx : L.Below t h x)
    (hprev : (L.body hash).prev = t.hash) : L.Below ⟨t.height + 1, hash⟩ h x := by
  obtain ⟨hle, hup⟩ := hx
  refine ⟨Nat.le_succ_of_le hle, ?_⟩
  have hstep : L.up 1 hash = t.hash := hprev
  rw [← hup, ← hstep, up_add]
  congr 1
  dsimp only
  omega

end Ledger

/-- A node's chain under block hashes: each block is the one its hash commits to, and names the
block before it. -/
structure Node.On (L : Ledger) (node : Node) : Prop where
  body : ∀ i b, node.chain[i]? = some b → L.body b.hash = b ∧ L.height b.hash = i
  link : ∀ i a b, node.chain[i]? = some a → node.chain[i + 1]? = some b → b.prev = a.hash

namespace Node.On

variable {L : Ledger} {node : Node}

/-- The ancestors of a block of the chain are the blocks below it. -/
theorem up (h : node.On L) {i n : Nat} {b : Block} (hb : node.chain[i]? = some b) (hn : n ≤ i) :
    ∃ a, node.chain[i - n]? = some a ∧ L.up n b.hash = a.hash := by
  induction n with
  | zero => exact ⟨b, hb, rfl⟩
  | succ n ih =>
    obtain ⟨a, ha, hup⟩ := ih (Nat.le_of_succ_le hn)
    have hlt : i - (n + 1) < node.chain.length := by
      have := (List.getElem?_eq_some_iff.mp hb).1
      omega
    obtain ⟨c, hc⟩ : ∃ c, node.chain[i - (n + 1)]? = some c :=
      ⟨_, List.getElem?_eq_getElem hlt⟩
    have ha' : node.chain[i - (n + 1) + 1]? = some a := by
      rw [← ha]
      congr 1
      omega
    refine ⟨c, hc, ?_⟩
    rw [← h.link _ c a hc ha', Ledger.up, Function.iterate_succ_apply']
    change (L.body (L.up n b.hash)).prev = a.prev
    rw [hup, (h.body _ a ha).1]

/-- Whatever lies below a block of the chain is on the chain. -/
theorem below (h : node.On L) {t : Tip} {b : Block} (hb : node.chain[t.height]? = some b)
    (ht : b.hash = t.hash) {height : Nat} {x : String} (hx : L.Below t height x) :
    ∃ a, node.chain[height]? = some a ∧ a.hash = x := by
  obtain ⟨hle, hup⟩ := hx
  obtain ⟨a, ha, hua⟩ := h.up hb (Nat.sub_le t.height height)
  refine ⟨a, ?_, ?_⟩
  · rw [← ha]
    congr 1
    omega
  · rw [← hua, ht, hup]

theorem blockHash (h : node.On L) {height : Nat} {x : String}
    (hx : node.blockHash height = .ok x) :
    ∃ b, node.chain[height]? = some b ∧ b.hash = x ∧ node.rawBlock x = .ok b := by
  unfold Node.blockHash at hx
  split at hx
  · rename_i b hb
    cases hx
    refine ⟨b, hb, rfl, ?_⟩
    have hmem : b ∈ node.chain := List.mem_of_getElem? hb
    unfold Node.rawBlock
    split
    · rename_i c hc
      have hhash : c.hash = b.hash := by simpa using List.find?_some hc
      obtain ⟨j, hj⟩ := List.getElem?_of_mem (List.mem_of_find?_eq_some hc)
      rw [← (h.body j c hj).1, hhash, (h.body height b hb).1]
    · rename_i hc
      simpa using List.find?_eq_none.mp hc b hmem
  · cases hx

end Node.On

/-! ## Chains that can be read -/

/-- A block the wallet can read: every transaction parses, and the node knows the tree's size. -/
structure Block.Readable (env : Env) (b : Block) : Prop where
  tx : ∀ t ∈ b.txs, ∃ r, Transaction.parse env.C t.bytes = .ok r
  shielded : ∀ t ∈ b.txs, ∃ z, env.view.shielded t.bytes = .ok z
  size : b.saplingSize.isSome

/-- A node the wallet can read, whose hashes commit to its blocks. -/
structure Node.Legible (L : Ledger) (env : Env) (node : Node) : Prop where
  on : node.On L
  readable : ∀ b ∈ node.chain, b.Readable env

theorem parseTx_ok {env : Env} {book : KeyBook} {bytes : Bytes}
    (htx : ∃ r, Transaction.parse env.C bytes = .ok r)
    (hz : ∃ z, env.view.shielded bytes = .ok z) : ∃ p, parseTx env book bytes = .ok p := by
  obtain ⟨⟨tx, id⟩, htx⟩ := htx
  obtain ⟨z, hz⟩ := hz
  simp [parseTx, htx, hz, bind, Except.bind, pure, Except.pure, Except.mapError]

end Yew.Daemon
