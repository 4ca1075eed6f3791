import Yew.Core.VaultCodec

/-!
# The push layer

A script put together from pushes of bytes and of numbers is split back into them, one operation for
each, and a script number is the shortest bytes that say its number.

The builder is `core/src/script.rs`, with `push_data`, `push_int` and the script number under them;
the reader is `ops` of the same file.

## Source

* `core/src/script.rs`: `push_data`
-/

namespace Yew.Script

/-- What a script is put together from. -/
inductive Item where
  | data (bytes : Bytes)
  | num (n : Int)
deriving DecidableEq

namespace Item

/-- `push_data` or `push_int`. -/
def push : Item → Bytes
  | .data bytes => pushData bytes
  | .num n => pushInt n

/-- At most 65,535 bytes, or an `i64`. -/
def Fits : Item → Prop
  | .data bytes => bytes.length ≤ 0xffff
  | .num n => -2 ^ 63 ≤ n ∧ n < 2 ^ 63

/-- The operation carries the bytes, or is read as the number when that takes at most five bytes: every
number of a template is at most `maxTemplateHeight`, far below. -/
def ReadAs : Item → ScriptOp → Prop
  | .data bytes, o => o.data = bytes ∧ o.opcode ≤ opPushdata4
  | .num n, o => n.natAbs < 2 ^ 39 → Vault.readNum o = some n

theorem exists_op {i : Item} (h : i.Fits) : ∃ o, Spells i.push [o] ∧ i.ReadAs o := by
  cases i with
  | data bytes =>
    obtain ⟨o, hspells, hdata, hle⟩ := Spells.exists_pushOp h
    exact ⟨o, hspells, hdata, hle⟩
  | num n =>
    obtain ⟨hlow, hhigh⟩ : -2 ^ 63 ≤ n ∧ n < 2 ^ 63 := h
    obtain ⟨o, hspells, hnum⟩ := Vault.exists_intOp (n := n) (by omega)
    exact ⟨o, hspells, fun hrange ↦ hnum (by omega)⟩

/-- The operations of a list of items, item by item. -/
theorem exists_ops {items : List Item} (h : ∀ i ∈ items, i.Fits) :
    ∃ os, Spells (items.flatMap push) os ∧ List.Forall₂ ReadAs items os := by
  induction items with
  | nil => exact ⟨[], Spells.nil, .nil⟩
  | cons i items ih =>
    obtain ⟨o, ho, hread⟩ := exists_op (h i List.mem_cons_self)
    obtain ⟨os, hos, hreads⟩ := ih fun j hj ↦ h j (List.mem_cons_of_mem i hj)
    refine ⟨o :: os, ?_, .cons hread hreads⟩
    rw [List.flatMap_cons]
    exact ho.append hos

end Item

/-- **The push layer.**  `ops` splits the pushes of any sequence of byte strings of at most 65,535
bytes and of script numbers into one operation for each, which carries the bytes or is read back as the
number; `script_num_encode` takes no two numbers to the same bytes, and no fewer bytes say the
number. -/
theorem push_layer :
    (∀ items : List Item, (∀ i ∈ items, i.Fits) →
      ∃ os, ops (items.flatMap Item.push) = .ok os ∧ List.Forall₂ Item.ReadAs items os) ∧
    (∀ m n : Int, -2 ^ 63 ≤ m → m < 2 ^ 63 → -2 ^ 63 ≤ n → n < 2 ^ 63 →
      scriptNumEncode m = scriptNumEncode n → m = n) ∧
    (∀ n : Int, -2 ^ 63 ≤ n → n < 2 ^ 63 → scriptNumValue (scriptNumEncode n) = n ∧
      ∀ b, scriptNumValue b = n → (scriptNumEncode n).length ≤ b.length) := by
  refine ⟨fun items h ↦ ?_, fun m n hm hm' hn hn' h ↦ ?_, fun n hn hn' ↦ ⟨?_, fun b hb ↦ ?_⟩⟩
  · obtain ⟨os, hspells, hreads⟩ := Item.exists_ops h
    exact ⟨os, hspells.ops_eq, hreads⟩
  · have hm := scriptNumValue_encode (n := m) (by omega)
    rw [h, scriptNumValue_encode (by omega)] at hm
    exact hm.symm
  · exact scriptNumValue_encode (by omega)
  · exact length_scriptNumEncode_le_of_value (by omega) hb

end Yew.Script
