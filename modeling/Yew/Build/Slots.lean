import Mathlib.Tactic.Ring
import Yew.Build.Wallet

/-!
# The slots of a vault spend

A redeem and a claim lay their outputs out by the same rule: the main output first, then the
protocol fee, the YED change, the attestors' fee, the residual and the payload, each if there is
one.  The attestors must not be paid by output 1, so the payload moves there when they would be.
What the payload says of the outputs is read off this order, and so is the balance.

The rule stands twice in the source, in `plan_vault_spend` of `core/src/build/redeem.rs` and in
`plan_claim` of `core/src/build/claim.rs`; here both plans are instances of one.  The daemon's
Sapling spends have an order of their own (`Yew.Daemon.SaplingSpend`).

## Source

* `core/src/build/claim.rs`: `Slot`
* `core/src/build/redeem.rs`: `Slot`
* `yewd/wallet/src/zfund.rs`: `Slot`
-/

namespace Yew.Build

open Script Tx Coins Yellowback

/-- `Slot`, of both spends.  The main output is the collateral of a redeem and the claimant's intent
of a claim; only a claim returns the change of its fee inputs. -/
inductive Slot where
  | main
  | fee
  | change
  | attest
  | residual
  | payload
  | fundChange
deriving DecidableEq

/-- Which of the optional outputs a spend has. -/
structure Slots where
  fee : Bool
  change : Bool
  attest : Bool
  residual : Bool
  fundChange : Bool
deriving DecidableEq

/-- `vout_or_none`. -/
def voutOrNone : Option Nat → UInt8
  | none => feeVoutNone
  | some i => UInt8.ofNat i

namespace Slots

/-- The order of the outputs. -/
def order (k : Slots) : List Slot :=
  let front := [Slot.main] ++ (if k.fee then [.fee] else []) ++ (if k.change then [.change] else [])
  -- AFEE-1 excludes output 1: the payload takes it
  let front := front ++ if k.attest && !k.fee && !k.change then [.payload] else []
  let front := front ++ (if k.attest then [.attest] else []) ++
    (if k.residual then [.residual] else [])
  let front := if front.contains .payload then front else front ++ [.payload]
  front ++ if k.fundChange then [.fundChange] else []

/-- The index of a slot, `-1` in the source if there is none. -/
def indexOf (k : Slots) (s : Slot) : Option Nat := k.order.findIdx? (· = s)

/-- The payload over the outputs. -/
def redeemPayload (k : Slots) (refHeight : UInt32) (changeCents : Nat) : Payload :=
  .redeem refHeight (voutOrNone (k.indexOf .fee)) (voutOrNone (k.indexOf .attest))
    (match k.indexOf .change with
      | none => []
      | some i => [⟨UInt8.ofNat i, UInt32.ofNat changeCents⟩])

/-- A spend has a slot. -/
def has (k : Slots) : Slot → Bool
  | .main => true
  | .fee => k.fee
  | .change => k.change
  | .attest => k.attest
  | .residual => k.residual
  | .payload => true
  | .fundChange => k.fundChange

/-! ## The order -/

variable {k : Slots} {s : Slot} {i : Nat}

theorem mem_order : s ∈ k.order ↔ k.has s = true := by
  obtain ⟨fee, change, attest, residual, fundChange⟩ := k
  revert fee change attest residual fundChange
  cases s <;> decide

theorem nodup_order (k : Slots) : k.order.Nodup := by
  obtain ⟨fee, change, attest, residual, fundChange⟩ := k
  revert fee change attest residual fundChange
  decide

/-- The attestors are never paid by output 1. -/
theorem getElem?_one_order (k : Slots) : k.order[1]? ≠ some .attest := by
  obtain ⟨fee, change, attest, residual, fundChange⟩ := k
  revert fee change attest residual fundChange
  decide

theorem getElem?_zero_order (k : Slots) : k.order[0]? = some .main := by
  obtain ⟨fee, change, attest, residual, fundChange⟩ := k
  revert fee change attest residual fundChange
  decide

theorem getElem?_map_order (out : Slot → Out) (h : k.order[i]? = some s) :
    (k.order.map out)[i]? = some (out s) := by
  rw [List.getElem?_map, h]
  rfl

/-- What the outputs take. -/
theorem paid_order (k : Slots) (out : Slot → Out) :
    paid (k.order.map out) = (out .main).value + (if k.fee then (out .fee).value else 0) +
      (if k.change then (out .change).value else 0) +
      (if k.attest then (out .attest).value else 0) +
      (if k.residual then (out .residual).value else 0) + (out .payload).value +
      (if k.fundChange then (out .fundChange).value else 0) := by
  obtain ⟨fee, change, attest, residual, fundChange⟩ := k
  cases fee <;> cases change <;> cases attest <;> cases residual <;> cases fundChange <;>
    simp [order] <;> ring

end Slots

/-! ## The payload over the outputs -/

/-- An order of outputs: no slot twice, a payload, and the attestors not paid by output 1. -/
structure Layout where
  order : List Slot
  nodup : order.Nodup
  payload_mem : Slot.payload ∈ order
  attest_ne : order[1]? ≠ some .attest

/-- The layout of a redeem or a claim. -/
def Slots.layout (k : Slots) : Layout where
  order := k.order
  nodup := k.nodup_order
  payload_mem := mem_order.mpr rfl
  attest_ne := k.getElem?_one_order

namespace Layout

/-- The index of a slot. -/
def indexOf (l : Layout) (s : Slot) : Option Nat := l.order.findIdx? (· = s)

/-- The payload over the outputs. -/
def redeemPayload (l : Layout) (refHeight : UInt32) (changeCents : Nat) : Payload :=
  .redeem refHeight (voutOrNone (l.indexOf .fee)) (voutOrNone (l.indexOf .attest))
    (match l.indexOf .change with
      | none => []
      | some i => [⟨UInt8.ofNat i, UInt32.ofNat changeCents⟩])

variable {l : Layout} {s : Slot} {i : Nat}

/-- There are seven slots. -/
theorem length_le (l : Layout) : l.order.length ≤ 7 := by
  have hsub : l.order ⊆ [.main, .fee, .change, .attest, .residual, .payload, .fundChange] := by
    intro s _
    cases s <;> decide
  exact (List.subperm_of_subset l.nodup hsub).length_le

theorem getElem?_of_indexOf (h : l.indexOf s = some i) : l.order[i]? = some s ∧ i < 7 := by
  rw [indexOf, List.findIdx?_eq_some_iff_getElem] at h
  obtain ⟨hi, hs, -⟩ := h
  have hlen := l.length_le
  refine ⟨?_, by omega⟩
  rw [List.getElem?_eq_getElem hi, of_decide_eq_true hs]

theorem indexOf_eq_none (h : l.indexOf s = none) : s ∉ l.order := by
  rw [indexOf, List.findIdx?_eq_none_iff] at h
  intro hs
  simpa using h s hs

theorem mem_of_indexOf (h : l.indexOf s = some i) : s ∈ l.order :=
  List.mem_of_getElem? (getElem?_of_indexOf h).1

/-- The payload stands alone in the order. -/
theorem exists_order_eq (l : Layout) :
    ∃ before after, l.order = before ++ .payload :: after ∧ Slot.payload ∉ before ∧
      Slot.payload ∉ after := by
  obtain ⟨before, after, horder⟩ := List.append_of_mem l.payload_mem
  have hnodup := l.nodup
  rw [horder, List.nodup_middle, List.nodup_cons, List.mem_append] at hnodup
  exact ⟨before, after, horder, fun h ↦ hnodup.1 (.inl h), fun h ↦ hnodup.1 (.inr h)⟩

section Outputs

variable {out : Slot → Out} {refHeight : UInt32} {changeCents : Nat} {data : Bytes}

/-- An index that the payload names: none, or the output of the slot. -/
theorem voutOrNone_indexOf (l : Layout) (s : Slot) :
    (s ∉ l.order ∧ voutOrNone (l.indexOf s) = feeVoutNone) ∨
      s ∈ l.order ∧ voutOrNone (l.indexOf s) ≠ feeVoutNone ∧
        l.order[(voutOrNone (l.indexOf s)).toNat]? = some s := by
  cases h : l.indexOf s with
  | none => exact .inl ⟨indexOf_eq_none h, rfl⟩
  | some i =>
    obtain ⟨hget, hlt⟩ := getElem?_of_indexOf h
    have hbyte : (voutOrNone (some i)).toNat = i := toNat_ofNat_of_lt (by omega)
    refine .inr ⟨mem_of_indexOf h, ?_, ?_⟩
    · intro hnone
      rw [hnone] at hbyte
      have : feeVoutNone.toNat = 255 := rfl
      omega
    · rw [hbyte]
      exact hget

/-- The attestors are never paid by output 1. -/
theorem voutOrNone_attest_ne_one (l : Layout) : voutOrNone (l.indexOf .attest) ≠ 1 := by
  rcases l.voutOrNone_indexOf .attest with ⟨-, hnone⟩ | ⟨-, -, hget⟩
  · rw [hnone]
    decide
  · intro hone
    rw [hone] at hget
    exact l.attest_ne hget

/-- The assignment of the change, on the output of the change. -/
theorem assignments_redeemPayload (l : Layout) (refHeight : UInt32) (changeCents : Nat) :
    (Slot.change ∉ l.order ∧ (l.redeemPayload refHeight changeCents).assignments = []) ∨
      Slot.change ∈ l.order ∧ ∃ (a : Assignment),
        (l.redeemPayload refHeight changeCents).assignments = [a] ∧
        a.cents = UInt32.ofNat changeCents ∧
        l.order[a.vout.toNat]? = some .change := by
  rw [redeemPayload, Payload.assignments]
  cases h : l.indexOf .change with
  | none => exact .inl ⟨indexOf_eq_none h, rfl⟩
  | some i =>
    obtain ⟨hget, hlt⟩ := getElem?_of_indexOf h
    refine .inr ⟨mem_of_indexOf h, _, rfl, rfl, ?_⟩
    rw [toNat_ofNat_of_lt (by omega)]
    exact hget

/-- The payload is the only `OP_RETURN`, and is found. -/
theorem findPayload_order {tx : Transaction}
    (hvout : tx.vout = (l.order.map out).map Out.toTxOut)
    (hpayload : out .payload = ⟨0, payloadScript data⟩)
    (hother : ∀ s ∈ l.order, s ≠ .payload → isOpReturn (out s).scriptPubkey = false)
    (hencode : encode (l.redeemPayload refHeight changeCents) = some data) :
    ∃ i, findPayload tx = some ⟨l.redeemPayload refHeight changeCents, i⟩ := by
  obtain ⟨before, after, horder, hbefore, hafter⟩ := l.exists_order_eq
  have hclean : ∀ ss : List Slot, ss ⊆ l.order → Slot.payload ∉ ss →
      ∀ o ∈ ss.map out, isOpReturn o.scriptPubkey = false := by
    intro ss hsub hnot o ho
    obtain ⟨s, hs, rfl⟩ := List.mem_map.mp ho
    refine hother s (hsub hs) ?_
    rintro rfl
    exact hnot hs
  have hmap : l.order.map out = before.map out ++ ⟨0, payloadScript data⟩ :: after.map out := by
    rw [horder, List.map_append, List.map_cons, hpayload]
  refine ⟨(before.map out).length, ?_⟩
  refine findPayload_outs (hmap ▸ hvout) (hclean before ?_ hbefore) (hclean after ?_ hafter)
    hencode ?_
  · rw [horder]
    exact List.subset_append_left _ _
  · rw [horder]
    exact List.Subset.trans (List.subset_cons_self _ _) (List.subset_append_right _ _)
  · intro a ha
    rcases l.assignments_redeemPayload refHeight changeCents with
      ⟨-, hnil⟩ | ⟨-, b, hsingle, -, hget⟩
    · rw [hnil] at ha
      simp at ha
    · rw [hsingle, List.mem_singleton] at ha
      subst ha
      rw [horder] at hget
      have hlt := (List.getElem?_eq_some_iff.mp hget).1
      simp only [List.length_append, List.length_map, List.length_cons] at hlt ⊢
      refine ⟨by omega, ?_⟩
      -- the output of the change is not that of the payload
      intro heq
      rw [heq, List.getElem?_append_right (le_refl _)] at hget
      simp at hget

end Outputs

end Layout

end Yew.Build
