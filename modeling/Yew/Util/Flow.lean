import Mathlib.Algebra.Order.BigOperators.Group.List
import Mathlib.Algebra.Order.Ring.Int
import Mathlib.Tactic.Ring

/-!
# Flows of value

A transaction as a holder of some of its inputs sees it: what the holder puts in, what others put
in, and the outputs.  Of each output two things are known: whether the holder counts it as coming
back, and whether it does come back.  The two may differ, and the identity below says by how much
the value that really leaves exceeds the value that is seen to leave.
-/

namespace Yew

/-- An output of a flow. -/
structure FlowOut where
  value : Int
  /-- Counted as coming back to the holder. -/
  counted : Bool
  /-- Coming back to the holder. -/
  controlled : Bool

/-- A transaction as the holder of some inputs sees it. -/
structure Flow where
  ours : Int
  others : List Int
  outs : List FlowOut

namespace Flow

/-- The value of the outputs of one kind. -/
def total (f : Flow) (p : FlowOut → Bool) : Int := ((f.outs.filter p).map FlowOut.value).sum

/-- What the inputs bring beyond the outputs. -/
def fee (f : Flow) : Int := f.ours + f.others.sum - f.total fun _ ↦ true

/-- What is seen to leave: the holder's inputs less what is counted as coming back. -/
def outflow (f : Flow) : Int := f.ours - f.total FlowOut.counted

/-- The value of the outputs that do not come back. -/
def paidOut (f : Flow) : Int := f.total fun o ↦ !o.controlled

/-- The value counted as coming back that does not. -/
def misnamed (f : Flow) : Int := f.total fun o ↦ o.counted && !o.controlled

/-- The value that comes back and is not counted. -/
def unnamed (f : Flow) : Int := f.total fun o ↦ o.controlled && !o.counted

/-- The outputs that do not come back are those not counted, corrected by what is misnamed and by
what is unnamed. -/
theorem total_split (f : Flow) :
    f.paidOut - f.total (fun _ ↦ true) = f.misnamed - f.unnamed - f.total FlowOut.counted := by
  unfold paidOut misnamed unnamed total
  induction f.outs with
  | nil => rfl
  | cons o os ih =>
    obtain ⟨v, n, c⟩ := o
    cases n <;> cases c <;> simp at ih ⊢ <;> omega

/-- What really leaves, against what is seen to leave. -/
theorem paidOut_add_fee (f : Flow) :
    f.paidOut + f.fee = f.outflow + (f.misnamed + f.others.sum - f.unnamed) := by
  have h := f.total_split
  unfold fee outflow
  omega

/-- The flags are true: what is counted as coming back does, and nobody else puts anything in.  What
comes back uncounted is worth no less than nothing. -/
structure Honest (f : Flow) : Prop where
  counted : ∀ o ∈ f.outs, o.counted = true → o.controlled = true
  others : f.others = []
  uncounted : ∀ o ∈ f.outs, o.counted = false → 0 ≤ o.value

theorem total_nonneg (f : Flow) {p : FlowOut → Bool} (h : ∀ o ∈ f.outs, p o = true → 0 ≤ o.value) :
    0 ≤ f.total p := by
  refine List.sum_nonneg fun v hv ↦ ?_
  obtain ⟨o, ho, rfl⟩ := List.mem_map.mp hv
  obtain ⟨hmem, hp⟩ := List.mem_filter.mp ho
  exact h o hmem hp

theorem total_eq_zero (f : Flow) {p : FlowOut → Bool} (h : ∀ o ∈ f.outs, p o = false) :
    f.total p = 0 := by
  have hnil : f.outs.filter p = [] := List.filter_eq_nil_iff.mpr fun o ho ↦ by simp [h o ho]
  simp [total, hnil]

/-- An output of a kind whose outputs are worth something is seen in the total. -/
theorem total_pos (f : Flow) {p : FlowOut → Bool} (h : ∀ o ∈ f.outs, p o = true → 0 < o.value)
    {o : FlowOut} (ho : o ∈ f.outs) (hp : p o = true) : 0 < f.total p := by
  have hmem : o.value ∈ (f.outs.filter p).map FlowOut.value :=
    List.mem_map_of_mem (List.mem_filter.mpr ⟨ho, hp⟩)
  refine (h o ho hp).trans_le (List.single_le_sum (fun v hv ↦ ?_) _ hmem)
  obtain ⟨x, hx, rfl⟩ := List.mem_map.mp hv
  obtain ⟨hxmem, hxp⟩ := List.mem_filter.mp hx
  exact (h x hxmem hxp).le

/-- With true flags no more leaves than is seen to leave. -/
theorem Honest.paidOut_add_fee_le {f : Flow} (h : f.Honest) : f.paidOut + f.fee ≤ f.outflow := by
  have hmisnamed : f.misnamed = 0 := by
    refine f.total_eq_zero fun o ho ↦ ?_
    cases hc : o.counted with
    | false => rfl
    | true => simp [h.counted o ho hc]
  have hunnamed : 0 ≤ f.unnamed := by
    refine f.total_nonneg fun o ho hp ↦ h.uncounted o ho ?_
    simpa using (Bool.and_eq_true_iff.mp hp).2
  have hothers : f.others.sum = 0 := by rw [h.others, List.sum_nil]
  have := f.paidOut_add_fee
  omega

/-- A cap with nothing to spare: it is what is seen to leave, every output and everything that others
put in is worth something, and whatever comes back is counted. -/
structure Tight (f : Flow) (cap : Int) : Prop where
  used : f.outflow = cap
  pos : ∀ o ∈ f.outs, 0 < o.value
  others : ∀ v ∈ f.others, 0 < v
  named : ∀ o ∈ f.outs, o.controlled = true → o.counted = true

/-- A cap with nothing to spare holds only if the flags are true. -/
theorem Tight.honest {f : Flow} {cap : Int} (h : f.Tight cap)
    (hcap : f.paidOut + f.fee ≤ cap) : f.Honest := by
  have hunnamed : f.unnamed = 0 := by
    refine f.total_eq_zero fun o ho ↦ ?_
    cases hc : o.controlled with
    | false => rfl
    | true => simp [h.named o ho hc]
  have hmisnamed : 0 ≤ f.misnamed := f.total_nonneg fun o ho _ ↦ (h.pos o ho).le
  have hothers : 0 ≤ f.others.sum := List.sum_nonneg fun v hv ↦ (h.others v hv).le
  have hflow := f.paidOut_add_fee
  have hused := h.used
  refine ⟨fun o ho hc ↦ ?_, ?_, fun o ho _ ↦ (h.pos o ho).le⟩
  · by_contra hn
    have hpos : 0 < f.misnamed := f.total_pos (fun o ho _ ↦ h.pos o ho) ho (by simp [hc, hn])
    omega
  · by_contra hn
    have hpos : 0 < f.others.sum := List.sum_pos _ h.others hn
    omega

end Flow

end Yew
