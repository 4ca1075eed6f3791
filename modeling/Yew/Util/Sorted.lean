import Mathlib.Data.List.Sort

/-!
# Sorting by a comparison

A list sorted by a comparison that tells its members apart is the same for every order the list
comes in.
-/

namespace Yew.Sorted

variable {α : Type} {cmp : α → α → Ordering}

instance instTotalNeGt [Std.OrientedCmp cmp] : Std.Total (fun a b ↦ cmp a b ≠ .gt) where
  total a b := by
    by_cases h : cmp a b = .gt
    · rw [h, Std.OrientedCmp.lt_of_gt h]
      exact .inr nofun
    · exact .inl h

instance instIsTransNeGt [Std.TransCmp cmp] : IsTrans α (fun a b ↦ cmp a b ≠ .gt) where
  trans _ _ _ := Std.TransCmp.le_trans

theorem eq_of_ne_gt [Std.OrientedCmp cmp] {a b : α} (h : cmp a b ≠ .gt) (h' : cmp b a ≠ .gt) :
    cmp a b = .eq := by
  cases hcmp : cmp a b with
  | lt => exact absurd (Std.OrientedCmp.gt_of_lt hcmp) h'
  | eq => rfl
  | gt => exact absurd hcmp h

theorem pairwise_sort [Std.TransCmp cmp] (l : List α) :
    (l.insertionSort fun a b ↦ cmp a b ≠ .gt).Pairwise fun a b ↦ cmp a b ≠ .gt :=
  List.pairwise_insertionSort _ l

/-- Sorting does not depend on the order of the list. -/
theorem sort_eq_of_perm [Std.TransCmp cmp] {l l' : List α}
    (hsep : ∀ a ∈ l, ∀ b ∈ l, cmp a b = .eq → a = b) (h : l.Perm l') :
    (l.insertionSort fun a b ↦ cmp a b ≠ .gt) = l'.insertionSort fun a b ↦ cmp a b ≠ .gt := by
  refine List.Perm.eq_of_pairwise ?_ (pairwise_sort l) (pairwise_sort l') ?_
  · intro a b ha hb hle hge
    rw [List.mem_insertionSort] at ha hb
    exact hsep a ha b (h.mem_iff.mpr hb) (eq_of_ne_gt hle hge)
  · exact (List.perm_insertionSort _ l).trans (h.trans (List.perm_insertionSort _ l').symm)

/-- Members that are told apart are sorted strictly. -/
theorem pairwise_lt_sort [Std.TransCmp cmp] {l : List α} (hnodup : l.Nodup)
    (hsep : ∀ a ∈ l, ∀ b ∈ l, cmp a b = .eq → a = b) :
    (l.insertionSort fun a b ↦ cmp a b ≠ .gt).Pairwise fun a b ↦ cmp a b = .lt := by
  have hne : (l.insertionSort fun a b ↦ cmp a b ≠ .gt).Pairwise (· ≠ ·) :=
    ((List.perm_insertionSort _ l).nodup_iff.mpr hnodup)
  refine ((pairwise_sort l).and hne).imp_of_mem ?_
  rintro a b ha hb ⟨hle, hne⟩
  rw [List.mem_insertionSort] at ha hb
  cases hcmp : cmp a b with
  | lt => rfl
  | eq => exact absurd (hsep a ha b hb hcmp) hne
  | gt => exact absurd hcmp hle

end Yew.Sorted
