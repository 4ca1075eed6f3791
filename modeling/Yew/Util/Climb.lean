import Mathlib.Data.Finset.Card
import Mathlib.Data.Finset.Filter
import Mathlib.Logic.Function.Iterate

/-!
# A figure that is raised until it holds

A loop that tries a figure, learns what the figure would have to be, and tries again with that when
it is larger.  Each turn may fail.  The loop is given fuel; when the figures asked for are finitely
many it ends (`climb_ne_none`), and then with a figure that asks for no more (`climb_eq_ok`).
-/

namespace Yew

variable {α β ε : Type} [LinearOrder α]

/-- Try `x`; `turn` returns what it asks for and its outcome, which stands when that is no more. -/
def climb (turn : α → Except ε (α × β)) : Nat → α → Option (Except ε (α × β))
  | 0, _ => none
  | n + 1, x =>
    match turn x with
    | .error e => some (.error e)
    | .ok (y, b) => if x < y then climb turn n y else some (.ok (x, b))

namespace Climb

variable {turn : α → Except ε (α × β)}

/-- A loop that came out holds a figure that asks for no more. -/
theorem climb_eq_ok {n : Nat} {x z : α} {b : β} (h : climb turn n x = some (.ok (z, b))) :
    x ≤ z ∧ ∃ y, turn z = .ok (y, b) ∧ y ≤ z := by
  induction n generalizing x with
  | zero => cases h
  | succ n ih =>
    rw [climb] at h
    split at h
    · cases h
    · rename_i y b' hturn
      split at h
      · rename_i hlt
        obtain ⟨hle, hz⟩ := ih h
        exact ⟨hlt.le.trans hle, hz⟩
      · rename_i hge
        cases h
        exact ⟨le_refl _, y, hturn, not_lt.mp hge⟩

/-- What every raise keeps holds of the figure the loop comes out with. -/
theorem climb_keeps {P : α → Prop} (hstep : ∀ x y b, P x → turn x = .ok (y, b) → P y) {n : Nat}
    {x z : α} {b : β} (hx : P x) (h : climb turn n x = some (.ok (z, b))) : P z := by
  induction n generalizing x with
  | zero => cases h
  | succ n ih =>
    rw [climb] at h
    split at h
    · cases h
    · rename_i y b' hturn
      split at h
      · exact ih (hstep x y b' hx hturn) h
      · cases h
        exact hx

/-- Loops whose turns agree on the figures that come up. -/
theorem climb_congr {turn' : α → Except ε (α × β)} {P : α → Prop}
    (hturn : ∀ x, P x → turn x = turn' x) (hstep : ∀ x y b, P x → turn x = .ok (y, b) → P y)
    {n : Nat} {x : α} (hx : P x) : climb turn n x = climb turn' n x := by
  induction n generalizing x with
  | zero => rfl
  | succ n ih =>
    rw [climb, climb, ← hturn x hx]
    cases h : turn x with
    | error e => rfl
    | ok r =>
      obtain ⟨y, b⟩ := r
      dsimp only
      rw [ih (hstep x y b hx h)]

/-- The figures a loop may still go to. -/
def left (figures : Finset α) (x : α) : Finset α := figures.filter (x < ·)

theorem card_left_lt {figures : Finset α} {x y : α} (hy : y ∈ figures) (hlt : x < y) :
    (left figures y).card < (left figures x).card := by
  refine Finset.card_lt_card (Finset.ssubset_iff_of_subset ?_ |>.mpr ⟨y, ?_, ?_⟩)
  · intro z hz
    rw [left, Finset.mem_filter] at hz ⊢
    exact ⟨hz.1, hlt.trans hz.2⟩
  · rw [left, Finset.mem_filter]
    exact ⟨hy, hlt⟩
  · simp [left]

/-- With fuel for every figure it can be raised to, the loop ends. -/
theorem climb_ne_none {figures : Finset α}
    (hfigures : ∀ x y b, turn x = .ok (y, b) → x < y → y ∈ figures) {n : Nat} {x : α}
    (hn : (left figures x).card < n) : climb turn n x ≠ none := by
  induction n generalizing x with
  | zero => omega
  | succ n ih =>
    rw [climb]
    split
    · nofun
    · rename_i y b hturn
      split
      · rename_i hlt
        have := card_left_lt (hfigures x y b hturn hlt) hlt
        exact ih (by omega)
      · nofun

end Climb

/-! ## Turns that come out by themselves

Where a turn decides itself whether the figure holds, it returns its outcome or the next figure. -/

/-- Try `x`; `turn` comes out, or names the figure to try next. -/
def retry (turn : α → Except ε (β ⊕ α)) : Nat → α → Option (Except ε β)
  | 0, _ => none
  | n + 1, x =>
    match turn x with
    | .error e => some (.error e)
    | .ok (.inl b) => some (.ok b)
    | .ok (.inr y) => retry turn n y

namespace Climb

variable {turn : α → Except ε (β ⊕ α)}

omit [LinearOrder α] in
/-- What every raise keeps holds of the figure whose turn came out. -/
theorem retry_eq_ok {P : α → Prop} (hstep : ∀ x y, P x → turn x = .ok (.inr y) → P y) {n : Nat}
    {x : α} {b : β} (hx : P x) (h : retry turn n x = some (.ok b)) :
    ∃ z, P z ∧ turn z = .ok (.inl b) := by
  induction n generalizing x with
  | zero => cases h
  | succ n ih =>
    rw [retry] at h
    split at h
    · cases h
    · rename_i b' hturn
      cases h
      exact ⟨x, hx, hturn⟩
    · rename_i y hturn
      exact ih (hstep x y hx hturn) h

/-- With fuel for every figure it can be raised to, the loop ends. -/
theorem retry_ne_none {figures : Finset α}
    (hnext : ∀ x y, turn x = .ok (.inr y) → x < y ∧ y ∈ figures) {n : Nat} {x : α}
    (hn : (left figures x).card < n) : retry turn n x ≠ none := by
  induction n generalizing x with
  | zero => omega
  | succ n ih =>
    rw [retry]
    split
    · nofun
    · nofun
    · rename_i y hturn
      obtain ⟨hlt, hmem⟩ := hnext x y hturn
      have := card_left_lt hmem hlt
      exact ih (by omega)

end Climb

/-! ## Figures alone

Where the outcome is left out and no turn fails, the loop is a function of its figures.  Each turn
may ask in its own way. -/

/-- The figure that holds, if a turn of the list finds it. -/
def settle {γ : Type} (want : γ → α → α) : List γ → α → Option α
  | [], _ => none
  | c :: cs, x => if x < want c x then settle want cs (want c x) else some x

theorem settle_eq_some {γ : Type} {want : γ → α → α} {cs : List γ} {x z : α}
    (h : settle want cs x = some z) : x ≤ z ∧ ∃ c ∈ cs, want c z ≤ z := by
  induction cs generalizing x with
  | nil => cases h
  | cons c cs ih =>
    rw [settle] at h
    split at h
    · rename_i hlt
      obtain ⟨hle, d, hd, hz⟩ := ih h
      exact ⟨hlt.le.trans hle, d, List.mem_cons_of_mem c hd, hz⟩
    · rename_i hge
      cases h
      exact ⟨le_refl _, c, List.mem_cons_self, not_lt.mp hge⟩

/-- What every raise keeps holds of the figure that holds. -/
theorem settle_keeps {γ : Type} {want : γ → α → α} {P : α → Prop}
    (hstep : ∀ c x, P x → x < want c x → P (want c x)) {cs : List γ} {x z : α} (hx : P x)
    (h : settle want cs x = some z) : P z := by
  induction cs generalizing x with
  | nil => cases h
  | cons c cs ih =>
    rw [settle] at h
    split at h
    · rename_i hlt
      exact ih (hstep c x hx hlt) h
    · cases h
      exact hx

/-- Where every turn asks in one way, a figure is found when one of the first ones asks for no
more. -/
theorem isSome_settle {γ : Type} {want : α → α} {cs : List γ} {x : α} :
    (settle (fun _ ↦ want) cs x).isSome ↔ ∃ k < cs.length, want (want^[k] x) ≤ want^[k] x := by
  induction cs generalizing x with
  | nil => simp [settle]
  | cons c cs ih =>
    rw [settle]
    split
    · rename_i hlt
      rw [ih]
      constructor
      · rintro ⟨k, hk, hle⟩
        exact ⟨k + 1, Nat.succ_lt_succ hk, hle⟩
      · rintro ⟨k, hk, hle⟩
        cases k with
        | zero => exact absurd hle (not_le.mpr hlt)
        | succ k => exact ⟨k, Nat.lt_of_succ_lt_succ hk, hle⟩
    · rename_i hge
      exact iff_of_true rfl ⟨0, Nat.succ_pos _, not_lt.mp hge⟩

end Yew
