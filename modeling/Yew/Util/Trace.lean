import Mathlib.Logic.Basic

/-!
# Runs of a machine and their histories

A machine takes events one after another and answers each.  A history lists the events with their
answers, the latest first.  A run may be restricted by a guard that every step has to meet, on the
state before it and the event; the rules below turn facts about one step into facts about whole
histories.
-/

namespace Yew

/-- The histories and states a machine can reach from `s₀` by steps that meet `guard`. -/
inductive Trace {σ ε ρ : Type} (step : σ → ε → ρ × σ) (guard : σ → ε → Prop) (s₀ : σ) :
    List (ε × ρ) → σ → Prop
  | start : Trace step guard s₀ [] s₀
  | step {h : List (ε × ρ)} {s : σ} (e : ε) (t : Trace step guard s₀ h s) (g : guard s e) :
    Trace step guard s₀ ((e, (step s e).1) :: h) (step s e).2

namespace Trace

variable {σ ε ρ : Type} {step : σ → ε → ρ × σ} {guard : σ → ε → Prop} {s₀ s : σ}
  {h : List (ε × ρ)}

/-- The last step of a run. -/
theorem last {x : ε × ρ} (t : Trace step guard s₀ (x :: h) s) :
    ∃ s₁, Trace step guard s₀ h s₁ ∧ guard s₁ x.1 ∧ step s₁ x.1 = (x.2, s) := by
  cases t with
  | step e t g => exact ⟨_, t, g, rfl⟩

/-- An invariant of states and histories that holds at the start and over each guarded step holds
of every run. -/
theorem invariant {Inv : List (ε × ρ) → σ → Prop} (t : Trace step guard s₀ h s)
    (h₀ : Inv [] s₀)
    (hstep : ∀ h s e, Inv h s → guard s e → Inv ((e, (step s e).1) :: h) (step s e).2) :
    Inv h s := by
  induction t with
  | start => exact h₀
  | step e _ g ih => exact hstep _ _ e ih g

/-- Facts that steps establish and states hold on to: if what a state holds stays held, and a step
whose answer is a fact holds it afterwards and agrees with all that was held before, then every
fact of a history is held at its end, and any two agree. -/
theorem held_and_agree {α : Type} {Inv : σ → Prop} {fact : ε × ρ → Option α}
    {Held : σ → α → Prop} {Agree : α → α → Prop} (t : Trace step guard s₀ h s) (h₀ : Inv s₀)
    (hinv : ∀ s e, Inv s → guard s e → Inv (step s e).2)
    (hkeep : ∀ s e a, Inv s → guard s e → Held s a → Held (step s e).2 a)
    (hnew : ∀ s e b, Inv s → guard s e → fact (e, (step s e).1) = some b →
      Held (step s e).2 b ∧ ∀ a, Held s a → Agree a b) :
    (∀ x ∈ h, ∀ a, fact x = some a → Held s a) ∧
      h.Pairwise fun y x ↦ ∀ a b, fact x = some a → fact y = some b → Agree a b := by
  suffices hall : Inv s ∧ (∀ x ∈ h, ∀ a, fact x = some a → Held s a) ∧
      h.Pairwise fun y x ↦ ∀ a b, fact x = some a → fact y = some b → Agree a b from hall.2
  induction t with
  | start => exact ⟨h₀, by simp, .nil⟩
  | step e t g ih =>
    obtain ⟨hi, hheld, hpair⟩ := ih
    refine ⟨hinv _ e hi g, ?_, ?_⟩
    · intro x hx a ha
      rcases List.mem_cons.mp hx with rfl | hx
      · exact (hnew _ e a hi g ha).1
      · exact hkeep _ e a hi g (hheld x hx a ha)
    · refine .cons ?_ hpair
      intro x hx a b ha hb
      exact (hnew _ e b hi g hb).2 a (hheld x hx a ha)

/-- A history and a state, taken on by further events. -/
def runFrom (step : σ → ε → ρ × σ) : List (ε × ρ) × σ → List ε → List (ε × ρ) × σ
  | x, [] => x
  | (h, s), e :: es => runFrom step ((e, (step s e).1) :: h, (step s e).2) es

/-- The history and the state behind a list of events. -/
def run (step : σ → ε → ρ × σ) (s₀ : σ) (es : List ε) : List (ε × ρ) × σ := runFrom step ([], s₀) es

theorem runFrom_concat (x : List (ε × ρ) × σ) (es : List ε) (e : ε) :
    runFrom step x (es ++ [e]) =
      ((e, (step (runFrom step x es).2 e).1) :: (runFrom step x es).1,
        (step (runFrom step x es).2 e).2) := by
  induction es generalizing x with
  | nil => rfl
  | cons e' es ih =>
    obtain ⟨h, s⟩ := x
    exact ih _

/-- One more event. -/
theorem run_concat (s₀ : σ) (es : List ε) (e : ε) :
    run step s₀ (es ++ [e]) = ((e, (step (run step s₀ es).2 e).1) :: (run step s₀ es).1,
      (step (run step s₀ es).2 e).2) := runFrom_concat _ es e

theorem events_runFrom (x : List (ε × ρ) × σ) (es : List ε) :
    (runFrom step x es).1.map Prod.fst = es.reverse ++ x.1.map Prod.fst := by
  induction es generalizing x with
  | nil => rfl
  | cons e es ih =>
    obtain ⟨h, s⟩ := x
    rw [runFrom, ih, List.reverse_cons, List.append_assoc]
    rfl

/-- The history lists the events, the latest first. -/
theorem events_run (s₀ : σ) (es : List ε) : (run step s₀ es).1.map Prod.fst = es.reverse := by
  rw [run, events_runFrom]
  exact List.append_nil _

/-- Every event of a list meets the guard in the state it finds. -/
def Guarded (step : σ → ε → ρ × σ) (guard : σ → ε → Prop) : σ → List ε → Prop
  | _, [] => True
  | s, e :: es => guard s e ∧ Guarded step guard (step s e).2 es

theorem trace_runFrom (t : Trace step guard s₀ h s) {es : List ε} (hg : Guarded step guard s es) :
    Trace step guard s₀ (runFrom step (h, s) es).1 (runFrom step (h, s) es).2 := by
  induction es generalizing h s with
  | nil => exact t
  | cons e es ih => exact ih (.step e t hg.1) hg.2

/-- A list of events whose guards are met runs. -/
theorem trace_run {es : List ε} (hg : Guarded step guard s₀ es) :
    Trace step guard s₀ (run step s₀ es).1 (run step s₀ es).2 :=
  trace_runFrom .start hg

/-- A run goes on with an event whose guard is met where it has come to. -/
theorem trace_run_concat {es : List ε} {e : ε}
    (t : Trace step guard s₀ (run step s₀ es).1 (run step s₀ es).2)
    (he : guard (run step s₀ es).2 e) :
    Trace step guard s₀ (run step s₀ (es ++ [e])).1 (run step s₀ (es ++ [e])).2 := by
  rw [run_concat]
  exact .step e t he

/-- A list whose events meet the guard in every state. -/
theorem guarded_of_forall {es : List ε} (hg : ∀ e ∈ es, ∀ s, guard s e) :
    Guarded step guard s es := by
  induction es generalizing s with
  | nil => trivial
  | cons e es ih =>
    obtain ⟨he, hes⟩ := List.forall_mem_cons.mp hg
    exact ⟨he s, ih hes⟩

theorem guarded_true (step : σ → ε → ρ × σ) (s : σ) (es : List ε) :
    Guarded step (fun _ _ ↦ True) s es :=
  guarded_of_forall fun _ _ _ ↦ trivial

end Trace

end Yew
