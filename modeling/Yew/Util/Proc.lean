import Mathlib.Data.List.Forall2

/-!
# Programs that fail and programs that also change a state

Inversion rules for `Except` in `do` blocks, and a small program logic for procedures that read
and write a state and may stop with an error.  A failed procedure keeps the state it had reached:
nothing is rolled back.
-/

namespace Yew

/-! ## Fallible programs -/

namespace Result

variable {ε α β : Type}

/-- A sequence succeeds when its first part does and the rest does on what it returned. -/
theorem bind_eq_ok {x : Except ε α} {f : α → Except ε β} {b : β} :
    (x >>= f) = .ok b ↔ ∃ a, x = .ok a ∧ f a = .ok b := by
  cases x with
  | error e => simp [bind, Except.bind]
  | ok a => simp [bind, Except.bind]

/-- A guard that was passed. -/
theorem guard_eq_ok {c : Prop} [Decidable c] {e : ε} {x : Except ε α} {a : α} :
    (if c then .error e else x) = .ok a ↔ ¬ c ∧ x = .ok a := by
  by_cases h : c <;> simp [h]

/-- A check that was passed. -/
theorem check_eq_ok {c : Prop} [Decidable c] {e : ε} {x : Except ε α} {a : α} :
    (if c then x else .error e) = .ok a ↔ c ∧ x = .ok a := by
  by_cases h : c <;> simp [h]

/-- An error in other words. -/
theorem mapError_eq_ok {δ : Type} {x : Except ε α} {f : ε → δ} {a : α} :
    x.mapError f = .ok a ↔ x = .ok a := by
  cases x with
  | error e => simp [Except.mapError]
  | ok b => simp [Except.mapError]

end Result

/-! ## Procedures -/

/-- A procedure over a state: it returns a value or stops with an error, in some state. -/
def Proc (σ ε α : Type) : Type := σ → Except ε α × σ

namespace Proc

variable {σ ε α β : Type}

instance : Monad (Proc σ ε) where
  pure a := fun s ↦ (.ok a, s)
  bind x f := fun s ↦
    match x s with
    | (.ok a, s') => f a s'
    | (.error e, s') => (.error e, s')

/-- The present state. -/
def get : Proc σ ε σ := fun s ↦ (.ok s, s)

/-- Change the state. -/
def modify (f : σ → σ) : Proc σ ε Unit := fun s ↦ (.ok (), f s)

/-- Stop. -/
def throw (e : ε) : Proc σ ε α := fun s ↦ (.error e, s)

/-- A fallible computation that leaves the state alone. -/
def lift (x : Except ε α) : Proc σ ε α := fun s ↦ (x, s)

/-- `map_err`: the same procedure, its error in other words. -/
def mapErr {δ : Type} (f : ε → δ) (x : Proc σ ε α) : Proc σ δ α := fun s ↦
  ((x s).1.mapError f, (x s).2)

/-- Run under a condition. -/
def when (c : Bool) (x : Proc σ ε Unit) : Proc σ ε Unit := if c then x else pure ()

/-- The elements of a list, one after another. -/
def forEach (f : α → Proc σ ε β) : List α → Proc σ ε (List β)
  | [] => pure []
  | a :: as => do
    let b ← f a
    let bs ← forEach f as
    return b :: bs

@[simp] theorem pure_apply (a : α) (s : σ) : (pure a : Proc σ ε α) s = (.ok a, s) := rfl

@[simp] theorem get_apply (s : σ) : (get : Proc σ ε σ) s = (.ok s, s) := rfl

@[simp] theorem modify_apply (f : σ → σ) (s : σ) :
    (modify f : Proc σ ε Unit) s = (.ok (), f s) := rfl

@[simp] theorem throw_apply (e : ε) (s : σ) : (throw e : Proc σ ε α) s = (.error e, s) := rfl

@[simp] theorem lift_apply (x : Except ε α) (s : σ) : lift x s = (x, s) := rfl

@[simp] theorem mapErr_apply {δ : Type} (f : ε → δ) (x : Proc σ ε α) (s : σ) :
    mapErr f x s = ((x s).1.mapError f, (x s).2) := rfl

theorem bind_apply (x : Proc σ ε α) (f : α → Proc σ ε β) (s : σ) :
    (x >>= f) s = match x s with
      | (.ok a, s') => f a s'
      | (.error e, s') => (.error e, s') := rfl

/-- A sequence succeeds when its first part does and the rest does from where it ended. -/
theorem bind_eq_ok {x : Proc σ ε α} {f : α → Proc σ ε β} {s s'' : σ} {b : β} :
    (x >>= f) s = (.ok b, s'') ↔ ∃ a s', x s = (.ok a, s') ∧ f a s' = (.ok b, s'') := by
  rw [bind_apply]
  constructor
  · intro h
    split at h
    · rename_i a s' hx
      exact ⟨a, s', hx, h⟩
    · cases h
  · rintro ⟨a, s', hx, hf⟩
    rw [hx]
    exact hf

/-- A sequence that starts with a computation. -/
theorem lift_bind_eq_ok {x : Except ε α} {f : α → Proc σ ε β} {s s' : σ} {b : β} :
    (lift x >>= f) s = (.ok b, s') ↔ ∃ a, x = .ok a ∧ f a s = (.ok b, s') := by
  cases x with
  | error e => simp [bind_apply]
  | ok a => simp [bind_apply]

/-- A sequence that failed: its first part did, or its second. -/
theorem bind_eq_error {x : Proc σ ε α} {f : α → Proc σ ε β} {s s' : σ} {e : ε} :
    (x >>= f) s = (.error e, s') ↔ x s = (.error e, s') ∨
      ∃ a s₁, x s = (.ok a, s₁) ∧ f a s₁ = (.error e, s') := by
  rw [bind_apply]
  generalize x s = p
  obtain ⟨y, s₁⟩ := p
  cases y with
  | error e' => simp
  | ok a => simp

theorem lift_bind_eq_error {x : Except ε α} {f : α → Proc σ ε β} {s s' : σ} {e : ε} :
    (lift x >>= f) s = (.error e, s') ↔ x = .error e ∧ s' = s ∨
      ∃ a, x = .ok a ∧ f a s = (.error e, s') := by
  rw [bind_apply, lift_apply]
  cases x with
  | error e' => simp [eq_comm]
  | ok a => simp

/-- A guard that was passed. -/
theorem guard_eq_ok {c : Prop} [Decidable c] {e : ε} {x : Proc σ ε α} {s s' : σ} {a : α} :
    (if c then throw e else x) s = (.ok a, s') ↔ ¬ c ∧ x s = (.ok a, s') := by
  by_cases h : c <;> simp [h]

theorem bind_assoc {γ : Type} (x : Proc σ ε α) (f : α → Proc σ ε β) (g : β → Proc σ ε γ) :
    x >>= f >>= g = x >>= fun a ↦ f a >>= g := by
  funext s
  simp only [bind_apply]
  cases x s with
  | mk y s' => cases y <;> rfl

/-- A run that was seen to succeed. -/
theorem exists_of_isOk {x : Proc σ ε α} {s : σ} (h : (x s).1.isOk) :
    ∃ a s', x s = (.ok a, s') := by
  generalize x s = p at h
  obtain ⟨y, s'⟩ := p
  cases y with
  | ok a => exact ⟨a, s', rfl⟩
  | error e => cases h

/-- A run whose value was seen. -/
theorem exists_of_fst_eq {x : Proc σ ε α} {s : σ} {a : α} (h : (x s).1 = .ok a) :
    ∃ s', x s = (.ok a, s') := ⟨(x s).2, by rw [← h]⟩

/-- The error a procedure stopped with, if it did. -/
def stopOf : Except ε α → Option ε
  | .ok _ => none
  | .error e => some e

/-- What the state may do along a procedure, which may depend on how the procedure ends. -/
class Route (R : Option ε → σ → σ → Prop) : Prop where
  refl : ∀ o s, R o s s
  trans : ∀ {o a b c}, R none a b → R o b c → R o a c

/-- However the procedure ends, the state has moved along `R`. -/
def Ends (R : Option ε → σ → σ → Prop) (x : Proc σ ε α) : Prop := ∀ s, R (stopOf (x s).1) s (x s).2

namespace Ends

variable {R : Option ε → σ → σ → Prop} [Route R]

theorem pure (a : α) : Ends R (pure a : Proc σ ε α) := fun s ↦ Route.refl _ s

theorem get : Ends R (get : Proc σ ε σ) := fun s ↦ Route.refl _ s

theorem throw (e : ε) : Ends R (throw e : Proc σ ε α) := fun s ↦ Route.refl _ s

theorem lift (x : Except ε α) : Ends R (lift x : Proc σ ε α) := fun s ↦ Route.refl _ s

/-- The first part is known in one state alone. -/
theorem bind_at {x : Proc σ ε α} {f : α → Proc σ ε β} {s : σ} (hx : R (stopOf (x s).1) s (x s).2)
    (hf : ∀ a, Ends R (f a)) : R (stopOf ((x >>= f) s).1) s ((x >>= f) s).2 := by
  rw [bind_apply]
  split
  · rename_i a s' hs
    rw [hs] at hx
    exact Route.trans hx (hf a s')
  · rename_i e s' hs
    rw [hs] at hx
    exact hx

theorem bind {x : Proc σ ε α} {f : α → Proc σ ε β} (hx : Ends R x) (hf : ∀ a, Ends R (f a)) :
    Ends R (x >>= f) := fun s ↦ bind_at (hx s) hf

omit [Route R] in
theorem ite {c : Prop} [Decidable c] {x y : Proc σ ε α} (hx : Ends R x) (hy : Ends R y) :
    Ends R (if c then x else y) := by
  split
  · exact hx
  · exact hy

theorem forEach_of_mem {f : α → Proc σ ε β} {as : List α} (hf : ∀ a ∈ as, Ends R (f a)) :
    Ends R (forEach f as) := by
  induction as with
  | nil => exact pure []
  | cons a as ih =>
    refine bind (hf a List.mem_cons_self) fun b ↦ bind (ih fun a ha ↦ ?_) fun bs ↦ pure (b :: bs)
    exact hf a (List.mem_cons_of_mem _ ha)

theorem forEach {f : α → Proc σ ε β} (hf : ∀ a, Ends R (f a)) (as : List α) :
    Ends R (forEach f as) := forEach_of_mem fun a _ ↦ hf a

end Ends

/-- What the state may do along any procedure: a reflexive and transitive relation. -/
class Path (R : σ → σ → Prop) : Prop where
  refl : ∀ s, R s s
  trans : ∀ {a b c}, R a b → R b c → R a c

instance {R : σ → σ → Prop} [Path R] : Route (fun _ : Option ε ↦ R) where
  refl _ := Path.refl
  trans := Path.trans

/-- Wherever the procedure ends, the state has moved along `R`. -/
def Moves (R : σ → σ → Prop) (x : Proc σ ε α) : Prop := ∀ s, R s (x s).2

/-- A run has moved the state. -/
theorem moved {R : σ → σ → Prop} {x : Proc σ ε α} {s s' : σ} {y : Except ε α} (hx : Moves R x)
    (h : x s = (y, s')) : R s s' := by
  have hstep := hx s
  rwa [h] at hstep

namespace Moves

variable {R : σ → σ → Prop}

theorem ends {x : Proc σ ε α} (h : Moves R x) : Ends (fun _ ↦ R) x := h

variable [Path R]

theorem pure (a : α) : Moves R (pure a : Proc σ ε α) := fun s ↦ Path.refl s

theorem get : Moves R (get : Proc σ ε σ) := fun s ↦ Path.refl s

theorem throw (e : ε) : Moves R (throw e : Proc σ ε α) := fun s ↦ Path.refl s

theorem lift (x : Except ε α) : Moves R (lift x : Proc σ ε α) := fun s ↦ Path.refl s

/-- The first part is known in one state alone. -/
theorem bind_at {x : Proc σ ε α} {f : α → Proc σ ε β} {s : σ} (hx : R s (x s).2)
    (hf : ∀ a, Moves R (f a)) : R s ((x >>= f) s).2 :=
  Ends.bind_at (R := fun _ ↦ R) hx hf

theorem bind {x : Proc σ ε α} {f : α → Proc σ ε β} (hx : Moves R x) (hf : ∀ a, Moves R (f a)) :
    Moves R (x >>= f) := fun s ↦ bind_at (hx s) hf

/-- The rest runs with what the first part returned, from where it ended. -/
theorem bind_run {x : Proc σ ε α} {f : α → Proc σ ε β} (hx : Moves R x)
    (hf : ∀ s a s', x s = (.ok a, s') → R s' (f a s').2) : Moves R (x >>= f) := by
  intro s
  have hs := hx s
  rw [bind_apply]
  split
  · rename_i a s' hrun
    rw [hrun] at hs
    exact Path.trans hs (hf s a s' hrun)
  · rename_i e s' hrun
    rw [hrun] at hs
    exact hs

theorem lift_bind {x : Except ε α} {f : α → Proc σ ε β} (hf : ∀ a, x = .ok a → Moves R (f a)) :
    Moves R (Proc.lift x >>= f) :=
  bind_run (lift x) fun _ a s' h ↦ hf a (Prod.mk.inj h).1 s'

omit [Path R] in
/-- The rest runs with the state it starts in. -/
theorem get_bind {f : σ → Proc σ ε β} (hf : ∀ s, R s (f s s).2) :
    Moves R ((Proc.get : Proc σ ε σ) >>= f) := hf

omit [Path R] in
theorem ite {c : Prop} [Decidable c] {x y : Proc σ ε α} (hx : Moves R x) (hy : Moves R y) :
    Moves R (if c then x else y) := Ends.ite (R := fun _ ↦ R) hx hy

theorem when {c : Bool} {x : Proc σ ε Unit} (hx : Moves R x) : Moves R (when c x) :=
  ite hx (pure ())

omit [Path R] in
theorem mapErr {δ : Type} {f : ε → δ} {x : Proc σ ε α} (hx : Moves R x) : Moves R (mapErr f x) :=
  hx

theorem forEach_of_mem {f : α → Proc σ ε β} {as : List α} (hf : ∀ a ∈ as, Moves R (f a)) :
    Moves R (forEach f as) := Ends.forEach_of_mem (R := fun _ ↦ R) hf

theorem forEach {f : α → Proc σ ε β} (hf : ∀ a, Moves R (f a)) (as : List α) :
    Moves R (forEach f as) := Ends.forEach (R := fun _ ↦ R) hf as

end Moves

/-- Started where `P` holds, the procedure returns a value and a state that `Q` holds of, or stops
with an error and a state that `E` holds of. -/
def Triple (P : σ → Prop) (x : Proc σ ε α) (Q : α → σ → Prop) (E : ε → σ → Prop) : Prop :=
  ∀ s, P s → (∀ a s', x s = (.ok a, s') → Q a s') ∧ ∀ e s', x s = (.error e, s') → E e s'

namespace Triple

variable {P P' : σ → Prop} {Q : α → σ → Prop} {E : ε → σ → Prop}

theorem pure {a : α} (h : ∀ s, P s → Q a s) : Triple P (pure a : Proc σ ε α) Q E := by
  intro s hs
  constructor
  · rintro _ _ ⟨⟩
    exact h s hs
  · rintro _ _ ⟨⟩

theorem throw {e : ε} (h : ∀ s, P s → E e s) : Triple P (throw e : Proc σ ε α) Q E := by
  intro s hs
  constructor
  · rintro _ _ ⟨⟩
  · rintro _ _ ⟨⟩
    exact h s hs

theorem lift {x : Except ε α} (hok : ∀ a s, x = .ok a → P s → Q a s)
    (herror : ∀ e s, x = .error e → P s → E e s) : Triple P (lift x : Proc σ ε α) Q E := by
  intro s hs
  refine ⟨fun a s' h ↦ ?_, fun e s' h ↦ ?_⟩
  · obtain ⟨hx, rfl⟩ := Prod.mk.inj h
    exact hok a s hx hs
  · obtain ⟨hx, rfl⟩ := Prod.mk.inj h
    exact herror e s hx hs

theorem modify {f : σ → σ} {Q : Unit → σ → Prop} (h : ∀ s, P s → Q () (f s)) :
    Triple P (modify f : Proc σ ε Unit) Q E := by
  intro s hs
  constructor
  · rintro _ _ ⟨⟩
    exact h s hs
  · rintro _ _ ⟨⟩

theorem bind {x : Proc σ ε β} {f : β → Proc σ ε α} {M : β → σ → Prop} (hx : Triple P x M E)
    (hf : ∀ b, Triple (M b) (f b) Q E) : Triple P (x >>= f) Q E := by
  intro s hs
  obtain ⟨hok, herror⟩ := hx s hs
  rw [bind_apply]
  cases h : x s with
  | mk y s' =>
    cases y with
    | ok b => exact hf b s' (hok b s' h)
    | error e =>
      constructor
      · rintro _ _ ⟨⟩
      · rintro _ _ ⟨⟩
        exact herror e s' h

theorem ite {c : Prop} [Decidable c] {x y : Proc σ ε α} (hx : c → Triple P x Q E)
    (hy : ¬ c → Triple P y Q E) : Triple P (if c then x else y) Q E := by
  split
  · exact hx ‹_›
  · exact hy ‹_›

/-- A weaker start or a stronger end. -/
theorem mono {x : Proc σ ε α} {Q' : α → σ → Prop} {E' : ε → σ → Prop} (h : Triple P' x Q' E')
    (hP : ∀ s, P s → P' s) (hQ : ∀ a s, Q' a s → Q a s) (hE : ∀ e s, E' e s → E e s) :
    Triple P x Q E := by
  intro s hs
  obtain ⟨hok, herror⟩ := h s (hP s hs)
  exact ⟨fun a s' hx ↦ hQ a s' (hok a s' hx), fun e s' hx ↦ hE e s' (herror e s' hx)⟩

/-- A property that a relation carries, from wherever the procedure starts to wherever it ends. -/
theorem of_ends {R : Option ε → σ → σ → Prop} {x : Proc σ ε α} {Q : σ → Prop} (h : Ends R x)
    (hQ : ∀ s s', P s → R none s s' → Q s') (hE : ∀ e s s', P s → R (some e) s s' → E e s') :
    Triple P x (fun _ ↦ Q) E := by
  intro s hs
  have hR := h s
  refine ⟨fun a s' hx ↦ ?_, fun e s' hx ↦ ?_⟩
  · rw [hx] at hR
    exact hQ s s' hs hR
  · rw [hx] at hR
    exact hE e s s' hs hR

theorem get {Q : σ → σ → Prop} (h : ∀ s, P s → Q s s) :
    Triple P (get : Proc σ ε σ) Q E := by
  intro s hs
  constructor
  · rintro _ _ ⟨⟩
    exact h s hs
  · rintro _ _ ⟨⟩

theorem when {c : Bool} {x : Proc σ ε Unit} {Q : Unit → σ → Prop} (hx : c → Triple P x Q E)
    (hy : ¬ c → ∀ s, P s → Q () s) : Triple P (when c x) Q E :=
  ite hx fun h ↦ pure (hy h)

/-- An error by another name. -/
theorem mapErr {δ : Type} {f : ε → δ} {x : Proc σ ε α} {D : δ → σ → Prop} (h : Triple P x Q E)
    (hE : ∀ e s, E e s → D (f e) s) : Triple P (mapErr f x) Q D := by
  intro s hs
  obtain ⟨hok, herror⟩ := h s hs
  rw [mapErr_apply]
  cases hx : x s with
  | mk y s' =>
    cases y with
    | ok a =>
      constructor
      · rintro _ _ ⟨⟩
        exact hok a s' hx
      · rintro _ _ ⟨⟩
    | error e =>
      constructor
      · rintro _ _ ⟨⟩
      · rintro _ _ ⟨⟩
        exact hE e s' (herror e s' hx)

/-- A procedure that cannot stop returns. -/
theorem exists_ok {x : Proc σ ε α} (h : Triple P x Q fun _ _ ↦ False) {s : σ} (hs : P s) :
    ∃ a s', x s = (.ok a, s') ∧ Q a s' := by
  obtain ⟨hok, herror⟩ := h s hs
  cases hx : x s with
  | mk y s' =>
    cases y with
    | ok a => exact ⟨a, s', rfl, hok a s' hx⟩
    | error e => exact absurd (herror e s' hx) id

end Triple

/-- A procedure that moves the state along `R` when it stops and leaves it alone when it
returns. -/
structure Quiet (R : σ → σ → Prop) (x : Proc σ ε α) : Prop where
  moves : Moves R x
  eq_of_ok : ∀ {s s' a}, x s = (.ok a, s') → s' = s

namespace Quiet

variable {R : σ → σ → Prop} [Path R]

/-- A procedure that never touches the state. -/
theorem of_eq {x : Proc σ ε α} (h : ∀ s, (x s).2 = s) : Quiet R x where
  moves s := by
    rw [h s]
    exact Path.refl s
  eq_of_ok {s s' a} hs := by
    rw [← h s, hs]

theorem pure (a : α) : Quiet R (pure a : Proc σ ε α) := of_eq fun _ ↦ rfl

theorem get : Quiet R (get : Proc σ ε σ) := of_eq fun _ ↦ rfl

theorem throw (e : ε) : Quiet R (throw e : Proc σ ε α) := of_eq fun _ ↦ rfl

theorem lift (x : Except ε α) : Quiet R (lift x : Proc σ ε α) := of_eq fun _ ↦ rfl

theorem bind {x : Proc σ ε α} {f : α → Proc σ ε β} (hx : Quiet R x) (hf : ∀ a, Quiet R (f a)) :
    Quiet R (x >>= f) where
  moves := hx.moves.bind fun a ↦ (hf a).moves
  eq_of_ok h := by
    obtain ⟨a, s', h₁, h₂⟩ := bind_eq_ok.mp h
    rw [(hf a).eq_of_ok h₂, hx.eq_of_ok h₁]

omit [Path R] in
theorem ite {c : Prop} [Decidable c] {x y : Proc σ ε α} (hx : Quiet R x) (hy : Quiet R y) :
    Quiet R (if c then x else y) := by
  split
  · exact hx
  · exact hy

theorem forEach {f : α → Proc σ ε β} (hf : ∀ a, Quiet R (f a)) (as : List α) :
    Quiet R (forEach f as) := by
  induction as with
  | nil => exact pure []
  | cons a as ih => exact bind (hf a) fun b ↦ bind ih fun bs ↦ pure (b :: bs)

omit [Path R] in
/-- What a quiet first part returned, the rest runs with in the same state. -/
theorem bind_eq_ok {x : Proc σ ε α} {f : α → Proc σ ε β} (hx : Quiet R x) {s s' : σ} {b : β}
    (h : (x >>= f) s = (.ok b, s')) : ∃ a, x s = (.ok a, s) ∧ f a s = (.ok b, s') := by
  obtain ⟨a, t, h₁, h₂⟩ := Proc.bind_eq_ok.mp h
  obtain rfl := hx.eq_of_ok h₁
  exact ⟨a, h₁, h₂⟩

/-- What a quiet loop returned: one result for each element, in order, all in the same state. -/
theorem forEach_eq_ok {f : α → Proc σ ε β} (hf : ∀ a, Quiet R (f a)) {as : List α} {bs : List β}
    {s s' : σ} (h : Proc.forEach f as s = (.ok bs, s')) :
    List.Forall₂ (fun a b ↦ f a s = (.ok b, s)) as bs := by
  induction as generalizing bs s' with
  | nil =>
    cases h
    exact .nil
  | cons a as ih =>
    obtain ⟨b, hb, h⟩ := (hf a).bind_eq_ok h
    obtain ⟨bs', hbs, h⟩ := (forEach hf as).bind_eq_ok h
    cases h
    exact .cons hb (ih hbs)

/-- The same, position by position. -/
theorem forEach_getElem? {f : α → Proc σ ε β} (hf : ∀ a, Quiet R (f a)) {as : List α}
    {bs : List β} {s s' : σ} (h : Proc.forEach f as s = (.ok bs, s')) {i : Nat} {a : α}
    (ha : as[i]? = some a) : ∃ b, bs[i]? = some b ∧ f a s = (.ok b, s) := by
  have hab := forEach_eq_ok hf h
  clear h
  induction hab generalizing i with
  | nil => simp at ha
  | cons hb _ ih =>
    cases i with
    | zero =>
      cases ha
      exact ⟨_, rfl, hb⟩
    | succ i => exact ih ha

end Quiet

end Proc

end Yew
