import Mathlib.Data.List.Forall2

/-!
# Successful runs of fallible programs

Inversion and induction rules for programs in `Except`: what a successful `do` block,
traversal or fold says about its parts.

* `bind_eq_ok` takes a successful bind apart; it is the rule every inversion uses.
* `foldlM_invariant` carries an invariant through a successful fold, and
  `foldlM_prefix_invariant` one that mentions what has been consumed.
* `mapM_eq_ok` relates the input and the output of a successful traversal.
-/

namespace Fallible

universe u

variable {ε : Type u} {α β γ : Type u} {x : Except ε α} {f : α → Except ε β} {xs : List α}

@[simp] theorem bind_eq_ok {b : β} : (x >>= f) = .ok b ↔ ∃ a, x = .ok a ∧ f a = .ok b := by
  cases x with
  | error e => simp [bind, Except.bind]
  | ok a => simp [bind, Except.bind]

@[simp] theorem map_eq_ok {f : α → β} {b : β} : x.map f = .ok b ↔ ∃ a, x = .ok a ∧ f a = b := by
  cases x with
  | error e => simp [Except.map]
  | ok a => simp [Except.map]

theorem exists_map_ok {run : Except ε α} {f : α → β} {holds : β → Prop} :
    (∃ b, run.map f = .ok b ∧ holds b) ↔ ∃ a, run = .ok a ∧ holds (f a) := by
  constructor
  · rintro ⟨b, mapped, held⟩
    obtain ⟨a, ran, rfl⟩ := map_eq_ok.mp mapped
    exact ⟨a, ran, held⟩
  · rintro ⟨a, ran, held⟩
    exact ⟨f a, map_eq_ok.mpr ⟨a, ran, rfl⟩, held⟩

@[simp] theorem ok_bind {a : α} : ((.ok a : Except ε α) >>= f) = f a := rfl

@[simp] theorem mapError_ok {δ : Type*} {f : ε → δ} {a : α} :
    (.ok a : Except ε α).mapError f = .ok a := rfl

theorem mapError_eq_ok {δ : Type*} {f : ε → δ} {a : α} : x.mapError f = .ok a ↔ x = .ok a := by
  cases x with
  | error e => simp [Except.mapError]
  | ok b => simp [Except.mapError]

@[simp] theorem error_bind {e : ε} :
    ((.error e : Except ε α) >>= f) = .error e := rfl

theorem toOption_eq_some {a : α} : x.toOption = some a ↔ x = .ok a := by
  cases x <;> simp [Except.toOption]

/-- A conditional error is not taken by a successful run. -/
theorem guard_eq_ok {p : Prop} [Decidable p] {e : ε} {a : α} :
    (if p then .error e else x) = .ok a ↔ ¬ p ∧ x = .ok a := by
  by_cases hp : p <;> simp [hp]

/-! ### Kinds of errors -/

/-- A run fails with errors of a kind only. -/
def Raises (kind : ε → Prop) (run : Except ε α) : Prop := ∀ e, run = .error e → kind e

variable {kind : ε → Prop}

theorem raises_ok (a : α) : Raises kind (.ok a : Except ε α) := by
  intro e same
  cases same

theorem raises_error {e : ε} (here : kind e) : Raises kind (.error e : Except ε α) := by
  intro e' same
  cases same
  exact here

theorem Raises.bind (first : Raises kind x) (next : ∀ a, x = .ok a → Raises kind (f a)) :
    Raises kind (x >>= f) := by
  cases x with
  | error e => exact raises_error (first e rfl)
  | ok a => exact next a rfl

theorem Raises.map (f : α → β) (first : Raises kind x) : Raises kind (x.map f) := by
  cases x with
  | error e => exact raises_error (first e rfl)
  | ok a => exact raises_ok (f a)

theorem Raises.guard {p : Prop} [Decidable p] {e : ε} (here : p → kind e)
    (rest : ¬ p → Raises kind x) : Raises kind (if p then .error e else x) := by
  by_cases hp : p
  · rw [if_pos hp]
    exact raises_error (here hp)
  · rw [if_neg hp]
    exact rest hp

theorem Raises.mapError {δ : Type u} {kind : δ → Prop} {f : ε → δ} (x : Except ε α)
    (here : ∀ e, kind (f e)) : Raises kind (x.mapError f) := by
  cases x with
  | error e => exact raises_error (here e)
  | ok a => exact raises_ok a

/-! ### Folds -/

variable {σ : Type u} {step : σ → α → Except ε σ}

theorem foldlM_nil_eq_ok {s t : σ} : [].foldlM step s = .ok t ↔ s = t := by
  simp [pure, Except.pure]

theorem foldlM_cons_eq_ok {x : α} {s t : σ} :
    (x :: xs).foldlM step s = .ok t ↔ ∃ m, step s x = .ok m ∧ xs.foldlM step m = .ok t := by
  simp

/-- An invariant every step keeps holds after a successful fold. -/
theorem foldlM_invariant (I : σ → Prop) {s t : σ}
    (keeps : ∀ x ∈ xs, ∀ a b, I a → step a x = .ok b → I b) (run : xs.foldlM step s = .ok t)
    (start : I s) : I t := by
  induction xs generalizing s with
  | nil =>
    cases foldlM_nil_eq_ok.mp run
    exact start
  | cons x xs ih =>
    obtain ⟨m, first, rest⟩ := foldlM_cons_eq_ok.mp run
    exact ih (fun y member => keeps y (List.mem_cons_of_mem _ member)) rest
      (keeps x List.mem_cons_self s m start first)

/-- An invariant of what has been consumed so far and the state. -/
theorem foldlM_prefix_invariant (I : List α → σ → Prop) {s t : σ}
    (keeps : ∀ done x a b, x ∈ xs → I done a → step a x = .ok b → I (done ++ [x]) b)
    (run : xs.foldlM step s = .ok t) (start : I [] s) : I xs t := by
  suffices general : ∀ (todo done : List α) (s : σ), (∀ x ∈ todo, x ∈ xs) →
      todo.foldlM step s = .ok t → I done s → I (done ++ todo) t by
    simpa using general xs [] s (fun _ member => member) run start
  intro todo
  induction todo with
  | nil =>
    intro done s _ run here
    cases foldlM_nil_eq_ok.mp run
    simpa using here
  | cons x todo ih =>
    intro done s within run here
    obtain ⟨m, first, rest⟩ := foldlM_cons_eq_ok.mp run
    have next := keeps done x s m (within x List.mem_cons_self) here first
    simpa using ih (done ++ [x]) m (fun y member => within y (List.mem_cons_of_mem _ member))
      rest next

/-- A relation between states that is reflexive and transitive holds across a successful fold. -/
theorem foldlM_relation (R : σ → σ → Prop) (refl : ∀ s, R s s)
    (trans : ∀ a b c, R a b → R b c → R a c) {s t : σ}
    (keeps : ∀ x ∈ xs, ∀ a b, step a x = .ok b → R a b) (run : xs.foldlM step s = .ok t) : R s t :=
  foldlM_invariant (R s) (fun x member a b here stepped =>
    trans s a b here (keeps x member a b stepped)) run (refl s)

/-- A fold whose steps all succeed on states satisfying a kept invariant succeeds. -/
theorem foldlM_total (I : σ → Prop) {s : σ}
    (steps : ∀ x ∈ xs, ∀ a, I a → ∃ b, step a x = .ok b ∧ I b) (start : I s) :
    ∃ t, xs.foldlM step s = .ok t ∧ I t := by
  induction xs generalizing s with
  | nil => exact ⟨s, foldlM_nil_eq_ok.mpr rfl, start⟩
  | cons x xs ih =>
    obtain ⟨m, first, here⟩ := steps x List.mem_cons_self s start
    obtain ⟨t, rest, final⟩ := ih (fun y member => steps y (List.mem_cons_of_mem _ member)) here
    exact ⟨t, foldlM_cons_eq_ok.mpr ⟨m, first, rest⟩, final⟩

/-- The same with an invariant of what has been consumed so far. -/
theorem foldlM_prefix_total (I : List α → σ → Prop) {s : σ}
    (steps : ∀ done x rest a, xs = done ++ x :: rest → I done a →
      ∃ b, step a x = .ok b ∧ I (done ++ [x]) b) (start : I [] s) :
    ∃ t, xs.foldlM step s = .ok t ∧ I xs t := by
  suffices general : ∀ (todo done : List α) (s : σ), xs = done ++ todo → I done s →
      ∃ t, todo.foldlM step s = .ok t ∧ I xs t by
    exact general xs [] s rfl start
  intro todo
  induction todo with
  | nil =>
    intro done s whole here
    rw [List.append_nil] at whole
    exact ⟨s, foldlM_nil_eq_ok.mpr rfl, whole ▸ here⟩
  | cons x todo ih =>
    intro done s whole here
    obtain ⟨m, first, next⟩ := steps done x todo s whole here
    obtain ⟨t, rest, final⟩ := ih (done ++ [x]) m (by rw [whole, List.append_cons]) next
    exact ⟨t, foldlM_cons_eq_ok.mpr ⟨m, first, rest⟩, final⟩

/-! ### Traversals -/

variable {ys : List β}

/-- A successful traversal relates its input and its output pointwise. -/
theorem mapM_eq_ok : xs.mapM f = .ok ys ↔ List.Forall₂ (fun x y => f x = .ok y) xs ys := by
  induction xs generalizing ys with
  | nil => simp [pure, Except.pure, eq_comm]
  | cons x xs ih =>
    simp only [List.mapM_cons, bind_eq_ok, ih]
    constructor
    · rintro ⟨y, first, zs, rest, same⟩
      cases same
      exact .cons first rest
    · intro related
      cases related with
      | cons first rest => exact ⟨_, first, _, rest, rfl⟩

theorem mapM_congr {g : α → Except ε β} (same : ∀ x ∈ xs, f x = g x) : xs.mapM f = xs.mapM g := by
  induction xs with
  | nil => rfl
  | cons x xs ih =>
    rw [List.mapM_cons, List.mapM_cons, same x List.mem_cons_self,
      ih fun y member => same y (List.mem_cons_of_mem _ member)]

/-- The same of a traversal in `Option`. -/
theorem mapM_eq_some {f : α → Option β} :
    xs.mapM f = some ys ↔ List.Forall₂ (fun x y => f x = some y) xs ys := by
  induction xs generalizing ys with
  | nil => simp [eq_comm]
  | cons x xs ih =>
    simp only [List.mapM_cons, Option.bind_eq_bind, Option.bind_eq_some_iff, ih]
    constructor
    · rintro ⟨y, first, zs, rest, same⟩
      cases same
      exact .cons first rest
    · intro related
      cases related with
      | cons first rest => exact ⟨_, first, _, rest, rfl⟩

/-- A traversal is total where each of its steps is. -/
theorem mapM_total (steps : ∀ x ∈ xs, ∃ y, f x = .ok y) : ∃ ys, xs.mapM f = .ok ys := by
  simp only [mapM_eq_ok]
  induction xs with
  | nil => exact ⟨[], .nil⟩
  | cons x xs ih =>
    obtain ⟨y, first⟩ := steps x List.mem_cons_self
    obtain ⟨ys, rest⟩ := ih fun z member => steps z (List.mem_cons_of_mem _ member)
    exact ⟨y :: ys, .cons first rest⟩

/-- The steps of a successful traversal. -/
theorem exists_step_of_mapM (run : xs.mapM f = .ok ys) : ∀ x ∈ xs, ∃ y, f x = .ok y := by
  have related := mapM_eq_ok.mp run
  clear run
  induction related with
  | nil => exact nofun
  | cons first _ ih => exact List.forall_mem_cons.mpr ⟨⟨_, first⟩, ih⟩

theorem Raises.mapM {kind : ε → Prop} (steps : ∀ x ∈ xs, Raises kind (f x)) :
    Raises kind (xs.mapM f) := by
  induction xs with
  | nil => exact raises_ok _
  | cons x xs ih =>
    rw [List.mapM_cons]
    refine (steps x List.mem_cons_self).bind fun y _ => ?_
    refine (ih fun z member => steps z (List.mem_cons_of_mem _ member)).bind fun ys _ => ?_
    exact raises_ok _

/-- Results related to their elements are found one by one. -/
theorem exists_mapM_iff {related : α → β → Prop} :
    (∃ ys, xs.mapM f = .ok ys ∧ List.Forall₂ related xs ys) ↔
      ∀ x ∈ xs, ∃ y, f x = .ok y ∧ related x y := by
  simp only [mapM_eq_ok]
  induction xs with
  | nil => exact iff_of_true ⟨[], .nil, .nil⟩ nofun
  | cons x xs ih =>
    rw [List.forall_mem_cons, ← ih]
    constructor
    · rintro ⟨_, made, here⟩
      cases made with
      | cons run made =>
        cases here with
        | cons first rest => exact ⟨⟨_, run, first⟩, _, made, rest⟩
    · rintro ⟨⟨y, run, first⟩, ys, made, rest⟩
      exact ⟨y :: ys, .cons run made, .cons first rest⟩

/-- Folding what a traversal yields, part by part, is folding all of it. -/
theorem foldlM_mapM {f : α → Except ε (List β)} {add : σ → β → Except ε σ} {parts : List (List β)}
    (run : xs.mapM f = .ok parts) (start : σ) :
    xs.foldlM (fun state x => f x >>= fun part => part.foldlM add state) start =
      parts.flatten.foldlM add start := by
  rw [mapM_eq_ok] at run
  induction run generalizing start with
  | nil => rfl
  | cons here _ ih =>
    rw [List.foldlM_cons, here, ok_bind, List.flatten_cons, List.foldlM_append]
    congr 1
    funext state
    exact ih state

theorem length_mapM (run : xs.mapM f = .ok ys) : ys.length = xs.length :=
  (mapM_eq_ok.mp run).length_eq.symm

theorem exists_of_mem_forall₂ {R : α → β → Prop} (related : List.Forall₂ R xs ys) {y : β}
    (member : y ∈ ys) : ∃ x ∈ xs, R x y := by
  induction related with
  | nil => exact absurd member List.not_mem_nil
  | cons here _ ih =>
    rcases List.mem_cons.mp member with rfl | later
    · exact ⟨_, List.mem_cons_self, here⟩
    · obtain ⟨x, within, holds⟩ := ih later
      exact ⟨x, List.mem_cons_of_mem _ within, holds⟩

/-- What a second traversal yields is related to the input of the first one where its steps are. -/
theorem mapM_after_iff {g : β → Except ε γ} {related : α → γ → Prop} {zs : List γ}
    (each : ∀ x ∈ xs, ∀ y z, f x = .ok y → (g y = .ok z ↔ related x z)) (first : xs.mapM f = .ok ys) :
    ys.mapM g = .ok zs ↔ List.Forall₂ related xs zs := by
  rw [mapM_eq_ok] at first ⊢
  induction first generalizing zs with
  | nil => rw [List.forall₂_nil_left_iff, List.forall₂_nil_left_iff]
  | cons own _ ih =>
    have next := fun {zs} => @ih zs fun x member => each x (List.mem_cons_of_mem _ member)
    have here := fun z => each _ List.mem_cons_self _ z own
    constructor
    · intro made
      cases made with
      | cons head rest => exact .cons ((here _).mp head) (next.mp rest)
    · intro made
      cases made with
      | cons head rest => exact .cons ((here _).mpr head) (next.mpr rest)

/-- Every element of the output of a traversal comes from the input. -/
theorem exists_of_mem_mapM (run : xs.mapM f = .ok ys) {y : β} (member : y ∈ ys) :
    ∃ x ∈ xs, f x = .ok y :=
  exists_of_mem_forall₂ (mapM_eq_ok.mp run) member

end Fallible
