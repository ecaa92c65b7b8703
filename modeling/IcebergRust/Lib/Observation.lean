import Mathlib.Data.List.Forall2

/-!
# Trees seen along paths

A view says what is seen of a tree by itself, its label, and which trees are reached from it by
one step.  A tree is within another one when whatever is seen of it along a path is seen of the
other one along the same path.

`within_iff` is the rule of one step; that of refining an order of labels is `Within.refl` and
`Within.trans`.
-/

namespace Observation

variable {T L S : Type}

/-- What is seen of a tree, and what is reached from it. -/
structure View (T L S : Type) where
  label : T → L
  child : T → S → Option T

/-- What is seen at the end of a path. -/
def View.seen (view : View T L S) (tree : T) : List S → Option L
  | [] => some (view.label tree)
  | step :: path => (view.child tree step).bind fun inner => view.seen inner path

/-- What is seen of the first tree is seen of the second one. -/
def Within (view : View T L S) (same : L → L → Prop) (a b : T) : Prop :=
  ∀ path label, view.seen a path = some label →
    ∃ other, view.seen b path = some other ∧ same label other

variable {view : View T L S} {same : L → L → Prop}

theorem within_iff {a b : T} :
    Within view same a b ↔ same (view.label a) (view.label b) ∧
      ∀ step inner, view.child a step = some inner →
        ∃ other, view.child b step = some other ∧ Within view same inner other := by
  constructor
  · intro within
    refine ⟨?_, ?_⟩
    · obtain ⟨other, found, labels⟩ := within [] _ rfl
      cases found
      exact labels
    · intro step inner reached
      obtain ⟨_, found, _⟩ := within [step] (view.label inner) (by simp [View.seen, reached])
      obtain ⟨other, reached', -⟩ := Option.bind_eq_some_iff.mp found
      refine ⟨other, reached', ?_⟩
      intro path label saw
      obtain ⟨label', saw', labels⟩ :=
        within (step :: path) label (by simp [View.seen, reached, saw])
      rw [View.seen, reached', Option.bind_some] at saw'
      exact ⟨label', saw', labels⟩
  · rintro ⟨labels, inside⟩ path label saw
    cases path with
    | nil =>
      cases saw
      exact ⟨_, rfl, labels⟩
    | cons step path =>
      obtain ⟨inner, reached, saw⟩ := Option.bind_eq_some_iff.mp saw
      obtain ⟨other, reached', within⟩ := inside step inner reached
      obtain ⟨label', saw', labels⟩ := within path label saw
      exact ⟨label', by rw [View.seen, reached', Option.bind_some, saw'], labels⟩

theorem Within.refl (reflexive : ∀ label, same label label) (tree : T) :
    Within view same tree tree :=
  fun _ label saw => ⟨label, saw, reflexive label⟩

theorem Within.trans (transitive : ∀ a b c, same a b → same b c → same a c) {a b c : T}
    (first : Within view same a b) (second : Within view same b c) : Within view same a c := by
  intro path label saw
  obtain ⟨label', saw', labels⟩ := first path label saw
  obtain ⟨label'', saw'', labels'⟩ := second path label' saw'
  exact ⟨label'', saw'', transitive _ _ _ labels labels'⟩

/-! ### Lists by position -/

variable {α β : Type}

variable {as : List α} {bs : List β}

/-- Lists are related when they are as long, and what one has at a place is related to what the
other one has there. -/
theorem forall₂_iff_getElem? {related : α → β → Prop} :
    List.Forall₂ related as bs ↔ as.length = bs.length ∧
      ∀ (i : Nat) a, as[i]? = some a → ∃ b, bs[i]? = some b ∧ related a b := by
  constructor
  · intro pairs
    refine ⟨pairs.length_eq, ?_⟩
    intro i a found
    obtain ⟨bound, rfl⟩ := List.getElem?_eq_some_iff.mp found
    exact ⟨_, List.getElem?_eq_getElem (pairs.length_eq ▸ bound), pairs.get bound _⟩
  · rintro ⟨length, each⟩
    refine List.forall₂_iff_get.mpr ⟨length, ?_⟩
    intro i bound bound'
    obtain ⟨b, found, pair⟩ := each i _ (List.getElem?_eq_getElem bound)
    obtain ⟨_, rfl⟩ := List.getElem?_eq_some_iff.mp found
    exact pair

/-- The same of places both lists have. -/
theorem forall₂_iff_places {related : α → β → Prop} :
    List.Forall₂ related as bs ↔ bs.length = as.length ∧
      ∀ (i : Nat) a b, as[i]? = some a → bs[i]? = some b → related a b := by
  rw [forall₂_iff_getElem?]
  constructor
  · rintro ⟨length, each⟩
    refine ⟨length.symm, fun i a b here there => ?_⟩
    obtain ⟨other, there', pair⟩ := each i a here
    obtain rfl := Option.some.inj (there.symm.trans there')
    exact pair
  · rintro ⟨length, each⟩
    refine ⟨length.symm, fun i a here => ?_⟩
    obtain ⟨bound, -⟩ := List.getElem?_eq_some_iff.mp here
    have there := List.getElem?_eq_getElem (length ▸ bound : i < bs.length)
    exact ⟨_, there, each i a _ here there⟩

/-- What follows of the elements of the left list follows of the lists. -/
theorem forall₂_imp_left {related other : α → β → Prop}
    (follows : ∀ a ∈ as, ∀ b, related a b → other a b) (pairs : List.Forall₂ related as bs) :
    List.Forall₂ other as bs := by
  induction pairs with
  | nil => exact .nil
  | cons pair _ ih =>
    obtain ⟨head, tail⟩ := List.forall_mem_cons.mp follows
    exact .cons (head _ pair) (ih tail)

/-- Relations that agree on the elements of the left list relate it alike. -/
theorem forall₂_congr_left {related other : α → β → Prop}
    (agree : ∀ a ∈ as, ∀ b, related a b ↔ other a b) :
    List.Forall₂ related as bs ↔ List.Forall₂ other as bs :=
  ⟨forall₂_imp_left fun a member b => (agree a member b).mp,
    forall₂_imp_left fun a member b => (agree a member b).mpr⟩

theorem flatMap_eq_of_forall₂ {γ : Type} {f : α → List γ} {g : β → List γ}
    (pairs : List.Forall₂ (fun a b => f a = g b) as bs) : as.flatMap f = bs.flatMap g := by
  induction pairs with
  | nil => rfl
  | cons pair _ ih => rw [List.flatMap_cons, List.flatMap_cons, pair, ih]

/-- Whether lists are as long and agree at every place. -/
def allSame {α β : Type} (equal : α → β → Bool) : List α → List β → Bool
  | [], [] => true
  | a :: as, b :: bs => equal a b && allSame equal as bs
  | _, _ => false

theorem allSame_iff {equal : α → β → Bool} :
    allSame equal as bs = true ↔ List.Forall₂ (fun a b => equal a b = true) as bs := by
  induction as generalizing bs with
  | nil => cases bs <;> simp [allSame]
  | cons a as ih =>
    cases bs with
    | nil => simp [allSame]
    | cons b bs => rw [allSame, Bool.and_eq_true, ih, List.forall₂_cons]

/-- The lexicographic order of lists, by an order of their letters. -/
def cmpAll {α β : Type} (cmp : α → β → Ordering) : List α → List β → Ordering
  | [], [] => .eq
  | [], _ :: _ => .lt
  | _ :: _, [] => .gt
  | a :: as, b :: bs => (cmp a b).then (cmpAll cmp as bs)

theorem cmpAll_eq_iff {cmp : α → β → Ordering} :
    cmpAll cmp as bs = .eq ↔ List.Forall₂ (fun a b => cmp a b = .eq) as bs := by
  induction as generalizing bs with
  | nil => cases bs <;> simp [cmpAll]
  | cons a as ih =>
    cases bs with
    | nil => simp [cmpAll]
    | cons b bs => rw [cmpAll, Ordering.then_eq_eq, ih, List.forall₂_cons]

end Observation
