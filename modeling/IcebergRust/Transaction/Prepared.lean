import IcebergRust.Catalog.Effect
import IcebergRust.Transaction.Outcome

/-!
# What a transaction sends

The inversion of `TableTransaction.prepare`, as the metadata sees it: the operations one
after the other, what each has read, and which of their requirements are sent.

* `Performed` is one operation with what it has read and what it has sent.
* `PreparedFrom` is what is known of a commit once it has been prepared.
-/

namespace IcebergRust

open Fallible

variable {V : Type}

/-- One operation of a transaction after its execution. -/
structure Performed (V : Type) where
  operation : Operation V
  read : TableMetadata
  requirement : Option TableRequirement
  updates : List TableUpdate

/-- The updates of operations in order. -/
def updatesOf (performed : List (Performed V)) : List TableUpdate := performed.flatMap (·.updates)

/-- Operations performed in order: each has read the base as changed by those before it. -/
inductive Performs (base : TableMetadata) (entropy : Nat → Entropy) : List (Performed V) → Prop
  | nil : Performs base entropy []
  | snoc {performed : List (Performed V)} {last : Performed V}
      (before : Performs base entropy performed)
      (staged : Effect base last.read (updatesOf performed))
      (outcome : Outcome last.read (entropy last.operation.index) last.operation last.requirement
        last.updates) :
      Performs base entropy (performed ++ [last])

/-- A requirement that holds of the base exactly if it holds of what the operation has read is
sent to the catalog. -/
def SendsRequirements (base : TableMetadata) (performed : List (Performed V))
    (requirements : List TableRequirement) : Prop :=
  ∀ one ∈ performed, ∀ requirement, one.requirement = some requirement →
    checkTableRequirement base requirement = checkTableRequirement one.read requirement →
    requirement ∈ requirements

/-- What is known of the commit of a transaction prepared from a base. -/
structure PreparedFrom (base : TableMetadata) (entropy : Nat → Entropy)
    (transaction : TableTransaction V) (commit : TableTransaction.CommitTable)
    (performed : List (Performed V)) : Prop where
  operations : performed.map (·.operation) = transaction.flatten
  performs : Performs base entropy performed
  updates : commit.updates = updatesOf performed
  nonempty : commit.updates ≠ []
  requirements : SendsRequirements base performed commit.requirements
  uuid : .assertTableUuid base.tableUuid ∈ commit.requirements

@[simp] theorem updatesOf_nil : updatesOf ([] : List (Performed V)) = [] := rfl

theorem updatesOf_snoc (performed : List (Performed V)) (last : Performed V) :
    updatesOf (performed ++ [last]) = updatesOf performed ++ last.updates := by
  simp [updatesOf]

/-- What is known of one performed operation. -/
theorem Performs.split {base : TableMetadata} {entropy : Nat → Entropy}
    {before after : List (Performed V)} {one : Performed V}
    (performs : Performs base entropy (before ++ one :: after)) :
    Performs base entropy before ∧ Effect base one.read (updatesOf before) ∧
      Outcome one.read (entropy one.operation.index) one.operation one.requirement one.updates := by
  generalize whole : before ++ one :: after = performed at performs
  induction performs generalizing after with
  | nil => simp at whole
  | @snoc performed last prior staged outcome ih =>
    rcases List.eq_nil_or_concat after with rfl | ⟨after, final, rfl⟩
    · obtain ⟨rfl, same⟩ := List.append_inj' whole rfl
      obtain rfl := List.singleton_inj.mp same
      exact ⟨prior, staged, outcome⟩
    · refine @ih after ?_
      have regrouped : (before ++ one :: after) ++ [final] = performed ++ [last] := by
        simpa using whole
      exact (List.append_inj' regrouped rfl).1

theorem Performs.outcome {base : TableMetadata} {entropy : Nat → Entropy}
    {performed : List (Performed V)} (performs : Performs base entropy performed)
    {one : Performed V} (member : one ∈ performed) :
    Outcome one.read (entropy one.operation.index) one.operation one.requirement one.updates := by
  obtain ⟨before, after, rfl⟩ := List.append_of_mem member
  exact performs.split.2.2

namespace TableTransaction

variable [PartitionValue V] {base : TableMetadata} {identifier : String} {entropy : Nat → Entropy}
  {state after : CommitState V} {operation : Operation V}

/-- One turn of the loop of `commit`. -/
theorem commitStep_executes (run : commitStep base identifier entropy state operation = .ok after) :
    ∃ requirement updates,
      operation.execute (state.staged.getD base) state.store (entropy operation.index) =
        .ok (after.store, requirement, updates) ∧
      addRequirement base identifier state.staged state.requirements requirement =
        .ok after.requirements ∧
      stage state.staged updates (entropy operation.index).timestampMs = .ok after.staged ∧
      after.updates = state.updates ++ updates := by
  simp only [commitStep, bind_eq_ok] at run
  obtain ⟨⟨store, requirement, updates⟩, executed, requirements, added, staged, stages, run⟩ := run
  cases run
  exact ⟨requirement, updates, executed, added, stages, rfl⟩

/-- One turn of the loop of `commit`, as the metadata sees it. -/
theorem commitStep_eq_ok (run : commitStep base identifier entropy state operation = .ok after) :
    ∃ requirement updates,
      Outcome (state.staged.getD base) (entropy operation.index) operation requirement updates ∧
      addRequirement base identifier state.staged state.requirements requirement =
        .ok after.requirements ∧
      stage state.staged updates (entropy operation.index).timestampMs = .ok after.staged ∧
      after.updates = state.updates ++ updates := by
  obtain ⟨requirement, updates, executed, added, stages, sent⟩ := commitStep_executes run
  exact ⟨requirement, updates, execute_outcome executed, added, stages, sent⟩

theorem addRequirement_staged {metadata : TableMetadata} {before after : List TableRequirement}
    {requirement : Option TableRequirement}
    (run : addRequirement base identifier (some metadata) before requirement = .ok after) :
    (∀ r ∈ before, r ∈ after) ∧ ∀ r, requirement = some r →
      checkTableRequirement metadata r = true ∧
        (checkTableRequirement base r = true → r ∈ after) := by
  cases requirement with
  | none =>
    cases run
    exact ⟨fun _ member => member, by simp⟩
  | some required =>
    simp only [addRequirement] at run
    split at run
    · cases run
    · rename_i checked
      have holds : checkTableRequirement metadata required = true := by simpa using checked
      split at run
      · cases run
        refine ⟨fun r member => List.mem_append_left _ member, ?_⟩
        rintro r ⟨rfl⟩
        exact ⟨holds, fun _ => by simp⟩
      · rename_i fails
        cases run
        refine ⟨fun _ member => member, ?_⟩
        rintro r ⟨rfl⟩
        exact ⟨holds, fun passes => absurd passes fails⟩

/-- The loop of a transaction of several operations. -/
structure StagedLoop (base : TableMetadata) (entropy : Nat → Entropy)
    (first : List TableRequirement) (operations : List (Operation V)) (state : CommitState V)
    (performed : List (Performed V)) (metadata : TableMetadata) : Prop where
  operations : performed.map (·.operation) = operations
  performs : Performs base entropy performed
  staged : state.staged = some metadata
  effect : Effect base metadata (updatesOf performed)
  updates : state.updates = updatesOf performed
  requirements : SendsRequirements base performed state.requirements
  kept : ∀ r ∈ first, r ∈ state.requirements

theorem StagedLoop.step {first : List TableRequirement} {operations : List (Operation V)}
    {performed : List (Performed V)} {metadata : TableMetadata}
    (loop : StagedLoop base entropy first operations state performed metadata)
    (run : commitStep base identifier entropy state operation = .ok after) :
    ∃ performed metadata,
      StagedLoop base entropy first (operations ++ [operation]) after performed metadata := by
  obtain ⟨requirement, updates, outcome, added, stages, sent⟩ := commitStep_eq_ok run
  rw [loop.staged] at outcome added stages
  simp only [stage, map_eq_ok] at stages
  obtain ⟨next, applied, staged⟩ := stages
  obtain ⟨kept, here⟩ := addRequirement_staged added
  refine ⟨performed ++ [⟨operation, metadata, requirement, updates⟩], next, ?_⟩
  constructor
  · rw [List.map_append, loop.operations]
    rfl
  · exact loop.performs.snoc loop.effect outcome
  · exact staged.symm
  · rw [updatesOf_snoc]
    exact loop.effect.trans (applyTableUpdates_effect applied)
  · rw [updatesOf_snoc, sent, loop.updates]
  · intro one member required found agree
    rcases List.mem_append.mp member with old | new
    · exact kept _ (loop.requirements one old required found agree)
    · obtain rfl := List.mem_singleton.mp new
      obtain ⟨passes, sends⟩ := here required found
      exact sends (agree.trans passes)
  · exact fun r member => kept r (loop.kept r member)

/-- A single operation reads the base itself, and its requirement is always sent. -/
theorem single_preparedFrom (run : commitStep base identifier entropy state operation = .ok after)
    (unstaged : state.staged = none) (empty : state.updates = []) :
    ∃ one : Performed V, one.operation = operation ∧ Performs base entropy [one] ∧
      after.updates = updatesOf [one] ∧ SendsRequirements base [one] after.requirements ∧
      ∀ r ∈ state.requirements, r ∈ after.requirements := by
  obtain ⟨requirement, updates, outcome, added, -, sent⟩ := commitStep_eq_ok run
  rw [unstaged] at outcome added
  refine ⟨⟨operation, base, requirement, updates⟩, rfl, ?_, ?_, ?_⟩
  · exact Performs.snoc .nil (.refl base) outcome
  · simpa [empty, updatesOf] using sent
  · cases requirement with
    | none =>
      have same : state.requirements = after.requirements := by simpa [addRequirement] using added
      exact ⟨by simp [SendsRequirements], fun r member => same ▸ member⟩
    | some required =>
      have same : state.requirements ++ [required] = after.requirements := by
        simpa [addRequirement] using added
      rw [← same]
      refine ⟨?_, fun r member => List.mem_append_left _ member⟩
      intro one member r found _
      obtain rfl := List.mem_singleton.mp member
      obtain rfl := Option.some.inj found
      simp

/-- What a prepared transaction sends. -/
theorem prepare_preparedFrom {transaction : TableTransaction V} {store store' : Store V}
    {commit : CommitTable}
    (run : transaction.prepare base store identifier entropy = .ok (store', some commit)) :
    ∃ performed, PreparedFrom base entropy transaction commit performed := by
  simp only [prepare, guard_eq_ok, bind_eq_ok] at run
  obtain ⟨-, checked, -, -, state, loop, run⟩ := run
  split at run
  · cases run
  · rename_i sends
    injection run with same
    obtain ⟨-, rfl⟩ := Prod.mk.inj same |>.imp id Option.some.inj
    have nonempty : state.updates ≠ [] := by simpa using sends
    by_cases several : transaction.flatten.length ≥ 2
    · rw [if_pos several] at loop
      obtain ⟨performed, metadata, done⟩ := foldlM_prefix_invariant
        (fun operations state => ∃ performed metadata,
          StagedLoop base entropy [.assertTableUuid base.tableUuid] operations state performed metadata)
        (fun operations operation a b _ here stepped => by
          obtain ⟨performed, metadata, here⟩ := here
          exact here.step stepped) loop
        ⟨[], base, rfl, .nil, rfl, .refl base, rfl, by simp [SendsRequirements], by simp⟩
      exact ⟨performed, done.operations, done.performs, done.updates, nonempty, done.requirements,
        done.kept _ (by simp)⟩
    · rw [if_neg several] at loop
      cases whole : transaction.flatten with
      | nil =>
        rw [whole] at loop
        cases foldlM_nil_eq_ok.mp loop
        exact absurd rfl nonempty
      | cons operation others =>
        cases others with
        | nil =>
          rw [whole] at loop
          obtain ⟨last, stepped, rest⟩ := foldlM_cons_eq_ok.mp loop
          cases foldlM_nil_eq_ok.mp rest
          obtain ⟨one, rfl, performs, sent, required, kept⟩ := single_preparedFrom stepped rfl rfl
          exact ⟨[one], whole.symm, performs, sent, nonempty, required, kept _ (by simp)⟩
        | cons second others => exact absurd (by simp [whole]) several

end TableTransaction

end IcebergRust
