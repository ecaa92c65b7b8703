import IcebergRust.MaterializedView.TransformDown

/-!
# Positive deltas

What the positive delta of a query without aggregates adds to the rows of the query.

* A `Query` is a plan of the nodes a `PosDelta` is pushed through, as the planner builds it, over
  source tables that are known.
* A join whose left side is a join emits the old rows of that side with what is new on the right
  once for each delta of the left side. `surplus` are the rows that are emitted too often.
* The three joins that make up a delta are those of an inner join, their columns are lined up by
  name, and a join on the right side is moved to the left. `isEntangled` are the joins where one of
  these goes wrong; without them `posDelta_exact_iff` says when the delta is exact.
-/

namespace IcebergRust.DeltaQueries

open Fallible

variable {A : Type}

theorem existsNodes_eq_false {condition : Plan A → Bool} {plans : List (Plan A)} :
    Plan.existsNodes condition plans = false ↔
      ∀ plan ∈ plans, plan.existsNode condition = false := by
  induction plans with
  | nil => simp [Plan.existsNodes]
  | cons plan rest ih => simp [Plan.existsNodes, ih]

/-! ### The contents of the source tables -/

abbrev Contents (A : Type) := TableReference → Multiset (Row A)

namespace Plan

mutual

/-- The plan over these contents of the tables. -/
def reading (contents : Contents A) : Plan A → Plan A
  | projection expr input => projection expr (input.reading contents)
  | filter predicate input => filter predicate (input.reading contents)
  | join left right node => join (left.reading contents) (right.reading contents) node
  | union inputs schema => union (readingAll contents inputs) schema
  | aggregate input groupExpr aggrExpr schema =>
    aggregate (input.reading contents) groupExpr aggrExpr schema
  | subqueryAlias input name => subqueryAlias (input.reading contents) name
  | tableScan name _ schema => tableScan name (contents name) schema
  | sort expr input => sort expr (input.reading contents)
  | distinct input => distinct (input.reading contents)
  | posDelta input aliases => posDelta (input.reading contents) aliases
  | negDelta input aliases => negDelta (input.reading contents) aliases
  | fork input => fork (input.reading contents)

def readingAll (contents : Contents A) : List (Plan A) → List (Plan A)
  | [] => []
  | plan :: rest => plan.reading contents :: readingAll contents rest

end

theorem readingAll_eq (contents : Contents A) (plans : List (Plan A)) :
    readingAll contents plans = plans.map (reading contents) := by
  induction plans with
  | nil => rfl
  | cons plan rest ih => rw [readingAll, ih, List.map_cons]

end Plan

namespace SourceTableState

variable (state : SourceTableState A)

/-- The rows of the last refresh. -/
def old : Contents A := fun name => ((state name).bind (·.1)).getD 0

/-- The rows that came since. -/
def appended : Contents A := fun name => ((state name).bind (·.2)).getD 0

def new : Contents A := fun name => state.old name + state.appended name

end SourceTableState

/-! ### Queries -/

/-- A plan over source tables in which all columns are found. -/
inductive Query (state : SourceTableState A) (storage : StorageTable A) : Plan A → Prop where
  | projection {expr : List (Expr A)} {input : Plan A} (query : Query state storage input)
      (found : ∀ e ∈ expr, e.resolves input.schema = true) :
      Query state storage (.projection expr input)
  | filter {predicate : Expr A} {input : Plan A} (query : Query state storage input)
      (found : predicate.resolves input.schema = true) :
      Query state storage (.filter predicate input)
  | join {left right : Plan A} {node : JoinNode A} (ofLeft : Query state storage left)
      (ofRight : Query state storage right)
      (keys : ∀ pair ∈ node.on,
        pair.1.resolves left.schema = true ∧ pair.2.resolves right.schema = true)
      (conditions : ∀ e ∈ node.filter, e.resolves (left.schema ++ right.schema) = true)
      (schema : node.schema = buildJoinSchema left.schema right.schema node.joinType) :
      Query state storage (.join left right node)
  | union {inputs : List (Plan A)} {schema : List Column}
      (queries : ∀ input ∈ inputs, Query state storage input)
      (widths : ∀ input ∈ inputs, input.schema.length = schema.length) :
      Query state storage (.union inputs schema)
  | subqueryAlias {input : Plan A} {name : TableReference} (query : Query state storage input) :
      Query state storage (.subqueryAlias input name)
  | tableScan {name : TableReference} {source : Multiset (Row A)} {schema : List Column}
      (apart : name ≠ storage.reference) (known : (state name).isSome = true)
      (widths : ∀ row ∈ state.new name, row.length = schema.length) :
      Query state storage (.tableScan name source schema)

/-- A join whose delta is not put together as it should be: it is no inner join, a join is moved
from the right side to the left, or two columns have the same name. -/
def isEntangled : Plan A → Bool
  | .join _ right node =>
    !(node.joinType == .inner && !right.isJoin && decide (node.schema.map (·.name)).Nodup)
  | _ => false

namespace Plan

/-- How many deltas there are for a side of a join. -/
def deltaCount : Plan A → Nat
  | join left _ _ => 3 * left.deltaCount
  | _ => 1

variable [Scalar A]

/-- The rows of an inner join of the sides of a plan. -/
def pairs (node : JoinNode A) (left right : Plan A) (rows others : Multiset (Row A)) :
    Multiset (Row A) :=
  Bag.join (node.isMatch left.schema right.schema) (· ++ ·) rows others

mutual

/-- The rows that the delta has too many. -/
def surplus (state : SourceTableState A) : Plan A → Multiset (Row A)
  | projection expr input =>
    (input.surplus state).map fun row => expr.map (·.eval input.schema row)
  | filter predicate input =>
    (input.surplus state).filter fun row => holds (predicate.eval input.schema row) = true
  | join left right node =>
    let all := (right.reading state.new).eval + right.surplus state
    pairs node left right (left.reading state.new).eval (right.surplus state) +
      pairs node left right (left.surplus state) all +
      (left.deltaCount - 1) • pairs node left right (left.reading state.old).eval
        (all - (right.reading state.old).eval)
  | union inputs _ => surplusAll state inputs
  | subqueryAlias input _ => input.surplus state
  | _ => 0

def surplusAll (state : SourceTableState A) : List (Plan A) → Multiset (Row A)
  | [] => 0
  | plan :: rest => plan.surplus state + surplusAll state rest

end

end Plan

/-- The positive delta can be executed, and with the rows of the query over the old contents it
makes up those over the new ones. -/
def PosDeltaExact [Scalar A] (state : SourceTableState A) (storage : StorageTable A)
    (plan : Plan A) : Prop :=
  ∃ out, Yields (deltaTransformDown state storage) (.posDelta plan []) out ∧
    out.resolves = true ∧ (plan.reading state.old).eval + out.eval = (plan.reading state.new).eval

/-! ### Plans over the contents of the tables -/

section Reading

variable {state : SourceTableState A} {storage : StorageTable A} {plan : Plan A}

theorem Query.schema_reading (query : Query state storage plan) (contents : Contents A) :
    (plan.reading contents).schema = plan.schema := by
  induction query with
  | projection _ _ _ => rfl
  | filter _ _ ih => exact ih
  | join _ _ _ _ _ _ _ => rfl
  | union _ _ _ => rfl
  | subqueryAlias _ ih =>
    simp only [Plan.reading, Plan.schema]
    rw [ih]
  | tableScan _ _ _ => rfl

theorem Query.resolves_reading (query : Query state storage plan) (contents : Contents A) :
    (plan.reading contents).resolves = true := by
  induction query with
  | projection query found ih =>
    simp only [Plan.reading, Plan.resolves, query.schema_reading, ih, Bool.and_true]
    exact List.all_eq_true.mpr found
  | filter query found ih =>
    simp only [Plan.reading, Plan.resolves, query.schema_reading, ih, found, Bool.and_true]
  | join left right keys conditions _ ihl ihr =>
    simp only [Plan.reading, Plan.resolves, left.schema_reading, right.schema_reading, ihl, ihr,
      Bool.and_true, Bool.and_eq_true, List.all_eq_true, Option.all_eq_true]
    exact ⟨keys, conditions⟩
  | union _ _ ih =>
    simp only [Plan.reading, Plan.resolves, Plan.readingAll_eq]
    refine Plan.resolvesAll_iff.mpr fun input member => ?_
    obtain ⟨input, known, rfl⟩ := List.mem_map.mp member
    exact ih input known
  | subqueryAlias _ ih => exact ih
  | tableScan _ _ _ => rfl

/-- What is left of a query without delta nodes reads the old contents. -/
theorem Query.yields_reading (query : Query state storage plan) :
    Yields (deltaTransformDown state storage) plan (plan.reading state.old) := by
  induction query with
  | projection _ _ ih => exact Yields.projection _ rfl ih
  | @filter predicate input _ _ ih =>
    exact Yields.one (rfl : deltaTransformDown state storage (.filter predicate input) =
      .ok (.filter predicate input)) rfl ih
  | @join left right node _ _ _ _ _ ihl ihr =>
    exact Yields.of_step (rfl : deltaTransformDown state storage (.join left right node) =
      .ok (.join left right node)) (.cons ihl (.cons ihr .nil))
  | @union inputs schema _ _ ih =>
    have below : List.Forall₂ (Yields (deltaTransformDown state storage)) inputs
        (inputs.map (Plan.reading state.old)) :=
      List.forall₂_map_right_iff.mpr (List.forall₂_same.mpr ih)
    rw [Plan.reading, Plan.readingAll_eq]
    exact Yields.of_step (rfl : deltaTransformDown state storage (.union inputs schema) =
      .ok (.union inputs schema)) below
  | @subqueryAlias input name _ ih =>
    exact Yields.one (rfl : deltaTransformDown state storage (.subqueryAlias input name) =
      .ok (.subqueryAlias input name)) rfl ih
  | @tableScan name source schema apart known _ =>
    obtain ⟨provider, found⟩ := Option.isSome_iff_exists.mp known
    have rows : providerRows provider.1 = state.old name := by
      simp [providerRows, SourceTableState.old, found]
    have one : deltaTransformDown state storage (.tableScan name source schema) =
        .ok (.tableScan name (state.old name) schema) := by
      rw [deltaTransformDown, if_neg apart, found]
      simp only [rows]
    exact Yields.of_step one .nil

end Reading

/-- A join that is not entangled. -/
theorem isEntangled_join_eq_false {left right : Plan A} {node : JoinNode A} :
    isEntangled (.join left right node) = false ↔
      node.joinType = .inner ∧ right.isJoin = false ∧ (node.schema.map (·.name)).Nodup := by
  simp [isEntangled, and_assoc]

/-- The rows of an inner join are as long as those of both sides together. -/
theorem length_of_mem_join {isMatch : Row A → Row A → Bool} {rows others : Multiset (Row A)}
    {m n : Nat} (left : ∀ row ∈ rows, row.length = m) (right : ∀ row ∈ others, row.length = n) :
    ∀ row ∈ Bag.join isMatch (· ++ ·) rows others, row.length = m + n := by
  intro row member
  obtain ⟨x, hx, y, hy, -, rfl⟩ := (Bag.mem_join _ _).mp member
  rw [List.length_append, left x hx, right y hy]

section Rows

variable [Scalar A] {state : SourceTableState A} {storage : StorageTable A} {plan : Plan A}

theorem JoinNode.rows_inner {node : JoinNode A} (inner : node.joinType = .inner)
    (left right : List Column) (rows others : Multiset (Row A)) :
    node.rows left right rows others = Bag.join (node.isMatch left right) (· ++ ·) rows others := by
  simp [JoinNode.rows, inner]

/-- The rows of a query are as long as its schema. -/
theorem Query.length_reading (query : Query state storage plan)
    (straight : plan.existsNode isEntangled = false) {contents : Contents A}
    (within : ∀ name, ∀ row ∈ contents name, row ∈ state.new name) :
    ∀ row ∈ (plan.reading contents).eval, row.length = plan.schema.length := by
  induction query with
  | projection _ _ _ =>
    intro row member
    obtain ⟨before, -, rfl⟩ := Multiset.mem_map.mp member
    simp [Plan.schema]
  | filter _ _ ih =>
    intro row member
    simp only [Plan.existsNode, Bool.or_eq_false_iff] at straight
    exact ih straight.2 row (Multiset.mem_filter.mp member).1
  | join _ _ _ _ schema ihl ihr =>
    simp only [Plan.existsNode, Bool.or_eq_false_iff] at straight
    obtain ⟨inner, -, -⟩ := isEntangled_join_eq_false.mp straight.1.1
    intro row member
    simp only [Plan.reading, Plan.eval, JoinNode.rows_inner inner] at member
    rw [Plan.schema, schema, inner, buildJoinSchema, List.length_append]
    exact length_of_mem_join (ihl straight.1.2) (ihr straight.2) row member
  | @union inputs schema _ widths ih =>
    simp only [Plan.existsNode, Bool.or_eq_false_iff] at straight
    intro row member
    simp only [Plan.reading, Plan.eval, Plan.readingAll_eq] at member
    obtain ⟨plan, listed, here⟩ := Plan.mem_evalAll.mp member
    obtain ⟨input, known, rfl⟩ := List.mem_map.mp listed
    rw [Plan.schema, ← widths input known]
    exact ih input known (existsNodes_eq_false.mp straight.2 input known) row here
  | subqueryAlias _ ih =>
    simp only [Plan.existsNode, Bool.or_eq_false_iff] at straight
    intro row member
    rw [Plan.schema, List.length_map]
    exact ih straight.2 row member
  | tableScan _ _ widths =>
    intro row member
    exact widths row (within _ row member)

end Rows

/-! ### What the parts of a delta are transformed to -/

section Terms

variable [Scalar A] {state : SourceTableState A} {storage : StorageTable A}

/-- What a plan with this schema is transformed to. -/
structure IsTerm (state : SourceTableState A) (storage : StorageTable A) (schema : List Column)
    (plan out : Plan A) : Prop where
  yields : Yields (deltaTransformDown state storage) plan out
  before : plan.schema = schema
  after : out.schema = schema
  planned : out.resolves = true
  width : ∀ row ∈ out.eval, row.length = schema.length

theorem Query.isTerm {plan : Plan A} (query : Query state storage plan)
    (straight : plan.existsNode isEntangled = false) :
    IsTerm state storage plan.schema plan (plan.reading state.old) where
  yields := query.yields_reading
  before := rfl
  after := query.schema_reading _
  planned := query.resolves_reading _
  width := query.length_reading straight fun _ _ member => Multiset.mem_add.mpr (.inl member)

theorem IsTerm.fork {schema : List Column} {plan out : Plan A}
    (term : IsTerm state storage schema plan out) :
    IsTerm state storage schema (.fork plan) (.fork out) where
  yields := Yields.one (rfl : deltaTransformDown state storage (.fork plan) = .ok (.fork plan)) rfl
    term.yields
  before := term.before
  after := term.after
  planned := term.planned
  width := term.width

/-- A join of what its sides are transformed to. -/
theorem IsTerm.join {ls rs : List Column} {left right outLeft outRight : Plan A}
    {node : JoinNode A} (ofLeft : IsTerm state storage ls left outLeft)
    (ofRight : IsTerm state storage rs right outRight) (inner : node.joinType = .inner)
    (keys : ∀ pair ∈ node.on, pair.1.resolves ls = true ∧ pair.2.resolves rs = true)
    (conditions : ∀ e ∈ node.filter, e.resolves (ls ++ rs) = true)
    (schema : node.schema = ls ++ rs) :
    IsTerm state storage node.schema (.join left right node) (.join outLeft outRight node) where
  yields := Yields.of_step (rfl : deltaTransformDown state storage (.join left right node) =
    .ok (.join left right node)) (.cons ofLeft.yields (.cons ofRight.yields .nil))
  before := rfl
  after := rfl
  planned := by
    simp only [Plan.resolves, ofLeft.after, ofRight.after, ofLeft.planned, ofRight.planned,
      Bool.and_true, Bool.and_eq_true, List.all_eq_true, Option.all_eq_true]
    exact ⟨keys, conditions⟩
  width := by
    intro row member
    simp only [Plan.eval, JoinNode.rows_inner inner] at member
    rw [schema, List.length_append]
    exact length_of_mem_join ofLeft.width ofRight.width row member

theorem JoinNode.rows_eq_pairs {node : JoinNode A} (inner : node.joinType = .inner)
    {left right outLeft outRight : Plan A} (first : outLeft.schema = left.schema)
    (second : outRight.schema = right.schema) :
    (Plan.join outLeft outRight node).eval =
      Plan.pairs node left right outLeft.eval outRight.eval := by
  rw [Plan.eval, JoinNode.rows_inner inner, first, second]
  rfl

end Terms

/-! ### The delta of a query -/

theorem Plan.deltaCount_pos (plan : Plan A) : 0 < plan.deltaCount := by
  fun_induction Plan.deltaCount plan with
  | case1 left _ _ ih => omega
  | case2 => omega

/-- The deltas of a side of a join, which is left as it is. -/
def sideDeltas (plan : Plan A) : Except DataFusionError (List (Plan A) × Plan A) :=
  if plan.isJoin then transformJoin plan else .ok ([.posDelta plan []], plan)

theorem joinSides_eq {left right : Plan A} (apart : right.isJoin = false) :
    joinSides left right (transformJoin left) (transformJoin right) =
      (sideDeltas left).map fun x => (x.1, x.2, .posDelta right [], right) := by
  rw [joinSides, sideDeltas, apart]
  cases left.isJoin <;> rfl

section Deltas

variable [Scalar A] {state : SourceTableState A} {storage : StorageTable A}

/-- What the positive delta of a query is transformed to. -/
structure IsDelta (state : SourceTableState A) (storage : StorageTable A) (plan out : Plan A) :
    Prop where
  term : ∀ aliases, IsTerm state storage plan.schema (.posDelta plan aliases) out
  rows : (plan.reading state.old).eval + out.eval =
    (plan.reading state.new).eval + plan.surplus state

/-- What the deltas of a side of a join are transformed to. -/
structure IsSide (state : SourceTableState A) (storage : StorageTable A) (plan : Plan A)
    (terms outs : List (Plan A)) : Prop where
  emitted : sideDeltas plan = .ok (terms, plan)
  each : List.Forall₂ (IsTerm state storage plan.schema) terms outs
  count : outs.length = plan.deltaCount
  rows : (plan.reading state.old).eval + (outs.map Plan.eval).sum =
    (plan.reading state.new).eval + plan.surplus state

/-- A side that is no join. -/
theorem IsDelta.isSide {plan out : Plan A} (delta : IsDelta state storage plan out)
    (apart : plan.isJoin = false) : IsSide state storage plan [.posDelta plan []] [out] where
  emitted := by rw [sideDeltas, apart]; rfl
  each := .cons (delta.term []) .nil
  count := by cases plan <;> first | rfl | exact absurd apart (by simp [Plan.isJoin])
  rows := by simpa using delta.rows

/-- What `joinTerms` are transformed to. -/
def joinOuts (node : JoinNode A) (left right outRight outLeft : Plan A) : List (Plan A) :=
  [.join (.fork outLeft) (.fork outRight) node, .join left (.fork outRight) node,
    .join (.fork outLeft) right node]

variable {left right outRight : Plan A} {node : JoinNode A}

/-- The rows of all joins that are emitted. -/
theorem sum_joinOuts (inner : node.joinType = .inner) {outs : List (Plan A)}
    {before beforeRight : Plan A} (first : before.schema = left.schema)
    (second : beforeRight.schema = right.schema) (third : outRight.schema = right.schema)
    (schemas : ∀ out ∈ outs, out.schema = left.schema) :
    ((outs.flatMap (joinOuts node before beforeRight outRight)).map Plan.eval).sum =
      Plan.pairs node left right (outs.map Plan.eval).sum outRight.eval +
        outs.length • Plan.pairs node left right before.eval outRight.eval +
        Plan.pairs node left right (outs.map Plan.eval).sum beforeRight.eval := by
  induction outs with
  | nil => simp [Plan.pairs, Bag.join_zero_left]
  | cons out rest ih =>
    have here := schemas out List.mem_cons_self
    have later := ih fun other member => schemas other (List.mem_cons_of_mem _ member)
    have delta : (Plan.join (.fork out) (.fork outRight) node).eval =
      Plan.pairs node left right out.eval outRight.eval := JoinNode.rows_eq_pairs inner here third
    have kept : (Plan.join before (.fork outRight) node).eval =
      Plan.pairs node left right before.eval outRight.eval :=
        JoinNode.rows_eq_pairs inner first third
    have gained : (Plan.join (.fork out) beforeRight node).eval =
      Plan.pairs node left right out.eval beforeRight.eval :=
        JoinNode.rows_eq_pairs inner here second
    rw [List.flatMap_cons, List.map_append, List.sum_append, later, joinOuts]
    simp only [List.map_cons, List.map_nil, List.sum_cons, List.sum_nil, delta, kept, gained,
      Plan.pairs, Bag.join_add_left, List.length_cons, succ_nsmul]
    abel

/-- The joins that are emitted make up what the join gains, and its surplus. -/
theorem rows_join {n : Nat} (pos : 0 < n) {L R Ln Rn D δ Sl Sr : Multiset (Row A)}
    (ofLeft : L + D = Ln + Sl) (ofRight : R + δ = Rn + Sr) :
    Plan.pairs node left right L R + (Plan.pairs node left right D δ +
        n • Plan.pairs node left right L δ + Plan.pairs node left right D R) =
      Plan.pairs node left right Ln Rn + (Plan.pairs node left right Ln Sr +
        Plan.pairs node left right Sl (Rn + Sr) +
        (n - 1) • Plan.pairs node left right L (Rn + Sr - R)) := by
  obtain ⟨m, rfl⟩ : ∃ m, n = m + 1 := ⟨n - 1, by omega⟩
  have rest : Rn + Sr - R = δ := by rw [← ofRight, add_tsub_cancel_left]
  have all : Plan.pairs node left right (L + D) (R + δ) =
      Plan.pairs node left right Ln Rn + (Plan.pairs node left right Ln Sr +
        Plan.pairs node left right Sl (Rn + Sr)) := by
    rw [ofLeft, ofRight, Plan.pairs, Bag.join_add_left, Bag.join_add_right]
    simp only [Plan.pairs]
    abel
  rw [rest, Nat.add_sub_cancel]
  calc _ = Plan.pairs node left right (L + D) (R + δ) + m • Plan.pairs node left right L δ := by
        simp only [Plan.pairs, Bag.join_add, succ_nsmul]
        abel
    _ = _ := by rw [all]; abel

/-- A join as a side of another one. -/
theorem IsSide.join {terms outs : List (Plan A)}
    (query : Query state storage (.join left right node))
    (plain : isEntangled (.join left right node) = false)
    (straight : left.existsNode isEntangled = false ∧ right.existsNode isEntangled = false)
    (side : IsSide state storage left terms outs) (delta : IsDelta state storage right outRight) :
    IsSide state storage (.join left right node)
      (terms.flatMap (joinTerms node left right (.posDelta right [])))
      (outs.flatMap
        (joinOuts node (left.reading state.old) (right.reading state.old) outRight)) := by
  obtain ⟨inner, apart, -⟩ := isEntangled_join_eq_false.mp plain
  cases query with
  | join ofLeft ofRight keys conditions schema =>
  have columns : node.schema = left.schema ++ right.schema := by rw [schema, inner, buildJoinSchema]
  have before := ofLeft.isTerm straight.1
  have beforeRight := ofRight.isTerm straight.2
  have new := (delta.term []).fork
  constructor
  · show transformJoin (.join left right node) = _
    rw [transformJoin, joinSides_eq apart, side.emitted]
    rfl
  · refine List.rel_flatMap side.each fun term out here => ?_
    have fork := here.fork
    exact .cons (fork.join new inner keys conditions columns)
      (.cons (before.join new inner keys conditions columns)
        (.cons (fork.join beforeRight inner keys conditions columns) .nil))
  · rw [List.length_flatMap, Plan.deltaCount, ← side.count]
    simp [joinOuts, mul_comm]
  · have schemas : ∀ out ∈ outs, out.schema = left.schema := by
      intro out member
      obtain ⟨term, -, here⟩ := exists_of_mem_forall₂ side.each member
      exact here.after
    have old : (Plan.reading state.old (.join left right node)).eval =
        Plan.pairs node left right (left.reading state.old).eval (right.reading state.old).eval :=
      JoinNode.rows_eq_pairs inner (ofLeft.schema_reading _) (ofRight.schema_reading _)
    have now : (Plan.reading state.new (.join left right node)).eval =
        Plan.pairs node left right (left.reading state.new).eval (right.reading state.new).eval :=
      JoinNode.rows_eq_pairs inner (ofLeft.schema_reading _) (ofRight.schema_reading _)
    rw [old, now, sum_joinOuts inner before.after beforeRight.after (delta.term []).after schemas,
      side.count, Plan.surplus]
    exact rows_join left.deltaCount_pos side.rows delta.rows

/-- The delta of a join is the union of what it is transformed to as a side. -/
theorem IsSide.isDelta {terms outs : List (Plan A)}
    (plain : isEntangled (.join left right node) = false)
    (side : IsSide state storage (.join left right node) terms outs) :
    IsDelta state storage (.join left right node) (unionWithSchema outs node.schema) := by
  obtain ⟨-, -, distinct⟩ := isEntangled_join_eq_false.mp plain
  have facts : ∀ out ∈ outs, out.schema = node.schema ∧ out.resolves = true ∧
      ∀ row ∈ out.eval, row.length = node.schema.length := by
    intro out member
    obtain ⟨term, -, here⟩ := exists_of_mem_forall₂ side.each member
    exact ⟨here.after, here.planned, here.width⟩
  have nonempty : outs ≠ [] := by
    rintro rfl
    have count := side.count
    have pos := Plan.deltaCount_pos (.join left right node)
    rw [← count] at pos
    exact absurd pos (lt_irrefl 0)
  have names : ∀ out ∈ outs, out.schema.map (·.name) = node.schema.map (·.name) :=
    fun out member => by rw [(facts out member).1]
  have rows := eval_unionWithSchema nonempty names distinct fun out member => (facts out member).2.2
  constructor
  · intro aliases
    constructor
    · have step : deltaTransformDown state storage (.posDelta (.join left right node) aliases) =
          .ok (unionWithSchema terms node.schema) := by
        have emitted : transformJoin (.join left right node) = _ := side.emitted
        rw [deltaTransformDown, posDeltaStep, emitted]
        rfl
      exact Yields.settled step rfl (Yields.unionWithSchema _
        (side.each.imp fun _ _ here => ⟨here.yields, here.after.trans here.before.symm⟩))
    · rfl
    · exact schema_unionWithSchema outs node.schema
    · exact resolves_unionWithSchema nonempty names distinct fun out member =>
        (facts out member).2.1
    · intro row member
      rw [rows, ← Plan.evalAll_eq] at member
      obtain ⟨out, known, here⟩ := Plan.mem_evalAll.mp member
      exact (facts out known).2.2 row here
  · rw [rows]
    exact side.rows

/-- The delta of a plan whose delta is that of its input. -/
theorem IsDelta.projection {expr : List (Expr A)} {input out : Plan A}
    (found : ∀ e ∈ expr, e.resolves input.schema = true) (query : Query state storage input)
    (delta : IsDelta state storage input out) :
    IsDelta state storage (.projection expr input) (.projection expr out) where
  term aliases :=
    { yields := Yields.one (rfl : deltaTransformDown state storage
        (.posDelta (.projection expr input) aliases) =
        .ok (.projection expr (.posDelta input (projectionAliases expr)))) rfl
        (delta.term _).yields
      before := rfl
      after := rfl
      planned := by
        simp only [Plan.resolves, (delta.term []).after, (delta.term []).planned, Bool.and_true]
        exact List.all_eq_true.mpr found
      width := by
        intro row member
        obtain ⟨before, -, rfl⟩ := Multiset.mem_map.mp member
        simp [Plan.schema] }
  rows := by
    simp only [Plan.reading, Plan.eval, Plan.surplus, query.schema_reading, (delta.term []).after,
      ← Multiset.map_add, delta.rows]

theorem IsDelta.filter {predicate : Expr A} {input out : Plan A}
    (found : predicate.resolves input.schema = true) (query : Query state storage input)
    (delta : IsDelta state storage input out) :
    IsDelta state storage (.filter predicate input) (.filter predicate out) where
  term aliases :=
    { yields := Yields.one (rfl : deltaTransformDown state storage
        (.posDelta (.filter predicate input) aliases) =
        .ok (.filter predicate (.posDelta input []))) rfl (delta.term _).yields
      before := rfl
      after := (delta.term []).after
      planned := by
        simp only [Plan.resolves, (delta.term []).after, (delta.term []).planned, found,
          Bool.and_true]
      width := fun row member => (delta.term []).width row (Multiset.mem_filter.mp member).1 }
  rows := by
    simp only [Plan.reading, Plan.eval, Plan.surplus, query.schema_reading, (delta.term []).after,
      ← Multiset.filter_add, delta.rows]

theorem IsDelta.subqueryAlias {name : TableReference} {input out : Plan A}
    (delta : IsDelta state storage input out) :
    IsDelta state storage (.subqueryAlias input name) (.subqueryAlias out name) where
  term aliases :=
    { yields := Yields.one (rfl : deltaTransformDown state storage (.posDelta
        (.subqueryAlias input name) aliases) = .ok (.subqueryAlias (.posDelta input []) name)) rfl
        (delta.term _).yields
      before := rfl
      after := by simp only [Plan.schema, (delta.term []).after]
      planned := (delta.term []).planned
      width := fun row member => by
        rw [Plan.schema, List.length_map]
        exact (delta.term []).width row member }
  rows := delta.rows

theorem IsDelta.union {inputs outs : List (Plan A)} {schema : List Column}
    (widths : ∀ input ∈ inputs, input.schema.length = schema.length)
    (each : List.Forall₂ (IsDelta state storage) inputs outs) :
    IsDelta state storage (.union inputs schema) (.union outs schema) where
  term aliases :=
    { yields := Yields.of_step (rfl : deltaTransformDown state storage (.posDelta
        (.union inputs schema) aliases) = .ok (.union (inputs.map (.posDelta · [])) schema))
        (List.forall₂_map_left_iff.mpr (each.imp fun _ _ here => (here.term []).yields))
      before := rfl
      after := rfl
      planned := by
        refine Plan.resolvesAll_iff.mpr fun out member => ?_
        obtain ⟨input, -, here⟩ := exists_of_mem_forall₂ each member
        exact (here.term []).planned
      width := by
        intro row member
        obtain ⟨out, known, here⟩ := Plan.mem_evalAll.mp member
        obtain ⟨input, listed, delta⟩ := exists_of_mem_forall₂ each known
        rw [Plan.schema, ← widths input listed]
        exact (delta.term []).width row here }
  rows := by
    simp only [Plan.reading, Plan.eval, Plan.surplus]
    clear widths
    induction each with
    | nil => rfl
    | @cons input out rest outs first _ ih =>
      simp only [Plan.readingAll, Plan.evalAll, Plan.surplusAll]
      calc _ = ((input.reading state.old).eval + out.eval) +
            (Plan.evalAll (Plan.readingAll state.old rest) + Plan.evalAll outs) := by abel
        _ = _ := by rw [first.rows, ih]; abel

theorem IsDelta.tableScan {name : TableReference} {source : Multiset (Row A)}
    {schema : List Column} (known : (state name).isSome = true)
    (widths : ∀ row ∈ state.new name, row.length = schema.length) :
    IsDelta state storage (.tableScan name source schema)
      (.tableScan name (state.appended name) schema) where
  term aliases :=
    { yields := by
        obtain ⟨provider, found⟩ := Option.isSome_iff_exists.mp known
        have rows : providerRows provider.2 = state.appended name := by
          simp [providerRows, SourceTableState.appended, found]
        have one : deltaTransformDown state storage (.posDelta (.tableScan name source schema)
            aliases) = .ok (.tableScan name (state.appended name) schema) := by
          rw [deltaTransformDown, posDeltaStep, found]
          simp only [rows]
        exact Yields.of_step one .nil
      before := rfl
      after := rfl
      planned := rfl
      width := fun row member => widths row (Multiset.mem_add.mpr (.inr member)) }
  rows := (add_zero _).symm

end Deltas

theorem exists_forall₂ {α β : Type*} {R : α → β → Prop} {xs : List α}
    (each : ∀ x ∈ xs, ∃ y, R x y) : ∃ ys, List.Forall₂ R xs ys := by
  induction xs with
  | nil => exact ⟨[], .nil⟩
  | cons x rest ih =>
    obtain ⟨y, here⟩ := each x List.mem_cons_self
    obtain ⟨ys, later⟩ := ih fun other member => each other (List.mem_cons_of_mem _ member)
    exact ⟨y :: ys, .cons here later⟩

section Exact

variable [Scalar A] {state : SourceTableState A} {storage : StorageTable A} {plan : Plan A}

/-- A query without entangled joins has a delta, also as a side of a join. -/
theorem Query.delta (query : Query state storage plan)
    (straight : plan.existsNode isEntangled = false) :
    (∃ out, IsDelta state storage plan out) ∧
      ∃ terms outs, IsSide state storage plan terms outs := by
  induction query with
  | projection query found ih =>
    simp only [Plan.existsNode, Bool.or_eq_false_iff] at straight
    obtain ⟨out, delta⟩ := (ih straight.2).1
    have all := delta.projection found query
    exact ⟨⟨_, all⟩, _, _, all.isSide rfl⟩
  | filter query found ih =>
    simp only [Plan.existsNode, Bool.or_eq_false_iff] at straight
    obtain ⟨out, delta⟩ := (ih straight.2).1
    have all := delta.filter found query
    exact ⟨⟨_, all⟩, _, _, all.isSide rfl⟩
  | join ofLeft ofRight keys conditions schema ihl ihr =>
    simp only [Plan.existsNode, Bool.or_eq_false_iff] at straight
    obtain ⟨terms, outs, side⟩ := (ihl straight.1.2).2
    obtain ⟨out, delta⟩ := (ihr straight.2).1
    have all := side.join (.join ofLeft ofRight keys conditions schema) straight.1.1
      ⟨straight.1.2, straight.2⟩ delta
    exact ⟨⟨_, all.isDelta straight.1.1⟩, _, _, all⟩
  | union queries widths ih =>
    simp only [Plan.existsNode, Bool.or_eq_false_iff] at straight
    have each := existsNodes_eq_false.mp straight.2
    obtain ⟨outs, deltas⟩ := exists_forall₂ fun input member =>
      (ih input member (each input member)).1
    have all := IsDelta.union widths deltas
    exact ⟨⟨_, all⟩, _, _, all.isSide rfl⟩
  | @subqueryAlias input name query ih =>
    simp only [Plan.existsNode, Bool.or_eq_false_iff] at straight
    obtain ⟨out, delta⟩ := (ih straight.2).1
    have all : IsDelta state storage (.subqueryAlias input name) (.subqueryAlias out name) :=
      delta.subqueryAlias
    exact ⟨⟨_, all⟩, _, _, all.isSide rfl⟩
  | @tableScan name source schema _ known widths =>
    have all : IsDelta state storage (.tableScan name source schema)
      (.tableScan name (state.appended name) schema) := .tableScan known widths
    exact ⟨⟨_, all⟩, _, _, all.isSide rfl⟩

theorem IsDelta.exact_iff {out : Plan A} (delta : IsDelta state storage plan out) :
    PosDeltaExact state storage plan ↔ plan.surplus state = 0 := by
  constructor
  · rintro ⟨other, yields, -, rows⟩
    cases yields.unique (delta.term []).yields
    have both := rows.symm.trans delta.rows
    exact left_eq_add.mp both
  · intro empty
    refine ⟨out, (delta.term []).yields, (delta.term []).planned, ?_⟩
    rw [delta.rows, empty, add_zero]

omit [Scalar A] in
/-- What no query is holds of no node of a query. -/
theorem Query.existsNode_eq_false (query : Query state storage plan) {condition : Plan A → Bool}
    (never : ∀ node, Query state storage node → condition node = false) :
    plan.existsNode condition = false := by
  induction query with
  | projection query found ih =>
    exact Bool.or_eq_false_iff.mpr ⟨never _ (.projection query found), ih⟩
  | filter query found ih => exact Bool.or_eq_false_iff.mpr ⟨never _ (.filter query found), ih⟩
  | join left right keys conditions schema ihl ihr =>
    have here := never _ (.join left right keys conditions schema)
    exact Bool.or_eq_false_iff.mpr ⟨Bool.or_eq_false_iff.mpr ⟨here, ihl⟩, ihr⟩
  | union queries widths ih =>
    exact Bool.or_eq_false_iff.mpr ⟨never _ (.union queries widths), existsNodes_eq_false.mpr ih⟩
  | subqueryAlias query ih => exact Bool.or_eq_false_iff.mpr ⟨never _ (.subqueryAlias query), ih⟩
  | tableScan apart known widths => exact never _ (.tableScan apart known widths)

omit [Scalar A] in
/-- A query can be refreshed with what is new. -/
theorem Query.determineRefreshStrategy (query : Query state storage plan) :
    determineRefreshStrategy plan = .incrementalAppend := by
  have incremental : plan.existsNode (!·.isIncremental) = false :=
    query.existsNode_eq_false fun node here => by cases here <;> rfl
  have unsorted : plan.existsNode (·.isSort) = false :=
    query.existsNode_eq_false fun node here => by cases here <;> rfl
  simp [DeltaQueries.determineRefreshStrategy, incremental, unsorted]

/-- A query can be refreshed with what is new, and without entangled joins what its positive delta
adds is exact where no row is emitted too often. -/
theorem posDelta_exact_iff (query : Query state storage plan)
    (straight : plan.existsNode isEntangled = false) :
    determineRefreshStrategy plan = .incrementalAppend ∧
      (PosDeltaExact state storage plan ↔ plan.surplus state = 0) := by
  obtain ⟨out, delta⟩ := (query.delta straight).1
  exact ⟨query.determineRefreshStrategy, delta.exact_iff⟩

end Exact

/-! ### Three tables -/

instance : Scalar Int where
  truth x := decide (x ≠ 0)
  ofBool b := if b then 1 else 0
  truth_ofBool b := by cases b <;> rfl
  count := Nat.castAddMonoidHom Int
  count_injective := Nat.cast_injective

/-- Three tables with a row each; the last one has another row since. -/
def threeTables : SourceTableState Int
  | "a" => some (some {[some 1]}, none)
  | "b" => some (some {[some 1]}, none)
  | "c" => some (some {[some 1]}, some {[some 1]})
  | _ => none

def emptyStorage : StorageTable Int := ⟨"view", 0, []⟩

def scanOf (table column : String) : Plan Int := .tableScan table 0 [⟨some table, column⟩]

/-- An inner join on a column of either side. -/
def joinOnColumns (left right : Plan Int) (first second : Column) : Plan Int :=
  .join left right
    { on := [(.column first, .column second)], filter := none, joinType := .inner,
      joinConstraint := .onExpressions, nullEquality := .nullEqualsNothing, nullAware := false,
      schema := left.schema ++ right.schema }

/-- `b JOIN c ON b.y = c.z`. -/
def joinOfTwo : Plan Int :=
  joinOnColumns (scanOf "b" "y") (scanOf "c" "z") ⟨some "b", "y"⟩ ⟨some "c", "z"⟩

/-- `a JOIN b ON a.x = b.y JOIN c ON b.y = c.z`. -/
def joinOfThree : Plan Int :=
  joinOnColumns (joinOnColumns (scanOf "a" "x") (scanOf "b" "y") ⟨some "a", "x"⟩ ⟨some "b", "y"⟩)
    (scanOf "c" "z") ⟨some "b", "y"⟩ ⟨some "c", "z"⟩

theorem query_scanOf {table column : String} (apart : table ≠ "view")
    (known : (threeTables table).isSome = true)
    (widths : ∀ row ∈ threeTables.new table, row.length = 1) :
    Query threeTables emptyStorage (scanOf table column) :=
  .tableScan apart known widths

theorem query_joinOnColumns {left right : Plan Int} {first second : Column}
    (ofLeft : Query threeTables emptyStorage left) (ofRight : Query threeTables emptyStorage right)
    (here : resolvesColumn left.schema first = true)
    (there : resolvesColumn right.schema second = true) :
    Query threeTables emptyStorage (joinOnColumns left right first second) := by
  refine .join ofLeft ofRight (fun pair member => ?_) (fun e member => nomatch member) rfl
  rw [List.mem_singleton.mp member]
  exact ⟨here, there⟩

theorem widths_threeTables (table : String) : ∀ row ∈ threeTables.new table, row.length = 1 := by
  intro row member
  simp only [SourceTableState.new, SourceTableState.old, SourceTableState.appended] at member
  unfold threeTables at member
  split at member <;> simp_all

theorem query_two : Query threeTables emptyStorage joinOfTwo := by
  apply query_joinOnColumns
  · exact query_scanOf (by decide) (by decide) (widths_threeTables "b")
  · exact query_scanOf (by decide) (by decide) (widths_threeTables "c")
  · decide
  · decide

theorem query_three : Query threeTables emptyStorage joinOfThree := by
  apply query_joinOnColumns
  · apply query_joinOnColumns
    · exact query_scanOf (by decide) (by decide) (widths_threeTables "a")
    · exact query_scanOf (by decide) (by decide) (widths_threeTables "b")
    · decide
    · decide
  · exact query_scanOf (by decide) (by decide) (widths_threeTables "c")
  · decide
  · decide

theorem posDelta_exact_two : PosDeltaExact threeTables emptyStorage joinOfTwo :=
  (posDelta_exact_iff query_two (by decide)).2.mpr (by decide)

/-- The row that came since is added three times. -/
theorem posDelta_repeats : Query threeTables emptyStorage joinOfThree ∧
    determineRefreshStrategy joinOfThree = .incrementalAppend ∧
    (∃ out, Yields (deltaTransformDown threeTables emptyStorage) (.posDelta joinOfThree []) out ∧
      out.eval.card = 3) ∧
    (joinOfThree.reading threeTables.old).eval.card = 1 ∧
    (joinOfThree.reading threeTables.new).eval.card = 2 ∧
    ¬ PosDeltaExact threeTables emptyStorage joinOfThree := by
  have run : (transformDown (deltaTransformDown threeTables emptyStorage) 9
      (.posDelta joinOfThree [])).map (·.eval.card) = .ok 3 := by decide
  obtain ⟨out, run, three⟩ := map_eq_ok.mp run
  have old : (joinOfThree.reading threeTables.old).eval.card = 1 := by decide
  have new : (joinOfThree.reading threeTables.new).eval.card = 2 := by decide
  refine ⟨query_three, by decide, ⟨out, Yields.of_run run, three⟩, old, new, ?_⟩
  rintro ⟨other, yields, -, rows⟩
  cases yields.unique (Yields.of_run run)
  have sizes := congrArg Multiset.card rows
  rw [Multiset.card_add, old, new, three] at sizes
  exact absurd sizes (by decide)

/-- `c LEFT JOIN b ON c.z = b.y`. -/
def outerJoin : Plan Int :=
  .join (scanOf "c" "z") (scanOf "b" "y")
    { on := [(.column ⟨some "c", "z"⟩, .column ⟨some "b", "y"⟩)], filter := none, joinType := .left,
      joinConstraint := .onExpressions, nullEquality := .nullEqualsNothing, nullAware := false,
      schema := [⟨some "c", "z"⟩, ⟨some "b", "y"⟩] }

-- Entangled joins: rows that are padded too often, keys on the wrong side, and an ambiguous name.
example : (transformDown (deltaTransformDown threeTables emptyStorage) 9
    (.posDelta outerJoin [])).map (·.eval) =
      .ok {[some 1, none], [some 1, none], [some 1, some 1]} := by decide

example : (transformDown (deltaTransformDown threeTables emptyStorage) 9
    (.posDelta (joinOnColumns (scanOf "a" "x") joinOfTwo ⟨some "a", "x"⟩ ⟨some "b", "y"⟩) [])).map
      (·.resolves) = .ok false := by decide

example : (transformDown (deltaTransformDown threeTables emptyStorage) 9
    (.posDelta (joinOnColumns (scanOf "b" "x") (scanOf "c" "x") ⟨some "b", "x"⟩
      ⟨some "c", "x"⟩) [])).map (·.resolves) = .ok false := by decide

end IcebergRust.DeltaQueries
