import IcebergRust.Lib.Fallible
import IcebergRust.MaterializedView.LogicalPlan
import IcebergRust.MaterializedView.Refresh

/-!
# The transformation of delta queries

`delta_transform_down` of `datafusion_iceberg/src/materialized_view/delta_queries/transform.rs`,
with `incremental_aggregate_function` and `determine_refresh_strategy`.

* A `PosDelta` stands for the rows a plan gains, a `NegDelta` for the keys of the rows it loses.
  One step of the transformation replaces such a node by a plan in which they stand lower, and
  the scans that are left by what was there before.
* `transform_down` of DataFusion descends into the inputs of what a step has returned. It has no
  measure of its own, so `transformDown` counts the levels it may descend.
* `Union::try_new_by_name` lines up the columns of its inputs by their unqualified names.
-/

namespace IcebergRust.DeltaQueries

open MaterializedView (RefreshStrategy)

inductive DataFusionError where
  | notSupported (feature : String)
  | invalidFormat (text : String)
  /-- A name that is there twice. -/
  | schemaError
  /-- `unwrap` of a relation that is not in the source tables. -/
  | panicked
  /-- The levels `transformDown` may descend are used up. -/
  | tooDeep
deriving DecidableEq, Repr

variable {A : Type}

/-- For each relation the rows of the last refresh and those that came since, where there are. -/
abbrev SourceTableState (A : Type) :=
  TableReference → Option (Option (Multiset (Row A)) × Option (Multiset (Row A)))

/-- The storage table of a materialized view. -/
structure StorageTable (A : Type) where
  reference : TableReference
  source : Multiset (Row A)
  fields : List String

/-- The scan of the storage table. -/
def StorageTable.scan (storage : StorageTable A) : Plan A :=
  .tableScan storage.reference storage.source (storage.fields.map (⟨some storage.reference, ·⟩))

/-- `fork_node`: two copies that give the rows of the plan. -/
def forkNode (plan : Plan A) : Plan A × Plan A := (.fork plan, .fork plan)

/-! ### Unions by name -/

def insertName (names : List String) (name : String) : List String :=
  if name ∈ names then names else names ++ [name]

/-- The names of the columns of all inputs. -/
def unionNames (inputs : List (Plan A)) : List String :=
  inputs.foldl (fun names input => (input.schema.map (·.name)).foldl insertName names) []

/-- A column of the union: that of the input with its name, or null. -/
def unionColumn (input : Plan A) (name : String) : Expr A :=
  if name ∈ input.schema.map (·.name) then .column ⟨none, name⟩
  else .aliased (.literal "NULL" none) none name

/-- `Union::try_new_by_name`. -/
def unionByName (inputs : List (Plan A)) : Plan A :=
  .union (inputs.map fun input => .projection ((unionNames inputs).map (unionColumn input)) input)
    ((unionNames inputs).map (⟨none, ·⟩))

/-- `union_with_schema`. -/
def unionWithSchema (inputs : List (Plan A)) (schema : List Column) : Plan A :=
  .projection
    (schema.map fun field => .aliased (.column ⟨none, field.name⟩) field.relation field.name)
    (unionByName inputs)

/-! ### Joins -/

/-- The sides of a join, with the deltas of the first one: a side that is a join itself comes
first, wherever it stood. -/
def joinSides (left right : Plan A)
    (ofLeft ofRight : Except DataFusionError (List (Plan A) × Plan A)) :
    Except DataFusionError (List (Plan A) × Plan A × Plan A × Plan A) :=
  match left.isJoin, right.isJoin with
  | true, true => .error (.notSupported "Materialzied views cannot join two joins.")
  | true, false => ofLeft.map fun x => (x.1, x.2, .posDelta right [], right)
  | false, true => ofRight.map fun x => (x.1, x.2, .posDelta left [], left)
  | false, false => .ok ([.posDelta left []], left, .posDelta right [], right)

/-- What is emitted for one delta of the first side. -/
def joinTerms (node : JoinNode A) (left right deltaRight deltaLeft : Plan A) : List (Plan A) :=
  [.join (forkNode deltaLeft).1 (forkNode deltaRight).1 node,
    .join left (forkNode deltaRight).2 node,
    .join (forkNode deltaLeft).2 right node]

/-- The deltas of a join, and the join. -/
def joinDeltas (node : JoinNode A) (sides : List (Plan A) × Plan A × Plan A × Plan A) :
    List (Plan A) × Plan A :=
  (sides.1.flatMap (joinTerms node sides.2.1 sides.2.2.2 sides.2.2.1),
    .join sides.2.1 sides.2.2.2 node)

/-- `transform_join`, which is called on joins only. -/
def transformJoin : Plan A → Except DataFusionError (List (Plan A) × Plan A)
  | .join left right node =>
    (joinSides left right (transformJoin left) (transformJoin right)).map (joinDeltas node)
  | plan => .ok ([], plan)

/-! ### Aggregates -/

/-- What an alias is given to, and its name. -/
def aliasOf : Expr A → Option (String × String)
  | .aliased inner _ name => some (inner.schemaName, name)
  | _ => none

/-- The aliases of a projection; of several for the same expression the last one is found. -/
def projectionAliases (exprs : List (Expr A)) : List (String × String) :=
  (exprs.filterMap aliasOf).reverse

/-- `storage_table_aggregate_expressions`, for one expression. -/
def storageTableAggregateExpression (reference : TableReference) (aliases : List (String × String))
    (expr : Expr A) : Expr A :=
  .column ⟨some reference, (aliases.lookup expr.schemaName).getD expr.schemaName⟩

/-- `storage_table_group_expressions`, for one expression. -/
def storageTableGroupExpression (reference : TableReference) :
    Expr A → Except DataFusionError (Expr A)
  | .column column => .ok (.column ⟨some reference, column.name⟩)
  | expr => .error (.notSupported ("Expression " ++ expr.schemaName ++ " as group by"))

/-- The choice between a new and an old value. -/
def chooseBetween (op : Operator) (left right : Expr A) : Expr A :=
  .caseBoolean (.binaryExpr (.column ⟨none, left.schemaName⟩) op right)
    (.column ⟨none, left.schemaName⟩) right

/-- The sum of a new and an old value. -/
def addBoth (left right : Expr A) : Expr A :=
  .aliased (.binaryExpr (.column ⟨none, left.schemaName⟩) .plus right) none left.schemaName

/-- `incremental_aggregate_function`, with one expression on either side. -/
def incrementalAggregateFunction (left right : Expr A) : Except DataFusionError (Expr A) :=
  match left with
  | .aggregateFunction func _ _ =>
    if func = "count" then .ok (addBoth left right)
    else if func = "sum" then .ok (addBoth left right)
    else if func = "min" then .ok (chooseBetween .lt left right)
    else if func = "max" then .ok (chooseBetween .gt left right)
    else .error (.notSupported
      ("Aggregate function " ++ func ++ " is not supported for incremental refreshs."))
  | _ => .error (.invalidFormat "The expressions are not aggregate expressions")

/-- The keys the aggregate and the storage table are joined on. -/
def joinOn (storage : StorageTable A) (groupExpr : List (Expr A)) :
    Except DataFusionError (List (Expr A × Expr A)) :=
  (groupExpr.mapM (storageTableGroupExpression storage.reference)).map groupExpr.zip

/-- `DFSchema::check_names`: fields differ, and an unqualified name is that of no other field. -/
def checkNames (schema : List Column) : Except DataFusionError (List Column) :=
  if schema.Nodup && schema.all (fun field => schema.all fun other =>
    field.relation.isSome || other.relation.isNone || field.name != other.name) then .ok schema
  else .error .schemaError

/-- The join of the aggregate of what is new with the storage table. -/
def storageJoin (joinType : JoinType) (on : List (Expr A × Expr A)) (schema : List Column)
    (aggregate scan : Plan A) : Plan A :=
  .join aggregate scan
    { on := on, filter := none, joinType := joinType, joinConstraint := .onExpressions,
      nullEquality := .nullEqualsNothing, nullAware := false, schema := schema }

/-- The merged aggregate expressions of groups that were there. -/
def mergedAggregates (storage : StorageTable A) (aliases : List (String × String))
    (aggrExpr : List (Expr A)) : Except DataFusionError (List (Expr A)) :=
  aggrExpr.mapM fun expr => incrementalAggregateFunction expr
    (storageTableAggregateExpression storage.reference aliases expr)

/-- The positive delta of an aggregate. -/
def posDeltaAggregate (storage : StorageTable A) (aliases : List (String × String))
    (input : Plan A) (groupExpr aggrExpr : List (Expr A)) (schema : List Column) :
    Except DataFusionError (Plan A) := do
  let delta := forkNode (.aggregate (.posDelta input []) groupExpr aggrExpr schema)
  let scan := forkNode storage.scan
  let joinSchema ← checkNames (buildJoinSchema schema storage.scan.schema .inner)
  let on ← joinOn storage groupExpr
  let merged ← mergedAggregates storage aliases aggrExpr
  let antiJoinSchema ← checkNames (buildJoinSchema schema storage.scan.schema .leftAnti)
  return unionWithSchema
    [.projection (groupExpr ++ merged) (storageJoin .inner on joinSchema delta.1 scan.1),
      storageJoin .leftAnti on antiJoinSchema delta.2 scan.2] schema

/-- The negative delta of an aggregate. -/
def negDeltaAggregate (storage : StorageTable A) (input : Plan A)
    (groupExpr aggrExpr : List (Expr A)) (schema : List Column) :
    Except DataFusionError (Plan A) := do
  let delta := .aggregate (.posDelta input []) groupExpr aggrExpr schema
  let joinSchema ← checkNames (buildJoinSchema schema storage.scan.schema .inner)
  let on ← joinOn storage groupExpr
  return .projection groupExpr (storageJoin .inner on joinSchema delta storage.scan)

/-! ### One step -/

/-- The rows of a source table that came since, or those of the last refresh. -/
def providerRows (provider : Option (Multiset (Row A))) : Multiset (Row A) := provider.getD 0

/-- What a `PosDelta` over a plan is replaced by. -/
def posDeltaStep (state : SourceTableState A) (storage : StorageTable A)
    (aliases : List (String × String)) : Plan A → Except DataFusionError (Plan A)
  | .filter predicate input => .ok (.filter predicate (.posDelta input []))
  | .projection expr input =>
    .ok (.projection expr (.posDelta input (projectionAliases expr)))
  | .join left right node =>
    (transformJoin (.join left right node)).map fun deltas => unionWithSchema deltas.1 node.schema
  | .union inputs schema => .ok (.union (inputs.map (.posDelta · [])) schema)
  | .subqueryAlias input name => .ok (.subqueryAlias (.posDelta input []) name)
  | .aggregate input groupExpr aggrExpr schema =>
    posDeltaAggregate storage aliases input groupExpr aggrExpr schema
  | .tableScan name _ schema =>
    match state name with
    | some provider => .ok (.tableScan name (providerRows provider.2) schema)
    | none => .error .panicked
  | _ => .error (.notSupported "Logical plan")

/-- Whether an expression is a column. -/
def isColumn : Expr A → Bool
  | .column _ => true
  | _ => false

/-- A join of a `NegDelta`. -/
def negDeltaJoin (left right : Plan A) (node : JoinNode A) : Plan A :=
  unionWithSchema
    [.join (.negDelta left []) (.negDelta right []) node, .join left (.negDelta right []) node,
      .join (.negDelta left []) right node] node.schema

/-- What a `NegDelta` over a plan is replaced by. -/
def negDeltaStep (storage : StorageTable A) : Plan A → Except DataFusionError (Plan A)
  | .projection expr input =>
    .ok (.projection (expr.filter isColumn) (.negDelta input (projectionAliases expr)))
  | .filter predicate input => .ok (.filter predicate (.negDelta input []))
  | .join left right node => .ok (negDeltaJoin left right node)
  | .union inputs schema => .ok (.union (inputs.map (.negDelta · [])) schema)
  | .aggregate input groupExpr aggrExpr schema =>
    negDeltaAggregate storage input groupExpr aggrExpr schema
  | .subqueryAlias input name => .ok (.subqueryAlias (.negDelta input []) name)
  | .tableScan name _ schema => .ok (.tableScan name 0 schema)
  | _ => .error (.notSupported "Logical plan")

/-- `delta_transform_down`. -/
def deltaTransformDown (state : SourceTableState A) (storage : StorageTable A) :
    Plan A → Except DataFusionError (Plan A)
  | .posDelta input aliases => posDeltaStep state storage aliases input
  | .negDelta input _ => negDeltaStep storage input
  | .tableScan name source schema =>
    if name = storage.reference then .ok (.tableScan name source schema)
    else match state name with
      | some provider => .ok (.tableScan name (providerRows provider.1) schema)
      | none => .error .panicked
  | plan => .ok plan

/-! ### All steps -/

/-- `transform_down`, for this many levels. -/
def transformDown (step : Plan A → Except DataFusionError (Plan A)) :
    Nat → Plan A → Except DataFusionError (Plan A)
  | 0, _ => .error .tooDeep
  | levels + 1, plan => do
    let plan ← step plan
    let inputs ← plan.inputs.mapM (transformDown step levels)
    return plan.withInputs inputs

/-! ### The refresh strategy -/

namespace Plan

mutual

/-- Whether a condition holds of some node. -/
def existsNode (condition : Plan A → Bool) : Plan A → Bool
  | projection expr input => condition (projection expr input) || input.existsNode condition
  | filter predicate input => condition (filter predicate input) || input.existsNode condition
  | join left right node =>
    condition (join left right node) || left.existsNode condition || right.existsNode condition
  | union inputs schema => condition (union inputs schema) || existsNodes condition inputs
  | aggregate input groupExpr aggrExpr schema =>
    condition (aggregate input groupExpr aggrExpr schema) || input.existsNode condition
  | subqueryAlias input name => condition (subqueryAlias input name) || input.existsNode condition
  | tableScan name source schema => condition (tableScan name source schema)
  | sort expr input => condition (sort expr input) || input.existsNode condition
  | distinct input => condition (distinct input) || input.existsNode condition
  | posDelta input aliases => condition (posDelta input aliases) || input.existsNode condition
  | negDelta input aliases => condition (negDelta input aliases) || input.existsNode condition
  | fork input => condition (fork input) || input.existsNode condition

def existsNodes (condition : Plan A → Bool) : List (Plan A) → Bool
  | [] => false
  | plan :: rest => plan.existsNode condition || existsNodes condition rest

end

/-- The nodes for which not all of the query has to be executed again. -/
def isIncremental : Plan A → Bool
  | projection _ _ => true
  | filter _ _ => true
  | join _ _ _ => true
  | union _ _ => true
  | aggregate _ _ _ _ => true
  | sort _ _ => true
  | tableScan _ _ _ => true
  | subqueryAlias _ _ => true
  | _ => false

def isSort : Plan A → Bool
  | sort _ _ => true
  | _ => false

end Plan

/-- `determine_refresh_strategy`. -/
def determineRefreshStrategy (plan : Plan A) : RefreshStrategy :=
  if plan.existsNode (!·.isIncremental) then .fullOverwrite
  else if plan.existsNode (·.isSort) then .incrementalOverwrite
  else .incrementalAppend

end IcebergRust.DeltaQueries
