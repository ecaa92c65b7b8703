import IcebergRust.Lib.Bag
import Mathlib.Algebra.Group.Hom.Defs
import Mathlib.Algebra.BigOperators.Group.Multiset.Basic
import Mathlib.Data.Multiset.Lattice
import Mathlib.Order.WithBot

/-!
# Logical plans

The parts of a DataFusion plan that the delta queries of a materialized view read and build, and
the rows a plan stands for.

* A `Row` is a list of cells, in the order of the columns of a schema, and the rows of a plan are
  counted.
* Expressions refer to columns by name. An unqualified name is ambiguous when more than one column
  has it (`resolvesColumn`); a plan with a column that is not found cannot be planned
  (`Plan.resolves`), whatever its rows are.
* Values are those of any type with a sum, an order and truth values.  Scalar expressions other
  than those the delta queries build are functions of the columns they refer to.
* The SQL planner leaves the projection, the filters and the fetch of a scan empty.
-/

namespace IcebergRust.DeltaQueries

/-! ### Columns -/

abbrev TableReference := String

structure Column where
  relation : Option TableReference
  name : String
deriving DecidableEq, Repr

/-- Whether a column expression refers to a field. -/
def Column.refersTo (column field : Column) : Bool :=
  match column.relation with
  | some relation => field.relation == some relation && field.name == column.name
  | none => field.name == column.name

/-- `Column::flat_name`. -/
def Column.flatName (column : Column) : String :=
  match column.relation with
  | some relation => relation ++ "." ++ column.name
  | none => column.name

/-- `index_of_column`: the first field that is referred to. -/
def indexOfColumn (schema : List Column) (column : Column) : Option Nat :=
  schema.findIdx? column.refersTo

/-- `field_from_column`: an unqualified name is that of one field, or of one unqualified field. -/
def resolvesColumn (schema : List Column) (column : Column) : Bool :=
  match column.relation with
  | some _ => (indexOfColumn schema column).isSome
  | none =>
    schema.countP column.refersTo == 1 ||
      (schema.filter column.refersTo).countP (·.relation == none) == 1

/-! ### Values and expressions -/

/-- The values of cells that are not null, with exact sums. -/
class Scalar (A : Type) extends AddCancelCommMonoid A, LinearOrder A where
  truth : A → Bool
  ofBool : Bool → A
  truth_ofBool : ∀ b, truth (ofBool b) = b
  /-- A number of rows. -/
  count : ℕ →+ A
  count_injective : Function.Injective count

abbrev Row (A : Type) := List (Option A)

inductive Operator where
  | plus
  | lt
  | gt
deriving DecidableEq, Repr

def Operator.text : Operator → String
  | .plus => "+"
  | .lt => "<"
  | .gt => ">"

inductive Expr (A : Type) where
  | column (column : Column)
  /-- With the text that is printed for it. -/
  | literal (text : String) (value : Option A)
  | aliased (expr : Expr A) (relation : Option TableReference) (name : String)
  | binaryExpr (left : Expr A) (op : Operator) (right : Expr A)
  /-- `CASE expr WHEN true THEN onTrue WHEN false THEN onFalse END`. -/
  | caseBoolean (expr onTrue onFalse : Expr A)
  | aggregateFunction (func : String) (distinct : Bool) (arg : Expr A)
  /-- Any other expression, with its text. -/
  | scalar (text : String) (columns : List Column) (compute : List (Option A) → Option A)

variable {A : Type}

namespace Expr

/-- `schema_name`, which `name_for_alias` returns. -/
def schemaName : Expr A → String
  | column c => c.flatName
  | literal text _ => text
  | aliased _ (some relation) name => relation ++ "." ++ name
  | aliased _ none name => name
  | binaryExpr left op right => left.schemaName ++ " " ++ op.text ++ " " ++ right.schemaName
  | caseBoolean expr onTrue onFalse =>
    "CASE " ++ expr.schemaName ++ " WHEN Boolean(true) THEN " ++ onTrue.schemaName ++
      " WHEN Boolean(false) THEN " ++ onFalse.schemaName ++ " END"
  | aggregateFunction func distinct arg =>
    func ++ "(" ++ (if distinct then "DISTINCT " else "") ++ arg.schemaName ++ ")"
  | scalar text _ _ => text

/-- `qualified_name`: the field an expression has in a projection. -/
def toColumn : Expr A → Column
  | column c => c
  | aliased _ relation name => ⟨relation, name⟩
  | expr => ⟨none, expr.schemaName⟩

/-- Whether all columns of an expression are found. -/
def resolves (schema : List Column) : Expr A → Bool
  | column c => resolvesColumn schema c
  | literal _ _ => true
  | aliased expr _ _ => expr.resolves schema
  | binaryExpr left _ right => left.resolves schema && right.resolves schema
  | caseBoolean expr onTrue onFalse =>
    expr.resolves schema && onTrue.resolves schema && onFalse.resolves schema
  | aggregateFunction _ _ arg => arg.resolves schema
  | scalar _ columns _ => columns.all (resolvesColumn schema)

end Expr

/-- The cell of a column. -/
def cell (schema : List Column) (row : Row A) (column : Column) : Option A :=
  ((indexOfColumn schema column).bind (row[·]?)).join

section Values

variable [Scalar A]

/-- Whether a condition is true, and not false or null. -/
def holds (value : Option A) : Bool := value.any Scalar.truth

def Operator.apply : Operator → A → A → A
  | .plus, x, y => x + y
  | .lt, x, y => Scalar.ofBool (decide (x < y))
  | .gt, x, y => Scalar.ofBool (decide (y < x))

/-- The value of an expression.  Aggregate functions have one in `aggregated` only. -/
def Expr.eval (schema : List Column) (row : Row A) : Expr A → Option A
  | column c => cell schema row c
  | literal _ value => value
  | aliased expr _ _ => expr.eval schema row
  | binaryExpr left op right =>
    (left.eval schema row).bind fun x => (right.eval schema row).map (op.apply x)
  | caseBoolean expr onTrue onFalse =>
    (expr.eval schema row).bind fun x =>
      if Scalar.truth x then onTrue.eval schema row else onFalse.eval schema row
  | aggregateFunction _ _ _ => none
  | scalar _ columns compute => compute (columns.map (cell schema row))

/-- The arguments an aggregate function looks at. -/
def aggregatedValues (distinct : Bool) (values : Multiset (Option A)) : Multiset A :=
  if distinct then (values.filterMap id).dedup else values.filterMap id

/-- The value of an aggregate function over a group. -/
def aggregated (func : String) (distinct : Bool) (values : Multiset (Option A)) : Option A :=
  let present := aggregatedValues distinct values
  match func with
  | "count" => some (Scalar.count present.card)
  | "sum" => if present.card = 0 then none else some present.sum
  | "min" => (present.map ((↑) : A → WithTop A)).inf
  | "max" => (present.map ((↑) : A → WithBot A)).sup
  | _ => none

end Values

/-! ### Plans -/

inductive JoinType where
  | inner
  | left
  | right
  | full
  | leftSemi
  | rightSemi
  | leftAnti
  | rightAnti
  | leftMark
  | rightMark
deriving DecidableEq, Repr

inductive JoinConstraint where
  | onExpressions
  | usingColumns
deriving DecidableEq, Repr

inductive NullEquality where
  | nullEqualsNothing
  | nullEqualsNull
deriving DecidableEq, Repr

/-- What a join has besides its sides. -/
structure JoinNode (A : Type) where
  on : List (Expr A × Expr A)
  filter : Option (Expr A)
  joinType : JoinType
  joinConstraint : JoinConstraint
  nullEquality : NullEquality
  nullAware : Bool
  schema : List Column

/-- `LogicalPlan`, with the extension nodes of the delta queries. -/
inductive Plan (A : Type) where
  | projection (expr : List (Expr A)) (input : Plan A)
  | filter (predicate : Expr A) (input : Plan A)
  | join (left right : Plan A) (node : JoinNode A)
  | union (inputs : List (Plan A)) (schema : List Column)
  | aggregate (input : Plan A) (groupExpr aggrExpr : List (Expr A)) (schema : List Column)
  | subqueryAlias (input : Plan A) (name : TableReference)
  /-- With the rows of the table provider. -/
  | tableScan (tableName : TableReference) (source : Multiset (Row A)) (schema : List Column)
  | sort (expr : List (Expr A)) (input : Plan A)
  | distinct (input : Plan A)
  | posDelta (input : Plan A) (aliases : List (String × String))
  | negDelta (input : Plan A) (aliases : List (String × String))
  | fork (input : Plan A)

/-- `build_join_schema`. -/
def buildJoinSchema (left right : List Column) : JoinType → List Column
  | .inner => left ++ right
  | .left => left ++ right
  | .right => left ++ right
  | .full => left ++ right
  | .leftSemi => left
  | .leftAnti => left
  | .rightSemi => right
  | .rightAnti => right
  | .leftMark => left ++ [⟨none, "mark"⟩]
  | .rightMark => right ++ [⟨none, "mark"⟩]

namespace Plan

def isJoin : Plan A → Bool
  | join _ _ _ => true
  | _ => false

def schema : Plan A → List Column
  | projection expr _ => expr.map Expr.toColumn
  | filter _ input => input.schema
  | join _ _ node => node.schema
  | union _ schema => schema
  | aggregate _ _ _ schema => schema
  | subqueryAlias input name => input.schema.map fun field => ⟨some name, field.name⟩
  | tableScan _ _ schema => schema
  | sort _ input => input.schema
  | distinct input => input.schema
  | posDelta input _ => input.schema
  | negDelta input _ => input.schema
  | fork input => input.schema

/-- `LogicalPlan::inputs`. -/
def inputs : Plan A → List (Plan A)
  | projection _ input => [input]
  | filter _ input => [input]
  | join left right _ => [left, right]
  | union inputs _ => inputs
  | aggregate input _ _ _ => [input]
  | subqueryAlias input _ => [input]
  | tableScan _ _ _ => []
  | sort _ input => [input]
  | distinct input => [input]
  | posDelta input _ => [input]
  | negDelta input _ => [input]
  | fork input => [input]

/-- The plan over other inputs, as `map_children` leaves it. -/
def withInputs : Plan A → List (Plan A) → Plan A
  | projection expr _, [input] => projection expr input
  | filter predicate _, [input] => filter predicate input
  | join _ _ node, [left, right] => join left right node
  | union _ schema, inputs => union inputs schema
  | aggregate _ groupExpr aggrExpr schema, [input] => aggregate input groupExpr aggrExpr schema
  | subqueryAlias _ name, [input] => subqueryAlias input name
  | sort expr _, [input] => sort expr input
  | distinct _, [input] => distinct input
  | posDelta _ _, [input] => posDelta input []
  | negDelta _ _, [input] => negDelta input []
  | fork _, [input] => fork input
  | plan, _ => plan

mutual

/-- Whether the columns of all expressions are found.  There are no physical plans for deltas. -/
def resolves : Plan A → Bool
  | projection expr input => expr.all (·.resolves input.schema) && input.resolves
  | filter predicate input => predicate.resolves input.schema && input.resolves
  | join left right node =>
    node.on.all (fun pair => pair.1.resolves left.schema && pair.2.resolves right.schema) &&
      node.filter.all (·.resolves (left.schema ++ right.schema)) && left.resolves &&
        right.resolves
  | union inputs _ => resolvesAll inputs
  | aggregate input groupExpr aggrExpr _ =>
    (groupExpr ++ aggrExpr).all (·.resolves input.schema) && input.resolves
  | subqueryAlias input _ => input.resolves
  | tableScan _ _ _ => true
  | sort expr input => expr.all (·.resolves input.schema) && input.resolves
  | distinct input => input.resolves
  | posDelta _ _ => false
  | negDelta _ _ => false
  | fork input => input.resolves

def resolvesAll : List (Plan A) → Bool
  | [] => true
  | plan :: rest => plan.resolves && resolvesAll rest

end

end Plan

/-! ### The rows of a plan -/

section Rows

variable [Scalar A]

/-- Whether two keys are equal, as the null equality of a join has it. -/
def sameKey : NullEquality → Option A → Option A → Bool
  | .nullEqualsNull, x, y => x == y
  | .nullEqualsNothing, some x, some y => x == y
  | .nullEqualsNothing, _, _ => false

namespace JoinNode

variable (node : JoinNode A) (left right : List Column)

/-- Whether two rows of sides with these schemas match. -/
def isMatch (x y : Row A) : Bool :=
  node.on.all (fun pair => sameKey node.nullEquality (pair.1.eval left x) (pair.2.eval right y)) &&
    node.filter.all fun condition => holds (condition.eval (left ++ right) (x ++ y))

/-- A row of nulls. -/
def nulls (schema : List Column) : Row A := List.replicate schema.length none

/-- `NOT IN`: a null key on either side is no answer. -/
def notIn (rows others : Multiset (Row A)) : Multiset (Row A) :=
  if others.card = 0 then rows
  else if others.countP (fun y => node.on.any fun pair => (pair.2.eval right y).isNone) = 0 then
    (Bag.unmatched (node.isMatch left right) rows others).filter fun x =>
      node.on.all fun pair => (pair.1.eval left x).isSome
  else 0

/-- The rows of a join. -/
def rows (rows others : Multiset (Row A)) : Multiset (Row A) :=
  let isMatch := node.isMatch left right
  let isMatched := fun y x => isMatch x y
  let pairs := Bag.join isMatch (· ++ ·) rows others
  match node.joinType with
  | .inner => pairs
  | .left => pairs + (Bag.unmatched isMatch rows others).map (· ++ nulls right)
  | .right => pairs + (Bag.unmatched isMatched others rows).map (nulls left ++ ·)
  | .full =>
    pairs + (Bag.unmatched isMatch rows others).map (· ++ nulls right) +
      (Bag.unmatched isMatched others rows).map (nulls left ++ ·)
  | .leftSemi => Bag.matched isMatch rows others
  | .rightSemi => Bag.matched isMatched others rows
  | .leftAnti => if node.nullAware then node.notIn left right rows others
    else Bag.unmatched isMatch rows others
  | .rightAnti => Bag.unmatched isMatched others rows
  | .leftMark => rows.map fun x => x ++ [some (Scalar.ofBool (Bag.hasMatch isMatch others x))]
  | .rightMark => others.map fun y => y ++ [some (Scalar.ofBool (Bag.hasMatch isMatched rows y))]

end JoinNode

/-- An aggregate expression over a group of rows. -/
def Expr.overGroup (schema : List Column) (group : Multiset (Row A)) : Expr A → Option A
  | aggregateFunction func distinct arg =>
    aggregated func distinct (group.map fun row => arg.eval schema row)
  | _ => none

/-- The key of a row. -/
def groupKey (schema : List Column) (groupExpr : List (Expr A)) (row : Row A) : Row A :=
  groupExpr.map (·.eval schema row)

/-- The row of a group. -/
def groupRow (schema : List Column) (groupExpr aggrExpr : List (Expr A))
    (rows : Multiset (Row A)) (key : Row A) : Row A :=
  key ++ aggrExpr.map
    (·.overGroup schema (rows.filter fun row => groupKey schema groupExpr row = key))

/-- A row for each group; without group expressions there is one group, also of no rows. -/
def aggregateRows (schema : List Column) (groupExpr aggrExpr : List (Expr A))
    (rows : Multiset (Row A)) : Multiset (Row A) :=
  if groupExpr.isEmpty then {groupRow schema groupExpr aggrExpr rows []}
  else ((rows.map (groupKey schema groupExpr)).dedup).map (groupRow schema groupExpr aggrExpr rows)

namespace Plan

mutual

/-- The rows of a plan. -/
def eval : Plan A → Multiset (Row A)
  | projection expr input => input.eval.map fun row => expr.map (·.eval input.schema row)
  | filter predicate input =>
    input.eval.filter fun row => holds (predicate.eval input.schema row) = true
  | join left right node => node.rows left.schema right.schema left.eval right.eval
  | union inputs _ => evalAll inputs
  | aggregate input groupExpr aggrExpr _ => aggregateRows input.schema groupExpr aggrExpr input.eval
  | subqueryAlias input _ => input.eval
  | tableScan _ source _ => source
  | sort _ input => input.eval
  | distinct input => input.eval.dedup
  | posDelta _ _ => 0
  | negDelta _ _ => 0
  | fork input => input.eval

def evalAll : List (Plan A) → Multiset (Row A)
  | [] => 0
  | plan :: rest => plan.eval + evalAll rest

end

end Plan

end Rows

end IcebergRust.DeltaQueries
