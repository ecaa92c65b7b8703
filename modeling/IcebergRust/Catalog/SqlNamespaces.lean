import IcebergRust.Lib.Interleaving
import IcebergRust.Spec.Identifier
import Mathlib.Logic.Function.Basic

/-!
# Namespaces in the SQL catalog

The two tables that `iceberg-sql-catalog/src/lib.rs` keeps namespaces in, for one catalog name, and
the statements and transactions on them. Any number of instances run them; a transaction is one
step, since it is serializable.

* A namespace has a row in `iceberg_namespaces`, or, if an older version has created it, only rows
  in `iceberg_namespace_properties`.
* An older version also has used the property `exists` as a marker of presence, and a flag beside
  the name of a namespace says whether it still is one.
-/

namespace IcebergRust.SqlNamespaces

/-- `iceberg_namespaces` is the flag by namespace, `iceberg_namespace_properties` the rows by
namespace. -/
structure Database where
  namespaces : String → Option String
  properties : String → HashMap String String

/-- What an operation returns. -/
inductive Answer (P : Type) where
  | properties (content : P)
  | done
  | present (there : Bool)
  | failed (error : Error)
  /-- The database refuses a statement. -/
  | external

def Answer.map {P Q : Type} (f : P → Q) : Answer P → Answer Q
  | .properties content => .properties (f content)
  | .done => .done
  | .present there => .present there
  | .failed error => .failed error
  | .external => .external

inductive NamespaceState where
  | current
  | legacy
  | missing
deriving DecidableEq

namespace Database

variable (database : Database) (name : String)

/-- `lock_namespace_for_mutation`. -/
def lockNamespaceForMutation : NamespaceState :=
  if (database.namespaces name).isSome then .current
  else if (database.properties name).keys.isEmpty then .missing
  else .legacy

/-- `namespace_exists`. -/
def namespaceExists : Bool :=
  (database.namespaces name).isSome || !(database.properties name).keys.isEmpty

/-- `load_namespace`: the property `exists` is left out unless the flag says it is none. -/
def loadNamespace : HashMap String String :=
  if database.namespaces name = some "0" then database.properties name
  else (database.properties name).erase "exists"

/-- The transaction of `create_namespace`. -/
def insertNamespace (properties : HashMap String String) :
    Answer (HashMap String String) × Database :=
  if (database.namespaces name).isSome then (.failed (.commitConflict name), database)
  else if properties.keys.any fun key => key ∈ (database.properties name).keys then
    (.external, database)
  else (.properties properties,
    { namespaces := Function.update database.namespaces name (some "0")
      properties := Function.update database.properties name
        ((database.properties name).extend properties.iter) })

/-- `drop_namespace`. -/
def dropNamespace : Answer (HashMap String String) × Database :=
  match database.lockNamespaceForMutation name with
  | .missing => (.done, database)
  | _ => (.done,
    { namespaces := Function.update database.namespaces name none
      properties := Function.update database.properties name ∅ })

/-- The row of a namespace that has none yet. -/
def promote : Option String :=
  if "exists" ∈ (database.properties name).keys then some "1" else some "0"

/-- The properties of an update: all removals come first. -/
def rewritten (updates : HashMap String String) (removals : List String) : HashMap String String :=
  updates.iter.foldl (fun rows entry => (rows.erase entry.1).insert entry.1 entry.2)
    (removals.foldl (fun rows key => rows.erase key) (database.properties name))

/-- `update_namespace`. -/
def updateNamespace (updates : HashMap String String) (removals : List String) :
    Answer (HashMap String String) × Database :=
  let touchesExists := "exists" ∈ removals ∨ "exists" ∈ updates.keys
  let write (flag : Option String) : Answer (HashMap String String) × Database :=
    (.done,
      { namespaces := Function.update database.namespaces name
          (if touchesExists then some "0" else flag)
        properties := Function.update database.properties name
          (database.rewritten name updates removals) })
  match database.lockNamespaceForMutation name with
  | .current => write (database.namespaces name)
  | .legacy => write (database.promote name)
  | .missing => (.failed .catalogNotFound, database)

end Database

/-! ### Calls -/

inductive Request where
  | createNamespace (ns : Namespace) (properties : HashMap String String)
  | dropNamespace (ns : Namespace)
  | loadNamespace (ns : Namespace)
  | updateNamespace (ns : Namespace) (updates : HashMap String String) (removals : List String)
  | namespaceExists (ns : Namespace)

def Request.ns : Request → Namespace
  | .createNamespace ns _ => ns
  | .dropNamespace ns => ns
  | .loadNamespace ns => ns
  | .updateNamespace ns _ _ => ns
  | .namespaceExists ns => ns

/-- An operation that has been answered, with whether its namespace was there just before. -/
structure Answered where
  request : Request
  answer : Answer (HashMap String String)
  found : Bool

/-- What the instances share. The answered operations are listed newest first. -/
structure Shared where
  database : Database
  answered : List Answered

/-- `create_namespace` has found no namespace of the name. -/
inductive Call where
  | checked (ns : Namespace) (properties : HashMap String String)

/-- An operation takes effect, and is answered. -/
def Shared.answer (shared : Shared) (request : Request)
    (performed : Answer (HashMap String String) × Database) : Shared where
  database := performed.2
  answered := ⟨request, performed.1, shared.database.namespaceExists request.ns.display⟩ ::
    shared.answered

/-- An operation up to its first pause. -/
def begin (request : Request) (shared : Shared) : Shared × Option Call :=
  let name := request.ns.display
  let database := shared.database
  match request with
  | .createNamespace ns properties =>
    if database.namespaceExists name then
      (shared.answer request (.failed (.commitConflict name), database), none)
    else (shared, some (.checked ns properties))
  | .dropNamespace _ => (shared.answer request (database.dropNamespace name), none)
  | .loadNamespace _ =>
    (shared.answer request (.properties (database.loadNamespace name), database), none)
  | .updateNamespace _ updates removals =>
    (shared.answer request (database.updateNamespace name updates removals), none)
  | .namespaceExists _ =>
    (shared.answer request (.present (database.namespaceExists name), database), none)

/-- The transaction of a creation. -/
def advance (call : Call) (shared : Shared) : Shared × Option Call :=
  match call with
  | .checked ns properties =>
    (shared.answer (.createNamespace ns properties)
      (shared.database.insertNamespace ns.display properties), none)

def system : Interleaving.System Shared Call Request Unit := ⟨begin, fun _ => advance⟩

abbrev Event := Interleaving.Event Request Unit

/-- A run of any number of instances on a database with any content. -/
def runNamespaces (initial : Database) (events : List Event) : Interleaving.State Shared Call :=
  Interleaving.run system ⟨⟨initial, []⟩, []⟩ events

end IcebergRust.SqlNamespaces
