import IcebergRust.View.Commit

/-!
# View operations and transactions

`iceberg-rust/src/view/transaction`: what an operation reads from the metadata of a view,
requires of it and changes in it.

* All operations of a transaction read the same metadata, so all of them draw the same ids
  from it (`nextVersionId`, `nextSchemaId`).
* `Transaction.prepare` is `commit` up to the request to the catalog.
-/

namespace IcebergRust.View

variable {T : Type}

inductive Operation where
  | updateRepresentations (representations : List ViewRepresentation) (schema : StructType)
      (branch : Option String)
  | updateProperties (entries : List (String × String))

/-- `upsert_representation`: a representation takes the place of those of its dialect. -/
def upsertRepresentation (current : List ViewRepresentation) (new : ViewRepresentation) :
    List ViewRepresentation :=
  if current.any fun representation => representation.dialect = new.dialect then
    current.map fun representation =>
      if representation.dialect = new.dialect then new else representation
  else current ++ [new]

/-- `upsert_representations`. -/
def upsertRepresentations (current new : List ViewRepresentation) : List ViewRepresentation :=
  new.foldl upsertRepresentation current

/-- The largest key of a map of numbered objects, zero where it is empty. -/
def maxKey {β : Type} (map : HashMap Int β) : Int := map.keys.max?.getD 0

/-- The id an operation gives to the version it adds. -/
def nextVersionId (metadata : GeneralViewMetadata T) : Int := wrapI64 (maxKey metadata.versions + 1)

/-- The id an operation gives to the schema it adds. -/
def nextSchemaId (metadata : GeneralViewMetadata T) : Int := wrapI32 (maxKey metadata.schemas + 1)

/-- Whether the schema of an update differs from that of the branch, or the branch has none. -/
def schemaChanged (metadata : GeneralViewMetadata T) (branch : Option String)
    (schema : StructType) : Bool :=
  match metadata.currentSchema branch with
  | .ok current => schema ≠ current.fields
  | .error _ => true

/-- The schema id of an added version. -/
def versionSchemaId (metadata : GeneralViewMetadata T) (branch : Option String)
    (schema : StructType) : Except Error Int :=
  if schemaChanged metadata branch schema then .ok (nextSchemaId metadata)
  else (metadata.currentSchema branch).map (·.schemaId)

/-- `Operation::execute` at wall-clock time `now`. -/
def Operation.execute (metadata : GeneralViewMetadata T) (now : Int) :
    Operation → Except Error (Option ViewRequirement × List (ViewUpdate T))
  | .updateRepresentations representations schema branch => do
    let version ← metadata.currentVersion branch
    let versionId := nextVersionId metadata
    let schemaId ← versionSchemaId metadata branch schema
    let lastColumnId := (schema.fields.map (·.maxFieldId)).max?.getD 0
    let added : Version T := {
      versionId
      schemaId
      summary := ⟨.replace, none, none⟩
      representations := upsertRepresentations version.representations representations
      defaultCatalog := version.defaultCatalog
      defaultNamespace := version.defaultNamespace
      timestampMs := now
      storageTable := version.storageTable }
    let branchName := branch.getD "main"
    let schemaUpdates : List (ViewUpdate T) :=
      if schemaChanged metadata branch schema then
        [.addSchema ⟨schemaId, none, schema⟩ (some lastColumnId)]
      else []
    .ok (some (.assertViewUuid metadata.viewUuid), schemaUpdates ++
      [.addViewVersion added, .setCurrentViewVersion versionId,
        .setProperties (HashMap.fromIter [(refPrefix ++ branchName, toString versionId)])])
  | .updateProperties entries => .ok (none, [.setProperties (HashMap.fromIter entries)])

/-- `Transaction`: the operations carry its branch. -/
structure Transaction where
  operations : List Operation
  branch : Option String
  onBranch : ∀ representations schema branch',
    .updateRepresentations representations schema branch' ∈ operations → branch' = branch

namespace Transaction

/-- `Transaction::new`. -/
def new (branch : Option String) : Transaction := ⟨[], branch, by simp⟩

/-- `update_representations`. -/
def updateRepresentations (transaction : Transaction) (representations : List ViewRepresentation)
    (schema : StructType) : Transaction where
  operations := transaction.operations ++
    [.updateRepresentations representations schema transaction.branch]
  branch := transaction.branch
  onBranch := by
    intro representations' schema' branch' member
    rcases List.mem_append.mp member with earlier | last
    · exact transaction.onBranch _ _ _ earlier
    · cases List.mem_singleton.mp last
      rfl

/-- `update_properties`. -/
def updateProperties (transaction : Transaction) (entries : List (String × String)) :
    Transaction where
  operations := transaction.operations ++ [.updateProperties entries]
  branch := transaction.branch
  onBranch := by
    intro representations' schema' branch' member
    rcases List.mem_append.mp member with earlier | last
    · exact transaction.onBranch _ _ _ earlier
    · cases List.mem_singleton.mp last

/-- The name of the branch the transaction updates. -/
def branchName (transaction : Transaction) : String := transaction.branch.getD "main"

/-- `commit` up to the request to the catalog.  `clock` is the time each operation reads. -/
def prepare (transaction : Transaction) (metadata : GeneralViewMetadata T) (identifier : String)
    (clock : Nat → Int) : Except Error (CommitView T) := do
  let executed ← transaction.operations.zipIdx.mapM fun (operation, place) =>
    operation.execute metadata (clock place)
  .ok ⟨identifier, executed.filterMap (·.1), executed.flatMap (·.2)⟩

end Transaction

end IcebergRust.View
