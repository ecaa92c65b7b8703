import IcebergRust.Table.PromotedBounds
import IcebergRust.Table.Rectangle
import IcebergRust.Table.Scan

/-!
# The bounds of a snapshot

`snapshot_partition_bounds`, `snapshot_partition_bounds_with_nulls` and `snapshot_column_bounds` of
`table/manifest_list.rs`: one rectangle for all manifests or all files of a snapshot.

* `summaries_enclose_iff` and `nulls_enclose_iff` are the two loops over manifests.
* `partitionBounds_enclose_iff` is the statement about partition tuples: a rectangle has no more
  columns than the first manifest, and manifests are compared position by position, whatever their
  specs.
* `columnBounds_enclose_iff` is the statement about columns.
-/

namespace IcebergRust

open Columnwise Fallible PartitionValue Rectangle

/-! ### The functions -/

section Functions

variable {V : Type} [PartitionValue V]

/-- What a loop goes on with. -/
def continueWith {σ : Type} (next : σ → Except Error σ) : ForInStep σ → Except Error σ
  | .done state => .ok state
  | .yield state => next state

/-- A loop over a `ManifestListReader`: a row is decoded when the loop comes to it. -/
def readRows {σ : Type} (metadata : TableMetadata) (version : FormatVersion)
    (step : σ → ManifestListEntry V → Except Error (ForInStep σ)) :
    ManifestListEntryDecoder → σ → List (ManifestListEntry V) → Except Error σ
  | _, state, [] => .ok state
  | decoder, state, row :: rows => do
    let (next, entry) ← decoder.decode metadata row version
    let stepped ← step state entry
    continueWith (fun state => readRows metadata version step next state rows) stepped

/-- A loop over the list of a snapshot, opened with the schema of the snapshot. -/
def overManifests {σ : Type} (snapshot : Snapshot) (metadata : TableMetadata) (store : Store V)
    (step : σ → ManifestListEntry V → Except Error (ForInStep σ)) (start : σ) : Except Error σ := do
  let file ← store.getManifestList snapshot.manifestList
  let schema ← metadata.schema snapshot.snapshotId
  readRows metadata (manifestListFormatVersion file.formatVersion metadata.formatVersion) step
    (.withSchema schema) start file.rows

/-- The closure of `snapshot_partition_bounds`. -/
def expandBySummaries (bounds : Option (Rectangle V)) (entry : ManifestListEntry V) :
    Except Error (Option (Rectangle V)) :=
  match entry.partitions with
  | none => .ok bounds
  | some partitions =>
    match bounds with
    | none => .ok (some (summaryToRectangle partitions))
    | some bounds => (bounds.expand (summaryToRectangle partitions)).map some

/-- `snapshot_partition_bounds`. -/
def snapshotPartitionBounds (snapshot : Snapshot) (metadata : TableMetadata) (store : Store V) :
    Except Error (Option (Rectangle V)) :=
  overManifests snapshot metadata store
    (fun bounds entry => (expandBySummaries bounds entry).map .yield) none

structure PartitionBoundsWithNulls (V : Type) where
  bounds : Rectangle V
  containsNull : List Bool
deriving DecidableEq

/-- The body of the loop of `snapshot_partition_bounds_with_nulls`. -/
def expandWithNulls (metadata : TableMetadata) (result : Option (PartitionBoundsWithNulls V))
    (entry : ManifestListEntry V) :
    Except Error (ForInStep (Option (PartitionBoundsWithNulls V))) :=
  if entry.partitionSpecId ≠ metadata.defaultSpecId then .ok (.done none)
  else match entry.partitions with
    | none => .ok (.done none)
    | some partitions =>
      let bounds := summaryToRectangle partitions
      match result with
      | none => .ok (.yield (some ⟨bounds, partitions.map (·.containsNull)⟩))
      | some result =>
        if result.containsNull.length ≠ partitions.length then .ok (.done none)
        else do
          let expanded ← result.bounds.expand bounds
          .ok (.yield (some ⟨expanded,
            List.zipWith (fun null summary => null || summary.containsNull) result.containsNull
              partitions⟩))

/-- `snapshot_partition_bounds_with_nulls`. -/
def snapshotPartitionBoundsWithNulls (snapshot : Snapshot) (metadata : TableMetadata)
    (store : Store V) : Except Error (Option (PartitionBoundsWithNulls V)) :=
  overManifests snapshot metadata store (expandWithNulls metadata) none

/-- `Type::Primitive`. -/
def IcebergType.isPrimitive : IcebergType → Bool
  | .primitive _ => true
  | _ => false

/-- `StructType::primitive_field_ids`. -/
def StructType.primitiveFieldIds (type : StructType) : List Int :=
  (((type.fields.map (·.id)).dedup).filter fun id =>
    (type.get id).any fun field => field.fieldType.isPrimitive).insertionSort (· ≤ ·)

/-- An assignment to an element of a vector. -/
def assign (values : List V) (i : Nat) (value : V) : Except Error (List V) :=
  if i < values.length then .ok (values.set i value)
  else .error (.panicked "index out of bounds")

/-- One column of `snapshot_column_bounds`. -/
def assignColumn (file : DataFile V) (bounds : Rectangle V) (column : Int × Nat) :
    Except Error (Rectangle V) :=
  match file.lowerBounds.bind (·.lookup column.1), file.upperBounds.bind (·.lookup column.1) with
  | some lower, some upper => do
    let min ← assign bounds.min column.2 lower
    let max ← assign bounds.max column.2 upper
    .ok ⟨min, max⟩
  | _, _ => .error (.notFound "column bounds")

/-- The rectangle of one file: `Vec4::with_capacity` makes vectors without elements. -/
def fileRectangle (ids : List Int) (file : DataFile V) : Except Error (Rectangle V) :=
  ids.zipIdx.foldlM (assignColumn file) ⟨[], []⟩

/-- The closure of `snapshot_column_bounds`. -/
def expandByFile (ids : List Int) (bounds : Option (Rectangle V))
    (entry : String × ManifestEntry V) : Except Error (Option (Rectangle V)) := do
  let rectangle ← fileRectangle ids entry.2.dataFile
  match bounds with
  | none => .ok (some rectangle)
  | some bounds => (bounds.expand rectangle).map some

/-- The schema of a snapshot, or the current one. -/
def schemaOrCurrent (metadata : TableMetadata) (snapshotId : Int) : Except Error Schema :=
  match metadata.schema snapshotId with
  | .ok schema => .ok schema
  | .error _ => metadata.currentSchema

/-- `snapshot_column_bounds`: the stream of data files comes manifest by manifest. -/
def snapshotColumnBounds (snapshot : Snapshot) (metadata : TableMetadata) (store : Store V) :
    Except Error (Option (Rectangle V)) := do
  let schema ← schemaOrCurrent metadata snapshot.snapshotId
  let rows ← readSnapshot snapshot metadata store
  rows.foldlM (fun bounds row => do
    let entries ← rangeEntries store (none, none) row
    entries.foldlM (expandByFile schema.fields.primitiveFieldIds) bounds) none

end Functions

/-! ### Loops over manifests -/

section Loops

variable {V : Type}

/-- A loop over rows that have been decoded. -/
def loop {σ : Type} (step : σ → ManifestListEntry V → Except Error (ForInStep σ)) :
    σ → List (ManifestListEntry V) → Except Error σ
  | state, [] => .ok state
  | state, entry :: entries => do
    let stepped ← step state entry
    continueWith (fun state => loop step state entries) stepped

/-- A loop without an early return is a fold. -/
theorem loop_yield {σ : Type} {step : σ → ManifestListEntry V → Except Error σ} (state : σ)
    (entries : List (ManifestListEntry V)) :
    loop (fun state entry => (step state entry).map .yield) state entries =
      entries.foldlM step state := by
  induction entries generalizing state with
  | nil => rfl
  | cons entry entries ih =>
    rw [loop, List.foldlM_cons]
    cases step state entry with
    | error error => rfl
    | ok next => exact ih next

variable [PartitionValue V] {metadata : TableMetadata} {rows : List (ManifestListEntry V)}

theorem readRows_eq {σ : Type} {version : FormatVersion}
    (step : σ → ManifestListEntry V → Except Error (ForInStep σ))
    {decoder : ManifestListEntryDecoder} {entries : List (ManifestListEntry V)}
    (decodes : decoder.decodeAll metadata version rows = .ok entries) (state : σ) :
    readRows metadata version step decoder state rows = loop step state entries := by
  induction rows generalizing decoder entries state with
  | nil =>
    cases decodes
    rfl
  | cons row rows ih =>
    obtain ⟨⟨next, entry⟩, here, decodes⟩ := bind_eq_ok.mp decodes
    obtain ⟨rest, later, same⟩ := bind_eq_ok.mp decodes
    cases same
    rw [readRows, here, ok_bind]
    dsimp only
    rw [loop]
    cases step state entry with
    | error error => rfl
    | ok stepped =>
      cases stepped with
      | done state => rfl
      | yield state => exact ih later state

theorem readSnapshot_eq_ok {snapshot : Snapshot} {store : Store V}
    (list : readSnapshot snapshot metadata store = .ok rows) :
    ∃ file schema, store.getManifestList snapshot.manifestList = .ok file ∧
      metadata.schema snapshot.snapshotId = .ok schema ∧
      (ManifestListEntryDecoder.withSchema schema).decodeAll metadata
        (manifestListFormatVersion file.formatVersion metadata.formatVersion) file.rows =
          .ok rows := by
  obtain ⟨file, found, schema, typing, decodes⟩ := by
    simpa only [readSnapshot, bind_eq_ok] using list
  exact ⟨file, schema, found, typing, decodes⟩

/-- A loop over the list of a snapshot that can be read. -/
theorem overManifests_eq {σ : Type} {snapshot : Snapshot} {store : Store V}
    (list : readSnapshot snapshot metadata store = .ok rows)
    (step : σ → ManifestListEntry V → Except Error (ForInStep σ)) (start : σ) :
    overManifests snapshot metadata store step start = loop step start rows := by
  obtain ⟨file, schema, found, typing, decodes⟩ := readSnapshot_eq_ok list
  rw [overManifests, found, ok_bind, typing, ok_bind]
  exact readRows_eq step decodes start

end Loops

/-! ### Partition tuples -/

section Tuples

/-- The partition fields of a spec whose type is known under a schema. -/
def typedFields (metadata : TableMetadata) (schema : Schema) (specId : Int) :
    Except Error (List (PartitionField × IcebergType)) :=
  match metadata.partitionSpecs.lookup specId with
  | none => .error (.notFound ("Partition spec with id " ++ toString specId))
  | some spec => .ok ((spec.fields.zip (spec.dataTypesLenient schema.fields)).filterMap
      fun column => column.2.map (column.1, ·))

/-- The tuples of the live data files of a manifest, under the types of the schema of a snapshot. -/
def readTuples [ComparisonLibraries] (snapshot : Snapshot) (metadata : TableMetadata)
    (store : Store Value) (row : ManifestListEntry Value) : Except Error (List (Struct Value)) := do
  let schema ← metadata.schema snapshot.snapshotId
  let fields ← typedFields metadata schema row.partitionSpecId
  let entries ← manifestEntries store row
  (entries.filter fun entry => entry.live && entry.dataFile.content = .data).mapM fun entry =>
    fields.foldlM DataFile.promotePartitionField entry.dataFile.partition

/-- Those of a manifest that can be read. -/
def liveTuples [ComparisonLibraries] (snapshot : Snapshot) (metadata : TableMetadata)
    (store : Store Value) (row : ManifestListEntry Value) : List (Struct Value) :=
  (readTuples snapshot metadata store row).toOption.getD []

/-- The live tuples of the manifests of the default spec are as their summaries say. -/
def Described (metadata : TableMetadata) (spec : PartitionSpec)
    (rows : List (ManifestListEntry Value))
    (live : ManifestListEntry Value → List (Struct Value)) : Prop :=
  ∀ row ∈ rows, row.partitionSpecId = metadata.defaultSpecId →
    ∀ summaries, row.partitions = some summaries →
      ∀ tuple ∈ live row, SummariesAdmit spec.fields summaries tuple

/-- A tuple lies in a rectangle in each of the fields the rectangle bounds. -/
def Rectangle.Encloses (bounds : Rectangle Value) (fields : List PartitionField)
    (tuple : Struct Value) : Prop :=
  ∀ (i : Nat) field, fields[i]? = some field →
    ∀ low high, bounds.min[i]? = some low → bounds.max[i]? = some high →
      ∃ cell, tuple.get field.name = some cell ∧
        ∀ value, cell = some value → (low.cmp value).isLE ∧ (value.cmp high).isLE

/-- The nulls of a tuple are reported. -/
def PartitionBoundsWithNulls.Reports (result : PartitionBoundsWithNulls Value)
    (fields : List PartitionField) (tuple : Struct Value) : Prop :=
  ∀ (i : Nat) field, fields[i]? = some field → tuple.get field.name = some none →
    result.containsNull[i]? = some true

/-- A cell that lies between a lower and an upper bound recorded at a position. -/
def Spanned (rectangles : List (Rectangle Value)) (i : Nat) (cell : Option (Option Value)) : Prop :=
  ∃ stored, cell = some stored ∧ ∀ value, stored = some value →
    (∃ rectangle ∈ rectangles, ∃ low, rectangle.min[i]? = some low ∧ (low.cmp value).isLE) ∧
    ∃ rectangle ∈ rectangles, ∃ high, rectangle.max[i]? = some high ∧ (value.cmp high).isLE

/-- A cell that the summaries at its position say nothing about: those of its manifest are missing
or of another spec, or it is a NaN. -/
def Stray (metadata : TableMetadata) (row : ManifestListEntry Value)
    (cell : Option (Option Value)) : Prop :=
  row.partitions = none ∨ row.partitionSpecId ≠ metadata.defaultSpecId ∨
    ∃ value, cell = some (some value) ∧ value.isNan = true

/-- When `snapshot_partition_bounds` is right: no manifest before the first one without bounds has
fewer columns than the first one, and where all have bounds the stray cells lie between them. -/
def SummariesFit (metadata : TableMetadata) (fields : List PartitionField)
    (rows : List (ManifestListEntry Value))
    (live : ManifestListEntry Value → List (Struct Value)) : Prop :=
  ∀ first ∈ (recorded rows).head?, Rectangle.Fits first.min.length (recorded rows) ∧
    ((recorded rows).all (·.bounded) = true → ∀ row ∈ rows, ∀ tuple ∈ live row,
      ∀ (i : Nat) field, i < first.min.length → fields[i]? = some field →
        Stray metadata row (tuple.get field.name) →
          Spanned (recorded rows) i (tuple.get field.name))

/-- When `snapshot_partition_bounds_with_nulls` is right: where it returns bounds, NaN lies between
them. -/
def NansFit (metadata : TableMetadata) (fields : List PartitionField)
    (rows : List (ManifestListEntry Value))
    (live : ManifestListEntry Value → List (Struct Value)) : Prop :=
  (∀ row ∈ rows, row.partitionSpecId = metadata.defaultSpecId ∧ row.partitions.isSome = true) →
    (recorded rows).all (·.bounded) = true → ∀ row ∈ rows, ∀ tuple ∈ live row,
      ∀ (i : Nat) field, fields[i]? = some field →
        ∀ value, tuple.get field.name = some (some value) → value.isNan = true →
          Spanned (recorded rows) i (tuple.get field.name)

variable {metadata : TableMetadata} {spec : PartitionSpec} {rows : List (ManifestListEntry Value)}
  {live : ManifestListEntry Value → List (Struct Value)}

namespace Rectangle

variable {bounds : Rectangle Value} {rectangles : List (Rectangle Value)}

theorem Hull.low_iff (hull : bounds.Hull rectangles) {i : Nat} {low : Value}
    (here : bounds.min[i]? = some low) (value : Value) :
    (low.cmp value).isLE ↔ ∃ rectangle ∈ rectangles, ∃ entry, rectangle.min[i]? = some entry ∧
      (entry.cmp value).isLE := by
  rw [hull.min.isLE_iff here value]
  simp only [List.mem_map, exists_exists_and_eq_and]

theorem Hull.high_iff (hull : bounds.Hull rectangles) {i : Nat} {high : Value}
    (here : bounds.max[i]? = some high) (value : Value) :
    (value.cmp high).isLE ↔ ∃ rectangle ∈ rectangles, ∃ entry, rectangle.max[i]? = some entry ∧
      (value.cmp entry).isLE := by
  have below := hull.max.isLE_iff here value
  simp only [List.mem_map, exists_exists_and_eq_and] at below
  exact below

/-- A hull encloses what lies between the bounds of its rectangles. -/
theorem Hull.encloses_iff (hull : bounds.Hull rectangles) {fields : List PartitionField}
    {tuple : Struct Value} :
    bounds.Encloses fields tuple ↔ ∀ (i : Nat) field, i < bounds.min.length →
      fields[i]? = some field → Spanned rectangles i (tuple.get field.name) := by
  have even : bounds.min.length = bounds.max.length := hull.even
  constructor
  · intro encloses i field inside here
    have low := List.getElem?_eq_getElem inside
    have high := List.getElem?_eq_getElem (even ▸ inside)
    obtain ⟨cell, found, between⟩ := encloses i field here _ _ low high
    refine ⟨cell, found, ?_⟩
    intro value same
    obtain ⟨below, above⟩ := between value same
    exact ⟨(hull.low_iff low value).mp below, (hull.high_iff high value).mp above⟩
  · intro spans i field here low high lower upper
    obtain ⟨inside, -⟩ := List.getElem?_eq_some_iff.mp lower
    obtain ⟨cell, found, between⟩ := spans i field inside here
    refine ⟨cell, found, ?_⟩
    intro value same
    obtain ⟨below, above⟩ := between value same
    exact ⟨(hull.low_iff lower value).mpr below, (hull.high_iff upper value).mpr above⟩

theorem encloses_unbounded {fields : List PartitionField} {tuple : Struct Value} :
    (unbounded : Rectangle Value).Encloses fields tuple := by
  intro i field here low high lower
  cases lower

end Rectangle

/-- A cell that is no stray lies between the bounds of its own manifest. -/
theorem spanned_of_described (described : Described metadata spec rows live)
    (bounded : (recorded rows).all (·.bounded) = true) {row : ManifestListEntry Value}
    (member : row ∈ rows) {tuple : Struct Value} (there : tuple ∈ live row) {i : Nat}
    {field : PartitionField} (here : spec.fields[i]? = some field)
    (known : ¬ Stray metadata row (tuple.get field.name)) :
    Spanned (recorded rows) i (tuple.get field.name) := by
  simp only [Stray, not_or, not_not] at known
  obtain ⟨some, own, number⟩ := known
  obtain ⟨summaries, summarized⟩ := Option.ne_none_iff_exists'.mp some
  have inside := mem_recorded member summarized
  obtain ⟨-, found⟩ := summaryToRectangle_spec (List.all_eq_true.mp bounded _ inside)
  have within := described row member own summaries summarized tuple there
  obtain ⟨summary, position, cell, stored, admits⟩ :=
    (Observation.forall₂_iff_getElem?.mp within).2 i field here
  obtain ⟨lower, upper, low, high, min, max⟩ := found i summary position
  refine ⟨cell, stored, ?_⟩
  intro value same
  have regular : value.isNan = false := by
    by_contra nan
    exact number ⟨value, same ▸ stored, by simpa using nan⟩
  exact ⟨⟨_, inside, lower, min, (admits.lower value same regular lower low).isLE⟩,
    ⟨_, inside, upper, max, (admits.upper value same regular upper high).isLE⟩⟩

theorem recorded_even : ∀ rectangle ∈ recorded rows, rectangle.Even := by
  intro rectangle member
  obtain ⟨row, -, same⟩ := List.mem_filterMap.mp member
  obtain ⟨summaries, -, rfl⟩ := Option.map_eq_some_iff.mp same
  exact summaryToRectangle_even summaries

theorem Rectangle.eq_unbounded {rectangle : Rectangle Value} (even : rectangle.Even)
    (empty : rectangle.bounded = false) : rectangle = .unbounded := by
  obtain ⟨min, max⟩ := rectangle
  simp only [bounded, Bool.not_eq_false', List.isEmpty_iff] at empty
  subst empty
  rw [Even, List.length_nil, eq_comm, List.length_eq_zero_iff] at even
  rw [show max = [] from even]
  rfl

variable [ComparisonLibraries]

theorem foldlM_expandBySummaries (bounds : Rectangle Value) :
    rows.foldlM expandBySummaries (some bounds) =
      ((recorded rows).foldlM expand bounds).map some := by
  induction rows generalizing bounds with
  | nil => rfl
  | cons row rows ih =>
    rw [List.foldlM_cons, expandBySummaries]
    cases summarized : row.partitions with
    | none =>
      have skipped : recorded (row :: rows) = recorded rows := by simp [recorded, summarized]
      rw [skipped]
      exact ih bounds
    | some summaries =>
      have kept : recorded (row :: rows) = summaryToRectangle summaries :: recorded rows := by
        simp [recorded, summarized]
      rw [kept, List.foldlM_cons]
      dsimp only
      cases bounds.expand (summaryToRectangle summaries) with
      | error error => rfl
      | ok next => exact ih next

theorem foldlM_expandBySummaries_none :
    rows.foldlM expandBySummaries none = match recorded rows with
      | [] => .ok none
      | first :: rest => (rest.foldlM expand first).map some := by
  induction rows with
  | nil => rfl
  | cons row rows ih =>
    rw [List.foldlM_cons, expandBySummaries]
    cases summarized : row.partitions with
    | none =>
      have skipped : recorded (row :: rows) = recorded rows := by simp [recorded, summarized]
      rw [skipped]
      exact ih
    | some summaries =>
      have kept : recorded (row :: rows) = summaryToRectangle summaries :: recorded rows := by
        simp [recorded, summarized]
      rw [kept]
      exact foldlM_expandBySummaries _

/-- The fold of `snapshot_partition_bounds`. -/
theorem summaries_enclose_iff (described : Described metadata spec rows live) :
    (¬ Panics (rows.foldlM expandBySummaries none) ∧
        ∀ bounds, rows.foldlM expandBySummaries none = .ok (some bounds) →
          ∀ row ∈ rows, ∀ tuple ∈ live row, bounds.Encloses spec.fields tuple) ↔
      SummariesFit metadata spec.fields rows live := by
  have even := @recorded_even rows
  have known := @spanned_of_described metadata spec rows live described
  unfold SummariesFit
  rw [foldlM_expandBySummaries_none]
  cases rectangles : recorded rows with
  | nil =>
    refine iff_of_true ⟨?_, fun _ result => nomatch result⟩ fun _ absent => nomatch absent
    rintro ⟨what, panics⟩
    cases panics
  | cons first rest =>
    dsimp only
    rw [rectangles] at even known
    have evens := fun other member => even other (List.mem_cons_of_mem first member)
    have only (holds : Rectangle Value → Prop) : (∀ other ∈ (first :: rest).head?, holds other) ↔
        holds first := by simp
    rw [only]
    cases own : first.bounded with
    | false =>
      obtain rfl := eq_unbounded (even first List.mem_cons_self) own
      rw [foldlM_expand_unbounded]
      refine iff_of_true ⟨?_, ?_⟩ ⟨fun _ absent => (nomatch absent), fun all => nomatch all⟩
      · rintro ⟨what, panics⟩
        cases panics
      · intro bounds result row _ tuple _
        cases result
        exact encloses_unbounded
    | true =>
      have fits : Rectangle.Fits first.min.length (first :: rest) ↔
          Rectangle.Fits first.min.length rest := by
        unfold Rectangle.Fits
        rw [List.takeWhile_cons_of_pos own, List.forall_mem_cons, and_iff_right (le_refl _)]
      have all : (first :: rest).all (·.bounded) = rest.all (·.bounded) := by simp [own]
      rw [fits, all]
      rw [all] at known
      rcases foldlM_expand (.single (even first List.mem_cons_self)) own evens with
        ⟨short, what, panics⟩ | ⟨long, open', absorbed⟩ | ⟨long, closed, final, folded, width, hull⟩
      · rw [panics]
        exact iff_of_false (fun sound => sound.1 ⟨what, rfl⟩) fun holds => short holds.1
      · rw [absorbed, open']
        refine iff_of_true ⟨?_, ?_⟩ ⟨long, fun absent => nomatch absent⟩
        · rintro ⟨what, panics⟩
          cases panics
        · intro bounds result row _ tuple _
          cases result
          exact encloses_unbounded
      · rw [folded, closed]
        constructor
        · rintro ⟨-, sound⟩
          refine ⟨long, ?_⟩
          intro _ row member tuple there i field inside here _
          exact hull.encloses_iff.mp (sound final rfl row member tuple there) i field
            (width ▸ inside) here
        · rintro ⟨-, spans⟩
          refine ⟨?_, ?_⟩
          · rintro ⟨what, panics⟩
            cases panics
          · intro bounds result row member tuple there
            cases result
            refine hull.encloses_iff.mpr ?_
            intro i field inside here
            by_cases stray : Stray metadata row (tuple.get field.name)
            · exact spans rfl row member tuple there i field (width ▸ inside) here stray
            · exact known closed member there here stray

end Tuples

/-! ### Bounds with nulls -/

section Nulls

/-- A manifest of the default spec, with summaries. -/
def Own (metadata : TableMetadata) (row : ManifestListEntry Value) : Prop :=
  row.partitionSpecId = metadata.defaultSpecId ∧ row.partitions.isSome = true

/-- What the loop has noted of manifests of one number of columns. -/
structure Noted (width : Nat) (result : PartitionBoundsWithNulls Value)
    (before : List (ManifestListEntry Value)) : Prop where
  columns : result.containsNull.length = width
  bounds : ((recorded before).all (·.bounded) = false ∧ result.bounds = .unbounded) ∨
    ((recorded before).all (·.bounded) = true ∧ result.bounds.bounded = true ∧
      result.bounds.min.length = width ∧ result.bounds.Hull (recorded before))
  nulls : ∀ row ∈ before, ∀ summaries, row.partitions = some summaries →
    ∀ (i : Nat) summary, summaries[i]? = some summary → summary.containsNull = true →
      result.containsNull[i]? = some true

variable {row : ManifestListEntry Value} {summaries : List (FieldSummary Value)}

theorem recorded_append (rows : List (ManifestListEntry Value))
    (there : row.partitions = some summaries) :
    recorded (rows ++ [row]) = recorded rows ++ [summaryToRectangle summaries] := by
  simp [recorded, there]

theorem Noted.first {width : Nat} (there : row.partitions = some summaries)
    (columns : summaries.length = width) :
    Noted width ⟨summaryToRectangle summaries, summaries.map (·.containsNull)⟩ [row] := by
  have only : recorded [row] = [summaryToRectangle summaries] := recorded_append [] there
  refine ⟨by rw [List.length_map, columns], ?_, ?_⟩
  · rw [only, List.all_cons, List.all_nil, Bool.and_true]
    cases bounded : (summaryToRectangle summaries).bounded with
    | false => exact .inl ⟨rfl, eq_unbounded (summaryToRectangle_even _) bounded⟩
    | true =>
      exact .inr ⟨rfl, rfl, (summaryToRectangle_spec bounded).1.trans columns,
        .single (summaryToRectangle_even _)⟩
  · intro other member summaries' there' i summary here null
    rw [List.mem_singleton.mp member] at there'
    cases there.symm.trans there'
    rw [List.getElem?_map, here, Option.map_some, null]

variable [ComparisonLibraries]

theorem Noted.step {width : Nat} {result : PartitionBoundsWithNulls Value}
    {before : List (ManifestListEntry Value)} (noted : Noted width result before)
    (there : row.partitions = some summaries) (columns : summaries.length = width) :
    ∃ expanded, result.bounds.expand (summaryToRectangle summaries) = .ok expanded ∧
      Noted width ⟨expanded, List.zipWith (fun null summary => null || summary.containsNull)
        result.containsNull summaries⟩ (before ++ [row]) := by
  have nulls : ∀ other ∈ before ++ [row], ∀ summaries', other.partitions = some summaries' →
      ∀ (i : Nat) summary, summaries'[i]? = some summary → summary.containsNull = true →
        (List.zipWith (fun null summary => null || FieldSummary.containsNull summary)
          result.containsNull summaries)[i]? = some true := by
    intro other member summaries' there' i summary here null
    rw [List.getElem?_zipWith]
    rcases List.mem_append.mp member with earlier | last
    · have noticed := noted.nulls other earlier summaries' there' i summary here null
      obtain ⟨inside, -⟩ := List.getElem?_eq_some_iff.mp noticed
      rw [noticed, List.getElem?_eq_getElem (by rw [columns, ← noted.columns]; exact inside)]
      rfl
    · rw [List.mem_singleton.mp last] at there'
      cases there.symm.trans there'
      obtain ⟨inside, -⟩ := List.getElem?_eq_some_iff.mp here
      rw [here, List.getElem?_eq_getElem (by rw [noted.columns, ← columns]; exact inside)]
      simp [null]
  have sizes : (List.zipWith (fun null summary => null || FieldSummary.containsNull summary)
      result.containsNull summaries).length = width := by
    rw [List.length_zipWith, noted.columns, columns, Nat.min_self]
  have all : (recorded (before ++ [row])).all (·.bounded) =
      ((recorded before).all (·.bounded) && (summaryToRectangle summaries).bounded) := by
    rw [recorded_append before there, List.all_append, List.all_cons, List.all_nil, Bool.and_true]
  rcases noted.bounds with ⟨open', absorbed⟩ | ⟨closed, own, ownWidth, hull⟩
  · refine ⟨.unbounded, ?_, sizes, .inl ⟨?_, rfl⟩, nulls⟩
    · rw [absorbed]
      exact expand_unbounded (.inl rfl)
    · rw [all, open', Bool.false_and]
  · cases bounded : (summaryToRectangle summaries).bounded with
    | false =>
      refine ⟨.unbounded, expand_unbounded (.inr bounded), sizes, .inl ⟨?_, rfl⟩, nulls⟩
      rw [all, bounded, Bool.and_false]
    | true =>
      have same : (summaryToRectangle summaries).min.length = result.bounds.min.length :=
        ((summaryToRectangle_spec bounded).1.trans columns).trans ownWidth.symm
      rcases expand_spec hull (summaryToRectangle_even summaries) own bounded with
        ⟨short, -⟩ | ⟨-, next, runs, nextWidth, nextHull⟩
      · exact absurd same short.ne
      · refine ⟨next, runs, sizes, .inr ⟨?_, ?_, nextWidth.trans ownWidth, ?_⟩, nulls⟩
        · rw [all, closed, bounded]
          rfl
        · exact (bounded_of_length nextWidth).trans own
        · rw [recorded_append before there]
          exact nextHull

variable {metadata : TableMetadata} {spec : PartitionSpec} {rows : List (ManifestListEntry Value)}
  {live : ManifestListEntry Value → List (Struct Value)} {width : Nat}

/-- A manifest of another spec, or without summaries, ends the loop. -/
theorem expandWithNulls_foreign (foreign : ¬ Own metadata row)
    (result : Option (PartitionBoundsWithNulls Value)) :
    expandWithNulls metadata result row = .ok (.done none) := by
  unfold expandWithNulls
  by_cases own : row.partitionSpecId = metadata.defaultSpecId
  · rw [if_neg (not_not.mpr own)]
    cases there : row.partitions with
    | none => rfl
    | some summaries => exact absurd ⟨own, by rw [there]; rfl⟩ foreign
  · rw [if_pos own]

/-- The loop from what it has noted: it notes every manifest, unless one ends it. -/
theorem loop_expandWithNulls (columns : ∀ row ∈ rows, Own metadata row →
      ∀ summaries, row.partitions = some summaries → summaries.length = width)
    {result : PartitionBoundsWithNulls Value} {before : List (ManifestListEntry Value)}
    (noted : Noted width result before) :
    (¬ (∀ row ∈ rows, Own metadata row) ∧
        loop (expandWithNulls metadata) (some result) rows = .ok none) ∨
      ((∀ row ∈ rows, Own metadata row) ∧ ∃ final,
        loop (expandWithNulls metadata) (some result) rows = .ok (some final) ∧
        Noted width final (before ++ rows)) := by
  induction rows generalizing result before with
  | nil =>
    refine .inr ⟨fun _ absent => (nomatch absent), result, rfl, ?_⟩
    rw [List.append_nil]
    exact noted
  | cons row rows ih =>
    rw [loop, List.forall_mem_cons]
    by_cases own : Own metadata row
    · obtain ⟨summaries, there⟩ := Option.isSome_iff_exists.mp own.2
      have same := columns row List.mem_cons_self own summaries there
      obtain ⟨expanded, runs, next⟩ := noted.step there same
      have steps : expandWithNulls metadata (some result) row =
          .ok (.yield (some ⟨expanded,
            List.zipWith (fun null summary => null || summary.containsNull) result.containsNull
              summaries⟩)) := by
        unfold expandWithNulls
        rw [if_neg (not_not.mpr own.1), there]
        dsimp only
        rw [if_neg (not_not.mpr (noted.columns.trans same.symm)), runs]
        rfl
      rw [steps, and_iff_right own, List.append_cons]
      exact ih (fun row member => columns row (List.mem_cons_of_mem _ member)) next
    · rw [expandWithNulls_foreign own]
      exact .inl ⟨fun owns => own owns.1, rfl⟩

/-- The loop of `snapshot_partition_bounds_with_nulls`. -/
theorem nulls_enclose_iff (described : Described metadata spec rows live)
    (columns : ∀ row ∈ rows, Own metadata row →
      ∀ summaries, row.partitions = some summaries → summaries.length = spec.fields.length) :
    (¬ Panics (loop (expandWithNulls metadata) none rows) ∧
        ∀ result, loop (expandWithNulls metadata) none rows = .ok (some result) →
          ∀ row ∈ rows, ∀ tuple ∈ live row, result.bounds.Encloses spec.fields tuple ∧
            result.Reports spec.fields tuple) ↔
      NansFit metadata spec.fields rows live := by
  have runs : (¬ (∀ row ∈ rows, Own metadata row) ∨ rows = []) ∧
        loop (expandWithNulls metadata) none rows = .ok none ∨
      (∀ row ∈ rows, Own metadata row) ∧ ∃ final,
        loop (expandWithNulls metadata) none rows = .ok (some final) ∧
        Noted spec.fields.length final rows := by
    cases rows with
    | nil => exact .inl ⟨.inr rfl, rfl⟩
    | cons row rows =>
      rw [loop, List.forall_mem_cons]
      by_cases own : Own metadata row
      · obtain ⟨summaries, there⟩ := Option.isSome_iff_exists.mp own.2
        have same := columns row List.mem_cons_self own summaries there
        have steps : expandWithNulls metadata none row = .ok (.yield (some
            ⟨summaryToRectangle summaries, summaries.map (·.containsNull)⟩)) := by
          unfold expandWithNulls
          rw [if_neg (not_not.mpr own.1), there]
        rw [steps, and_iff_right own]
        have later := loop_expandWithNulls (fun row member =>
          columns row (List.mem_cons_of_mem _ member)) (.first there same)
        exact later.imp (fun ends => ⟨.inl ends.1, ends.2⟩) fun ends => ends
      · rw [expandWithNulls_foreign own]
        exact .inl ⟨.inl fun owns => own owns.1, rfl⟩
  rcases runs with ⟨ended, run⟩ | ⟨owns, final, run, noted⟩
  · rw [run]
    refine iff_of_true ⟨?_, fun _ result => nomatch result⟩ ?_
    · rintro ⟨what, panics⟩
      cases panics
    · intro owns _ row member
      rcases ended with foreign | rfl
      · exact absurd owns foreign
      · cases member
  · rw [run]
    have reports : ∀ row ∈ rows, ∀ tuple ∈ live row, final.Reports spec.fields tuple := by
      intro row member tuple there i field here null
      obtain ⟨summaries, summarized⟩ := Option.isSome_iff_exists.mp (owns row member).2
      have within := described row member (owns row member).1 summaries summarized tuple there
      obtain ⟨summary, position, cell, stored, admits⟩ :=
        (Observation.forall₂_iff_getElem?.mp within).2 i field here
      cases stored.symm.trans null
      exact noted.nulls row member summaries summarized i summary position (admits.null rfl)
    have safe : ¬ Panics (.ok (some final) :
        Except Error (Option (PartitionBoundsWithNulls Value))) := by
      rintro ⟨what, panics⟩
      cases panics
    rw [and_iff_right safe]
    constructor
    · intro sound _ bounded row member tuple there i field here value stored nan
      rcases noted.bounds with ⟨open', -⟩ | ⟨-, -, columns, hull⟩
      · rw [open'] at bounded
        cases bounded
      · have inside : i < final.bounds.min.length := by
          rw [columns]
          exact (List.getElem?_eq_some_iff.mp here).1
        exact hull.encloses_iff.mp (sound final rfl row member tuple there).1 i field inside here
    · intro spans result same row member tuple there
      cases same
      refine ⟨?_, reports row member tuple there⟩
      rcases noted.bounds with ⟨-, absorbed⟩ | ⟨bounded, -, -, hull⟩
      · rw [absorbed]
        exact encloses_unbounded
      · refine hull.encloses_iff.mpr ?_
        intro i field _ here
        by_cases stray : Stray metadata row (tuple.get field.name)
        · rcases stray with bare | other | ⟨value, stored, nan⟩
          · have some' := (owns row member).2
            rw [bare] at some'
            cases some'
          · exact absurd (owns row member).1 other
          · exact spans owns bounded row member tuple there i field here value stored nan
        · exact spanned_of_described described bounded member there here stray

end Nulls

/-! ### Two manifests -/

/-- A snapshot with one manifest list. -/
def listedSnapshot : Snapshot where
  snapshotId := 1
  parentSnapshotId := none
  sequenceNumber := 1
  timestampMs := 0
  manifestList := "list.avro"
  summary := ⟨.append, ∅⟩
  schemaId := none
  firstRowId := none
  addedRows := none

/-- The row of a manifest with one added file. -/
def listedManifest {V : Type} (path : String) (specId : Int)
    (partitions : Option (List (FieldSummary V))) : ManifestListEntry V where
  formatVersion := .v2
  manifestPath := path
  partitionSpecId := specId
  content := .data
  sequenceNumber := 1
  minSequenceNumber := 1
  addedSnapshotId := 1
  addedFilesCount := some 1
  existingFilesCount := some 0
  deletedFilesCount := some 0
  addedRowsCount := some 10
  existingRowsCount := some 0
  deletedRowsCount := some 0
  partitions
  keyMetadata := none
  firstRowId := none

/-- The libraries of a table of longs. -/
@[reducible] def plainComparisons : ComparisonLibraries :=
  ⟨{ plainLibraries.others with decodeBound := Value.decodeBound fun text => .error (.uuid text) }⟩

/-- The summary of a column of one `long`. -/
def longSummary (value : BitVec 64) : FieldSummary Value :=
  ⟨false, none, some (.longInt value), some (.longInt value)⟩

/-- A manifest with one file of a tuple. -/
def tupleManifest (schema : Schema) (spec : PartitionSpec) (tuple : Struct Value) :
    ManifestFile Value :=
  ⟨.v2, schema, spec, [{ columnEntry none with
    dataFile := { (columnEntry none).dataFile with partition := tuple } }]⟩

/-- A table partitioned by a column `x`: one manifest with `x = 5`, and one with `x = 9` whose
summaries are given. -/
def columnStore (summaries : Option (List (FieldSummary Value))) : Store Value :=
  let file (value : BitVec 64) :=
    tupleManifest (columnSchema .long) columnSpec ⟨[("x", some (.longInt value))]⟩
  let rows := [listedManifest "a.avro" 0 (some [longSummary 5]),
    listedManifest "b.avro" 0 summaries]
  ((Store.empty.putManifestList "list.avro" ⟨.v2, rows⟩).putManifest "a.avro" (file 5)).putManifest
    "b.avro" (file 9)

/-- A schema of two columns of longs. -/
def pairSchema : Schema :=
  ⟨0, none, ⟨[⟨1, "x", false, .primitive .long, none, none, none⟩,
    ⟨2, "y", false, .primitive .long, none, none, none⟩]⟩⟩

/-- The spec that partitions by both. -/
def pairSpec : PartitionSpec := ⟨1, [⟨1, 1000, "x", .identity⟩, ⟨2, 1001, "y", .identity⟩]⟩

/-- A table whose spec has got a second field. -/
def pairTable : TableMetadata :=
  { longTable .v2 with
    schemas := AList.singleton 0 pairSchema
    partitionSpecs := (AList.singleton 0 columnSpec).insert 1 pairSpec
    defaultSpecId := 1 }

/-- One manifest of the new spec before one of the old. -/
def pairStore : Store Value :=
  ((Store.empty.putManifestList "list.avro" ⟨.v2,
    [listedManifest "b.avro" 1 (some [longSummary 5, longSummary 1]),
      listedManifest "a.avro" 0 (some [longSummary 7])]⟩).putManifest
      "a.avro" (tupleManifest pairSchema columnSpec ⟨[("x", some (.longInt 7))]⟩)).putManifest
      "b.avro" (tupleManifest pairSchema pairSpec
        ⟨[("x", some (.longInt 5)), ("y", some (.longInt 1))]⟩)

section Columns

variable {V : Type}

/-- A file records both bounds of a column. -/
def DataFile.hasBounds (file : DataFile V) (id : Int) : Bool :=
  (file.lowerBounds.bind (·.lookup id)).isSome && (file.upperBounds.bind (·.lookup id)).isSome

/-- The first column decides: it is assigned to a vector without elements. -/
theorem fileRectangle_cons (id : Int) (ids : List Int) (file : DataFile V) :
    fileRectangle (id :: ids) file = .error (if file.hasBounds id then
      .panicked "index out of bounds" else .notFound "column bounds") := by
  have first : assignColumn file ⟨[], []⟩ (id, 0) = .error (if file.hasBounds id then
      .panicked "index out of bounds" else .notFound "column bounds") := by
    unfold assignColumn DataFile.hasBounds
    dsimp only
    cases file.lowerBounds.bind (·.lookup id) with
    | none => rfl
    | some lower =>
      cases file.upperBounds.bind (·.lookup id) with
      | none => rfl
      | some upper => rfl
  rw [fileRectangle, List.zipIdx_cons, List.foldlM_cons, first, error_bind]

variable [PartitionValue V]

/-- The bounds of a rectangle are beyond those a file records, column by column. -/
def Rectangle.EnclosesRecorded (bounds : Rectangle V) (ids : List Int) (file : DataFile V) : Prop :=
  ∀ (i : Nat) id, ids[i]? = some id →
    (∀ low, bounds.min[i]? = some low → ∃ recorded, file.lowerBounds.bind (·.lookup id) =
      some recorded ∧ (partialCmp low recorded).any (·.isLE)) ∧
    ∀ high, bounds.max[i]? = some high → ∃ recorded, file.upperBounds.bind (·.lookup id) =
      some recorded ∧ (partialCmp recorded high).any (·.isLE)

/-- Without columns the rectangle of a file is the unbounded one. -/
theorem expandByFile_nil (bounds : Option (Rectangle V)) (entry : String × ManifestEntry V) :
    expandByFile [] bounds entry = .ok (some .unbounded) := by
  cases bounds with
  | none => rfl
  | some bounds =>
    have absorbed : bounds.expand ⟨[], []⟩ = .ok .unbounded := if_pos (.inr rfl)
    show (bounds.expand ⟨[], []⟩).map some = _
    rw [absorbed]
    rfl

/-- **Column bounds.**  The run does what it says exactly where no bound has to be kept: in a
schema without primitive columns, in a snapshot without entries, and where the first entry lacks a
bound of the first column. -/
theorem columnBounds_enclose_iff {snapshot : Snapshot} {metadata : TableMetadata} {store : Store V}
    {schema : Schema} (typing : schemaOrCurrent metadata snapshot.snapshotId = .ok schema)
    {rows : List (ManifestListEntry V)} (list : readSnapshot snapshot metadata store = .ok rows)
    {entries : List (String × ManifestEntry V)}
    (files : datafiles store rows none (none, none) = .ok entries) :
    (¬ Panics (snapshotColumnBounds snapshot metadata store) ∧
        ∀ bounds, snapshotColumnBounds snapshot metadata store = .ok (some bounds) →
          ∀ entry ∈ entries, entry.2.live = true →
            bounds.EnclosesRecorded schema.fields.primitiveFieldIds entry.2.dataFile) ↔
      ∀ id ∈ schema.fields.primitiveFieldIds.head?, ∀ first ∈ entries.head?,
        first.2.dataFile.hasBounds id = false := by
  have run : snapshotColumnBounds snapshot metadata store =
      entries.foldlM (expandByFile schema.fields.primitiveFieldIds) none := by
    obtain ⟨parts, read, whole⟩ := map_eq_ok.mp files
    rw [snapshotColumnBounds, typing, ok_bind, list, ok_bind, ← whole]
    exact foldlM_mapM read none
  rw [run]
  cases columns : schema.fields.primitiveFieldIds with
  | nil =>
    refine iff_of_true ⟨?_, ?_⟩ (fun _ absent => nomatch absent)
    · have run : ∃ final, entries.foldlM (expandByFile []) none = .ok final ∧ True := by
        refine foldlM_total (fun _ : Option (Rectangle V) => True) ?_ trivial
        intro entry _ bounds _
        exact ⟨_, expandByFile_nil bounds entry, trivial⟩
      obtain ⟨final, folded, -⟩ := run
      rintro ⟨what, panics⟩
      cases folded.symm.trans panics
    · intro bounds _ entry _ _ i id here
      cases here
  | cons id ids =>
    cases entries with
    | nil =>
      refine iff_of_true ⟨?_, ?_⟩ fun _ _ _ absent => nomatch absent
      · rintro ⟨what, panics⟩
        cases panics
      · intro bounds _ entry absent
        cases absent
    | cons first entries =>
      have stops : (first :: entries).foldlM (expandByFile (id :: ids)) none =
          .error (if first.2.dataFile.hasBounds id then
            .panicked "index out of bounds" else .notFound "column bounds") := by
        rw [List.foldlM_cons, expandByFile, fileRectangle_cons]
        rfl
      rw [stops]
      cases bounded : first.2.dataFile.hasBounds id with
      | true =>
        refine iff_of_false (fun sound => sound.1 ⟨_, rfl⟩) ?_
        intro holds
        have absent := holds id rfl first rfl
        rw [bounded] at absent
        cases absent
      | false =>
        refine iff_of_true ⟨?_, fun _ result => nomatch result⟩ ?_
        · rintro ⟨what, panics⟩
          cases panics
        · intro _ same _ same'
          cases same
          cases same'
          exact bounded

end Columns

/-- The store of a table of one `long` column with one file, and the bounds of the file. -/
def oneFileStore (bounds : Option (HashMap Int LongValue)) : Store LongValue :=
  (Store.empty.putManifestList "list.avro" ⟨.v2, [listedManifest "m.avro" 0 none]⟩).putManifest
    "m.avro" ⟨.v2, ⟨0, none, ⟨[⟨1, "x", true, .primitive .long, none, none, none⟩]⟩⟩, ⟨0, []⟩,
      [⟨.v2, .added, some 1, some 1,
        { longFile "f.parquet" 10 with lowerBounds := bounds, upperBounds := bounds }⟩]⟩

theorem columnBounds_enclose_iff_unbounded :
    ∃ rows entries, readSnapshot listedSnapshot (longTable .v2) (oneFileStore none) = .ok rows ∧
      datafiles (oneFileStore none) rows none (none, none) = .ok entries ∧
      ¬ Panics (snapshotColumnBounds listedSnapshot (longTable .v2) (oneFileStore none)) ∧
      ∀ bounds, snapshotColumnBounds listedSnapshot (longTable .v2) (oneFileStore none) =
          .ok (some bounds) →
        ∀ entry ∈ entries, entry.2.live = true → bounds.EnclosesRecorded [1] entry.2.dataFile := by
  have reads : ∃ rows entries,
      readSnapshot listedSnapshot (longTable .v2) (oneFileStore none) = .ok rows ∧
      datafiles (oneFileStore none) rows none (none, none) = .ok entries ∧
      ∀ first ∈ entries.head?, ∀ id, first.2.dataFile.hasBounds id = false := by
    refine ⟨_, _, rfl, rfl, ?_⟩
    intro first same id
    cases same
    rfl
  obtain ⟨rows, entries, list, files, bare⟩ := reads
  have typing : schemaOrCurrent (longTable .v2) listedSnapshot.snapshotId =
      .ok ⟨0, none, ⟨[⟨1, "x", true, .primitive .long, none, none, none⟩]⟩⟩ := rfl
  have sound := (columnBounds_enclose_iff typing list files).mpr fun id _ first here =>
    bare first here id
  exact ⟨rows, entries, list, files, sound⟩

/-- One file that records both bounds of the only column. -/
theorem columnBounds_panic :
    Panics (snapshotColumnBounds listedSnapshot (longTable .v2)
      (oneFileStore (some (AList.singleton 1 ⟨5⟩)))) :=
  ⟨_, rfl⟩

end IcebergRust
