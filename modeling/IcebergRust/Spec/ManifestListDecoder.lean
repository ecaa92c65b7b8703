import IcebergRust.Lib.Fallible
import IcebergRust.Spec.ManifestList

/-!
# Decoding manifest lists with a cache

`ManifestListEntryDecoder` over a whole list: the decoder is a mutable value that goes on
after a row that fails, so the cache is filled by rows that fail as well.

* `decodeRow` is `decode` on the outcome of the Avro reader, with bounds still as bytes;
  `decode_eq_decodeRow` connects it with the decoder of converted rows.
* `resolve` is what the cache stores for a key, computed from the metadata alone; it depends
  on the snapshot through the preferred schema only (`resolve_congr`).
* `Transparent` is the invariant of the cache, and `decodeRows_eq` the statement: a shared
  decoder yields what a decoder of its own yields for each row.
-/

namespace IcebergRust

open Fallible PartitionValue

/-! ### Stored rows -/

/-- A row with its bounds in another form. -/
def FieldSummary.map {α β : Type} (f : α → β) (summary : FieldSummary α) : FieldSummary β where
  containsNull := summary.containsNull
  containsNan := summary.containsNan
  lowerBound := summary.lowerBound.map f
  upperBound := summary.upperBound.map f

/-- A row whose summaries are replaced. -/
def ManifestListEntry.withPartitions {α β : Type} (row : ManifestListEntry α)
    (partitions : Option (List (FieldSummary β))) : ManifestListEntry β where
  formatVersion := row.formatVersion
  manifestPath := row.manifestPath
  partitionSpecId := row.partitionSpecId
  content := row.content
  sequenceNumber := row.sequenceNumber
  minSequenceNumber := row.minSequenceNumber
  addedSnapshotId := row.addedSnapshotId
  addedFilesCount := row.addedFilesCount
  existingFilesCount := row.existingFilesCount
  deletedFilesCount := row.deletedFilesCount
  addedRowsCount := row.addedRowsCount
  existingRowsCount := row.existingRowsCount
  deletedRowsCount := row.deletedRowsCount
  partitions
  keyMetadata := row.keyMetadata
  firstRowId := row.firstRowId

/-- `ManifestListEntryV1`, `V2` and `V3`: the bounds of the summaries are bytes. -/
abbrev StoredRow := ManifestListEntry (List UInt8)

/-- The record of an entry. -/
def ManifestListEntry.stored {V : Type} [PartitionValue V] (row : ManifestListEntry V) :
    StoredRow :=
  row.withPartitions (row.partitions.map (·.map (FieldSummary.map toBytes)))

namespace ManifestListEntryDecoder

section Decoding

variable {V : Type} [PartitionValue V]

/-- One bound of `FieldSummary::from_serde_with_mode`, from its bytes. -/
def decodeBytes (promote : Bool) : Option (List UInt8) → Option IcebergType →
    Except Error (Option V)
  | some bytes, some type =>
    if promote then (decodeBound bytes type).map some
    else (decodeBoundForCopy bytes type).map some
  | _, _ => .ok none

/-- `FieldSummary::from_serde_with_mode`. -/
def fromSerde (promote : Bool) (column : FieldSummary (List UInt8) × Option IcebergType) :
    Except Error (FieldSummary V) := do
  let lowerBound ← decodeBytes promote column.1.lowerBound column.2
  let upperBound ← decodeBytes promote column.1.upperBound column.2
  .ok ⟨column.1.containsNull, column.1.containsNan, lowerBound, upperBound⟩

/-- `decode_partition_summaries`. -/
def decodeStoredSummaries (partitions : Option (List (FieldSummary (List UInt8))))
    (types : List (Option IcebergType)) (promote : Bool) :
    Except Error (Option (List (FieldSummary V))) :=
  match partitions with
  | none => .ok none
  | some summaries =>
    if summaries.length ≠ types.length then .ok none
    else ((summaries.zip types).mapM (fromSerde promote)).map some

/-- `apache_avro::from_value`: the records of versions 2 and 3 have no null counts. -/
def fromValue (formatVersion : FormatVersion) (row : StoredRow) : Except Error StoredRow :=
  if formatVersion ≠ .v1 ∧ ¬ row.hasCounts then .error (.avro "manifest list entry") else .ok row

/-- `ManifestListEntry::try_from_v1_with_types`, `try_from_v2_with_types` and
`try_from_v3_with_types`, without the summaries where a column has no type. -/
def tryFromWithTypes (formatVersion : FormatVersion) (promote : Bool)
    (types : CachedPartitionTypes) (row : StoredRow) : Except Error (ManifestListEntry V) := do
  let partitions ← decodeStoredSummaries row.partitions types.fields promote
  .ok ((row.toVersion formatVersion).withPartitions (if types.complete then partitions else none))

/-- `ManifestListEntryDecoder::decode` on what the Avro reader yields: the decoder as it is
left, and the entry. -/
def decodeRow (metadata : TableMetadata) (decoder : ManifestListEntryDecoder)
    (value : Except Error StoredRow) (formatVersion : FormatVersion) :
    ManifestListEntryDecoder × Except Error (ManifestListEntry V) :=
  match value >>= fromValue formatVersion with
  | .error error => (decoder, .error error)
  | .ok row =>
    match decoder.lookupTypes metadata row.partitionSpecId row.addedSnapshotId with
    | .error error => (decoder, .error error)
    | .ok (next, types) =>
      (next, tryFromWithTypes formatVersion decoder.schema.isSome types row)

/-- The rows of a list decoded in order with one decoder, whatever becomes of each. -/
def decodeRows (metadata : TableMetadata) : ManifestListEntryDecoder →
    List (Except Error StoredRow × FormatVersion) → List (Except Error (ManifestListEntry V))
  | _, [] => []
  | decoder, row :: rows =>
    let decoded := decodeRow metadata decoder row.1 row.2
    decoded.2 :: decodeRows metadata decoded.1 rows

/-! ### Rows that decode -/

theorem decodeBytes_map (promote : Bool) (bound : Option V) (type : Option IcebergType) :
    decodeBytes promote (bound.map toBytes) type = decodeSummaryBound promote bound type := by
  cases bound with
  | none => rfl
  | some value =>
    cases type with
    | none => rfl
    | some type => rfl

theorem fromSerde_map (promote : Bool) (column : FieldSummary V × Option IcebergType) :
    fromSerde promote (column.1.map toBytes, column.2) = decodeSummary promote column := by
  unfold fromSerde decodeSummary
  rw [← decodeBytes_map, ← decodeBytes_map]
  rfl

theorem decodeStoredSummaries_map (partitions : Option (List (FieldSummary V)))
    (types : List (Option IcebergType)) (promote : Bool) :
    decodeStoredSummaries (partitions.map (·.map (FieldSummary.map toBytes))) types promote =
      decodePartitionSummaries partitions types promote := by
  cases partitions with
  | none => rfl
  | some summaries =>
    have pairs : ((summaries.map (FieldSummary.map toBytes)).zip types).mapM
        (fromSerde (V := V) promote) = (summaries.zip types).mapM (decodeSummary promote) := by
      rw [List.zip_map_left, List.mapM_map]
      apply congrArg fun f => List.mapM f (summaries.zip types)
      funext column
      exact fromSerde_map promote column
    simp only [Option.map_some, decodeStoredSummaries, decodePartitionSummaries, List.length_map]
    rw [pairs]

/-- The entry of a stored row. -/
theorem tryFromWithTypes_stored (formatVersion : FormatVersion) (promote : Bool)
    (types : CachedPartitionTypes) (row : ManifestListEntry V) :
    tryFromWithTypes formatVersion promote types row.stored = (do
      let partitions ← decodePartitionSummaries row.partitions types.fields promote
      .ok { row.toVersion formatVersion with
        partitions := if types.complete then partitions else none }) := by
  unfold tryFromWithTypes
  rw [show row.stored.partitions = row.partitions.map (·.map (FieldSummary.map toBytes)) from rfl,
    decodeStoredSummaries_map]
  cases formatVersion <;> rfl

/-- A row that decodes leaves the decoder and the entry that `decode` returns. -/
theorem decode_eq_decodeRow (metadata : TableMetadata) (decoder next : ManifestListEntryDecoder)
    (row entry : ManifestListEntry V) (formatVersion : FormatVersion) :
    decoder.decode metadata row formatVersion = .ok (next, entry) ↔
      decodeRow metadata decoder (.ok row.stored) formatVersion = (next, .ok entry) := by
  have counts : row.stored.hasCounts = row.hasCounts := rfl
  unfold decode decodeRow
  rw [ok_bind, fromValue, counts]
  by_cases null : formatVersion ≠ .v1 ∧ ¬ row.hasCounts
  · rw [if_pos null, if_pos null]
    simp
  · rw [if_neg null, if_neg null]
    dsimp only
    rw [show row.stored.partitionSpecId = row.partitionSpecId from rfl,
      show row.stored.addedSnapshotId = row.addedSnapshotId from rfl]
    cases decoder.lookupTypes metadata row.partitionSpecId row.addedSnapshotId with
    | error error => simp
    | ok found =>
      obtain ⟨after, types⟩ := found
      dsimp only
      rw [tryFromWithTypes_stored, ok_bind]
      dsimp only
      cases decodePartitionSummaries row.partitions types.fields decoder.schema.isSome with
      | error error => simp
      | ok partitions => simp

end Decoding

/-! ### What the cache stores -/

/-- The schema id `partition_types` prefers for the rows of a snapshot. -/
def preferredSchemaId (metadata : TableMetadata) (schema : Option Schema) (snapshotId : Int) : Int :=
  match schema with
  | some schema => schema.schemaId
  | none => ((metadata.snapshots.lookup snapshotId).bind (·.schemaId)).getD
      metadata.currentSchemaId

/-- The partition types of a spec for the rows of a snapshot, without a cache. -/
def resolve (metadata : TableMetadata) (schema : Option Schema) (specId snapshotId : Int) :
    Except Error CachedPartitionTypes := do
  let (schema, complete) ← match schema with
    | some schema => .ok (schema, true)
    | none => historicalEntrySchema metadata specId snapshotId
  let fields ← partitionFieldTypes metadata specId schema
  .ok ⟨fields, complete⟩

variable {metadata : TableMetadata} {decoder : ManifestListEntryDecoder}

/-- The search of `historical_entry_schema` for a spec, from the schema id of a snapshot. -/
def searchSchema (metadata : TableMetadata) (spec : PartitionSpec) (schemaId : Option Int) :
    Except Error (Schema × Bool) :=
  match (schemaId.bind fun id => metadata.schemas.lookup id).filter spec.typedBy with
  | some schema => .ok (schema, true)
  | none => do
    let current ← metadata.currentSchema
    if spec.typedBy current then .ok (current, true)
    else match latestSchema metadata.schemas spec.typedBy with
      | some schema => .ok (schema, true)
      | none => .ok (current, false)

/-- A snapshot without a schema id is searched for like one of the current schema: where that one
types the spec it is found either way, and else the search goes on alike. -/
theorem searchSchema_getD (spec : PartitionSpec) (schemaId : Option Int) :
    searchSchema metadata spec schemaId =
      searchSchema metadata spec (some (schemaId.getD metadata.currentSchemaId)) := by
  cases schemaId with
  | some id => rfl
  | none =>
    unfold searchSchema TableMetadata.currentSchema
    rw [Option.getD_none, Option.bind_some]
    cases metadata.schemas.lookup metadata.currentSchemaId with
    | none => rfl
    | some current =>
      by_cases typed : spec.typedBy current = true
      · have kept : (some current).filter spec.typedBy = some current := by simp [typed]
        simp [kept, typed]
      · have dropped : (some current).filter spec.typedBy = none := by simp [typed]
        simp [dropped, typed]

/-- The schema a row is decoded by depends on its snapshot through the preferred id. -/
theorem historicalEntrySchema_congr {specId first second : Int}
    (same : preferredSchemaId metadata none first = preferredSchemaId metadata none second) :
    historicalEntrySchema metadata specId first = historicalEntrySchema metadata specId second := by
  unfold historicalEntrySchema
  cases metadata.partitionSpecs.lookup specId with
  | none => rfl
  | some spec =>
    have starts := @searchSchema_getD metadata spec
      ((metadata.snapshots.lookup first).bind (·.schemaId))
    have meets := @searchSchema_getD metadata spec
      ((metadata.snapshots.lookup second).bind (·.schemaId))
    exact (starts.trans (congrArg (fun id => searchSchema metadata spec (some id)) same)).trans
      meets.symm

/-- What is stored under a key is determined by the key. -/
theorem resolve_congr {schema : Option Schema} {specId first second : Int}
    (same : preferredSchemaId metadata schema first = preferredSchemaId metadata schema second) :
    resolve metadata schema specId first = resolve metadata schema specId second := by
  cases schema with
  | some schema => rfl
  | none =>
    unfold resolve
    dsimp only
    rw [historicalEntrySchema_congr same]

/-- Every cached list of types is the one its rows have without the cache. -/
def Transparent (metadata : TableMetadata) (decoder : ManifestListEntryDecoder) : Prop :=
  ∀ specId snapshotId cached, decoder.partitionTypes.lookup
      (specId, preferredSchemaId metadata decoder.schema snapshotId) = some cached →
    resolve metadata decoder.schema specId snapshotId = .ok cached

theorem transparent_empty (schema : Option Schema) : Transparent metadata ⟨schema, ∅⟩ := by
  intro specId snapshotId cached found
  rw [AList.lookup_empty] at found
  cases found

/-- `partition_types` looks for its key, and else computes the types and stores them. -/
theorem lookupTypes_eq (decoder : ManifestListEntryDecoder) (specId snapshotId : Int) :
    decoder.lookupTypes metadata specId snapshotId =
      match decoder.partitionTypes.lookup
        (specId, preferredSchemaId metadata decoder.schema snapshotId) with
      | some cached => .ok (decoder, cached)
      | none => (resolve metadata decoder.schema specId snapshotId).map fun types =>
        (⟨decoder.schema, decoder.partitionTypes.insert
          (specId, preferredSchemaId metadata decoder.schema snapshotId) types⟩, types) := by
  obtain ⟨schema, cache⟩ := decoder
  unfold lookupTypes resolve preferredSchemaId
  cases schema with
  | some schema =>
    dsimp only
    cases cache.lookup (specId, schema.schemaId) with
    | some cached => rfl
    | none =>
      cases types : partitionFieldTypes metadata specId schema <;> simp [types, Except.map]
  | none =>
    dsimp only
    cases cache.lookup (specId, _) with
    | some cached => rfl
    | none =>
      cases historicalEntrySchema metadata specId snapshotId with
      | error error => rfl
      | ok found =>
        cases types : partitionFieldTypes metadata specId found.1 <;> simp [types, Except.map]

/-- A transparent cache answers as no cache, and stays transparent. -/
theorem lookupTypes_spec (transparent : Transparent metadata decoder) (specId snapshotId : Int) :
    (∃ error, resolve metadata decoder.schema specId snapshotId = .error error ∧
        decoder.lookupTypes metadata specId snapshotId = .error error) ∨
      ∃ types next, resolve metadata decoder.schema specId snapshotId = .ok types ∧
        decoder.lookupTypes metadata specId snapshotId = .ok (next, types) ∧
        next.schema = decoder.schema ∧ Transparent metadata next := by
  rw [lookupTypes_eq]
  cases found : decoder.partitionTypes.lookup
      (specId, preferredSchemaId metadata decoder.schema snapshotId) with
  | some cached =>
    exact .inr ⟨cached, decoder, transparent specId snapshotId cached found, rfl, rfl, transparent⟩
  | none =>
    cases resolved : resolve metadata decoder.schema specId snapshotId with
    | error error => exact .inl ⟨error, rfl, rfl⟩
    | ok types =>
      refine .inr ⟨types, _, rfl, rfl, rfl, ?_⟩
      intro spec snapshot cached cachedThere
      by_cases same : (spec, preferredSchemaId metadata decoder.schema snapshot) =
          (specId, preferredSchemaId metadata decoder.schema snapshotId)
      · obtain ⟨rfl, prefers⟩ := Prod.mk.inj same
        rw [same, AList.lookup_insert] at cachedThere
        cases cachedThere
        exact (resolve_congr prefers).trans resolved
      · rw [AList.lookup_insert_ne same] at cachedThere
        exact transparent spec snapshot cached cachedThere

variable {V : Type} [PartitionValue V]

/-- One row: its outcome is that of a decoder of its own, and the cache stays transparent. -/
theorem decodeRow_spec (transparent : Transparent metadata decoder)
    (value : Except Error StoredRow) (formatVersion : FormatVersion) :
    (decodeRow (V := V) metadata decoder value formatVersion).2 =
        (decodeRow metadata ⟨decoder.schema, ∅⟩ value formatVersion).2 ∧
      (decodeRow (V := V) metadata decoder value formatVersion).1.schema = decoder.schema ∧
      Transparent metadata (decodeRow (V := V) metadata decoder value formatVersion).1 := by
  unfold decodeRow
  cases value >>= fromValue formatVersion with
  | error error => exact ⟨rfl, rfl, transparent⟩
  | ok row =>
    have shared := lookupTypes_spec transparent row.partitionSpecId row.addedSnapshotId
    have own := lookupTypes_spec (@transparent_empty metadata decoder.schema)
      row.partitionSpecId row.addedSnapshotId
    rcases shared with ⟨error, resolved, run⟩ | ⟨types, next, resolved, run, keeps, stays⟩
    · rcases own with ⟨other, resolved', run'⟩ | ⟨types, next, resolved', -⟩
      · obtain rfl := Except.error.inj (resolved.symm.trans resolved')
        simp only [run, run']
        exact ⟨trivial, trivial, transparent⟩
      · cases resolved.symm.trans resolved'
    · rcases own with ⟨other, resolved', -⟩ | ⟨types', fresh, resolved', run', -⟩
      · cases resolved.symm.trans resolved'
      · obtain rfl := Except.ok.inj (resolved.symm.trans resolved')
        simp only [run, run']
        exact ⟨trivial, keeps, stays⟩

/-- A list decoded with one decoder yields what a decoder of its own yields for each row. -/
theorem decodeRows_eq (metadata : TableMetadata) (schema : Option Schema)
    (rows : List (Except Error StoredRow × FormatVersion)) :
    decodeRows (V := V) metadata ⟨schema, ∅⟩ rows =
      rows.map fun row => (decodeRow metadata ⟨schema, ∅⟩ row.1 row.2).2 := by
  suffices general : ∀ decoder : ManifestListEntryDecoder, decoder.schema = schema →
      Transparent metadata decoder → decodeRows (V := V) metadata decoder rows =
        rows.map fun row => (decodeRow metadata ⟨schema, ∅⟩ row.1 row.2).2 by
    exact general ⟨schema, ∅⟩ rfl (transparent_empty schema)
  induction rows with
  | nil => exact fun _ _ _ => rfl
  | cons row rows ih =>
    rintro decoder rfl transparent
    obtain ⟨entry, keeps, next⟩ := decodeRow_spec (V := V) transparent row.1 row.2
    rw [List.map_cons, ← ih _ keeps next, ← entry]
    rfl

/-- A list is read whole exactly if the stored record of every row decodes with a decoder of its
own, and then the entries are theirs. -/
theorem decodeAll_eq_ok_iff (metadata : TableMetadata) (schema : Option Schema)
    (version : FormatVersion) (rows entries : List (ManifestListEntry V)) :
    decodeAll metadata version ⟨schema, ∅⟩ rows = .ok entries ↔ List.Forall₂ (fun row entry =>
      (decodeRow metadata ⟨schema, ∅⟩ (.ok row.stored) version).2 = .ok entry) rows entries := by
  suffices general : ∀ decoder, decoder.schema = schema → Transparent metadata decoder →
      (decodeAll metadata version decoder rows = .ok entries ↔ _) from
    general ⟨schema, ∅⟩ rfl (transparent_empty schema)
  induction rows generalizing entries with
  | nil => simp [decodeAll, eq_comm]
  | cons row rows ih =>
    rintro decoder rfl transparent
    obtain ⟨own, keeps, next⟩ := decodeRow_spec (V := V) transparent (.ok row.stored) version
    simp only [decodeAll, bind_eq_ok, List.forall₂_cons_left_iff, ← own]
    constructor
    · rintro ⟨⟨after, first⟩, here, rest, later, same⟩
      cases same
      rw [decode_eq_decodeRow] at here
      rw [here] at keeps next ⊢
      exact ⟨first, rest, rfl, (ih rest after keeps next).mp later, rfl⟩
    · rintro ⟨first, rest, here, later, rfl⟩
      exact ⟨(_, first), (decode_eq_decodeRow ..).mpr (Prod.ext rfl here), rest,
        (ih rest _ keeps next).mpr later, rfl⟩

/-! ### How many summaries a row keeps -/

theorem partitionFieldTypes_eq_ok {specId : Int} {schema : Schema}
    {types : List (Option IcebergType)}
    (run : partitionFieldTypes metadata specId schema = .ok types) :
    ∃ spec, metadata.partitionSpecs.lookup specId = some spec ∧
      types.length = spec.fields.length := by
  unfold partitionFieldTypes at run
  cases found : metadata.partitionSpecs.lookup specId with
  | none =>
    rw [found] at run
    cases run
  | some spec =>
    rw [found] at run
    cases run
    exact ⟨spec, rfl, by rw [PartitionSpec.dataTypesLenient, List.length_map]⟩

theorem decodePartitionSummaries_length {partitions : Option (List (FieldSummary V))}
    {types : List (Option IcebergType)} {promote : Bool} {summaries : List (FieldSummary V)}
    (run : decodePartitionSummaries partitions types promote = .ok (some summaries)) :
    summaries.length = types.length := by
  cases partitions with
  | none => cases run
  | some stored =>
    unfold decodePartitionSummaries at run
    dsimp only at run
    by_cases differ : stored.length ≠ types.length
    · rw [if_pos differ] at run
      cases run
    · rw [if_neg differ] at run
      obtain ⟨decoded, all, same⟩ := map_eq_ok.mp run
      cases same
      rw [length_mapM all, List.length_zip, not_not.mp differ, Nat.min_self]

theorem decode_width {decoder next : ManifestListEntryDecoder} {schema : Schema}
    (own : decoder.schema = some schema) (transparent : Transparent metadata decoder)
    {version : FormatVersion} {row entry : ManifestListEntry V}
    (run : decoder.decode metadata row version = .ok (next, entry)) :
    (next.schema = some schema ∧ Transparent metadata next) ∧
      ∀ summaries, entry.partitions = some summaries → ∃ spec,
        metadata.partitionSpecs.lookup entry.partitionSpecId = some spec ∧
        summaries.length = spec.fields.length := by
  obtain ⟨-, run⟩ := guard_eq_ok.mp run
  obtain ⟨⟨after, types⟩, looks, run⟩ := bind_eq_ok.mp run
  obtain ⟨partitions, decodes, same⟩ := bind_eq_ok.mp run
  cases same
  rcases lookupTypes_spec transparent row.partitionSpecId row.addedSnapshotId with
    ⟨error, -, fails⟩ | ⟨types', next, resolved, found, keeps, stays⟩
  · cases fails.symm.trans looks
  · cases found.symm.trans looks
    refine ⟨⟨keeps.trans own, stays⟩, ?_⟩
    intro summaries there
    rw [own] at resolved
    obtain ⟨_, preferred, resolved⟩ := bind_eq_ok.mp resolved
    cases preferred
    obtain ⟨fields, typed, same⟩ := bind_eq_ok.mp resolved
    cases same
    have kept : partitions = some summaries := there
    obtain ⟨spec, found, width⟩ := partitionFieldTypes_eq_ok typed
    rw [kept] at decodes
    exact ⟨spec, by cases version <;> exact found,
      (decodePartitionSummaries_length decodes).trans width⟩

/-- A row keeps as many summaries as its spec has fields. -/
theorem decodeAll_width {decoder : ManifestListEntryDecoder} {schema : Schema}
    (own : decoder.schema = some schema) (transparent : Transparent metadata decoder)
    {version : FormatVersion} {rows entries : List (ManifestListEntry V)}
    (run : decodeAll metadata version decoder rows = .ok entries) {entry : ManifestListEntry V}
    (member : entry ∈ entries) {summaries : List (FieldSummary V)}
    (there : entry.partitions = some summaries) :
    ∃ spec, metadata.partitionSpecs.lookup entry.partitionSpecId = some spec ∧
      summaries.length = spec.fields.length := by
  induction rows generalizing decoder entries with
  | nil =>
    cases run
    cases member
  | cons row rows ih =>
    obtain ⟨⟨next, first⟩, here, run⟩ := bind_eq_ok.mp run
    obtain ⟨rest, later, same⟩ := bind_eq_ok.mp run
    cases same
    obtain ⟨⟨keeps, stays⟩, width⟩ := decode_width own transparent here
    rcases List.mem_cons.mp member with rfl | member
    · exact width summaries there
    · exact ih keeps stays later member

end ManifestListEntryDecoder

end IcebergRust
