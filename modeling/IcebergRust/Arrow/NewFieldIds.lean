import IcebergRust.Arrow.Schema
import IcebergRust.Lib.Lockstep
import Mathlib.Data.List.Nodup

/-!
# New field ids

`new_fields_with_ids`: the fields of an Arrow schema that carry no id yet get one.

* `newFieldsWithIds` is the function of the source.  It walks the tree twice, once to reserve the ids
  that are there and once to assign the others.
* `assignFields_lockstep` is that the second walk resolves the ids of `trackedFields` one by one.
* `newFieldsWithIds_assigned` is what holds of the fields it returns, and of the failures.
-/

namespace IcebergRust.ArrowSchema

open Lockstep

/-- The id a field carries, where its text parses. -/
def Field.fieldId (field : Field) : Option Int := field.metadata.fieldId.bind parseI32

variable {id candidate : Int} {context : Context} {fields : List Field} {ids : List Int}

theorem Field.fieldId_inI32 {field : Field} (carried : field.fieldId = some id) : InI32 id := by
  obtain ⟨text, -, read⟩ := Option.bind_eq_some_iff.mp carried
  exact parseI32_inI32 read

/-! ### Reserved ids -/

mutual

/-- `reserve_existing_field_ids`.  A set of ids is the list of what was inserted. -/
def reserveExistingFieldIds (reserved : List Int) : Field → List Int
  | ⟨name, dataType, nullable, metadata⟩ =>
    let field : Field := ⟨name, dataType, nullable, metadata⟩
    let reserved :=
      match field.fieldId with
      | some existing => existing :: reserved
      | none => reserved
    if field.IsVariant then reserved else reserveInside reserved dataType
termination_by structural field => field

/-- The match on the type of the field. -/
def reserveInside (reserved : List Int) : DataType → List Int
  | .leaf _ => reserved
  | .struct fields => reserveFields reserved fields
  | .list field => reserveExistingFieldIds reserved field
  | .otherList _ field => reserveExistingFieldIds reserved field
  | .map entries _ => reserveExistingFieldIds reserved entries
termination_by structural type => type

/-- The loop over the fields. -/
def reserveFields (reserved : List Int) : List Field → List Int
  | [] => reserved
  | field :: fields => reserveFields (reserveExistingFieldIds reserved field) fields
termination_by structural fields => fields

end

/-! ### Assigned ids -/

def maxI32 : Int := 2147483647

/-- The two variables of the walk. -/
structure Context where
  index : Int
  reserved : List Int
deriving DecidableEq, Repr

abbrev Assign := EStateM Error Context

def exhausted : Error := .notSupported "Iceberg field ID space is exhausted"

/-- The loop of `resolve_field_id`.  The candidate can be incremented `room` times before it
overflows. -/
def firstFree (reserved : List Int) : (room : Nat) → (candidate : Int) → Option Int
  | 0, candidate => if candidate ∈ reserved then none else some candidate
  | room + 1, candidate =>
    if candidate ∈ reserved then firstFree reserved room (candidate + 1) else some candidate

/-- The first id above the index that is not reserved. -/
def nextFree (context : Context) : Option Int :=
  if context.index < maxI32 then
    firstFree context.reserved (maxI32 - (context.index + 1)).toNat (context.index + 1)
  else none

/-- `resolve_field_id`. -/
def resolveFieldId (field : Field) : Assign Int := fun context =>
  match field.fieldId with
  | some existing => .ok existing { context with index := max context.index existing }
  | none =>
    match nextFree context with
    | some candidate => .ok candidate ⟨candidate, candidate :: context.reserved⟩
    | none => .error exhausted context

/-- `with_field_id`. -/
def withFieldId (field : Field) (dataType : DataType) (id : Int) : Field :=
  { field with dataType, metadata := { field.metadata with fieldId := some (toString id) } }

mutual

/-- The closure of `assign_fields_with_ids`. -/
def assignField : Field → Assign Field
  | ⟨name, dataType, nullable, metadata⟩ => do
    let field : Field := ⟨name, dataType, nullable, metadata⟩
    let id ← resolveFieldId field
    if field.IsVariant then
      return withFieldId field dataType id
    else
      let assigned ← assignInside dataType
      return withFieldId field assigned id
termination_by structural field => field

/-- The match on the type of the field. -/
def assignInside : DataType → Assign DataType
  | .struct fields => do
    let fields ← assignFieldsWithIds fields
    return .struct fields
  | .list field => do
    let element ← assignField field
    return .list element
  | .map ⟨name, .struct fields, nullable, metadata⟩ sorted => do
    let fields ← assignFieldsWithIds fields
    return .map ⟨name, .struct fields, nullable, metadata⟩ sorted
  | .map entries sorted => return .map entries sorted
  | .leaf type => return .leaf type
  | .otherList kind field => return .otherList kind field
termination_by structural type => type

def assignFieldsWithIds : List Field → Assign (List Field)
  | [] => return []
  | field :: fields => do
    let field ← assignField field
    let fields ← assignFieldsWithIds fields
    return field :: fields
termination_by structural fields => fields

end

/-- `new_fields_with_ids`.  The index is left behind, also by a failure. -/
def newFieldsWithIds (fields : Fields) (index : Int) : EStateM.Result Error Context Fields :=
  assignFieldsWithIds fields ⟨index, reserveFields [] fields⟩

/-! ### One field after the other -/

theorem firstFree_eq_some {reserved : List Int} {room : Nat}
    (found : firstFree reserved room candidate = some id) :
    candidate ≤ id ∧ id ≤ candidate + room ∧ id ∉ reserved := by
  induction room generalizing candidate with
  | zero =>
    unfold firstFree at found
    split at found
    · cases found
    · rename_i free
      cases found
      exact ⟨le_refl _, by simp, free⟩
  | succ room ih =>
    unfold firstFree at found
    split at found
    · obtain ⟨above, below, free⟩ := ih found
      exact ⟨by omega, by omega, free⟩
    · rename_i free
      cases found
      exact ⟨le_refl _, by omega, free⟩

theorem firstFree_eq_none {reserved : List Int} {room : Nat}
    (taken : firstFree reserved room candidate = none) (above : candidate ≤ id)
    (below : id ≤ candidate + room) : id ∈ reserved := by
  induction room generalizing candidate with
  | zero =>
    unfold firstFree at taken
    split at taken
    · rename_i here
      have same : id = candidate := by omega
      exact same ▸ here
    · cases taken
  | succ room ih =>
    unfold firstFree at taken
    split at taken
    · rename_i here
      rcases above.eq_or_lt with rfl | later
      · exact here
      · exact ih taken (by omega) (by omega)
    · cases taken

theorem nextFree_eq_some (found : nextFree context = some id) :
    context.index < id ∧ id ≤ maxI32 ∧ id ∉ context.reserved := by
  unfold nextFree at found
  split at found
  · obtain ⟨above, below, free⟩ := firstFree_eq_some found
    exact ⟨by omega, by omega, free⟩
  · cases found

theorem nextFree_eq_none (taken : nextFree context = none) (above : context.index < id)
    (below : id ≤ maxI32) : id ∈ context.reserved := by
  unfold nextFree at taken
  split at taken
  · exact firstFree_eq_none taken (by omega) (by omega)
  · omega

/-- The ids of the fields that had none. -/
def freshIds (fields : List Field) (ids : List Int) : List Int :=
  (fields.zip ids).filterMap fun (field, id) => if field.fieldId = none then some id else none

/-- What the ids are that fields are given one by one, and what becomes of the two variables. -/
structure Resolved (fields : List Field) (start : Context) (ids : List Int) (final : Context) :
    Prop where
  kept : List.Forall₂ (fun field id => field.fieldId = none ∨ field.fieldId = some id) fields ids
  nodup : (freshIds fields ids).Nodup
  fresh : ∀ id ∈ freshIds fields ids, start.index < id ∧ id ∉ start.reserved
  grows : start.index ≤ final.index
  below : ∀ id ∈ ids, id ≤ final.index
  reserved : ∀ id, id ∈ final.reserved ↔ id ∈ start.reserved ∨ id ∈ freshIds fields ids
  inRange : InI32 start.index → InI32 final.index ∧ ∀ id ∈ ids, InI32 id

theorem freshIds_subset (fresh : id ∈ freshIds fields ids) : id ∈ ids := by
  obtain ⟨⟨field, other⟩, member, made⟩ := List.mem_filterMap.mp fresh
  have right := (List.of_mem_zip member).2
  by_cases none_ : field.fieldId = none
  · cases (if_pos none_ : (if field.fieldId = none then some other else none) = _).symm.trans made
    exact right
  · cases (if_neg none_ : (if field.fieldId = none then some other else none) = _).symm.trans made

theorem Resolved.nil (context : Context) : Resolved [] context [] context where
  kept := .nil
  nodup := List.nodup_nil
  fresh := nofun
  grows := le_refl _
  below := nofun
  reserved := by simp [freshIds]
  inRange := fun inside => ⟨inside, nofun⟩

/-- A field that carries an id keeps it. -/
theorem Resolved.keep {field : Field} {start final : Context} {existing : Int}
    (carried : field.fieldId = some existing)
    (rest : Resolved fields { start with index := max start.index existing } ids final) :
    Resolved (field :: fields) start (existing :: ids) final := by
  have same : freshIds (field :: fields) (existing :: ids) = freshIds fields ids := by
    simp [freshIds, carried]
  have grows : max start.index existing ≤ final.index := rest.grows
  have parsed : InI32 existing := Field.fieldId_inI32 carried
  refine ⟨.cons (.inr carried) rest.kept, same ▸ rest.nodup, ?_, by omega, ?_, ?_, ?_⟩
  · intro id fresh
    obtain ⟨above, free⟩ := rest.fresh id (same ▸ fresh)
    exact ⟨lt_of_le_of_lt (le_max_left _ _) above, free⟩
  · exact List.forall_mem_cons.mpr ⟨by omega, rest.below⟩
  · intro id
    rw [same]
    exact rest.reserved id
  · intro inside
    have larger : InI32 (max start.index existing) := by
      unfold InI32 at inside parsed ⊢
      omega
    obtain ⟨last, inRange⟩ := rest.inRange larger
    exact ⟨last, List.forall_mem_cons.mpr ⟨parsed, inRange⟩⟩

/-- A field without an id takes the next free one. -/
theorem Resolved.take {field : Field} {start final : Context} (missing : field.fieldId = none)
    (found : nextFree start = some candidate)
    (rest : Resolved fields ⟨candidate, candidate :: start.reserved⟩ ids final) :
    Resolved (field :: fields) start (candidate :: ids) final := by
  obtain ⟨above, bounded, free⟩ := nextFree_eq_some found
  have same : freshIds (field :: fields) (candidate :: ids) = candidate :: freshIds fields ids := by
    simp [freshIds, missing]
  have grows : candidate ≤ final.index := rest.grows
  refine ⟨.cons (.inl missing) rest.kept, ?_, ?_, by omega, ?_, ?_, ?_⟩
  · rw [same, List.nodup_cons]
    refine ⟨fun again => ?_, rest.nodup⟩
    exact (rest.fresh candidate again).2 List.mem_cons_self
  · rw [same]
    refine List.forall_mem_cons.mpr ⟨⟨above, free⟩, fun id fresh => ?_⟩
    obtain ⟨later, other⟩ := rest.fresh id fresh
    exact ⟨lt_trans above later, fun reserved => other (List.mem_cons_of_mem _ reserved)⟩
  · exact List.forall_mem_cons.mpr ⟨grows, rest.below⟩
  · intro id
    rw [same, rest.reserved id, List.mem_cons, List.mem_cons, or_left_comm, or_assoc]
  · intro inside
    have next : InI32 candidate := by
      unfold InI32 at inside ⊢
      unfold maxI32 at bounded
      omega
    obtain ⟨last, inRange⟩ := rest.inRange next
    exact ⟨last, List.forall_mem_cons.mpr ⟨next, inRange⟩⟩

theorem resolveFieldId_keep {field : Field} {existing : Int}
    (carried : field.fieldId = some existing) (context : Context) :
    resolveFieldId field context =
      .ok existing { context with index := max context.index existing } := by
  unfold resolveFieldId
  rw [carried]

theorem resolveFieldId_take {field : Field} (missing : field.fieldId = none)
    (found : nextFree context = some candidate) :
    resolveFieldId field context = .ok candidate ⟨candidate, candidate :: context.reserved⟩ := by
  unfold resolveFieldId
  rw [missing, found]

theorem resolveFieldId_fail {field : Field} (missing : field.fieldId = none)
    (taken : nextFree context = none) :
    resolveFieldId field context = .error exhausted context := by
  unfold resolveFieldId
  rw [missing, taken]

/-- The fields are given their ids, or the first one that gets none stops the walk. -/
theorem resolve_all (fields : List Field) (start : Context) :
    (∃ ids final, fields.mapM resolveFieldId start = .ok ids final ∧
      Resolved fields start ids final) ∨
    ∃ done ids final, done <+: fields ∧ fields.mapM resolveFieldId start = .error exhausted final ∧
      Resolved done start ids final ∧ nextFree final = none := by
  induction fields generalizing start with
  | nil => exact .inl ⟨[], start, rfl, .nil start⟩
  | cons field fields ih =>
    rw [List.mapM_cons]
    cases carried : field.fieldId with
    | some existing =>
      rw [run_bind_of_ok (resolveFieldId_keep carried start)]
      rcases ih { start with index := max start.index existing } with
        ⟨ids, final, run, resolved⟩ | ⟨done, ids, final, part, run, resolved, taken⟩
      · rw [run_bind_of_ok run]
        exact .inl ⟨existing :: ids, final, rfl, resolved.keep carried⟩
      · rw [run_bind_of_error run]
        exact .inr ⟨field :: done, existing :: ids, final, List.cons_prefix_cons.mpr ⟨rfl, part⟩, rfl,
          resolved.keep carried, taken⟩
    | none =>
      cases found : nextFree start with
      | none =>
        rw [run_bind_of_error (resolveFieldId_fail carried found)]
        exact .inr ⟨[], [], start, List.nil_prefix, rfl, .nil start, found⟩
      | some candidate =>
        rw [run_bind_of_ok (resolveFieldId_take carried found)]
        rcases ih ⟨candidate, candidate :: start.reserved⟩ with
          ⟨ids, final, run, resolved⟩ | ⟨done, ids, final, part, run, resolved, taken⟩
        · rw [run_bind_of_ok run]
          exact .inl ⟨candidate :: ids, final, rfl, resolved.take carried found⟩
        · rw [run_bind_of_error run]
          exact .inr ⟨field :: done, candidate :: ids, final, List.cons_prefix_cons.mpr ⟨rfl, part⟩,
            rfl, resolved.take carried found, taken⟩

theorem resolved_of_run {start final : Context}
    (run : fields.mapM resolveFieldId start = .ok ids final) : Resolved fields start ids final := by
  rcases resolve_all fields start with ⟨_, _, run', resolved⟩ | ⟨_, _, _, _, run', _⟩
  · cases run.symm.trans run'
    exact resolved
  · cases run.symm.trans run'

/-! ### The fields of a tree -/

mutual

/-- The fields outside the storage of Variants, in the order of a walk. -/
def outsideField : Field → List Field
  | ⟨name, dataType, nullable, metadata⟩ =>
    let field : Field := ⟨name, dataType, nullable, metadata⟩
    field :: if field.IsVariant then [] else outsideInside dataType
termination_by structural field => field

def outsideInside : DataType → List Field
  | .leaf _ => []
  | .struct fields => outsideFields fields
  | .list field => outsideField field
  | .otherList _ field => outsideField field
  | .map entries _ => outsideField entries
termination_by structural type => type

def outsideFields : List Field → List Field
  | [] => []
  | field :: fields => outsideField field ++ outsideFields fields
termination_by structural fields => fields

end

mutual

/-- The fields that are given ids: those outside the storage of Variants and outside the other kinds
of lists, but not the entries of a map. -/
def trackedField : Field → List Field
  | ⟨name, dataType, nullable, metadata⟩ =>
    let field : Field := ⟨name, dataType, nullable, metadata⟩
    field :: if field.IsVariant then [] else trackedInside dataType
termination_by structural field => field

def trackedInside : DataType → List Field
  | .struct fields => trackedFields fields
  | .list field => trackedField field
  | .map ⟨_, .struct fields, _, _⟩ _ => trackedFields fields
  | .map _ _ => []
  | .leaf _ => []
  | .otherList _ _ => []
termination_by structural type => type

def trackedFields : List Field → List Field
  | [] => []
  | field :: fields => trackedField field ++ trackedFields fields
termination_by structural fields => fields

end

mutual

/-- A tree without the ids of its tracked fields. -/
def eraseField : Field → Field
  | ⟨name, dataType, nullable, metadata⟩ =>
    let field : Field := ⟨name, dataType, nullable, metadata⟩
    { field with
      dataType := if field.IsVariant then dataType else eraseInside dataType
      metadata := { metadata with fieldId := none } }
termination_by structural field => field

def eraseInside : DataType → DataType
  | .struct fields => .struct (eraseFields fields)
  | .list field => .list (eraseField field)
  | .map ⟨name, .struct fields, nullable, metadata⟩ sorted =>
    .map ⟨name, .struct (eraseFields fields), nullable, metadata⟩ sorted
  | .map entries sorted => .map entries sorted
  | .leaf type => .leaf type
  | .otherList kind field => .otherList kind field
termination_by structural type => type

def eraseFields : List Field → List Field
  | [] => []
  | field :: fields => eraseField field :: eraseFields fields
termination_by structural fields => fields

end

/-- The ids that fields outside the storage of Variants carry. -/
def existingIds (fields : List Field) : List Int := (outsideFields fields).filterMap Field.fieldId

/-! ### The first walk -/

mutual

theorem mem_reserveExistingFieldIds : (field : Field) → (reserved : List Int) → (id : Int) →
    (id ∈ reserveExistingFieldIds reserved field ↔
      id ∈ reserved ∨ id ∈ (outsideField field).filterMap Field.fieldId)
  | ⟨name, dataType, nullable, metadata⟩, reserved, id => by
    have inside := mem_reserveInside dataType
    unfold reserveExistingFieldIds outsideField
    dsimp only
    cases carried : (⟨name, dataType, nullable, metadata⟩ : Field).fieldId with
    | none =>
      dsimp only
      split
      · simp [carried]
      · rw [inside, List.filterMap_cons_none carried]
    | some existing =>
      dsimp only
      split
      · simp [carried, or_comm]
      · rw [inside, List.filterMap_cons_some carried, List.mem_cons, List.mem_cons, or_left_comm,
          or_assoc]
termination_by structural field => field

theorem mem_reserveInside : (type : DataType) → (reserved : List Int) → (id : Int) →
    (id ∈ reserveInside reserved type ↔
      id ∈ reserved ∨ id ∈ (outsideInside type).filterMap Field.fieldId)
  | .leaf type, reserved, id => by simp [reserveInside, outsideInside]
  | .struct fields, reserved, id => mem_reserveFields fields reserved id
  | .list field, reserved, id => mem_reserveExistingFieldIds field reserved id
  | .otherList kind field, reserved, id => mem_reserveExistingFieldIds field reserved id
  | .map entries sorted, reserved, id => mem_reserveExistingFieldIds entries reserved id
termination_by structural type => type

theorem mem_reserveFields : (fields : List Field) → (reserved : List Int) → (id : Int) →
    (id ∈ reserveFields reserved fields ↔
      id ∈ reserved ∨ id ∈ (outsideFields fields).filterMap Field.fieldId)
  | [], reserved, id => by simp [reserveFields, outsideFields]
  | field :: fields, reserved, id => by
    rw [reserveFields, outsideFields, mem_reserveFields fields, mem_reserveExistingFieldIds field,
      List.filterMap_append, List.mem_append, or_assoc]
termination_by structural fields => fields

end

theorem mem_reserved_iff : id ∈ reserveFields [] fields ↔ id ∈ existingIds fields := by
  rw [mem_reserveFields, existingIds, or_iff_right List.not_mem_nil]

/-! ### The second walk -/

/-- What is assigned is the tree itself, with these ids at its tracked fields. -/
def Puts {T : Type} (erase : T → T) (tracked : T → List Field) (before after : T)
    (ids : List Int) : Prop :=
  erase after = erase before ∧
    ((∀ id ∈ ids, InI32 id) → (tracked after).map Field.fieldId = ids.map some)

theorem fieldId_withFieldId (inside : InI32 id) (field : Field) (dataType : DataType) :
    (withFieldId field dataType id).fieldId = some id := parseI32_toString inside

theorem eraseField_withFieldId (field : Field) (dataType : DataType) (id : Int) :
    eraseField (withFieldId field dataType id) =
      { field with
        dataType := if field.IsVariant then dataType else eraseInside dataType
        metadata := { field.metadata with fieldId := none } } := rfl

theorem trackedField_withFieldId (field : Field) (dataType : DataType) (id : Int) :
    trackedField (withFieldId field dataType id) =
      withFieldId field dataType id :: if field.IsVariant then [] else trackedInside dataType := rfl

/-- A field is given its id, and what is inside it is assigned. -/
theorem Puts.field {field : Field} {dataType : DataType} (plain : ¬ field.IsVariant)
    (inside : Puts eraseInside trackedInside field.dataType dataType ids) :
    Puts eraseField trackedField field (withFieldId field dataType id) (id :: ids) := by
  obtain ⟨name, before, nullable, metadata⟩ := field
  constructor
  · rw [eraseField_withFieldId, if_neg plain, inside.1, eraseField]
    dsimp only
    rw [if_neg plain]
  · intro inRange
    obtain ⟨first, rest⟩ := List.forall_mem_cons.mp inRange
    rw [trackedField_withFieldId, if_neg plain, List.map_cons, List.map_cons,
      fieldId_withFieldId first, inside.2 rest]

/-- The storage of a Variant stays as it is. -/
theorem Puts.variant {field : Field} (variant_ : field.IsVariant) (id : Int) :
    Puts eraseField trackedField field (withFieldId field field.dataType id) [id] := by
  obtain ⟨name, dataType, nullable, metadata⟩ := field
  constructor
  · rw [eraseField_withFieldId, if_pos variant_, eraseField]
    dsimp only
    rw [if_pos variant_]
  · intro inRange
    rw [trackedField_withFieldId, if_pos variant_, List.map_singleton, List.map_singleton,
      fieldId_withFieldId (inRange id List.mem_cons_self)]

theorem Puts.append {field first : Field} {rest : List Field} {others : List Int}
    (head : Puts eraseField trackedField field first ids)
    (tail : Puts eraseFields trackedFields fields rest others) :
    Puts eraseFields trackedFields (field :: fields) (first :: rest) (ids ++ others) := by
  constructor
  · rw [eraseFields, eraseFields, head.1, tail.1]
  · intro inRange
    obtain ⟨left, right⟩ := List.forall_mem_append.mp inRange
    rw [trackedFields, List.map_append, List.map_append, head.2 left, tail.2 right]

mutual

open Lockstep

theorem assignField_lockstep : (field : Field) →
    Lockstep (Puts eraseField trackedField field) (assignField field)
      ((trackedField field).mapM resolveFieldId)
  | ⟨name, dataType, nullable, metadata⟩ => by
    have inside := assignInside_lockstep dataType
    unfold assignField trackedField
    dsimp only
    rw [List.mapM_cons]
    refine bind (.refl _) fun id _ same => ?_
    cases same
    by_cases variant_ : (⟨name, dataType, nullable, metadata⟩ : Field).IsVariant
    · rw [if_pos variant_, if_pos variant_]
      exact pure (.variant variant_ id)
    · rw [if_neg variant_, if_neg variant_]
      exact bind inside fun assigned ids puts => pure (.field variant_ puts)
termination_by structural field => field

theorem assignInside_lockstep : (type : DataType) →
    Lockstep (Puts eraseInside trackedInside type) (assignInside type)
      ((trackedInside type).mapM resolveFieldId)
  | .struct fields => by
    rw [trackedInside, ← bind_pure (List.mapM _ _)]
    refine bind (assignFields_lockstep fields) fun fields ids puts => pure ?_
    exact ⟨congrArg DataType.struct puts.1, puts.2⟩
  | .list field => by
    rw [trackedInside, ← bind_pure (List.mapM _ _)]
    refine bind (assignField_lockstep field) fun element ids puts => pure ?_
    exact ⟨congrArg DataType.list puts.1, puts.2⟩
  | .map ⟨name, .struct fields, nullable, metadata⟩ sorted => by
    rw [trackedInside, ← bind_pure (List.mapM _ _)]
    refine bind (assignFields_lockstep fields) fun fields ids puts => pure ?_
    exact ⟨congrArg (fun fields => DataType.map ⟨name, .struct fields, nullable, metadata⟩ sorted)
      puts.1, puts.2⟩
  | .map ⟨name, .leaf type, nullable, metadata⟩ sorted => pure ⟨rfl, fun _ => rfl⟩
  | .map ⟨name, .list field, nullable, metadata⟩ sorted => pure ⟨rfl, fun _ => rfl⟩
  | .map ⟨name, .otherList kind field, nullable, metadata⟩ sorted =>
    pure ⟨rfl, fun _ => rfl⟩
  | .map ⟨name, .map entries ordered, nullable, metadata⟩ sorted =>
    pure ⟨rfl, fun _ => rfl⟩
  | .leaf type => pure ⟨rfl, fun _ => rfl⟩
  | .otherList kind field => pure ⟨rfl, fun _ => rfl⟩
termination_by structural type => type

theorem assignFields_lockstep : (fields : List Field) →
    Lockstep (Puts eraseFields trackedFields fields) (assignFieldsWithIds fields)
      ((trackedFields fields).mapM resolveFieldId)
  | [] => pure ⟨rfl, fun _ => rfl⟩
  | field :: fields => by
    rw [assignFieldsWithIds, trackedFields, List.mapM_append]
    refine bind (assignField_lockstep field) fun first ids puts => ?_
    exact bind (assignFields_lockstep fields) fun rest others puts' =>
      pure (puts.append puts')
termination_by structural fields => fields

end

/-! ### What is assigned -/

/-- The fields are the same apart from their ids; those that had an id keep it, and the others have
ids of their own above the first index. -/
structure Assigned (before : Fields) (start : Int) (after : Fields) (final : Int) (ids : List Int) :
    Prop where
  same : eraseFields after = eraseFields before
  carried : (trackedFields after).map Field.fieldId = ids.map some
  kept : List.Forall₂ (fun field id => field.fieldId = none ∨ field.fieldId = some id)
    (trackedFields before) ids
  distinct : (freshIds (trackedFields before) ids).Nodup
  fresh : ∀ id ∈ freshIds (trackedFields before) ids, start < id ∧ id ∉ existingIds before
  below : ∀ id ∈ ids, id ≤ final

theorem assigned_of_ok {fields after : Fields} {index : Int} (inside : InI32 index)
    (run : newFieldsWithIds fields index = .ok after context) :
    ∃ ids, Assigned fields index after context.index ids := by
  obtain ⟨ids, resolves, same, carried⟩ := (assignFields_lockstep fields).ok run
  have resolved := resolved_of_run resolves
  refine ⟨ids, same, carried (resolved.inRange inside).2, resolved.kept, resolved.nodup, ?_,
    resolved.below⟩
  intro id fresh
  obtain ⟨above, free⟩ := resolved.fresh id fresh
  exact ⟨above, fun existing => free (mem_reserved_iff.mpr existing)⟩

/-- A failure leaves no free id above the index. -/
theorem exhausted_of_error {fields : Fields} {index : Int} {e : Error}
    (run : newFieldsWithIds fields index = .error e context) :
    e = exhausted ∧ index ≤ context.index ∧
      ∀ id, context.index < id → id ≤ maxI32 → id ∈ existingIds fields := by
  have walk := (assignFields_lockstep fields).error run
  rcases resolve_all (trackedFields fields) ⟨index, reserveFields [] fields⟩ with
    ⟨_, _, walk', _⟩ | ⟨done, ids, final, -, walk', resolved, taken⟩
  · cases walk.symm.trans walk'
  · cases walk.symm.trans walk'
    refine ⟨rfl, resolved.grows, fun id above bounded => ?_⟩
    rcases (resolved.reserved id).mp (nextFree_eq_none taken above bounded) with existing | fresh
    · exact mem_reserved_iff.mp existing
    · exact absurd (resolved.below id (freshIds_subset fresh)) (not_le.mpr above)

/-- New ids are fresh, and there are new ids as long as there are free ones. -/
theorem newFieldsWithIds_assigned (fields : Fields) (index : Int) (inside : InI32 index) :
    (∀ after context, newFieldsWithIds fields index = .ok after context →
      ∃ ids, Assigned fields index after context.index ids) ∧
    ∀ e context, newFieldsWithIds fields index = .error e context →
      e = exhausted ∧ index ≤ context.index ∧
        ∀ id, context.index < id → id ≤ maxI32 → id ∈ existingIds fields :=
  ⟨fun _ _ run => assigned_of_ok inside run, fun _ _ run => exhausted_of_error run⟩

/-- A struct that carries the id 2 around a field without one, and a list. -/
def person : Fields :=
  [⟨"name", .struct [⟨"last", .leaf .utf8, false, ⟨none, none, []⟩⟩], false, idMetadata 2⟩,
    ⟨"tags", .list ⟨"item", .leaf .utf8, true, ⟨none, none, []⟩⟩, true, ⟨none, none, []⟩⟩]

theorem person_assigned :
    (∀ after context, newFieldsWithIds person 0 = .ok after context →
      ∃ ids, Assigned person 0 after context.index ids) ∧
    ∀ e context, newFieldsWithIds person 0 = .error e context →
      e = exhausted ∧ 0 ≤ context.index ∧
        ∀ id, context.index < id → id ≤ maxI32 → id ∈ existingIds person :=
  newFieldsWithIds_assigned person 0 ⟨by decide, by decide⟩

/-- A Variant whose storage carries the id 1, and a list of another kind. -/
def shredded : Fields :=
  [⟨"v", .struct [⟨"value", .leaf .binaryView, true, idMetadata 1⟩], true,
      ⟨none, some parquetVariantExtensionName, []⟩⟩,
    ⟨"l", .otherList .largeList ⟨"item", .leaf .utf8, true, ⟨none, none, []⟩⟩, true,
      ⟨none, none, []⟩⟩]

/-- The Variant is given the id that a field of its storage carries, and the items of the list are
given none. -/
theorem shredded_shares_id : ∃ v value l item context,
    newFieldsWithIds shredded 0 = .ok [v, l] context ∧
      v.dataType = .struct [value] ∧ value.fieldId = some 1 ∧ v.fieldId = some 1 ∧
      l.dataType = .otherList .largeList item ∧ item.fieldId = none :=
  ⟨⟨"v", .struct [⟨"value", .leaf .binaryView, true, idMetadata 1⟩], true,
      ⟨some "1", some parquetVariantExtensionName, []⟩⟩, _,
    ⟨"l", .otherList .largeList ⟨"item", .leaf .utf8, true, ⟨none, none, []⟩⟩, true,
      ⟨some "2", none, []⟩⟩, _,
    ⟨2, [2, 1]⟩, rfl, rfl, by decide, by decide, rfl, rfl⟩

end IcebergRust.ArrowSchema
