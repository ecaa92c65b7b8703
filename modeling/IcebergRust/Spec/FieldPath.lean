import IcebergRust.Spec.Schema

/-!
# Fields by path

Which field `StructType::get_name` returns for a dotted path, and which fields lie at it.

* `StructType.loopName` is the loop of the source.  It returns at the first field that it finds, so
  it never descends (`loopName_eq`).
* `Reaches` is the meaning of a path, for field names that may have dots themselves.
* `getName_right_iff` says for which paths the returned field is the one that is meant.
-/

namespace IcebergRust

/-- The first top-level field of a name. -/
def StructType.fieldNamed (type : StructType) (name : String) : Option StructField :=
  type.fields.find? fun field => field.name = name

/-- The loop of `get_name` over the parts of a path. -/
def StructType.loopName : StructType → List String → Option StructField
  | _, [] => none
  | current, part :: parts =>
    let found := current.fieldNamed part
    if parts.isEmpty || found.isSome then found
    else
      match found with
      | some field =>
        match field.fieldType with
        | .struct nested => nested.loopName parts
        | _ => none
      | none => current.loopName parts

/-- The branch that descends is never taken. -/
theorem StructType.loopName_eq (type : StructType) (parts : List String) :
    type.loopName parts = parts.findSome? type.fieldNamed := by
  induction parts with
  | nil => rfl
  | cons part parts ih =>
    rw [StructType.loopName, List.findSome?_cons]
    cases found : type.fieldNamed part with
    | some field => simp
    | none =>
      cases parts with
      | nil => rfl
      | cons next parts => simpa using ih

/-- `getName` is the field of the whole name, else what the loop returns. -/
theorem StructType.getName_eq (type : StructType) (name : String) :
    type.getName name = (type.fieldNamed name).or (type.loopName (splitAt '.' name)) := by
  rw [loopName_eq]
  rfl

/-! ### Paths -/

/-- A field lies at a path: a name, or the name of a struct and a path in it. -/
inductive Reaches : StructType → String → StructField → Prop
  | here {type : StructType} {field : StructField} (member : field ∈ type.fields) :
      Reaches type field.name field
  | nested {type inner : StructType} {field target : StructField} {path : String}
      (member : field ∈ type.fields) (struct : field.fieldType = .struct inner)
      (rest : Reaches inner path target) : Reaches type (field.name ++ "." ++ path) target

variable {type : StructType} {name : String}

/-- A path ends with the name of its field. -/
theorem Reaches.suffix {path : String} {field : StructField} (reaches : Reaches type path field) :
    field.name.toList <:+ path.toList := by
  induction reaches with
  | here => exact List.suffix_rfl
  | nested _ _ _ ih =>
    rw [String.toList_append]
    exact ih.trans (List.suffix_append _ _)

/-- What is returned for a path is a field at it, and nothing only where there is none. -/
def Right (type : StructType) (name : String) : Prop :=
  match type.getName name with
  | some field => Reaches type name field
  | none => ∀ field, ¬ Reaches type name field

theorem right_of_some {field : StructField} (found : type.getName name = some field) :
    Right type name ↔ Reaches type name field := by
  unfold Right
  rw [found]

theorem right_of_none (found : type.getName name = none) :
    Right type name ↔ ∀ field, ¬ Reaches type name field := by
  unfold Right
  rw [found]

theorem fieldNamed_spec {field : StructField} (found : type.fieldNamed name = some field) :
    field ∈ type.fields ∧ field.name = name :=
  ⟨List.mem_of_find?_eq_some found, by simpa using List.find?_some found⟩

theorem fieldNamed_eq_none :
    type.fieldNamed name = none ↔ ∀ field ∈ type.fields, field.name ≠ name := by
  simp [StructType.fieldNamed]

/-- **Lookup by path.**  The field at a path is returned for the name of a top-level field, for a
path without a field whose parts name none at the top level, and where the first part that does
names a field that lies at the path as well. -/
theorem getName_right_iff (type : StructType) (name : String) :
    Right type name ↔
      (∃ field ∈ type.fields, field.name = name) ∨
      ((∀ part ∈ splitAt '.' name, ∀ field ∈ type.fields, field.name ≠ part) ∧
        ∀ field, ¬ Reaches type name field) ∨
      ∃ before part after field, splitAt '.' name = before ++ part :: after ∧
        (∀ earlier ∈ before, ∀ other ∈ type.fields, other.name ≠ earlier) ∧
        type.fieldNamed part = some field ∧ Reaches type name field := by
  have whole := type.getName_eq name
  rw [type.loopName_eq] at whole
  cases direct : type.fieldNamed name with
  | some field =>
    obtain ⟨member, named⟩ := fieldNamed_spec direct
    rw [direct, Option.some_or] at whole
    rw [right_of_some whole]
    refine iff_of_true ?_ (.inl ⟨field, member, named⟩)
    exact named ▸ Reaches.here member
  | none =>
    have unnamed : ¬ ∃ field ∈ type.fields, field.name = name := by
      rintro ⟨field, member, named⟩
      exact fieldNamed_eq_none.mp direct field member named
    rw [direct, Option.none_or] at whole
    rw [or_iff_right unnamed]
    cases found : (splitAt '.' name).findSome? type.fieldNamed with
    | none =>
      have absent := List.findSome?_eq_none_iff.mp found
      rw [right_of_none (whole.trans found)]
      constructor
      · intro nowhere
        exact .inl ⟨fun part member => fieldNamed_eq_none.mp (absent part member), nowhere⟩
      · rintro (⟨-, nowhere⟩ | ⟨before, part, after, field, split, -, named, -⟩)
        · exact nowhere
        · have member : part ∈ splitAt '.' name := by
            rw [split]
            exact List.mem_append_right _ List.mem_cons_self
          cases (absent part member).symm.trans named
    | some field =>
      obtain ⟨before, part, after, split, named, absent⟩ := List.findSome?_eq_some_iff.mp found
      rw [right_of_some (whole.trans found)]
      constructor
      · intro reaches
        exact .inr ⟨before, part, after, field, split,
          fun earlier member => fieldNamed_eq_none.mp (absent earlier member), named, reaches⟩
      · rintro (⟨unnamed, -⟩ | ⟨before', part', after', field', split', absent', named', reaches⟩)
        · obtain ⟨member, same⟩ := fieldNamed_spec named
          have inside : part ∈ splitAt '.' name := by
            rw [split]
            exact List.mem_append_right _ List.mem_cons_self
          exact absurd same (unnamed part inside field member)
        · have found' : (splitAt '.' name).findSome? type.fieldNamed = some field' :=
            List.findSome?_eq_some_iff.mpr ⟨before', part', after', split', named',
              fun earlier member => fieldNamed_eq_none.mpr (absent' earlier member)⟩
          cases found.symm.trans found'
          exact reaches

/-- A struct of one struct: the path of the inner field returns the outer one. -/
def outerType : StructType :=
  ⟨[⟨1, "a", true, .struct ⟨[⟨2, "b", true, .primitive .int, none, none, none⟩]⟩, none, none, none⟩]⟩

theorem getName_outer : ¬ ∀ type name, Right type name := by
  intro right
  have found : outerType.getName "a.b" = outerType.fields.head? := by decide
  have reaches := (right_of_some found).mp (right outerType "a.b")
  exact absurd reaches.suffix (by decide)

end IcebergRust
