import IcebergRust.Spec.Types

/-!
# Namespaces and identifiers

`namespace.rs` and `identifier.rs` of the spec crate.  The texts catalogs use as keys join the
levels with a separator that the levels may contain themselves.
-/

namespace IcebergRust

/-- `Namespace`. -/
structure Namespace where
  levels : List String
deriving DecidableEq, Repr

namespace Namespace

/-- `Namespace::try_new`. -/
def tryNew (levels : List String) : Except Error Namespace :=
  if levels.any (·.isEmpty) then .error (.invalidFormat "namespace sequence") else .ok ⟨levels⟩

/-- `Display` of a namespace. -/
def display (ns : Namespace) : String := ".".intercalate ns.levels

end Namespace

/-- `Identifier`. -/
structure Identifier where
  ns : Namespace
  name : String
deriving DecidableEq, Repr

namespace Identifier

/-- `Identifier::try_new`: only the name is checked. -/
def tryNew (names : List String) (defaultNamespace : Option (List String)) :
    Except Error Identifier :=
  match names.reverse with
  | [] => .error (.invalidFormat "Identifier is empty")
  | name :: levels =>
    if name.isEmpty then .error (.invalidFormat "Table name is empty")
    else match levels.reverse, defaultNamespace with
      | [], none => .error (.notFound "Default namespace")
      | [], some levels => .ok ⟨⟨levels⟩, name⟩
      | levels, _ => .ok ⟨⟨levels⟩, name⟩

/-- `Display` of an identifier. -/
def display (identifier : Identifier) : String := identifier.ns.display ++ "." ++ identifier.name

end Identifier

end IcebergRust
