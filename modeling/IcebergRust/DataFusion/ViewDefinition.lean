import IcebergRust.Lib.Substring

/-!
# The text of a view

`plan_create_view` of `datafusion_iceberg/src/planner.rs` stores the query of a view.  It has the
text of the whole statement and cuts the query out of it.

`viewDefinition_eq_ok_iff` says for which statements what is stored is the query.
-/

namespace IcebergRust

/-- How planning the creation of a view fails. -/
inductive PlanError where
  | panicked (message : String)
  | external (what : String)
deriving DecidableEq, Repr

/-- `str::split_once`. -/
def splitAtFirst (text pattern : String) : Option (String × String) :=
  (text.toList.dropInfix? pattern.toList).map fun parts =>
    (String.ofList parts.1, String.ofList parts.2)

/-- The definition `plan_create_view` stores. -/
def viewDefinition (definition : String) : Except PlanError String :=
  match splitAtFirst definition " as ", splitAtFirst definition " AS " with
  | some parts, none => .ok parts.2
  | none, some parts => .ok parts.2
  | _, _ => .error (.panicked "Something is wrong")

/-- The text of a statement up to its query. -/
def createView (orReplace temporary : Bool) (name : String) (columns : List String) : String :=
  "CREATE " ++ (if orReplace then "OR REPLACE " else "") ++
    (if temporary then "TEMPORARY " else "") ++ "VIEW " ++ name ++
    (if columns.isEmpty then "" else " (" ++ ", ".intercalate columns ++ ")")

/-- A pattern is somewhere in a text. -/
def Occurs (pattern text : String) : Prop := pattern.toList <:+: text.toList

instance (pattern text : String) : Decidable (Occurs pattern text) :=
  inferInstanceAs (Decidable (pattern.toList <:+: text.toList))

theorem splitAtFirst_eq_none_iff {text pattern : String} :
    splitAtFirst text pattern = none ↔ ¬ Occurs pattern text := by
  rw [splitAtFirst, Option.map_eq_none_iff, Substring.dropInfix?_eq_none_iff]
  rfl

theorem occurs_keyword (before after : String) : Occurs " AS " (before ++ " AS " ++ after) :=
  ⟨before.toList, after.toList, by simp [String.toList_append]⟩

/-- What follows the first keyword is the query if there is no keyword before its own. -/
theorem splitAtFirst_eq_some_iff {before after : String} :
    (∃ found, splitAtFirst (before ++ " AS " ++ after) " AS " = some (found, after)) ↔
      ¬ Occurs " AS " (before ++ " AS") := by
  have text : (before ++ " AS " ++ after).toList =
      before.toList ++ " AS ".toList ++ after.toList := by
    rw [String.toList_append, String.toList_append]
  have header : (before ++ " AS").toList = before.toList ++ " AS ".toList.dropLast := by
    rw [String.toList_append]
    rfl
  rw [splitAtFirst, text, Occurs, header,
    ← @Substring.dropInfix?_append_iff _ _ _ before.toList " AS ".toList after.toList (by decide)]
  constructor
  · rintro ⟨found, cut⟩
    obtain ⟨⟨first, rest⟩, cut, same⟩ := Option.map_eq_some_iff.mp cut
    obtain rfl : rest = after.toList := by
      rw [← (Prod.mk.inj same).2, String.toList_ofList]
    have whole := (Substring.dropInfix?_eq_some_iff.mp cut).1
    obtain rfl := List.append_cancel_right (List.append_cancel_right whole)
    exact cut
  · intro cut
    rw [cut]
    exact ⟨before, by simp⟩

/-- The stored text is the query exactly if the keyword is nowhere spelt in lower case, in names,
literals and aliases included, and nowhere in the statement before the query. -/
theorem viewDefinition_eq_ok_iff (orReplace temporary : Bool) (name : String)
    (columns : List String) (query : String) :
    viewDefinition (createView orReplace temporary name columns ++ " AS " ++ query) = .ok query ↔
      ¬ Occurs " as " (createView orReplace temporary name columns ++ " AS " ++ query) ∧
      ¬ Occurs " AS " (createView orReplace temporary name columns ++ " AS") := by
  generalize createView orReplace temporary name columns = header
  rw [← @splitAtFirst_eq_some_iff header query, ← splitAtFirst_eq_none_iff, viewDefinition]
  have keyword : splitAtFirst (header ++ " AS " ++ query) " AS " ≠ none := by
    rw [ne_eq, splitAtFirst_eq_none_iff, not_not]
    exact occurs_keyword header query
  cases splitAtFirst (header ++ " AS " ++ query) " as " with
  | some lower =>
    cases upper : splitAtFirst (header ++ " AS " ++ query) " AS " with
    | none => exact absurd upper keyword
    | some parts => simp
  | none =>
    cases upper : splitAtFirst (header ++ " AS " ++ query) " AS " with
    | none => exact absurd upper keyword
    | some parts =>
      obtain ⟨found, stored⟩ := parts
      simp

/-- A literal that contains the keyword makes planning panic, and a quoted name that contains it
has the stored text begin inside the name. -/
theorem viewDefinition_panics :
    viewDefinition (createView false false "v" [] ++ " AS " ++ "SELECT 'a as b'") =
      .error (.panicked "Something is wrong") ∧
    viewDefinition (createView false false "\"a AS b\"" [] ++ " AS " ++ "SELECT 1") =
      .ok "b\" AS SELECT 1" := by
  decide

end IcebergRust
