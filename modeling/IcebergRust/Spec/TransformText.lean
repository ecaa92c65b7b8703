import IcebergRust.Spec.TypeText

/-!
# Transforms as text

`Serialize` and `Deserialize` of `Transform` (`iceberg-rust-spec/src/spec/partition.rs`).  Every
transform whose width fits its `u32` survives its text, and a text gives no other.
-/

namespace IcebergRust

namespace Transform

open TypeText Fallible

/-- The transforms without a width, with the names serde gives them. -/
def unitNames : List (String × Transform) :=
  [("identity", .identity), ("year", .year), ("month", .month), ("day", .day), ("hour", .hour),
    ("void", .void)]

/-- `Serialize for Transform`, with `serialize_bucket` and `serialize_truncate`. -/
def serialize : Transform → String
  | .bucket n => "bucket[" ++ n.repr ++ "]"
  | .truncate width => "truncate[" ++ width.repr ++ "]"
  | unit => ((unitNames.find? fun entry => entry.2 = unit).map (·.1)).getD ""

/-- A width between a name and a bracket, each taken off as often as it stands there. -/
def deserializeWidth (start : List Char) (make : Nat → Transform) (text : List Char) :
    Except Error Transform :=
  ((parseUnsigned 4294967296 (trimEndMatches ']' (trimStartMatches start text))).mapError
    .json).map make

/-- `deserialize_bucket`. -/
def deserializeBucket : List Char → Except Error Transform :=
  deserializeWidth "bucket[".toList .bucket

/-- `deserialize_truncate`. -/
def deserializeTruncate : List Char → Except Error Transform :=
  deserializeWidth "truncate[".toList .truncate

/-- The derived deserializer, from a string. -/
def deserializeUnit (text : List Char) : Except Error Transform :=
  match unitNames.find? fun entry => entry.1.toList = text with
  | some entry => .ok entry.2
  | none => .error (.json ("unknown variant `" ++ String.ofList text ++ "`, expected one of " ++
      "`identity`, `bucket`, `truncate`, `year`, `month`, `day`, `hour`, `void`"))

/-- `Deserialize for Transform`, of the characters of a string. -/
def deserialize (text : List Char) : Except Error Transform :=
  if "bucket".toList <+: text then deserializeBucket text
  else if "truncate".toList <+: text then deserializeTruncate text
  else deserializeUnit text

/-- The widths of a transform fit `u32`. -/
def Legal : Transform → Prop
  | .bucket width | .truncate width => width < 4294967296
  | _ => True

theorem legal_of_deserialize {text : List Char} {transform : Transform}
    (run : deserialize text = .ok transform) : transform.Legal := by
  unfold deserialize at run
  split at run
  · obtain ⟨width, read, rfl⟩ := map_eq_ok.mp run
    exact lt_of_parseUnsigned (mapError_eq_ok.mp read)
  · split at run
    · obtain ⟨width, read, rfl⟩ := map_eq_ok.mp run
      exact lt_of_parseUnsigned (mapError_eq_ok.mp read)
    · have plain : ∀ entry ∈ unitNames, entry.2.Legal := by simp [unitNames, Legal]
      unfold deserializeUnit at run
      split at run
      · rename_i entry found
        cases run
        exact plain entry (List.mem_of_find?_eq_some found)
      · cases run

theorem deserializeWidth_repr {c : Char} (letter : c.isDigit = false) (start : List Char)
    (make : Nat → Transform) {width : Nat} (small : width < 4294967296) :
    deserializeWidth (c :: start) make (c :: start ++ (width.repr.toList ++ [']'])) =
      .ok (make width) := by
  unfold deserializeWidth
  rw [trimStartMatches_append (List.cons_ne_nil c start)
      (PrimitiveType.not_prefix_repr letter start width _),
    trimEndMatches_concat (notMem_digits rfl width), parseUnsigned_repr small]
  rfl

theorem deserialize_serialize {transform : Transform} (legal : transform.Legal) :
    deserialize transform.serialize.toList = .ok transform := by
  cases transform with
  | bucket width =>
    have text : (serialize (.bucket width)).toList =
        'b' :: "ucket[".toList ++ (width.repr.toList ++ [']']) := by simp [serialize]
    rw [text]
    unfold deserialize
    rw [if_pos ⟨_ :: _, rfl⟩]
    exact deserializeWidth_repr rfl _ _ legal
  | truncate width =>
    have text : (serialize (.truncate width)).toList =
        't' :: "runcate[".toList ++ (width.repr.toList ++ [']']) := by simp [serialize]
    rw [text]
    unfold deserialize
    rw [if_neg (by simp), if_pos ⟨_ :: _, rfl⟩]
    exact deserializeWidth_repr rfl _ _ legal
  | _ => exact toOption_eq_some.mp (by decide)

/-- A transform survives the text it is serialized to, which is also the text it is displayed as,
iff its width fits `u32`, iff some text gives it. -/
theorem deserialize_display_iff (transform : Transform) :
    transform.serialize = transform.display ∧
      (deserialize transform.serialize.toList = .ok transform ↔ transform.Legal) ∧
      ((∃ text, deserialize text = .ok transform) ↔ transform.Legal) := by
  refine ⟨by cases transform <;> rfl, ⟨legal_of_deserialize, deserialize_serialize⟩, ?_,
    fun legal => ⟨_, deserialize_serialize legal⟩⟩
  rintro ⟨text, run⟩
  exact legal_of_deserialize run

end Transform

end IcebergRust
