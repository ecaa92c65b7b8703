import IcebergRust.Lib.Fallible
import IcebergRust.Spec.Decimal
import Mathlib.Data.List.DropRight

/-!
# Primitive types as text

`Serialize` and `Deserialize` of `PrimitiveType` and `FromStr` of `EdgeAlgorithm`
(`iceberg-rust-spec/src/spec/types.rs`).

* `PrimitiveType.Legal` holds of the types that a text gives (`legal_of_deserialize`).
* `deserialize_serialize_iff` says which of them their own text gives back.
-/

namespace IcebergRust

namespace TypeText

/-! ### Functions of `str` -/

/-- `strip_prefix`. -/
def stripPrefix (start text : List Char) : Option (List Char) :=
  if start <+: text then some (text.drop start.length) else none

/-- `strip_suffix` of a character. -/
def stripSuffix (c : Char) (text : List Char) : Option (List Char) :=
  if text.getLast? = some c then some text.dropLast else none

/-- `trim_start_matches` of a text, at most as often as told. -/
def trimStartUpTo (start : List Char) : Nat → List Char → List Char
  | 0, text => text
  | count + 1, text =>
    if start <+: text then trimStartUpTo start count (text.drop start.length) else text

/-- `trim_start_matches`. -/
def trimStartMatches (start text : List Char) : List Char := trimStartUpTo start text.length text

/-- `trim_end_matches` of a character. -/
def trimEndMatches (c : Char) (text : List Char) : List Char :=
  (text.reverse.dropWhile fun d => d = c).reverse

/-- `split_once` at a character. -/
def splitOnce (c : Char) (text : List Char) : Option (List Char × List Char) :=
  if c ∈ text then
    some (text.takeWhile fun d => d ≠ c, (text.dropWhile fun d => d ≠ c).tail)
  else none

/-- `eq_ignore_ascii_case`. -/
def eqIgnoreAsciiCase (text other : List Char) : Bool :=
  text.map Char.toLower = other.map Char.toLower

/-- One digit of `from_str_radix`. -/
def digitStep (bound n : Nat) (c : Char) : Except String Nat :=
  if '0' ≤ c ∧ c ≤ '9' then
    if bound ≤ n * 10 + (c.toNat - '0'.toNat) then
      .error "number too large to fit in target type"
    else .ok (n * 10 + (c.toNat - '0'.toNat))
  else .error "invalid digit found in string"

/-- `str::parse` of an unsigned integer below a bound. -/
def parseUnsigned (bound : Nat) (text : List Char) : Except String Nat :=
  if text.isEmpty then .error "cannot parse integer from empty string"
  else
    let digits := if text.head? = some '+' then text.tail else text
    if digits.isEmpty then .error "invalid digit found in string"
    else digits.foldlM (digitStep bound) 0

end TypeText

open TypeText

/-- `DEFAULT_GEO_CRS`. -/
def defaultGeoCrs : String := "OGC:CRS84"

/-- `Display` of `EdgeAlgorithm`. -/
def EdgeAlgorithm.display : EdgeAlgorithm → String
  | .spherical => "spherical"
  | .vincenty => "vincenty"
  | .andoyer => "andoyer"
  | .karney => "karney"

/-- `EdgeAlgorithm::from_str`. -/
def EdgeAlgorithm.fromStr (text : List Char) : Except Error EdgeAlgorithm :=
  match [EdgeAlgorithm.spherical, .vincenty, .andoyer, .karney].find? fun algorithm =>
      algorithm.display.toList = text.map Char.toLower with
  | some algorithm => .ok algorithm
  | none => .error (.conversion "string" "EdgeAlgorithm")

namespace PrimitiveType

/-! ### Serialization -/

/-- The types without parameters, with the names serde gives them. -/
def unitNames : List (String × PrimitiveType) :=
  [("boolean", .boolean), ("int", .int), ("long", .long), ("float", .float), ("double", .double),
    ("date", .date), ("time", .time), ("timestamp", .timestamp), ("timestamptz", .timestamptz),
    ("timestamp_ns", .timestampNs), ("timestamptz_ns", .timestamptzNs), ("string", .string),
    ("uuid", .uuid), ("binary", .binary), ("unknown", .unknown), ("variant", .variant)]

/-- `serialize_geography`. -/
def serializeGeography (crs : Option String) : Option EdgeAlgorithm → String
  | none => match crs with
    | none => "geography"
    | some crs => "geography(" ++ crs ++ ")"
  | some algorithm =>
    "geography(" ++ crs.getD defaultGeoCrs ++ ", " ++ algorithm.display ++ ")"

/-- `Serialize for PrimitiveType`. -/
def serialize : PrimitiveType → String
  | .decimal precision scale => "decimal(" ++ precision.repr ++ "," ++ scale.repr ++ ")"
  | .fixed length => "fixed[" ++ length.repr ++ "]"
  | .geometry none => "geometry"
  | .geometry (some crs) => "geometry(" ++ crs ++ ")"
  | .geography crs algorithm => serializeGeography crs algorithm
  | unit => ((unitNames.find? fun entry => entry.2 = unit).map (·.1)).getD ""

/-! ### Deserialization -/

/-- The arguments of a type between parentheses, trimmed. -/
def arguments (name text : List Char) : Option (List Char) :=
  ((stripPrefix (name ++ ['(']) text).bind (stripSuffix ')')).map trim

/-- A coordinate system, where it is not the default one. -/
def crsOf (text : List Char) : Option String :=
  if eqIgnoreAsciiCase text defaultGeoCrs.toList then none else some (String.ofList text)

/-- `deserialize_geometry`. -/
def deserializeGeometry (text : List Char) : Except Error PrimitiveType :=
  if text = "geometry".toList then .ok (.geometry none)
  else
    match arguments "geometry".toList text with
    | none => .error (.json ("invalid geometry type: " ++ String.ofList text))
    | some inner =>
      if inner.isEmpty then .error (.json "geometry type requires non-empty CRS")
      else .ok (.geometry (crsOf inner))

/-- The algorithm after the first comma of the arguments of `geography`. -/
def algorithmOf (inner : List Char) : Except Error (Option EdgeAlgorithm) :=
  match (splitOnce ',' inner).map fun parts => trim parts.2 with
  | none => .ok none
  | some [] => .ok none
  | some text => (EdgeAlgorithm.fromStr text).map some

/-- `deserialize_geography`. -/
def deserializeGeography (text : List Char) : Except Error PrimitiveType :=
  if text = "geography".toList then .ok (.geography none none)
  else
    match arguments "geography".toList text with
    | none => .error (.json ("invalid geography type: " ++ String.ofList text))
    | some inner =>
      if inner.isEmpty then .error (.json "geography type requires non-empty CRS")
      else
        ((algorithmOf inner).mapError fun e => .json e.message).map
          (.geography (crsOf (trim (inner.takeWhile fun d => d ≠ ','))))

/-- `deserialize_decimal`. -/
def deserializeDecimal (text : List Char) : Except Error PrimitiveType :=
  match splitOnce ',' (trimEndMatches ')' (trimStartMatches "decimal(".toList text)) with
  | none => .error (.json "Decimal requires precision and scale: {s}")
  | some (precision, scale) =>
    (parseUnsigned 4294967296 precision).mapError .json >>= fun precision =>
      (parseUnsigned 4294967296 (trim scale)).mapError .json >>= fun scale =>
        .ok (.decimal precision scale)

/-- `deserialize_fixed`. -/
def deserializeFixed (text : List Char) : Except Error PrimitiveType :=
  let length := trimEndMatches ']' (trimStartMatches "fixed[".toList text)
  ((parseUnsigned 18446744073709551616 length).mapError .json).map .fixed

/-- The names serde lists where it knows none of them. -/
def variantNames : List String :=
  ["boolean", "int", "long", "float", "double", "decimal", "date", "time", "timestamp",
    "timestamptz", "timestamp_ns", "timestamptz_ns", "string", "uuid", "fixed", "binary", "unknown",
    "variant", "geometry", "geography"]

/-- The derived deserializer, from a string. -/
def deserializeUnit (text : List Char) : Except Error PrimitiveType :=
  match unitNames.find? fun entry => entry.1.toList = text with
  | some entry => .ok entry.2
  | none => .error (.json ("unknown variant `" ++ String.ofList text ++ "`, expected one of `" ++
      "`, `".intercalate variantNames ++ "`"))

/-- `Deserialize for PrimitiveType`, of the characters of a string. -/
def deserialize (text : List Char) : Except Error PrimitiveType :=
  if "decimal".toList <+: text then deserializeDecimal text
  else if "fixed".toList <+: text then deserializeFixed text
  else if text = "geometry".toList ∨ "geometry(".toList <+: text then deserializeGeometry text
  else if text = "geography".toList ∨ "geography(".toList <+: text then deserializeGeography text
  else deserializeUnit text

end PrimitiveType

/-! ### Texts -/

namespace TypeText

open Fallible

variable {text : List Char}

/-- Text between characters that are not white space is not trimmed. -/
theorem trim_of_ends (first : ∀ c, text.head? = some c → isWhiteSpace c = false)
    (last : ∀ c, text.getLast? = some c → isWhiteSpace c = false) : trim text = text := by
  have start : text.dropWhile isWhiteSpace = text := by
    cases text with
    | nil => rfl
    | cons c rest => exact List.dropWhile_cons_of_neg (by simp [first c rfl])
  show (text.dropWhile isWhiteSpace).rdropWhile isWhiteSpace = text
  rw [start, List.rdropWhile_eq_self_iff]
  intro nonempty
  simp [last _ (List.getLast?_eq_some_getLast nonempty)]

theorem head?_trim {c : Char} (first : (trim text).head? = some c) : isWhiteSpace c = false := by
  have inside : trim text <+: text.dropWhile isWhiteSpace := List.rdropWhile_prefix _ _
  obtain ⟨rest, whole⟩ := inside
  have first' : (text.dropWhile isWhiteSpace).head? = some c := by
    rw [← whole, List.head?_append, first]
    rfl
  have outside := List.head?_dropWhile_not isWhiteSpace text
  rw [first'] at outside
  exact outside

theorem getLast?_trim {c : Char} (last : (trim text).getLast? = some c) :
    isWhiteSpace c = false := by
  have nonempty : trim text ≠ [] := by
    intro empty
    rw [empty] at last
    cases last
  have ends : (trim text).getLast nonempty = c :=
    Option.some.inj ((List.getLast?_eq_some_getLast nonempty).symm.trans last)
  have outside := List.rdropWhile_last_not isWhiteSpace (text.dropWhile isWhiteSpace) nonempty
  rw [← ends]
  exact Bool.eq_false_of_not_eq_true outside

theorem trim_trim (text : List Char) : trim (trim text) = trim text :=
  trim_of_ends (fun _ => head?_trim) fun _ => getLast?_trim

theorem stripPrefix_append (start text : List Char) :
    stripPrefix start (start ++ text) = some text := by
  unfold stripPrefix
  rw [if_pos (List.prefix_append start text), List.drop_left]

theorem stripSuffix_concat (c : Char) (text : List Char) :
    stripSuffix c (text ++ [c]) = some text := by
  unfold stripSuffix
  rw [List.getLast?_concat, if_pos rfl, List.dropLast_concat]

theorem trimStartMatches_append {start : List Char} (nonempty : start ≠ [])
    (once : ¬ start <+: text) : trimStartMatches start (start ++ text) = text := by
  have rest : ∀ count, trimStartUpTo start count text = text := by
    intro count
    cases count with
    | zero => rfl
    | succ count => exact if_neg once
  obtain ⟨count, long⟩ : ∃ count, (start ++ text).length = count + 1 := by
    have := List.length_pos_iff.mpr nonempty
    exact ⟨start.length + text.length - 1, by rw [List.length_append]; omega⟩
  unfold trimStartMatches
  rw [long, trimStartUpTo, if_pos (List.prefix_append start text), List.drop_left, rest]

theorem trimEndMatches_concat {c : Char} (once : c ∉ text) :
    trimEndMatches c (text ++ [c]) = text := by
  have kept : text.reverse.dropWhile (fun d => d = c) = text.reverse := by
    cases reversed : text.reverse with
    | nil => rfl
    | cons d rest =>
      have member : d ∈ text := List.mem_reverse.mp (reversed ▸ List.mem_cons_self)
      refine List.dropWhile_cons_of_neg ?_
      rw [decide_eq_true_eq]
      rintro rfl
      exact once member
  have here : (c :: text.reverse).dropWhile (fun d => d = c) = text.reverse :=
    (List.dropWhile_cons_of_pos (by simp)).trans kept
  unfold trimEndMatches
  rw [List.reverse_append, List.reverse_singleton, List.singleton_append, here,
    List.reverse_reverse]

theorem takeWhile_before {c : Char} {before : List Char} (outside : c ∉ before)
    (after : List Char) : (before ++ c :: after).takeWhile (fun d => d ≠ c) = before := by
  rw [List.takeWhile_append_of_pos, List.takeWhile_cons_of_neg (by simp), List.append_nil]
  intro d member
  rw [decide_eq_true_eq]
  rintro rfl
  exact outside member

theorem splitOnce_append {c : Char} {before : List Char} (outside : c ∉ before)
    (after : List Char) : splitOnce c (before ++ c :: after) = some (before, after) := by
  have rest : (before ++ c :: after).dropWhile (fun d => d ≠ c) = c :: after := by
    rw [List.dropWhile_append_of_pos, List.dropWhile_cons_of_neg (by simp)]
    intro d member
    rw [decide_eq_true_eq]
    rintro rfl
    exact outside member
  unfold splitOnce
  rw [if_pos (List.mem_append_right _ List.mem_cons_self), takeWhile_before outside, rest]
  rfl

/-! ### Numbers -/

theorem digitStep_eq_ok {bound n m : Nat} {c : Char} (step : digitStep bound n c = .ok m) :
    m < bound := by
  unfold digitStep at step
  split at step
  · obtain ⟨small, same⟩ := guard_eq_ok.mp step
    cases same
    exact Nat.not_le.mp small
  · cases step

/-- A parsed number is below the bound. -/
theorem lt_of_parseUnsigned {bound n : Nat} (parsed : parseUnsigned bound text = .ok n) :
    n < bound := by
  unfold parseUnsigned at parsed
  obtain ⟨-, parsed⟩ := guard_eq_ok.mp parsed
  obtain ⟨some', parsed⟩ := guard_eq_ok.mp parsed
  generalize (if text.head? = some '+' then text.tail else text) = digits at some' parsed
  cases digits with
  | nil => exact absurd rfl some'
  | cons c rest =>
    obtain ⟨m, first, parsed⟩ := foldlM_cons_eq_ok.mp parsed
    exact foldlM_invariant (· < bound) (fun _ _ _ _ _ step => digitStep_eq_ok step) parsed
      (digitStep_eq_ok first)

theorem le_ofDigitChars (digits : List Char) (start : Nat) :
    start ≤ Nat.ofDigitChars 10 digits start := by
  induction digits generalizing start with
  | nil => exact Nat.le_refl _
  | cons c digits ih =>
    rw [Nat.ofDigitChars_cons]
    have := ih (10 * start + (c.toNat - '0'.toNat))
    omega

/-- The digits of a number below the bound never exceed it. -/
theorem foldlM_digitStep {bound : Nat} {digits : List Char} (decimal : ∀ c ∈ digits, c.isDigit)
    {start : Nat} (small : Nat.ofDigitChars 10 digits start < bound) :
    digits.foldlM (digitStep bound) start = .ok (Nat.ofDigitChars 10 digits start) := by
  induction digits generalizing start with
  | nil => rfl
  | cons c digits ih =>
    have here : '0' ≤ c ∧ c ≤ '9' := by
      simpa [Char.isDigit, Char.le_def] using decimal c List.mem_cons_self
    rw [Nat.ofDigitChars_cons] at small ⊢
    have below := Nat.lt_of_le_of_lt (le_ofDigitChars digits _) small
    have step : digitStep bound start c = .ok (10 * start + (c.toNat - '0'.toNat)) := by
      unfold digitStep
      rw [if_pos here, Nat.mul_comm start 10, if_neg (Nat.not_le.mpr below)]
    rw [List.foldlM_cons, step]
    exact ih (fun d member => decimal d (List.mem_cons_of_mem _ member)) small

theorem parseUnsigned_repr {bound n : Nat} (small : n < bound) :
    parseUnsigned bound n.repr.toList = .ok n := by
  obtain ⟨c, rest, shape, -, plus⟩ := toList_repr_cons n
  have decimal : ∀ c ∈ n.repr.toList, c.isDigit := by
    intro c member
    rw [Nat.toList_repr] at member
    exact Nat.isDigit_of_mem_toDigits (by decide) (by decide) member
  have value : Nat.ofDigitChars 10 n.repr.toList 0 = n := by
    rw [Nat.toList_repr, Nat.ofDigitChars_ten_toDigits]
  have first : n.repr.toList.head? ≠ some '+' := by
    rw [shape]
    intro same
    exact plus (Option.some.inj same)
  have nonempty : n.repr.toList.isEmpty = false := by
    rw [shape]
    rfl
  have run := foldlM_digitStep decimal (value.symm ▸ small : _ < bound)
  rw [value] at run
  unfold parseUnsigned
  rw [nonempty, if_neg first]
  simpa [nonempty] using run

end TypeText

/-! ### Round trips -/

namespace PrimitiveType

open Fallible

/-- A coordinate system as the deserializers leave it. -/
def CrsText (crs : String) : Prop :=
  trim crs.toList = crs.toList ∧ eqIgnoreAsciiCase crs.toList defaultGeoCrs.toList = false

/-- The types that have a text. -/
def Legal : PrimitiveType → Prop
  | .decimal precision scale => precision < 4294967296 ∧ scale < 4294967296
  | .fixed length => length < 18446744073709551616
  | .geometry (some crs) => CrsText crs ∧ crs.toList ≠ []
  | .geography (some crs) _ => CrsText crs ∧ ',' ∉ crs.toList
  | _ => True

variable {text : List Char} {type : PrimitiveType}

variable {crs : String}

theorem crsOf_eq_some (found : crsOf text = some crs) :
    crs.toList = text ∧ eqIgnoreAsciiCase text defaultGeoCrs.toList = false := by
  unfold crsOf at found
  by_cases default : eqIgnoreAsciiCase text defaultGeoCrs.toList = true
  · rw [if_pos default] at found
    cases found
  · rw [if_neg default] at found
    cases found
    exact ⟨String.toList_ofList, Bool.eq_false_of_not_eq_true default⟩

theorem crsOf_trim (found : crsOf (trim text) = some crs) :
    CrsText crs ∧ crs.toList = trim text := by
  obtain ⟨same, other⟩ := crsOf_eq_some found
  exact ⟨⟨by rw [same, trim_trim], by rw [same, other]⟩, same⟩

theorem crsOf_toList (legal : CrsText crs) : crsOf crs.toList = some crs := by
  unfold crsOf
  rw [legal.2, String.ofList_toList]
  rfl

theorem notMem_trim_takeWhile (c : Char) (text : List Char) :
    c ∉ trim (text.takeWhile fun d => d ≠ c) := by
  intro member
  have inside : trim (text.takeWhile fun d => d ≠ c) ⊆ text.takeWhile fun d => d ≠ c :=
    fun d here => (List.dropWhile_sublist _).subset
      ((List.rdropWhile_prefix isWhiteSpace _).subset here)
  simpa using List.mem_takeWhile_imp (inside member)

theorem legal_decimal (run : deserializeDecimal text = .ok type) : type.Legal := by
  unfold deserializeDecimal at run
  split at run
  · cases run
  · obtain ⟨precision, first, run⟩ := bind_eq_ok.mp run
    obtain ⟨scale, second, run⟩ := bind_eq_ok.mp run
    cases run
    exact ⟨lt_of_parseUnsigned (mapError_eq_ok.mp first),
      lt_of_parseUnsigned (mapError_eq_ok.mp second)⟩

theorem legal_fixed (run : deserializeFixed text = .ok type) : type.Legal := by
  obtain ⟨length, parsed, rfl⟩ := map_eq_ok.mp run
  exact lt_of_parseUnsigned (mapError_eq_ok.mp parsed)

theorem arguments_eq_some {name inner : List Char} (found : arguments name text = some inner) :
    ∃ text', inner = trim text' := by
  obtain ⟨text', -, rfl⟩ := Option.map_eq_some_iff.mp found
  exact ⟨text', rfl⟩

theorem legal_geometry (run : deserializeGeometry text = .ok type) : type.Legal := by
  unfold deserializeGeometry at run
  split at run
  · cases run
    trivial
  · cases found : arguments "geometry".toList text with
    | none =>
      rw [found] at run
      cases run
    | some inner =>
      obtain ⟨text', rfl⟩ := arguments_eq_some found
      rw [found] at run
      obtain ⟨nonempty, run⟩ := guard_eq_ok.mp run
      cases run
      cases crs : crsOf (trim text') with
      | none => trivial
      | some crs =>
        obtain ⟨legal, same⟩ := crsOf_trim ‹_›
        refine ⟨legal, ?_⟩
        rw [same]
        simpa using nonempty

theorem legal_geography (run : deserializeGeography text = .ok type) : type.Legal := by
  unfold deserializeGeography at run
  split at run
  · cases run
    trivial
  · cases found : arguments "geography".toList text with
    | none =>
      rw [found] at run
      cases run
    | some inner =>
      rw [found] at run
      obtain ⟨-, run⟩ := guard_eq_ok.mp run
      obtain ⟨algorithm, -, rfl⟩ := map_eq_ok.mp run
      cases crs : crsOf (trim (inner.takeWhile fun d => d ≠ ',')) with
      | none => trivial
      | some crs =>
        obtain ⟨legal, same⟩ := crsOf_trim ‹_›
        exact ⟨legal, same ▸ notMem_trim_takeWhile ',' inner⟩

theorem legal_unit (run : deserializeUnit text = .ok type) : type.Legal := by
  unfold deserializeUnit at run
  split at run
  · cases run
    rename_i entry found
    have member := List.mem_of_find?_eq_some found
    have legal : ∀ entry ∈ unitNames, entry.2.Legal := by simp [unitNames, Legal]
    exact legal entry member
  · cases run

/-- What a text gives is legal. -/
theorem legal_of_deserialize (run : deserialize text = .ok type) : type.Legal := by
  unfold deserialize at run
  split at run
  · exact legal_decimal run
  · split at run
    · exact legal_fixed run
    · split at run
      · exact legal_geometry run
      · split at run
        · exact legal_geography run
        · exact legal_unit run

/-! ### From the text of a type -/

theorem isWhiteSpace_of_isDigit {c : Char} (digit : c.isDigit) : isWhiteSpace c = false := by
  have range : 48 ≤ c.toNat ∧ c.toNat ≤ 57 := by
    simpa [Char.isDigit, Char.le_def, UInt32.le_iff_toNat_le] using digit
  unfold isWhiteSpace
  simp
  omega

theorem trim_repr (n : Nat) : trim n.repr.toList = n.repr.toList := by
  have decimal : ∀ c ∈ n.repr.toList, isWhiteSpace c = false := by
    intro c member
    rw [Nat.toList_repr] at member
    exact isWhiteSpace_of_isDigit (Nat.isDigit_of_mem_toDigits (by decide) (by decide) member)
  exact trim_of_ends (fun c first => decimal c (List.mem_of_head? first))
    fun c last => decimal c (List.mem_of_getLast? last)

/-- No name is the start of a number. -/
theorem not_prefix_repr {c : Char} (letter : c.isDigit = false) (start : List Char) (n : Nat)
    (rest : List Char) : ¬ c :: start <+: n.repr.toList ++ rest := by
  rintro ⟨more, same⟩
  obtain ⟨d, digits, shape, -⟩ := toList_repr_cons n
  rw [shape] at same
  obtain ⟨rfl, -⟩ := List.cons.inj same
  exact notMem_digits letter n (shape ▸ List.mem_cons_self)

theorem deserialize_decimal {precision scale : Nat} (low : precision < 4294967296)
    (low' : scale < 4294967296) :
    deserialize (serialize (.decimal precision scale)).toList = .ok (.decimal precision scale) := by
  have text : (serialize (.decimal precision scale)).toList = "decimal(".toList ++
      ((precision.repr.toList ++ ',' :: scale.repr.toList) ++ [')']) := by
    simp [serialize]
  have named : "decimal".toList <+: (serialize (.decimal precision scale)).toList := by
    rw [text]
    exact ⟨_ :: _, rfl⟩
  have once : ¬ "decimal(".toList <+:
      (precision.repr.toList ++ ',' :: scale.repr.toList) ++ [')'] := by
    rw [List.append_assoc]
    exact not_prefix_repr (by decide) _ precision _
  have closed : ')' ∉ precision.repr.toList ++ ',' :: scale.repr.toList := by
    have outside := notMem_digits (show Char.isDigit ')' = false from rfl)
    rw [List.mem_append, List.mem_cons]
    rintro (inside | same | inside)
    · exact outside precision inside
    · cases same
    · exact outside scale inside
  unfold deserialize
  rw [if_pos named, text]
  unfold deserializeDecimal
  rw [trimStartMatches_append (by decide) once, trimEndMatches_concat closed,
    splitOnce_append (notMem_digits rfl precision)]
  simp only [trim_repr, parseUnsigned_repr low, parseUnsigned_repr low', mapError_ok, ok_bind]

theorem deserialize_fixed {length : Nat} (low : length < 18446744073709551616) :
    deserialize (serialize (.fixed length)).toList = .ok (.fixed length) := by
  have text : (serialize (.fixed length)).toList =
      "fixed[".toList ++ (length.repr.toList ++ [']']) := by
    simp [serialize]
  have other : ¬ "decimal".toList <+: (serialize (.fixed length)).toList := by
    rw [text]
    rintro ⟨rest, same⟩
    exact absurd (List.cons.inj same).1 (by decide)
  have named : "fixed".toList <+: (serialize (.fixed length)).toList := by
    rw [text]
    exact ⟨_ :: _, rfl⟩
  have once : ¬ "fixed[".toList <+: length.repr.toList ++ [']'] :=
    not_prefix_repr (by decide) _ length _
  unfold deserialize
  rw [if_neg other, if_pos named, text]
  unfold deserializeFixed
  rw [trimStartMatches_append (by decide) once, trimEndMatches_concat (notMem_digits rfl length)]
  simp only [parseUnsigned_repr low, mapError_ok]
  rfl

theorem deserialize_unit (listed : type ∈ unitNames.map (·.2)) :
    deserialize type.serialize.toList = .ok type := by
  obtain ⟨entry, member, rfl⟩ := List.mem_map.mp listed
  have each : ∀ entry ∈ unitNames,
      (deserialize entry.2.serialize.toList).toOption = some entry.2 := by decide
  exact toOption_eq_some.mp (each entry member)

/-- Names of geospatial types are told apart from the first letter on. -/
theorem deserialize_geo : deserialize ('g' :: 'e' :: 'o' :: text) =
    if 'g' :: 'e' :: 'o' :: text = "geometry".toList ∨
      "geometry(".toList <+: 'g' :: 'e' :: 'o' :: text then
        deserializeGeometry ('g' :: 'e' :: 'o' :: text)
    else if 'g' :: 'e' :: 'o' :: text = "geography".toList ∨
      "geography(".toList <+: 'g' :: 'e' :: 'o' :: text then
        deserializeGeography ('g' :: 'e' :: 'o' :: text)
    else deserializeUnit ('g' :: 'e' :: 'o' :: text) := by
  have decimal : ¬ "decimal".toList <+: 'g' :: 'e' :: 'o' :: text := by
    rintro ⟨rest, same⟩
    exact absurd (List.cons.inj same).1 (by decide)
  have fixed : ¬ "fixed".toList <+: 'g' :: 'e' :: 'o' :: text := by
    rintro ⟨rest, same⟩
    exact absurd (List.cons.inj same).1 (by decide)
  unfold deserialize
  rw [if_neg decimal, if_neg fixed]

theorem arguments_append (name inner : List Char) :
    arguments name (name ++ '(' :: (inner ++ [')'])) = some (trim inner) := by
  have split : name ++ '(' :: (inner ++ [')']) = (name ++ ['(']) ++ (inner ++ [')']) := by simp
  unfold arguments
  rw [split, stripPrefix_append, Option.bind_some, stripSuffix_concat, Option.map_some]

theorem deserialize_geometry (legal : CrsText crs) (nonempty : crs.toList ≠ []) :
    deserialize (serialize (.geometry (some crs))).toList = .ok (.geometry (some crs)) := by
  have text : (serialize (.geometry (some crs))).toList =
      "geometry".toList ++ '(' :: (crs.toList ++ [')']) := by
    simp [serialize]
  have bare : "geometry".toList ++ '(' :: (crs.toList ++ [')']) ≠ "geometry".toList := by
    intro same
    have lengths := congrArg List.length same
    simp at lengths
  have inner : crs.toList.isEmpty = false := by simpa using nonempty
  rw [text]
  refine deserialize_geo.trans ((if_pos (.inr ⟨_, rfl⟩)).trans ?_)
  show deserializeGeometry ("geometry".toList ++ '(' :: (crs.toList ++ [')'])) = _
  unfold deserializeGeometry
  rw [if_neg bare, arguments_append]
  simp only [legal.1, inner, crsOf_toList legal]
  rfl

/-- The arguments of `geography`, from its text. -/
theorem deserialize_geographyText (inner : List Char) :
    deserialize ("geography".toList ++ '(' :: (inner ++ [')'])) =
      if (trim inner).isEmpty then .error (.json "geography type requires non-empty CRS")
      else ((algorithmOf (trim inner)).mapError fun e => .json e.message).map
        (.geography (crsOf (trim ((trim inner).takeWhile fun d => d ≠ ',')))) := by
  have bare : "geography".toList ++ '(' :: (inner ++ [')']) ≠ "geography".toList := by
    intro same
    have lengths := congrArg List.length same
    simp at lengths
  have other : ¬ ("geography".toList ++ '(' :: (inner ++ [')']) = "geometry".toList ∨
      "geometry(".toList <+: "geography".toList ++ '(' :: (inner ++ [')'])) := by
    rintro (same | ⟨rest, same⟩)
    · have letters : some 'g' = some 'm' := congrArg (fun text => text[3]?) same
      cases letters
    · have letters : some 'm' = some 'g' := congrArg (fun text => text[3]?) same
      cases letters
  refine deserialize_geo.trans ((if_neg other).trans ((if_pos (.inr ⟨_, rfl⟩)).trans ?_))
  show deserializeGeography ("geography".toList ++ '(' :: (inner ++ [')'])) = _
  unfold deserializeGeography
  rw [if_neg bare, arguments_append]

theorem algorithm_ends (algorithm : EdgeAlgorithm) :
    (∀ c, algorithm.display.toList.getLast? = some c → isWhiteSpace c = false) ∧
      trim algorithm.display.toList = algorithm.display.toList ∧
      EdgeAlgorithm.fromStr algorithm.display.toList = .ok algorithm := by
  refine ⟨?_, ?_, ?_⟩
  · cases algorithm <;> intro c last <;> cases last <;> rfl
  · cases algorithm <;> decide
  · cases algorithm <;> rfl

/-- A coordinate system and an algorithm. -/
theorem deserialize_geography_some (trimmed : trim crs.toList = crs.toList)
    (whole : ',' ∉ crs.toList) (algorithm : EdgeAlgorithm) :
    deserialize ("geography".toList ++ '(' ::
        ((crs.toList ++ ',' :: ' ' :: algorithm.display.toList) ++ [')'])) =
      .ok (.geography (crsOf crs.toList) (some algorithm)) := by
  obtain ⟨last, -, parsed⟩ := algorithm_ends algorithm
  have spaced : trim (' ' :: algorithm.display.toList) = algorithm.display.toList := by
    cases algorithm <;> decide
  have shown : algorithm.display.toList ≠ [] := by
    cases algorithm <;> decide
  have ends : trim (crs.toList ++ ',' :: ' ' :: algorithm.display.toList) =
      crs.toList ++ ',' :: ' ' :: algorithm.display.toList := by
    apply trim_of_ends
    · intro c first
      cases shape : crs.toList with
      | nil =>
        rw [shape] at first
        cases first
        rfl
      | cons d rest =>
        rw [shape] at first trimmed
        exact head?_trim ((congrArg List.head? trimmed).trans first)
    · intro c final
      rw [List.getLast?_append_of_ne_nil _ (List.cons_ne_nil _ _), List.getLast?_cons_cons,
        List.getLast?_cons] at final
      apply last
      rw [← final, List.getLast?_eq_some_getLast shown]
      rfl
  have nonempty : (crs.toList ++ ',' :: ' ' :: algorithm.display.toList).isEmpty = false := by
    cases crs.toList <;> rfl
  have named : algorithmOf (crs.toList ++ ',' :: ' ' :: algorithm.display.toList) =
      .ok (some algorithm) := by
    unfold algorithmOf
    rw [splitOnce_append whole]
    simp only [Option.map_some, spaced]
    cases shape : algorithm.display.toList with
    | nil => exact absurd shape shown
    | cons c rest =>
      rw [shape] at parsed
      simp only [parsed]
      rfl
  rw [deserialize_geographyText, ends, nonempty, takeWhile_before whole, trimmed, named]
  rfl

/-- A coordinate system alone. -/
theorem deserialize_geography_none (legal : CrsText crs) (whole : ',' ∉ crs.toList)
    (nonempty : crs.toList ≠ []) :
    deserialize ("geography".toList ++ '(' :: (crs.toList ++ [')'])) =
      .ok (.geography (some crs) none) := by
  have start : crs.toList.takeWhile (fun d => d ≠ ',') = crs.toList := by
    rw [List.takeWhile_eq_self_iff]
    intro d member
    rw [decide_eq_true_eq]
    rintro rfl
    exact whole member
  have unnamed : algorithmOf crs.toList = .ok none := by
    unfold algorithmOf splitOnce
    rw [if_neg whole]
    rfl
  have inner : crs.toList.isEmpty = false := by simpa using nonempty
  rw [deserialize_geographyText, legal.1, inner, start, legal.1, unnamed, crsOf_toList legal]
  rfl

theorem deserialize_geography {crs : Option String} {algorithm : Option EdgeAlgorithm}
    (legal : Legal (.geography crs algorithm)) :
    deserialize (serialize (.geography crs algorithm)).toList = .ok (.geography crs algorithm) ↔
      ¬ (crs = some "" ∧ algorithm = none) := by
  cases algorithm with
  | none =>
    cases crs with
    | none => exact iff_of_true rfl nofun
    | some crs =>
      have text : (serialize (.geography (some crs) none)).toList =
          "geography".toList ++ '(' :: (crs.toList ++ [')']) := by
        simp [serialize, serializeGeography]
      by_cases empty : crs = ""
      · subst empty
        refine iff_of_false ?_ (fun given => given ⟨rfl, rfl⟩)
        rw [text, deserialize_geographyText]
        exact nofun
      · refine iff_of_true ?_ (fun given => empty (Option.some.inj given.1))
        rw [text]
        apply deserialize_geography_none legal.1 legal.2
        intro bare
        exact empty (String.toList_inj.mp bare)
  | some algorithm =>
    refine iff_of_true ?_ nofun
    have text : (serialize (.geography crs (some algorithm))).toList = "geography".toList ++ '(' ::
        (((crs.getD defaultGeoCrs).toList ++ ',' :: ' ' :: algorithm.display.toList) ++ [')']) := by
      simp [serialize, serializeGeography]
    rw [text]
    cases crs with
    | none => exact deserialize_geography_some (by decide) (by decide) algorithm
    | some crs =>
      have printed := deserialize_geography_some legal.1.1 legal.2 algorithm
      rwa [crsOf_toList legal.1] at printed

/-- **Texts of primitive types.**  A type that a text gives is given back by its own text, but for
`geography` with an empty coordinate system and no algorithm. -/
theorem deserialize_serialize_iff (legal : type.Legal) :
    deserialize type.serialize.toList = .ok type ↔ type ≠ .geography (some "") none := by
  cases type with
  | decimal precision scale => exact iff_of_true (deserialize_decimal legal.1 legal.2) nofun
  | fixed length => exact iff_of_true (deserialize_fixed legal) nofun
  | geometry crs =>
    refine iff_of_true ?_ nofun
    cases crs with
    | none => rfl
    | some crs => exact deserialize_geometry legal.1 legal.2
  | geography crs algorithm =>
    refine (deserialize_geography legal).trans (not_congr ?_)
    constructor
    · rintro ⟨rfl, rfl⟩
      rfl
    · intro same
      cases same
      exact ⟨rfl, rfl⟩
  | _ => exact iff_of_true (deserialize_unit (by decide)) nofun

end PrimitiveType


end IcebergRust
