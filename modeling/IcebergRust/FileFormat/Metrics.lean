import IcebergRust.Spec.Decimal
import IcebergRust.Spec.Order

/-!
# Metrics modes and truncated bounds

`file_format/metrics.rs`: how much is recorded of a column, and the bounds that are cut to a
number of units.

* `truncateLowerBound` keeps a prefix of the value; `truncateUpperBound` raises the last unit
  of it that can be raised, and drops the bound where none can be.
* `truncated_bounds` says what the cut bounds still bound, and when there is none.
-/

namespace IcebergRust

open Lexicographic

/-! ### Modes -/

/-- `MetricsMode`. -/
inductive MetricsMode where
  | none
  | counts
  | truncate (length : Nat)
  | full
deriving DecidableEq, Repr

/-- `str::parse::<usize>`. -/
def parseUsize (text : List Char) : Option Nat :=
  let value := match text with
    | '+' :: digits => parseDigits digits
    | digits => parseDigits digits
  value.filter fun n => decide (n < 18446744073709551616)

namespace MetricsMode

/-- `MetricsMode::parse`. -/
def parse (value : String) : Option MetricsMode :=
  let value := (trim value.toList).map Char.toLower
  if value = "none".toList then some .none
  else if value = "counts".toList then some .counts
  else if value = "full".toList then some .full
  else if "truncate(".toList <+: value ∧ value.getLast? = some ')' then
    match parseUsize (trim (value.drop 9).dropLast) with
    | some length => if 0 < length then some (.truncate length) else Option.none
    | Option.none => Option.none
  else Option.none

/-- `records_counts`. -/
def recordsCounts (mode : MetricsMode) : Bool := mode ≠ .none

/-- `records_bounds`. -/
def recordsBounds : MetricsMode → Bool
  | .truncate _ => true
  | .full => true
  | _ => false

end MetricsMode

/-- `MetricsConfig`. -/
structure MetricsConfig where
  defaultMode : MetricsMode
  columnModes : HashMap String MetricsMode
  maxInferredColumnDefaults : Nat

namespace MetricsConfig

/-- `DEFAULT_TRUNCATE_LENGTH`. -/
def defaultTruncateLength : Nat := 16

/-- `DEFAULT_MAX_INFERRED_COLUMN_DEFAULTS`. -/
def defaultMaxInferredColumnDefaults : Nat := 100

/-- `WRITE_METADATA_METRICS_COLUMN_PREFIX`. -/
def columnPrefix : String := "write.metadata.metrics.column."

/-- `MetricsConfig::from_table_properties`. -/
def fromTableProperties (properties : HashMap String String) : MetricsConfig where
  defaultMode := ((properties.lookup "write.metadata.metrics.default").bind MetricsMode.parse).getD
    (.truncate defaultTruncateLength)
  columnModes := HashMap.fromIter (properties.iter.filterMap fun entry =>
    if columnPrefix.toList <+: entry.1.toList then
      (MetricsMode.parse entry.2).map fun mode =>
        (String.ofList (entry.1.toList.drop columnPrefix.length), mode)
    else none)
  maxInferredColumnDefaults :=
    ((properties.lookup "write.metadata.metrics.max-inferred-column-defaults").bind
      fun value => parseUsize value.toList).getD defaultMaxInferredColumnDefaults

/-- `MetricsConfig::mode_for`. -/
def modeFor (config : MetricsConfig) (columnName : String) (topLevelIndex : Option Nat) :
    MetricsMode :=
  match config.columnModes.lookup columnName with
  | some mode => mode
  | none =>
    match topLevelIndex with
    | some index => if config.maxInferredColumnDefaults ≤ index then .none else config.defaultMode
    | none => config.defaultMode

end MetricsConfig

/-! ### Truncation -/

/-- `char::from_u32`. -/
def charFromU32 (code : Nat) : Option Char :=
  if valid : code.isValidChar then some (Char.ofNatAux code valid) else none

/-- `next_char`: the surrogates are skipped. -/
def nextChar (c : Char) : Option Char :=
  let code := c.toNat + 1
  charFromU32 (if 0xD800 ≤ code ∧ code ≤ 0xDFFF then 0xE000 else code)

/-- The byte after one, which the loop over binary bounds increments to. -/
def nextByte (byte : UInt8) : Option UInt8 := if byte ≠ 255 then some (byte + 1) else none

/-- `truncate_lower_bound`. -/
def truncateLowerBound (value : Value) (length : Nat) : Value :=
  match value with
  | .string string => .string (String.ofList (string.toList.take length))
  | .binary bytes => .binary (bytes.take length)
  | other => other

/-- `truncate_upper_bound`. -/
def truncateUpperBound (value : Value) (length : Nat) : Option Value :=
  match value with
  | .string string =>
    if string.toList.length ≤ length then some (.string string)
    else (raise nextChar (string.toList.take length).reverse).map fun chars =>
      .string (String.ofList chars)
  | .binary bytes =>
    if bytes.length ≤ length then some (.binary bytes)
    else (raise nextByte (bytes.take length).reverse).map .binary
  | other => some other

/-! ### What cut bounds bound -/

theorem toNat_charFromU32 {code : Nat} {c : Char} (found : charFromU32 code = some c) :
    c.toNat = code := by
  by_cases valid : code.isValidChar
  · rw [charFromU32, dif_pos valid] at found
    cases found
    exact UInt32.toNat_ofNatLT
  · rw [charFromU32, dif_neg valid] at found
    cases found

theorem char_lt_iff {a b : Char} : a < b ↔ a.toNat < b.toNat := Iff.rfl

/-- A character is below the next one, and the last character is above all others. -/
theorem successors_nextChar : Successors nextChar where
  above := by
    intro a b found
    have code := toNat_charFromU32 found
    rw [char_lt_iff]
    split at code <;> omega
  greatest := by
    intro a missing b less
    rw [char_lt_iff] at less
    have bound : b.toNat < 0x110000 := by
      rcases b.valid with low | ⟨-, high⟩
      · exact Nat.lt_trans low (by decide)
      · exact high
    have valid : Nat.isValidChar
        (if 0xD800 ≤ a.toNat + 1 ∧ a.toNat + 1 ≤ 0xDFFF then 0xE000 else a.toNat + 1) := by
      unfold Nat.isValidChar
      split <;> omega
    unfold nextChar charFromU32 at missing
    rw [dif_pos valid] at missing
    cases missing

theorem successors_nextByte : Successors nextByte where
  above := by
    intro a b found
    unfold nextByte at found
    split at found
    · rename_i low
      cases found
      have low : a.toNat ≠ 255 := fun same => low (UInt8.toNat_inj.mp same)
      have high := a.toNat_lt
      rw [UInt8.lt_iff_toNat_lt, UInt8.toNat_add]
      simp only [UInt8.reduceToNat]
      omega
    · cases found
  greatest := by
    intro a missing b less
    unfold nextByte at missing
    split at missing
    · cases missing
    · rename_i last
      have last : a.toNat = 255 := congrArg UInt8.toNat (not_not.mp last)
      have high := b.toNat_lt
      rw [UInt8.lt_iff_toNat_lt] at less
      omega

namespace Value

/-- The number of units of a value that can be cut. -/
def units : Value → Nat
  | .string text => text.toList.length
  | .binary bytes => bytes.length
  | _ => 0

/-- A value begins with another one. -/
def BeginsWith : Value → Value → Prop
  | .string text, .string start => start.toList <+: text.toList
  | .binary bytes, .binary start => start <+: bytes
  | value, start => value = start

end Value

open Value

/-- What the cut bounds of a value bound. -/
structure BoundsCut (value : Value) (length : Nat) : Prop where
  /-- The lower bound is a prefix, and at most what the value is at most. -/
  prefixed : value.BeginsWith (truncateLowerBound value length)
  short : (truncateLowerBound value length).units ≤ length
  below : ∀ other, AtMost value other → AtMost (truncateLowerBound value length) other
  /-- An upper bound is at least what the value is at least, cut, and a valid string. -/
  above : ∀ bound, truncateUpperBound value length = some bound →
    ∀ other, AtMost other value → AtMost other bound
  cut : ∀ bound, truncateUpperBound value length = some bound → length < value.units →
    bound.units ≤ length
  valid : ∀ text, truncateUpperBound value length = some (.string text) →
    text.toUTF8.IsValidUTF8
  /-- Without one, no short value bounds everything that begins as the value does. -/
  absent : truncateUpperBound value length = none → ∀ bound : Value, bound.units ≤ length →
    ∃ other : Value, other.BeginsWith (truncateLowerBound value length) ∧ ¬ AtMost other bound

theorem boundsCut_string (text : String) (length : Nat) : BoundsCut (.string text) length := by
  have chars : (String.ofList (text.toList.take length)).toList = text.toList.take length :=
    String.toList_ofList
  refine ⟨?_, ?_, ?_, ?_, ?_, fun text _ => text.isValidUTF8, ?_⟩
  · rw [truncateLowerBound, BeginsWith, chars]
    exact List.take_prefix _ _
  · rw [truncateLowerBound, units, chars]
    exact List.length_take_le _ _
  · intro other atMost
    refine AtMost.trans (atMost_string.mpr ?_) atMost
    rw [chars]
    exact not_lt_take _ _
  · intro bound run other atMost
    refine atMost.trans ?_
    rw [truncateUpperBound] at run
    split at run
    · cases run
      exact AtMost.refl _
    · obtain ⟨raised, found, rfl⟩ := Option.map_eq_some_iff.mp run
      have less := lt_of_raise_take successors_nextChar found
      rw [atMost_string, String.toList_ofList]
      exact List.lt_asymm less
  · intro bound run long
    rw [units] at long
    rw [truncateUpperBound, if_neg (Nat.not_le.mpr long)] at run
    obtain ⟨raised, found, rfl⟩ := Option.map_eq_some_iff.mp run
    rw [units, String.toList_ofList]
    exact length_raise_take found
  · intro run bound fits
    rw [truncateUpperBound] at run
    split at run
    · cases run
    · rename_i long
      by_cases type : bound.datatype = .primitive .string
      · obtain ⟨short, rfl⟩ := eq_string_of_datatype type
        have above := lt_take_append successors_nextChar (Option.map_eq_none_iff.mp run)
          (Nat.le_of_not_le long) fits 'a'
        refine ⟨.string (String.ofList (text.toList.take length ++ ['a'])), ?_, ?_⟩
        · rw [truncateLowerBound, BeginsWith, chars, String.toList_ofList]
          exact List.prefix_append _ _
        · rw [atMost_string, String.toList_ofList]
          exact not_not.mpr above
      · refine ⟨truncateLowerBound (.string text) length, ?_, fun atMost => type atMost.1.symm⟩
        exact List.prefix_refl _

theorem boundsCut_binary (bytes : List UInt8) (length : Nat) :
    BoundsCut (.binary bytes) length := by
  refine ⟨?_, ?_, ?_, ?_, ?_, fun text _ => text.isValidUTF8, ?_⟩
  · exact List.take_prefix _ _
  · exact List.length_take_le _ _
  · intro other atMost
    refine AtMost.trans (atMost_binary.mpr ?_) atMost
    exact not_lt_take _ _
  · intro bound run other atMost
    refine atMost.trans ?_
    rw [truncateUpperBound] at run
    split at run
    · cases run
      exact AtMost.refl _
    · obtain ⟨raised, found, rfl⟩ := Option.map_eq_some_iff.mp run
      have less := lt_of_raise_take successors_nextByte found
      exact atMost_binary.mpr (List.le_of_lt less)
  · intro bound run long
    rw [units] at long
    rw [truncateUpperBound, if_neg (Nat.not_le.mpr long)] at run
    obtain ⟨raised, found, rfl⟩ := Option.map_eq_some_iff.mp run
    exact length_raise_take found
  · intro run bound fits
    rw [truncateUpperBound] at run
    split at run
    · cases run
    · rename_i long
      by_cases type : bound.datatype = .primitive .binary
      · obtain ⟨short, rfl⟩ := eq_binary_of_datatype type
        have above := lt_take_append successors_nextByte (Option.map_eq_none_iff.mp run)
          (Nat.le_of_not_le long) fits 0
        refine ⟨.binary (bytes.take length ++ [0]), List.prefix_append _ _, ?_⟩
        rw [atMost_binary, List.not_le]
        exact above
      · refine ⟨truncateLowerBound (.binary bytes) length, ?_, fun atMost => type atMost.1.symm⟩
        exact List.prefix_refl _

/-- The cut bounds of a value bound what the value bounds: values that cannot be cut stay as they
are. -/
theorem truncated_bounds (value : Value) (length : Nat) : BoundsCut value length := by
  cases value with
  | string text => exact boundsCut_string text length
  | binary bytes => exact boundsCut_binary bytes length
  | _ =>
    refine ⟨?_, Nat.zero_le _, fun _ atMost => atMost, ?_, ?_, ?_, ?_⟩
    · rfl
    · intro bound run
      cases run
      exact fun _ atMost => atMost
    · intro bound run
      cases run
      exact fun _ => Nat.zero_le _
    · exact fun text _ => text.isValidUTF8
    · exact fun run => by cases run

end IcebergRust
