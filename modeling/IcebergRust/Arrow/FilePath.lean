import IcebergRust.Spec.Schema
import IcebergRust.Spec.Value

/-!
# Paths of data files

`generate_partition_path` and `generate_file_path` of `iceberg-rust/src/arrow/write.rs`, with
`strip_prefix` of `iceberg-rust-spec/src/util.rs`.

`FileNaming` is what they take from elsewhere: the URL parser, the random directory and the
identifier of each call, and the texts of the values whose format belongs to the standard library.
-/

namespace IcebergRust.Arrow

/-- What the paths of files are made of. -/
structure FileNaming where
  /-- `Url::parse(_).path()`. -/
  urlPath : String → Option String
  /-- `Display` of floats, uuids, bytes and decimals. -/
  display : Value → String
  /-- The random directory of a call, as hexadecimal digits. -/
  directory : Nat → String
  /-- `Uuid::now_v1` of a call. -/
  uuid : Nat → String

/-- `Display` of a value. -/
def valueText (naming : FileNaming) : Value → String
  | .boolean value => toString value
  | .int value => toString value.toInt
  | .longInt value => toString value.toInt
  | .date days => toString days.toInt
  | .time micros => toString micros.toInt
  | .timestamp micros => toString micros.toInt
  | .timestampTZ micros => toString micros.toInt
  | .timestampNano nanos => toString nanos.toInt
  | .timestampTZNano nanos => toString nanos.toInt
  | .string text => text
  | value => naming.display value

/-- `strip_prefix`: the path of a URL, or the text itself. -/
def stripPrefix (naming : FileNaming) (path : String) : String := (naming.urlPath path).getD path

/-- `generate_partition_path`. -/
def generatePartitionPath (naming : FileNaming) (fields : List BoundPartitionField)
    (values : List (Option Value)) : String :=
  String.join ((fields.zip values).map fun pair =>
    pair.1.name ++ "=" ++
      (match pair.2 with
        | none => "__HIVE_DEFAULT_PARTITION__"
        | some value => valueText naming value) ++ "/")

/-- What stands between the location and the rest of a path: a slash, where there is none. -/
def separator (base path : String) : String :=
  if base.toList.getLast? = some '/' ∨ path.toList.head? = some '/' then "" else "/"

/-- The directory of a file: below the location, by partition or at random. -/
def fileDirectory (naming : FileNaming) (call : Nat) (dataLocation : String)
    (partitionPath : Option String) : String :=
  let path := partitionPath.getD (naming.directory call ++ "/")
  let base := stripPrefix naming dataLocation
  base ++ separator base path ++ path

/-- `generate_file_path`, when it is called for the given time. -/
def generateFilePath (naming : FileNaming) (call : Nat) (dataLocation : String)
    (partitionPath : Option String) : String :=
  fileDirectory naming call dataLocation partitionPath ++ naming.uuid call ++ ".parquet"

/-- `str::trim_end_matches` of a character. -/
def trimEndMatches (text : String) (c : Char) : String :=
  String.ofList (text.toList.reverse.dropWhile (· = c)).reverse

end IcebergRust.Arrow
