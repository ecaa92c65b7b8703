import IcebergRust.Spec.Bytes
import IcebergRust.Spec.Json

/-!
# Puffin files

The container of blobs of `iceberg-rust-spec/src/spec/puffin.rs`: `PuffinWriter`, which appends
blobs and a footer, `FileMetadata::read_footer`, which parses the footer from the end of a file, and
`BlobMetadata::read_from`, which takes a blob out of it.

* `readFooter_returns` and `readFrom_returns`: every index and every subtraction is guarded, for
  bytes of any kind.
* `ofJson_toJson`: the metadata of a footer is read back with the entries of its maps.
-/

namespace IcebergRust

namespace Puffin

open Fallible

/-- `PUFFIN_MAGIC`. -/
def magic : List UInt8 := [0x50, 0x46, 0x41, 0x31]

/-- `FOOTER_STRUCT_LENGTH`. -/
def footerStructLength : Nat := 4 + 4 + 4

/-- `FLAG_FOOTER_PAYLOAD_COMPRESSED`. -/
def flagFooterPayloadCompressed : UInt8 := 0b00000001

/-- `PuffinCompressionCodec`. -/
inductive PuffinCompressionCodec where
  | lz4
  | zstd
deriving DecidableEq

/-- `BlobMetadata`. -/
structure BlobMetadata where
  blobType : String
  fields : List (BitVec 32)
  snapshotId : BitVec 64
  sequenceNumber : BitVec 64
  offset : BitVec 64
  length : BitVec 64
  compressionCodec : Option PuffinCompressionCodec
  properties : HashMap String String

/-- `FileMetadata`. -/
structure FileMetadata where
  blobs : List BlobMetadata
  properties : HashMap String String

/-- What the module calls: the text of JSON and the compression of blobs. -/
structure Libraries where
  /-- `serde_json::to_vec`. -/
  toVec : Json → List UInt8
  /-- `serde_json::from_slice`. -/
  fromSlice : List UInt8 → Except String Json
  /-- `zstd::stream::encode_all`. -/
  encodeAll : List UInt8 → Except String (List UInt8)
  /-- `zstd::stream::decode_all`. -/
  decodeAll : List UInt8 → Except String (List UInt8)

/-! ### Metadata as JSON -/

/-- The name of a codec, in lower case. -/
def PuffinCompressionCodec.name : PuffinCompressionCodec → String
  | .lz4 => "lz4"
  | .zstd => "zstd"

/-- `Serialize for HashMap`. -/
def propertiesToJson (properties : HashMap String String) : Json :=
  .object (properties.iter.map fun entry => (entry.1, .string entry.2))

/-- The entry of a map of properties, which is skipped where the map is empty. -/
def propertiesEntry (properties : HashMap String String) : List (String × Json) :=
  if properties.iter = [] then [] else [("properties", propertiesToJson properties)]

/-- The entries of a blob that are always written. -/
def BlobMetadata.requiredEntries (entry : BlobMetadata) : List (String × Json) :=
  [("type", .string entry.blobType),
    ("fields", .array (entry.fields.map fun field => .number (.integer field.toInt))),
    ("snapshot-id", .number (.integer entry.snapshotId.toInt)),
    ("sequence-number", .number (.integer entry.sequenceNumber.toInt)),
    ("offset", .number (.integer entry.offset.toInt)),
    ("length", .number (.integer entry.length.toInt))]

/-- The entry of a codec, which is skipped where there is none. -/
def codecEntry (codec : Option PuffinCompressionCodec) : List (String × Json) :=
  optionalEntry "compression-codec" (fun codec => .string codec.name) codec

/-- `Serialize for BlobMetadata`. -/
def BlobMetadata.toJson (entry : BlobMetadata) : Json :=
  .object (entry.requiredEntries ++ codecEntry entry.compressionCodec ++
    propertiesEntry entry.properties)

/-- `Serialize for FileMetadata`. -/
def FileMetadata.toJson (metadata : FileMetadata) : Json :=
  .object (("blobs", .array (metadata.blobs.map BlobMetadata.toJson)) ::
    propertiesEntry metadata.properties)

/-- A variant of the codec, by its name. -/
def PuffinCompressionCodec.ofName (name : String) : Except Error PuffinCompressionCodec :=
  if name = "lz4" then .ok .lz4
  else if name = "zstd" then .ok .zstd
  else .error (.json ("unknown variant `" ++ name ++ "`, expected `lz4` or `zstd`"))

/-- `PuffinCompressionCodec::deserialize`: a variant without content, alone or as a key. -/
def PuffinCompressionCodec.ofJson : Json → Except Error PuffinCompressionCodec
  | .string name => ofName name
  | .object [(name, .null)] => ofName name
  | _ => .error (Json.invalidType "enum PuffinCompressionCodec")

/-- `Option::<PuffinCompressionCodec>::deserialize`, of a field that may be left out. -/
def codecOf : Option Json → Except Error (Option PuffinCompressionCodec)
  | none => .ok none
  | some .null => .ok none
  | some json => (PuffinCompressionCodec.ofJson json).map some

/-- `HashMap::<String, String>::deserialize`. -/
def propertiesOfJson : Json → Except Error (HashMap String String)
  | .object entries =>
    (entries.mapM fun entry : String × Json =>
      entry.2.asString.map fun value => (entry.1, value)).map HashMap.fromIter
  | _ => .error (Json.invalidType "a map")

/-- A map of properties that may be left out. -/
def propertiesOf : Option Json → Except Error (HashMap String String)
  | none => .ok ∅
  | some json => propertiesOfJson json

/-- `Vec::<i32>::deserialize`. -/
def fieldsOfJson (json : Json) : Except Error (List (BitVec 32)) :=
  json.asArray >>= fun items => items.mapM fun item => item.asI32.map (BitVec.ofInt 32)

/-- `BlobMetadata` from the entries of an object. -/
def BlobMetadata.ofEntries (entries : List (String × Json)) : Except Error BlobMetadata := do
  let blobType ← requireField entries "type" >>= Json.asString
  let fields ← requireField entries "fields" >>= fieldsOfJson
  let snapshotId ← requireField entries "snapshot-id" >>= Json.asI64
  let sequenceNumber ← requireField entries "sequence-number" >>= Json.asI64
  let offset ← requireField entries "offset" >>= Json.asI64
  let length ← requireField entries "length" >>= Json.asI64
  let codec ← findField entries "compression-codec" >>= codecOf
  let properties ← findField entries "properties" >>= propertiesOf
  .ok ⟨blobType, fields, snapshotId, sequenceNumber, offset, length, codec, properties⟩

/-- `BlobMetadata` from an array: the codec and the properties may be left out. -/
def BlobMetadata.ofItems : List Json → Except Error BlobMetadata
  | type :: fields :: snapshotId :: sequenceNumber :: offset :: length :: rest => do
    let blobType ← type.asString
    let fields ← fieldsOfJson fields
    let snapshotId ← snapshotId.asI64
    let sequenceNumber ← sequenceNumber.asI64
    let offset ← offset.asI64
    let length ← length.asI64
    let codec ← codecOf rest[0]?
    let properties ← propertiesOf rest[1]?
    if 2 < rest.length then .error (.json "invalid length, expected fewer elements in array")
    else .ok ⟨blobType, fields, snapshotId, sequenceNumber, offset, length, codec, properties⟩
  | _ => .error (.json "invalid length, expected struct BlobMetadata with 8 elements")

/-- `BlobMetadata::deserialize`. -/
def BlobMetadata.ofJson : Json → Except Error BlobMetadata
  | .object entries => ofEntries entries
  | .array items => ofItems items
  | _ => .error (Json.invalidType "struct BlobMetadata")

/-- `Vec::<BlobMetadata>::deserialize`. -/
def blobsOfJson (json : Json) : Except Error (List BlobMetadata) :=
  json.asArray >>= fun items => items.mapM BlobMetadata.ofJson

/-- `FileMetadata` from the entries of an object. -/
def FileMetadata.ofEntries (entries : List (String × Json)) : Except Error FileMetadata := do
  let blobs ← requireField entries "blobs" >>= blobsOfJson
  let properties ← findField entries "properties" >>= propertiesOf
  .ok ⟨blobs, properties⟩

/-- `FileMetadata` from an array: the properties may be left out. -/
def FileMetadata.ofItems : List Json → Except Error FileMetadata
  | blobs :: rest => do
    let blobs ← blobsOfJson blobs
    let properties ← propertiesOf rest[0]?
    if 1 < rest.length then .error (.json "invalid length, expected fewer elements in array")
    else .ok ⟨blobs, properties⟩
  | [] => .error (.json "invalid length 0, expected struct FileMetadata with 2 elements")

/-- `FileMetadata::deserialize`. -/
def FileMetadata.ofJson : Json → Except Error FileMetadata
  | .object entries => ofEntries entries
  | .array items => ofItems items
  | _ => .error (Json.invalidType "struct FileMetadata")

variable (lib : Libraries)

/-! ### Reading -/

/-- `usize::try_from` of an `i64`. -/
def toUsize (what : String) (value : BitVec 64) : Except Error Nat :=
  if value.toInt < 0 then
    .error (.invalidFormat ("blob " ++ what ++ " " ++ toString value.toInt ++ " is negative"))
  else .ok value.toInt.toNat

/-- The payload of a blob, from its stored bytes. -/
def decompress : Option PuffinCompressionCodec → List UInt8 → Except Error (List UInt8)
  | none, stored => .ok stored
  | some .zstd, stored => (lib.decodeAll stored).mapError .io
  | some .lz4, _ => .error (.notSupported "LZ4-compressed Puffin blob")

/-- `BlobMetadata::read_from`. -/
def BlobMetadata.readFrom (entry : BlobMetadata) (file : List UInt8) :
    Except Error (List UInt8) := do
  let offset ← toUsize "offset" entry.offset
  let length ← toUsize "length" entry.length
  if 18446744073709551616 ≤ offset + length then
    .error (.invalidFormat "blob offset + length overflows")
  else if file.length < offset + length then
    .error (.invalidFormat ("blob extends past end of Puffin file (" ++
      toString (offset + length) ++ " > " ++ toString file.length ++ ")"))
  else slice file offset (offset + length) >>= decompress lib entry.compressionCodec

/-- `bytes[len - start..len - stop]`. -/
def sliceFromEnd (bytes : List UInt8) (start stop : Nat) : Except Error (List UInt8) := do
  let start ← subUsize bytes.length start
  let stop ← subUsize bytes.length stop
  slice bytes start stop

/-- `flags[0]`. -/
def firstByte : List UInt8 → Except Error UInt8
  | [] => .error (.panicked "index out of bounds")
  | byte :: _ => .ok byte

/-- `checked_sub`, and the error where it is `None`. -/
def checkedSub (a b : Nat) (what : String) : Except Error Nat :=
  if b ≤ a then .ok (a - b) else .error (.invalidFormat what)

/-- `serde_json::from_slice::<FileMetadata>`. -/
def metadataOfSlice (payload : List UInt8) : Except Error FileMetadata :=
  (lib.fromSlice payload).mapError .json >>= FileMetadata.ofJson

/-- `read_footer`, from the size of the payload on. -/
def readPayload (bytes : List UInt8) (payloadSize : BitVec 32) : Except Error FileMetadata :=
  if payloadSize.toInt < 0 then
    .error (.invalidFormat ("Puffin footer payload size " ++ toString payloadSize.toInt ++
      " is negative"))
  else do
    let payloadEnd ← subUsize bytes.length footerStructLength
    let payloadStart ← checkedSub payloadEnd payloadSize.toInt.toNat
      "Puffin payload size out of range"
    let footerMagicStart ← checkedSub payloadStart magic.length "Puffin footer magic out of range"
    let footerMagic ← slice bytes footerMagicStart payloadStart
    if footerMagic ≠ magic then .error (.invalidFormat "Puffin footer start magic")
    else slice bytes payloadStart payloadEnd >>= metadataOfSlice lib

/-- The minimal length of a file. -/
def minLen : Nat := magic.length + magic.length + footerStructLength

/-- `FileMetadata::read_footer`. -/
def readFooter (bytes : List UInt8) : Except Error FileMetadata :=
  if bytes.length < minLen then
    .error (.invalidFormat ("Puffin file shorter than " ++ toString minLen ++ " bytes"))
  else do
    let startMagic ← slice bytes 0 4
    if startMagic ≠ magic then .error (.invalidFormat "Puffin start magic")
    else do
      let endMagic ← sliceFromEnd bytes 4 0
      if endMagic ≠ magic then .error (.invalidFormat "Puffin end magic")
      else do
        let flags ← sliceFromEnd bytes 8 4
        let flag ← firstByte flags
        if flag &&& flagFooterPayloadCompressed ≠ 0 then
          .error (.notSupported "LZ4-compressed Puffin footer payload")
        else sliceFromEnd bytes 12 8 >>= fromLeBytes 32 >>= readPayload lib bytes

/-! ### Writing -/

/-- `Blob`. -/
structure Blob where
  blobType : String
  fields : List (BitVec 32)
  snapshotId : BitVec 64
  sequenceNumber : BitVec 64
  compressionCodec : Option PuffinCompressionCodec
  properties : HashMap String String
  payload : List UInt8

/-- `PuffinWriter`. -/
structure PuffinWriter where
  bytes : List UInt8
  blobs : List BlobMetadata
  fileProperties : HashMap String String

/-- The stored bytes of a payload. -/
def compress : Option PuffinCompressionCodec → List UInt8 → Except Error (List UInt8)
  | none, payload => .ok payload
  | some .zstd, payload => (lib.encodeAll payload).mapError .io
  | some .lz4, _ => .error (.notSupported "LZ4-compressed Puffin blob")

/-- `i64::try_from` of a `usize`. -/
def toI64 (n : Nat) (what : String) : Except Error (BitVec 64) :=
  if (n : Int) ≤ maxI64 then .ok (BitVec.ofNat 64 n) else .error (.invalidFormat what)

/-- The entry of the footer for a blob. -/
def Blob.metadata (blob : Blob) (offset length : BitVec 64) : BlobMetadata where
  blobType := blob.blobType
  fields := blob.fields
  snapshotId := blob.snapshotId
  sequenceNumber := blob.sequenceNumber
  offset := offset
  length := length
  compressionCodec := blob.compressionCodec
  properties := blob.properties

/-- The footer of metadata, without compression. -/
def footer (metadata : FileMetadata) : List UInt8 :=
  let payload := lib.toVec metadata.toJson
  magic ++ (payload ++ (Value.leBytes (BitVec.ofNat 32 payload.length) ++ ([0, 0, 0, 0] ++ magic)))

namespace PuffinWriter

/-- `PuffinWriter::new`. -/
def new : PuffinWriter := ⟨magic, [], ∅⟩

/-- `PuffinWriter::set_property`. -/
def setProperty (writer : PuffinWriter) (key value : String) : PuffinWriter :=
  { writer with fileProperties := writer.fileProperties.insert key value }

/-- `PuffinWriter::write_blob`; the writer is not changed where it fails. -/
def writeBlob (writer : PuffinWriter) (blob : Blob) : Except Error PuffinWriter := do
  let written ← compress lib blob.compressionCodec blob.payload
  let offset ← toI64 writer.bytes.length "Puffin file offset overflows i64"
  let length ← toI64 written.length "Puffin blob length overflows i64"
  .ok { writer with
    bytes := writer.bytes ++ written
    blobs := writer.blobs ++ [blob.metadata offset length] }

/-- The metadata of the footer. -/
def metadata (writer : PuffinWriter) : FileMetadata := ⟨writer.blobs, writer.fileProperties⟩

/-- `PuffinWriter::finish`. -/
def finish (writer : PuffinWriter) : Except Error (List UInt8) :=
  let payload := lib.toVec writer.metadata.toJson
  if 2147483647 < payload.length then
    .error (.invalidFormat ("Puffin footer payload too large: " ++ toString payload.length ++
      " bytes"))
  else .ok (writer.bytes ++ footer lib writer.metadata)

end PuffinWriter

/-! ### The round trip of metadata -/

section RoundTrip

/-- A map as it is read back: its entries are inserted one by one. -/
def reread (properties : HashMap String String) : HashMap String String :=
  HashMap.fromIter properties.iter

/-- An entry of a footer as it is read back. -/
def BlobMetadata.reread (entry : BlobMetadata) : BlobMetadata :=
  { entry with properties := Puffin.reread entry.properties }

theorem lookup_reread (properties : HashMap String String) (key : String) :
    (reread properties).lookup key = properties.lookup key := by
  refine (HashMap.lookup_extend_iter ∅ properties key).trans ?_
  rw [AList.lookup_empty, Option.or_none]

theorem propertiesOfJson_toJson (properties : HashMap String String) :
    propertiesOfJson (propertiesToJson properties) = .ok (reread properties) := by
  refine map_eq_ok.mpr ⟨properties.iter, mapM_eq_ok.mpr ?_, rfl⟩
  rw [List.forall₂_map_left_iff, List.forall₂_same]
  intro entry _
  rfl

/-- The properties are the last entry, or absent. -/
theorem propertiesOf_findField (entries : List (String × Json))
    (absent : entries.filter (fun entry => entry.1 = "properties") = [])
    (properties : HashMap String String) :
    (findField (entries ++ propertiesEntry properties) "properties" >>= propertiesOf) =
      .ok (reread properties) := by
  unfold findField
  rw [List.filter_append, absent, List.nil_append]
  unfold propertiesEntry
  by_cases empty : properties.iter = []
  · rw [if_pos empty]
    unfold reread
    rw [empty]
    rfl
  · rw [if_neg empty]
    exact propertiesOfJson_toJson properties

theorem findField_propertiesEntry {entries : List (String × Json)} {name : String}
    (differ : name ≠ "properties") (properties : HashMap String String) :
    findField (entries ++ propertiesEntry properties) name = findField entries name := by
  have nothing : (propertiesEntry properties).filter (fun entry => entry.1 = name) = [] := by
    unfold propertiesEntry
    by_cases empty : properties.iter = []
    · rw [if_pos empty]
      rfl
    · rw [if_neg empty]
      simp [differ.symm]
  unfold findField
  rw [List.filter_append, nothing, List.append_nil]

theorem codecOf_findField (entries : List (String × Json))
    (absent : entries.filter (fun entry => entry.1 = "compression-codec") = [])
    (codec : Option PuffinCompressionCodec) :
    (findField (entries ++ codecEntry codec) "compression-codec" >>= codecOf) = .ok codec := by
  unfold findField
  rw [List.filter_append, absent, List.nil_append]
  cases codec with
  | none => rfl
  | some codec => cases codec <;> rfl

theorem findField_codecEntry {entries : List (String × Json)} {name : String}
    (differ : name ≠ "compression-codec") (codec : Option PuffinCompressionCodec) :
    findField (entries ++ codecEntry codec) name = findField entries name := by
  have nothing : (codecEntry codec).filter (fun entry => entry.1 = name) = [] := by
    cases codec with
    | none => rfl
    | some codec => simp [codecEntry, optionalEntry, differ.symm]
  unfold findField
  rw [List.filter_append, nothing, List.append_nil]

theorem fieldsOfJson_toJson (fields : List (BitVec 32)) :
    fieldsOfJson (.array (fields.map fun field => .number (.integer field.toInt))) =
      .ok fields := by
  refine mapM_eq_ok.mpr ?_
  rw [List.forall₂_map_left_iff, List.forall₂_same]
  intro field _
  have low := BitVec.le_toInt field
  have high := BitVec.toInt_lt (x := field)
  have inside : InI32 field.toInt := by
    unfold InI32
    omega
  rw [asI32_integer inside]
  exact congrArg Except.ok BitVec.ofInt_toInt

theorem BlobMetadata.ofJson_toJson (entry : BlobMetadata) :
    BlobMetadata.ofJson entry.toJson = .ok entry.reread := by
  have required {name : String} (differ : name ≠ "properties")
      (differ' : name ≠ "compression-codec") :
      requireField (entry.requiredEntries ++ codecEntry entry.compressionCodec ++
        propertiesEntry entry.properties) name = requireField entry.requiredEntries name := by
    unfold requireField
    rw [findField_propertiesEntry differ, findField_codecEntry differ']
  have type : requireField entry.requiredEntries "type" = .ok (.string entry.blobType) := rfl
  have fields : requireField entry.requiredEntries "fields" =
    .ok (.array (entry.fields.map fun field => .number (.integer field.toInt))) := rfl
  have snapshotId : requireField entry.requiredEntries "snapshot-id" =
    .ok (.number (.integer entry.snapshotId.toInt)) := rfl
  have sequenceNumber : requireField entry.requiredEntries "sequence-number" =
    .ok (.number (.integer entry.sequenceNumber.toInt)) := rfl
  have offset : requireField entry.requiredEntries "offset" =
    .ok (.number (.integer entry.offset.toInt)) := rfl
  have length : requireField entry.requiredEntries "length" =
    .ok (.number (.integer entry.length.toInt)) := rfl
  have codec := codecOf_findField entry.requiredEntries (by rfl) entry.compressionCodec
  have properties := propertiesOf_findField
    (entry.requiredEntries ++ codecEntry entry.compressionCodec)
    (by cases entry.compressionCodec <;> rfl) entry.properties
  show BlobMetadata.ofEntries _ = _
  unfold BlobMetadata.ofEntries
  rw [findField_propertiesEntry (by decide), codec, properties]
  simp only [required, ne_eq, String.reduceEq, not_false_eq_true, type, fields, snapshotId,
    sequenceNumber, offset, length, ok_bind, asI64_toInt, fieldsOfJson_toJson]
  rfl

theorem FileMetadata.ofJson_toJson (metadata : FileMetadata) :
    FileMetadata.ofJson metadata.toJson =
      .ok ⟨metadata.blobs.map BlobMetadata.reread, reread metadata.properties⟩ := by
  have blobs : blobsOfJson (.array (metadata.blobs.map BlobMetadata.toJson)) =
      .ok (metadata.blobs.map BlobMetadata.reread) := by
    refine mapM_eq_ok.mpr ?_
    rw [List.forall₂_map_left_iff, List.forall₂_map_right_iff, List.forall₂_same]
    intro entry _
    exact entry.ofJson_toJson
  have properties := propertiesOf_findField
    [("blobs", Json.array (metadata.blobs.map BlobMetadata.toJson))] (by rfl) metadata.properties
  show FileMetadata.ofEntries ([("blobs", _)] ++ propertiesEntry _) = _
  unfold FileMetadata.ofEntries requireField
  rw [properties, findField_propertiesEntry (by decide)]
  show (blobsOfJson (.array (metadata.blobs.map BlobMetadata.toJson)) >>= _) = _
  rw [blobs]
  rfl

end RoundTrip

/-! ### Reading never panics -/

section Returns

theorem asArray_returns (json : Json) : Raises Error.Returned json.asArray := by
  cases json with
  | array items => exact raises_ok _
  | _ => exact raises_error nofun

theorem asString_returns (json : Json) : Raises Error.Returned json.asString := by
  cases json with
  | string text => exact raises_ok _
  | _ => exact raises_error nofun

theorem asI32_returns (json : Json) : Raises Error.Returned json.asI32 := by
  intro e failed
  unfold Json.asI32 at failed
  split at failed
  · split at failed
    · cases failed
    · cases failed
      exact nofun
  · cases failed
    exact nofun

theorem asI64_returns (json : Json) : Raises Error.Returned json.asI64 := by
  intro e failed
  unfold Json.asI64 at failed
  split at failed
  · split at failed
    · cases failed
    · cases failed
      exact nofun
  · cases failed
    exact nofun

theorem findField_returns (entries : List (String × Json)) (name : String) :
    Raises Error.Returned (findField entries name) := by
  intro e failed
  unfold findField at failed
  split at failed
  · cases failed
  · cases failed
  · cases failed
    exact nofun

theorem requireField_returns (entries : List (String × Json)) (name : String) :
    Raises Error.Returned (requireField entries name) := by
  refine (findField_returns entries name).bind fun found _ => ?_
  cases found with
  | none => exact raises_error nofun
  | some value => exact raises_ok value

theorem ofName_returns (name : String) :
    Raises Error.Returned (PuffinCompressionCodec.ofName name) := by
  unfold PuffinCompressionCodec.ofName
  by_cases lz4 : name = "lz4"
  · rw [if_pos lz4]
    exact raises_ok _
  · rw [if_neg lz4]
    by_cases zstd : name = "zstd"
    · rw [if_pos zstd]
      exact raises_ok _
    · rw [if_neg zstd]
      exact raises_error nofun

theorem codecOf_returns (found : Option Json) : Raises Error.Returned (codecOf found) := by
  have variant (json : Json) : Raises Error.Returned (PuffinCompressionCodec.ofJson json) := by
    intro e failed
    unfold PuffinCompressionCodec.ofJson at failed
    split at failed
    · exact ofName_returns _ e failed
    · exact ofName_returns _ e failed
    · cases failed
      exact nofun
  unfold codecOf
  split
  · exact raises_ok _
  · exact raises_ok _
  · exact (variant _).map some

theorem propertiesOf_returns (found : Option Json) :
    Raises Error.Returned (propertiesOf found) := by
  cases found with
  | none => exact raises_ok _
  | some json =>
    cases json with
    | object entries =>
      refine Raises.map _ (Raises.mapM fun entry _ => ?_)
      exact (asString_returns entry.2).map _
    | _ => exact raises_error nofun

theorem fieldsOfJson_returns (json : Json) : Raises Error.Returned (fieldsOfJson json) := by
  refine (asArray_returns json).bind fun items _ => Raises.mapM fun item _ => ?_
  exact (asI32_returns item).map _

theorem BlobMetadata.ofJson_returns (json : Json) :
    Raises Error.Returned (BlobMetadata.ofJson json) := by
  cases json with
  | object entries =>
    have entry (name : String) := requireField_returns entries name
    refine ((entry _).bind fun json _ => asString_returns json).bind fun type _ => ?_
    refine ((entry _).bind fun json _ => fieldsOfJson_returns json).bind fun fields _ => ?_
    refine ((entry _).bind fun json _ => asI64_returns json).bind fun snapshotId _ => ?_
    refine ((entry _).bind fun json _ => asI64_returns json).bind fun sequenceNumber _ => ?_
    refine ((entry _).bind fun json _ => asI64_returns json).bind fun offset _ => ?_
    refine ((entry _).bind fun json _ => asI64_returns json).bind fun length _ => ?_
    refine ((findField_returns _ _).bind fun found _ => codecOf_returns found).bind
      fun codec _ => ?_
    refine ((findField_returns _ _).bind fun found _ => propertiesOf_returns found).bind
      fun properties _ => ?_
    exact raises_ok _
  | array items =>
    match items with
    | type :: fields :: snapshotId :: sequenceNumber :: offset :: length :: rest =>
      refine (asString_returns type).bind fun _ _ => ?_
      refine (fieldsOfJson_returns fields).bind fun _ _ => ?_
      refine (asI64_returns snapshotId).bind fun _ _ => ?_
      refine (asI64_returns sequenceNumber).bind fun _ _ => ?_
      refine (asI64_returns offset).bind fun _ _ => ?_
      refine (asI64_returns length).bind fun _ _ => ?_
      refine (codecOf_returns _).bind fun _ _ => (propertiesOf_returns _).bind fun _ _ => ?_
      exact Raises.guard (fun _ => nofun) fun _ => raises_ok _
    | [] | [_] | [_, _] | [_, _, _] | [_, _, _, _] | [_, _, _, _, _] => exact raises_error nofun
  | _ => exact raises_error nofun

theorem blobsOfJson_returns (json : Json) : Raises Error.Returned (blobsOfJson json) :=
  (asArray_returns json).bind fun _ _ => Raises.mapM fun item _ => BlobMetadata.ofJson_returns item

theorem FileMetadata.ofJson_returns (json : Json) :
    Raises Error.Returned (FileMetadata.ofJson json) := by
  cases json with
  | object entries =>
    refine ((requireField_returns _ _).bind fun json _ => blobsOfJson_returns json).bind
      fun blobs _ => ?_
    refine ((findField_returns _ _).bind fun found _ => propertiesOf_returns found).bind
      fun properties _ => ?_
    exact raises_ok _
  | array items =>
    cases items with
    | nil => exact raises_error nofun
    | cons blobs rest =>
      refine (blobsOfJson_returns blobs).bind fun _ _ => (propertiesOf_returns _).bind fun _ _ => ?_
      exact Raises.guard (fun _ => nofun) fun _ => raises_ok _
  | _ => exact raises_error nofun

variable {lib}

/-- A blob is read without a panic, whatever its entry says and whatever the file holds. -/
theorem BlobMetadata.readFrom_returns (entry : BlobMetadata) (file : List UInt8) :
    Raises Error.Returned (entry.readFrom lib file) := by
  have toUsize_returns (what : String) (value : BitVec 64) :
      Raises Error.Returned (toUsize what value) :=
    Raises.guard (fun _ => nofun) fun _ => raises_ok _
  refine (toUsize_returns _ _).bind fun offset _ => (toUsize_returns _ _).bind fun length _ => ?_
  refine Raises.guard (fun _ => nofun) fun _ => Raises.guard (fun _ => nofun) fun within => ?_
  obtain ⟨stored, run, -⟩ := exists_slice (Nat.le_add_right offset length) (Nat.not_lt.mp within)
  rw [run, ok_bind]
  match entry.compressionCodec with
  | none => exact raises_ok _
  | some .zstd => exact Raises.mapError _ fun _ => nofun
  | some .lz4 => exact raises_error nofun

theorem checkedSub_returns (a b : Nat) (what : String) :
    Raises Error.Returned (checkedSub a b what) := by
  unfold checkedSub
  by_cases le : b ≤ a
  · rw [if_pos le]
    exact raises_ok _
  · rw [if_neg le]
    exact raises_error nofun

theorem checkedSub_eq_ok {a b c : Nat} {what : String} (run : checkedSub a b what = .ok c) :
    c ≤ a ∧ a - c = b := by
  unfold checkedSub at run
  by_cases le : b ≤ a
  · rw [if_pos le] at run
    cases run
    omega
  · rw [if_neg le] at run
    cases run

theorem readPayload_returns {bytes : List UInt8} (long : footerStructLength ≤ bytes.length)
    (payloadSize : BitVec 32) : Raises Error.Returned (readPayload lib bytes payloadSize) := by
  refine Raises.guard (fun _ => nofun) fun _ => ?_
  rw [subUsize_of_le long, ok_bind]
  refine (checkedSub_returns _ _ _).bind fun payloadStart start => ?_
  refine (checkedSub_returns _ _ _).bind fun footerMagicStart magicStart => ?_
  have start := (checkedSub_eq_ok start).1
  have magicStart := (checkedSub_eq_ok magicStart).1
  obtain ⟨footerMagic, run, -⟩ :=
    exists_slice magicStart (show payloadStart ≤ bytes.length by omega)
  rw [run, ok_bind]
  refine Raises.guard (fun _ => nofun) fun _ => ?_
  obtain ⟨payload, run, -⟩ :=
    exists_slice start (show bytes.length - footerStructLength ≤ bytes.length by omega)
  rw [run, ok_bind]
  refine (Raises.mapError _ fun _ => nofun).bind fun json _ => ?_
  exact FileMetadata.ofJson_returns json

/-- A part of a file that is long enough. -/
theorem exists_sliceFromEnd {bytes : List UInt8} {start stop : Nat} (order : stop ≤ start)
    (long : start ≤ bytes.length) :
    ∃ part, sliceFromEnd bytes start stop = .ok part ∧ part.length = start - stop := by
  obtain ⟨part, run, length⟩ := exists_slice
    (show bytes.length - start ≤ bytes.length - stop by omega) (show _ ≤ bytes.length by omega)
  refine ⟨part, ?_, by omega⟩
  unfold sliceFromEnd
  rw [subUsize_of_le long, subUsize_of_le (order.trans long), ok_bind, ok_bind, run]

/-- A footer is read without a panic, whatever the bytes. -/
theorem readFooter_returns (bytes : List UInt8) : Raises Error.Returned (readFooter lib bytes) := by
  refine Raises.guard (fun _ => nofun) fun enough => ?_
  have long : 20 ≤ bytes.length := Nat.not_lt.mp enough
  obtain ⟨startMagic, run, -⟩ := exists_slice (Nat.zero_le 4) (show 4 ≤ bytes.length by omega)
  rw [run, ok_bind]
  refine Raises.guard (fun _ => nofun) fun _ => ?_
  obtain ⟨endMagic, run, -⟩ := exists_sliceFromEnd (Nat.zero_le 4) (show 4 ≤ bytes.length by omega)
  rw [run, ok_bind]
  refine Raises.guard (fun _ => nofun) fun _ => ?_
  obtain ⟨flags, run, length⟩ :=
    exists_sliceFromEnd (show 4 ≤ 8 by omega) (show 8 ≤ bytes.length by omega)
  rw [run, ok_bind]
  cases flags with
  | nil => cases length
  | cons flag flags =>
    rw [firstByte, ok_bind]
    refine Raises.guard (fun _ => nofun) fun _ => ?_
    obtain ⟨size, run, -⟩ :=
      exists_sliceFromEnd (show 8 ≤ 12 by omega) (show 12 ≤ bytes.length by omega)
    rw [run, ok_bind]
    refine (fromLeBytes_returns 32 size).bind fun payloadSize _ => ?_
    refine readPayload_returns ?_ payloadSize
    exact Nat.le_trans (by decide) long

end Returns

end Puffin

end IcebergRust
