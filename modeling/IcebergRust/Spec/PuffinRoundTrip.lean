import IcebergRust.Lib.Lexicographic
import IcebergRust.Spec.Puffin

/-!
# Puffin files round trip

What the writer of Puffin files lays out is what the readers take apart.

* `Laid` is the invariant of a writer: each entry delimits its stored bytes, after the magic and
  after the entries before it.  `Laid.writeBlob` is its step and `laid_of_wrote` its run.
* `readFooter_append` parses a footer from the end of a file, whatever lies before it.
-/

namespace IcebergRust

namespace Puffin

open Fallible

variable (lib : Libraries)

/-! ### What a file holds -/

/-- What is compressed is decompressed. -/
def Libraries.Lossless : Prop :=
  ∀ payload stored, lib.encodeAll payload = .ok stored → lib.decodeAll stored = .ok payload

/-- A value is read from its text. -/
def Libraries.Prints (json : Json) : Prop := lib.fromSlice (lib.toVec json) = .ok json

/-- Where a blob starts. -/
def BlobMetadata.start (entry : BlobMetadata) : Int := entry.offset.toInt

/-- Where a blob stops. -/
def BlobMetadata.stop (entry : BlobMetadata) : Int := entry.offset.toInt + entry.length.toInt

/-- The range of an entry is these bytes. -/
structure Delimits (file : List UInt8) (entry : BlobMetadata) (stored : List UInt8) : Prop where
  start : ∃ before after, file = before ++ (stored ++ after) ∧ entry.start = before.length
  length : entry.length.toInt = stored.length

/-- An entry is that of a blob, whose stored bytes it delimits. -/
structure Describes (file : List UInt8) (entry : BlobMetadata) (blob : Blob) : Prop where
  blobType : entry.blobType = blob.blobType
  fields : entry.fields = blob.fields
  snapshotId : entry.snapshotId = blob.snapshotId
  sequenceNumber : entry.sequenceNumber = blob.sequenceNumber
  compressionCodec : entry.compressionCodec = blob.compressionCodec
  properties : ∀ key, entry.properties.lookup key = blob.properties.lookup key
  stored : ∃ stored, compress lib blob.compressionCodec blob.payload = .ok stored ∧
    Delimits file entry stored

/-- Entries delimit disjoint ranges in order, behind the magic and before a position. -/
structure Ranges (entries : List BlobMetadata) (stop : Nat) : Prop where
  disjoint : entries.Pairwise fun first second => first.stop ≤ second.start
  inside : ∀ entry ∈ entries, (magic.length : Int) ≤ entry.start ∧ entry.stop ≤ stop

/-- Metadata describes the blobs of a file, whose footer starts at a position. -/
structure RoundTrips (file : List UInt8) (footerStart : Nat) (metadata : FileMetadata)
    (blobs : List Blob) (properties : HashMap String String) : Prop where
  described : List.Forall₂ (Describes lib file) metadata.blobs blobs
  payloads : List.Forall₂ (fun entry blob => entry.readFrom lib file = .ok blob.payload)
    metadata.blobs blobs
  ranges : Ranges metadata.blobs footerStart
  properties : ∀ key, metadata.properties.lookup key = properties.lookup key

/-- A run of a writer: the blobs and the properties it was given.  A blob that was refused leaves
the writer as it was. -/
inductive Wrote : List Blob → HashMap String String → PuffinWriter → Prop where
  | new : Wrote [] ∅ PuffinWriter.new
  | setProperty {blobs : List Blob} {properties : HashMap String String} {writer : PuffinWriter}
      (key value : String) : Wrote blobs properties writer →
      Wrote blobs (properties.insert key value) (writer.setProperty key value)
  | writeBlob {blobs : List Blob} {properties : HashMap String String}
      {writer next : PuffinWriter} {blob : Blob} : Wrote blobs properties writer →
      writer.writeBlob lib blob = .ok next → Wrote (blobs ++ [blob]) properties next

variable {lib}

/-! ### One blob -/

/-- A number that fits is the integer of its word. -/
theorem toInt_ofNat {width n : Nat} (small : 2 * n < 2 ^ width) :
    (BitVec.ofNat width n).toInt = n := by
  have fits : n < 2 ^ width := by omega
  rw [BitVec.toInt_eq_toNat_cond, BitVec.toNat_ofNat, Nat.mod_eq_of_lt fits, if_pos small]

theorem toI64_eq_ok {n : Nat} {what : String} {value : BitVec 64}
    (run : toI64 n what = .ok value) : value.toInt = n := by
  unfold toI64 at run
  by_cases fits : (n : Int) ≤ maxI64
  · rw [if_pos fits] at run
    cases run
    unfold maxI64 at fits
    apply toInt_ofNat
    omega
  · rw [if_neg fits] at run
    cases run

variable {writer : PuffinWriter} {blob : Blob} {file : List UInt8} {entry : BlobMetadata}

/-- What a successful `write_blob` does. -/
theorem writeBlob_eq_ok {next : PuffinWriter} (run : writer.writeBlob lib blob = .ok next) :
    ∃ stored, ∃ offset length : BitVec 64,
      compress lib blob.compressionCodec blob.payload = .ok stored ∧
      offset.toInt = writer.bytes.length ∧ length.toInt = stored.length ∧
      next = { writer with
        bytes := writer.bytes ++ stored
        blobs := writer.blobs ++ [blob.metadata offset length] } := by
  obtain ⟨stored, compressed, run⟩ := bind_eq_ok.mp run
  obtain ⟨offset, here, run⟩ := bind_eq_ok.mp run
  obtain ⟨length, long, run⟩ := bind_eq_ok.mp run
  cases run
  exact ⟨stored, offset, length, compressed, toI64_eq_ok here, toI64_eq_ok long, rfl⟩

/-- What a range delimits stays when more is written. -/
theorem Delimits.append {stored : List UInt8} (delimits : Delimits file entry stored)
    (more : List UInt8) : Delimits (file ++ more) entry stored := by
  obtain ⟨⟨before, after, rfl, start⟩, length⟩ := delimits
  refine ⟨⟨before, after ++ more, ?_, start⟩, length⟩
  rw [List.append_assoc, List.append_assoc]

theorem Describes.append (describes : Describes lib file entry blob) (more : List UInt8) :
    Describes lib (file ++ more) entry blob := by
  obtain ⟨stored, compressed, delimits⟩ := describes.stored
  exact { describes with stored := ⟨stored, compressed, delimits.append more⟩ }

/-- A blob is read back from the bytes its entry delimits. -/
theorem Describes.readFrom (lossless : lib.Lossless) (describes : Describes lib file entry blob) :
    entry.readFrom lib file = .ok blob.payload := by
  obtain ⟨stored, compressed, ⟨before, after, rfl, start⟩, length⟩ := describes.stored
  have range := BitVec.toInt_lt (x := entry.offset)
  have range' := BitVec.toInt_lt (x := entry.length)
  unfold BlobMetadata.start at start
  have offset : toUsize "offset" entry.offset = .ok before.length := by
    unfold toUsize
    rw [start, if_neg (by omega), Int.toNat_natCast]
  have length' : toUsize "length" entry.length = .ok stored.length := by
    unfold toUsize
    rw [length, if_neg (by omega), Int.toNat_natCast]
  have within : before.length + stored.length ≤ (before ++ (stored ++ after)).length := by
    rw [List.length_append, List.length_append]
    omega
  unfold BlobMetadata.readFrom
  rw [offset, ok_bind, length', ok_bind, if_neg (by omega), if_neg (Nat.not_lt.mpr within),
    slice_middle, ok_bind, describes.compressionCodec]
  match blob.compressionCodec, compressed with
  | none, compressed =>
    cases compressed
    rfl
  | some .zstd, compressed =>
    have encoded := mapError_eq_ok.mp compressed
    exact mapError_eq_ok.mpr (lossless _ _ encoded)
  | some .lz4, compressed => cases compressed

/-! ### Runs of a writer -/

variable (lib) in
/-- The layout of what a writer has written. -/
structure Laid (writer : PuffinWriter) (blobs : List Blob) : Prop where
  starts : ∃ rest, writer.bytes = magic ++ rest
  described : List.Forall₂ (Describes lib writer.bytes) writer.blobs blobs
  ranges : Ranges writer.blobs writer.bytes.length

/-- What is written goes behind everything before it. -/
theorem Ranges.concat {entries : List BlobMetadata} {stop : Nat} {length : Nat}
    (ranges : Ranges entries stop) (behind : magic.length ≤ stop) (start : entry.start = stop)
    (own : entry.length.toInt = length) : Ranges (entries ++ [entry]) (stop + length) := by
  have stops : entry.stop = stop + length := by
    unfold BlobMetadata.start at start
    unfold BlobMetadata.stop
    omega
  constructor
  · refine List.pairwise_append.mpr ⟨ranges.disjoint, List.pairwise_singleton .., ?_⟩
    intro first member second last
    cases List.mem_singleton.mp last
    rw [start]
    exact (ranges.inside first member).2
  · intro other member
    rcases List.mem_append.mp member with member | last
    · have inside := ranges.inside other member
      omega
    · cases List.mem_singleton.mp last
      omega

/-- Writing a blob keeps the layout. -/
theorem Laid.writeBlob {next : PuffinWriter} {blobs : List Blob} (laid : Laid lib writer blobs)
    (run : writer.writeBlob lib blob = .ok next) : Laid lib next (blobs ++ [blob]) := by
  obtain ⟨stored, offset, length, compressed, here, long, rfl⟩ := writeBlob_eq_ok run
  obtain ⟨rest, starts⟩ := laid.starts
  have behind : magic.length ≤ writer.bytes.length := by
    rw [starts, List.length_append]
    exact Nat.le_add_right ..
  have own : Describes lib (writer.bytes ++ stored) (blob.metadata offset length) blob :=
    { blobType := rfl, fields := rfl, snapshotId := rfl, sequenceNumber := rfl,
      compressionCodec := rfl, properties := fun _ => rfl
      stored := ⟨stored, compressed, ⟨writer.bytes, [], by rw [List.append_nil], here⟩, long⟩ }
  constructor
  · exact ⟨rest ++ stored, by rw [starts, List.append_assoc]⟩
  · refine List.rel_append ?_ (.cons own .nil)
    exact laid.described.imp fun entry blob describes => describes.append stored
  · rw [List.length_append]
    exact laid.ranges.concat behind here long

theorem laid_of_wrote {blobs : List Blob} {properties : HashMap String String}
    (wrote : Wrote lib blobs properties writer) :
    Laid lib writer blobs ∧ writer.fileProperties = properties := by
  induction wrote with
  | new =>
    exact ⟨⟨⟨[], rfl⟩, .nil, ⟨.nil, nofun⟩⟩, rfl⟩
  | setProperty key value _ ih =>
    obtain ⟨laid, rfl⟩ := ih
    exact ⟨⟨laid.starts, laid.described, laid.ranges⟩, rfl⟩
  | writeBlob _ run ih =>
    obtain ⟨laid, rfl⟩ := ih
    refine ⟨laid.writeBlob run, ?_⟩
    obtain ⟨stored, offset, length, -, -, -, rfl⟩ := writeBlob_eq_ok run
    rfl

/-! ### The footer -/

theorem sliceFromEnd_eq {before middle after : List UInt8} {start stop : Nat}
    (whole : file = before ++ (middle ++ after)) (starts : start = middle.length + after.length)
    (stops : stop = after.length) : sliceFromEnd file start stop = .ok middle := by
  subst whole starts stops
  have length : (before ++ (middle ++ after)).length =
      before.length + (middle.length + after.length) := by
    rw [List.length_append, List.length_append]
  have length' : (before ++ (middle ++ after)).length =
      (before.length + middle.length) + after.length := by
    rw [length, Nat.add_assoc]
  unfold sliceFromEnd
  rw [show subUsize (before ++ (middle ++ after)).length (middle.length + after.length) =
      .ok before.length by rw [length, subUsize_add],
    show subUsize (before ++ (middle ++ after)).length after.length =
      .ok (before.length + middle.length) by rw [length', subUsize_add], ok_bind, ok_bind]
  exact slice_middle before middle after

theorem slice_eq {before middle after : List UInt8} {start stop : Nat}
    (whole : file = before ++ (middle ++ after)) (starts : start = before.length)
    (stops : stop = before.length + middle.length) : slice file start stop = .ok middle := by
  subst whole starts stops
  exact slice_middle before middle after

theorem checkedSub_eq {a b c : Nat} (sum : a = c + b) (what : String) :
    checkedSub a b what = .ok c := by
  subst sum
  unfold checkedSub
  rw [if_pos (Nat.le_add_left b c), Nat.add_sub_cancel]

section Footer

variable {rest payload : List UInt8}

/-- The bytes of a file that starts with the magic, up to the size of the payload of its footer. -/
def sized (rest payload : List UInt8) : List UInt8 :=
  (magic ++ rest) ++ (magic ++ (payload ++ (Value.leBytes (BitVec.ofNat 32 payload.length) ++
    ([0, 0, 0, 0] ++ magic))))

theorem length_sized : (sized rest payload).length = rest.length + payload.length + 20 := by
  have size := length_leBytes (BitVec.ofNat 32 payload.length)
  simp only [sized, List.length_append, size, magic, List.length_cons, List.length_nil]
  omega

/-- The payload of a footer, from its size on. -/
theorem readPayload_sized (small : payload.length ≤ 2147483647) :
    readPayload lib (sized rest payload) (BitVec.ofNat 32 payload.length) =
      metadataOfSlice lib payload := by
  have count : (BitVec.ofNat 32 payload.length).toInt = payload.length := toInt_ofNat (by omega)
  have length := @length_sized rest payload
  have stop : subUsize (sized rest payload).length footerStructLength =
      .ok (4 + rest.length + 4 + payload.length) := by
    rw [length, subUsize_of_le (by unfold footerStructLength; omega)]
    congr 1
    unfold footerStructLength
    omega
  have footerMagic : slice (sized rest payload) (4 + rest.length) (4 + rest.length + 4) =
      .ok magic := by
    apply slice_eq rfl
    · rw [List.length_append]
      rfl
    · rw [List.length_append]
      rfl
  have found : slice (sized rest payload) (4 + rest.length + 4)
      (4 + rest.length + 4 + payload.length) = .ok payload := by
    apply slice_eq (List.append_assoc (magic ++ rest) magic _).symm
    · rw [List.length_append, List.length_append]
      rfl
    · rw [List.length_append, List.length_append]
      rfl
  unfold readPayload
  rw [count, if_neg (by omega), stop, ok_bind, Int.toNat_natCast, checkedSub_eq rfl, ok_bind,
    checkedSub_eq (show 4 + rest.length + 4 = 4 + rest.length + magic.length from rfl), ok_bind,
    footerMagic, ok_bind, if_neg (fun differ => differ rfl), found, ok_bind]

/-- A footer is parsed from the end of a file. -/
theorem readFooter_sized (small : payload.length ≤ 2147483647) :
    readFooter lib (sized rest payload) = metadataOfSlice lib payload := by
  have length := @length_sized rest payload
  have size := length_leBytes (BitVec.ofNat 32 payload.length)
  have startMagic : slice (sized rest payload) 0 4 = .ok magic := by
    rw [sized, List.append_assoc]
    exact slice_start magic _
  have endMagic : sliceFromEnd (sized rest payload) 4 0 = .ok magic := by
    refine @sliceFromEnd_eq _ ((magic ++ rest) ++ (magic ++ (payload ++
      (Value.leBytes (BitVec.ofNat 32 payload.length) ++ [0, 0, 0, 0])))) magic [] 4 0 ?_ rfl rfl
    simp only [sized, List.append_assoc, List.append_nil]
  have flags : sliceFromEnd (sized rest payload) 8 4 = .ok [0, 0, 0, 0] := by
    refine @sliceFromEnd_eq _ ((magic ++ rest) ++ (magic ++ (payload ++
      Value.leBytes (BitVec.ofNat 32 payload.length)))) [0, 0, 0, 0] magic 8 4 ?_ rfl rfl
    simp only [sized, List.append_assoc]
  have stored : sliceFromEnd (sized rest payload) 12 8 =
      .ok (Value.leBytes (BitVec.ofNat 32 payload.length)) := by
    refine @sliceFromEnd_eq _ ((magic ++ rest) ++ (magic ++ payload)) _
      ([0, 0, 0, 0] ++ magic) 12 8 ?_ (by rw [size]; rfl) rfl
    simp only [sized, List.append_assoc]
  have word := (@fromLeBytes_eq_ok 4 _ (BitVec.ofNat 32 payload.length)).mpr rfl
  unfold readFooter
  rw [if_neg (by rw [length, minLen, footerStructLength]; simp [magic]), startMagic, ok_bind,
    if_neg (fun differ => differ rfl), endMagic, ok_bind, if_neg (fun differ => differ rfl), flags,
    ok_bind, firstByte, ok_bind, if_neg (by decide), stored, ok_bind, word, ok_bind,
    readPayload_sized small]

end Footer

/-! ### Files -/

/-- A finished file: what was written and a footer, whose payload fits its size. -/
theorem finish_eq_ok :
    writer.finish lib = .ok file ↔ (lib.toVec writer.metadata.toJson).length ≤ 2147483647 ∧
      file = writer.bytes ++ footer lib writer.metadata := by
  unfold PuffinWriter.finish
  rw [guard_eq_ok, Nat.not_lt, Except.ok.injEq]
  exact and_congr_right fun _ => eq_comm

theorem Describes.reread (describes : Describes lib file entry blob) :
    Describes lib file entry.reread blob where
  blobType := describes.blobType
  fields := describes.fields
  snapshotId := describes.snapshotId
  sequenceNumber := describes.sequenceNumber
  compressionCodec := describes.compressionCodec
  properties key := (lookup_reread _ key).trans (describes.properties key)
  stored := by
    obtain ⟨stored, compressed, range, length⟩ := describes.stored
    exact ⟨stored, compressed, range, length⟩

theorem Ranges.reread {entries : List BlobMetadata} {stop : Nat} (ranges : Ranges entries stop) :
    Ranges (entries.map BlobMetadata.reread) stop := by
  constructor
  · exact List.pairwise_map.mpr ranges.disjoint
  · intro entry member
    obtain ⟨written, here, rfl⟩ := List.mem_map.mp member
    exact ranges.inside written here

/-- **Puffin files round trip.**  The footer of a file describes the blobs it was written from, each
is read back from the bytes its entry delimits, and bytes of any kind are read without a panic. -/
theorem puffin_round_trip (lossless : lib.Lossless) :
    (∀ blobs properties writer file, Wrote lib blobs properties writer →
      writer.finish lib = .ok file → lib.Prints writer.metadata.toJson →
      ∃ body metadata, file = body ++ footer lib writer.metadata ∧
        readFooter lib file = .ok metadata ∧
        RoundTrips lib file body.length metadata blobs properties) ∧
    (∀ bytes, ¬ Panics (readFooter lib bytes)) ∧
    ∀ entry bytes, ¬ Panics (BlobMetadata.readFrom lib entry bytes) := by
  refine ⟨?_, fun bytes => not_panics_iff.mpr (readFooter_returns bytes),
    fun entry bytes => not_panics_iff.mpr (entry.readFrom_returns bytes)⟩
  intro blobs properties writer file wrote finished prints
  obtain ⟨laid, rfl⟩ := laid_of_wrote wrote
  obtain ⟨small, rfl⟩ := finish_eq_ok.mp finished
  obtain ⟨rest, starts⟩ := laid.starts
  have parsed : metadataOfSlice lib (lib.toVec writer.metadata.toJson) =
      .ok ⟨writer.blobs.map BlobMetadata.reread, Puffin.reread writer.fileProperties⟩ := by
    unfold metadataOfSlice
    rw [prints, mapError_ok, ok_bind, FileMetadata.ofJson_toJson]
    rfl
  have read : readFooter lib (writer.bytes ++ footer lib writer.metadata) =
      metadataOfSlice lib (lib.toVec writer.metadata.toJson) := by
    rw [starts]
    exact readFooter_sized small
  have described : List.Forall₂ (Describes lib (writer.bytes ++ footer lib writer.metadata))
      (writer.blobs.map BlobMetadata.reread) blobs := by
    rw [List.forall₂_map_left_iff]
    exact laid.described.imp fun entry blob describes => (describes.append _).reread
  refine ⟨writer.bytes, _, rfl, read.trans parsed, described, ?_, laid.ranges.reread, ?_⟩
  · exact described.imp fun entry blob describes => describes.readFrom lossless
  · intro key
    exact lookup_reread _ key

/-! ### A file of two blobs -/

/-- The text of the footer. -/
def twoText : String :=
  "\x7b\"blobs\":[\x7b\"type\":\"a\",\"fields\":[1],\"snapshot-id\":-1," ++
  "\"sequence-number\":-1,\"offset\":4,\"length\":3\x7d,\x7b\"type\":\"b\",\"fields\":[]," ++
  "\"snapshot-id\":2,\"sequence-number\":1,\"offset\":7,\"length\":0\x7d]," ++
  "\"properties\":\x7b\"created-by\":\"c\"\x7d\x7d"

def firstBlob : Blob := ⟨"a", [1], -1, -1, none, ∅, [1, 2, 3]⟩

/-- A blob without payload. -/
def secondBlob : Blob := ⟨"b", [], 2, 1, none, ∅, []⟩

def twoWriter : PuffinWriter :=
  ⟨magic ++ [1, 2, 3], [firstBlob.metadata 4 3, secondBlob.metadata 7 0],
    (∅ : HashMap String String).insert "created-by" "c"⟩

/-- Libraries that know the text of this footer. -/
def twoLibraries : Libraries where
  toVec _ := Lexicographic.utf8 twoText
  fromSlice bytes :=
    if bytes = Lexicographic.utf8 twoText then .ok twoWriter.metadata.toJson
    else .error "expected value"
  encodeAll := .ok
  decodeAll := .ok

theorem puffin_round_trip_two : ∃ body metadata,
    magic ++ [1, 2, 3] ++ footer twoLibraries twoWriter.metadata =
      body ++ footer twoLibraries twoWriter.metadata ∧
    readFooter twoLibraries (magic ++ [1, 2, 3] ++ footer twoLibraries twoWriter.metadata) =
      .ok metadata ∧
    RoundTrips twoLibraries (magic ++ [1, 2, 3] ++ footer twoLibraries twoWriter.metadata)
      body.length metadata [firstBlob, secondBlob] (AList.insert "created-by" "c" ∅) := by
  have lossless : twoLibraries.Lossless := by
    intro payload stored encoded
    cases encoded
    rfl
  have first : Wrote twoLibraries [firstBlob] _ _ :=
    .writeBlob (.setProperty "created-by" "c" .new) rfl
  have both : Wrote twoLibraries [firstBlob, secondBlob] _ twoWriter := .writeBlob first rfl
  have text (json : Json) : twoLibraries.toVec json = Lexicographic.utf8 twoText := rfl
  have small : (Lexicographic.utf8 twoText).length ≤ 2147483647 := by decide +kernel
  have finished := (@finish_eq_ok twoLibraries twoWriter _).mpr
    ⟨(congrArg List.length (text twoWriter.metadata.toJson)).trans_le small, rfl⟩
  have prints : twoLibraries.Prints twoWriter.metadata.toJson := by
    simp only [Libraries.Prints, twoLibraries, if_true]
  exact (puffin_round_trip lossless).1 _ _ _ _ both finished prints

end Puffin

end IcebergRust
