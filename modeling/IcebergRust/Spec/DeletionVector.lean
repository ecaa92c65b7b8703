import IcebergRust.Spec.Bytes
import Mathlib.Data.Finset.Union

/-!
# Deletion vectors

`DeletionVector` and `DeletionVector::decode` of `iceberg-rust-spec/src/spec/deletion_vector.rs`.

* `WellFormed` is the layout of a blob, without the decoder: a length, a magic, the entries of a
  roaring directory and a checksum.
* `readEntries_reads` is the loop over the directory; `decode_eq_ok` takes a blob apart.
-/

namespace IcebergRust

open Fallible Reader

/-- `DeletionVector`: the deleted positions of a data file. -/
structure DeletionVector where
  positions : Finset Nat
deriving DecidableEq

/-- `DeletionVector::contains`. -/
def DeletionVector.contains (vector : DeletionVector) (position : Nat) : Bool :=
  position ∈ vector.positions

/-- `RoaringBitmap`: a set of 32-bit values. -/
abbrev RoaringBitmap := Finset (BitVec 32)

/-- `RoaringTreemap`: a bitmap for each key. -/
abbrev RoaringTreemap := HashMap (BitVec 32) RoaringBitmap

/-- The positions of a treemap: a key is the high half of a position. -/
def RoaringTreemap.positions (treemap : RoaringTreemap) : Finset Nat :=
  treemap.entries.toFinset.biUnion fun entry =>
    entry.2.image fun low => entry.1.toNat * 4294967296 + low.toNat

/-- What `decode` calls: the checksum of bytes and the decoder of one bitmap. -/
structure RoaringLibraries where
  /-- `crc32fast::hash`. -/
  crc32 : List UInt8 → BitVec 32
  /-- `RoaringBitmap::deserialize_from`, which reads from the front of a slice. -/
  deserializeFrom : Reader String UInt8 RoaringBitmap

namespace DeletionVector

/-! ### Decoding -/

/-- `MAGIC`. -/
def magic : List UInt8 := [0xD1, 0xD3, 0x39, 0x64]

def lengthBytes : Nat := 4

def magicBytes : Nat := 4

def crcBytes : Nat := 4

def minBlobBytes : Nat := lengthBytes + magicBytes + crcBytes

/-- `{:02x}` and its like: hexadecimal digits, with zeros in front up to a width. -/
def hex (width n : Nat) : String :=
  let digits := Nat.toDigits 16 n
  String.ofList (List.replicate (width - digits.length) '0' ++ digits)

/-- `{:02x?}` of bytes. -/
def hexBytes (bytes : List UInt8) : String :=
  "[" ++ ", ".intercalate (bytes.map fun byte => hex 2 byte.toNat) ++ "]"

/-- The errors of the checks of a blob. -/
def lengthError (declared expected : Nat) : Error :=
  .invalidFormat ("deletion-vector-v1 length prefix is " ++ toString declared ++ ", expected " ++
    toString expected)

def crcError (computed stored : BitVec 32) : Error :=
  .invalidFormat ("deletion-vector-v1 CRC mismatch: computed 0x" ++ hex 8 computed.toNat ++
    ", stored 0x" ++ hex 8 stored.toNat)

def magicError (found : List UInt8) : Error :=
  .invalidFormat ("deletion-vector-v1 magic mismatch: " ++ hexBytes found ++ ", expected " ++
    hexBytes magic)

/-- `read_u32_le`. -/
def readU32Le : Reader Error UInt8 (BitVec 32) := readLe 4

/-- `read_u64_le`. -/
def readU64Le : Reader Error UInt8 (BitVec 64) := readLe 8

/-- `Vec::with_capacity`, of elements of a size. -/
def withCapacity (capacity size : Nat) : Except Error Unit :=
  if (capacity * size : Int) ≤ maxI64 then .ok () else .error (.panicked "capacity overflow")

variable (lib : RoaringLibraries)

/-- The bitmap of an entry. -/
def readBitmap : Reader Error UInt8 RoaringBitmap := fun input =>
  (lib.deserializeFrom input).mapError .io

/-- What `decode_roaring_directory` reads for one bitmap, after that of the previous key. -/
def readEntry (previous : Option (BitVec 32)) : Reader Error UInt8 (BitVec 32 × RoaringBitmap) :=
  readU32Le.andThen fun key input =>
    if previous.any (key ≤ ·) then
      .error (.invalidFormat ("deletion-vector-v1 roaring keys are not strictly ordered: " ++
        toString key.toNat ++ " follows " ++ toString (previous.getD 0).toNat))
    else (readBitmap lib input).map fun found => ((key, found.1), found.2)

/-- The loop of `decode_roaring_directory`. -/
def readEntries : Nat → Option (BitVec 32) →
    Reader Error UInt8 (List (BitVec 32 × RoaringBitmap))
  | 0, _ => fun input => .ok ([], input)
  | count + 1, previous => (readEntry lib previous).andThen fun entry input =>
      (readEntries count (some entry.1) input).map fun found => (entry :: found.1, found.2)

/-- `decode_roaring_directory`; an element of its `Vec` has 32 bytes. -/
def decodeRoaringDirectory (input : List UInt8) : Except Error RoaringTreemap := do
  let count ← readU64Le input
  if 4294967295 < count.1.toNat then
    .error (.invalidFormat ("deletion-vector-v1 roaring bitmap count " ++ toString count.1.toNat ++
      " exceeds the 32-bit key space"))
  else do
    withCapacity count.1.toNat 32
    let bitmaps ← readEntries lib count.1.toNat none count.2
    if bitmaps.2 ≠ [] then
      .error (.invalidFormat ("deletion-vector-v1 roaring payload has " ++
        toString bitmaps.2.length ++ " trailing bytes"))
    else .ok (.fromIter bitmaps.1)

/-- The check of the magic, and what follows it. -/
def decodeBody (body : List UInt8) : Except Error DeletionVector := do
  let found ← slice body 0 magicBytes
  if found ≠ magic then .error (magicError found)
  else do
    let payload ← slice body magicBytes body.length
    let positions ← decodeRoaringDirectory lib payload
    .ok ⟨positions.positions⟩

/-- `DeletionVector::decode`. -/
def decode (blob : List UInt8) : Except Error DeletionVector :=
  if blob.length < minBlobBytes then
    .error (.invalidFormat ("deletion-vector-v1 blob is " ++ toString blob.length ++
      " bytes, shorter than the " ++ toString minBlobBytes ++ "-byte minimum"))
  else do
    let crcStart ← subUsize blob.length crcBytes
    let body ← slice blob lengthBytes crcStart
    let declared ← slice blob 0 lengthBytes >>= fromBeBytes 32
    if declared.toNat ≠ body.length then .error (lengthError declared.toNat body.length)
    else do
      let stored ← slice blob crcStart blob.length >>= fromBeBytes 32
      if stored ≠ lib.crc32 body then .error (crcError (lib.crc32 body) stored)
      else decodeBody lib body

/-! ### Layout -/

/-- The bytes of entries: a key and an encoding of its bitmap each. -/
def Entries (encodes : List UInt8 → RoaringBitmap → Prop) :
    List UInt8 → List (BitVec 32 × RoaringBitmap) → Prop
  | text, [] => text = []
  | text, entry :: entries => ∃ own rest, text = Value.leBytes entry.1 ++ (own ++ rest) ∧
      encodes own entry.2 ∧ Entries encodes rest entries

/-- What a body holds: the magic, the number of entries and the entries. -/
def Holds (encodes : List UInt8 → RoaringBitmap → Prop) (body : List UInt8)
    (entries : List (BitVec 32 × RoaringBitmap)) : Prop :=
  ∃ directory, Entries encodes directory entries ∧
    body = magic ++ (Value.leBytes (BitVec.ofNat 64 entries.length) ++ directory)

/-- A well-formed blob of entries. -/
structure WellFormed (encodes : List UInt8 → RoaringBitmap → Prop) (blob : List UInt8)
    (entries : List (BitVec 32 × RoaringBitmap)) : Prop where
  framed : ∃ body, Holds encodes body entries ∧ body.length < 4294967296 ∧
    blob = toBeBytes (BitVec.ofNat 32 body.length) ++ (body ++ toBeBytes (lib.crc32 body))
  ascending : (entries.map (·.1.toNat)).Pairwise (· < ·)

/-! ### The directory -/

/-- Keys that go on from a previous one. -/
def Ascends (previous : Option (BitVec 32)) (entries : List (BitVec 32 × RoaringBitmap)) : Prop :=
  (previous.toList.map (·.toNat) ++ entries.map (·.1.toNat)).Pairwise (· < ·)

theorem ascends_cons {previous : Option (BitVec 32)} {entry : BitVec 32 × RoaringBitmap}
    {entries : List (BitVec 32 × RoaringBitmap)} :
    Ascends previous (entry :: entries) ↔
      ¬ previous.any (entry.1 ≤ ·) = true ∧ Ascends (some entry.1) entries := by
  cases previous with
  | none => simp [Ascends]
  | some key =>
    simp only [Ascends, Option.toList_some, List.map_cons, List.map_nil, List.cons_append,
      List.nil_append, List.pairwise_cons, List.mem_cons, forall_eq_or_imp, Option.any_some,
      decide_eq_true_eq, BitVec.le_def, Nat.not_le]
    constructor
    · rintro ⟨⟨less, -⟩, above, rest⟩
      exact ⟨less, above, rest⟩
    · rintro ⟨less, above, rest⟩
      exact ⟨⟨less, fun other member => less.trans (above other member)⟩, above, rest⟩

section Directory

variable {lib}

theorem calm_readBitmap : Calm (readBitmap lib) := by
  intro input e failed
  unfold readBitmap at failed
  cases found : lib.deserializeFrom input with
  | ok read =>
    rw [found] at failed
    cases failed
  | error what =>
    rw [found] at failed
    cases failed
    exact nofun

theorem calm_readEntries (count : Nat) (previous : Option (BitVec 32)) :
    Calm (readEntries lib count previous) := by
  induction count generalizing previous with
  | zero => exact fun input => raises_ok _
  | succ count ih =>
    intro input
    refine Raises.bind (Raises.bind (calm_readLe 4 input) fun key _ => ?_) fun entry _ =>
      (ih _ _).map _
    exact Raises.guard (fun _ => nofun) fun _ => (calm_readBitmap _).map _

theorem withCapacity_ok {count : Nat} (small : count ≤ 4294967295) :
    withCapacity count 32 = .ok () := by
  unfold withCapacity maxI64
  exact if_pos (by omega)

variable {encodes : List UInt8 → RoaringBitmap → Prop}
  (decodes : Reads encodes lib.deserializeFrom)

include decodes

theorem readBitmap_reads : Reads encodes (readBitmap lib) := by
  intro input bitmap rest
  rw [← decodes input bitmap rest]
  unfold readBitmap
  cases lib.deserializeFrom input with
  | ok found => simp
  | error e => simp [Except.mapError]

theorem readEntry_reads (previous : Option (BitVec 32)) :
    Reads (fun text entry => ¬ previous.any (entry.1 ≤ ·) = true ∧
      ∃ own, text = Value.leBytes entry.1 ++ own ∧ encodes own entry.2)
      (readEntry lib previous) := by
  have bitmap (key : BitVec 32) := ((readBitmap_reads decodes).map (Prod.mk key)).check
    (previous.any (key ≤ ·) = true) (.invalidFormat
      ("deletion-vector-v1 roaring keys are not strictly ordered: " ++ toString key.toNat ++
        " follows " ++ toString (previous.getD 0).toNat))
  refine ((readLe_reads 4).andThen bitmap).of_iff ?_
  intro text entry
  constructor
  · rintro ⟨_, own, key, rfl, rfl, fresh, bitmap, rfl, encoded⟩
    exact ⟨fresh, own, rfl, encoded⟩
  · rintro ⟨fresh, own, rfl, encoded⟩
    exact ⟨_, own, entry.1, rfl, rfl, fresh, entry.2, rfl, encoded⟩

/-- The loop reads as many entries as it is told, in order. -/
theorem readEntries_reads (count : Nat) (previous : Option (BitVec 32)) :
    Reads (fun text entries => entries.length = count ∧ Ascends previous entries ∧
      Entries encodes text entries) (readEntries lib count previous) := by
  induction count generalizing previous with
  | zero =>
    refine (reads_nothing []).of_iff ?_
    intro text entries
    constructor
    · rintro ⟨rfl, rfl⟩
      exact ⟨rfl, by cases previous <;> simp [Ascends], rfl⟩
    · rintro ⟨length, -, spelled⟩
      obtain rfl := List.length_eq_zero_iff.mp length
      exact ⟨spelled, rfl⟩
  | succ count ih =>
    have rest (entry : BitVec 32 × RoaringBitmap) := (ih (some entry.1)).map (entry :: ·)
    refine ((readEntry_reads decodes previous).andThen rest).of_iff ?_
    intro text entries
    constructor
    · rintro ⟨_, more, entry, rfl, ⟨fresh, own, rfl, encoded⟩, others, rfl, rfl, ascends, spelled⟩
      exact ⟨rfl, ascends_cons.mpr ⟨fresh, ascends⟩, own, more, List.append_assoc .., encoded,
        spelled⟩
    · rintro ⟨length, ascends, spelled⟩
      cases entries with
      | nil => cases length
      | cons entry others =>
        obtain ⟨own, more, rfl, encoded, spelled⟩ := spelled
        obtain ⟨fresh, ascends⟩ := ascends_cons.mp ascends
        exact ⟨_, more, entry, (List.append_assoc ..).symm, ⟨fresh, own, rfl, encoded⟩, others,
          rfl, Nat.succ.inj length, ascends, spelled⟩

theorem decodeRoaringDirectory_eq_ok {input : List UInt8} {treemap : RoaringTreemap} :
    decodeRoaringDirectory lib input = .ok treemap ↔ ∃ entries directory,
      input = Value.leBytes (BitVec.ofNat 64 entries.length) ++ directory ∧
      Entries encodes directory entries ∧ entries.length ≤ 4294967295 ∧
      (entries.map (·.1.toNat)).Pairwise (· < ·) ∧ treemap = .fromIter entries := by
  unfold decodeRoaringDirectory
  rw [bind_eq_ok]
  constructor
  · rintro ⟨⟨count, left⟩, read, run⟩
    obtain ⟨small, run⟩ := guard_eq_ok.mp run
    rw [withCapacity_ok (Nat.not_lt.mp small), ok_bind, bind_eq_ok] at run
    obtain ⟨⟨entries, trailing⟩, looped, run⟩ := run
    obtain ⟨whole, run⟩ := guard_eq_ok.mp run
    obtain rfl : trailing = [] := not_not.mp whole
    cases run
    obtain ⟨_, rfl, rfl⟩ := (readLe_reads 8 _ _ _).mp read
    obtain ⟨directory, rfl, length, ascends, spelled⟩ :=
      (readEntries_reads decodes _ _ _ _ _).mp looped
    refine ⟨entries, directory, ?_, spelled, length ▸ Nat.not_lt.mp small, ascends, rfl⟩
    rw [length, BitVec.ofNat_toNat, BitVec.setWidth_eq, List.append_nil]
  · rintro ⟨entries, directory, rfl, spelled, small, ascending, rfl⟩
    have exact' : (BitVec.ofNat 64 entries.length).toNat = entries.length :=
      (BitVec.toNat_ofNat ..).trans (Nat.mod_eq_of_lt (by omega))
    refine ⟨_, (readLe_reads 8 _ _ _).mpr ⟨_, rfl, rfl⟩, guard_eq_ok.mpr ⟨?_, ?_⟩⟩
    · simp only [exact']
      omega
    · have looped : readEntries lib entries.length none directory = .ok (entries, []) :=
        (readEntries_reads decodes _ _ _ _ _).mpr
          ⟨directory, (List.append_nil _).symm, rfl, ascending, spelled⟩
      simp only [exact', withCapacity_ok small, ok_bind, looped]
      rfl

end Directory

/-! ### Blobs -/

section Blobs

variable {lib}

theorem decodeBody_eq (found payload : List UInt8) (width : found.length = magicBytes) :
    decodeBody lib (found ++ payload) = if found ≠ magic then .error (magicError found)
      else decodeRoaringDirectory lib payload >>= fun treemap => .ok ⟨treemap.positions⟩ := by
  unfold decodeBody
  rw [← width, slice_start, ok_bind, slice_end, ok_bind]

/-- The checks of a blob, once it is taken apart. -/
theorem decode_eq {size body tail : List UInt8} (width : size.length = 4)
    (width' : tail.length = 4) (enough : magicBytes ≤ body.length) :
    decode lib (size ++ (body ++ tail)) =
      fromBeBytes 32 size >>= fun declared =>
        if declared.toNat ≠ body.length then .error (lengthError declared.toNat body.length)
        else fromBeBytes 32 tail >>= fun stored =>
          if stored ≠ lib.crc32 body then .error (crcError (lib.crc32 body) stored)
          else decodeBody lib body := by
  have whole : (size ++ (body ++ tail)).length = size.length + body.length + crcBytes := by
    rw [List.length_append, List.length_append, width', ← Nat.add_assoc]
    rfl
  have long : ¬ (size ++ (body ++ tail)).length < minBlobBytes := by
    rw [whole, width]
    unfold minBlobBytes lengthBytes
    omega
  have tail_eq : slice (size ++ (body ++ tail)) (size.length + body.length)
      (size.length + body.length + crcBytes) = .ok tail := by
    have part := slice_end (size ++ body) tail
    rwa [List.append_assoc, whole, List.length_append] at part
  have start : lengthBytes = size.length := width.symm
  unfold decode
  rw [if_neg long, whole, subUsize_add, ok_bind, start, slice_middle, ok_bind, slice_start,
    ok_bind, tail_eq, ok_bind]

/-- A blob that is long enough has these parts. -/
theorem exists_parts {blob : List UInt8} (long : minBlobBytes ≤ blob.length) :
    ∃ size body tail : List UInt8, blob = size ++ (body ++ tail) ∧ size.length = 4 ∧
      tail.length = 4 ∧ magicBytes ≤ body.length := by
  unfold minBlobBytes lengthBytes crcBytes at long
  refine ⟨blob.take 4, (blob.drop 4).take (blob.length - 8), (blob.drop 4).drop (blob.length - 8),
    ?_, ?_, ?_, ?_⟩
  · rw [List.take_append_drop, List.take_append_drop]
  · rw [List.length_take]
    omega
  · rw [List.length_drop, List.length_drop]
    omega
  · rw [List.length_take, List.length_drop]
    omega

theorem decode_short {blob : List UInt8} (short : blob.length < minBlobBytes) :
    ∃ what, decode lib blob = .error (.invalidFormat what) := ⟨_, if_pos short⟩

/-- Decoding returns its errors, whatever the bytes. -/
theorem decode_returns (blob : List UInt8) : Raises Error.Returned (decode lib blob) := by
  by_cases short : blob.length < minBlobBytes
  · obtain ⟨what, failed⟩ := @decode_short lib blob short
    rw [failed]
    exact raises_error nofun
  · obtain ⟨size, body, tail, rfl, width, width', enough⟩ := exists_parts (Nat.not_lt.mp short)
    rw [decode_eq width width' enough]
    refine (fromBeBytes_returns _ _).bind fun declared _ => Raises.guard (fun _ => nofun) fun _ =>
      (fromBeBytes_returns _ _).bind fun stored _ => Raises.guard (fun _ => nofun) fun _ => ?_
    have parts := List.take_append_drop magicBytes body
    rw [← parts, decodeBody_eq _ _ (List.length_take_of_le enough)]
    refine Raises.guard (fun _ => nofun) fun _ => Raises.bind ?_ fun _ _ => raises_ok _
    refine Raises.bind (calm_readLe 8 _) fun count _ => Raises.guard (fun _ => nofun) fun small => ?_
    rw [withCapacity_ok (Nat.not_lt.mp small), ok_bind]
    exact (calm_readEntries _ _ _).bind fun bitmaps _ =>
      Raises.guard (fun _ => nofun) fun _ => raises_ok _

variable {entries : List (BitVec 32 × RoaringBitmap)}

/-- A directory of entries is longer than they are many. -/
theorem Entries.length_le {encodes : List UInt8 → RoaringBitmap → Prop} {text : List UInt8}
    (spelled : Entries encodes text entries) : entries.length ≤ text.length := by
  induction entries generalizing text with
  | nil => exact Nat.zero_le _
  | cons entry entries ih =>
    obtain ⟨own, rest, rfl, -, spelled⟩ := spelled
    have key : (Value.leBytes entry.1).length = 4 := length_leBytes entry.1
    have := ih spelled
    simp only [List.length_append, List.length_cons]
    omega

/-- Distinct keys are all bound. -/
theorem lookup_fromIter (ascending : (entries.map (·.1.toNat)).Pairwise (· < ·)) {key : BitVec 32}
    {bitmap : RoaringBitmap} :
    (HashMap.fromIter entries).lookup key = some bitmap ↔ (key, bitmap) ∈ entries := by
  refine HashMap.lookup_fromIter_of_distinct fun entry member other member' same => ?_
  have distinct : (entries.map (·.1.toNat)).Nodup := ascending.imp fun less => Nat.ne_of_lt less
  exact List.inj_on_of_nodup_map distinct member member' (congrArg BitVec.toNat same)

theorem mem_positions (ascending : (entries.map (·.1.toNat)).Pairwise (· < ·)) {position : Nat} :
    position ∈ RoaringTreemap.positions (.fromIter entries) ↔
      ∃ entry ∈ entries, ∃ low ∈ entry.2,
        position = entry.1.toNat * 4294967296 + low.toNat := by
  have bound (key : BitVec 32) (bitmap : RoaringBitmap) :
      (⟨key, bitmap⟩ : Sigma fun _ => RoaringBitmap) ∈
        (HashMap.fromIter entries).entries ↔ (key, bitmap) ∈ entries := by
    rw [← AList.mem_lookup_iff, Option.mem_def, lookup_fromIter ascending]
  unfold RoaringTreemap.positions
  simp only [Finset.mem_biUnion, List.mem_toFinset, Finset.mem_image]
  constructor
  · rintro ⟨entry, member, low, inside, rfl⟩
    exact ⟨(entry.1, entry.2), (bound _ _).mp member, low, inside, rfl⟩
  · rintro ⟨entry, member, low, inside, rfl⟩
    exact ⟨⟨entry.1, entry.2⟩, (bound _ _).mpr member, low, inside, rfl⟩

variable {encodes : List UInt8 → RoaringBitmap → Prop}
  (decodes : Reads encodes lib.deserializeFrom)

include decodes

/-- What is decoded is well formed. -/
theorem decode_eq_ok {blob : List UInt8} {vector : DeletionVector} :
    decode lib blob = .ok vector ↔ ∃ entries, WellFormed lib encodes blob entries ∧
      vector = ⟨(RoaringTreemap.positions (.fromIter entries))⟩ := by
  constructor
  · intro run
    by_cases short : blob.length < minBlobBytes
    · obtain ⟨what, failed⟩ := @decode_short lib blob short
      rw [failed] at run
      cases run
    · obtain ⟨size, body, tail, rfl, width, width', enough⟩ := exists_parts (Nat.not_lt.mp short)
      rw [decode_eq width width' enough, bind_eq_ok] at run
      obtain ⟨declared, read, run⟩ := run
      obtain ⟨length, run⟩ := guard_eq_ok.mp run
      obtain ⟨stored, read', run⟩ := bind_eq_ok.mp run
      obtain ⟨checked, run⟩ := guard_eq_ok.mp run
      rw [← List.take_append_drop magicBytes body,
        decodeBody_eq _ _ (List.length_take_of_le enough), guard_eq_ok, bind_eq_ok] at run
      obtain ⟨spelled, treemap, decoded, run⟩ := run
      cases run
      obtain ⟨entries, directory, same, held, -, ascending, rfl⟩ :=
        (decodeRoaringDirectory_eq_ok decodes).mp decoded
      have length' : declared.toNat = body.length := not_not.mp length
      refine ⟨entries, ⟨⟨body, ⟨directory, held, ?_⟩, length' ▸ declared.isLt, ?_⟩, ascending⟩, rfl⟩
      · rw [← same, ← not_not.mp spelled, List.take_append_drop]
      · rw [← length', BitVec.ofNat_toNat, BitVec.setWidth_eq, ← not_not.mp checked,
          ← (@fromBeBytes_eq_ok 4 _ _).mp read, ← (@fromBeBytes_eq_ok 4 _ _).mp read']
  · rintro ⟨entries, ⟨⟨body, ⟨directory, held, rfl⟩, small, rfl⟩, ascending⟩, rfl⟩
    have parts : magic.length = magicBytes := rfl
    have few : entries.length ≤ 4294967295 := by
      have := held.length_le
      simp only [List.length_append] at small
      omega
    have enough : magicBytes ≤
        (magic ++ (Value.leBytes (BitVec.ofNat 64 entries.length) ++ directory)).length := by
      rw [List.length_append, parts]
      exact Nat.le_add_right ..
    have decoded := (decodeRoaringDirectory_eq_ok decodes).mpr
      ⟨entries, directory, rfl, held, few, ascending, rfl⟩
    rw [decode_eq (length_toBeBytes _) (length_toBeBytes _) enough,
      (@fromBeBytes_eq_ok 4 _ _).mpr rfl, (@fromBeBytes_eq_ok 4 _ _).mpr rfl, ok_bind, ok_bind,
      decodeBody_eq _ _ parts, decoded, if_neg, if_neg (fun differ => differ rfl),
      if_neg (fun differ => differ rfl), ok_bind]
    rw [not_not, BitVec.toNat_ofNat]
    exact Nat.mod_eq_of_lt small

/-- **Decoding is exact.**  It never panics, accepts the well-formed blobs, and yields the positions
of their entries. -/
theorem decode_exact (blob : List UInt8) :
    ¬ Panics (decode lib blob) ∧
    ((∃ vector, decode lib blob = .ok vector) ↔ ∃ entries, WellFormed lib encodes blob entries) ∧
    ∀ vector entries, decode lib blob = .ok vector → WellFormed lib encodes blob entries →
      ∀ position, vector.contains position = true ↔ ∃ entry ∈ entries, ∃ low ∈ entry.2,
        position = entry.1.toNat * 4294967296 + low.toNat := by
  refine ⟨not_panics_iff.mpr (decode_returns blob), ?_, ?_⟩
  · constructor
    · rintro ⟨vector, run⟩
      obtain ⟨entries, formed, -⟩ := (decode_eq_ok decodes).mp run
      exact ⟨entries, formed⟩
    · rintro ⟨entries, formed⟩
      exact ⟨_, (decode_eq_ok decodes).mpr ⟨entries, formed, rfl⟩⟩
  · intro vector entries run formed position
    cases run.symm.trans ((decode_eq_ok decodes).mpr ⟨entries, formed, rfl⟩)
    rw [← mem_positions formed.ascending]
    exact decide_eq_true_iff

end Blobs

/-! ### A blob -/

/-- One step of the checksum. -/
def crcStep (crc : BitVec 32) : BitVec 32 :=
  if crc.getLsbD 0 then (crc >>> 1) ^^^ 0xEDB88320#32 else crc >>> 1

/-- CRC-32. -/
def crc32 (bytes : List UInt8) : BitVec 32 :=
  ~~~ bytes.foldl (fun crc byte => crcStep^[8] (crc ^^^ byte.toBitVec.setWidth 32)) (~~~ 0#32)

/-- The portable form of the bitmap of five: one array container. -/
def fiveBytes : List UInt8 := [0x3A, 0x30, 0, 0, 1, 0, 0, 0, 0, 0, 0, 0, 16, 0, 0, 0, 5, 0]

/-- A decoder of this bitmap. -/
def readFive : Reader String UInt8 RoaringBitmap := fun input =>
  if input.take 18 = fiveBytes then .ok ({5}, input.drop 18) else .error "unknown cookie value"

theorem readFive_reads : Reads (fun text bitmap => text = fiveBytes ∧ bitmap = {5}) readFive := by
  intro input bitmap rest
  unfold readFive
  constructor
  · intro read
    by_cases five : input.take 18 = fiveBytes
    · rw [if_pos five] at read
      cases read
      exact ⟨fiveBytes, by rw [← five, List.take_append_drop], rfl, rfl⟩
    · rw [if_neg five] at read
      cases read
  · rintro ⟨_, rfl, rfl, rfl⟩
    exact if_pos rfl

/-- Five under the keys zero and two. -/
def fiveBlob : List UInt8 :=
  [0, 0, 0, 56, 0xD1, 0xD3, 0x39, 0x64, 2, 0, 0, 0, 0, 0, 0, 0, 0, 0, 0, 0] ++ fiveBytes ++
    [2, 0, 0, 0] ++ fiveBytes ++ [0xeb, 0x96, 0xa5, 0xf9]

theorem decode_exact_five : ¬ Panics (decode ⟨crc32, readFive⟩ fiveBlob) ∧
    ∃ entries, WellFormed ⟨crc32, readFive⟩ (fun text bitmap => text = fiveBytes ∧ bitmap = {5})
      fiveBlob entries :=
  have exact' := @decode_exact ⟨crc32, readFive⟩ _ readFive_reads fiveBlob
  have decoded : (decode ⟨crc32, readFive⟩ fiveBlob).toOption.isSome = true := by decide +kernel
  have ⟨vector, decoded⟩ := Option.isSome_iff_exists.mp decoded
  ⟨exact'.1, exact'.2.1.mp ⟨vector, toOption_eq_some.mp decoded⟩⟩

end DeletionVector

end IcebergRust
