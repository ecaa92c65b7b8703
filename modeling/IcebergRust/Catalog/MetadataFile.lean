import IcebergRust.Spec.TableMetadata

/-!
# Metadata files

How the catalogs name, write and read the metadata file of a table:
`new_metadata_location` of the spec crate, and `put_metadata` of the object store.

* A location ends in `.gz.metadata.json` exactly where the content is compressed; the
  catalogs read a file as plain JSON whatever its name.
* `newMetadataLocation_inj`: locations drawn with different UUIDs differ.
-/

namespace IcebergRust

/-! ### The text of a UUID -/

namespace Uuid

theorem hexDigit_inj {m n : Nat} (hm : m < 16) (hn : n < 16) (same : hexDigit m = hexDigit n) :
    m = n := by
  have table : ∀ a b : Fin 16, hexDigit a = hexDigit b → a = b := by decide
  exact congrArg Fin.val (table ⟨m, hm⟩ ⟨n, hn⟩ same)

/-- Numbers with the same last hexadecimal digits agree up to there. -/
theorem mod_eq_of_digits {m n : Nat} (k : Nat) (digits : ∀ i < k, m / 16 ^ i % 16 = n / 16 ^ i % 16) :
    m % 16 ^ k = n % 16 ^ k := by
  induction k with
  | zero => rw [Nat.pow_zero, Nat.mod_one, Nat.mod_one]
  | succ k ih =>
    rw [Nat.mod_pow_succ, Nat.mod_pow_succ, ih fun i below => digits i (Nat.lt_succ_of_lt below),
      digits k (Nat.lt_succ_self k)]

theorem length_digits (uuid : Uuid) : uuid.digits.length = 32 := by
  simp [digits]

theorem digits_inj {a b : Uuid} (same : a.digits = b.digits) : a = b := by
  have each := List.map_inj_left.mp same
  have agree : a.value.toNat % 16 ^ 32 = b.value.toNat % 16 ^ 32 := by
    refine mod_eq_of_digits 32 fun i below => ?_
    exact hexDigit_inj (Nat.mod_lt _ (by decide)) (Nat.mod_lt _ (by decide))
      (each i (List.mem_reverse.mpr (List.mem_range.mpr below)))
  have bound : ∀ uuid : Uuid, uuid.value.toNat < 16 ^ 32 := fun uuid => uuid.value.isLt
  rw [Nat.mod_eq_of_lt (bound a), Nat.mod_eq_of_lt (bound b)] at agree
  cases a
  cases b
  exact congrArg Uuid.mk (BitVec.eq_of_toNat_eq agree)

theorem length_display (uuid : Uuid) : uuid.display.toList.length = 36 := by
  simp [display, length_digits]

theorem display_inj {a b : Uuid} (same : a.display = b.display) : a = b := by
  have texts := congrArg String.toList same
  simp only [display, String.toList_ofList, List.append_assoc, List.cons_append] at texts
  obtain ⟨first, texts⟩ := List.append_inj texts (by simp [length_digits])
  obtain ⟨second, texts⟩ := List.append_inj (List.cons.inj texts).2 (by simp [length_digits])
  obtain ⟨third, texts⟩ := List.append_inj (List.cons.inj texts).2 (by simp [length_digits])
  obtain ⟨fourth, texts⟩ := List.append_inj (List.cons.inj texts).2 (by simp [length_digits])
  have last := (List.cons.inj texts).2
  have whole : ∀ ds : List Char, ds.take 8 ++ ((ds.drop 8).take 4 ++ ((ds.drop 12).take 4 ++
      ((ds.drop 16).take 4 ++ ds.drop 20))) = ds := by
    intro ds
    have tail : ∀ n, (ds.drop n).take 4 ++ ds.drop (n + 4) = ds.drop n := fun n => by
      rw [← List.drop_drop, List.take_append_drop]
    rw [tail 16, tail 12, tail 8, List.take_append_drop]
  apply digits_inj
  rw [← whole a.digits, first, second, third, fourth, last, whole]

/-- The letter that sets compressed locations apart is no hexadecimal digit. -/
theorem z_notMem_display (uuid : Uuid) : 'z' ∉ uuid.display.toList := by
  intro member
  have table : ∀ d : Fin 16, hexDigit d ≠ 'z' := by decide
  have digit : ∀ c ∈ uuid.digits, c ≠ 'z' := by
    intro c member
    obtain ⟨i, -, rfl⟩ := List.mem_map.mp member
    exact table ⟨_, Nat.mod_lt _ (by decide)⟩
  simp only [display, String.toList_ofList, List.mem_append, List.mem_cons] at member
  rcases member with (((here | here) | here) | here) | here
  · exact digit _ (List.mem_of_mem_take here) rfl
  all_goals
    rcases here with hyphen | here
    · exact absurd hyphen (by decide)
  · exact digit _ (List.mem_of_mem_drop (List.mem_of_mem_take here)) rfl
  · exact digit _ (List.mem_of_mem_drop (List.mem_of_mem_take here)) rfl
  · exact digit _ (List.mem_of_mem_drop (List.mem_of_mem_take here)) rfl
  · exact digit _ (List.mem_of_mem_drop here) rfl

end Uuid

/-! ### Locations -/

/-- Whether `text` ends in `suffix`. -/
def endsWith (text suffix : String) : Bool := suffix.toList.isSuffixOf text.toList

/-- `metadata_is_gzipped`. -/
def metadataIsGzipped (properties : HashMap String String) : Bool :=
  (properties.lookup "write.metadata.compression-codec").any fun codec =>
    (trim codec.toList).map Char.toLower = "gzip".toList

/-- `{:05}` of an `i64`. -/
def padZeros (n : Int) : String :=
  let digits (width : Nat) := (toString n.natAbs).toList.leftpad width '0'
  if n < 0 then String.ofList ('-' :: digits 4) else String.ofList (digits 5)

/-- The last part of a metadata location. -/
def metadataSuffix (gzipped : Bool) : String := if gzipped then "gz.metadata.json" else "metadata.json"

/-- `new_metadata_location`, with the UUID it draws. -/
def newMetadataLocation (metadata : TableMetadata) (transactionUuid : Uuid) : String :=
  metadata.location ++ "/metadata/" ++ padZeros metadata.lastSequenceNumber ++ "-" ++
    transactionUuid.display ++ "." ++ metadataSuffix (metadataIsGzipped metadata.properties)

/-- A location that carries a UUID before its suffix. -/
def CarriesUuid (location : String) (uuid : Uuid) : Prop :=
  ∃ start gzipped, location = start ++ uuid.display ++ "." ++ metadataSuffix gzipped

/-- Whether a location that carries a UUID is a compressed one shows in its suffix. -/
theorem endsWith_metadataSuffix (start : String) (uuid : Uuid) (gzipped : Bool) :
    endsWith (start ++ uuid.display ++ "." ++ metadataSuffix gzipped) ".gz.metadata.json" =
      gzipped := by
  cases gzipped with
  | true =>
    refine List.isSuffixOf_iff_suffix.mpr ⟨(start ++ uuid.display).toList, ?_⟩
    simp [metadataSuffix]
  | false =>
    refine Bool.eq_false_iff.mpr fun ends => ?_
    obtain ⟨rest, same⟩ := List.isSuffixOf_iff_suffix.mp ends
    -- The letters before the suffix are the last three of the UUID.
    have cut : rest ++ ".gz".toList ++ ".metadata.json".toList =
        start.toList ++ uuid.display.toList ++ ".metadata.json".toList := by
      simpa [metadataSuffix] using same
    have before := List.append_inj_left' cut rfl
    rw [← List.take_append_drop 33 uuid.display.toList, ← List.append_assoc] at before
    have last := List.append_inj_right' before (by simp [uuid.length_display])
    have member : 'z' ∈ uuid.display.toList.drop 33 := last ▸ by decide
    exact uuid.z_notMem_display (List.mem_of_mem_drop member)

/-- A location carries one UUID. -/
theorem CarriesUuid.inj {location : String} {u v : Uuid} (first : CarriesUuid location u)
    (second : CarriesUuid location v) : u = v := by
  obtain ⟨x, codec, here⟩ := first
  obtain ⟨y, other, there⟩ := second
  have codecs : codec = other := by
    rw [← endsWith_metadataSuffix x u codec, ← here, there, endsWith_metadataSuffix]
  have texts := congrArg String.toList (here.symm.trans there)
  simp only [String.toList_append] at texts
  rw [codecs] at texts
  have dotted := List.append_inj_left' texts rfl
  have plain := List.append_inj_left' dotted rfl
  have names := List.append_inj_right' plain (by rw [u.length_display, v.length_display])
  exact Uuid.display_inj (String.toList_inj.mp names)

/-- Locations drawn with different UUIDs differ. -/
theorem newMetadataLocation_inj {a b : TableMetadata} {u v : Uuid}
    (same : newMetadataLocation a u = newMetadataLocation b v) : u = v :=
  CarriesUuid.inj ⟨_, _, rfl⟩ ⟨_, _, same⟩

/-! ### Contents -/

/-- The bytes of a metadata file: JSON of the metadata, compressed or not. -/
structure MetadataFile where
  gzipped : Bool
  metadata : TableMetadata

/-- `serialize_metadata`: the name decides. -/
def serializeMetadata (location : String) (metadata : TableMetadata) : MetadataFile :=
  ⟨endsWith location ".gz.metadata.json", metadata⟩

/-- `serde_json::from_slice`: compressed bytes are no JSON. -/
def MetadataFile.fromSlice (file : MetadataFile) : Except Error TableMetadata :=
  if file.gzipped then .error (.invalidFormat "JSON") else .ok file.metadata

end IcebergRust
