import IcebergRust.Lib.Unordered
import IcebergRust.Spec.LongValue

/-!
# Reading data files

`iceberg-rust/src/arrow/read.rs`: the record batches of a list of manifest entries, in no
particular order.

* `openEntry` opens the file of an entry; Parquet files only.
* `Reads` are the streams `read` may return: an entry whose file does not open is left out.
* `losesNone_iff` says when nothing is lost and nothing else is yielded.
-/

namespace IcebergRust.ArrowRead

/-- `ParquetError`. -/
structure ParquetError where
  message : String
deriving DecidableEq, Repr

/-- Why a file does not open. -/
inductive ReadError where
  | notSupported (what : String)
  | parquet (error : ParquetError)
deriving DecidableEq, Repr

/-- The Parquet reader over an object store. -/
structure ParquetReader (B : Type) where
  /-- `util::strip_prefix`, which keeps the path of a URL. -/
  stripPrefix : String → String
  /-- `ParquetRecordBatchStreamBuilder`: reads the footer of the file at a path, of a size, and
  yields its batches. -/
  stream : String → BitVec 64 → Except ParquetError (List (Except ParquetError B))

variable {V B : Type}

/-- Opens the file of an entry. -/
def openEntry (reader : ParquetReader B) (entry : ManifestEntry V) :
    Except ReadError (List (Except ParquetError B)) :=
  match entry.dataFile.fileFormat with
  | .parquet =>
    (reader.stream (reader.stripPrefix entry.dataFile.filePath)
      (BitVec.ofInt 64 entry.dataFile.fileSizeInBytes)).mapError .parquet
  | _ => .error (.notSupported "fileformat")

/-- `filter_map(|x| x.ok())`. -/
def openOk (reader : ParquetReader B) (entry : ManifestEntry V) :
    Option (List (Except ParquetError B)) :=
  (openEntry reader entry).toOption

/-- The streams `read` may return, each item with the place of its entry. -/
def Reads (reader : ParquetReader B) (entries : List (ManifestEntry V))
    (out : List (Nat × Except ParquetError B)) : Prop :=
  Unordered.Run (openOk reader) (entries.zipIdx.map Prod.swap) [] out

/-- An entry that denotes a data file of the table. -/
def IsLive (entry : ManifestEntry V) : Prop :=
  entry.status ≠ .deleted ∧ entry.dataFile.content = .data

/-- A file that opens yields its batches up to a failure, which it yields last. -/
def Faithful (reader : ParquetReader B) (batches : ManifestEntry V → List B) : Prop :=
  ∀ entry items, openEntry reader entry = .ok items →
    items = (batches entry).map .ok ∨
    ∃ n error, items = ((batches entry).take n).map .ok ++ [.error error]

/-- What is yielded of a list of entries: of a data file all of its batches, each once, or an error,
and of the others nothing. -/
structure LosesNone (batches : ManifestEntry V → List B) (entries : List (ManifestEntry V))
    (out : List (Nat × Except ParquetError B)) : Prop where
  complete : ∀ (i : Nat) (entry : ManifestEntry V), entries[i]? = some entry → IsLive entry →
    Unordered.items i out = (batches entry).map .ok ∨
    ∃ error, .error error ∈ Unordered.items i out
  onlyData : ∀ (i : Nat) (entry : ManifestEntry V) (batch : B), entries[i]? = some entry →
    ¬ IsLive entry → .ok batch ∉ Unordered.items i out

/-- Every data file with a batch opens, and the files of the other entries yield none. -/
structure AllOpen (reader : ParquetReader B) (batches : ManifestEntry V → List B)
    (entries : List (ManifestEntry V)) : Prop where
  opens : ∀ entry ∈ entries, IsLive entry → batches entry ≠ [] →
    ∃ items, openEntry reader entry = .ok items
  others : ∀ entry ∈ entries, ¬ IsLive entry → ∀ items, openEntry reader entry = .ok items →
    ∀ batch, .ok batch ∉ items

/-- What is yielded of an entry. -/
theorem items_eq {reader : ParquetReader B} {entries : List (ManifestEntry V)}
    {out : List (Nat × Except ParquetError B)} (reads : Reads reader entries out) {i : Nat}
    {entry : ManifestEntry V} (here : entries[i]? = some entry) :
    Unordered.items i out = (openOk reader entry).getD [] := by
  refine reads.items_of_source ?_ ?_
  · have places : Unordered.keys (α := Except ParquetError B) (entries.zipIdx.map Prod.swap) [] =
        List.range entries.length := by
      simp [Unordered.keys, Function.comp_def, List.range_eq_range']
    rw [places]
    exact List.nodup_range
  · exact List.mem_map.mpr ⟨(entry, i), List.mk_mem_zipIdx_iff_getElem?.mpr here, rfl⟩

/-- In every order, nothing is lost and nothing else is yielded exactly if every data file with a
batch opens and no other file yields one. -/
theorem losesNone_iff {reader : ParquetReader B} {batches : ManifestEntry V → List B}
    (faithful : Faithful reader batches) {entries : List (ManifestEntry V)}
    {out : List (Nat × Except ParquetError B)} (reads : Reads reader entries out) :
    LosesNone batches entries out ↔ AllOpen reader batches entries := by
  constructor
  · intro loses
    constructor
    · intro entry member live some_
      obtain ⟨i, here⟩ := List.getElem?_of_mem member
      have complete := loses.complete i entry here live
      rw [items_eq reads here, openOk] at complete
      cases opened : openEntry reader entry with
      | ok items => exact ⟨items, rfl⟩
      | error error =>
        rw [opened] at complete
        rcases complete with all | ⟨error, yielded⟩
        · exact absurd (List.map_eq_nil_iff.mp all.symm) some_
        · exact absurd yielded List.not_mem_nil
    · intro entry member other items opened batch yielded
      obtain ⟨i, here⟩ := List.getElem?_of_mem member
      refine loses.onlyData i entry batch here other ?_
      rw [items_eq reads here, openOk, opened]
      exact yielded
  · intro all
    constructor
    · intro i entry here live
      have member := List.mem_of_getElem? here
      rw [items_eq reads here, openOk]
      cases opened : openEntry reader entry with
      | ok items =>
        rcases faithful entry items opened with whole | ⟨n, error, cut⟩
        · exact .inl whole
        · refine .inr ⟨error, ?_⟩
          rw [cut]
          exact List.mem_append_right _ List.mem_cons_self
      | error error =>
        refine .inl ?_
        have none_ : batches entry = [] := by
          by_contra some_
          obtain ⟨items, opens⟩ := all.opens entry member live some_
          rw [opened] at opens
          cases opens
        rw [none_]
        rfl
    · intro i entry batch here other
      have member := List.mem_of_getElem? here
      rw [items_eq reads here, openOk]
      cases opened : openEntry reader entry with
      | ok items => exact all.others entry member other items opened batch
      | error error => exact List.not_mem_nil

/-! ### One entry -/

/-- An entry of a Parquet file. -/
def parquetEntry (status : Status) (filePath : String) : ManifestEntry LongValue :=
  ⟨.v2, status, some 1, some 1, longFile filePath 1⟩

/-- A reader that finds one file, with one batch. -/
def oneFile : ParquetReader Nat where
  stripPrefix := id
  stream path _ := if path = "/a.parquet" then .ok [.ok 7] else .error ⟨"not found"⟩

/-- The batches of the entries of one file. -/
def oneBatch (_ : ManifestEntry LongValue) : List Nat := [7]

theorem oneFile_faithful : Faithful oneFile oneBatch := by
  intro entry items opened
  unfold openEntry oneFile at opened
  split at opened
  · simp only at opened
    split at opened
    · obtain rfl := Except.ok.inj opened
      exact .inl rfl
    · cases opened
  · cases opened

/-- The run that reads the file. -/
theorem reads_file (status : Status) :
    Reads oneFile [parquetEntry status "/a.parquet"] [(0, .ok 7)] := by
  have ended : Unordered.Run (@openOk LongValue _ oneFile) []
      [(0, ([] : List (Except ParquetError Nat)))] [] := .done (by decide)
  have yielded : Unordered.Run (@openOk LongValue _ oneFile) [] [(0, [.ok 7])] [(0, .ok 7)] :=
    @Unordered.Run.yielded _ _ _ _ 0 (Except.ok 7) [] [] [] [] [] ended
  exact .opened rfl yielded

theorem losesNone_iff_one : ∃ out, Reads oneFile [parquetEntry .added "/a.parquet"] out ∧
    (LosesNone oneBatch [parquetEntry .added "/a.parquet"] out ↔
      AllOpen oneFile oneBatch [parquetEntry .added "/a.parquet"]) := by
  exact ⟨_, reads_file .added, losesNone_iff oneFile_faithful (reads_file .added)⟩

/-- A file that is not there is left out without an error, and the batches of a deleted file are
yielded. -/
theorem failures_silent :
    (∃ out, Reads oneFile [parquetEntry .added "/b.parquet"] out ∧
      ¬ LosesNone oneBatch [parquetEntry .added "/b.parquet"] out) ∧
    ∃ out, Reads oneFile [parquetEntry .deleted "/a.parquet"] out ∧
      ¬ LosesNone oneBatch [parquetEntry .deleted "/a.parquet"] out := by
  constructor
  · refine ⟨[], .skipped rfl (.done nofun), fun loses => ?_⟩
    rcases loses.complete 0 _ rfl ⟨by decide, rfl⟩ with all | ⟨error, yielded⟩
    · cases all
    · exact absurd yielded List.not_mem_nil
  · refine ⟨[(0, .ok 7)], reads_file .deleted, fun loses => ?_⟩
    refine loses.onlyData 0 _ 7 rfl (fun live => live.1 rfl) ?_
    exact List.mem_cons_self

end IcebergRust.ArrowRead
