import IcebergRust.Catalog.Created
import IcebergRust.Catalog.Tabular
import IcebergRust.Spec.LongValue

/-!
# The REST catalog

`iceberg-rest-catalog/src/catalog.rs`: each call is one request to the server, and what the server
answers is combined with an object store.  The stores of the tables that were created or loaded are
kept in a cache, which is where a commit takes its store from.

* `perform` is a call with the answers it gets, and `run` a sequence of calls.
* `Reported` says that a call does not panic, and that a commit the server took is returned.
* `reported_iff` says in which runs all calls are.
-/

namespace IcebergRust.RestCatalog

open Fallible

/-! ### Answers -/

/-- `apis::Error`. -/
inductive ApiError where
  | reqwest (what : String)
  | serde (what : String)
  | io (what : String)
  | responseError (status : Nat) (content : String)
  | awsV4Signature (what : String)
  | oAuthToken (error : Error) (raised : ∀ what, error ≠ .panicked what)

/-- `From<apis::Error>`. -/
def ApiError.into : ApiError → Error
  | .reqwest what => .external what
  | .serde what => .json what
  | .io what => .io what
  | .responseError status content =>
    if status = 404 then .notFound content
    else if status = 409 then .commitConflict content
    else .invalidFormat ("Response status: " ++ toString status ++ ", Response content: " ++
      content)
  | .awsV4Signature what => .external what
  | .oAuthToken error _ => error

/-- `StorageCredential`. -/
structure StorageCredential where
  prefix_ : String
  config : HashMap String String

/-- `LoadTableResult`. -/
structure LoadTableResult where
  metadataLocation : Option String
  metadata : TableMetadata
  config : Option (HashMap String String)
  storageCredentials : Option (List StorageCredential)

/-- `CommitTableResponse`. -/
structure CommitTableResponse where
  metadataLocation : String
  metadata : TableMetadata

/-- `LoadViewResult`. -/
structure LoadViewResult where
  metadataLocation : String
  metadata : TabularMetadata

/-- The object stores of some kind: how one is built from a location and its options, and the
default builder if there is one.  Building one returns. -/
structure Stores (S : Type) where
  fromConfig : String → HashMap String String → Except Error S
  default : Option (String → Except Error S)
  fromConfig_returns : ∀ location config, ¬ Panics (fromConfig location config)
  default_returns : ∀ build ∈ default, ∀ location, ¬ Panics (build location)

variable {S : Type}

/-- What a call returns. -/
inductive Tabular (S : Type) where
  | table (identifier : Identifier) (objectStore : S) (metadata : TableMetadata)
  | view (identifier : Identifier) (metadata : View.GeneralViewMetadata (Option Unit))
  | materializedView (identifier : Identifier) (metadata : View.GeneralViewMetadata Identifier)

/-! ### Object stores -/

/-- The options of a response: those of the first credential, and those of the configuration over
them. -/
def optionsOf (response : LoadTableResult) : Except Error (Option (HashMap String String)) :=
  match response.storageCredentials, response.config with
  | some (credential :: _), some config => .ok (some (credential.config.extend config.iter))
  | some (credential :: _), none => .ok (some credential.config)
  | some [], none => .error (.panicked "index out of bounds")
  | _, some config => .ok (some config)
  | none, none => .ok none

/-- `object_store_from_response`. -/
def objectStoreFromResponse (stores : Stores S) (response : LoadTableResult) :
    Except Error (Option S) := do
  match ← optionsOf response with
  | none => .ok none
  | some config => (stores.fromConfig response.metadata.location config).map some

/-- The store of the default builder. -/
def defaultStore (stores : Stores S) (response : LoadTableResult) : Except Error S :=
  match stores.default with
  | none => .error (.notFound "Default object store")
  | some build => build response.metadata.location

/-- `get_object_store`. -/
def getObjectStore (stores : Stores S) (ignoreStorageCredentials : Bool)
    (response : LoadTableResult) : Except Error S :=
  if ignoreStorageCredentials then defaultStore stores response
  else do
    match ← objectStoreFromResponse stores response with
    | some store => .ok store
    | none => defaultStore stores response

/-! ### Calls -/

/-- The calls, each with what the server answers. -/
inductive Call where
  | createTable (identifier : Identifier) (create : CreateTable)
      (answer : Except ApiError LoadTableResult)
  | registerTable (identifier : Identifier) (metadataLocation : String)
      (answer : Except ApiError LoadTableResult)
  | loadTabular (identifier : Identifier) (table : Except ApiError LoadTableResult)
      (view : Except ApiError LoadViewResult)
  | updateTable (identifier : Identifier) (commit : TableTransaction.CommitTable)
      (answer : Except ApiError CommitTableResponse)

variable (stores : Stores S) (ignoreStorageCredentials : Bool)

abbrev Cache (S : Type) := HashMap Identifier S

/-- A table that is returned and whose store is kept. -/
def keep (cache : Cache S) (identifier : Identifier) (response : LoadTableResult) :
    Except Error (Tabular S) × Cache S :=
  match getObjectStore stores ignoreStorageCredentials response with
  | .error error => (.error error, cache)
  | .ok objectStore =>
    (.ok (.table identifier objectStore response.metadata), cache.insert identifier objectStore)

/-- `create_table`. -/
def createTable (cache : Cache S) (identifier : Identifier)
    (answer : Except ApiError LoadTableResult) : Except Error (Tabular S) × Cache S :=
  match answer with
  | .error error => (.error error.into, cache)
  | .ok response => keep stores ignoreStorageCredentials cache identifier response

/-- `register_table`. -/
def registerTable (cache : Cache S) (identifier : Identifier)
    (answer : Except ApiError LoadTableResult) : Except Error (Tabular S) × Cache S :=
  match answer with
  | .error error => (.error error.into, cache)
  | .ok response =>
    ((getObjectStore stores ignoreStorageCredentials response).map fun objectStore =>
      .table identifier objectStore response.metadata, cache)

/-- The second request of `load_tabular`. -/
def loadView (identifier : Identifier) : Except ApiError LoadViewResult → Except Error (Tabular S)
  | .ok ⟨_, .view metadata⟩ => .ok (.view identifier metadata)
  | .ok ⟨_, .materializedView metadata⟩ => .ok (.materializedView identifier metadata)
  | .ok ⟨_, .table _⟩ => .error (.invalidFormat "Entity returned from load_view cannot be a table.")
  | .error (.responseError 404 _) => .error .catalogNotFound
  | .error error => .error error.into

/-- `load_tabular`. -/
def loadTabular (cache : Cache S) (identifier : Identifier)
    (table : Except ApiError LoadTableResult) (view : Except ApiError LoadViewResult) :
    Except Error (Tabular S) × Cache S :=
  match table with
  | .ok response => keep stores ignoreStorageCredentials cache identifier response
  | .error (.responseError 404 _) => (loadView identifier view, cache)
  | .error error => (.error error.into, cache)

/-- `update_table`: the store is looked up after the server has answered. -/
def updateTable (cache : Cache S) (identifier : Identifier)
    (answer : Except ApiError CommitTableResponse) : Except Error (Tabular S) × Cache S :=
  match answer with
  | .error error => (.error error.into, cache)
  | .ok response =>
    match cache.lookup identifier with
    | none => (.error (.notFound ("Object store for table " ++ identifier.display)), cache)
    | some objectStore => (.ok (.table identifier objectStore response.metadata), cache)

/-- A call. -/
def perform (cache : Cache S) : Call → Except Error (Tabular S) × Cache S
  | .createTable identifier _ answer =>
    createTable stores ignoreStorageCredentials cache identifier answer
  | .registerTable identifier _ answer =>
    registerTable stores ignoreStorageCredentials cache identifier answer
  | .loadTabular identifier table view =>
    loadTabular stores ignoreStorageCredentials cache identifier table view
  | .updateTable identifier _ answer => updateTable cache identifier answer

/-- The cache after some calls of a new catalog. -/
def run (calls : List Call) : Cache S :=
  calls.foldl (fun cache call => (perform stores ignoreStorageCredentials cache call).2) ∅

/-! ### Faithful reports -/

/-- A call does not panic, and a commit the server took is returned with its metadata. -/
structure Reported (call : Call) (result : Except Error (Tabular S)) : Prop where
  returns : ¬ Panics result
  commit : ∀ identifier commit response, call = .updateTable identifier commit (.ok response) →
    ∃ objectStore, result = .ok (.table identifier objectStore response.metadata)

/-- The list of credentials is empty, and there is no configuration. -/
def NoOptions (response : LoadTableResult) : Prop :=
  response.storageCredentials = some [] ∧ response.config = none

/-- The answer a store is built from. -/
def Call.response : Call → Option LoadTableResult
  | .createTable _ _ (.ok response) => some response
  | .registerTable _ _ (.ok response) => some response
  | .loadTabular _ (.ok response) _ => some response
  | _ => none

/-- The table whose store a call keeps. -/
def Call.keeps : Call → Option Identifier
  | .createTable identifier _ _ => some identifier
  | .loadTabular identifier _ _ => some identifier
  | _ => none

/-- A table of the name was returned by an earlier call that created or loaded it. -/
def Returned (calls : List Call) (identifier : Identifier) : Prop :=
  ∃ before call after, calls = before ++ call :: after ∧ call.keeps = some identifier ∧
    ∃ objectStore metadata, (perform stores ignoreStorageCredentials
      (run stores ignoreStorageCredentials before) call).1 =
        .ok (.table identifier objectStore metadata)

/-- The condition on a call and the calls before it: there are options where they are used, and a
commit the server takes is one to a table that was created or loaded. -/
structure Allowed (before : List Call) (call : Call) : Prop where
  options : ignoreStorageCredentials = false → ∀ response ∈ call.response, ¬ NoOptions response
  commit : ∀ identifier commit response, call = .updateTable identifier commit (.ok response) →
    Returned stores ignoreStorageCredentials before identifier

/-! ### Panics -/

theorem not_panics_ok {α : Type} (a : α) : ¬ Panics (.ok a : Except Error α) := by
  rintro ⟨what, same⟩
  cases same

theorem not_panics_error {α : Type} {error : Error} (raised : ∀ what, error ≠ .panicked what) :
    ¬ Panics (.error error : Except Error α) := by
  rintro ⟨what, same⟩
  exact raised what (Except.error.inj same)

theorem panics_map {α β : Type} (f : α → β) (run : Except Error α) :
    Panics (run.map f) ↔ Panics run := by
  cases run <;> simp [Panics, Except.map]

theorem ApiError.into_raised (error : ApiError) : ∀ what, error.into ≠ .panicked what := by
  intro what
  cases error with
  | responseError status content =>
    rw [into]
    split
    · simp
    · split <;> simp
  | oAuthToken error raised => exact raised what
  | _ => simp [into]

variable {response : LoadTableResult} {identifier : Identifier}

theorem panics_optionsOf : Panics (optionsOf response) ↔ NoOptions response := by
  unfold optionsOf
  split
  · next credentials config => simp [Panics, NoOptions, credentials]
  · next credentials config => simp [Panics, NoOptions, credentials]
  · next credentials config => simp [Panics, NoOptions, credentials, config]
  · next given _ => simp [Panics, NoOptions, given]
  · next credentials config => simp [Panics, NoOptions, credentials]

variable {stores} {ignoreStorageCredentials}

theorem panics_defaultStore : ¬ Panics (defaultStore stores response) := by
  unfold defaultStore
  split
  · exact not_panics_error (by simp)
  · next build given => exact stores.default_returns build given _

theorem panics_getObjectStore :
    Panics (getObjectStore stores ignoreStorageCredentials response) ↔
      ignoreStorageCredentials = false ∧ NoOptions response := by
  unfold getObjectStore
  split
  · next ignored => simp [ignored, panics_defaultStore]
  · next used =>
    rw [Bool.not_eq_true] at used
    rw [← panics_optionsOf, and_iff_right used, objectStoreFromResponse]
    cases options : optionsOf response with
    | error error => simp [Panics]
    | ok config =>
      refine iff_of_false ?_ (not_panics_ok config)
      cases config with
      | none => exact panics_defaultStore
      | some config =>
        have returns := stores.fromConfig_returns response.metadata.location config
        cases built : stores.fromConfig response.metadata.location config with
        | error error =>
          rw [built] at returns
          rw [ok_bind]
          dsimp only
          rw [built]
          exact not_panics_error fun what same => returns ⟨what, congrArg _ same⟩
        | ok store =>
          rw [ok_bind]
          dsimp only
          rw [built]
          exact not_panics_ok store

variable {cache : Cache S}

theorem panics_keep :
    Panics (keep stores ignoreStorageCredentials cache identifier response).1 ↔
      ignoreStorageCredentials = false ∧ NoOptions response := by
  rw [← @panics_getObjectStore _ stores ignoreStorageCredentials response, keep]
  cases getObjectStore stores ignoreStorageCredentials response with
  | error error => simp [Panics]
  | ok store => exact iff_of_false (not_panics_ok _) (not_panics_ok _)

theorem panics_loadView {view : Except ApiError LoadViewResult} :
    ¬ Panics (loadView identifier view : Except Error (Tabular S)) := by
  unfold loadView
  split
  · exact not_panics_ok _
  · exact not_panics_ok _
  · exact not_panics_error (by simp)
  · exact not_panics_error (by simp)
  · exact not_panics_error (ApiError.into_raised _)

/-- A call panics exactly where it needs options and there are none. -/
theorem panics_perform {call : Call} :
    Panics (perform stores ignoreStorageCredentials cache call).1 ↔
      ignoreStorageCredentials = false ∧ ∃ response ∈ call.response, NoOptions response := by
  have refused : ∀ error : ApiError, ¬ Panics (.error error.into : Except Error (Tabular S)) :=
    fun error => not_panics_error error.into_raised
  cases call with
  | createTable identifier create answer =>
    cases answer with
    | error error => simpa [perform, createTable, Call.response] using refused error
    | ok response => simpa [perform, createTable, Call.response] using panics_keep
  | registerTable identifier metadataLocation answer =>
    cases answer with
    | error error => simpa [perform, registerTable, Call.response] using refused error
    | ok response =>
      simp only [perform, registerTable, Call.response, panics_map, panics_getObjectStore,
        Option.mem_def, Option.some.injEq, exists_eq_left']
  | loadTabular identifier table view =>
    cases table with
    | error error =>
      refine iff_of_false ?_ (by simp [Call.response])
      unfold perform loadTabular
      dsimp only
      split
      · exact absurd ‹_› (by simp)
      · exact panics_loadView
      · exact refused _
    | ok response => simpa [perform, loadTabular, Call.response] using panics_keep
  | updateTable identifier commit answer =>
    refine iff_of_false ?_ (by simp [Call.response])
    unfold perform updateTable
    dsimp only
    split
    · exact refused _
    · split
      · exact not_panics_error (by simp)
      · exact not_panics_ok _

/-! ### The cache -/

theorem mem_keep {other : Identifier} :
    other ∈ (keep stores ignoreStorageCredentials cache identifier response).2 ↔
      other ∈ cache ∨ other = identifier ∧ ∃ objectStore metadata,
        (keep stores ignoreStorageCredentials cache identifier response).1 =
          .ok (.table identifier objectStore metadata) := by
  rw [keep]
  cases getObjectStore stores ignoreStorageCredentials response with
  | error error => simp
  | ok store => simp [AList.mem_insert, or_comm]

theorem loadView_ne_table {other : Identifier} {view : Except ApiError LoadViewResult}
    {objectStore : S} {metadata : TableMetadata} :
    loadView identifier view ≠ .ok (.table other objectStore metadata) := by
  unfold loadView
  split <;> simp

/-- A call leaves the cache or adds the table it returns. -/
theorem mem_perform {call : Call} :
    identifier ∈ (perform stores ignoreStorageCredentials cache call).2 ↔
      identifier ∈ cache ∨ call.keeps = some identifier ∧ ∃ objectStore metadata,
        (perform stores ignoreStorageCredentials cache call).1 =
          .ok (.table identifier objectStore metadata) := by
  cases call with
  | createTable other create answer =>
    cases answer with
    | error error => simp [perform, createTable]
    | ok response =>
      refine mem_keep.trans (or_congr_right ?_)
      constructor
      · rintro ⟨rfl, returned⟩
        exact ⟨rfl, returned⟩
      · rintro ⟨same, returned⟩
        obtain rfl := Option.some.inj same
        exact ⟨rfl, returned⟩
  | registerTable other metadataLocation answer =>
    cases answer <;> simp [perform, registerTable, Call.keeps]
  | loadTabular other table view =>
    cases table with
    | error error =>
      unfold perform loadTabular
      dsimp only
      split
      · exact absurd ‹_› (by simp)
      · simp [loadView_ne_table]
      · simp
    | ok response =>
      refine mem_keep.trans (or_congr_right ?_)
      constructor
      · rintro ⟨rfl, returned⟩
        exact ⟨rfl, returned⟩
      · rintro ⟨same, returned⟩
        obtain rfl := Option.some.inj same
        exact ⟨rfl, returned⟩
  | updateTable other commit answer =>
    unfold perform updateTable
    dsimp only
    split
    · simp
    · split
      · simp
      · simp [Call.keeps]

theorem run_snoc (calls : List Call) (call : Call) :
    run stores ignoreStorageCredentials (calls ++ [call]) =
      (perform stores ignoreStorageCredentials (run stores ignoreStorageCredentials calls)
        call).2 := by
  simp [run]

/-- The cache holds the tables that were created or loaded. -/
theorem mem_run {calls : List Call} :
    identifier ∈ run stores ignoreStorageCredentials calls ↔
      Returned stores ignoreStorageCredentials calls identifier := by
  induction calls using List.reverseRecOn with
  | nil => simp [run, Returned]
  | append_singleton calls call ih =>
    rw [run_snoc, mem_perform, ih]
    constructor
    · rintro (⟨before, earlier, after, split, kept⟩ | ⟨keeps, returned⟩)
      · exact ⟨before, earlier, after ++ [call], by rw [split]; simp, kept⟩
      · exact ⟨calls, call, [], rfl, keeps, returned⟩
    · rintro ⟨before, earlier, after, split, keeps, returned⟩
      rcases List.eq_nil_or_concat after with rfl | ⟨after, last, rfl⟩
      · obtain ⟨rfl, same⟩ := List.append_inj' split rfl
        obtain rfl := List.singleton_inj.mp same
        exact .inr ⟨keeps, returned⟩
      · rw [List.concat_eq_append, ← List.cons_append, ← List.append_assoc] at split
        exact .inl ⟨before, earlier, after, (List.append_inj' split rfl).1, keeps, returned⟩

/-- What is reported of a call is right exactly under the condition on it. -/
theorem reported_perform_iff {before : List Call} {call : Call} :
    Reported call (perform stores ignoreStorageCredentials
        (run stores ignoreStorageCredentials before) call).1 ↔
      Allowed stores ignoreStorageCredentials before call := by
  constructor
  · rintro ⟨returns, reported⟩
    refine ⟨fun used response given none_ => ?_, fun identifier commit response same => ?_⟩
    · exact returns (panics_perform.mpr ⟨used, response, given, none_⟩)
    · obtain ⟨objectStore, here⟩ := reported identifier commit response same
      subst same
      rw [← mem_run, ← AList.lookup_isSome]
      rw [perform, updateTable] at here
      cases found : (run stores ignoreStorageCredentials before).lookup identifier with
      | none => simp [found] at here
      | some store => rfl
  · rintro ⟨options, commit⟩
    refine ⟨fun panics => ?_, ?_⟩
    · obtain ⟨used, response, given, none_⟩ := panics_perform.mp panics
      exact options used response given none_
    · rintro identifier request response rfl
      have kept := mem_run.mpr (commit identifier request response rfl)
      obtain ⟨store, found⟩ := Option.isSome_iff_exists.mp (AList.lookup_isSome.mpr kept)
      refine ⟨store, ?_⟩
      rw [perform, updateTable, found]

variable (stores ignoreStorageCredentials) in
/-- Every call of a run is reported exactly if every call of it meets the condition. -/
theorem reported_iff (calls : List Call) :
    (∀ before call after, calls = before ++ call :: after →
      Reported call (perform stores ignoreStorageCredentials
        (run stores ignoreStorageCredentials before) call).1) ↔
    ∀ before call after, calls = before ++ call :: after →
      Allowed stores ignoreStorageCredentials before call := by
  simp only [reported_perform_iff]

/-- One store, which any options give. -/
def oneStore : Stores Unit where
  fromConfig _ _ := .ok ()
  default := none
  fromConfig_returns _ _ := not_panics_ok ()
  default_returns _ given := absurd given (by simp)

/-- The answer for a table, with some options. -/
def loaded (config : Option (HashMap String String))
    (storageCredentials : Option (List StorageCredential)) : LoadTableResult :=
  ⟨none, longTable .v2, config, storageCredentials⟩

/-- A commit to a table that was registered is taken by the server and fails, and the answer to the
creation of a table panics. -/
theorem commit_unreported :
    (perform oneStore false (run oneStore false [])
        (.registerTable ⟨⟨["a"]⟩, "t"⟩ "s3://a/t/metadata/v1.metadata.json"
          (.ok (loaded (some ∅) none)))).1 =
      .ok (.table ⟨⟨["a"]⟩, "t"⟩ () (longTable .v2)) ∧
    (perform oneStore false (run oneStore false [.registerTable ⟨⟨["a"]⟩, "t"⟩
        "s3://a/t/metadata/v1.metadata.json" (.ok (loaded (some ∅) none))])
        (.updateTable ⟨⟨["a"]⟩, "t"⟩ ⟨[], []⟩
          (.ok ⟨"s3://a/t/metadata/v2.metadata.json", longTable .v2⟩))).1 =
      .error (.notFound "Object store for table a.t") ∧
    Panics (perform oneStore false (run oneStore false [])
      (.createTable ⟨⟨["a"]⟩, "t"⟩ (IcebergRust.createTable 0 "2")
        (.ok (loaded none (some []))))).1 := by
  exact ⟨rfl, rfl, _, rfl⟩

end IcebergRust.RestCatalog
