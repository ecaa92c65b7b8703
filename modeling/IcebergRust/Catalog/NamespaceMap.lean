import IcebergRust.Catalog.SqlNamespaces
import IcebergRust.Lib.Sequential

/-!
# The map that namespaces are

What the two tables of the SQL catalog stand for: a map from namespaces to properties, on which the
operations are performed one after the other.

* `Database.view` reads the tables as such a map, by the text a namespace is written as; each
  transaction is an operation on it, except that a missing namespace can be loaded.
* As long as different namespaces are written differently, that is a map from namespaces
  (`namespaces_sequential`).
-/

namespace IcebergRust.SqlNamespaces

/-! ### The map -/

/-- Properties by key. -/
abbrev Content := String → Option String

/-- Namespaces by some key of theirs. -/
abbrev NamespaceMap (κ : Type) := κ → Option Content

/-- An update of properties. -/
def updated (content : Content) (updates : HashMap String String) (removals : List String) :
    Content :=
  fun key => (updates.lookup key).or (if key ∈ removals then none else content key)

/-- One operation on the map. Dropping what is not there is no error. -/
def perform {κ : Type} [DecidableEq κ] (key : Namespace → κ) (request : Request)
    (map : NamespaceMap κ) : Answer Content × NamespaceMap κ :=
  match request with
  | .createNamespace ns properties =>
    match map (key ns) with
    | some _ => (.failed (.commitConflict ns.display), map)
    | none => (.properties properties.lookup,
      Function.update map (key ns) (some properties.lookup))
  | .dropNamespace ns => (.done, Function.update map (key ns) none)
  | .loadNamespace ns =>
    match map (key ns) with
    | some content => (.properties content, map)
    | none => (.failed .catalogNotFound, map)
  | .updateNamespace ns updates removals =>
    match map (key ns) with
    | some content => (.done, Function.update map (key ns) (some (updated content updates removals)))
    | none => (.failed .catalogNotFound, map)
  | .namespaceExists ns => (.present (map (key ns)).isSome, map)

section Perform

variable {κ : Type} [DecidableEq κ] (key : Namespace → κ)

/-- An operation depends on its own namespace only, and leaves the others alone. -/
theorem perform_of_ne {request : Request} {map : NamespaceMap κ} {other : κ}
    (differs : other ≠ key request.ns) : (perform key request map).2 other = map other := by
  cases request with
  | createNamespace ns properties =>
    simp only [perform]
    split
    · rfl
    · exact Function.update_of_ne differs _ _
  | dropNamespace ns => exact Function.update_of_ne differs _ _
  | loadNamespace ns =>
    simp only [perform]
    split <;> rfl
  | updateNamespace ns updates removals =>
    simp only [perform]
    split
    · exact Function.update_of_ne differs _ _
    · rfl
  | namespaceExists ns => rfl

theorem perform_congr {κ' : Type} [DecidableEq κ'] {key' : Namespace → κ'} {request : Request}
    {map : NamespaceMap κ} {map' : NamespaceMap κ'}
    (same : map' (key' request.ns) = map (key request.ns)) :
    (perform key' request map').1 = (perform key request map).1 ∧
      (perform key' request map').2 (key' request.ns) =
        (perform key request map).2 (key request.ns) := by
  cases request with
  | createNamespace ns properties =>
    have same : map' (key' ns) = map (key ns) := same
    simp only [perform, same]
    cases found : map (key ns) with
    | none => simp [Request.ns]
    | some content => simp [Request.ns, same, found]
  | dropNamespace ns => simp [perform, Request.ns]
  | loadNamespace ns =>
    have same : map' (key' ns) = map (key ns) := same
    simp only [perform, same]
    cases found : map (key ns) <;> simp [Request.ns, same, found]
  | updateNamespace ns updates removals =>
    have same : map' (key' ns) = map (key ns) := same
    simp only [perform, same]
    cases found : map (key ns) with
    | none => simp [Request.ns, same, found]
    | some content => simp [Request.ns]
  | namespaceExists ns =>
    have same : map' (key' ns) = map (key ns) := same
    simp [perform, Request.ns, same]

/-- The namespaces that are operated on are told apart by their keys. -/
def Distinct (requests : List Request) : Prop :=
  ∀ one ∈ requests, ∀ other ∈ requests, key one.ns = key other.ns → one.ns = other.ns

variable {key}

/-- A map by key answers as a map by namespace, as long as the keys tell the namespaces apart. -/
theorem sequential_of_distinct {initial last : NamespaceMap κ}
    {history : List (Request × Answer Content)}
    (sequential : SequentialHistory (perform key) initial history last)
    (distinct : Distinct key (history.map (·.1))) :
    ∃ map, SequentialHistory (perform id) (fun ns => initial (key ns)) history map := by
  -- The two maps agree on what has been operated on, and elsewhere where no key is shared.
  let agrees (past : List Request) (before : NamespaceMap κ) (before' : NamespaceMap Namespace) :=
    ∀ ns : Namespace, (∀ request ∈ past, key request.ns = key ns → request.ns = ns) →
      before' ns = before (key ns)
  have step : ∀ past operation before before', Distinct key (operation :: past) →
      agrees past before before' →
        (perform id operation before').1 = (perform key operation before).1 ∧
          agrees (operation :: past) (perform key operation before).2
            (perform id operation before').2 := by
    intro past operation before before' distinct agree
    have own : before' (id operation.ns) = before (key operation.ns) :=
      agree _ fun request member shared =>
        distinct request (List.mem_cons_of_mem _ member) operation List.mem_cons_self shared
    obtain ⟨answer, there⟩ := perform_congr key own
    refine ⟨answer, fun ns apart => ?_⟩
    by_cases same : ns = operation.ns
    · rw [same]
      exact there
    · rw [perform_of_ne id same, perform_of_ne key fun shared =>
        same (apart operation List.mem_cons_self shared.symm).symm]
      exact agree ns fun request member => apart request (List.mem_cons_of_mem _ member)
  have earlier : ∀ operation past, Distinct key (operation :: past) → Distinct key past :=
    fun operation past distinct one member other there =>
      distinct one (List.mem_cons_of_mem _ member) other (List.mem_cons_of_mem _ there)
  obtain ⟨map, whole, -⟩ := sequential.simulate (perform id) (Distinct key) earlier agrees
    (fun ns _ => (rfl : initial (key ns) = initial (key ns))) step distinct
  exact ⟨map, whole⟩

end Perform

/-! ### The tables as a map -/

/-- What a flag and rows stand for: a namespace without either is missing, and a marker is no
property. -/
def entry (flag : Option String) (rows : HashMap String String) : Option Content :=
  if flag.isSome || !rows.keys.isEmpty then
    some fun key => if key = "exists" ∧ flag ≠ some "0" then none else rows.lookup key
  else none

namespace Database

variable (database : Database) (name : String)

def view : NamespaceMap String :=
  fun name => entry (database.namespaces name) (database.properties name)

theorem isSome_view : (database.view name).isSome = database.namespaceExists name := by
  unfold view entry namespaceExists
  split
  · rename_i there
    exact there.symm
  · rename_i missing
    exact (Bool.not_eq_true _ ▸ missing).symm

theorem lookup_loadNamespace (key : String) : (database.loadNamespace name).lookup key =
    if key = "exists" ∧ database.namespaces name ≠ some "0" then none
    else (database.properties name).lookup key := by
  unfold loadNamespace
  by_cases plain : database.namespaces name = some "0"
  · simp [plain]
  · by_cases marker : key = "exists"
    · subst marker
      simp [plain, AList.lookup_erase]
    · simp [plain, marker, AList.lookup_erase_ne marker]

/-- What is loaded is what the namespace stands for, if it is there. -/
theorem view_eq_loaded (found : database.namespaceExists name = true) :
    database.view name = some (database.loadNamespace name).lookup := by
  unfold view entry
  rw [namespaceExists] at found
  rw [if_pos found]
  refine congrArg some (funext fun key => ?_)
  rw [lookup_loadNamespace]

theorem view_update (flag : Option String) (rows : HashMap String String) :
    view ⟨Function.update database.namespaces name flag,
      Function.update database.properties name rows⟩ =
        Function.update database.view name (entry flag rows) := by
  funext other
  by_cases same : other = name
  · subst same
    simp [view]
  · simp [view, Function.update_of_ne same]

/-! ### Transactions -/

theorem lookup_rewrite (rows : HashMap String String) (updates : List (String × String)) :
    updates.foldl (fun rows entry => (rows.erase entry.1).insert entry.1 entry.2) rows =
      rows.extend updates := by
  induction updates generalizing rows with
  | nil => rfl
  | cons update updates ih =>
    rw [List.foldl_cons, ih]
    have same : (rows.erase update.1).insert update.1 update.2 = rows.insert update.1 update.2 := by
      refine AList.ext ?_
      have gone : update.1 ∉ rows.erase update.1 := fun stays => (AList.mem_erase.mp stays).1 rfl
      rw [AList.entries_insert_of_notMem gone, AList.entries_insert]
      rfl
    rw [same]
    rfl

theorem lookup_rewritten (updates : HashMap String String) (removals : List String)
    (key : String) : (database.rewritten name updates removals).lookup key =
      (updates.lookup key).or
        (if key ∈ removals then none else (database.properties name).lookup key) := by
  rw [rewritten, lookup_rewrite, HashMap.lookup_extend_iter, HashMap.lookup_erase_all]

/-- An update of a namespace that has a row, or is given one. -/
theorem entry_rewritten (flag : String) (updates : HashMap String String) (removals : List String)
    (shown : flag = "0" → database.namespaces name = some "0" ∨
      (database.properties name).lookup "exists" = none)
    (hidden : flag ≠ "0" → database.namespaces name ≠ some "0") :
    entry (if "exists" ∈ removals ∨ "exists" ∈ updates.keys then some "0" else some flag)
        (database.rewritten name updates removals) =
      some (updated (database.loadNamespace name).lookup updates removals) := by
  have there : (if "exists" ∈ removals ∨ "exists" ∈ updates.keys then some "0"
      else some flag).isSome = true := by
    split <;> rfl
  rw [entry, there, Bool.true_or, if_pos rfl]
  refine congrArg some (funext fun key => ?_)
  rw [updated, lookup_loadNamespace, lookup_rewritten]
  by_cases marked : key = "exists"
  · subst marked
    have named : "exists" ∈ updates.keys ↔ (updates.lookup "exists").isSome :=
      AList.lookup_isSome.symm
    by_cases touched : "exists" ∈ removals ∨ "exists" ∈ updates.keys
    · rw [if_pos touched, if_neg (by simp)]
      rcases touched with removed | written
      · simp [removed]
      · obtain ⟨value, found⟩ := Option.isSome_iff_exists.mp (named.mp written)
        simp [found]
    · obtain ⟨kept, unwritten⟩ := not_or.mp touched
      have absent : updates.lookup "exists" = none := by
        simpa using mt named.mpr unwritten
      rw [if_neg touched, absent, if_neg kept, Option.none_or, Option.none_or]
      by_cases plain : flag = "0"
      · rcases shown plain with current | nothing
        · simp [plain, current, kept]
        · simp [plain, nothing]
      · simp [plain, hidden plain]
  · simp [marked]

/-- A transaction is the operation on the map. -/
def Refines (request : Request) (performed : Answer (HashMap String String) × Database) : Prop :=
  perform Namespace.display request database.view =
    (performed.1.map (·.lookup), performed.2.view)

/-- A namespace without a row has no properties either. -/
def Settled : Prop := database.namespaces name = none → (database.properties name).keys = []

variable {database}

theorem view_eq_none (missing : database.namespaceExists name = false) :
    database.view name = none := by
  rw [← Option.not_isSome_iff_eq_none, isSome_view, missing]
  exact Bool.false_ne_true

theorem exists_view (there : database.namespaceExists name = true) :
    ∃ content, database.view name = some content :=
  Option.isSome_iff_exists.mp (by rw [isSome_view, there])

/-- A creation that is refused. -/
theorem refines_conflict (ns : Namespace) (properties : HashMap String String)
    (there : database.namespaceExists ns.display = true) :
    database.Refines (.createNamespace ns properties)
      (.failed (.commitConflict ns.display), database) := by
  obtain ⟨content, found⟩ := exists_view _ there
  simp [Refines, perform, found, Answer.map]

theorem refines_insertNamespace (ns : Namespace) (properties : HashMap String String)
    (settled : database.Settled ns.display) :
    database.Refines (.createNamespace ns properties)
      (database.insertNamespace ns.display properties) := by
  unfold insertNamespace
  split
  · rename_i there
    exact refines_conflict ns properties (by rw [namespaceExists, there, Bool.true_or])
  · rename_i absent
    have nothing : database.namespaces ns.display = none := by simpa using absent
    have empty := settled nothing
    have missing : database.view ns.display = none :=
      view_eq_none _ (by simp [namespaceExists, nothing, empty])
    rw [if_neg (by simp [empty])]
    have content : (fun key => if key = "exists" ∧ some "0" ≠ some "0" then none
        else ((database.properties ns.display).extend properties.iter).lookup key) =
          properties.lookup := by
      funext key
      have unset : (database.properties ns.display).lookup key = none := by
        refine AList.lookup_eq_none.mpr fun member => ?_
        rw [AList.mem_keys, empty] at member
        cases member
      simp [HashMap.lookup_extend_iter, unset]
    rw [Refines, view_update, entry]
    simp only [perform, missing, Option.isSome_some, Bool.true_or, if_true, content, Answer.map]

theorem refines_dropNamespace (ns : Namespace) :
    database.Refines (.dropNamespace ns) (database.dropNamespace ns.display) := by
  unfold dropNamespace lockNamespaceForMutation Refines
  split
  · rename_i missing
    split at missing
    · cases missing
    · rename_i absent
      split at missing
      · rename_i empty
        have nothing : database.view ns.display = none := by
          refine view_eq_none _ ?_
          have noRow : (database.namespaces ns.display).isSome = false := by simpa using absent
          rw [namespaceExists, noRow, empty]
          rfl
        simp only [perform, Answer.map]
        rw [← nothing, Function.update_eq_self]
      · cases missing
  · simp only [perform, Answer.map]
    rw [view_update]
    rfl

theorem refines_loadNamespace (ns : Namespace)
    (found : database.namespaceExists ns.display = true) :
    database.Refines (.loadNamespace ns)
      (.properties (database.loadNamespace ns.display), database) := by
  simp [Refines, perform, view_eq_loaded _ _ found, Answer.map]

theorem refines_updateNamespace (ns : Namespace) (updates : HashMap String String)
    (removals : List String) :
    database.Refines (.updateNamespace ns updates removals)
      (database.updateNamespace ns.display updates removals) := by
  -- A namespace that is there is given a row, with the flag it had or deserves.
  have write : ∀ flag : String, database.namespaceExists ns.display = true →
      (flag = "0" → database.namespaces ns.display = some "0" ∨
        (database.properties ns.display).lookup "exists" = none) →
      (flag ≠ "0" → database.namespaces ns.display ≠ some "0") →
      database.Refines (.updateNamespace ns updates removals) (.done,
        { namespaces := Function.update database.namespaces ns.display
            (if "exists" ∈ removals ∨ "exists" ∈ updates.keys then some "0" else some flag)
          properties := Function.update database.properties ns.display
            (database.rewritten ns.display updates removals) }) := by
    intro flag found shown hidden
    rw [Refines, view_update, entry_rewritten _ _ _ _ _ shown hidden]
    simp only [perform, view_eq_loaded _ _ found, Answer.map]
  unfold updateNamespace lockNamespaceForMutation
  cases row : database.namespaces ns.display with
  | some flag =>
    refine write flag (by simp [namespaceExists, row]) ?_ ?_
    · rintro rfl
      exact .inl row
    · intro differs
      rw [row]
      exact fun same => differs (Option.some.inj same)
  | none =>
    by_cases empty : (database.properties ns.display).keys.isEmpty = true
    · have missing : database.view ns.display = none :=
        view_eq_none _ (by simp [namespaceExists, row, empty])
      simp [empty, Refines, perform, missing, Answer.map]
    · have found : database.namespaceExists ns.display = true := by
        simp [namespaceExists, row, empty]
      have marker : "exists" ∈ (database.properties ns.display).keys ↔
          (database.properties ns.display).lookup "exists" ≠ none := by
        rw [← Option.isSome_iff_ne_none, AList.lookup_isSome]
        rfl
      simp only [Option.isSome_none, empty, promote]
      by_cases marked : "exists" ∈ (database.properties ns.display).keys
      · rw [if_pos marked]
        refine write "1" found (by simp) fun _ => ?_
        rw [row]
        simp
      · rw [if_neg marked]
        refine write "0" found (fun _ => .inr ?_) (by simp)
        exact not_not.mp (mt marker.mpr marked)

theorem refines_namespaceExists (ns : Namespace) :
    database.Refines (.namespaceExists ns)
      (.present (database.namespaceExists ns.display), database) := by
  simp [Refines, perform, isSome_view, Answer.map]

variable {other : String}

/-- No transaction leaves properties without a row. -/
theorem Settled.update (settled : database.Settled other) {flag : Option String}
    {rows : HashMap String String} (kept : flag = none → rows.keys = []) :
    Settled ⟨Function.update database.namespaces name flag,
      Function.update database.properties name rows⟩ other := by
  intro nothing
  by_cases same : other = name
  · subst same
    simp only [Function.update_self] at nothing ⊢
    exact kept nothing
  · simp only [Function.update_of_ne same] at nothing ⊢
    exact settled nothing

theorem Settled.insertNamespace (settled : database.Settled other)
    (properties : HashMap String String) :
    (database.insertNamespace name properties).2.Settled other := by
  unfold Database.insertNamespace
  split
  · exact settled
  · split
    · exact settled
    · exact settled.update name nofun

theorem Settled.dropNamespace (settled : database.Settled other) :
    (database.dropNamespace name).2.Settled other := by
  unfold Database.dropNamespace
  split
  · exact settled
  · exact settled.update name fun _ => rfl

theorem Settled.updateNamespace (settled : database.Settled other) (updates : HashMap String String)
    (removals : List String) :
    (database.updateNamespace name updates removals).2.Settled other := by
  unfold Database.updateNamespace lockNamespaceForMutation
  cases row : database.namespaces name with
  | some flag =>
    refine settled.update name fun nothing => ?_
    split at nothing <;> cases nothing
  | none =>
    by_cases empty : (database.properties name).keys.isEmpty = true
    · simpa [empty] using settled
    · simp only [Option.isSome_none, empty, promote]
      refine settled.update name fun nothing => ?_
      repeat' split at nothing
      all_goals cases nothing

end Database

/-! ### Runs -/

/-- The answers of a run as those of a map. -/
def history (answered : List Answered) : List (Request × Answer Content) :=
  answered.map fun one => (one.request, one.answer.map (·.lookup))

def Request.isLoad : Request → Bool
  | .loadNamespace _ => true
  | _ => false

/-- No namespace is loaded that is missing. -/
def LoadsFound (answered : List Answered) : Prop :=
  ∀ one ∈ answered, one.request.isLoad = true → one.found = true

/-- The answers so far are those of the map the tables stood for at first, which has become the one
they stand for now. -/
def Sound (initial : Database) (shared : Shared) : Prop :=
  LoadsFound shared.answered →
    SequentialHistory (perform Namespace.display) initial.view (history shared.answered)
      shared.database.view

/-- A creation that has found no namespace finds at most one with a row. -/
def CallSound (shared : Shared) : Call → Prop
  | .checked ns _ => shared.database.Settled ns.display

theorem Sound.answer {initial : Database} {shared : Shared} (sound : Sound initial shared)
    {request : Request} {performed : Answer (HashMap String String) × Database}
    (refines : (request.isLoad = true →
      shared.database.namespaceExists request.ns.display = true) →
        shared.database.Refines request performed) :
    Sound initial (shared.answer request performed) := by
  intro found
  refine .cons (sound fun one member => found one (List.mem_cons_of_mem _ member)) (refines ?_)
  exact found _ List.mem_cons_self

theorem begin_sound {initial : Database} {shared : Shared} (sound : Sound initial shared)
    (request : Request) :
    Sound initial (begin request shared).1 ∧
      ∀ call ∈ (begin request shared).2, CallSound (begin request shared).1 call := by
  cases request with
  | createNamespace ns properties =>
    by_cases there : shared.database.namespaceExists ns.display = true
    · simp only [SqlNamespaces.begin, Request.ns, there, if_true]
      exact ⟨sound.answer fun _ => Database.refines_conflict ns properties there, by simp⟩
    · simp only [SqlNamespaces.begin, Request.ns, there]
      refine ⟨sound, fun call member nothing => ?_⟩
      cases member
      have missing := by simpa [Database.namespaceExists] using there
      exact missing.2
  | dropNamespace ns =>
    exact ⟨sound.answer fun _ => Database.refines_dropNamespace ns, by simp [SqlNamespaces.begin]⟩
  | loadNamespace ns =>
    refine ⟨sound.answer fun found => ?_, by simp [SqlNamespaces.begin]⟩
    exact Database.refines_loadNamespace ns (found rfl)
  | updateNamespace ns updates removals =>
    exact ⟨sound.answer fun _ => Database.refines_updateNamespace ns updates removals,
      by simp [SqlNamespaces.begin]⟩
  | namespaceExists ns =>
    exact ⟨sound.answer fun _ => Database.refines_namespaceExists ns,
      by simp [SqlNamespaces.begin]⟩

theorem begin_settled {shared : Shared} {other : String} (settled : shared.database.Settled other)
    (request : Request) : (begin request shared).1.database.Settled other := by
  cases request with
  | createNamespace ns properties =>
    simp only [SqlNamespaces.begin]
    split <;> exact settled
  | dropNamespace ns => exact settled.dropNamespace _
  | loadNamespace ns => exact settled
  | updateNamespace ns updates removals => exact settled.updateNamespace _ updates removals
  | namespaceExists ns => exact settled

theorem keeps (initial : Database) :
    Interleaving.Keeps system (Sound initial) CallSound fun _ _ => True where
  symm _ := trivial
  begin request {_} sound := begin_sound sound request
  beginOther request {_ other} _ there := by
    cases other with
    | checked ns properties => exact ⟨begin_settled there request, fun _ _ => trivial⟩
  advance _ {_ call} sound here := by
    cases call with
    | checked ns properties =>
      exact ⟨sound.answer fun _ => Database.refines_insertNamespace ns properties here,
        by simp [system, advance]⟩
  advanceOther _ {_ call other} _ _ there _ := by
    cases call with
    | checked ns properties =>
      cases other with
      | checked own contents => exact ⟨there.insertNamespace _ properties, fun _ _ => trivial⟩

theorem sound_run (initial : Database) (events : List Event) :
    Sound initial (runNamespaces initial events).shared := by
  have start : Sound initial ⟨initial, []⟩ := fun _ => .nil
  refine (Interleaving.holds_run (keeps initial) ⟨start, ?_, .nil⟩ events).shared
  exact fun call member => absurd member List.not_mem_nil

end IcebergRust.SqlNamespaces

namespace IcebergRust

open SqlNamespaces

/-- The namespaces of the operations so far are written differently. -/
def SqlNamespaces.NamesApart (answered : List Answered) : Prop :=
  ∀ one ∈ answered, ∀ other ∈ answered,
    one.request.ns.display = other.request.ns.display → one.request.ns = other.request.ns

/-- In every run, on a database with any content, in which no missing namespace is loaded and no
two namespaces are written alike, the answers are those of the map the tables stood for at first,
in the order the operations took effect. -/
theorem namespaces_sequential (initial : Database) (events : List SqlNamespaces.Event)
    (found : LoadsFound (runNamespaces initial events).shared.answered)
    (apart : NamesApart (runNamespaces initial events).shared.answered) :
    ∃ last, SequentialHistory (perform id) (fun ns => initial.view ns.display)
      (history (runNamespaces initial events).shared.answered) last := by
  refine sequential_of_distinct (sound_run initial events found) ?_
  intro one here other there
  simp only [history, List.map_map, List.mem_map, Function.comp] at here there
  obtain ⟨first, member, rfl⟩ := here
  obtain ⟨second, member', rfl⟩ := there
  exact apart first member second member'

/-! ### Legacy namespaces -/

section Decidable

instance (answered : List Answered) : Decidable (LoadsFound answered) :=
  inferInstanceAs (Decidable (∀ one ∈ answered, one.request.isLoad = true → one.found = true))

instance (answered : List Answered) : Decidable (NamesApart answered) :=
  inferInstanceAs (Decidable (∀ one ∈ answered, ∀ other ∈ answered,
    one.request.ns.display = other.request.ns.display → one.request.ns = other.request.ns))

end Decidable

/-- A database with one namespace, which only has the marker of an older version. -/
def legacyDatabase : Database where
  namespaces _ := none
  properties name := if name = "legacy" then AList.singleton "exists" "true" else ∅

/-- The namespace is updated, given a property of the name of the marker, and loaded. -/
def promoteLegacy : List SqlNamespaces.Event :=
  [.call (.createNamespace ⟨["legacy"]⟩ ∅),
    .call (.updateNamespace ⟨["legacy"]⟩ (AList.singleton "owner" "ada") []),
    .call (.loadNamespace ⟨["legacy"]⟩),
    .call (.updateNamespace ⟨["legacy"]⟩ (AList.singleton "exists" "user") ["owner"]),
    .call (.loadNamespace ⟨["legacy"]⟩),
    .call (.createNamespace ⟨["sales", "eu"]⟩ ∅), .advance 0 (),
    .call (.dropNamespace ⟨["legacy"]⟩)]

theorem namespaces_sequential_promoteLegacy :
    ∃ last, SequentialHistory (perform id) (fun ns => legacyDatabase.view ns.display)
      (history (runNamespaces legacyDatabase promoteLegacy).shared.answered) last :=
  namespaces_sequential legacyDatabase promoteLegacy (by decide +kernel) (by decide +kernel)

/-- A missing namespace is loaded without properties, and one that is written like another one is
taken for it. -/
theorem namespaces_not_sequential :
    (¬ ∃ last, SequentialHistory (perform id) (fun ns => legacyDatabase.view ns.display)
      (history (runNamespaces legacyDatabase
        [.call (.loadNamespace ⟨["sales"]⟩)]).shared.answered) last) ∧
    ¬ ∃ last, SequentialHistory (perform id) (fun ns => legacyDatabase.view ns.display)
      (history (runNamespaces legacyDatabase
        [.call (.createNamespace ⟨["sales", "eu"]⟩ ∅), .advance 0 (),
          .call (.namespaceExists ⟨["sales.eu"]⟩)]).shared.answered) last := by
  constructor
  · rintro ⟨last, sequential⟩
    cases sequential with
    | cons past performed =>
      cases past
      have missing : legacyDatabase.view (Namespace.display ⟨["sales"]⟩) = none := by decide +kernel
      have answer := congrArg Prod.fst performed
      simp only [perform, id, missing] at answer
      cases answer
  · rintro ⟨last, sequential⟩
    cases sequential with
    | cons past performed =>
      cases past with
      | cons earlier created =>
        cases earlier
        rename_i before
        have kept : before ⟨["sales.eu"]⟩ = legacyDatabase.view (Namespace.display ⟨["sales.eu"]⟩) :=
          (congrArg (fun result => result.2 ⟨["sales.eu"]⟩) created).symm.trans
            (perform_of_ne id (by decide))
        have missing : before ⟨["sales.eu"]⟩ = none := kept.trans (by decide +kernel)
        have answer : Answer.present (before ⟨["sales.eu"]⟩).isSome = .present _ :=
          congrArg Prod.fst performed
        have there := (Answer.present.inj answer).trans (by decide +kernel : _ = true)
        rw [missing] at there
        cases there

end IcebergRust
