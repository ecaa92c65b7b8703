import IcebergRust.Lib.Fallible
import IcebergRust.Spec.Identifier
import IcebergRust.Spec.Schema
import Mathlib.Data.List.Dedup

/-!
# The mirror of a catalog

`datafusion_iceberg/src/catalog/mirror.rs`: the schemas and tables DataFusion sees are kept in one
map, under the dotted texts of namespaces and identifiers.  A namespace holds the set of the keys of
its tables.

* `Mirror.new` copies a catalog; the four calls of `Call` change the copy.
* `Consistent` says that both records of a table agree, `Local` that a call changes what it names.
* `consistent_run` is that both hold in every run whose calls are `Allowed`.
-/

namespace IcebergRust.CatalogMirror

/-- A `HashSet` of keys. -/
abbrev NamespaceNode := List String

inductive Node where
  | namespaceNode (keys : NamespaceNode)
  | relation (identifier : Identifier)
deriving DecidableEq

structure Mirror where
  storage : HashMap String Node

/-- What a catalog lists: its namespaces, and the tables of each. -/
abbrev Content := List (Namespace × List Identifier)

/-- The nodes of one namespace of a catalog. -/
def insertNamespace (storage : HashMap String Node) (entry : Namespace × List Identifier) :
    HashMap String Node :=
  (entry.2.foldl (fun storage identifier =>
    storage.insert identifier.display (.relation identifier)) storage).insert entry.1.display
      (.namespaceNode (entry.2.map (·.display)).dedup)

namespace Mirror

/-- `Mirror::new`. -/
def new (content : Content) : Mirror := ⟨content.foldl insertNamespace ∅⟩

variable (mirror : Mirror)

/-- The table at a key. -/
def relationAt (key : String) : Option Identifier :=
  match mirror.storage.lookup key with
  | some (.relation identifier) => some identifier
  | _ => none

/-- `table_names`. -/
def tableNames (ns : Namespace) : Except Error (List Identifier) :=
  match mirror.storage.lookup ns.display with
  | none => .error (.invalidFormat "namespace in catalog")
  | some (.relation _) => .error (.invalidFormat "table in namespace")
  | some (.namespaceNode keys) => .ok (keys.filterMap mirror.relationAt)

/-- The key of a namespace. -/
def namespaceKey : String × Node → Option String
  | (key, .namespaceNode _) => some key
  | (_, .relation _) => none

/-- `schema_names`. -/
def schemaNames : Except Error (List Namespace) :=
  (mirror.storage.iter.filterMap namespaceKey).mapM fun key => Namespace.tryNew (splitAt '.' key)

/-- `table_exists`. -/
def tableExists (identifier : Identifier) : Bool := (mirror.relationAt identifier.display).isSome

/-- `schema_exists`. -/
def schemaExists (name : String) : Bool :=
  match mirror.storage.lookup name with
  | some (.namespaceNode _) => true
  | _ => false

/-- `register_schema`. -/
def registerSchema (name : String) : Except Error (Option NamespaceNode) × Mirror :=
  match Namespace.tryNew (splitAt '.' name) with
  | .error error => (.error error, mirror)
  | .ok ns =>
    let old := match mirror.storage.lookup ns.display with
      | some (.namespaceNode keys) => some keys
      | _ => none
    (.ok old, ⟨mirror.storage.insert ns.display (.namespaceNode [])⟩)

/-- `deregister_schema`: the node is removed whatever it is. -/
def deregisterSchema (name : String) : Except Error (Option NamespaceNode) × Mirror :=
  let after : Mirror := ⟨mirror.storage.erase name⟩
  match mirror.storage.lookup name with
  | some (.namespaceNode keys) => (.ok (some keys), after)
  | none => (.ok none, after)
  | some (.relation _) => (.error (.invalidFormat "Schema to drop"), after)

/-- The keys of a namespace that is there, changed. -/
def modifyNamespace (key : String) (change : NamespaceNode → NamespaceNode) : Mirror :=
  match mirror.storage.lookup key with
  | some (.namespaceNode keys) => ⟨mirror.storage.insert key (.namespaceNode (change keys))⟩
  | _ => mirror

/-- `register_table`. -/
def registerTable (identifier : Identifier) : Except Error (Option Identifier) × Mirror :=
  match Namespace.tryNew identifier.ns.levels with
  | .error error => (.error error, mirror)
  | .ok ns =>
    let listed := mirror.modifyNamespace ns.display (·.insert identifier.display)
    (.ok (listed.relationAt identifier.display),
      ⟨listed.storage.insert identifier.display (.relation identifier)⟩)

/-- `deregister_table`: the node is removed whatever it is. -/
def deregisterTable (identifier : Identifier) : Except Error (Option Identifier) × Mirror :=
  match Namespace.tryNew identifier.ns.levels with
  | .error error => (.error error, mirror)
  | .ok ns =>
    let after : Mirror := ⟨mirror.storage.erase identifier.display⟩
    match mirror.storage.lookup identifier.display with
    | some (.relation found) =>
      (.ok (some found), after.modifyNamespace ns.display (·.filter (· ≠ identifier.display)))
    | some (.namespaceNode _) => (.error (.invalidFormat "Table to drop"), after)
    | none => (.ok none, after)

end Mirror

/-! ### Runs -/

inductive Call where
  | registerSchema (name : String)
  | deregisterSchema (name : String)
  | registerTable (identifier : Identifier)
  | deregisterTable (identifier : Identifier)
deriving DecidableEq

/-- A mirror after a call. -/
def Call.perform (mirror : Mirror) : Call → Mirror
  | .registerSchema name => (mirror.registerSchema name).2
  | .deregisterSchema name => (mirror.deregisterSchema name).2
  | .registerTable identifier => (mirror.registerTable identifier).2
  | .deregisterTable identifier => (mirror.deregisterTable identifier).2

/-- A mirror of a catalog after some calls. -/
def run (content : Content) (calls : List Call) : Mirror :=
  calls.foldl Call.perform (Mirror.new content)

/-! ### What is asked of it -/

/-- A namespace of some levels, none of them empty or with a dot. -/
def PlainNamespace (ns : Namespace) : Prop :=
  ns.levels ≠ [] ∧ ∀ level ∈ ns.levels, level ≠ "" ∧ '.' ∉ level.toList

/-- An identifier of such a namespace, whose name has no dot. -/
def PlainIdentifier (identifier : Identifier) : Prop :=
  PlainNamespace identifier.ns ∧ '.' ∉ identifier.name.toList

/-- What exists is what is listed. -/
structure Consistent (mirror : Mirror) : Prop where
  tables : ∀ identifier, PlainIdentifier identifier → (mirror.tableExists identifier = true ↔
    ∃ names, mirror.tableNames identifier.ns = .ok names ∧ identifier ∈ names)
  schemas : ∀ ns, PlainNamespace ns → (mirror.schemaExists ns.display = true ↔
    ∃ names, mirror.schemaNames = .ok names ∧ ns ∈ names)

/-- The presence of everything else is unchanged, and a schema that is registered again keeps its
tables. -/
structure Local (call : Call) (before after : Mirror) : Prop where
  tables : ∀ identifier, PlainIdentifier identifier →
    call ≠ .registerTable identifier → call ≠ .deregisterTable identifier →
    call ≠ .deregisterSchema identifier.ns.display →
    after.tableExists identifier = before.tableExists identifier
  schemas : ∀ ns, PlainNamespace ns →
    call ≠ .registerSchema ns.display → call ≠ .deregisterSchema ns.display →
    after.schemaExists ns.display = before.schemaExists ns.display
  again : ∀ ns, PlainNamespace ns → call = .registerSchema ns.display →
    before.schemaExists ns.display = true → after.tableNames ns = before.tableNames ns

/-- A catalog whose names have no dots, which lists a namespace once and a table in its own
namespace, and in which no table has the text of a namespace. -/
structure Plain (content : Content) : Prop where
  distinct : (content.map (·.1)).Nodup
  namespaces : ∀ entry ∈ content, PlainNamespace entry.1
  tables : ∀ entry ∈ content, ∀ identifier ∈ entry.2,
    PlainIdentifier identifier ∧ identifier.ns = entry.1
  apart : ∀ entry ∈ content, ∀ identifier ∈ entry.2, ∀ other ∈ content,
    identifier.display ≠ other.1.display

/-- A schema that is absent or has no tables. -/
def NoTables (mirror : Mirror) (key : String) : Prop :=
  mirror.storage.lookup key = none ∨ mirror.storage.lookup key = some (.namespaceNode [])

/-- A call that does not take away what another key depends on: a schema is registered or
deregistered without tables, a table is registered in a schema that is there and not under the name
of one, and the node that is removed for a table is its own.  A namespace with an empty level is
refused. -/
def Allowed (mirror : Mirror) : Call → Prop
  | .registerSchema name => NoTables mirror name
  | .deregisterSchema name => NoTables mirror name
  | .registerTable identifier => "" ∈ identifier.ns.levels ∨
      PlainIdentifier identifier ∧ mirror.schemaExists identifier.ns.display = true ∧
        mirror.schemaExists identifier.display = false
  | .deregisterTable identifier => "" ∈ identifier.ns.levels ∨
      ∀ node, mirror.storage.lookup identifier.display = some node → node = .relation identifier

/-! ### Keys -/

theorem toList_display (ns : Namespace) :
    ns.display.toList = ['.'].intercalate (ns.levels.map String.toList) := by
  simp [Namespace.display, String.toList_intercalate]

variable {ns : Namespace} {identifier : Identifier} {key : String} {view : String → Option Node}

/-- The levels of a namespace are read back from its text. -/
theorem splitAt_display (plain : PlainNamespace ns) : splitAt '.' ns.display = ns.levels := by
  have dotless : ∀ level ∈ ns.levels.map String.toList, '.' ∉ level := by
    intro level member
    obtain ⟨text, listed, rfl⟩ := List.mem_map.mp member
    exact (plain.2 text listed).2
  have split : ns.display.toList.splitOn '.' = ns.levels.map String.toList := by
    rw [toList_display]
    exact List.splitOn_intercalate '.' dotless (by simpa using plain.1)
  rw [splitAt, split, List.map_map]
  simp [Function.comp_def]

theorem display_injective {other : Namespace} (plain : PlainNamespace ns)
    (plain' : PlainNamespace other) (same : ns.display = other.display) : ns = other := by
  have levels : ns.levels = other.levels := by
    rw [← splitAt_display plain, ← splitAt_display plain', same]
  cases ns
  cases other
  simpa using levels

theorem intercalate_concat {separator last : List Char} {parts : List (List Char)}
    (some_ : parts ≠ []) : separator.intercalate (parts ++ [last]) =
      separator.intercalate parts ++ separator ++ last := by
  induction parts with
  | nil => exact absurd rfl some_
  | cons part parts ih =>
    cases parts with
    | nil => simp
    | cons next parts =>
      have rest := ih (by simp)
      rw [List.cons_append] at rest
      rw [List.cons_append, List.cons_append, List.intercalate_cons_cons, rest]
      simp [List.intercalate_cons_cons]

theorem toList_identifier (identifier : Identifier) (plain : PlainNamespace identifier.ns) :
    identifier.display.toList =
      ['.'].intercalate (identifier.ns.levels.map String.toList ++ [identifier.name.toList]) := by
  have some_ : identifier.ns.levels.map String.toList ≠ [] := by simpa using plain.1
  rw [intercalate_concat some_]
  simp [Identifier.display, toList_display]

/-- A key of a table is the table's levels and name. -/
theorem splitAt_identifier (plain : PlainIdentifier identifier) :
    splitAt '.' identifier.display = identifier.ns.levels ++ [identifier.name] := by
  have dotless : ∀ level ∈ identifier.ns.levels.map String.toList ++ [identifier.name.toList],
      '.' ∉ level := by
    intro level member
    rcases List.mem_append.mp member with inside | last
    · obtain ⟨text, listed, rfl⟩ := List.mem_map.mp inside
      exact (plain.1.2 text listed).2
    · rw [List.mem_singleton.mp last]
      exact plain.2
  have split : identifier.display.toList.splitOn '.' =
      identifier.ns.levels.map String.toList ++ [identifier.name.toList] := by
    rw [toList_identifier identifier plain.1]
    exact List.splitOn_intercalate '.' dotless (by simp)
  rw [splitAt, split]
  simp [Function.comp_def]

theorem identifier_injective {other : Identifier} (plain : PlainIdentifier identifier)
    (plain' : PlainIdentifier other) (same : identifier.display = other.display) :
    identifier = other := by
  have levels := (splitAt_identifier plain).symm.trans
    ((congrArg (splitAt '.') same).trans (splitAt_identifier plain'))
  obtain ⟨namespaces, names⟩ := List.append_inj' levels rfl
  obtain ⟨⟨_⟩, _⟩ := identifier
  obtain ⟨⟨_⟩, _⟩ := other
  simp_all

/-! ### The two records of a table -/

/-- A table is plain, is kept under its own text, and its namespace lists it; a namespace is plain,
and all it lists are tables of it. -/
structure Indexed (view : String → Option Node) : Prop where
  relations : ∀ key identifier, view key = some (.relation identifier) →
    PlainIdentifier identifier ∧ identifier.display = key ∧
      ∃ keys, view identifier.ns.display = some (.namespaceNode keys) ∧ key ∈ keys
  namespaces : ∀ key keys, view key = some (.namespaceNode keys) →
    ∃ ns, PlainNamespace ns ∧ ns.display = key ∧
      ∀ listed ∈ keys, ∃ identifier : Identifier, identifier.ns = ns ∧
        view listed = some (.relation identifier)

variable {mirror : Mirror}

open Mirror

theorem relationAt_eq_some :
    mirror.relationAt key = some identifier ↔
      mirror.storage.lookup key = some (.relation identifier) := by
  unfold relationAt
  split
  · next found there => simp [there]
  · next other =>
    simp only [reduceCtorEq, false_iff]
    exact fun there => other _ there

theorem schemaExists_iff {name : String} : mirror.schemaExists name = true ↔
    ∃ keys, mirror.storage.lookup name = some (.namespaceNode keys) := by
  unfold schemaExists
  split
  · next keys there => simp [there]
  · next other =>
    simp only [Bool.false_eq_true, false_iff, not_exists]
    exact fun keys there => other _ there

theorem tableExists_iff : mirror.tableExists identifier = true ↔
    ∃ found, mirror.storage.lookup identifier.display = some (.relation found) := by
  rw [tableExists, Option.isSome_iff_exists]
  exact exists_congr fun found => relationAt_eq_some

theorem tableNames_eq_ok {names : List Identifier} :
    mirror.tableNames ns = .ok names ↔
      ∃ keys, mirror.storage.lookup ns.display = some (.namespaceNode keys) ∧
        keys.filterMap mirror.relationAt = names := by
  unfold tableNames
  split
  · next there => simp [there]
  · next there => simp [there]
  · next keys there => simp [there]

/-- A table that is there is the one that is asked for. -/
theorem Indexed.found (indexed : Indexed mirror.storage.lookup) {found : Identifier}
    (plain : PlainIdentifier identifier)
    (there : mirror.storage.lookup identifier.display = some (.relation found)) :
    found = identifier := by
  obtain ⟨plain', same, _⟩ := indexed.relations _ _ there
  exact identifier_injective plain' plain same

theorem Indexed.tables (indexed : Indexed mirror.storage.lookup) (identifier : Identifier)
    (plain : PlainIdentifier identifier) : mirror.tableExists identifier = true ↔
      ∃ names, mirror.tableNames identifier.ns = .ok names ∧ identifier ∈ names := by
  rw [tableExists_iff]
  constructor
  · rintro ⟨found, there⟩
    have same := indexed.found plain there
    subst same
    obtain ⟨_, _, keys, node, listed⟩ := indexed.relations _ _ there
    refine ⟨_, tableNames_eq_ok.mpr ⟨keys, node, rfl⟩, List.mem_filterMap.mpr ?_⟩
    exact ⟨found.display, listed, relationAt_eq_some.mpr there⟩
  · rintro ⟨names, answered, listed⟩
    obtain ⟨keys, _, rfl⟩ := tableNames_eq_ok.mp answered
    obtain ⟨key, _, at_⟩ := List.mem_filterMap.mp listed
    have there := relationAt_eq_some.mp at_
    obtain ⟨_, same, _⟩ := indexed.relations _ _ there
    exact ⟨identifier, same ▸ there⟩

theorem namespaceKey_eq_some {entry : String × Node} :
    namespaceKey entry = some key ↔ ∃ keys, entry = (key, .namespaceNode keys) := by
  obtain ⟨other, node⟩ := entry
  cases node with
  | namespaceNode keys => simp [namespaceKey]
  | relation identifier => simp [namespaceKey]

theorem tryNew_of_plain (plain : PlainNamespace ns) : Namespace.tryNew ns.levels = .ok ns := by
  have full : ns.levels.any (·.isEmpty) = false := by
    rw [List.any_eq_false]
    intro level member empty
    exact (plain.2 level member).1 (String.isEmpty_iff.mp empty)
  simp [Namespace.tryNew, full]

theorem tryNew_of_empty {levels : List String} (empty : "" ∈ levels) :
    Namespace.tryNew levels = .error (.invalidFormat "namespace sequence") := by
  have some_ : levels.any (·.isEmpty) = true := List.any_eq_true.mpr ⟨"", empty, by simp⟩
  simp [Namespace.tryNew, some_]

theorem Indexed.schemas (indexed : Indexed mirror.storage.lookup) (ns : Namespace)
    (plain : PlainNamespace ns) :
    mirror.schemaExists ns.display = true ↔
      ∃ names, mirror.schemaNames = .ok names ∧ ns ∈ names := by
  have parsed : ∀ key ∈ mirror.storage.iter.filterMap namespaceKey, ∃ found,
      PlainNamespace found ∧ found.display = key ∧
        Namespace.tryNew (splitAt '.' key) = .ok found := by
    intro key member
    obtain ⟨entry, inside, is_⟩ := List.mem_filterMap.mp member
    obtain ⟨keys, rfl⟩ := namespaceKey_eq_some.mp is_
    obtain ⟨found, plain', rfl, _⟩ := indexed.namespaces _ _ (HashMap.mem_iter_iff.mp inside)
    refine ⟨found, plain', rfl, ?_⟩
    rw [splitAt_display plain']
    exact tryNew_of_plain plain'
  obtain ⟨names, answered⟩ := Fallible.mapM_total fun key member =>
    (parsed key member).imp fun _ read => read.2.2
  have pairs := Fallible.mapM_eq_ok.mp answered
  rw [schemaExists_iff]
  constructor
  · rintro ⟨keys, there⟩
    have listed : ns.display ∈ mirror.storage.iter.filterMap namespaceKey :=
      List.mem_filterMap.mpr
        ⟨_, HashMap.mem_iter_iff.mpr there, namespaceKey_eq_some.mpr ⟨keys, rfl⟩⟩
    obtain ⟨found, named, read⟩ := Fallible.exists_of_mem_forall₂ pairs.flip listed
    rw [splitAt_display plain, tryNew_of_plain plain] at read
    exact ⟨names, answered, Except.ok.inj read ▸ named⟩
  · rintro ⟨names', answered', named⟩
    obtain rfl := Except.ok.inj (answered.symm.trans answered')
    obtain ⟨key, listed, read⟩ := Fallible.exists_of_mem_mapM answered named
    obtain ⟨found, plain', rfl, read'⟩ := parsed key listed
    obtain rfl := Except.ok.inj (read.symm.trans read')
    obtain ⟨entry, inside, is_⟩ := List.mem_filterMap.mp listed
    obtain ⟨keys, rfl⟩ := namespaceKey_eq_some.mp is_
    exact ⟨keys, HashMap.mem_iter_iff.mp inside⟩

theorem Indexed.consistent (indexed : Indexed mirror.storage.lookup) : Consistent mirror where
  tables := indexed.tables
  schemas := indexed.schemas

/-! ### Steps -/

theorem notMem_of_mem_splitOn {separator : Char} {text part : List Char}
    (member : part ∈ text.splitOn separator) : separator ∉ part := by
  induction text generalizing part with
  | nil =>
    rw [List.splitOn_nil, List.mem_singleton] at member
    simp [member]
  | cons letter text ih =>
    rw [List.splitOn_cons_eq_if_modifyHead] at member
    by_cases here : letter = separator
    · rw [if_pos (by simpa using here), List.mem_cons] at member
      rcases member with rfl | member
      · exact List.not_mem_nil
      · exact ih member
    · rw [if_neg (by simpa using here)] at member
      cases parts : text.splitOn separator with
      | nil => exact absurd parts (List.splitOn_ne_nil separator text)
      | cons first rest =>
        rw [parts, List.modifyHead_cons, List.mem_cons] at member
        rcases member with rfl | member
        · have apart := ih (parts ▸ List.mem_cons_self)
          simp [apart, Ne.symm here]
        · exact ih (parts ▸ List.mem_cons_of_mem _ member)

/-- A name that is accepted is the text of a plain namespace. -/
theorem tryNew_splitAt {name : String} (parsed : Namespace.tryNew (splitAt '.' name) = .ok ns) :
    PlainNamespace ns ∧ ns.display = name := by
  unfold Namespace.tryNew at parsed
  split at parsed
  · exact absurd parsed (by simp)
  · next full =>
    obtain rfl := Except.ok.inj parsed
    refine ⟨⟨?_, ?_⟩, ?_⟩
    · simp [splitAt]
    · intro level member
      constructor
      · rintro rfl
        exact full (List.any_eq_true.mpr ⟨"", member, by simp⟩)
      · obtain ⟨part, inside, rfl⟩ := List.mem_map.mp member
        simpa using notMem_of_mem_splitOn inside
    · apply String.toList_injective
      rw [toList_display, splitAt, List.map_map]
      simp [Function.comp_def, List.intercalate_splitOn]

theorem lookup_insert_eq {storage : HashMap String Node} {other : String} {node : Node} :
    (storage.insert key node).lookup other = if other = key then some node else
      storage.lookup other := by
  by_cases here : other = key
  · rw [if_pos here, here, AList.lookup_insert]
  · rw [if_neg here, AList.lookup_insert_ne here]

theorem lookup_erase_eq {storage : HashMap String Node} {other : String} :
    (storage.erase key).lookup other = if other = key then none else storage.lookup other := by
  by_cases here : other = key
  · rw [if_pos here, here, AList.lookup_erase]
  · rw [if_neg here, AList.lookup_erase_ne here]

/-- What an allowed call does to the map. -/
inductive Moves (mirror : Mirror) : Call → (String → Option Node) → Prop where
  | same {call} : Moves mirror call mirror.storage.lookup
  | opened {ns : Namespace} : PlainNamespace ns → NoTables mirror ns.display →
      Moves mirror (.registerSchema ns.display) fun key =>
        if key = ns.display then some (.namespaceNode []) else mirror.storage.lookup key
  | closed {name} : NoTables mirror name → Moves mirror (.deregisterSchema name) fun key =>
      if key = name then none else mirror.storage.lookup key
  | listed {identifier : Identifier} {keys} : PlainIdentifier identifier →
      mirror.schemaExists identifier.display = false →
      mirror.storage.lookup identifier.ns.display = some (.namespaceNode keys) →
      Moves mirror (.registerTable identifier) fun key =>
        if key = identifier.display then some (.relation identifier)
        else if key = identifier.ns.display then
          some (.namespaceNode (keys.insert identifier.display))
        else mirror.storage.lookup key
  | dropped {identifier : Identifier} {keys} : PlainIdentifier identifier →
      mirror.storage.lookup identifier.display = some (.relation identifier) →
      mirror.storage.lookup identifier.ns.display = some (.namespaceNode keys) →
      Moves mirror (.deregisterTable identifier) fun key =>
        if key = identifier.ns.display then
          some (.namespaceNode (keys.filter (· ≠ identifier.display)))
        else if key = identifier.display then none
        else mirror.storage.lookup key

variable {call : Call} {after : Mirror} {content : Content}

theorem moves_of_allowed (indexed : Indexed mirror.storage.lookup) (allowed : Allowed mirror call) :
    ∃ view, Moves mirror call view ∧ (call.perform mirror).storage.lookup = view := by
  cases call with
  | registerSchema name =>
    rw [Call.perform, registerSchema]
    split
    · exact ⟨_, .same, rfl⟩
    · next ns parsed =>
      obtain ⟨plain, rfl⟩ := tryNew_splitAt parsed
      exact ⟨_, .opened plain allowed, funext fun _ => lookup_insert_eq⟩
  | deregisterSchema name =>
    refine ⟨_, .closed allowed, funext fun key => ?_⟩
    rw [Call.perform, deregisterSchema]
    split <;> exact lookup_erase_eq
  | registerTable identifier =>
    rcases allowed with empty | ⟨plain, there, absent⟩
    · refine ⟨_, .same, ?_⟩
      rw [Call.perform, registerTable, tryNew_of_empty empty]
    · obtain ⟨keys, node⟩ := schemaExists_iff.mp there
      refine ⟨_, .listed plain absent node, funext fun key => ?_⟩
      simp only [Call.perform, registerTable, tryNew_of_plain plain.1,
        modifyNamespace, node, lookup_insert_eq]
  | deregisterTable identifier =>
    rcases allowed with empty | own
    · refine ⟨_, .same, ?_⟩
      rw [Call.perform, deregisterTable, tryNew_of_empty empty]
    · cases node : mirror.storage.lookup identifier.display with
      | none =>
        refine ⟨_, .same, funext fun key => ?_⟩
        rw [Call.perform, deregisterTable]
        split
        · rfl
        · simp only [node, lookup_erase_eq]
          by_cases here : key = identifier.display
          · rw [if_pos here, here, node]
          · rw [if_neg here]
      | some found =>
        obtain rfl := own found node
        obtain ⟨plain, _, keys, listed, _⟩ := indexed.relations _ _ node
        have apart : identifier.ns.display ≠ identifier.display := by
          intro same
          rw [same, node] at listed
          exact absurd listed (by simp)
        refine ⟨_, .dropped plain node listed, funext fun key => ?_⟩
        simp only [Call.perform, deregisterTable, tryNew_of_plain plain.1, node,
          modifyNamespace, lookup_erase_eq, if_neg apart, listed, lookup_insert_eq]

theorem NoTables.unlisted (none_ : NoTables mirror key) {keys : NamespaceNode}
    (node : mirror.storage.lookup key = some (.namespaceNode keys)) : keys = [] := by
  rcases none_ with absent | empty
  · simp [absent] at node
  · rw [empty] at node
    simpa using node.symm

theorem NoTables.not_relation (none_ : NoTables mirror key) (identifier : Identifier) :
    mirror.storage.lookup key ≠ some (.relation identifier) := by
  rcases none_ with absent | empty
  · simp [absent]
  · simp [empty]

/-- A schema without tables is replaced by another one, or by nothing. -/
theorem NoTables.replaced {name : String} (none_ : NoTables mirror name) {node : Option Node}
    (indexed : Indexed mirror.storage.lookup)
    (new : node = none ∨ node = some (.namespaceNode []) ∧
      ∃ ns, PlainNamespace ns ∧ ns.display = name) :
    Indexed fun key => if key = name then node else mirror.storage.lookup key := by
  constructor
  · intro key identifier there
    have apart : key ≠ name := by
      rintro rfl
      rcases new with rfl | ⟨rfl, _⟩ <;> simp at there
    rw [if_neg apart] at there
    obtain ⟨plain, same, keys, found, listed⟩ := indexed.relations _ _ there
    refine ⟨plain, same, keys, ?_, listed⟩
    rw [if_neg, found]
    intro here
    rw [here] at found
    exact absurd (none_.unlisted found ▸ listed) List.not_mem_nil
  · intro key keys there
    by_cases here : key = name
    · rw [if_pos here] at there
      rcases new with rfl | ⟨rfl, ns, plain, rfl⟩
      · exact absurd there (by simp)
      · obtain rfl : keys = [] := by simpa using there.symm
        exact ⟨ns, plain, here.symm, fun _ member => absurd member List.not_mem_nil⟩
    · rw [if_neg here] at there
      obtain ⟨ns, plain, same, tables⟩ := indexed.namespaces _ _ there
      refine ⟨ns, plain, same, fun listed member => ?_⟩
      obtain ⟨identifier, inside, found⟩ := tables listed member
      refine ⟨identifier, inside, ?_⟩
      rw [if_neg, found]
      rintro rfl
      exact none_.not_relation _ found

/-- Each call keeps both records in step. -/
theorem Moves.indexed (indexed : Indexed mirror.storage.lookup) (moves : Moves mirror call view) :
    Indexed view := by
  cases moves with
  | same => exact indexed
  | @opened ns plain none_ => exact none_.replaced indexed (.inr ⟨rfl, ns, plain, rfl⟩)
  | @closed name none_ => exact none_.replaced indexed (.inl rfl)
  | @listed identifier keys plain absent node =>
    have noSchema : ∀ keys, mirror.storage.lookup identifier.display ≠
        some (.namespaceNode keys) := by
      intro keys found
      have there := schemaExists_iff.mpr ⟨keys, found⟩
      simp [absent] at there
    have apart : identifier.ns.display ≠ identifier.display := by
      intro same
      exact noSchema keys (same ▸ node)
    constructor
    · intro key found there
      by_cases here : key = identifier.display
      · obtain rfl : identifier = found := by simpa [here] using there
        refine ⟨plain, here.symm, keys.insert identifier.display, ?_, ?_⟩
        · rw [if_neg apart, if_pos rfl]
        · rw [here]
          exact List.mem_insert_self
      · rw [if_neg here] at there
        by_cases own : key = identifier.ns.display
        · simp [own] at there
        · rw [if_neg own] at there
          obtain ⟨plain', same, keys', node', listed⟩ := indexed.relations _ _ there
          have apart' : found.ns.display ≠ identifier.display := by
            intro same'
            exact noSchema keys' (same' ▸ node')
          refine ⟨plain', same, ?_⟩
          rw [if_neg apart']
          by_cases same' : found.ns.display = identifier.ns.display
          · rw [same', node] at node'
            obtain rfl : keys = keys' := by simpa using node'
            exact ⟨_, if_pos same', List.mem_insert_of_mem listed⟩
          · exact ⟨keys', (if_neg same').trans node', listed⟩
    · intro key keys' there
      by_cases here : key = identifier.display
      · simp [here] at there
      · rw [if_neg here] at there
        by_cases own : key = identifier.ns.display
        · obtain rfl : keys.insert identifier.display = keys' := by simpa [own] using there
          refine ⟨identifier.ns, plain.1, own.symm, fun listed member => ?_⟩
          obtain ⟨ns, plain', same, tables⟩ := indexed.namespaces _ _ node
          obtain rfl := display_injective plain' plain.1 same
          by_cases new : listed = identifier.display
          · exact ⟨identifier, rfl, if_pos new⟩
          · obtain ⟨found, inside, node'⟩ :=
              tables listed ((List.mem_insert_iff.mp member).resolve_left new)
            refine ⟨found, inside, ?_⟩
            rw [if_neg new, if_neg, node']
            rintro rfl
            simp [node] at node'
        · rw [if_neg own] at there
          obtain ⟨ns, plain', same, tables⟩ := indexed.namespaces _ _ there
          refine ⟨ns, plain', same, fun listed member => ?_⟩
          obtain ⟨found, inside, node'⟩ := tables listed member
          refine ⟨found, inside, ?_⟩
          rw [if_neg, if_neg, node']
          · rintro rfl
            simp [node] at node'
          · rintro rfl
            obtain rfl := indexed.found plain node'
            exact own (same.symm.trans (congrArg Namespace.display inside.symm))
  | @dropped identifier keys plain there node =>
    constructor
    · intro key found kept
      by_cases own : key = identifier.ns.display
      · simp [own] at kept
      · rw [if_neg own] at kept
        by_cases here : key = identifier.display
        · simp [here] at kept
        · rw [if_neg here] at kept
          obtain ⟨plain', same, keys', node', listed⟩ := indexed.relations _ _ kept
          refine ⟨plain', same, ?_⟩
          by_cases same' : found.ns.display = identifier.ns.display
          · rw [same', node] at node'
            obtain rfl : keys = keys' := by simpa using node'
            exact ⟨_, if_pos same', List.mem_filter.mpr ⟨listed, by simpa using here⟩⟩
          · refine ⟨keys', ?_, listed⟩
            rw [if_neg same', if_neg, node']
            intro own'
            rw [own', there] at node'
            exact absurd node' (by simp)
    · intro key keys' kept
      by_cases own : key = identifier.ns.display
      · obtain rfl : keys.filter (· ≠ identifier.display) = keys' := by simpa [own] using kept
        obtain ⟨ns, plain', same, tables⟩ := indexed.namespaces _ _ node
        refine ⟨ns, plain', same.trans own.symm, fun listed member => ?_⟩
        obtain ⟨member, other⟩ := List.mem_filter.mp member
        obtain ⟨found, inside, node'⟩ := tables listed member
        refine ⟨found, inside, ?_⟩
        rw [if_neg, if_neg (by simpa using other), node']
        rintro rfl
        simp [node] at node'
      · rw [if_neg own] at kept
        by_cases here : key = identifier.display
        · simp [here] at kept
        · rw [if_neg here] at kept
          obtain ⟨ns, plain', same, tables⟩ := indexed.namespaces _ _ kept
          refine ⟨ns, plain', same, fun listed member => ?_⟩
          obtain ⟨found, inside, node'⟩ := tables listed member
          refine ⟨found, inside, ?_⟩
          rw [if_neg, if_neg, node']
          · rintro rfl
            obtain rfl := indexed.found plain node'
            exact own (same.symm.trans (congrArg Namespace.display inside.symm))
          · rintro rfl
            simp [node] at node'

theorem tableExists_of_lookup
    (same : (∃ found, after.storage.lookup identifier.display = some (.relation found)) ↔
      ∃ found, mirror.storage.lookup identifier.display = some (.relation found)) :
    after.tableExists identifier = mirror.tableExists identifier := by
  rw [Bool.eq_iff_iff, tableExists_iff, tableExists_iff]
  exact same

theorem schemaExists_of_lookup {name : String}
    (same : (∃ keys, after.storage.lookup name = some (.namespaceNode keys)) ↔
      ∃ keys, mirror.storage.lookup name = some (.namespaceNode keys)) :
    after.schemaExists name = mirror.schemaExists name := by
  rw [Bool.eq_iff_iff, schemaExists_iff, schemaExists_iff]
  exact same

theorem Moves.tables (moves : Moves mirror call view) (plain : PlainIdentifier identifier)
    (register : call ≠ .registerTable identifier) (deregister : call ≠ .deregisterTable identifier) :
    (∃ found, view identifier.display = some (.relation found)) ↔
      ∃ found, mirror.storage.lookup identifier.display = some (.relation found) := by
  cases moves with
  | same => exact Iff.rfl
  | @opened ns plain' none_ =>
    by_cases here : identifier.display = ns.display
    · rw [here]
      simp [none_.not_relation]
    · simp [here]
  | @closed name none_ =>
    by_cases here : identifier.display = name
    · rw [here]
      simp [none_.not_relation]
    · simp [here]
  | @listed other keys plain' absent node =>
    have apart : identifier.display ≠ other.display := by
      intro same
      exact register (congrArg Call.registerTable (identifier_injective plain' plain same.symm))
    by_cases own : identifier.display = other.ns.display
    · rw [own] at apart
      rw [own]
      simp [node, apart]
    · simp [apart, own]
  | @dropped other keys plain' there node =>
    have apart : identifier.display ≠ other.display := by
      intro same
      exact deregister (congrArg Call.deregisterTable (identifier_injective plain' plain same.symm))
    by_cases own : identifier.display = other.ns.display
    · rw [own]
      simp [node]
    · simp [apart, own]

theorem Moves.schemas (moves : Moves mirror call view)
    (register : call ≠ .registerSchema ns.display)
    (deregister : call ≠ .deregisterSchema ns.display) :
    (∃ keys, view ns.display = some (.namespaceNode keys)) ↔
      ∃ keys, mirror.storage.lookup ns.display = some (.namespaceNode keys) := by
  cases moves with
  | same => exact Iff.rfl
  | @opened other plain' none_ =>
    have apart : ns.display ≠ other.display := by
      intro same
      exact register (congrArg Call.registerSchema same.symm)
    simp [apart]
  | @closed name none_ =>
    have apart : ns.display ≠ name := by
      rintro rfl
      exact deregister rfl
    simp [apart]
  | @listed other keys plain' absent node =>
    by_cases here : ns.display = other.display
    · rw [here, ← schemaExists_iff, absent]
      simp
    · by_cases own : ns.display = other.ns.display
      · rw [own] at here
        rw [own]
        simp [node, here]
      · simp [here, own]
  | @dropped other keys plain' there node =>
    by_cases own : ns.display = other.ns.display
    · rw [own]
      simp [node]
    · by_cases here : ns.display = other.display
      · rw [here] at own
        rw [here]
        simp [there, own]
      · simp [own, here]

theorem Moves.again {keys : NamespaceNode} (moves : Moves mirror (.registerSchema ns.display) view)
    (there : mirror.storage.lookup ns.display = some (.namespaceNode keys))
    (at_ : after.storage.lookup = view) : after.tableNames ns = mirror.tableNames ns := by
  generalize named : Call.registerSchema ns.display = call at moves
  cases moves with
  | same =>
    have at' : ∀ key, after.storage.lookup key = mirror.storage.lookup key := congrFun at_
    have relations : after.relationAt = mirror.relationAt := by
      funext key
      rw [relationAt, relationAt, at' key]
    rw [tableNames, tableNames, at', relations]
  | @opened other plain none_ =>
    rw [← Call.registerSchema.inj named] at none_ at_
    obtain rfl := none_.unlisted there
    have at' : after.storage.lookup ns.display = some (.namespaceNode []) := by
      have here := congrFun at_ ns.display
      rwa [if_pos rfl] at here
    rw [tableNames, tableNames, at', there]
    rfl
  | closed _ => exact absurd named (by simp)
  | listed _ _ _ => exact absurd named (by simp)
  | dropped _ _ _ => exact absurd named (by simp)

/-- Each call is local. -/
theorem Moves.local (moves : Moves mirror call view) (at_ : after.storage.lookup = view) :
    Local call mirror after where
  tables := by
    intro identifier plain register deregister _
    subst at_
    exact tableExists_of_lookup (moves.tables plain register deregister)
  schemas := by
    intro ns _ register deregister
    subst at_
    exact schemaExists_of_lookup (moves.schemas register deregister)
  again := by
    rintro ns _ rfl there
    obtain ⟨keys, node⟩ := schemaExists_iff.mp there
    exact moves.again node at_

/-! ### Runs of allowed calls -/

/-- The nodes of one namespace. -/
def nodesOf (entry : Namespace × List Identifier) : List (String × Node) :=
  entry.2.map (fun identifier => (identifier.display, .relation identifier)) ++
    [(entry.1.display, .namespaceNode (entry.2.map (·.display)).dedup)]

theorem new_eq_fromIter (content : Content) :
    (new content).storage = HashMap.fromIter (content.flatMap nodesOf) := by
  rw [new, HashMap.fromIter, List.foldl_flatMap]
  congr
  funext storage entry
  rw [insertNamespace, nodesOf, List.foldl_append, List.foldl_map]
  rfl

theorem mem_nodes_iff {node : Node} :
    (key, node) ∈ content.flatMap nodesOf ↔ ∃ entry ∈ content,
      (∃ identifier ∈ entry.2, identifier.display = key ∧ node = .relation identifier) ∨
      entry.1.display = key ∧ node = .namespaceNode (entry.2.map (·.display)).dedup := by
  simp only [List.mem_flatMap, nodesOf, List.mem_append, List.mem_map, List.mem_singleton,
    Prod.mk.injEq, eq_comm (a := key), eq_comm (a := node)]

/-- No two nodes of a plain catalog have one key. -/
theorem Plain.unique (plain : Plain content) :
    ∀ node ∈ content.flatMap nodesOf, ∀ other ∈ content.flatMap nodesOf,
      node.1 = other.1 → node = other := by
  rintro ⟨key, node⟩ member ⟨_, other⟩ member' rfl
  obtain ⟨entry, listed, made⟩ := mem_nodes_iff.mp member
  obtain ⟨entry', listed', made'⟩ := mem_nodes_iff.mp member'
  rcases made with ⟨identifier, inside, here, rfl⟩ | ⟨here, rfl⟩
  · rcases made' with ⟨identifier', inside', here', rfl⟩ | ⟨here', rfl⟩
    · rw [identifier_injective (plain.tables _ listed _ inside).1
        (plain.tables _ listed' _ inside').1 (here.trans here'.symm)]
    · exact absurd (here.trans here'.symm) (plain.apart _ listed _ inside _ listed')
  · rcases made' with ⟨identifier', inside', here', rfl⟩ | ⟨here', rfl⟩
    · exact absurd (here'.trans here.symm) (plain.apart _ listed' _ inside' _ listed)
    · have same := display_injective (plain.namespaces _ listed) (plain.namespaces _ listed')
        (here.trans here'.symm)
      rw [List.inj_on_of_nodup_map plain.distinct listed listed' same]

theorem Plain.lookup_iff (plain : Plain content) {node : Node} :
    (new content).storage.lookup key = some node ↔ ∃ entry ∈ content,
      (∃ identifier ∈ entry.2, identifier.display = key ∧ node = .relation identifier) ∨
      entry.1.display = key ∧ node = .namespaceNode (entry.2.map (·.display)).dedup := by
  rw [new_eq_fromIter, HashMap.lookup_fromIter_of_distinct plain.unique, mem_nodes_iff]

/-- A mirror starts with both records in step. -/
theorem Plain.indexed (plain : Plain content) :
    Indexed (new content).storage.lookup where
  relations := by
    intro key identifier there
    obtain ⟨entry, listed, made⟩ := plain.lookup_iff.mp there
    rcases made with ⟨identifier', inside, here, same⟩ | ⟨_, node⟩
    · obtain rfl := Node.relation.inj same
      obtain ⟨plain', own⟩ := plain.tables _ listed _ inside
      refine ⟨plain', here, (entry.2.map (·.display)).dedup, ?_, ?_⟩
      · rw [own]
        exact plain.lookup_iff.mpr ⟨entry, listed, .inr ⟨rfl, rfl⟩⟩
      · rw [List.mem_dedup, ← here]
        exact List.mem_map_of_mem inside
    · exact absurd node (by simp)
  namespaces := by
    intro key keys there
    obtain ⟨entry, listed, made⟩ := plain.lookup_iff.mp there
    rcases made with ⟨_, _, _, node⟩ | ⟨here, same⟩
    · exact absurd node (by simp)
    · obtain rfl := Node.namespaceNode.inj same
      refine ⟨entry.1, plain.namespaces _ listed, here, fun key' member => ?_⟩
      obtain ⟨identifier, inside, named⟩ := List.mem_map.mp (List.mem_dedup.mp member)
      exact ⟨identifier, (plain.tables _ listed _ inside).2,
        plain.lookup_iff.mpr ⟨entry, listed, .inl ⟨identifier, inside, named, rfl⟩⟩⟩

/-- A step of a run that is allowed keeps both records, and is local. -/
theorem step_of_allowed (indexed : Indexed mirror.storage.lookup) (allowed : Allowed mirror call) :
    Indexed (call.perform mirror).storage.lookup ∧ Local call mirror (call.perform mirror) := by
  obtain ⟨view, moves, at_⟩ := moves_of_allowed indexed allowed
  exact ⟨at_ ▸ moves.indexed indexed, moves.local at_⟩

theorem indexed_foldl (indexed : Indexed mirror.storage.lookup) {calls : List Call}
    (allowed : ∀ before call after, calls = before ++ call :: after →
      Allowed (before.foldl Call.perform mirror) call) :
    Indexed (calls.foldl Call.perform mirror).storage.lookup := by
  induction calls generalizing mirror with
  | nil => exact indexed
  | cons call calls ih =>
    have first := (step_of_allowed indexed (allowed [] call calls rfl)).1
    refine ih first fun before next after split => ?_
    exact allowed (call :: before) next after (by rw [split, List.cons_append])

/-- In a run of allowed calls what exists is what is listed, and every call is local. -/
theorem consistent_run (content : Content) (plain : Plain content) (calls : List Call)
    (allowed : ∀ before call after, calls = before ++ call :: after →
      Allowed (run content before) call) :
    Consistent (run content calls) ∧ ∀ before call after, calls = before ++ call :: after →
      Local call (run content before) (run content (before ++ [call])) := by
  refine ⟨(indexed_foldl plain.indexed allowed).consistent, fun before call after split => ?_⟩
  have reached : Indexed (run content before).storage.lookup := by
    refine indexed_foldl plain.indexed fun first next rest split' => ?_
    exact allowed first next (rest ++ call :: after) (by rw [split, split']; simp)
  have next : run content (before ++ [call]) = call.perform (run content before) := by
    simp [run]
  rw [next]
  exact (step_of_allowed reached (allowed before call after split)).2

theorem consistent_run_two :
    Consistent (run [(⟨["a"]⟩, [⟨⟨["a"]⟩, "t"⟩]), (⟨["a", "b"]⟩, [])]
      [.registerTable ⟨⟨["a", "b"]⟩, "u"⟩, .deregisterTable ⟨⟨["a"]⟩, "t"⟩]) := by
  refine (consistent_run [(⟨["a"]⟩, [⟨⟨["a"]⟩, "t"⟩]), (⟨["a", "b"]⟩, [])] ⟨?_, ?_, ?_, ?_⟩
    [.registerTable ⟨⟨["a", "b"]⟩, "u"⟩, .deregisterTable ⟨⟨["a"]⟩, "t"⟩] ?_).1
  · decide
  · simp [PlainNamespace]
  · simp [PlainIdentifier, PlainNamespace]
  · simp [Identifier.display, Namespace.display]
  · rintro before call after split
    rcases before with _ | ⟨first, _ | ⟨second, rest⟩⟩
    · obtain ⟨rfl, rfl⟩ := List.cons.inj split
      refine .inr ⟨by simp [PlainIdentifier, PlainNamespace], ?_, ?_⟩
      · decide +kernel
      · decide +kernel
    · have second := (List.cons.inj split).2
      obtain ⟨rfl, rfl⟩ := List.cons.inj second
      obtain rfl := (List.cons.inj split).1
      refine .inr fun node there => ?_
      have own : (run [(⟨["a"]⟩, [⟨⟨["a"]⟩, "t"⟩]), (⟨["a", "b"]⟩, [])]
          [.registerTable ⟨⟨["a", "b"]⟩, "u"⟩]).storage.lookup
            (Identifier.display ⟨⟨["a"]⟩, "t"⟩) = some (.relation ⟨⟨["a"]⟩, "t"⟩) := by
        decide +kernel
      exact Option.some.inj (there.symm.trans own)
    · simp at split

/-- A schema that is registered again loses its tables, which still exist. -/
theorem registered_again_unlisted : Plain [(⟨["a"]⟩, [⟨⟨["a"]⟩, "t"⟩])] ∧
    ¬ Consistent (run [(⟨["a"]⟩, [⟨⟨["a"]⟩, "t"⟩])] [.registerSchema "a"]) ∧
    ¬ Local (.registerSchema "a") (run [(⟨["a"]⟩, [⟨⟨["a"]⟩, "t"⟩])] [])
      (run [(⟨["a"]⟩, [⟨⟨["a"]⟩, "t"⟩])] [.registerSchema "a"]) := by
  refine ⟨⟨by decide, ?_, ?_, ?_⟩, ?_, ?_⟩
  · simp [PlainNamespace]
  · simp [PlainIdentifier, PlainNamespace]
  · simp [Identifier.display, Namespace.display]
  · intro consistent
    have listed := (consistent.tables ⟨⟨["a"]⟩, "t"⟩
      (by simp [PlainIdentifier, PlainNamespace])).mp (by decide +kernel)
    obtain ⟨names, answered, member⟩ := listed
    have none_ : (run [(⟨["a"]⟩, [⟨⟨["a"]⟩, "t"⟩])] [.registerSchema "a"]).tableNames ⟨["a"]⟩ =
        .ok [] := by
      decide +kernel
    obtain rfl := Except.ok.inj (none_.symm.trans answered)
    exact absurd member List.not_mem_nil
  · intro local_
    have kept := local_.again ⟨["a"]⟩ (by simp [PlainNamespace]) (by decide) (by decide +kernel)
    revert kept
    decide +kernel

end IcebergRust.CatalogMirror
