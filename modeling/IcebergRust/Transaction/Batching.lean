import IcebergRust.Lib.Fallible
import IcebergRust.Transaction.Transaction
import IcebergRust.Spec.LongValue
import Mathlib

/-!
# Several calls of a builder

What the file calls of a transaction's builder leave in its slots, against what one call
with all their files would: appended files, replacements and overwrites are collected over
the calls, but summaries, lists of files to overwrite and late replacements are not.

* `appendBuilt`, `replaceBuilt` and `overwriteBuilt` are the slots after any calls.
* `batched_iff` says exactly when every slot is the one of a single call.
-/

namespace IcebergRust

open Fallible

variable {V : Type}

/-- A call of the builder that gives it files. -/
inductive BuilderCall (V : Type) where
  | appendData (files : List (DataFile V))
  | appendDelete (files : List (DataFile V))
  | overwrite (files : List (DataFile V)) (filesToOverwrite : HashMap String (List String))
  | replace (files : List (DataFile V))
  | replaceWithLineage (files : List (DataFile V)) (additionalSummary : HashMap String String)

namespace BuilderCall

def perform (transaction : TableTransaction V) : BuilderCall V → Except Error (TableTransaction V)
  | appendData files => transaction.appendData files
  | appendDelete files => transaction.appendDelete files
  | overwrite files filesToOverwrite => .ok (transaction.overwrite files filesToOverwrite)
  | replace files => .ok (transaction.replace files)
  | replaceWithLineage files additionalSummary =>
    .ok (transaction.replaceWithLineage files additionalSummary)

/-- A transaction on a branch, built by calls. -/
def build (branch : Option String) (calls : List (BuilderCall V)) :
    Except Error (TableTransaction V) :=
  calls.foldlM perform (.new branch)

/-- The data files a call appends, if it appends. -/
def appended : BuilderCall V → Option (List (DataFile V))
  | appendData files => some files
  | appendDelete _ => some []
  | _ => none

def deletes : BuilderCall V → List (DataFile V)
  | appendDelete files => files
  | _ => []

/-- The new files of an overwrite, and the files it overwrites by manifest. -/
def overwritten : BuilderCall V → Option (List (DataFile V) × HashMap String (List String))
  | overwrite files filesToOverwrite => some (files, filesToOverwrite)
  | _ => none

def replaced : BuilderCall V → Option (List (DataFile V))
  | replace files => some files
  | replaceWithLineage files _ => some files
  | _ => none

def lineage : BuilderCall V → Option (HashMap String String)
  | replaceWithLineage _ additionalSummary => some additionalSummary
  | _ => none

end BuilderCall

open BuilderCall

/-! ### One call for all -/

/-- The operation of one append of all files. -/
def appendBatch (branch : Option String) (calls : List (BuilderCall V)) : Option (Operation V) :=
  match calls.filterMap appended with
  | [] => none
  | first :: rest =>
    some (.append branch (first ++ rest.flatten) (calls.flatMap deletes)
      (appendSummary (first ++ rest.flatten)))

/-- The operation of one replacement by all files, with the lineage given last. -/
def replaceBatch (branch : Option String) (calls : List (BuilderCall V)) : Option (Operation V) :=
  match calls.filterMap replaced with
  | [] => none
  | first :: rest =>
    some (.replace branch (first ++ rest.flatten) (calls.filterMap lineage).getLast?)

/-- The lists of files given for a manifest, in call order. -/
def listsFor (manifest : String) (calls : List (BuilderCall V)) : List (List String) :=
  calls.filterMap fun call => (call.overwritten).bind fun given => given.2.lookup manifest

/-- An overwrite with all new files, and for each manifest the union of the lists given for it. -/
def OverwritesAll (branch : Option String) (calls : List (BuilderCall V)) :
    Option (Operation V) → Prop
  | none => calls.filterMap overwritten = []
  | some (.overwrite written files filesToOverwrite summary) =>
    calls.filterMap overwritten ≠ [] ∧ written = branch ∧
      files = (calls.filterMap overwritten).flatMap (·.1) ∧ summary = appendSummary files ∧
      ∀ manifest, (filesToOverwrite.lookup manifest).map List.toFinset =
        if listsFor manifest calls = [] then none
        else some (listsFor manifest calls).flatten.toFinset
  | some _ => False

/-- The slots are those of single calls with all files. -/
structure Batched (branch : Option String) (calls : List (BuilderCall V))
    (transaction : TableTransaction V) : Prop where
  append : transaction.operations 2 = appendBatch branch calls
  replace : transaction.operations 4 = replaceBatch branch calls
  overwrite : OverwritesAll branch calls (transaction.operations 5)

/-! ### What the calls build -/

/-- The append after calls: the summary is that of the first one. -/
def appendBuilt (branch : Option String) (calls : List (BuilderCall V)) : Option (Operation V) :=
  match calls.filterMap appended with
  | [] => none
  | first :: rest =>
    some (.append branch (first ++ rest.flatten) (calls.flatMap deletes) (appendSummary first))

/-- The replacing files that are kept: not those of a `replace` once a lineage has been given. -/
def keptReplaced : Bool → List (BuilderCall V) → List (DataFile V)
  | _, [] => []
  | late, call :: calls =>
    (if late && call.lineage.isNone then [] else call.replaced.getD []) ++
      keptReplaced (late || call.lineage.isSome) calls

def replaceBuilt (branch : Option String) (calls : List (BuilderCall V)) : Option (Operation V) :=
  match calls.filterMap replaced with
  | [] => none
  | _ => some (.replace branch (keptReplaced false calls) (calls.filterMap lineage).getLast?)

/-- The overwrite after calls: of the lists for one manifest the last is left, and the summary is
that of the first call. -/
def overwriteBuilt (branch : Option String) (calls : List (BuilderCall V)) : Option (Operation V) :=
  match calls.filterMap overwritten with
  | [] => none
  | first :: rest =>
    some (.overwrite branch (first.1 ++ rest.flatMap (·.1))
      (rest.foldl (fun map given => map.extend given.2.iter) first.2) (appendSummary first.1))

theorem keptReplaced_append (late : Bool) (first last : List (BuilderCall V)) :
    keptReplaced late (first ++ last) =
      keptReplaced late first ++ keptReplaced (late || !(first.filterMap lineage).isEmpty) last := by
  induction first generalizing late with
  | nil => simp [keptReplaced]
  | cons call first ih =>
    rw [List.cons_append, keptReplaced, keptReplaced, ih, List.append_assoc]
    cases given : call.lineage <;> simp [given]

/-- The slots after calls. -/
structure Built (branch : Option String) (calls : List (BuilderCall V))
    (transaction : TableTransaction V) : Prop where
  writes : transaction.branch = branch
  groups : transaction.operations 3 = none
  append : transaction.operations 2 = appendBuilt branch calls
  replace : transaction.operations 4 = replaceBuilt branch calls
  overwrite : transaction.operations 5 = overwriteBuilt branch calls

variable {call : BuilderCall V} {calls : List (BuilderCall V)} {transaction : TableTransaction V}
  {files : List (DataFile V)} {branch : Option String} {operation : Operation V}

theorem appendBuilt_snoc (branch : Option String) (calls : List (BuilderCall V))
    (given : call.appended = some files) :
    appendBuilt branch (calls ++ [call]) = some (match appendBuilt branch calls with
      | some (.append _ old oldDeletes summary) =>
        .append branch (old ++ files) (oldDeletes ++ call.deletes) summary
      | _ => .append branch files call.deletes (appendSummary files)) := by
  have none : calls.filterMap appended = [] → calls.flatMap deletes = [] := by
    intro none
    refine List.flatMap_eq_nil_iff.mpr fun other member => ?_
    have silent := List.filterMap_eq_nil_iff.mp none other member
    cases other <;> simp [appended] at silent <;> rfl
  simp only [appendBuilt, List.filterMap_append, List.flatMap_append, List.filterMap_cons, given,
    List.filterMap_nil, List.flatMap_singleton]
  cases before : calls.filterMap appended with
  | nil => simp [none before]
  | cons first rest => simp

theorem replaceBuilt_snoc (branch : Option String) (calls : List (BuilderCall V))
    (given : call.replaced = some files) :
    replaceBuilt branch (calls ++ [call]) = some (match replaceBuilt branch calls with
      | some (.replace _ old none) => .replace branch (old ++ files) call.lineage
      | some (.replace _ old (some summary)) =>
        .replace branch (old ++ if call.lineage.isNone then [] else files)
          (call.lineage.or (some summary))
      | _ => .replace branch files call.lineage) := by
  have none : calls.filterMap replaced = [] → keptReplaced false calls = [] ∧
      calls.filterMap lineage = [] := by
    intro none
    have silent := List.filterMap_eq_nil_iff.mp none
    clear none given
    induction calls with
    | nil => exact ⟨rfl, rfl⟩
    | cons other calls ih =>
      obtain ⟨kept, unnamed⟩ := ih fun one member => silent one (List.mem_cons_of_mem _ member)
      have here := silent other List.mem_cons_self
      cases other <;> simp_all [replaced, keptReplaced, lineage]
  simp only [replaceBuilt, List.filterMap_append, keptReplaced_append, Bool.false_or,
    List.filterMap_cons, given, List.filterMap_nil]
  cases before : calls.filterMap replaced with
  | nil =>
    obtain ⟨kept, unnamed⟩ := none before
    cases call.lineage <;> simp [kept, unnamed, keptReplaced, given]
  | cons first rest =>
    cases unnamed : (calls.filterMap lineage).getLast? with
    | none =>
      have empty := List.getLast?_eq_none_iff.mp unnamed
      cases named : call.lineage <;> simp [empty, keptReplaced, given]
    | some summary =>
      have some : (calls.filterMap lineage).isEmpty = false := by
        rw [List.isEmpty_eq_false_iff]
        rintro empty
        simp [empty] at unnamed
      cases named : call.lineage <;> simp [some, unnamed, keptReplaced, given, named]

theorem overwriteBuilt_snoc (branch : Option String) (calls : List (BuilderCall V))
    {filesToOverwrite : HashMap String (List String)}
    (given : call.overwritten = some (files, filesToOverwrite)) :
    overwriteBuilt branch (calls ++ [call]) = some (match overwriteBuilt branch calls with
      | some (.overwrite _ old map summary) =>
        .overwrite branch (old ++ files) (map.extend filesToOverwrite.iter) summary
      | _ => .overwrite branch files filesToOverwrite (appendSummary files)) := by
  simp only [overwriteBuilt, List.filterMap_append, List.filterMap_cons, given, List.filterMap_nil]
  cases calls.filterMap overwritten with
  | nil => simp
  | cons first rest => simp

theorem appendBuilt_other (branch : Option String) (calls : List (BuilderCall V))
    (silent : call.appended = none) :
    appendBuilt branch (calls ++ [call]) = appendBuilt branch calls := by
  have none : call.deletes = [] := by
    cases call <;> first | rfl | simp [appended] at silent
  simp [appendBuilt, List.filterMap_append, silent, none]

theorem replaceBuilt_other (branch : Option String) (calls : List (BuilderCall V))
    (silent : call.replaced = none) :
    replaceBuilt branch (calls ++ [call]) = replaceBuilt branch calls := by
  have none : call.lineage = none := by
    cases call <;> first | rfl | simp [replaced] at silent
  simp only [replaceBuilt, List.filterMap_append, List.filterMap_cons, silent, none,
    List.filterMap_nil, List.append_nil]
  rw [keptReplaced_append]
  simp [keptReplaced, silent]

theorem overwriteBuilt_other (branch : Option String) (calls : List (BuilderCall V))
    (silent : call.overwritten = none) :
    overwriteBuilt branch (calls ++ [call]) = overwriteBuilt branch calls := by
  simp [overwriteBuilt, List.filterMap_append, silent]

/-- The slots after an appending call that leaves an operation in the slot of appends. -/
theorem Built.appended (built : Built branch calls transaction) (same) (slot : operation.index = 2)
    (unreplaced : call.replaced = none) (kept : call.overwritten = none)
    (here : appendBuilt branch (calls ++ [call]) = some operation) :
    Built branch (calls ++ [call]) (transaction.put operation same) where
  writes := built.writes
  groups := by simp [TableTransaction.put, slot, built.groups]
  append := by simp [TableTransaction.put, slot, here]
  replace := by
    rw [replaceBuilt_other branch calls unreplaced]
    simp [TableTransaction.put, slot, built.replace]
  overwrite := by
    rw [overwriteBuilt_other branch calls kept]
    simp [TableTransaction.put, slot, built.overwrite]

/-- The slots after a replacing call that leaves an operation in the slot of replacements. -/
theorem Built.replaced (built : Built branch calls transaction) (same) (slot : operation.index = 4)
    (unappended : call.appended = none) (kept : call.overwritten = none)
    (here : replaceBuilt branch (calls ++ [call]) = some operation) :
    Built branch (calls ++ [call]) (transaction.put operation same) where
  writes := built.writes
  groups := by simp [TableTransaction.put, slot, built.groups]
  append := by
    rw [appendBuilt_other branch calls unappended]
    simp [TableTransaction.put, slot, built.append]
  replace := by simp [TableTransaction.put, slot, here]
  overwrite := by
    rw [overwriteBuilt_other branch calls kept]
    simp [TableTransaction.put, slot, built.overwrite]

theorem Built.overwritten (built : Built branch calls transaction) (same)
    (slot : operation.index = 5) (unappended : call.appended = none)
    (unreplaced : call.replaced = none)
    (here : overwriteBuilt branch (calls ++ [call]) = some operation) :
    Built branch (calls ++ [call]) (transaction.put operation same) where
  writes := built.writes
  groups := by simp [TableTransaction.put, slot, built.groups]
  append := by
    rw [appendBuilt_other branch calls unappended]
    simp [TableTransaction.put, slot, built.append]
  replace := by
    rw [replaceBuilt_other branch calls unreplaced]
    simp [TableTransaction.put, slot, built.replace]
  overwrite := by simp [TableTransaction.put, slot, here]

/-- The slots hold operations of their kinds. -/
theorem Built.kinds (built : Built transaction.branch calls transaction) :
    (∀ operation, transaction.operations 2 = some operation → ∃ old oldDeletes summary,
        operation = .append transaction.branch old oldDeletes summary) ∧
      (∀ operation, transaction.operations 4 = some operation → ∃ old summary,
        operation = .replace transaction.branch old summary) ∧
      ∀ operation, transaction.operations 5 = some operation → ∃ old map summary,
        operation = .overwrite transaction.branch old map summary := by
  refine ⟨fun operation found => ?_, fun operation found => ?_, fun operation found => ?_⟩
  · rw [built.append, appendBuilt] at found
    split at found
    · cases found
    · exact ⟨_, _, _, (Option.some.inj found).symm⟩
  · rw [built.replace, replaceBuilt] at found
    split at found
    · cases found
    · exact ⟨_, _, (Option.some.inj found).symm⟩
  · rw [built.overwrite, overwriteBuilt] at found
    split at found
    · cases found
    · exact ⟨_, _, _, (Option.some.inj found).symm⟩

/-- One more call. -/
theorem Built.step (built : Built branch calls transaction) (call : BuilderCall V) :
    ∃ after, call.perform transaction = .ok after ∧ Built branch (calls ++ [call]) after := by
  have writes := built.writes
  subst writes
  obtain ⟨appends, replaces, overwrites⟩ := built.kinds
  cases call with
  | appendData files =>
    have snoc := appendBuilt_snoc transaction.branch calls
      (rfl : (BuilderCall.appendData files).appended = some files)
    rw [← built.append] at snoc
    simp only [perform, TableTransaction.appendData, built.groups, Option.isSome_none,
      Bool.false_eq_true, if_false]
    split
    · rename_i found
      rw [found] at snoc
      exact ⟨_, rfl, built.appended _ rfl rfl rfl snoc⟩
    · rename_i found
      obtain rfl := transaction.branch_of_slot found rfl
      rw [found] at snoc
      exact ⟨_, rfl, built.appended _ rfl rfl rfl (by simpa [deletes] using snoc)⟩
    · rename_i other found
      obtain ⟨old, oldDeletes, summary, rfl⟩ := appends _ found
      exact absurd rfl (other _ _ _ _)
  | appendDelete files =>
    have snoc := appendBuilt_snoc transaction.branch calls
      (rfl : (BuilderCall.appendDelete files).appended = some [])
    rw [← built.append] at snoc
    simp only [perform, TableTransaction.appendDelete, built.groups, Option.isSome_none,
      Bool.false_eq_true, if_false]
    split
    · rename_i found
      rw [found] at snoc
      exact ⟨_, rfl, built.appended _ rfl rfl rfl snoc⟩
    · rename_i found
      obtain rfl := transaction.branch_of_slot found rfl
      rw [found] at snoc
      exact ⟨_, rfl, built.appended _ rfl rfl rfl (by simpa [deletes] using snoc)⟩
    · rename_i other found
      obtain ⟨old, oldDeletes, summary, rfl⟩ := appends _ found
      exact absurd rfl (other _ _ _ _)
  | overwrite files filesToOverwrite =>
    have snoc := overwriteBuilt_snoc transaction.branch calls
      (rfl : (BuilderCall.overwrite files filesToOverwrite).overwritten =
        some (files, filesToOverwrite))
    rw [← built.overwrite] at snoc
    refine ⟨_, rfl, ?_⟩
    simp only [TableTransaction.overwrite]
    split
    · rename_i found
      rw [found] at snoc
      exact built.overwritten _ rfl rfl rfl snoc
    · rename_i found
      obtain rfl := transaction.branch_of_slot found rfl
      rw [found] at snoc
      exact built.overwritten _ rfl rfl rfl snoc
    · rename_i other found
      obtain ⟨old, map, summary, rfl⟩ := overwrites _ found
      exact absurd rfl (other _ _ _ _)
  | replace files =>
    have snoc := replaceBuilt_snoc transaction.branch calls
      (rfl : (BuilderCall.replace files).replaced = some files)
    rw [← built.replace] at snoc
    refine ⟨_, rfl, ?_⟩
    simp only [TableTransaction.replace]
    split
    · rename_i found
      rw [found] at snoc
      exact built.replaced _ rfl rfl rfl snoc
    · rename_i found
      obtain rfl := transaction.branch_of_slot found rfl
      rw [found] at snoc
      exact built.replaced _ rfl rfl rfl snoc
    · rename_i operation other found
      obtain ⟨old, summary, rfl⟩ := replaces _ found
      cases summary with
      | none => exact absurd rfl (other _ _)
      | some summary =>
        rw [found] at snoc
        -- The call leaves the slot as it is.
        refine ⟨rfl, built.groups, ?_, ?_, ?_⟩
        · rw [appendBuilt_other _ _ rfl, built.append]
        · rw [snoc, found]
          simp [lineage]
        · rw [overwriteBuilt_other _ _ rfl, built.overwrite]
  | replaceWithLineage files additionalSummary =>
    have snoc := replaceBuilt_snoc transaction.branch calls
      (rfl : (BuilderCall.replaceWithLineage files additionalSummary).replaced = some files)
    rw [← built.replace] at snoc
    refine ⟨_, rfl, ?_⟩
    simp only [TableTransaction.replaceWithLineage]
    split
    · rename_i found
      rw [found] at snoc
      exact built.replaced _ rfl rfl rfl snoc
    · rename_i old summary found
      obtain rfl := transaction.branch_of_slot found rfl
      rw [found] at snoc
      refine built.replaced _ rfl rfl rfl (snoc.trans ?_)
      cases summary <;> simp [lineage]
    · rename_i other found
      obtain ⟨old, summary, rfl⟩ := replaces _ found
      exact absurd rfl (other _ _ _)

/-- Calls never fail, and leave these slots. -/
theorem build_built (branch : Option String) (calls : List (BuilderCall V)) :
    ∃ transaction, build branch calls = .ok transaction ∧ Built branch calls transaction := by
  induction calls using List.reverseRecOn with
  | nil => exact ⟨.new branch, rfl, rfl, rfl, rfl, rfl, rfl⟩
  | append_singleton calls call ih =>
    obtain ⟨transaction, run, built⟩ := ih
    obtain ⟨after, performed, next⟩ := built.step call
    refine ⟨after, ?_, next⟩
    rw [build] at run ⊢
    simp [List.foldlM_append, run, performed]

/-! ### Against one call -/

/-- The summary of the files given first is that of all files: no data file has been given later. -/
def SummaryKept (first rest : List (DataFile V)) : Prop :=
  rest = [] ∨ first ≠ [] ∧ dataContent rest = []

/-- What calls must meet to leave the slots of single calls: no data file is appended after the
first append, nor added after the first overwrite; nothing is replaced without a lineage once one
has been given; and the last list given for a manifest contains all earlier ones. -/
structure BatchesFiles (calls : List (BuilderCall V)) : Prop where
  append : ∀ first rest, calls.filterMap appended = first :: rest →
    SummaryKept first rest.flatten
  replace : ∀ before files after, calls = before ++ .replace files :: after →
    before.filterMap lineage ≠ [] → files = []
  added : ∀ first rest, calls.filterMap overwritten = first :: rest →
    SummaryKept first.1 (rest.flatMap (·.1))
  lists : ∀ manifest, ∀ last ∈ (listsFor manifest calls).getLast?,
    ∀ list ∈ listsFor manifest calls, list ⊆ last

theorem lookup_appendSummary (given : files ≠ []) :
    ((appendSummary files).bind fun summary => summary.lookup "added-data-files") =
      some (toString (dataContent files).length) := by
  simp only [appendSummary, List.isEmpty_eq_false_iff.mpr given, Bool.false_eq_true, if_false,
    HashMap.fromIter, List.foldl_cons, List.foldl_nil, Option.bind_some]
  exact AList.lookup_insert _

theorem appendSummary_kept {first rest : List (DataFile V)} :
    appendSummary first = appendSummary (first ++ rest) ↔ SummaryKept first rest := by
  have content : dataContent (first ++ rest) = dataContent first ++ dataContent rest := by
    simp [dataContent]
  constructor
  · intro same
    by_cases empty : first = []
    · subst empty
      refine .inl ?_
      by_contra given
      simp [appendSummary, given] at same
    · refine .inr ⟨empty, ?_⟩
      have counts := lookup_appendSummary empty
      rw [same, lookup_appendSummary (List.append_ne_nil_of_left_ne_nil empty rest), content,
        Option.some_inj, Nat.toString_eq_repr, Nat.toString_eq_repr, Nat.repr_inj,
        List.length_append] at counts
      exact List.eq_nil_of_length_eq_zero (by omega)
  · rintro (rfl | ⟨given, none⟩)
    · rw [List.append_nil]
    · have right : (first ++ rest).isEmpty = false := by simp [given]
      simp only [appendSummary, List.isEmpty_eq_false_iff.mpr given, right, content, none,
        List.append_nil]

theorem appendBuilt_batch (branch : Option String) (calls : List (BuilderCall V)) :
    appendBuilt branch calls = appendBatch branch calls ↔
      ∀ first rest, calls.filterMap appended = first :: rest → SummaryKept first rest.flatten := by
  simp only [appendBuilt, appendBatch]
  cases calls.filterMap appended with
  | nil => simp
  | cons first rest => simp [appendSummary_kept]

theorem length_keptReplaced_le (late : Bool) (calls : List (BuilderCall V)) :
    (keptReplaced late calls).length ≤ (calls.filterMap replaced).flatten.length := by
  induction calls generalizing late with
  | nil => exact le_refl _
  | cons call calls ih =>
    have rest := ih (late || call.lineage.isSome)
    rw [keptReplaced, List.filterMap_cons]
    cases call.replaced with
    | none => simpa using rest
    | some files =>
      rw [List.length_append, List.flatten_cons, List.length_append]
      split
      · simpa using Nat.le_add_left_of_le rest
      · exact Nat.add_le_add_left rest _

/-- All replacing files are kept exactly if no `replace` with files comes late. -/
theorem keptReplaced_eq_iff (late : Bool) (calls : List (BuilderCall V)) :
    keptReplaced late calls = (calls.filterMap replaced).flatten ↔
      ∀ before files after, calls = before ++ .replace files :: after →
        late = true ∨ before.filterMap lineage ≠ [] → files = [] := by
  induction calls generalizing late with
  | nil => simp [keptReplaced]
  | cons call calls ih =>
    have known : ∀ before, late = true ∨ (call :: before).filterMap lineage ≠ [] ↔
        (late || call.lineage.isSome) = true ∨ before.filterMap lineage ≠ [] := by
      intro before
      cases named : call.lineage <;> simp [named]
    have later : (∀ before files after, call :: calls = before ++ .replace files :: after →
        late = true ∨ before.filterMap lineage ≠ [] → files = []) ↔
        (∀ files, call = .replace files → late = true → files = []) ∧
        ∀ before files after, calls = before ++ .replace files :: after →
          (late || call.lineage.isSome) = true ∨ before.filterMap lineage ≠ [] → files = [] := by
      constructor
      · intro all
        refine ⟨fun files same isLate => all [] files calls (by rw [same]; rfl) (.inl isLate), ?_⟩
        rintro before files after rfl given
        exact all (call :: before) files after rfl ((known before).mpr given)
      · rintro ⟨here, rest⟩ before files after split given
        cases before with
        | nil =>
          obtain ⟨rfl, rfl⟩ := List.cons.inj split
          exact here files rfl (by simpa using given)
        | cons first before =>
          obtain ⟨rfl, rfl⟩ := List.cons.inj split
          exact rest before files after rfl ((known before).mp given)
    rw [later, ← ih, keptReplaced, List.filterMap_cons]
    have short := length_keptReplaced_le (late || call.lineage.isSome) calls
    cases call with
    | replace files =>
      cases late with
      | false => simp [replaced, lineage]
      | true =>
        simp only [lineage, Option.isNone_none, Bool.and_self, if_true, List.nil_append, replaced,
          List.flatten_cons]
        constructor
        · intro same
          have lengths := congrArg List.length same
          rw [List.length_append] at lengths
          simp only [Bool.true_or] at short lengths
          have empty : files = [] := List.eq_nil_of_length_eq_zero (by omega)
          exact ⟨fun _ given _ => by cases given; exact empty, by simpa [empty] using same⟩
        · rintro ⟨here, rest⟩
          rw [here files rfl trivial, List.nil_append]
          exact rest
    | _ => simp [replaced, lineage]

theorem replaceBuilt_batch (branch : Option String) (calls : List (BuilderCall V)) :
    replaceBuilt branch calls = replaceBatch branch calls ↔
      ∀ before files after, calls = before ++ .replace files :: after →
        before.filterMap lineage ≠ [] → files = [] := by
  have kept := keptReplaced_eq_iff false calls
  simp only [Bool.false_eq_true, false_or] at kept
  rw [← kept]
  simp only [replaceBuilt, replaceBatch]
  have short := length_keptReplaced_le false calls
  cases given : calls.filterMap replaced with
  | nil =>
    rw [given] at short
    simpa using short
  | cons first rest => simp

/-- The list an overwrite is left with for a manifest is the last one given. -/
theorem lookup_foldl_extend (manifest : String)
    (first : List (DataFile V) × HashMap String (List String))
    (rest : List (List (DataFile V) × HashMap String (List String))) :
    (rest.foldl (fun map given => map.extend given.2.iter) first.2).lookup manifest =
      ((first :: rest).filterMap fun given => given.2.lookup manifest).getLast? := by
  induction rest using List.reverseRecOn with
  | nil => cases found : first.2.lookup manifest <;> simp [found]
  | append_singleton rest last ih =>
    rw [List.foldl_append, ← List.cons_append, List.filterMap_append, List.getLast?_append, ← ih]
    refine (HashMap.lookup_extend_iter _ _ _).trans ?_
    cases found : last.2.lookup manifest <;> simp [found]

theorem listsFor_eq (manifest : String) (calls : List (BuilderCall V)) :
    listsFor manifest calls =
      (calls.filterMap overwritten).filterMap fun given => given.2.lookup manifest := by
  rw [List.filterMap_filterMap]
  rfl

/-- The last of several lists has the elements of all of them exactly if it contains each. -/
theorem getLast_toFinset_iff (lists : List (List String)) :
    lists.getLast?.map List.toFinset =
        (if lists = [] then none else some lists.flatten.toFinset) ↔
      ∀ last ∈ lists.getLast?, ∀ list ∈ lists, list ⊆ last := by
  cases found : lists.getLast? with
  | none => simp [List.getLast?_eq_none_iff.mp found]
  | some last =>
    have member : last ∈ lists := List.mem_of_getLast? found
    rw [if_neg (List.ne_nil_of_mem member)]
    simp only [Option.map_some, Option.some_inj, Option.mem_some_iff, forall_eq']
    constructor
    · intro same list within name named
      have everywhere : name ∈ lists.flatten.toFinset :=
        List.mem_toFinset.mpr (List.mem_flatten_of_mem within named)
      exact List.mem_toFinset.mp (same ▸ everywhere)
    · intro contains
      ext name
      rw [List.mem_toFinset, List.mem_toFinset, List.mem_flatten]
      exact ⟨fun named => ⟨last, member, named⟩, fun ⟨list, within, named⟩ =>
        contains list within named⟩

theorem overwriteBuilt_batch (branch : Option String) (calls : List (BuilderCall V)) :
    OverwritesAll branch calls (overwriteBuilt branch calls) ↔
      (∀ first rest, calls.filterMap overwritten = first :: rest →
        SummaryKept first.1 (rest.flatMap (·.1))) ∧
      ∀ manifest, ∀ last ∈ (listsFor manifest calls).getLast?,
        ∀ list ∈ listsFor manifest calls, list ⊆ last := by
  simp only [← getLast_toFinset_iff, listsFor_eq, overwriteBuilt]
  cases given : calls.filterMap overwritten with
  | nil => simp [OverwritesAll, given]
  | cons first rest =>
    simp only [OverwritesAll, given, ne_eq, reduceCtorEq, not_false_eq_true, true_and,
      List.flatMap_cons, lookup_foldl_extend, listsFor_eq, appendSummary_kept, List.cons.injEq,
      and_imp, forall_apply_eq_imp_iff, forall_eq']

/-- Any calls build a transaction, and its slots are those of single calls with all files exactly
if the calls batch their files. -/
theorem batched_iff (branch : Option String) (calls : List (BuilderCall V)) :
    ∃ transaction, build branch calls = .ok transaction ∧
      (Batched branch calls transaction ↔ BatchesFiles calls) := by
  obtain ⟨transaction, run, built⟩ := build_built branch calls
  refine ⟨transaction, run, ?_⟩
  have append := appendBuilt_batch branch calls
  have replace := replaceBuilt_batch branch calls
  have overwrite := overwriteBuilt_batch branch calls
  rw [← built.append] at append
  rw [← built.replace] at replace
  rw [← built.overwrite] at overwrite
  constructor
  · rintro ⟨appends, replaces, overwrites⟩
    obtain ⟨added, lists⟩ := overwrite.mp overwrites
    exact ⟨append.mp appends, replace.mp replaces, added, lists⟩
  · rintro ⟨appends, replaces, added, lists⟩
    exact ⟨append.mpr appends, replace.mpr replaces, overwrite.mpr ⟨added, lists⟩⟩

/-- A file of a `replace` that comes after a `replace_with_lineage` is in no operation. -/
theorem late_replacement_dropped :
    ∃ transaction, build none [.replaceWithLineage [longFile "a" 1] ∅, .replace [longFile "b" 1]] =
        .ok transaction ∧
      ¬ Batched none [.replaceWithLineage [longFile "a" 1] ∅, .replace [longFile "b" 1]]
        transaction := by
  refine ⟨_, rfl, fun batched => ?_⟩
  have files := Option.some.inj batched.replace
  injection files with _ files
  exact absurd (congrArg List.length files) (by decide)

end IcebergRust
