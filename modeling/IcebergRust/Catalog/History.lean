import IcebergRust.Lib.Optimistic
import IcebergRust.Transaction.Prepared

/-!
# Clients and a catalog

The transactions of any number of clients against one table, as an optimistic protocol:
each client prepares a transaction from some committed metadata, and the catalog accepts
what it is sent if `checkTableRequirements` holds of its current metadata and
`applyTableUpdates` succeeds on it.

* `tableProtocol` is the instance; the clients share the object store.
* `TableHistory.accepted_spec` is all the later results use of an accepted commit.
-/

namespace IcebergRust

open Fallible TableTransaction Optimistic

/-- What a client asks for: a transaction, and what its operations draw from outside. -/
structure CommitRequest (V : Type) where
  transaction : TableTransaction V
  identifier : String
  entropy : Nat → Entropy

variable {V : Type}

/-- The request to perform one operation, with everything it draws. -/
def CommitRequest.single (operation : Operation V) (snapshotId : Int) (uuid : String) :
    CommitRequest V where
  transaction := (TableTransaction.new (operation.branch.getD none)).put operation
    (fun written writes => by simp [TableTransaction.new, writes])
  identifier := "table"
  entropy := fun _ => ⟨snapshotId, uuid, uuid, snapshotId⟩

/-- Preparing a request in the object store, and applying it at some time. -/
def tableProtocol (V : Type) [PartitionValue V] :
    Protocol TableMetadata (Store V) (CommitRequest V) CommitTable Int where
  prepare request base store :=
    (request.transaction.prepare base store request.identifier request.entropy).toOption
  apply commit now metadata :=
    if checkTableRequirements commit.requirements metadata then
      (applyTableUpdates metadata commit.updates now).toOption
    else none

/-- The clients and the catalog of one table. -/
abbrev TableState (V : Type) := State TableMetadata (Store V) (CommitRequest V) CommitTable Int

abbrev AcceptedCommit (V : Type) := Accepted TableMetadata (CommitRequest V) CommitTable Int

abbrev TableEvent (V : Type) := Event (CommitRequest V) Int

/-- The transaction of an accepted commit. -/
def transactionOf (entry : AcceptedCommit V) : TableTransaction V :=
  entry.proposal.request.transaction

/-- The updates of an accepted commit. -/
def updatesSent (entry : AcceptedCommit V) : List TableUpdate := entry.proposal.commit.updates

/-- Everything known of an accepted commit: where it was prepared, what it sent, and that the
catalog has checked and applied it. -/
structure AcceptedSpec (entry : AcceptedCommit V) (performed : List (Performed V)) : Prop where
  prepared : PreparedFrom entry.proposal.base entry.proposal.request.entropy (transactionOf entry)
    entry.proposal.commit performed
  checked : checkTableRequirements entry.proposal.commit.requirements entry.current = true
  applied : applyTableUpdates entry.current (updatesSent entry) entry.environment = .ok entry.next

variable {entry : AcceptedCommit V}

theorem AcceptedSpec.effect {performed : List (Performed V)} (spec : AcceptedSpec entry performed) :
    Effect entry.current entry.next (updatesOf performed) := by
  have effect := applyTableUpdates_effect spec.applied
  rwa [updatesSent, spec.prepared.updates] at effect

variable [PartitionValue V]

/-- The state of a table after events, from its initial metadata and objects. -/
def runTable (initial : TableMetadata) (store : Store V) (events : List (TableEvent V)) :
    TableState V :=
  run (tableProtocol V) (.start initial store) events

abbrev TableHistory (V : Type) [PartitionValue V] := History (tableProtocol V)

theorem tableProtocol_apply_eq_some {commit : CommitTable} {now : Int}
    {metadata next : TableMetadata} :
    (tableProtocol V).apply commit now metadata = some next ↔
      checkTableRequirements commit.requirements metadata = true ∧
        applyTableUpdates metadata commit.updates now = .ok next := by
  simp only [tableProtocol]
  split
  · rename_i holds
    simp [holds, toOption_eq_some]
  · rename_i fails
    simp [fails]

/-- A commit accepted in a history has all these properties. -/
theorem TableHistory.accepted_spec {initial : TableMetadata} {later past : List (AcceptedCommit V)}
    (history : TableHistory V initial (later ++ entry :: past)) :
    entry.current = latest initial past ∧ entry.proposal.base ∈ versions initial past ∧
      ∃ performed, AcceptedSpec entry performed := by
  obtain ⟨here, known, ⟨before, after, prepared⟩, applied⟩ := history.entry_spec
  obtain ⟨performed, sent⟩ := prepare_preparedFrom (toOption_eq_some.mp prepared)
  obtain ⟨checked, applied⟩ := tableProtocol_apply_eq_some.mp applied
  exact ⟨here, known, performed, sent, checked, applied⟩

theorem TableHistory.spec_of_mem {initial : TableMetadata} {accepted : List (AcceptedCommit V)}
    (history : TableHistory V initial accepted) (member : entry ∈ accepted) :
    ∃ performed, AcceptedSpec entry performed := by
  obtain ⟨later, past, rfl⟩ := List.append_of_mem member
  exact (accepted_spec history).2.2

/-- The accepted commits of a run form a history. -/
theorem runTable_history (initial : TableMetadata) (store : Store V)
    (events : List (TableEvent V)) :
    TableHistory V initial (runTable initial store events).accepted :=
  history_run initial store events

end IcebergRust
