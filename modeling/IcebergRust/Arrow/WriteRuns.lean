import IcebergRust.Arrow.Agreement
import IcebergRust.Arrow.WritePartitioned
import IcebergRust.Spec.LongValue

/-!
# Every run of a write

What `store_parquet_partitioned` has written when it returns, whatever the order in which its
writers make progress.

* `Task.Sound` relates a writer to what was sent to it; `Holds` adds what the coordinator keeps, and
  every step keeps it (`Holds.step`).
* `Conserves` is what the files of a successful write have, by `Holds.conserves`.
* A write panics where a batch comes up for a writer that has failed, and there only
  (`sound_iff_alive`).
-/

namespace IcebergRust.Arrow

open Fallible Grouping Routing

/-! ### Writers -/

/-- The rows that were sent to a writer. -/
def Task.rows (task : Task) : List Row := task.sent.flatMap (·.rows)

/-- How a writer relates to what was sent to it: it wrote the batches it took, and the others are in
its channel. -/
def Task.Sound (context : FileContext) (task : Task) : Prop :=
  match task.status with
  | .starting => task.sent = task.inbox.messages
  | .writing state held => ∃ taken,
      (startWriter context >>= fun start => taken.foldlM (WriterState.write context) start) =
        .ok state ∧
      task.sent = taken ++ (held.toList ++ task.inbox.messages)
  | .done files =>
      writeParquetFiles context (task.sent.map .ok) = .ok files ∧ task.inbox.isOpen = false
  | .failed _ => task.inbox.isOpen = false

/-- A writer can be sent to, or it has failed. -/
def Task.Reached (task : Task) : Prop := task.inbox.isOpen = true ∨ task.failure ≠ none

namespace Task

variable {context : FileContext} {task : Task} {batch : RecordBatch}

theorem sound_spawn (values : List (Option Value)) (batch : RecordBatch) :
    (spawn values batch).Sound context := rfl

/-- What is sent to a writer that still receives is in its channel. -/
theorem Sound.receive (sound : task.Sound context) (isOpen : task.inbox.isOpen = true) :
    (task.receive batch).Sound context := by
  unfold Sound at sound ⊢
  dsimp only [Task.receive]
  cases status : task.status with
  | starting =>
    rw [status] at sound
    exact congrArg (· ++ [batch]) sound
  | writing state held =>
    rw [status] at sound
    obtain ⟨taken, wrote, sent⟩ := sound
    refine ⟨taken, wrote, ?_⟩
    rw [sent, Channel.messages_push, List.append_assoc, List.append_assoc]
  | done files =>
    rw [status] at sound
    exact absurd (isOpen.symm.trans sound.2) (by decide)
  | failed error =>
    rw [status] at sound
    exact absurd (isOpen.symm.trans sound) (by decide)

theorem Sound.closeInbox (sound : task.Sound context) : task.closeInbox.Sound context := by
  unfold Sound at sound ⊢
  dsimp only [Task.closeInbox]
  cases status : task.status with
  | starting =>
    rw [status] at sound
    exact sound
  | writing state held =>
    rw [status] at sound
    exact sound
  | done files =>
    rw [status] at sound
    exact ⟨sound.1, rfl⟩
  | failed error => rfl

/-- A step that fails drops the receiver. -/
theorem Sound.settle {result : Except WriteError Status}
    (sound : ∀ status, result = .ok status → { task with status }.Sound context) :
    (task.settle result).Sound context := by
  cases result with
  | ok status => exact sound status rfl
  | error error => exact (rfl : task.inbox.close.isOpen = false)

/-- A step of a writer. -/
theorem Sound.advance (sound : task.Sound context) : (task.advance context).Sound context := by
  unfold Task.advance
  cases status : task.status with
  | starting =>
    dsimp only
    apply Sound.settle
    intro next run
    obtain ⟨state, started, rfl⟩ := map_eq_ok.mp run
    unfold Sound at sound
    rw [status] at sound
    refine ⟨[], ?_, sound⟩
    rw [started]
    rfl
  | writing state held =>
    unfold Sound at sound
    rw [status] at sound
    obtain ⟨taken, wrote, sent⟩ := sound
    cases held with
    | some batch =>
      apply Sound.settle
      intro next run
      obtain ⟨after, written, rfl⟩ := map_eq_ok.mp run
      refine ⟨taken ++ [batch], ?_, ?_⟩
      · obtain ⟨start, started, folded⟩ := bind_eq_ok.mp wrote
        rw [started, ok_bind, List.foldlM_append, folded, ok_bind]
        exact foldlM_cons_eq_ok.mpr ⟨after, written, rfl⟩
      · rw [sent, List.append_assoc]
        rfl
    | none =>
      dsimp only
      cases messages : task.inbox.messages with
      | cons batch rest =>
        refine ⟨taken, wrote, ?_⟩
        rw [sent, messages]
        rfl
      | nil =>
        dsimp only
        rw [messages, List.append_nil] at sent
        split
        · unfold Sound
          rw [status]
          refine ⟨taken, wrote, ?_⟩
          rw [sent, messages, List.append_nil]
        · rename_i closed
          apply Sound.settle
          intro next run
          obtain ⟨files, finished, rfl⟩ := map_eq_ok.mp run
          refine ⟨?_, by simpa using closed⟩
          obtain ⟨start, started, folded⟩ := bind_eq_ok.mp wrote
          have all : task.sent = taken := by rw [sent]; exact List.append_nil _
          unfold writeParquetFiles
          dsimp only
          rw [started, ok_bind, foldlM_write, all, folded, ok_bind, finished]
  | done files => exact sound
  | failed error => exact sound

/-- What no step of a writer changes. -/
theorem advance_keeps (context : FileContext) (task : Task) :
    (task.advance context).values = task.values ∧ (task.advance context).sent = task.sent ∧
      (task.advance context).joined = task.joined ∧
      (task.Reached → (task.advance context).Reached) := by
  have settles (result : Except WriteError Status) (unfailed : task.failure = none) :
      (task.settle result).values = task.values ∧ (task.settle result).sent = task.sent ∧
        (task.settle result).joined = task.joined ∧
        (task.Reached → (task.settle result).Reached) := by
    cases result with
    | ok status =>
      refine ⟨rfl, rfl, rfl, fun reached => .inl ?_⟩
      exact reached.resolve_right fun failed => failed unfailed
    | error error => exact ⟨rfl, rfl, rfl, fun _ => .inr (by simp [settle, failure])⟩
  unfold advance
  cases status : task.status with
  | starting => exact settles _ (by rw [failure, status])
  | writing state held =>
    have unfailed : task.failure = none := by rw [failure, status]
    cases held with
    | some batch => exact settles _ unfailed
    | none =>
      dsimp only
      cases messages : task.inbox.messages with
      | cons batch rest =>
        refine ⟨rfl, rfl, rfl, fun reached => .inl ?_⟩
        exact reached.resolve_right fun failed => failed unfailed
      | nil =>
        dsimp only
        split
        · exact ⟨rfl, rfl, rfl, id⟩
        · exact settles _ unfailed
  | done files => exact ⟨rfl, rfl, rfl, id⟩
  | failed error => exact ⟨rfl, rfl, rfl, id⟩

/-- A writer that is done or has failed makes no further step. -/
theorem advance_done {files : List WrittenFile} (done : task.status = .done files) :
    task.advance context = task := by
  unfold advance
  rw [done]

theorem advance_failed {error : WriteError} (failed : task.failure = some error) :
    task.advance context = task := by
  unfold failure at failed
  unfold advance
  cases status : task.status with
  | failed _ => rfl
  | _ => simp [status] at failed

theorem Sound.closed_of_failed (sound : task.Sound context) (failed : task.failure ≠ none) :
    task.inbox.isOpen = false := by
  unfold Sound at sound
  unfold failure at failed
  cases status : task.status with
  | failed _ =>
    rw [status] at sound
    exact sound
  | _ =>
    rw [status] at failed
    exact absurd rfl failed

end Task

/-! ### The system -/

/-- A row has the given partition values. -/
def OwnsRow (kernels : Kernels) (fields : List BoundPartitionField) (row : Row)
    (values : List (Option Value)) : Prop :=
  partitionTuple kernels fields row = .ok values

/-- The rows that were sent to the writers. -/
def System.logs (system : System) : List (List (Option Value) × List Row) :=
  system.tasks.map fun task => (task.values, task.rows)

/-- The files a writer has handed out. -/
def Task.delivered (task : Task) : List WrittenFile := if task.joined then task.files else []

/-- A sender leads to a writer of its partition, which can be sent to unless it has failed. -/
def Leads (tasks : List Task) (entry : List (Option Value) × Nat) : Prop :=
  ∃ task, tasks[entry.2]? = some task ∧ task.values = entry.1 ∧ task.Reached

/-- The writer that has the sender of a partition has failed. -/
def System.failedFor (system : System) (values : List (Option Value)) : Bool :=
  ((system.senders.getMut values).bind fun found => system.tasks[found.1]?).any
    (·.failure.isSome)

/-- No group comes up for a writer that has failed. -/
def System.alive (system : System) : Bool :=
  match system.phase with
  | .reading (.ok group :: _) _ => !system.failedFor group.1
  | _ => true

section Runs

variable (context : StoreContext) (prepared : Prepared)
  (stream : List (Except ArrowError RecordBatch))

/-- While the stream is read: what came of it so far is with the writers, but for the groups that
are left. -/
structure Feeding (results : List (Except ArrowError (List (Option Value) × RecordBatch)))
    (rest : List (Except ArrowError RecordBatch)) (system : System) : Prop where
  routed : ∃ (batches : List RecordBatch) (earlier current : List Row)
    (pieces : List (List (Option Value) × RecordBatch)),
    stream = batches.map .ok ++ rest ∧ batches.flatMap (·.rows) = earlier ++ current ∧
    results = pieces.map .ok ∧
    Routed (OwnsRow context.libraries.kernels prepared.partitionFields) earlier current
      (pieces.map fun piece => (piece.1, piece.2.rows)) system.logs
  senders : ∀ entry ∈ system.senders.entries, Leads system.tasks entry
  unjoined : ∀ task ∈ system.tasks, task.joined = false

/-- After the stream: the writers have all of it, and the files are those of the joined ones. -/
structure Joining (files : List WrittenFile) (system : System) : Prop where
  routed : ∃ (batches : List RecordBatch) (earlier current : List Row),
    stream = batches.map .ok ∧ batches.flatMap (·.rows) = earlier ++ current ∧
    Routed (OwnsRow context.libraries.kernels prepared.partitionFields) earlier current []
      system.logs
  delivered : files.Perm (system.tasks.flatMap Task.delivered)
  joined : ∀ task ∈ system.tasks, task.joined = true → ∃ files, task.status = .done files

/-- What a phase promises. -/
def Promise (system : System) : Phase → Prop
  | .reading results rest => Feeding context prepared stream results rest system
  | .joining files => Joining context prepared stream files system
  | .returned (.ok files) => Joining context prepared stream files system ∧
      ∀ task ∈ system.tasks, task.joined = true
  | .returned (.error _) | .panicked => True

/-- Every writer wrote what was sent to it. -/
def AllSound (tasks : List Task) : Prop :=
  ∀ (number : Nat) (task : Task), tasks[number]? = some task →
    task.Sound (prepared.writer context number task.values)

/-- What every step keeps. -/
structure Holds (system : System) : Prop where
  sound : AllSound context prepared system.tasks
  promise : Promise context prepared stream system system.phase

end Runs

/-! ### Lists of writers -/

/-- A list whose element at a place changes, under a function. -/
theorem map_modify_at {α β : Type} {f : α → α} {g : α → β} {h : β → β} {xs : List α} {i : Nat}
    (here : ∀ x, xs[i]? = some x → g (f x) = h (g x)) :
    (xs.modify i f).map g = (xs.map g).modify i h := by
  apply List.ext_getElem?
  intro j
  rw [List.getElem?_map, List.getElem?_modify, List.getElem?_modify, List.getElem?_map]
  cases found : xs[j]? with
  | none => rfl
  | some x =>
    by_cases same : i = j
    · subst same
      simp [here x found]
    · simp [same]

/-- A function that does not see the change. -/
theorem map_modify_eq {α β : Type} {f : α → α} {g : α → β} {xs : List α} {i : Nat}
    (here : ∀ x, xs[i]? = some x → g (f x) = g x) : (xs.modify i f).map g = xs.map g := by
  rw [map_modify_at (h := id) here, List.modify_id]

/-- An element of a changed list is the changed one, or was there before. -/
theorem getElem?_modify_cases {α : Type} {f : α → α} {xs : List α} {i j : Nat} {x : α}
    (found : (xs.modify i f)[j]? = some x) :
    (i = j ∧ ∃ before, xs[i]? = some before ∧ x = f before) ∨ (i ≠ j ∧ xs[j]? = some x) := by
  rw [List.getElem?_modify] at found
  obtain ⟨before, there, made⟩ := Option.map_eq_some_iff.mp found
  by_cases same : i = j
  · subst same
    rw [if_pos rfl] at made
    exact .inl ⟨rfl, before, there, made.symm⟩
  · rw [if_neg same] at made
    exact .inr ⟨same, made ▸ there⟩

theorem mem_modify_cases {α : Type} {f : α → α} {xs : List α} {i : Nat} {x : α}
    (member : x ∈ xs.modify i f) :
    (∃ before, xs[i]? = some before ∧ x = f before) ∨ x ∈ xs := by
  obtain ⟨j, found⟩ := List.mem_iff_getElem?.mp member
  rcases getElem?_modify_cases found with ⟨-, here⟩ | ⟨-, there⟩
  · exact .inl here
  · exact .inr (List.mem_of_getElem? there)

section Modify

variable {context : StoreContext} {prepared : Prepared} {tasks : List Task} {number : Nat}
  {f : Task → Task}

theorem AllSound.modify (sound : AllSound context prepared tasks)
    (keeps : ∀ task, tasks[number]? = some task →
      task.Sound (prepared.writer context number task.values) →
      (f task).Sound (prepared.writer context number (f task).values)) :
    AllSound context prepared (tasks.modify number f) := by
  intro other task found
  rcases getElem?_modify_cases found with ⟨rfl, before, here, rfl⟩ | ⟨-, there⟩
  · exact keeps before here (sound number before here)
  · exact sound other task there

theorem AllSound.append (sound : AllSound context prepared tasks) {task : Task}
    (last : ∀ context, task.Sound context) : AllSound context prepared (tasks ++ [task]) := by
  intro other found inside
  rw [List.getElem?_append] at inside
  split at inside
  · exact sound other found inside
  · obtain ⟨_, here⟩ := List.getElem?_eq_some_iff.mp inside
    rw [List.getElem_singleton] at here
    rw [← here]
    exact last _

/-- A sender leads where it led. -/
theorem Leads.modify {entry : List (Option Value) × Nat} (leads : Leads tasks entry)
    (keeps : ∀ task, tasks[number]? = some task → number = entry.2 →
      (f task).values = task.values ∧ (task.Reached → (f task).Reached)) :
    Leads (tasks.modify number f) entry := by
  obtain ⟨task, here, values, reached⟩ := leads
  by_cases same : number = entry.2
  · obtain ⟨values', reached'⟩ := keeps task (same ▸ here) same
    refine ⟨f task, ?_, values'.trans values, reached' reached⟩
    rw [List.getElem?_modify, here]
    simp [same]
  · refine ⟨task, ?_, values, reached⟩
    rw [List.getElem?_modify, here]
    simp [same]

theorem Leads.append {entry : List (Option Value) × Nat} (leads : Leads tasks entry)
    (task : Task) : Leads (tasks ++ [task]) entry := by
  obtain ⟨led, here, rest⟩ := leads
  have within := (List.getElem?_eq_some_iff.mp here).1
  exact ⟨led, (List.getElem?_append_left within).trans here, rest⟩

/-- The rows that were sent to the writers, where nothing is sent. -/
theorem logs_modify (keeps : ∀ task, tasks[number]? = some task →
    (f task).values = task.values ∧ (f task).sent = task.sent) :
    ((tasks.modify number f).map fun task => (task.values, task.rows)) =
      tasks.map fun task => (task.values, task.rows) := by
  apply map_modify_eq
  intro task here
  obtain ⟨values, sent⟩ := keeps task here
  rw [values, Task.rows, sent, Task.rows]

end Modify

/-! ### Every step -/

section Steps

variable {context : StoreContext} {prepared : Prepared}
  {stream : List (Except ArrowError RecordBatch)} {system : System}

/-- Nothing was read yet. -/
theorem holds_start : Holds context prepared stream (.start stream) where
  sound number task found := by cases found
  promise := by
    constructor
    · exact ⟨[], [], [], [], rfl, rfl, rfl, routed_start⟩
    · intro entry member
      cases member
    · intro task member
      cases member

/-- A step of a writer changes nothing that was sent. -/
theorem Holds.writer (holds : Holds context prepared stream system) (number : Nat) :
    Holds context prepared stream (system.step context prepared (.writer number)) := by
  simp only [System.step]
  split
  · exact holds
  · rename_i running
    have logs := @logs_modify system.tasks number
      (fun task => task.advance (prepared.writer context number task.values)) fun task _ =>
        have keeps := task.advance_keeps (prepared.writer context number task.values)
        ⟨keeps.1, keeps.2.1⟩
    constructor
    · apply holds.sound.modify
      intro task _ sound
      rw [(task.advance_keeps _).1]
      exact sound.advance
    · have promise := holds.promise
      dsimp only
      cases phase : system.phase with
      | reading results rest =>
        rw [phase] at promise
        obtain ⟨routed, senders, unjoined⟩ := promise
        constructor
        · unfold System.logs
          rw [logs]
          exact routed
        · intro entry member
          apply (senders entry member).modify
          intro task _ _
          have keeps := task.advance_keeps (prepared.writer context number task.values)
          exact ⟨keeps.1, keeps.2.2.2⟩
        · intro task member
          rcases mem_modify_cases member with ⟨before, here, rfl⟩ | there
          · rw [(before.advance_keeps _).2.2.1]
            exact unjoined before (List.mem_of_getElem? here)
          · exact unjoined task there
      | joining files =>
        rw [phase] at promise
        obtain ⟨routed, delivered, joined⟩ := promise
        have idle : ∀ task ∈ system.tasks, task.joined = true →
            task.advance (prepared.writer context number task.values) = task := by
          intro task member here
          obtain ⟨files, done⟩ := joined task member here
          exact Task.advance_done done
        constructor
        · unfold System.logs
          rw [logs]
          exact routed
        · rw [List.flatMap_def, map_modify_eq, ← List.flatMap_def]
          · exact delivered
          · intro task here
            unfold Task.delivered
            rw [(task.advance_keeps _).2.2.1]
            split
            · rename_i joined'
              rw [idle task (List.mem_of_getElem? here) joined']
            · rfl
        · intro task member here
          rcases mem_modify_cases member with ⟨before, there, rfl⟩ | there
          · have member' := List.mem_of_getElem? there
            rw [(before.advance_keeps _).2.2.1] at here
            rw [idle before member' here]
            exact joined before member' here
          · exact joined task there here
      | returned result =>
        unfold System.isOver at running
        rw [phase] at running
        exact absurd rfl running
      | panicked => exact trivial

/-- A writer that is joined has its files added to those of the others. -/
theorem Joining.join {files written : List WrittenFile} {number : Nat} {task : Task}
    (joining : Joining context prepared stream files system)
    (here : system.tasks[number]? = some task) (unjoined : task.joined = false)
    (done : task.status = .done written) :
    Joining context prepared stream (files ++ written)
      { system with
        phase := .joining (files ++ written)
        tasks := system.tasks.modify number Task.markJoined } := by
  obtain ⟨routed, delivered, joined⟩ := joining
  constructor
  · unfold System.logs
    dsimp only
    rw [logs_modify (f := Task.markJoined) fun _ _ => ⟨rfl, rfl⟩]
    exact routed
  · have added : (system.tasks.modify number Task.markJoined).map
          (fun task => ((), task.delivered)) =
        (system.tasks.map fun task => ((), task.delivered)).modify number
          fun kept => (kept.1, kept.2 ++ written) := by
      apply map_modify_at
      intro other found
      obtain rfl := Option.some.inj (here.symm.trans found)
      have nothing : task.delivered = [] := by simp [Task.delivered, unjoined]
      have all : task.markJoined.delivered = written := by
        simp [Task.delivered, Task.markJoined, Task.files, done]
      rw [nothing, all, List.nil_append]
    have contents_ (tasks : List Task) : contents (tasks.map fun task => ((), task.delivered)) =
        tasks.flatMap Task.delivered := List.flatMap_map _ _ _
    have within : number < (system.tasks.map fun task => ((), task.delivered)).length := by
      rw [List.length_map]
      exact (List.getElem?_eq_some_iff.mp here).1
    rw [← contents_, added]
    refine ((delivered.append_right written).trans ?_).trans (contents_modify within written).symm
    rw [contents_]
  · intro other member joined'
    rcases mem_modify_cases member with ⟨before, found, rfl⟩ | there
    · obtain rfl := Option.some.inj (here.symm.trans found)
      exact ⟨written, done⟩
    · exact joined other there joined'

theorem Holds.join (holds : Holds context prepared stream system) (number : Nat) :
    Holds context prepared stream (system.join number) := by
  unfold System.join
  split
  · rename_i files task phase here
    have promise := holds.promise
    rw [phase] at promise
    split
    · rename_i written unjoined done
      constructor
      · exact holds.sound.modify fun task _ sound => sound
      · exact promise.join here unjoined done
    · exact ⟨holds.sound, trivial⟩
    · exact holds
  · exact holds

/-! ### Senders -/

theorem AllSound.closeInbox (sound : AllSound context prepared system.tasks) (number : Nat) :
    AllSound context prepared (system.tasks.modify number Task.closeInbox) :=
  sound.modify fun _ _ sound => sound.closeInbox

variable {results groups : List (Except ArrowError (List (Option Value) × RecordBatch))}
  {rest : List (Except ArrowError RecordBatch)}

/-- Closing the sender used least recently leaves the other ones as they are. -/
theorem Holds.evict (holds : Holds context prepared stream system)
    (feeding : Feeding context prepared stream results rest system) :
    AllSound context prepared (system.evict context).tasks ∧
      Feeding context prepared stream results rest (system.evict context) := by
  unfold System.evict
  split
  · cases last : system.senders.entries.getLast? with
    | none =>
      refine ⟨holds.sound, feeding.routed, fun entry member => ?_, feeding.unjoined⟩
      exact feeding.senders entry (LruCache.mem_popLru member)
    | some gone =>
      refine ⟨holds.sound.closeInbox gone.2, ?_, fun entry member => ?_, fun task member => ?_⟩
      · unfold System.logs
        dsimp only
        rw [logs_modify (f := Task.closeInbox) fun _ _ => ⟨rfl, rfl⟩]
        exact feeding.routed
      · have other := LruCache.ne_of_mem_popLru last member
        apply (feeding.senders entry (LruCache.mem_popLru member)).modify
        -- The two senders are of different partitions, and so are their writers.
        intro task here same
        obtain ⟨led, there, values, -⟩ :=
          feeding.senders gone (List.mem_of_getLast? last)
        obtain ⟨led', there', values', -⟩ :=
          feeding.senders entry (LruCache.mem_popLru member)
        rw [← same] at there'
        obtain rfl := Option.some.inj (there.symm.trans there')
        exact absurd (values'.symm.trans values) other
      · rcases mem_modify_cases member with ⟨before, here, rfl⟩ | there
        · exact feeding.unjoined before (List.mem_of_getElem? here)
        · exact feeding.unjoined task there
  · exact ⟨holds.sound, feeding⟩

/-- After the stream the writers have all of it. -/
theorem Holds.close (holds : Holds context prepared stream system)
    (feeding : Feeding context prepared stream [] [] system) :
    Holds context prepared stream ⟨.joining [], .unbounded, system.closeSenders⟩ := by
  obtain ⟨⟨batches, earlier, current, pieces, streamed, rows, none_, routed⟩, -, unjoined⟩ :=
    feeding
  obtain rfl : pieces = [] := List.map_eq_nil_iff.mp none_.symm
  -- Closing one sender after the other changes nothing but the channels.
  have closed : AllSound context prepared system.closeSenders ∧
      (system.closeSenders.map fun task => (task.values, task.rows)) = system.logs ∧
      ∀ task ∈ system.closeSenders, task.joined = false := by
    unfold System.closeSenders
    generalize system.senders.entries.reverse = entries
    have start : AllSound context prepared system.tasks ∧
        (system.tasks.map fun task => (task.values, task.rows)) = system.logs ∧
        ∀ task ∈ system.tasks, task.joined = false := ⟨holds.sound, rfl, unjoined⟩
    generalize system.tasks = tasks at start
    induction entries generalizing tasks with
    | nil => exact start
    | cons entry entries ih =>
      apply ih
      obtain ⟨sound, logs, unjoined⟩ := start
      refine ⟨sound.modify fun _ _ sound => sound.closeInbox, ?_, fun task member => ?_⟩
      · rw [logs_modify (f := Task.closeInbox) fun _ _ => ⟨rfl, rfl⟩]
        exact logs
      · rcases mem_modify_cases member with ⟨before, here, rfl⟩ | there
        · exact unjoined before (List.mem_of_getElem? here)
        · exact unjoined task there
  obtain ⟨sound, logs, unjoined⟩ := closed
  refine ⟨sound, ⟨batches, earlier, current, ?_, rows, ?_⟩, ?_, fun task member joined => ?_⟩
  · rw [streamed, List.append_nil]
  · unfold System.logs
    rw [logs]
    exact routed
  · rw [List.flatMap_eq_nil_iff.mpr]
    intro task member
    simp [Task.delivered, unjoined task member]
  · rw [unjoined task member] at joined
    cases joined

/-! ### Groups -/

/-- A log grows with what is sent to its writer. -/
theorem logs_receive (tasks : List Task) (number : Nat) (batch : RecordBatch) :
    ((tasks.modify number (·.receive batch)).map fun task => (task.values, task.rows)) =
      (tasks.map fun task => (task.values, task.rows)).modify number
        fun log => (log.1, log.2 ++ batch.rows) := by
  apply map_modify_at
  intro task _
  unfold Task.rows Task.receive
  rw [List.flatMap_append, List.flatMap_singleton]

variable {values : List (Option Value)} {batch : RecordBatch}

/-- A group is sent to the writer of its partition, or there is a panic. -/
theorem Holds.send (holds : Holds context prepared stream system) {number : Nat}
    {senders : LruCache (List (Option Value)) Nat}
    (feeding : Feeding context prepared stream (.ok (values, batch) :: groups) rest system)
    (found : system.senders.getMut values = some (number, senders)) :
    Holds context prepared stream (system.send number senders batch (.reading groups rest)) := by
  obtain ⟨⟨batches, earlier, current, pieces, streamed, rows, results, routed⟩, leads, unjoined⟩ :=
    feeding
  obtain ⟨present, older⟩ := LruCache.mem_getMut found
  obtain ⟨target, here, owned, -⟩ := leads _ present
  unfold System.send
  split
  · rename_i receives
    rw [here, Option.any_some] at receives
    cases pieces with
    | nil => cases results
    | cons piece pieces =>
      obtain ⟨first, later⟩ := List.cons.inj results
      obtain rfl := Except.ok.inj first
      constructor
      · apply holds.sound.modify
        intro task there sound
        obtain rfl := Option.some.inj (here.symm.trans there)
        exact sound.receive receives
      · refine ⟨⟨batches, earlier, current, pieces, streamed, rows, later, ?_⟩, ?_, ?_⟩
        · unfold System.logs
          dsimp only
          rw [logs_receive]
          have log : system.logs[number]? = some (values, target.rows) := by
            rw [System.logs, List.getElem?_map, here, Option.map_some, owned]
          exact routed.send log
        · intro entry member
          exact (leads entry (older entry member)).modify fun task _ _ => ⟨rfl, id⟩
        · intro task member
          rcases mem_modify_cases member with ⟨before, there, rfl⟩ | there
          · exact unjoined before (List.mem_of_getElem? there)
          · exact unjoined task there
  · exact ⟨holds.sound, trivial⟩

/-- A writer is spawned for a partition that has no sender. -/
theorem Holds.spawn (holds : Holds context prepared stream system)
    (feeding : Feeding context prepared stream (.ok (values, batch) :: groups) rest system) :
    Holds context prepared stream ⟨.reading groups rest,
      system.senders.push values system.tasks.length,
      system.tasks ++ [Task.spawn values batch]⟩ := by
  obtain ⟨⟨batches, earlier, current, pieces, streamed, rows, results, routed⟩, leads, unjoined⟩ :=
    feeding
  cases pieces with
  | nil => cases results
  | cons piece pieces =>
    obtain ⟨first, later⟩ := List.cons.inj results
    obtain rfl := Except.ok.inj first
    constructor
    · exact holds.sound.append fun _ => Task.sound_spawn values batch
    · refine ⟨⟨batches, earlier, current, pieces, streamed, rows, later, ?_⟩, ?_, ?_⟩
      · have spawned : (Task.spawn values batch).rows = batch.rows := List.append_nil _
        unfold System.logs
        rw [List.map_append, List.map_singleton, spawned]
        exact routed.branch
      · intro entry member
        rcases LruCache.mem_push member with rfl | old
        · exact ⟨_, List.getElem?_concat_length, rfl, .inl rfl⟩
        · exact (leads entry old).append _
      · intro task member
        rcases List.mem_append.mp member with old | new
        · exact unjoined task old
        · obtain rfl := List.mem_singleton.mp new
          rfl

theorem Holds.route (holds : Holds context prepared stream system)
    (feeding : Feeding context prepared stream (.ok (values, batch) :: groups) rest system) :
    Holds context prepared stream (system.route values batch (.reading groups rest)) := by
  unfold System.route
  split
  · rename_i number senders found
    exact holds.send feeding found
  · exact holds.spawn feeding

/-! ### Batches -/

/-- The groups of a batch are pieces of it, one for each partition that occurs. -/
theorem pieces_of_partition {kernels : Kernels} {fields : List BoundPartitionField}
    (run : partitionRecordBatch kernels batch fields = .ok results) :
    ∃ pieces : List (List (Option Value) × RecordBatch), results = pieces.map .ok ∧
      Partitioned kernels fields batch pieces ∧ (pieces.map (·.1)).Nodup ∧
      ∀ piece ∈ pieces, piece.2.rows.Sublist batch.rows := by
  obtain ⟨pieces, made, partitioned⟩ := partitionRecordBatch_spec run
  obtain ⟨groups, made', exact⟩ := exact_of_partition run
  obtain rfl : pieces = groups :=
    List.map_injective_iff.mpr (fun _ _ => Except.ok.inj) (made.symm.trans made')
  exact ⟨pieces, made, partitioned, exact.distinct, fun piece member => exact.sublist member⟩

/-- A batch is read when the groups of the one before are sent. -/
theorem Feeding.read (feeding : Feeding context prepared stream [] (.ok batch :: rest) system)
    (run : partitionRecordBatch context.libraries.kernels batch prepared.partitionFields =
      .ok results) : Feeding context prepared stream results rest system := by
  obtain ⟨⟨batches, earlier, current, pieces, streamed, rows, none_, routed⟩, leads, unjoined⟩ :=
    feeding
  obtain rfl : pieces = [] := List.map_eq_nil_iff.mp none_.symm
  obtain ⟨pieces, made, partitioned, distinct, inside⟩ := pieces_of_partition run
  refine ⟨⟨batches ++ [batch], earlier ++ current, batch.rows, pieces, ?_, ?_, made, ?_⟩, leads,
    unjoined⟩
  · rw [streamed, List.map_append, List.append_assoc]
    rfl
  · rw [List.flatMap_append, List.flatMap_singleton, rows]
  · apply routed.next
    · rw [contents, List.flatMap_map]
      exact partitioned.conserved
    · intro piece member
      obtain ⟨group, here, rfl⟩ := List.mem_map.mp member
      exact partitioned.owned group here
    · rw [List.map_map]
      exact distinct
    · intro piece member
      obtain ⟨group, here, rfl⟩ := List.mem_map.mp member
      exact inside group here

theorem Holds.read (holds : Holds context prepared stream system)
    {item : Except ArrowError RecordBatch}
    (feeding : Feeding context prepared stream [] (item :: rest) system) :
    Holds context prepared stream (system.read context prepared item rest) := by
  obtain ⟨sound, evicted⟩ := holds.evict feeding
  unfold System.read
  split
  · rename_i groups run
    obtain ⟨batch, rfl, divided⟩ := bind_eq_ok.mp run
    have read := evicted.read divided
    exact ⟨sound, read.routed, read.senders, read.unjoined⟩
  · exact ⟨sound, trivial⟩

theorem Holds.coordinate (holds : Holds context prepared stream system) :
    Holds context prepared stream (system.coordinate context prepared) := by
  unfold System.coordinate
  split
  · have promise := holds.promise
    split
    · rename_i phase
      rw [phase] at promise
      exact holds.close promise
    · rename_i item rest phase
      rw [phase] at promise
      exact holds.read promise
    · exact ⟨holds.sound, trivial⟩
    · rename_i group groups rest phase
      rw [phase] at promise
      exact holds.route promise
    · rename_i files phase
      rw [phase] at promise
      split
      · rename_i joined
        exact ⟨holds.sound, ⟨promise.routed, promise.delivered, promise.joined⟩, joined⟩
      · exact holds
    · exact holds
    · exact holds
  · exact holds

/-- Every step keeps what the coordinator and the writers hold. -/
theorem Holds.step (holds : Holds context prepared stream system) (event : Event) :
    Holds context prepared stream (system.step context prepared event) := by
  cases event with
  | coordinator => exact holds.coordinate
  | writer number => exact holds.writer number
  | join number => exact holds.join number

theorem holds_run (events : List Event) :
    Holds context prepared stream (.run context prepared stream events) := by
  induction events using List.reverseRecOn with
  | nil => exact holds_start
  | append_singleton events event ih =>
    rw [System.run, List.foldl_concat]
    exact ih.step event

end Steps

/-! ### What is written -/

/-- The files of a successful write: together they have the rows of the stream, each once, and each
file has rows of its partition in the order of the stream. -/
structure Conserves (kernels : Kernels) (fields : List BoundPartitionField)
    (batches : List RecordBatch) (files : List WrittenFile) : Prop where
  rows : (files.flatMap (·.rows)).Perm (batches.flatMap (·.rows))
  counted : ∀ file ∈ files, file.dataFile.recordCount = file.rows.length
  total : (files.map (·.dataFile.recordCount)).sum = countRows batches
  owned : ∀ file ∈ files, ∃ values, values.length = fields.length ∧
    file.dataFile.partition = partitionStruct fields values ∧
    ∀ row ∈ file.rows, partitionTuple kernels fields row = .ok values
  inOrder : ∀ file ∈ files, file.rows.Sublist (batches.flatMap (·.rows))

section Files

variable {kernels : Kernels} {fields : List BoundPartitionField} {batches : List RecordBatch}
  {files : List WrittenFile}

theorem sum_recordCounts (counted : ∀ file ∈ files, file.dataFile.recordCount = file.rows.length) :
    (files.map (·.dataFile.recordCount)).sum = ((files.flatMap (·.rows)).length : Int) := by
  induction files with
  | nil => rfl
  | cons file files ih =>
    rw [List.map_cons, List.sum_cons, counted file List.mem_cons_self, List.flatMap_cons,
      List.length_append, Nat.cast_add, ih fun other member =>
        counted other (List.mem_cons_of_mem _ member)]

/-- The counts of the files are those of the stream when the rows are. -/
theorem total_of_rows (rows : (files.flatMap (·.rows)).Perm (batches.flatMap (·.rows)))
    (counted : ∀ file ∈ files, file.dataFile.recordCount = file.rows.length) :
    (files.map (·.dataFile.recordCount)).sum = countRows batches := by
  rw [sum_recordCounts counted, rows.length_eq, length_flatMap_rows]

theorem WrittenFile.length_rows (file : WrittenFile) : file.rows.length = countRows file.batches :=
  length_flatMap_rows file.batches

theorem Written.sublist {context : FileContext} (written : Written context batches files)
    {file : WrittenFile} (member : file ∈ files) :
    file.rows.Sublist (batches.flatMap (·.rows)) := by
  rw [← written.rows]
  obtain ⟨before, after, rfl⟩ := List.append_of_mem member
  rw [List.flatMap_append, List.flatMap_cons]
  exact (List.sublist_append_left _ _).trans (List.sublist_append_right _ _)

/-- Without partition fields the one writer has the whole stream. -/
theorem Written.conserves {context : FileContext} (written : Written context batches files)
    (unpartitioned : context.partitionFields = []) :
    Conserves kernels context.partitionFields batches files := by
  have rows : (files.flatMap (·.rows)).Perm (batches.flatMap (·.rows)) := by rw [written.rows]
  have counted : ∀ file ∈ files, file.dataFile.recordCount = file.rows.length := by
    intro file member
    rw [file.length_rows]
    exact written.counted file member
  refine ⟨rows, counted, total_of_rows rows counted, fun file member => ?_,
    fun file member => written.sublist member⟩
  obtain ⟨length, partition⟩ := written.partition file member
  refine ⟨context.values, length, partition, fun row _ => ?_⟩
  rw [unpartitioned] at length ⊢
  rw [List.length_eq_zero_iff.mp length]
  rfl

end Files

section Whole

variable {context : StoreContext} {prepared : Prepared}
  {stream : List (Except ArrowError RecordBatch)} {system : System} {files : List WrittenFile}

/-- A writer that is done has written what was sent to it. -/
theorem Task.Sound.written {fileContext : FileContext} {task : Task}
    (sound : task.Sound fileContext) (known : fileContext.Known)
    (counts : fileContext.libraries.store.Counts) (done : task.status = .done files) :
    Written fileContext task.sent files := by
  unfold Task.Sound at sound
  rw [done] at sound
  obtain ⟨batches, same, written⟩ := writeParquetFiles_spec known counts sound.1
  obtain rfl : task.sent = batches :=
    List.map_injective_iff.mpr (fun _ _ => Except.ok.inj) same
  exact written

/-- When all writers are joined their files have the rows of the stream. -/
theorem Holds.conserves (holds : Holds context prepared stream system)
    (counts : context.libraries.store.Counts) (returned : system.phase = .returned (.ok files)) :
    ∃ batches, stream = batches.map .ok ∧ (∀ task ∈ system.tasks, task.failure = none) ∧
      Conserves context.libraries.kernels prepared.partitionFields batches files := by
  have promise := holds.promise
  rw [returned] at promise
  obtain ⟨⟨⟨batches, earlier, current, streamed, inStream, routed⟩, delivered, done⟩, joined⟩ :=
    promise
  have each : ∀ task ∈ system.tasks, ∃ number,
      Written (prepared.writer context number task.values) task.sent task.files := by
    intro task member
    obtain ⟨number, here⟩ := List.mem_iff_getElem?.mp member
    obtain ⟨files, finished⟩ := done task member (joined task member)
    have same : task.files = files := by rw [Task.files, finished]
    refine ⟨number, ?_⟩
    rw [same]
    exact (holds.sound number task here).written (fun absent => by cases absent) counts finished
  have all : system.tasks.flatMap Task.delivered = system.tasks.flatMap Task.files := by
    apply List.flatMap_congr
    intro task member
    rw [Task.delivered, if_pos (joined task member)]
  rw [all] at delivered
  have ofTask : ∀ file ∈ files, ∃ task ∈ system.tasks, file ∈ task.files := by
    intro file member
    exact List.mem_flatMap.mp (delivered.mem_iff.mp member)
  have log {task : Task} (member : task ∈ system.tasks) :
      (task.values, task.rows) ∈ system.logs :=
    List.mem_map_of_mem (f := fun task : Task => (task.values, task.rows)) member
  have rows : (files.flatMap (·.rows)).Perm (batches.flatMap (·.rows)) := by
    refine (delivered.flatMap_right _).trans ?_
    rw [List.flatMap_assoc, inStream]
    refine List.Perm.trans (.of_eq ?_) routed.complete
    rw [System.logs, contents, List.flatMap_map]
    apply List.flatMap_congr
    intro task member
    obtain ⟨number, written⟩ := each task member
    exact written.rows
  have counted : ∀ file ∈ files, file.dataFile.recordCount = file.rows.length := by
    intro file member
    obtain ⟨task, here, own⟩ := ofTask file member
    obtain ⟨number, written⟩ := each task here
    rw [file.length_rows]
    exact written.counted file own
  refine ⟨batches, streamed, fun task member => ?_, rows, counted, total_of_rows rows counted,
    fun file member => ?_, fun file member => ?_⟩
  · obtain ⟨files, finished⟩ := done task member (joined task member)
    rw [Task.failure, finished]
  · obtain ⟨task, here, own⟩ := ofTask file member
    obtain ⟨number, written⟩ := each task here
    obtain ⟨length, partition⟩ := written.partition file own
    refine ⟨task.values, length, partition, fun row inside => ?_⟩
    exact routed.owned _ (log here) row ((written.sublist own).subset inside)
  · obtain ⟨task, here, own⟩ := ofTask file member
    obtain ⟨number, written⟩ := each task here
    rw [inStream]
    exact (written.sublist own).trans (routed.inOrder _ (log here))

/-! ### Panics -/

/-- A step from a state in which what comes up can be sent does not panic. -/
theorem Holds.calm (holds : Holds context prepared stream system) (alive : system.alive = true)
    (calm : system.phase ≠ .panicked) (event : Event) :
    (system.step context prepared event).phase ≠ .panicked := by
  cases event with
  | writer number =>
    simp only [System.step]
    split
    · exact calm
    · exact calm
  | join number =>
    simp only [System.step, System.join]
    split
    · split
      · exact Phase.noConfusion
      · exact Phase.noConfusion
      · exact calm
    · exact calm
  | coordinator =>
    simp only [System.step, System.coordinate]
    split
    · split
      · exact Phase.noConfusion
      · unfold System.read
        split
        · exact Phase.noConfusion
        · exact Phase.noConfusion
      · exact Phase.noConfusion
      · rename_i group groups rest phase
        have promise := holds.promise
        rw [phase] at promise
        unfold System.route
        split
        · rename_i number senders found
          obtain ⟨present, -⟩ := LruCache.mem_getMut found
          obtain ⟨task, here, -, reached⟩ := promise.senders _ present
          have unfailed : task.failure = none := by
            simpa [System.alive, phase, System.failedFor, found, here] using alive
          have receives : task.inbox.isOpen = true :=
            reached.resolve_right fun failed => failed unfailed
          unfold System.send
          rw [here, Option.any_some, if_pos receives]
          exact Phase.noConfusion
        · exact Phase.noConfusion
      · split
        · exact Phase.noConfusion
        · exact calm
      · exact calm
      · exact calm
    · exact calm

/-- A group comes up for a writer that has failed, or there was a panic. -/
def System.Doomed (system : System) : Prop :=
  system.phase = .panicked ∨ ∃ group groups rest number senders task,
    system.phase = .reading (.ok group :: groups) rest ∧
    system.senders.getMut group.1 = some (number, senders) ∧
    system.tasks[number]? = some task ∧ task.failure ≠ none ∧ task.inbox.isOpen = false

theorem Holds.doomed (holds : Holds context prepared stream system)
    (dead : system.alive = false) : system.Doomed := by
  unfold System.alive at dead
  split at dead
  · rename_i group groups rest phase
    have failedFor : system.failedFor group.1 = true := by simpa using dead
    obtain ⟨task, found, failed⟩ := (Option.any_eq_true _ _).mp failedFor
    obtain ⟨⟨number, senders⟩, sender, here⟩ := Option.bind_eq_some_iff.mp found
    have unwritten : task.failure ≠ none := Option.isSome_iff_ne_none.mp failed
    exact .inr ⟨group, groups, rest, number, senders, task, phase, sender, here, unwritten,
      (holds.sound number task here).closed_of_failed unwritten⟩
  · cases dead

/-- There is no way back from there. -/
theorem System.Doomed.step (doomed : system.Doomed) (event : Event) :
    (system.step context prepared event).Doomed := by
  rcases doomed with panicked | ⟨group, groups, rest, number, senders, task, phase, found, here,
    failed, closed⟩
  · left
    cases event with
    | writer number => simp [System.step, System.isOver, panicked]
    | join number => simp [System.step, System.join, panicked]
    | coordinator => simp [System.step, System.coordinate, panicked]
  · have same : (⟨system.phase, system.senders, system.tasks⟩ : System).Doomed :=
      .inr ⟨group, groups, rest, number, senders, task, phase, found, here, failed, closed⟩
    cases event with
    | writer other =>
      simp only [System.step]
      split
      · exact same
      · obtain ⟨error, failure⟩ := Option.ne_none_iff_exists'.mp failed
        refine .inr ⟨group, groups, rest, number, senders, task, phase, found, ?_, failed, closed⟩
        dsimp only
        rw [List.getElem?_modify, here]
        simp [Task.advance_failed failure]
    | join other =>
      simp only [System.step, System.join, phase]
      exact same
    | coordinator =>
      simp only [System.step, System.coordinate, phase]
      split
      · left
        unfold System.route System.send
        rw [found]
        simp [here, closed]
      · exact same

theorem System.Doomed.run (doomed : system.Doomed) (events : List Event) :
    (events.foldl (System.step context prepared) system).Doomed := by
  induction events generalizing system with
  | nil => exact doomed
  | cons event events ih => exact ih (doomed.step event)

/-- A write that is doomed and over has panicked. -/
theorem System.Doomed.panicked (doomed : system.Doomed) (isOver : system.isOver = true) :
    system.phase = .panicked := by
  rcases doomed with panicked | ⟨group, groups, rest, number, senders, task, phase, -⟩
  · exact panicked
  · unfold System.isOver at isOver
    rw [phase] at isOver
    cases isOver

/-- A run panics only where a group came up for a writer that had failed. -/
theorem calm_run {events : List Event}
    (alive : ∀ n < events.length,
      (System.run context prepared stream (events.take n)).alive = true) :
    (System.run context prepared stream events).phase ≠ .panicked := by
  induction events using List.reverseRecOn with
  | nil => exact Phase.noConfusion
  | append_singleton events event ih =>
    have last := alive events.length (by simp)
    rw [List.take_left] at last
    have before := ih fun n within => by
      have here := alive n (by simp; omega)
      rwa [List.take_append_of_le_length (Nat.le_of_lt within)] at here
    rw [System.run, List.foldl_concat]
    exact (holds_run events).calm last before event

/-- A run that is over without a panic never had such a group. -/
theorem alive_of_calm {events : List Event}
    (isOver : (System.run context prepared stream events).isOver = true)
    (calm : (System.run context prepared stream events).phase ≠ .panicked) :
    ∀ n < events.length, (System.run context prepared stream (events.take n)).alive = true := by
  intro n _
  by_contra dead
  have doomed := (holds_run (events.take n)).doomed (by simpa using dead)
  apply calm
  have rest := @System.Doomed.run context prepared _ doomed (events.drop n)
  rw [System.run, ← List.foldl_append, List.take_append_drop] at rest
  exact rest.panicked isOver

end Whole

/-! ### The function -/

/-- What a write promises: a success has conserved the rows of the stream, a failure of the stream
or of a writer is reported, and nothing panics. -/
structure SoundWrite (context : StoreContext) (metadata : TableMetadata)
    (stream : List (Except ArrowError RecordBatch)) (system : System) : Prop where
  conserves : ∀ files, system.phase = .returned (.ok files) → ∃ fields batches,
    metadata.currentPartitionFields = .ok fields ∧ stream = batches.map .ok ∧
    Conserves context.libraries.kernels fields batches files
  fails : ∀ result, system.phase = .returned result →
    ((∃ error, .error error ∈ stream) ∨ ∃ task ∈ system.tasks, task.failure ≠ none) →
    ∃ error, result = .error error
  calm : system.phase ≠ .panicked

section Function

variable {context : StoreContext} {metadata : TableMetadata} {ordering : InputOrdering}
  {prepared : Prepared} {stream : List (Except ArrowError RecordBatch)}

theorem fields_of_prepare (run : prepare context metadata ordering = .ok prepared) :
    metadata.currentPartitionFields = .ok prepared.partitionFields := by
  obtain ⟨schema, -, run⟩ := bind_eq_ok.mp run
  obtain ⟨sortOrder, -, run⟩ := bind_eq_ok.mp run
  obtain ⟨spec, -, run⟩ := bind_eq_ok.mp run
  obtain ⟨fields, bound, run⟩ := bind_eq_ok.mp run
  obtain ⟨-, -, run⟩ := bind_eq_ok.mp run
  obtain rfl := Except.ok.inj run
  exact mapError_eq_ok.mp bound

/-- Batches are no errors. -/
theorem not_error_mem {batches : List RecordBatch} (error : ArrowError) :
    .error error ∉ batches.map (Except.ok : RecordBatch → Except ArrowError RecordBatch) := by
  intro member
  obtain ⟨batch, -, same⟩ := List.mem_map.mp member
  cases same

/-- A success that conserves the stream rules failures out. -/
theorem SoundWrite.of_success {system : System}
    (success : ∀ files, system.phase = .returned (.ok files) → ∃ fields batches,
      metadata.currentPartitionFields = .ok fields ∧ stream = batches.map .ok ∧
      (∀ task ∈ system.tasks, task.failure = none) ∧
      Conserves context.libraries.kernels fields batches files)
    (calm : system.phase ≠ .panicked) : SoundWrite context metadata stream system where
  conserves files returned := by
    obtain ⟨fields, batches, bound, streamed, -, conserves⟩ := success files returned
    exact ⟨fields, batches, bound, streamed, conserves⟩
  fails result returned failure := by
    cases result with
    | error error => exact ⟨error, rfl⟩
    | ok files =>
      obtain ⟨fields, batches, -, streamed, unfailed, -⟩ := success files returned
      rcases failure with ⟨error, member⟩ | ⟨task, member, failed⟩
      · rw [streamed] at member
        exact absurd member (not_error_mem error)
      · exact absurd (unfailed task member) failed
  calm := calm

/-- What is returned without any writer being spawned. -/
theorem sound_immediate {result : Except WriteError (List WrittenFile)}
    (success : ∀ files, result = .ok files → ∃ fields batches,
      metadata.currentPartitionFields = .ok fields ∧ stream = batches.map .ok ∧
      Conserves context.libraries.kernels fields batches files) :
    SoundWrite context metadata stream (.immediate result) := by
  apply SoundWrite.of_success
  · intro files returned
    obtain ⟨fields, batches, bound, streamed, conserves⟩ :=
      success files (Phase.returned.inj returned)
    refine ⟨fields, batches, bound, streamed, fun task member => ?_, conserves⟩
    cases member
  · exact Phase.noConfusion

/-- **Writes conserve rows and order while no failed writer is sent to.**  In every run, in whatever
order the writers make progress: as long as no group comes up for a writer that has failed, what is
promised holds; and a run that is over has kept the promise only if none did. -/
theorem sound_iff_alive (counts : context.libraries.store.Counts) (events : List Event) :
    ((∀ n < events.length,
        (storeParquetPartitioned context metadata ordering stream (events.take n)).alive = true) →
      SoundWrite context metadata stream
        (storeParquetPartitioned context metadata ordering stream events)) ∧
    ((storeParquetPartitioned context metadata ordering stream events).isOver = true →
      SoundWrite context metadata stream
        (storeParquetPartitioned context metadata ordering stream events) →
      ∀ n < events.length,
        (storeParquetPartitioned context metadata ordering stream (events.take n)).alive =
          true) := by
  unfold storeParquetPartitioned
  cases run : prepare context metadata ordering with
  | error error =>
    refine ⟨fun _ => sound_immediate fun files success => ?_, fun _ _ n _ => rfl⟩
    cases success
  | ok prepared =>
    have bound := fields_of_prepare run
    dsimp only
    by_cases empty : prepared.partitionFields.isEmpty = true
    · simp only [empty, if_true]
      refine ⟨fun _ => sound_immediate fun files success => ?_, fun _ _ n _ => rfl⟩
      have unpartitioned : (prepared.unpartitioned context).partitionFields = [] :=
        List.isEmpty_iff.mp empty
      obtain ⟨batches, streamed, written⟩ :=
        writeParquetFiles_spec (fun _ => unpartitioned) counts success
      exact ⟨_, batches, bound, streamed, written.conserves unpartitioned⟩
    · simp only [empty, if_false, Bool.false_eq_true]
      constructor
      · intro alive
        apply SoundWrite.of_success _ (calm_run alive)
        intro files returned
        obtain ⟨batches, streamed, unfailed, conserves⟩ :=
          (holds_run events).conserves counts returned
        exact ⟨_, batches, bound, streamed, unfailed, conserves⟩
      · exact fun isOver sound => alive_of_calm isOver sound.calm

end Function

/-! ### A write of one partition -/

/-- A footer that knows the number of rows. -/
def rowsFooter (count : Nat) : ParquetMetaData where
  numRows := BitVec.ofNat 64 count
  keyValueMetadata := none
  columns := []
  rowGroups := []
  aligned := by simp

/-- A store that keeps every file, or does not even create it. -/
def simpleStore (creates : Bool) : FileStore where
  create _ _ := if creates then .ok () else .error (.computeError "no space left")
  write _ _ _ := .ok ()
  fileSize _ batches := batches.length * 536870912
  close _ batches :=
    if countRows batches < 2 ^ 63 then .ok (rowsFooter (countRows batches))
    else .error (.computeError "too many rows")
  head _ := .ok 4

theorem counts_simpleStore (creates : Bool) : (simpleStore creates).Counts := by
  intro path batches footer closed
  unfold simpleStore at closed
  dsimp only at closed
  split at closed
  · rename_i few
    obtain rfl := Except.ok.inj closed
    unfold rowsFooter
    rw [BitVec.toInt_ofNat', Int.bmod_def]
    omega
  · cases closed

/-- A write with this store. -/
def simpleContext (creates : Bool) : StoreContext where
  libraries := {
    kernels := utcKernels fun _ => 0
    files := footerLibraries
    arrowSchema := fun _ => .ok ()
    leafColumns := fun _ => .ok [["a"]]
    bucket := fun _ => .ok "s3://warehouse"
    store := simpleStore creates }
  naming number :=
    ⟨fun _ => none, fun _ => "", fun _ => "abc",
      fun call => toString number ++ "-" ++ toString call⟩
  parallelism := 8

/-- A table that is partitioned by its column. -/
def nullTable : TableMetadata :=
  { longTable .v2 with
    schemas := AList.singleton 0 ⟨0, none, ⟨[nullField.structField]⟩⟩
    partitionSpecs := AList.singleton 0 ⟨0, [nullField.partitionField]⟩ }

/-- Two batches of the same partition. -/
def nullStream : List (Except ArrowError RecordBatch) := [.ok (nullBatch 2), .ok (nullBatch 1)]

/-- The writer rolls to a second file between the batches. -/
def rollingEvents : List Event :=
  [.coordinator, .coordinator, .writer 0, .writer 0, .writer 0, .coordinator, .coordinator,
    .writer 0, .writer 0, .coordinator, .writer 0, .join 0, .coordinator]

/-- The two batches are written to two files. -/
theorem sound_iff_alive_rolling : ∃ files,
    (storeParquetPartitioned (simpleContext true) nullTable .unspecified nullStream
      rollingEvents).phase = .returned (.ok files) ∧ files.length = 2 ∧
    ∃ fields batches, nullTable.currentPartitionFields = .ok fields ∧
      nullStream = batches.map .ok ∧
      Conserves (simpleContext true).libraries.kernels fields batches files := by
  have sound := (@sound_iff_alive (simpleContext true) nullTable .unspecified nullStream
    (counts_simpleStore true) rollingEvents).1 (by decide +kernel)
  exact ⟨_, rfl, rfl, sound.conserves _ rfl⟩

/-- The second batch comes up for a writer that could not create its file: no error is returned. -/
theorem write_panics : (simpleContext false).libraries.store.Counts ∧
    (writeParquetPartitioned (simpleContext false) nullTable nullStream
      [.coordinator, .coordinator, .writer 0, .coordinator, .coordinator]).phase = .panicked :=
  ⟨counts_simpleStore false, rfl⟩

end IcebergRust.Arrow
