import Mathlib.Algebra.BigOperators.Group.Finset.Basic
import Mathlib.Data.Fintype.Basic
import Mathlib.Data.List.Induction
import Mathlib.Data.List.Nodup
import Mathlib.Logic.Function.Basic

/-!
# Both branches of a fork

`fork_node` and `PhysicalForkNode` of
`datafusion_iceberg/src/materialized_view/delta_queries/fork_node.rs`: two copies of a node that
share, for each partition, a flag and a channel.  The copy that executes a partition first drives
the input and forwards its batches, the other one reads the channel.

* A `Lane` is one partition of both copies. The polls of the driving copy are taken apart into the
  steps between which the other copy may come: taking an item, sending it, and waiting for its
  receipt.
* `mem_assigned`: the partitions of the input are shared out by their remainder.
* The channel is closed when the driving stream is dropped, and failures are not sent.
  `orderly` steps are those where this happens to no one who still reads; `fork_faithful` is the
  statement about them, and `fork_truncated` two runs that are not.
-/

namespace IcebergRust.ForkNode

variable {E B : Type}

/-! ### The input -/

/-- The input of a fork: executing a partition fails, or gives the items of a stream. -/
structure Input (E B : Type) where
  partitions : Nat
  execute : Nat → Except E (List (Except E B))

/-- How many partitions of the input a partition of the fork executes. -/
def count (partitions nPartitions partition : Nat) : Nat :=
  partitions / nPartitions + if partition < partitions % nPartitions then 1 else 0

/-- The partitions of the input that a partition of the fork executes. -/
def assigned (partitions nPartitions partition : Nat) : List Nat :=
  if partitions ≤ partition then []
  else partition :: (List.range' 1 (count partitions nPartitions partition - 1)).map fun x =>
    x * nPartitions + partition

/-- Streams are chained; nothing is executed after a failure. With the partitions executed. -/
def chain (input : Input E B) : List Nat → List Nat × Except E (List (Except E B))
  | [] => ([], .ok [])
  | partition :: rest =>
    match input.execute partition with
    | .error e => ([partition], .error e)
    | .ok items => (partition :: (chain input rest).1, (chain input rest).2.map (items ++ ·))

/-! ### One partition of both copies -/

/-- The two copies of the node. -/
inductive Copy where
  | left
  | right
deriving DecidableEq, Repr

/-- The other copy. -/
def Copy.other : Copy → Copy
  | .left => .right
  | .right => .left

/-- Where a driving copy is with a batch: it has none, has taken it from the input, or has put it
into the channel and waits for the other copy. -/
inductive Sending (B : Type) where
  | idle
  | taken (batch : B)
  | pushed (batch : B)
deriving DecidableEq, Repr

/-- What a copy does for the partition. -/
inductive Role (E B : Type) where
  | unexecuted
  /-- `RecordBatchStreamSender`, with the items of the input that are left. -/
  | driving (remaining : List (Except E B)) (sending : Sending B)
  | receiving
  /-- `execute` has returned an error. -/
  | failed
  | dropped

/-- Whether a copy may still take the receiver, or has it. -/
def Role.mayRead : Role E B → Bool
  | .unexecuted => true
  | .receiving => true
  | _ => false

/-- A copy, with what its stream has returned so far. -/
structure Branch (E B : Type) where
  role : Role E B
  yielded : List (Except E B)
  /-- The stream has returned `None`. -/
  ended : Bool

/-- An item is returned. -/
def Branch.yield (branch : Branch E B) (item : Except E B) (role : Role E B) : Branch E B :=
  { branch with role := role, yielded := branch.yielded ++ [item] }

/-- What the copies share for a partition, and both copies of it. -/
structure Lane (E B : Type) where
  executed : Bool
  /-- The messages of the channel, and whether it is open. -/
  queue : List B
  isOpen : Bool
  branch : Copy → Branch E B
  /-- The partitions of the input that were executed. -/
  executions : List Nat

namespace Lane

/-- `fork_node`. -/
def initial : Lane E B where
  executed := false
  queue := []
  isOpen := true
  branch := fun _ => ⟨.unexecuted, [], false⟩
  executions := []

/-- One copy is replaced. -/
def set (lane : Lane E B) (copy : Copy) (branch : Branch E B) : Lane E B :=
  { lane with branch := Function.update lane.branch copy branch }

/-- `execute`: the first copy to come drives, the second one receives. When the input cannot be
executed the only sender is dropped, which closes the channel. -/
def execute (input : Input E B) (partitions : List Nat) (lane : Lane E B) (copy : Copy) :
    Lane E B :=
  if lane.executed then lane.set copy { lane.branch copy with role := .receiving }
  else
    match chain input partitions with
    | (executions, .ok items) =>
      { lane.set copy { lane.branch copy with role := .driving items .idle } with
        executed := true
        executions := lane.executions ++ executions }
    | (executions, .error _) =>
      { lane.set copy { lane.branch copy with role := .failed } with
        executed := true
        isOpen := false
        executions := lane.executions ++ executions }

/-- A step of `RecordBatchStreamSender::poll_next` over `and_then`; `disconnected` is the error of
a send when the receiver is gone. -/
def pollDriving (disconnected : E) (lane : Lane E B) (copy : Copy)
    (remaining : List (Except E B)) (sending : Sending B) : Lane E B :=
  match sending, remaining with
  | .idle, [] =>
    { lane.set copy { lane.branch copy with ended := true } with isOpen := false }
  | .idle, .error e :: rest =>
    lane.set copy (Branch.yield (lane.branch copy) (.error e) (.driving rest .idle))
  | .idle, .ok batch :: rest =>
    lane.set copy { lane.branch copy with role := .driving rest (.taken batch) }
  | .taken batch, rest =>
    if lane.isOpen then
      { lane.set copy { lane.branch copy with role := .driving rest (.pushed batch) } with
        queue := lane.queue ++ [batch] }
    else
      lane.set copy (Branch.yield (lane.branch copy) (.error disconnected) (.driving rest .idle))
  | .pushed batch, rest =>
    -- The sender is parked until its message was received or the channel is closed.
    if lane.isOpen ∧ lane.queue ≠ [] then lane
    else lane.set copy (Branch.yield (lane.branch copy) (.ok batch) (.driving rest .idle))

/-- `Receiver::poll_next`. -/
def pollReceiving (lane : Lane E B) (copy : Copy) : Lane E B :=
  match lane.queue with
  | batch :: rest =>
    { lane.set copy (Branch.yield (lane.branch copy) (.ok batch) .receiving) with queue := rest }
  | [] =>
    if lane.isOpen then lane else lane.set copy { lane.branch copy with ended := true }

/-- A poll of the stream of a copy. -/
def poll (disconnected : E) (lane : Lane E B) (copy : Copy) : Lane E B :=
  match (lane.branch copy).role with
  | .driving remaining sending => pollDriving disconnected lane copy remaining sending
  | .receiving => pollReceiving lane copy
  | _ => lane

/-- A copy is dropped: `ClosingSender` closes the channel, and so does the receiver. A poll that
has taken an item goes on until it has sent it. -/
def drop (lane : Lane E B) (copy : Copy) : Lane E B :=
  match (lane.branch copy).role with
  | .unexecuted => lane.set copy { lane.branch copy with role := .dropped }
  | .driving _ (.taken _) => lane
  | .driving _ _ =>
    { lane.set copy { lane.branch copy with role := .dropped } with isOpen := false }
  | .receiving =>
    { lane.set copy { lane.branch copy with role := .dropped } with isOpen := false, queue := [] }
  | .failed => lane
  | .dropped => lane

/-- The nodes are dropped, and with them a receiver that no copy has taken. -/
def forget (lane : Lane E B) : Lane E B :=
  if (lane.branch .left).role.mayRead ∨ (lane.branch .right).role.mayRead then lane
  else { lane with isOpen := false, queue := [] }

end Lane

/-- What can happen to a partition. -/
inductive Event where
  | execute (copy : Copy)
  | poll (copy : Copy)
  | drop (copy : Copy)
  | forget
deriving DecidableEq, Repr

/-- One event; a copy executes a partition once. -/
def Lane.step (input : Input E B) (partitions : List Nat) (disconnected : E) (lane : Lane E B) :
    Event → Lane E B
  | .execute copy =>
    match (lane.branch copy).role with
    | .unexecuted => lane.execute input partitions copy
    | _ => lane
  | .poll copy => lane.poll disconnected copy
  | .drop copy => lane.drop copy
  | .forget => lane.forget

/-! ### The partitions of the input -/

variable {partitions nPartitions partition : Nat}

theorem length_assigned (within : partition < nPartitions) (used : partition < partitions) :
    0 < count partitions nPartitions partition := by
  unfold count
  by_cases many : nPartitions ≤ partitions
  · have := Nat.div_pos many (Nat.zero_lt_of_lt within)
    omega
  · rw [Nat.mod_eq_of_lt (Nat.lt_of_not_le many), if_pos used]
    exact Nat.succ_pos _

/-- The first partition is the one with `x = 0` of the formula for the others. -/
theorem assigned_eq_range (within : partition < nPartitions) :
    assigned partitions nPartitions partition =
      (List.range (count partitions nPartitions partition)).map fun x =>
        x * nPartitions + partition := by
  unfold assigned
  split
  · rename_i unused
    have few : partitions < nPartitions := Nat.lt_of_le_of_lt unused within
    have none_ : count partitions nPartitions partition = 0 := by
      unfold count
      rw [Nat.div_eq_of_lt few, Nat.mod_eq_of_lt few, if_neg (Nat.not_lt.mpr unused)]
    rw [none_]
    rfl
  · rename_i used
    obtain ⟨more, counted⟩ := Nat.exists_eq_add_of_lt
      (length_assigned within (Nat.lt_of_not_le used))
    rw [counted, Nat.zero_add, Nat.add_sub_cancel, List.range_succ_eq_map, List.map_cons,
      Nat.zero_mul, Nat.zero_add, List.range'_eq_map_range, List.map_map, List.map_map]
    congr 1
    apply List.map_congr_left
    intro x _
    simp only [Function.comp_apply]
    rw [Nat.add_comm 1 x]

/-- A partition of the fork executes the partitions of the input with its remainder. -/
theorem mem_assigned {p : Nat} (within : partition < nPartitions) :
    p ∈ assigned partitions nPartitions partition ↔
      p < partitions ∧ p % nPartitions = partition := by
  have positive : 0 < nPartitions := Nat.zero_lt_of_lt within
  have whole := Nat.div_add_mod partitions nPartitions
  have remainder := Nat.mod_lt partitions positive
  rw [assigned_eq_range within, List.mem_map]
  constructor
  · rintro ⟨x, counted, rfl⟩
    have below := List.mem_range.mp counted
    refine ⟨?_, by rw [Nat.mul_comm, Nat.mul_add_mod, Nat.mod_eq_of_lt within]⟩
    unfold count at below
    rcases Nat.lt_or_ge x (partitions / nPartitions) with full | last
    · have row := Nat.mul_le_mul_right nPartitions (Nat.succ_le_of_lt full)
      rw [Nat.succ_mul, Nat.mul_comm (partitions / nPartitions)] at row
      omega
    · split at below
      · obtain rfl : x = partitions / nPartitions := by omega
        rw [Nat.mul_comm]
        omega
      · omega
  · rintro ⟨inside, same⟩
    refine ⟨p / nPartitions, List.mem_range.mpr ?_, ?_⟩
    · unfold count
      have bound : p / nPartitions ≤ partitions / nPartitions :=
        Nat.div_le_div_right (Nat.le_of_lt inside)
      rcases Nat.lt_or_eq_of_le bound with full | last
      · exact Nat.lt_add_right _ full
      · have here := Nat.div_add_mod p nPartitions
        rw [last, same] at here
        rw [last, if_pos (by omega)]
        exact Nat.lt_succ_self _
    · rw [← same, Nat.mul_comm]
      exact Nat.div_add_mod p nPartitions

theorem nodup_assigned (within : partition < nPartitions) :
    (assigned partitions nPartitions partition).Nodup := by
  rw [assigned_eq_range within]
  refine List.nodup_range.map ?_
  intro x y same
  exact Nat.eq_of_mul_eq_mul_right (Nat.zero_lt_of_lt within) (Nat.add_right_cancel same)

/-- All partitions of a chain are executed when the chain succeeds, else some of the first. -/
theorem chain_executions (input : Input E B) (partitions : List Nat) :
    (chain input partitions).1.Sublist partitions ∧
      ∀ items, (chain input partitions).2 = .ok items →
        (chain input partitions).1 = partitions := by
  induction partitions with
  | nil => exact ⟨.slnil, fun _ _ => rfl⟩
  | cons partition rest ih =>
    unfold chain
    cases input.execute partition with
    | error e => exact ⟨List.Sublist.cons_cons _ (List.nil_sublist _), fun _ made => nomatch made⟩
    | ok items =>
      refine ⟨ih.1.cons_cons _, fun all made => ?_⟩
      cases later : (chain input rest).2 with
      | error e =>
        dsimp only at made
        rw [later] at made
        cases made
      | ok others => exact congrArg (partition :: ·) (ih.2 others later)

/-! ### What a partition keeps -/

/-- Whether an item is a batch. -/
def isBatch : Except E B → Bool
  | .ok _ => true
  | .error _ => false

/-- A stream that ends without a failure has returned all of the input, which has none. -/
def Faithful (script : Except E (List (Except E B))) (branch : Branch E B) : Prop :=
  branch.ended = true → branch.yielded.all isBatch = true → script = .ok branch.yielded

/-- The batch a driving copy has not returned yet. -/
def Sending.held : Sending B → List B
  | .idle => []
  | .taken batch => [batch]
  | .pushed batch => [batch]

/-- The batch a driving copy has not sent yet. -/
def Sending.unsent : Sending B → List B
  | .taken batch => [batch]
  | _ => []

/-- What has not been sent to the other copy. -/
def Role.unsent : Role E B → List (Except E B)
  | .driving remaining sending => sending.unsent.map .ok ++ remaining
  | _ => []

/-- What the driving copy keeps: what it has returned and what it still has make up the input. -/
structure Drives (script : Except E (List (Except E B))) (branch : Branch E B) : Prop where
  faithful : Faithful script branch
  whole : ∀ remaining sending, branch.role = .driving remaining sending →
    branch.yielded.all isBatch = true →
    script = .ok (branch.yielded ++ (sending.held.map .ok ++ remaining))
  done : ∀ remaining sending, branch.role = .driving remaining sending → branch.ended = true →
    remaining = [] ∧ sending = .idle
  role : branch.role ≠ .unexecuted ∧ branch.role ≠ .receiving

/-- What the other copy keeps, until it is dropped: what it has received, the messages of the
channel and what has not been sent make up the input. -/
structure Receives (script : Except E (List (Except E B))) (lane : Lane E B)
    (driver reader : Branch E B) : Prop where
  whole : script = .ok (reader.yielded ++ (lane.queue.map .ok ++ driver.role.unsent))
  batches : reader.yielded.all isBatch = true
  closed : lane.isOpen = false → driver.role.unsent = []
  ended : reader.ended = true → lane.isOpen = false ∧ lane.queue = []
  role : reader.role = .unexecuted ∧ reader.yielded = [] ∧ reader.ended = false ∨
    reader.role = .receiving

/-- The invariant of a partition. -/
inductive Kept (script : Except E (List (Except E B))) (lane : Lane E B) : Prop where
  | fresh (idle : lane.executed = false)
      (untouched : ∀ copy, ((lane.branch copy).role = .unexecuted ∧ lane.isOpen = true ∧
        lane.queue = [] ∨ (lane.branch copy).role = .dropped) ∧
        (lane.branch copy).yielded = [] ∧ (lane.branch copy).ended = false)
  | driven (copy : Copy) (executed : lane.executed = true)
      (drives : Drives script (lane.branch copy))
      (receives : (lane.branch copy.other).role = .dropped ∧
        Faithful script (lane.branch copy.other) ∨
        Receives script lane (lane.branch copy) (lane.branch copy.other))

def Role.isDropped : Role E B → Bool
  | .dropped => true
  | _ => false

/-- The next item of the input is a failure. -/
def Role.fails : Role E B → Bool
  | .driving (.error _ :: _) .idle => true
  | _ => false

/-- Items of the input have not been taken. -/
def Role.isBehind : Role E B → Bool
  | .driving (_ :: _) _ => true
  | _ => false

/-- A step that takes nothing from a copy that may still read: while the other copy was not dropped,
the input can be executed, returns no error, and is taken to its end before the driving copy is
dropped. -/
def orderly (input : Input E B) (partitions : List Nat) (lane : Lane E B) : Event → Bool
  | .execute copy => lane.executed || (chain input partitions).2.isOk ||
    (lane.branch copy.other).role.isDropped
  | .poll copy => !(lane.branch copy).role.fails || (lane.branch copy.other).role.isDropped
  | .drop copy => !(lane.branch copy).role.isBehind || (lane.branch copy.other).role.isDropped
  | .forget => true

theorem Role.isDropped_iff {role : Role E B} : role.isDropped = true ↔ role = .dropped := by
  cases role <;> simp [isDropped]

theorem Copy.eq_or_other (copy other : Copy) : other = copy ∨ other = copy.other := by
  cases copy <;> cases other <;> simp [Copy.other]

theorem Copy.other_ne (copy : Copy) : copy.other ≠ copy := by
  cases copy <;> simp [Copy.other]

section Step

variable {input : Input E B} {partitions : List Nat} {disconnected : E} {lane : Lane E B}
  {copy : Copy} {branch : Branch E B}

theorem orderly_execute (safe : orderly input partitions lane (.execute copy) = true)
    (idle : lane.executed = false) : (∃ items, (chain input partitions).2 = .ok items) ∨
      (lane.branch copy.other).role = .dropped := by
  simp only [orderly, idle, Bool.false_or, Bool.or_eq_true, Role.isDropped_iff] at safe
  refine safe.imp_left fun succeeds => ?_
  cases result : (chain input partitions).2 with
  | ok items => exact ⟨items, rfl⟩
  | error e =>
    rw [result] at succeeds
    cases succeeds

theorem orderly_poll (safe : orderly input partitions lane (.poll copy) = true) {e : E}
    {rest : List (Except E B)}
    (failing : (lane.branch copy).role = .driving (.error e :: rest) .idle) :
    (lane.branch copy.other).role = .dropped := by
  simpa only [orderly, failing, Role.fails, Bool.not_true, Bool.false_or, Role.isDropped_iff]
    using safe

theorem orderly_drop (safe : orderly input partitions lane (.drop copy) = true)
    {remaining : List (Except E B)} {sending : Sending B}
    (driving : (lane.branch copy).role = .driving remaining sending) :
    remaining = [] ∨ (lane.branch copy.other).role = .dropped := by
  cases remaining with
  | nil => exact .inl rfl
  | cons item rest =>
    right
    simpa only [orderly, driving, Role.isBehind, Bool.not_true, Bool.false_or,
      Role.isDropped_iff] using safe

@[simp] theorem Lane.branch_set_self : (lane.set copy branch).branch copy = branch :=
  Function.update_self ..

@[simp] theorem Lane.branch_set_other :
    (lane.set copy branch).branch copy.other = lane.branch copy.other :=
  Function.update_of_ne copy.other_ne ..

@[simp] theorem Lane.branch_set_of_other :
    (lane.set copy.other branch).branch copy = lane.branch copy :=
  Function.update_of_ne copy.other_ne.symm ..

theorem all_isBatch_append {yielded : List (Except E B)} {item : Except E B}
    (all : (yielded ++ [item]).all isBatch = true) :
    yielded.all isBatch = true ∧ isBatch item = true := by
  rw [List.all_append, Bool.and_eq_true] at all
  exact ⟨all.1, by simpa using all.2⟩

variable {script : Except E (List (Except E B))}

/-- A copy that has not executed has nothing to do with the stream of a driving one. -/
theorem Drives.of_role {role : Role E B} (drives : Drives script branch)
    (apart : ∀ remaining sending, role ≠ .driving remaining sending)
    (later : role ≠ .unexecuted ∧ role ≠ .receiving) :
    Drives script { branch with role := role } where
  faithful := drives.faithful
  whole := fun _ _ here => absurd here (apart _ _)
  done := fun _ _ here => absurd here (apart _ _)
  role := later

/-- `execute` by the first copy. -/
theorem Kept.execute_first (kept : Kept (chain input partitions).2 lane)
    (idle : lane.executed = false) (unexecuted : (lane.branch copy).role = .unexecuted)
    (safe : orderly input partitions lane (.execute copy) = true) :
    Kept (chain input partitions).2 (lane.execute input partitions copy) := by
  cases kept with
  | driven _ executed => exact absurd (idle.symm.trans executed) Bool.false_ne_true
  | fresh _ untouched =>
    obtain ⟨mine, nothing, going⟩ := untouched copy
    obtain ⟨theirs, quiet, still⟩ := untouched copy.other
    have ready : lane.isOpen = true ∧ lane.queue = [] := by
      rcases mine with here | gone
      · exact here.2
      · rw [unexecuted] at gone
        cases gone
    unfold Lane.execute
    rw [if_neg (by rw [idle]; exact Bool.false_ne_true)]
    have drives : ∀ role : Role E B, role ≠ .unexecuted ∧ role ≠ .receiving →
        (∀ remaining sending, role = .driving remaining sending →
          (chain input partitions).2 = .ok (sending.held.map .ok ++ remaining)) →
        Drives (chain input partitions).2 { lane.branch copy with role := role } := by
      intro role later whole
      have never : ∀ {p : Prop}, (lane.branch copy).ended = true → p :=
        fun ended => absurd (ended.symm.trans going) (by decide)
      refine ⟨fun ended => never ended, fun remaining sending here _ => ?_,
        fun _ _ _ ended => never ended, later⟩
      dsimp only
      rw [nothing, List.nil_append]
      exact whole remaining sending here
    obtain ⟨executions, made⟩ : ∃ executions, (chain input partitions).1 = executions := ⟨_, rfl⟩
    cases result : (chain input partitions).2 with
    | ok items =>
      rw [show chain input partitions = (executions, .ok items) from Prod.ext made result]
      refine .driven copy rfl ?_ ?_
      · simp only [Lane.branch_set_self]
        refine result ▸ drives _ ⟨nofun, nofun⟩ ?_
        rintro _ _ ⟨⟩
        exact result
      · simp only [Lane.branch_set_self, Lane.branch_set_other]
        rcases theirs with ⟨unexecuted, -⟩ | gone
        · right
          refine ⟨?_, ?_, ?_, ?_, ?_⟩
          · simp [quiet, Role.unsent, Sending.unsent, Lane.set, ready.2]
          · rw [quiet]
            rfl
          · exact fun closed => absurd (ready.1.symm.trans closed) (by decide)
          · exact fun ended => absurd (ended.symm.trans still) (by decide)
          · exact .inl ⟨unexecuted, quiet, still⟩
        · left
          exact ⟨gone, fun ended => absurd (ended.symm.trans still) (by decide)⟩
    | error e =>
      rw [show chain input partitions = (executions, .error e) from Prod.ext made result]
      have gone := (orderly_execute safe idle).resolve_left fun ⟨items, found⟩ => by
        rw [result] at found
        cases found
      refine .driven copy rfl ?_ (.inl ?_)
      · simp only [Lane.branch_set_self]
        exact result ▸ drives _ ⟨nofun, nofun⟩ (fun _ _ here => nomatch here)
      · simp only [Lane.branch_set_other]
        exact ⟨gone, fun ended => absurd (ended.symm.trans still) (by decide)⟩

/-- `execute` by the second copy. -/
theorem Kept.execute_second (kept : Kept script lane) (executed : lane.executed = true)
    (unexecuted : (lane.branch copy).role = .unexecuted) :
    Kept script (lane.execute input partitions copy) := by
  unfold Lane.execute
  rw [if_pos executed]
  cases kept with
  | fresh idle => exact absurd (idle.symm.trans executed) Bool.false_ne_true
  | driven driver _ drives receives =>
    rcases Copy.eq_or_other driver copy with rfl | rfl
    · exact absurd unexecuted drives.role.1
    · have receives := receives.resolve_left fun ⟨gone, _⟩ => by
        rw [unexecuted] at gone
        cases gone
      refine .driven driver executed ?_ (.inr ?_)
      · simpa only [Lane.branch_set_of_other] using drives
      · simp only [Lane.branch_set_of_other, Lane.branch_set_self]
        exact ⟨receives.whole, receives.batches, receives.closed, receives.ended, .inr rfl⟩

section Poll

variable {script : Except E (List (Except E B))} {remaining : List (Except E B)}
  {sending : Sending B}

/-- What a step of the driving copy has to show: its own part, and that it moves the batches on for
the other one. -/
theorem Kept.of_driver {after : Lane E B} (executed : after.executed = true)
    (drives : Drives script (after.branch copy))
    (same : after.branch copy.other = lane.branch copy.other)
    (receives : (lane.branch copy.other).role = .dropped ∧
        Faithful script (lane.branch copy.other) ∨
      Receives script lane (lane.branch copy) (lane.branch copy.other))
    (passes : Receives script lane (lane.branch copy) (lane.branch copy.other) →
      Receives script after (after.branch copy) (lane.branch copy.other)) : Kept script after := by
  refine .driven copy executed drives ?_
  rw [same]
  exact receives.imp_right passes

/-- The end of the input closes the channel. -/
theorem Kept.poll_end (executed : lane.executed = true)
    (driving : (lane.branch copy).role = .driving [] .idle)
    (drives : Drives script (lane.branch copy))
    (receives : (lane.branch copy.other).role = .dropped ∧
        Faithful script (lane.branch copy.other) ∨
      Receives script lane (lane.branch copy) (lane.branch copy.other)) :
    Kept script (lane.pollDriving disconnected copy [] .idle) := by
  refine Kept.of_driver executed ?_ Lane.branch_set_other receives fun reads => ?_
  · simp only [Lane.pollDriving, Lane.branch_set_self]
    refine ⟨fun _ all => ?_, drives.whole, fun _ _ here _ => ?_, drives.role⟩
    · have whole := drives.whole [] .idle driving all
      simpa [Sending.held] using whole
    · rw [driving] at here
      cases here
      exact ⟨rfl, rfl⟩
  · simp only [Lane.pollDriving, Lane.branch_set_self]
    refine ⟨reads.whole, reads.batches, fun _ => ?_, fun ended => ⟨rfl, (reads.ended ended).2⟩,
      reads.role⟩
    dsimp only
    rw [driving]
    rfl

variable {rest : List (Except E B)}

/-- Whatever the driving copy does with a batch it holds, it returns it or fails. -/
theorem Drives.yield_batch {batch : B} (drives : Drives script branch)
    (driving : branch.role = .driving rest sending) (held : sending.held = [batch]) :
    Drives script (branch.yield (.ok batch) (.driving rest .idle)) := by
  have going : branch.ended = true → False := by
    intro ended
    obtain ⟨-, rfl⟩ := drives.done rest sending driving ended
    cases held
  refine ⟨fun ended => (going ended).elim, fun remaining later here all => ?_,
    fun _ _ _ ended => (going ended).elim, nofun, nofun⟩
  cases here
  have whole := drives.whole rest sending driving (all_isBatch_append all).1
  rw [held] at whole
  rw [whole]
  simp [Branch.yield, Sending.held]

/-- A copy that has returned an error is not held to anything. -/
theorem Drives.yield_error {e : E} (drives : Drives script branch)
    (driving : branch.role = .driving remaining sending)
    (going : ¬ (remaining = [] ∧ sending = .idle)) :
    Drives script (branch.yield (.error e) (.driving rest .idle)) := by
  have open_ : branch.ended = true → False := fun ended => going (drives.done _ _ driving ended)
  refine ⟨fun ended => (open_ ended).elim, fun _ _ _ all => ?_,
    fun _ _ _ ended => (open_ ended).elim, nofun, nofun⟩
  exact absurd (all_isBatch_append all).2 Bool.false_ne_true

/-- A step in which the driving copy keeps its batches. -/
theorem Drives.move {later : Sending B} (drives : Drives script branch)
    (driving : branch.role = .driving remaining sending)
    (going : ¬ (remaining = [] ∧ sending = .idle))
    (same : sending.held.map .ok ++ remaining = later.held.map .ok ++ rest) :
    Drives script { branch with role := .driving rest later } := by
  have open_ : branch.ended = true → False := fun ended => going (drives.done _ _ driving ended)
  refine ⟨fun ended => (open_ ended).elim, fun _ _ here all => ?_,
    fun _ _ _ ended => (open_ ended).elim, nofun, nofun⟩
  cases here
  rw [drives.whole _ _ driving all, same]

/-- A step of the driving copy. -/
theorem Kept.poll_driving (executed : lane.executed = true)
    (driving : (lane.branch copy).role = .driving remaining sending)
    (drives : Drives script (lane.branch copy))
    (receives : (lane.branch copy.other).role = .dropped ∧
        Faithful script (lane.branch copy.other) ∨
      Receives script lane (lane.branch copy) (lane.branch copy.other))
    (safe : orderly input partitions lane (.poll copy) = true) :
    Kept script (lane.pollDriving disconnected copy remaining sending) := by
  cases sending with
  | idle =>
    cases remaining with
    | nil => exact Kept.poll_end executed driving drives receives
    | cons item rest =>
      cases item with
      | error e =>
        have gone := orderly_poll safe driving
        refine Kept.of_driver executed ?_ Lane.branch_set_other receives fun reads => ?_
        · simp only [Lane.pollDriving, Lane.branch_set_self]
          exact drives.yield_error driving (fun none_ => nomatch none_.1)
        · rcases reads.role with ⟨here, -⟩ | here
          · exact nomatch here.symm.trans gone
          · exact nomatch here.symm.trans gone
      | ok batch =>
        refine Kept.of_driver executed ?_ Lane.branch_set_other receives fun reads => ?_
        · simp only [Lane.pollDriving, Lane.branch_set_self]
          exact drives.move driving (fun none_ => nomatch none_.1) rfl
        · simp only [Lane.pollDriving, Lane.branch_set_self]
          refine ⟨?_, reads.batches, fun closed => ?_, reads.ended, reads.role⟩
          · rw [reads.whole, driving]
            rfl
          · have unsent := reads.closed closed
            rw [driving] at unsent
            cases unsent
  | taken batch =>
    unfold Lane.pollDriving
    dsimp only
    split
    · rename_i open_
      refine Kept.of_driver executed ?_ Lane.branch_set_other receives fun reads => ?_
      · simp only [Lane.branch_set_self]
        exact drives.move driving (fun none_ => nomatch none_.2) rfl
      · simp only [Lane.branch_set_self]
        refine ⟨?_, reads.batches, fun closed => ?_, fun ended => ?_, reads.role⟩
        · rw [reads.whole, driving]
          simp [Role.unsent, Sending.unsent]
        · exact absurd (open_.symm.trans closed) (by decide)
        · exact absurd (open_.symm.trans (reads.ended ended).1) (by decide)
    · rename_i closed
      refine Kept.of_driver executed ?_ Lane.branch_set_other receives fun reads => ?_
      · simp only [Lane.branch_set_self]
        exact drives.yield_error driving (fun none_ => nomatch none_.2)
      · have unsent := reads.closed (Bool.eq_false_iff.mpr closed)
        rw [driving] at unsent
        cases unsent
  | pushed batch =>
    unfold Lane.pollDriving
    dsimp only
    split
    · exact .driven copy executed drives receives
    · refine Kept.of_driver executed ?_ Lane.branch_set_other receives fun reads => ?_
      · simp only [Lane.branch_set_self]
        exact drives.yield_batch driving rfl
      · simp only [Lane.branch_set_self]
        have same : (lane.branch copy).role.unsent = (Branch.yield (lane.branch copy) (.ok batch)
            (.driving remaining .idle)).role.unsent := by
          rw [driving]
          rfl
        refine ⟨?_, reads.batches, fun closed => ?_, reads.ended, reads.role⟩
        · rw [reads.whole, same]
          rfl
        · rw [← same]
          exact reads.closed closed

/-- A step of the copy that receives. -/
theorem Kept.poll_receiving (kept : Kept script lane)
    (receiving : (lane.branch copy).role = .receiving) :
    Kept script (lane.pollReceiving copy) := by
  cases kept with
  | fresh _ untouched =>
    rcases (untouched copy).1 with ⟨here, -⟩ | here
    · exact nomatch here.symm.trans receiving
    · exact nomatch here.symm.trans receiving
  | driven driver executed drives receives =>
    rcases Copy.eq_or_other driver copy with rfl | rfl
    · exact absurd receiving drives.role.2
    · have reads := receives.resolve_left fun ⟨gone, _⟩ => nomatch gone.symm.trans receiving
      unfold Lane.pollReceiving
      split
      · rename_i batch rest messages
        refine .driven driver executed ?_ (.inr ?_)
        · simpa only [Lane.branch_set_of_other] using drives
        · simp only [Lane.branch_set_of_other, Lane.branch_set_self]
          refine ⟨?_, ?_, reads.closed, fun ended => ?_, .inr rfl⟩
          · rw [reads.whole, messages]
            simp [Branch.yield]
          · simp [Branch.yield, reads.batches, isBatch]
          · have empty := (reads.ended ended).2
            rw [messages] at empty
            cases empty
      · rename_i messages
        split
        · exact .driven driver executed drives receives
        · rename_i closed
          refine .driven driver executed ?_ (.inr ?_)
          · simpa only [Lane.branch_set_of_other] using drives
          · simp only [Lane.branch_set_of_other, Lane.branch_set_self]
            exact ⟨reads.whole, reads.batches, reads.closed,
              fun _ => ⟨Bool.eq_false_iff.mpr closed, messages⟩, .inr receiving⟩

end Poll

section Drop

variable {script : Except E (List (Except E B))}

/-- A copy that has read to the end has read everything. -/
theorem Receives.faithful {driver reader : Branch E B}
    (reads : Receives script lane driver reader) : Faithful script reader := by
  intro ended _
  obtain ⟨closed, empty⟩ := reads.ended ended
  have whole := reads.whole
  rwa [empty, reads.closed closed, List.map_nil, List.append_nil, List.append_nil] at whole

/-- The driving copy is dropped with nothing left to send, or with nobody to send it to. -/
theorem Kept.drop_driver {remaining : List (Except E B)} {sending : Sending B}
    (executed : lane.executed = true)
    (driving : (lane.branch copy).role = .driving remaining sending)
    (sent : sending.unsent = []) (drives : Drives script (lane.branch copy))
    (receives : (lane.branch copy.other).role = .dropped ∧
        Faithful script (lane.branch copy.other) ∨
      Receives script lane (lane.branch copy) (lane.branch copy.other))
    (rest : remaining = [] ∨ (lane.branch copy.other).role = .dropped) :
    Kept script
      { lane.set copy { lane.branch copy with role := .dropped } with isOpen := false } := by
  refine Kept.of_driver executed ?_ Lane.branch_set_other receives fun reads => ?_
  · simp only [Lane.branch_set_self]
    exact drives.of_role (fun _ _ => nofun) ⟨nofun, nofun⟩
  · simp only [Lane.branch_set_self]
    have finished : remaining = [] := rest.resolve_right fun gone => by
      rcases reads.role with ⟨here, -⟩ | here
      · exact nomatch here.symm.trans gone
      · exact nomatch here.symm.trans gone
    have unsent : (lane.branch copy).role.unsent = [] := by
      rw [driving, Role.unsent, sent, finished]
      rfl
    refine ⟨?_, reads.batches, fun _ => rfl, fun ended => ⟨rfl, (reads.ended ended).2⟩,
      reads.role⟩
    rw [reads.whole, unsent]
    rfl

/-- The other copy is dropped; it is not held to anything it has not read. -/
theorem Kept.drop_reader {after : Lane E B} (executed : after.executed = true)
    (drives : Drives script (lane.branch copy))
    (same : after.branch copy = lane.branch copy)
    (dropped : after.branch copy.other = { lane.branch copy.other with role := .dropped })
    (faithful : Faithful script (lane.branch copy.other)) : Kept script after := by
  refine .driven copy executed (same ▸ drives) (.inl ?_)
  rw [dropped]
  exact ⟨rfl, faithful⟩

/-- A copy is dropped. -/
theorem Kept.drop (kept : Kept script lane)
    (safe : orderly input partitions lane (.drop copy) = true) :
    Kept script (lane.drop copy) := by
  cases kept with
  | fresh idle untouched =>
    rcases (untouched copy).1 with ⟨here, -⟩ | here
    · simp only [Lane.drop, here]
      refine .fresh idle fun one => ?_
      rcases Copy.eq_or_other copy one with rfl | rfl
      · simp only [Lane.branch_set_self]
        exact ⟨.inr trivial, (untouched one).2⟩
      · simp only [Lane.branch_set_other]
        exact untouched copy.other
    · simp only [Lane.drop, here]
      exact .fresh idle untouched
  | driven driver executed drives receives =>
    have kept : Kept script lane := .driven driver executed drives receives
    rcases Copy.eq_or_other driver copy with rfl | rfl
    · cases role : (lane.branch copy).role with
      | unexecuted => exact absurd role drives.role.1
      | receiving => exact absurd role drives.role.2
      | failed => simpa only [Lane.drop, role] using kept
      | dropped => simpa only [Lane.drop, role] using kept
      | driving remaining sending =>
        have drops := fun sent => Kept.drop_driver executed role sent drives receives
          (orderly_drop safe role)
        cases sending with
        | idle => simpa only [Lane.drop, role] using drops rfl
        | taken batch => simpa only [Lane.drop, role] using kept
        | pushed batch => simpa only [Lane.drop, role] using drops rfl
    · rcases receives with ⟨gone, faithful⟩ | reads
      · simpa only [Lane.drop, gone] using kept
      · rcases reads.role with ⟨here, -⟩ | here
        · simp only [Lane.drop, here]
          exact Kept.drop_reader executed drives Lane.branch_set_of_other Lane.branch_set_self
            reads.faithful
        · simp only [Lane.drop, here]
          exact Kept.drop_reader executed drives Lane.branch_set_of_other Lane.branch_set_self
            reads.faithful

/-- The nodes are dropped, when no copy may read any more. -/
theorem Kept.forget (kept : Kept script lane) : Kept script lane.forget := by
  unfold Lane.forget
  split
  · exact kept
  · rename_i nobody
    have silent : ∀ copy, (lane.branch copy).role.mayRead = false := by
      intro copy
      have both := not_or.mp nobody
      cases copy
      · exact Bool.eq_false_iff.mpr both.1
      · exact Bool.eq_false_iff.mpr both.2
    cases kept with
    | fresh idle untouched =>
      refine .fresh idle fun copy => ⟨.inr ?_, (untouched copy).2⟩
      refine (untouched copy).1.resolve_left fun ⟨here, _⟩ => ?_
      have reads := silent copy
      rw [here] at reads
      cases reads
    | driven driver executed drives receives =>
      refine .driven driver executed drives (.inl (receives.resolve_right fun reads => ?_))
      have silent := silent driver.other
      rcases reads.role with ⟨here, -⟩ | here
      · rw [here] at silent
        cases silent
      · rw [here] at silent
        cases silent

end Drop

/-- Every orderly step keeps the invariant. -/
theorem Kept.step (kept : Kept (chain input partitions).2 lane) {event : Event}
    (safe : orderly input partitions lane event = true) :
    Kept (chain input partitions).2 (lane.step input partitions disconnected event) := by
  cases event with
  | execute copy =>
    unfold Lane.step
    dsimp only
    split
    · rename_i unexecuted
      cases state : lane.executed with
      | false => exact kept.execute_first state unexecuted safe
      | true => exact kept.execute_second state unexecuted
    · exact kept
  | poll copy =>
    unfold Lane.step Lane.poll
    dsimp only
    split
    · rename_i remaining sending driving
      cases kept with
      | fresh _ untouched =>
        rcases (untouched copy).1 with ⟨here, -⟩ | here
        · exact nomatch here.symm.trans driving
        · exact nomatch here.symm.trans driving
      | driven driver executed drives receives =>
        rcases Copy.eq_or_other driver copy with rfl | rfl
        · exact Kept.poll_driving executed driving drives receives safe
        · rcases receives with ⟨gone, -⟩ | reads
          · exact nomatch gone.symm.trans driving
          · rcases reads.role with ⟨here, -⟩ | here
            · exact nomatch here.symm.trans driving
            · exact nomatch here.symm.trans driving
    · rename_i receiving
      exact kept.poll_receiving receiving
    · exact kept
  | drop copy => exact kept.drop safe
  | forget => exact kept.forget

/-- In a partition that keeps the invariant no copy takes a part of the input for all of it. -/
theorem Kept.faithful (kept : Kept script lane) (copy : Copy) :
    Faithful script (lane.branch copy) := by
  cases kept with
  | fresh _ untouched =>
    exact fun ended => absurd (ended.symm.trans (untouched copy).2.2) (by decide)
  | driven driver _ drives receives =>
    rcases Copy.eq_or_other driver copy with rfl | rfl
    · exact drives.faithful
    · rcases receives with ⟨-, faithful⟩ | reads
      · exact faithful
      · exact reads.faithful

theorem Kept.initial (script : Except E (List (Except E B))) :
    Kept script (Lane.initial : Lane E B) :=
  .fresh rfl fun _ => ⟨.inl ⟨rfl, rfl, rfl⟩, rfl, rfl⟩

/-! ### What is executed -/

/-- The partitions of the input that a partition has executed: all of its own, unless one of them
has failed. -/
structure Counted (input : Input E B) (partitions : List Nat) (lane : Lane E B) : Prop where
  before : lane.executed = false → lane.executions = []
  after : lane.executed = true → lane.executions = (chain input partitions).1
  failed : lane.executed = true → ∀ e, (chain input partitions).2 = .error e →
    ∃ copy, (lane.branch copy).role = .failed

/-- A step of a copy that has not failed. -/
theorem Counted.set {after : Lane E B} (counted : Counted input partitions lane)
    (executed : after.executed = lane.executed) (executions : after.executions = lane.executions)
    (branches : ∃ copy branch, (lane.branch copy).role ≠ .failed ∧
      after.branch = (lane.set copy branch).branch) : Counted input partitions after := by
  refine ⟨fun idle => ?_, fun ran => ?_, fun ran e wrong => ?_⟩
  · rw [executions, counted.before (executed ▸ idle)]
  · rw [executions, counted.after (executed ▸ ran)]
  · obtain ⟨broken, failed⟩ := counted.failed (executed ▸ ran) e wrong
    obtain ⟨copy, branch, fine, branches⟩ := branches
    refine ⟨broken, ?_⟩
    rw [branches]
    rcases Copy.eq_or_other copy broken with rfl | rfl
    · exact absurd failed fine
    · rw [Lane.branch_set_other, failed]

theorem Counted.execute (counted : Counted input partitions lane)
    (unexecuted : (lane.branch copy).role = .unexecuted) :
    Counted input partitions (lane.execute input partitions copy) := by
  unfold Lane.execute
  split
  · exact counted.set rfl rfl ⟨copy, _, unexecuted ▸ nofun, rfl⟩
  · rename_i idle
    have nothing := counted.before (Bool.eq_false_iff.mpr idle)
    split
    · rename_i executions items result
      refine ⟨nofun, fun _ => ?_, fun _ e wrong => ?_⟩
      · rw [result]
        simp [nothing]
      · rw [result] at wrong
        cases wrong
    · rename_i executions e result
      refine ⟨nofun, fun _ => ?_, fun _ _ _ => ⟨copy, ?_⟩⟩
      · rw [result]
        simp [nothing]
      · simp

theorem Counted.pollDriving {remaining : List (Except E B)} {sending : Sending B}
    (counted : Counted input partitions lane) (fine : (lane.branch copy).role ≠ .failed) :
    Counted input partitions (lane.pollDriving disconnected copy remaining sending) := by
  unfold Lane.pollDriving
  split
  · exact counted.set rfl rfl ⟨copy, _, fine, rfl⟩
  · exact counted.set rfl rfl ⟨copy, _, fine, rfl⟩
  · exact counted.set rfl rfl ⟨copy, _, fine, rfl⟩
  · split
    · exact counted.set rfl rfl ⟨copy, _, fine, rfl⟩
    · exact counted.set rfl rfl ⟨copy, _, fine, rfl⟩
  · split
    · exact counted
    · exact counted.set rfl rfl ⟨copy, _, fine, rfl⟩

theorem Counted.pollReceiving (counted : Counted input partitions lane)
    (fine : (lane.branch copy).role ≠ .failed) :
    Counted input partitions (lane.pollReceiving copy) := by
  unfold Lane.pollReceiving
  split
  · exact counted.set rfl rfl ⟨copy, _, fine, rfl⟩
  · split
    · exact counted
    · exact counted.set rfl rfl ⟨copy, _, fine, rfl⟩

/-- No step executes anything but the first `execute`. -/
theorem Counted.step (counted : Counted input partitions lane) (event : Event) :
    Counted input partitions (lane.step input partitions disconnected event) := by
  cases event with
  | execute copy =>
    unfold Lane.step
    dsimp only
    split
    · rename_i unexecuted
      exact counted.execute unexecuted
    · exact counted
  | poll copy =>
    unfold Lane.step Lane.poll
    dsimp only
    split
    · rename_i driving
      exact counted.pollDriving (driving ▸ nofun)
    · rename_i receiving
      exact counted.pollReceiving (receiving ▸ nofun)
    · exact counted
  | drop copy =>
    unfold Lane.step Lane.drop
    dsimp only
    split
    · rename_i role
      exact counted.set rfl rfl ⟨copy, _, role ▸ nofun, rfl⟩
    · exact counted
    · rename_i role
      exact counted.set rfl rfl ⟨copy, _, role ▸ nofun, rfl⟩
    · rename_i role
      exact counted.set rfl rfl ⟨copy, _, role ▸ nofun, rfl⟩
    · exact counted
    · exact counted
  | forget =>
    unfold Lane.step Lane.forget
    dsimp only
    split
    · exact counted
    · exact ⟨counted.before, counted.after, counted.failed⟩

end Step

/-! ### Runs -/

/-- Both copies, by partition. -/
abbrev Fork (E B : Type) (n : Nat) := Fin n → Lane E B

section Run

variable (input : Input E B) (disconnected : E) {n : Nat}

/-- The partitions of the input that a partition of the fork is to execute. -/
def Input.of (partition : Fin n) : List Nat := assigned input.partitions n partition

/-- An event of a partition. -/
def step (fork : Fork E B n) (event : Fin n × Event) : Fork E B n :=
  Function.update fork event.1
    ((fork event.1).step input (input.of event.1) disconnected event.2)

/-- A run. -/
def run (fork : Fork E B n) (events : List (Fin n × Event)) : Fork E B n :=
  events.foldl (step input disconnected) fork

/-- `fork_node`. -/
def forkNode : Fork E B n := fun _ => .initial

/-- Every step of a run is orderly. -/
def orderlyRun (fork : Fork E B n) : List (Fin n × Event) → Bool
  | [] => true
  | event :: events => orderly input (input.of event.1) (fork event.1) event.2 &&
    orderlyRun (step input disconnected fork event) events

/-- How often a partition of the input was executed. -/
def executions (fork : Fork E B n) (p : Nat) : Nat :=
  ∑ partition, (fork partition).executions.count p

/-- What is to hold after a run. -/
structure Forked (fork : Fork E B n) : Prop where
  faithful : ∀ partition copy,
    Faithful (chain input (input.of partition)).2 ((fork partition).branch copy)
  atMostOnce : ∀ p, executions fork p ≤ 1
  once : ∀ p, p < input.partitions → ∀ positive : 0 < n,
    (fork ⟨p % n, Nat.mod_lt p positive⟩).executed = true →
    (∀ copy, ((fork ⟨p % n, Nat.mod_lt p positive⟩).branch copy).role ≠ .failed) →
    executions fork p = 1

variable {input disconnected} {fork : Fork E B n} {events : List (Fin n × Event)}

/-- A step changes one partition. -/
theorem step_invariant {I : Fin n → Lane E B → Prop} {event : Fin n × Event}
    (here : ∀ partition, I partition (fork partition))
    (kept : I event.1 ((fork event.1).step input (input.of event.1) disconnected event.2))
    (partition : Fin n) : I partition (step input disconnected fork event partition) := by
  unfold step
  by_cases same : partition = event.1
  · subst same
    rwa [Function.update_self]
  · rw [Function.update_of_ne same]
    exact here partition

theorem counted_run (counted : ∀ partition, Counted input (input.of partition) (fork partition))
    (partition : Fin n) :
    Counted input (input.of partition) (run input disconnected fork events partition) := by
  induction events generalizing fork with
  | nil => exact counted partition
  | cons event events ih =>
    exact ih (step_invariant counted ((counted event.1).step event.2))

theorem kept_run (kept : ∀ partition, Kept (chain input (input.of partition)).2 (fork partition))
    (safe : orderlyRun input disconnected fork events = true) (partition : Fin n) :
    Kept (chain input (input.of partition)).2 (run input disconnected fork events partition) := by
  induction events generalizing fork with
  | nil => exact kept partition
  | cons event events ih =>
    obtain ⟨first, later⟩ := (Bool.and_eq_true _ _).mp safe
    exact ih (step_invariant kept ((kept event.1).step first)) later

theorem counted_forkNode (partition : Fin n) :
    Counted input (input.of partition) ((forkNode : Fork E B n) partition) :=
  ⟨fun _ => rfl, nofun, nofun⟩

/-- A partition executes partitions of its own, each once. -/
theorem executions_sublist (partition : Fin n) :
    (run input disconnected forkNode events partition).executions.Sublist (input.of partition) := by
  have counted : Counted input (input.of partition)
      (run input disconnected forkNode events partition) :=
    counted_run counted_forkNode partition
  cases executed : (run input disconnected forkNode events partition).executed with
  | false =>
    rw [counted.before executed]
    exact List.nil_sublist _
  | true =>
    rw [counted.after executed]
    exact (chain_executions input _).1

/-- Each partition of the input is executed by the fork partition of its remainder. -/
theorem executions_eq (p : Nat) (positive : 0 < n) :
    executions (run input disconnected forkNode events) p =
      (run input disconnected forkNode events
        ⟨p % n, Nat.mod_lt p positive⟩).executions.count p := by
  refine Finset.sum_eq_single _ (fun partition _ apart => ?_) fun absent =>
    absurd (Finset.mem_univ _) absent
  apply List.count_eq_zero.mpr
  intro member
  have own := (executions_sublist partition).subset member
  exact apart (Fin.ext ((mem_assigned partition.2).mp own).2.symm)

/-- In a run in which nothing is lost, each partition of the input is executed once, and a stream
that ends without an error has returned all of its partitions. -/
theorem fork_faithful (safe : orderlyRun input disconnected forkNode events = true) :
    Forked input (run input disconnected forkNode events) where
  faithful partition copy :=
    (kept_run (fun _ => Kept.initial _) safe partition).faithful copy
  atMostOnce p := by
    rcases Nat.eq_zero_or_pos n with rfl | positive
    · exact Nat.zero_le 1
    · rw [executions_eq p positive]
      have own : (run input disconnected forkNode events
          ⟨p % n, Nat.mod_lt p positive⟩).executions.Sublist _ := executions_sublist _
      exact List.nodup_iff_count_le_one.mp
        ((nodup_assigned (Nat.mod_lt p positive)).sublist own) p
  once p used positive executed fine := by
    rw [executions_eq p positive]
    have counted : Counted input (input.of ⟨p % n, Nat.mod_lt p positive⟩)
        (run input disconnected forkNode events ⟨p % n, Nat.mod_lt p positive⟩) :=
      counted_run counted_forkNode _
    have all : ∃ items, (chain input (input.of ⟨p % n, Nat.mod_lt p positive⟩)).2 = .ok items := by
      cases result : (chain input (input.of ⟨p % n, Nat.mod_lt p positive⟩)).2 with
      | ok items => exact ⟨items, rfl⟩
      | error e =>
        obtain ⟨copy, failed⟩ := counted.failed executed e result
        exact absurd failed (fine copy)
    obtain ⟨items, result⟩ := all
    rw [counted.after executed, (chain_executions input _).2 items result]
    exact List.count_eq_one_of_mem (nodup_assigned (Nat.mod_lt p positive))
      ((mem_assigned (Nat.mod_lt p positive)).mpr ⟨used, rfl⟩)

/-! ### Two runs -/

/-- One partition with two batches. -/
def twoBatches : Input String Nat := ⟨1, fun _ => .ok [.ok 1, .ok 2]⟩

/-- One partition that fails after its first batch. -/
def failsLater : Input String Nat := ⟨1, fun _ => .ok [.ok 1, .error "lost"]⟩

/-- Both copies execute the partition; the left one drives. -/
def bothExecute : List (Fin 1 × Event) := [(0, .execute .left), (0, .execute .right)]

/-- The left copy sends a batch, and the right one receives it. -/
def passOne : List (Fin 1 × Event) :=
  [(0, .poll .left), (0, .poll .left), (0, .poll .right), (0, .poll .left)]

/-- Both copies read to the end, and the driving one is dropped before the other one has noticed. -/
theorem fork_faithful_drained :
    let fork := run twoBatches "disconnected" forkNode (bothExecute ++ passOne ++ passOne ++
      [(0, .poll .left), (0, .drop .left), (0, .poll .right)])
    Forked twoBatches fork ∧ ((fork 0).branch .right).ended = true ∧
      ((fork 0).branch .right).yielded = [.ok 1, .ok 2] :=
  ⟨fork_faithful rfl, rfl, rfl⟩

/-- The left copy is dropped before the second batch, or the input fails there: the right copy ends
as if the first batch were all. -/
theorem fork_truncated :
    ¬ Forked twoBatches (run twoBatches "disconnected" forkNode
      (bothExecute ++ passOne ++ [(0, .drop .left), (0, .poll .right)])) ∧
    ¬ Forked failsLater (run failsLater "disconnected" forkNode
      (bothExecute ++ passOne ++ [(0, .poll .left), (0, .drop .left), (0, .poll .right)])) := by
  constructor
  · intro forked
    have whole := forked.faithful 0 .right rfl rfl
    cases whole
  · intro forked
    have whole := forked.faithful 0 .right rfl rfl
    cases whole

end Run

end IcebergRust.ForkNode
