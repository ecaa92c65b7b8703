import Mathlib.Data.List.Basic

/-!
# Optimistic commits

Clients read some committed version of a shared value, prepare a commit from it and send
it; a commit is applied to whatever version is current when it arrives, or rejected.
Preparing may also change a world all clients share, such as an object store.

* `step` performs one event, and `run` a list of events: every interleaving of any number
  of clients is one list.  Failed preparations and rejected commits change nothing.
* `History` is what the list of accepted commits satisfies after any run
  (`history_run`); properties of versions are proved by induction on it.
* `Guarded` states that all steps of a run meet a condition, and `run_invariant` is the
  induction over such runs.
-/

namespace Optimistic

/-- How commits are prepared and applied. `E` is what applying reads from outside. -/
structure Protocol (S W R C E : Type) where
  /-- Preparing a request from a version: the world afterwards, and the commit if there is one. -/
  prepare : R → S → W → Option (W × Option C)
  /-- Applying a commit to the current version; `none` rejects it. -/
  apply : C → E → S → Option S

/-- A commit on its way, with the version it was prepared from. -/
structure Proposal (S R C : Type) where
  base : S
  request : R
  commit : C

/-- An accepted commit, with the versions before and after it. -/
structure Accepted (S R C E : Type) where
  proposal : Proposal S R C
  environment : E
  current : S
  next : S

/-- The clients and the catalog. The accepted commits are listed newest first. -/
structure State (S W R C E : Type) where
  initial : S
  world : W
  pending : List (Proposal S R C)
  accepted : List (Accepted S R C E)

/-- One step of some client. A client names the version it reads by how many commits ago it was
current, and a commit by its place among those on their way. -/
inductive Event (R E : Type) where
  | prepare (age : Nat) (request : R)
  | send (place : Nat) (environment : E)

variable {S W R C E : Type}

/-- The version left by accepted commits. -/
def latest (initial : S) : List (Accepted S R C E) → S
  | [] => initial
  | newest :: _ => newest.next

/-- All committed versions, newest first. -/
def versions (initial : S) (accepted : List (Accepted S R C E)) : List S :=
  accepted.map (·.next) ++ [initial]

namespace State

def start (initial : S) (world : W) : State S W R C E := ⟨initial, world, [], []⟩

/-- The current version. -/
def current (state : State S W R C E) : S := latest state.initial state.accepted

/-- The committed versions of a state, newest first. -/
def versions (state : State S W R C E) : List S := Optimistic.versions state.initial state.accepted

end State

variable (protocol : Protocol S W R C E)

/-- One event. -/
def step (state : State S W R C E) : Event R E → State S W R C E
  | .prepare age request =>
    match state.versions[age]? with
    | none => state
    | some base =>
      match protocol.prepare request base state.world with
      | none => state
      | some (world, none) => { state with world }
      | some (world, some commit) =>
        { state with world, pending := state.pending ++ [⟨base, request, commit⟩] }
  | .send place environment =>
    match state.pending[place]? with
    | none => state
    | some proposal =>
      let pending := state.pending.eraseIdx place
      match protocol.apply proposal.commit environment state.current with
      | none => { state with pending }
      | some next =>
        { state with
          pending
          accepted := ⟨proposal, environment, state.current, next⟩ :: state.accepted }

/-- A run. -/
def run (state : State S W R C E) (events : List (Event R E)) : State S W R C E :=
  events.foldl (step protocol) state

/-! ### Inversion of a step -/

/-- What a step can do: nothing to the proposals and versions, add a proposal prepared from a
committed version, drop one, or accept one. -/
inductive Stepped (state : State S W R C E) : State S W R C E → Prop
  | idle : Stepped state state
  | touched {base : S} {request : R} {world : W} (known : base ∈ state.versions)
      (prepared : protocol.prepare request base state.world = some (world, none)) :
      Stepped state { state with world }
  | proposed {base : S} {request : R} {world : W} {commit : C} (known : base ∈ state.versions)
      (prepared : protocol.prepare request base state.world = some (world, some commit)) :
      Stepped state { state with world, pending := state.pending ++ [⟨base, request, commit⟩] }
  | rejected (place : Nat) : Stepped state { state with pending := state.pending.eraseIdx place }
  | accepted {proposal : Proposal S R C} {environment : E} {next : S} (place : Nat)
      (sent : proposal ∈ state.pending)
      (applied : protocol.apply proposal.commit environment state.current = some next) :
      Stepped state { state with
        pending := state.pending.eraseIdx place
        accepted := ⟨proposal, environment, state.current, next⟩ :: state.accepted }

variable {protocol}

/-- Preparing a request leaves the state alone, or puts the commit among the proposals. -/
theorem step_prepare (state : State S W R C E) (age : Nat) (request : R) :
    step protocol state (.prepare age request) = state ∨
      ∃ base ∈ state.versions, ∃ world sent,
        protocol.prepare request base state.world = some (world, sent) ∧
        step protocol state (.prepare age request) =
          { state with world, pending := state.pending ++ (sent.map (⟨base, request, ·⟩)).toList } := by
  cases found : state.versions[age]? with
  | none => exact .inl (by simp [step, found])
  | some base =>
    have known : base ∈ state.versions := List.mem_of_getElem? found
    cases prepared : protocol.prepare request base state.world with
    | none => exact .inl (by simp [step, found, prepared])
    | some result =>
      obtain ⟨world, sent⟩ := result
      refine .inr ⟨base, known, world, sent, prepared, ?_⟩
      cases sent <;> simp [step, found, prepared]

/-- Sending a commit leaves the state alone, drops a proposal, or has it accepted. -/
theorem step_send (state : State S W R C E) (place : Nat) (environment : E) :
    step protocol state (.send place environment) = state ∨
      step protocol state (.send place environment) =
        { state with pending := state.pending.eraseIdx place } ∨
      ∃ proposal ∈ state.pending, ∃ next,
        protocol.apply proposal.commit environment state.current = some next ∧
        step protocol state (.send place environment) =
          { state with
            pending := state.pending.eraseIdx place
            accepted := ⟨proposal, environment, state.current, next⟩ :: state.accepted } := by
  cases found : state.pending[place]? with
  | none => exact .inl (by simp [step, found])
  | some proposal =>
    have sent : proposal ∈ state.pending := List.mem_of_getElem? found
    cases applied : protocol.apply proposal.commit environment state.current with
    | none => exact .inr (.inl (by simp [step, found, applied]))
    | some next =>
      exact .inr (.inr ⟨proposal, sent, next, applied, by simp [step, found, applied]⟩)

theorem step_stepped (state : State S W R C E) (event : Event R E) :
    Stepped protocol state (step protocol state event) := by
  cases event with
  | prepare age request =>
    rcases step_prepare state age request with same | ⟨base, known, world, sent, prepared, same⟩
    · rw [same]
      exact .idle
    · rw [same]
      cases sent with
      | none => simpa using Stepped.touched known prepared
      | some commit => exact .proposed known prepared
  | send place environment =>
    rcases step_send state place environment with same | same |
      ⟨proposal, sent, next, applied, same⟩
    · rw [same]
      exact .idle
    · rw [same]
      exact .rejected place
    · rw [same]
      exact .accepted place sent applied

/-! ### Invariants of runs -/

/-- All steps of a run meet a condition on the state before the step and the event. -/
def Guarded (protocol : Protocol S W R C E) (guard : State S W R C E → Event R E → Prop) :
    State S W R C E → List (Event R E) → Prop
  | _, [] => True
  | state, event :: events =>
    guard state event ∧ Guarded protocol guard (step protocol state event) events

/-- An invariant every guarded step keeps holds after every guarded run. -/
theorem run_invariant {guard : State S W R C E → Event R E → Prop} (I : State S W R C E → Prop)
    (keeps : ∀ state event, I state → guard state event → I (step protocol state event))
    {state : State S W R C E} (start : I state) {events : List (Event R E)}
    (guarded : Guarded protocol guard state events) : I (run protocol state events) := by
  induction events generalizing state with
  | nil => exact start
  | cons event events ih => exact ih (keeps state event start guarded.1) guarded.2

theorem guarded_of_forall {guard : State S W R C E → Event R E → Prop}
    (always : ∀ state event, guard state event) (state : State S W R C E)
    (events : List (Event R E)) : Guarded protocol guard state events := by
  induction events generalizing state with
  | nil => trivial
  | cons event events ih => exact ⟨always state event, ih _⟩

/-! ### Histories -/

/-- A proposal was prepared from its base in some world. -/
def Prepared (protocol : Protocol S W R C E) (proposal : Proposal S R C) : Prop :=
  ∃ before after, protocol.prepare proposal.request proposal.base before =
    some (after, some proposal.commit)

/-- The accepted commits of a run: each was prepared from a version committed before it and was
applied to the version its predecessor left. -/
inductive History (protocol : Protocol S W R C E) (initial : S) :
    List (Accepted S R C E) → Prop
  | start : History protocol initial []
  | accept {past : List (Accepted S R C E)} {proposal : Proposal S R C} {environment : E}
      {next : S} (before : History protocol initial past)
      (known : proposal.base ∈ versions initial past) (prepared : Prepared protocol proposal)
      (applied : protocol.apply proposal.commit environment (latest initial past) = some next) :
      History protocol initial (⟨proposal, environment, latest initial past, next⟩ :: past)

theorem latest_mem_versions (initial : S) (accepted : List (Accepted S R C E)) :
    latest initial accepted ∈ versions initial accepted := by
  cases accepted with
  | nil => simp [latest, versions]
  | cons newest past => simp [latest, versions]

theorem latest_cons (initial : S) (newest : Accepted S R C E) (past : List (Accepted S R C E)) :
    latest initial (newest :: past) = newest.next := rfl

theorem versions_cons (initial : S) (newest : Accepted S R C E)
    (past : List (Accepted S R C E)) :
    versions initial (newest :: past) = newest.next :: versions initial past := rfl

/-- What is kept by every step: the proposals on their way were prepared from committed versions,
and the accepted ones form a history. -/
structure WellFormed (protocol : Protocol S W R C E) (state : State S W R C E) : Prop where
  pending : ∀ proposal ∈ state.pending,
    proposal.base ∈ state.versions ∧ Prepared protocol proposal
  history : History protocol state.initial state.accepted

theorem WellFormed.step {state : State S W R C E} (good : WellFormed protocol state)
    (event : Event R E) : WellFormed protocol (step protocol state event) := by
  have stepped : Stepped protocol state _ := step_stepped state event
  generalize Optimistic.step protocol state event = after at stepped
  cases stepped with
  | idle => exact good
  | touched known prepared => exact ⟨good.pending, good.history⟩
  | proposed known prepared =>
    refine ⟨?_, good.history⟩
    intro proposal member
    rcases List.mem_append.mp member with old | new
    · exact good.pending proposal old
    · obtain rfl := List.mem_singleton.mp new
      exact ⟨known, _, _, prepared⟩
  | rejected place =>
    exact ⟨fun proposal member => good.pending proposal (List.mem_of_mem_eraseIdx member),
      good.history⟩
  | accepted place sent applied =>
    obtain ⟨known, prepared⟩ := good.pending _ sent
    refine ⟨?_, .accept good.history known prepared applied⟩
    intro proposal member
    obtain ⟨earlier, was⟩ := good.pending proposal (List.mem_of_mem_eraseIdx member)
    exact ⟨List.mem_cons_of_mem _ earlier, was⟩

theorem wellFormed_start (initial : S) (world : W) :
    WellFormed protocol (.start initial world) :=
  ⟨by simp [State.start], .start⟩

theorem step_initial (state : State S W R C E) (event : Event R E) :
    (step protocol state event).initial = state.initial := by
  have stepped : Stepped protocol state _ := step_stepped state event
  generalize step protocol state event = after at stepped
  cases stepped <;> rfl

theorem run_initial (state : State S W R C E) (events : List (Event R E)) :
    (run protocol state events).initial = state.initial := by
  induction events generalizing state with
  | nil => rfl
  | cons event events ih => exact (ih _).trans (step_initial state event)

/-- Every run from a start leaves a history of accepted commits. -/
theorem history_run (initial : S) (world : W) (events : List (Event R E)) :
    History protocol initial (run protocol (.start initial world) events).accepted := by
  have good := run_invariant (WellFormed protocol) (fun _ event here _ => here.step event)
    (wellFormed_start initial world)
    (guarded_of_forall (fun _ _ => trivial : ∀ _ _, True) _ events)
  have history := good.history
  rwa [run_initial] at history

namespace History

variable {initial : S} {accepted past : List (Accepted S R C E)}

/-- A property of the initial version that every accepted commit keeps holds of all versions. -/
theorem invariant (I : S → Prop) (first : I initial)
    (keeps : ∀ entry ∈ accepted, I entry.current → I entry.next)
    (history : History protocol initial accepted) :
    ∀ version ∈ versions initial accepted, I version := by
  induction history with
  | start => simpa [versions] using first
  | @accept past proposal environment next before known prepared applied ih =>
    have earlier := ih fun entry member => keeps entry (List.mem_cons_of_mem _ member)
    intro version member
    rw [versions_cons] at member
    rcases List.mem_cons.mp member with rfl | old
    · exact keeps _ List.mem_cons_self (earlier _ (latest_mem_versions initial past))
    · exact earlier version old

/-- A preorder every accepted commit advances along relates every version to the latest. -/
theorem related (leq : S → S → Prop) (refl : ∀ s, leq s s)
    (trans : ∀ a b c, leq a b → leq b c → leq a c)
    (advances : ∀ entry ∈ accepted, leq entry.current entry.next)
    (history : History protocol initial accepted) :
    ∀ version ∈ versions initial accepted, leq version (latest initial accepted) := by
  induction history with
  | start => simpa [versions, latest] using refl initial
  | @accept past proposal environment next before known prepared applied ih =>
    have earlier := ih fun entry member => advances entry (List.mem_cons_of_mem _ member)
    intro version member
    rw [versions_cons] at member
    rcases List.mem_cons.mp member with rfl | old
    · exact refl _
    · exact trans _ _ _ (earlier version old) (advances _ List.mem_cons_self)

/-- Of any two versions the older one is below the newer one exactly if every accepted commit
advances. -/
theorem pairwise_iff (leq : S → S → Prop) (refl : ∀ s, leq s s)
    (trans : ∀ a b c, leq a b → leq b c → leq a c) (history : History protocol initial accepted) :
    (versions initial accepted).Pairwise (fun newer older => leq older newer) ↔
      ∀ entry ∈ accepted, leq entry.current entry.next := by
  induction history with
  | start => simp [versions]
  | @accept past proposal environment next before known prepared applied ih =>
    rw [versions_cons, List.pairwise_cons, ih, List.forall_mem_cons]
    refine and_congr_left fun advances => ⟨fun below => below _ (latest_mem_versions _ _), ?_⟩
    intro last version member
    exact trans _ _ _ (before.related leq refl trans advances version member) last

variable {later : List (Accepted S R C E)}

/-- The commits accepted before some commit form a history themselves. -/
theorem of_suffix (history : History protocol initial (later ++ past)) :
    History protocol initial past := by
  induction later with
  | nil => exact history
  | cons newest later ih =>
    cases history with
    | accept before => exact ih before

theorem prior {entry : Accepted S R C E}
    (history : History protocol initial (later ++ entry :: past)) :
    History protocol initial past := by
  cases history.of_suffix with
  | accept before => exact before

/-- What is known of one accepted commit. -/
theorem entry_spec {entry : Accepted S R C E}
    (history : History protocol initial (later ++ entry :: past)) :
    entry.current = latest initial past ∧ entry.proposal.base ∈ versions initial past ∧
      Prepared protocol entry.proposal ∧
      protocol.apply entry.proposal.commit entry.environment entry.current = some entry.next := by
  cases history.of_suffix with
  | accept before known prepared applied => exact ⟨rfl, known, prepared, applied⟩

end History

end Optimistic
