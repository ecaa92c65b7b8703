import IcebergRust.Catalog.Immutable
import IcebergRust.Lib.LruCache

/-!
# The cache of manifests

`iceberg-rust/src/util/manifest_cache.rs`, and its use in `read_snapshot` and `datafiles`: one cache
for all reads of a process, which is never told of a commit.  The lock makes `get` and `put` atomic;
between them a read waits for the object store, while others read and commit.
-/

namespace IcebergRust.ManifestCache

open Optimistic

/-- `ByteCappedCache`, of objects that have a length. -/
structure ByteCappedCache (κ β : Type) where
  entries : LruCache κ β
  totalBytes : Nat

section Cache

variable {κ β : Type} (len : β → Nat) (cap : Nat)

/-- The loop of `put`, whose turns are as many as there are entries. -/
def evict : Nat → ByteCappedCache κ β → ByteCappedCache κ β
  | 0, cache => cache
  | turns + 1, cache =>
    if cache.totalBytes > cap then
      match cache.entries.entries.getLast? with
      | none => cache
      | some evicted => evict turns ⟨cache.entries.popLru, cache.totalBytes - len evicted.2⟩
    else cache

variable [DecidableEq κ]

/-- `get`. -/
def get (cache : ByteCappedCache κ β) (path : κ) : Option (β × ByteCappedCache κ β) :=
  (cache.entries.getMut path).map fun found => (found.1, ⟨found.2, cache.totalBytes⟩)

/-- `put`. -/
def put (cache : ByteCappedCache κ β) (path : κ) (bytes : β) : ByteCappedCache κ β :=
  if len bytes > cap then cache
  else
    let entries := cache.entries.push path bytes
    let rest := cache.totalBytes - ((cache.entries.peek path).map len).getD 0
    evict len cap entries.len ⟨entries, (rest + len bytes) % 18446744073709551616⟩

/-- The bytes of the entries are counted, and within the capacity. -/
def ByteCappedCache.Accounted (cache : ByteCappedCache κ β) : Prop :=
  cache.totalBytes ≤ cap ∧ cache.totalBytes = cache.entries.total fun entry => len entry.2

variable {len cap} {cache : ByteCappedCache κ β}

omit [DecidableEq κ] in
/-- The loop ends within the capacity, and counts what it leaves. -/
theorem evict_spec (turns : Nat) :
    (∀ entry ∈ (evict len cap turns cache).entries.entries, entry ∈ cache.entries.entries) ∧
      (cache.totalBytes = (cache.entries.total fun entry => len entry.2) →
        cache.entries.len ≤ turns → (evict len cap turns cache).Accounted len cap) := by
  induction turns generalizing cache with
  | zero =>
    refine ⟨fun _ => id, fun total enough => ?_⟩
    have none_ := List.length_eq_zero_iff.mp (Nat.le_zero.mp enough)
    have zero := LruCache.total_eq_zero (fun entry => len entry.2)
      (List.getLast?_eq_none_iff.mpr none_)
    exact ⟨by rw [evict]; omega, total⟩
  | succ turns ih =>
    rw [evict]
    split
    · split
      · next none_ =>
        have zero := LruCache.total_eq_zero (fun entry => len entry.2) none_
        exact ⟨fun _ => id, fun total _ => ⟨by omega, total⟩⟩
      · next evicted gone =>
        have popped := LruCache.total_popLru (fun entry => len entry.2) gone
        refine ⟨fun entry member => LruCache.mem_popLru (ih.1 entry member), fun total enough => ?_⟩
        refine ih.2 ?_ (by rw [LruCache.len_popLru]; omega)
        dsimp only at popped ⊢
        omega
    · exact ⟨fun _ => id, fun total _ => ⟨by omega, total⟩⟩

/-- Nothing but the new entry comes in, and the count is right unless it overflows. -/
theorem put_spec (path : κ) (bytes : β) :
    (∀ entry ∈ (put len cap cache path bytes).entries.entries,
      entry = (path, bytes) ∨ entry ∈ cache.entries.entries) ∧
    (2 * cap < 18446744073709551616 → cache.Accounted len cap →
      (put len cap cache path bytes).Accounted len cap) := by
  unfold put
  split
  · exact ⟨fun _ => .inr, fun _ => id⟩
  · refine ⟨fun entry member => LruCache.mem_push ((evict_spec _).1 entry member),
      fun small account => (evict_spec _).2 ?_ (Nat.le_refl _)⟩
    obtain ⟨below, total⟩ := account
    let weight (entry : κ × β) := len entry.2
    have pushed : _ + ((cache.entries.peek path).map len).getD 0 = _ + len bytes :=
      @LruCache.total_push κ β _ cache.entries path bytes weight
    have least : len bytes ≤ _ :=
      @LruCache.weight_le_total_push κ β _ cache.entries path bytes weight
    change cache.totalBytes = cache.entries.total weight at total
    show _ % _ = (cache.entries.push path bytes).total weight
    rw [Nat.mod_eq_of_lt (by omega)]
    omega

end Cache

/-! ### Reads among commits -/

inductive Place where
  | manifest (path : String)
  | manifestList (path : String)
deriving DecidableEq

abbrev Object (V : Type) := ManifestFile V ⊕ ManifestListFile V

def stored {V : Type} (store : Store V) : Place → Option (Object V)
  | .manifest path => (store.manifest path).map .inl
  | .manifestList path => (store.manifestList path).map .inr

/-- A table, the cache of a process, what its reads have fetched and are about to put in, and what
they have returned. -/
structure Process (V : Type) where
  table : TableState V
  cache : ByteCappedCache Place (Object V)
  fetched : List (Place × Object V)
  returned : List (Place × Object V)

/-- A step of a client, or of a read: it looks into the cache, fetches an object, or puts it in. -/
inductive Step (V : Type) where
  | client (event : TableEvent V)
  | get (place : Place)
  | fetch (place : Place)
  | put (index : Nat)

variable {V : Type} [PartitionValue V] (len : Object V → Nat) (cap : Nat)

def step (process : Process V) : Step V → Process V
  | .client event => { process with table := Optimistic.step (tableProtocol V) process.table event }
  | .get place =>
    match get process.cache place with
    | none => process
    | some (bytes, cache) =>
      { process with cache, returned := (place, bytes) :: process.returned }
  | .fetch place =>
    match stored process.table.world place with
    | none => process
    | some bytes => { process with fetched := process.fetched ++ [(place, bytes)] }
  | .put index =>
    match process.fetched[index]? with
    | none => process
    | some read =>
      { process with
        cache := put len cap process.cache read.1 read.2
        fetched := process.fetched.eraseIdx index
        returned := read :: process.returned }

/-- The steps of clients. -/
def clients : List (Step V) → List (TableEvent V)
  | [] => []
  | .client event :: steps => event :: clients steps
  | _ :: steps => clients steps

/-- A process after some steps, which starts with an empty cache. -/
def run (table : TableState V) (steps : List (Step V)) : Process V :=
  steps.foldl (step len cap) ⟨table, ⟨.unbounded, 0⟩, [], []⟩

/-- What a process holds is what is stored, and the cache counts it. -/
structure Sound (process : Process V) : Prop where
  keeps : Keeps process.table
  held : ∀ object ∈ process.cache.entries.entries ++ process.fetched ++ process.returned,
    stored process.table.world object.1 = some object.2
  account : 2 * cap < 18446744073709551616 → process.cache.Accounted len cap

variable {len cap} {process : Process V}

/-- A read holds nothing new but what is stored. -/
theorem Sound.read (sound : Sound len cap process) (one : Step V) (read : clients [one] = []) :
    Sound len cap (step len cap process one) ∧ (step len cap process one).table = process.table := by
  cases one with
  | client event => cases read
  | get place =>
    rw [step]
    split
    · exact ⟨sound, rfl⟩
    · next bytes cache hit =>
      obtain ⟨found, got, same⟩ := Option.map_eq_some_iff.mp hit
      obtain ⟨rfl, rfl⟩ := Prod.mk.inj same
      obtain ⟨member, others⟩ := LruCache.mem_getMut got
      have total := LruCache.total_getMut (fun entry => len entry.2) got
      refine ⟨⟨sound.keeps, fun entry inside => sound.held entry ?_, fun small => ?_⟩, rfl⟩
      · have kept := others entry
        simp only [List.mem_append, List.mem_cons] at inside ⊢
        grind
      · exact (sound.account small).imp id fun counted => counted.trans total.symm
  | fetch place =>
    rw [step]
    split
    · exact ⟨sound, rfl⟩
    · next bytes found =>
      refine ⟨⟨sound.keeps, fun entry inside => ?_, sound.account⟩, rfl⟩
      have old := sound.held entry
      simp only [List.mem_append, List.mem_singleton] at inside old
      grind
  | put index =>
    rw [step]
    split
    · exact ⟨sound, rfl⟩
    · next read found =>
      obtain ⟨new, counted⟩ := @put_spec _ _ len cap _ process.cache read.1 read.2
      refine ⟨⟨sound.keeps, fun entry inside => sound.held entry ?_,
        fun small => counted small (sound.account small)⟩, rfl⟩
      have here := List.mem_of_getElem? found
      have kept : entry ∈ process.fetched.eraseIdx index → _ := List.mem_of_mem_eraseIdx
      have inserted := new entry
      simp only [List.mem_append, List.mem_cons] at inside ⊢
      grind

omit [PartitionValue V] in
theorem stored_extends {before after : Store V} (grows : before.Extends after) {place : Place}
    {bytes : Object V} (found : stored before place = some bytes) :
    stored after place = some bytes := by
  cases place with
  | manifest path =>
    obtain ⟨file, here, rfl⟩ := Option.map_eq_some_iff.mp found
    simp [stored, grows.manifest _ _ here]
  | manifestList path =>
    obtain ⟨file, here, rfl⟩ := Option.map_eq_some_iff.mp found
    simp [stored, grows.manifestList _ _ here]

/-- Steps of clients and reads. -/
theorem Sound.run (sound : Sound len cap process) {steps : List (Step V)}
    (names : FreshNames process.table.initial.location process.table.world
      (namesDrawn (clients steps))) :
    Sound len cap (steps.foldl (step len cap) process) ∧
      (steps.foldl (step len cap) process).table =
        Optimistic.run (tableProtocol V) process.table (clients steps) := by
  induction steps generalizing process with
  | nil => exact ⟨sound, rfl⟩
  | cons one steps ih =>
    rw [List.foldl_cons]
    have reads := sound.read one
    cases one with
    | client event =>
      obtain ⟨one, next, fresh⟩ := step_later sound.keeps names
      exact ih ⟨next, fun entry member => stored_extends one.objects (sound.held entry member),
        sound.account⟩ fresh
    | _ =>
      obtain ⟨next, same⟩ := reads rfl
      have later := ih next (by rw [same]; exact names)
      rw [same] at later
      exact later

/-- While clients commit to a table of version 2 or 3, with names that are drawn fresh, and reads go
through the cache of a process: the table is what it would be without them, what is cached and what
reads have returned is still what is stored, and the cache stays within its capacity. -/
theorem cache_agrees_with_store {initial : TableMetadata} {store : Store V} {steps : List (Step V)}
    (versioned : initial.formatVersion ≠ .v1)
    (start : TableSequenced initial.formatVersion initial.snapshots initial.lastSequenceNumber
      store) (names : FreshNames initial.location store (namesDrawn (clients steps))) :
    Sound len cap (run len cap (.start initial store) steps) ∧
      (run len cap (.start initial store) steps).table = runTable initial store (clients steps) :=
  Sound.run ⟨keeps_start versioned start, fun _ member => absurd member List.not_mem_nil,
    fun _ => ⟨Nat.zero_le cap, rfl⟩⟩ names

/-- A manifest is fetched before its commit is sent, and read again after it. -/
theorem cache_agrees_with_store_again :
    let manifest := Place.manifest (newManifestLocation "s3://warehouse/table" "a" 0)
    Sound (fun _ => 1) 1 (run (fun _ => 1) 1 (.start (longTable .v2) .empty)
      [.client (.prepare 0 (appendOne none 1 "a")), .fetch manifest, .put 0,
        .client (.send 0 1), .get manifest]) :=
  (cache_agrees_with_store (by decide) (tableSequenced_empty rfl _)
    ⟨by decide +kernel, fun _ _ _ _ => ⟨fun _ => rfl, fun _ => rfl⟩⟩).1

end IcebergRust.ManifestCache
