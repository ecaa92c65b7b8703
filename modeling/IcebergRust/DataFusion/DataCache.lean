import IcebergRust.Lib.Fallible
import IcebergRust.Lib.Interleaving
import IcebergRust.Lib.LruCache

/-!
# The cache of byte ranges

`datafusion_iceberg/src/parquet_data_cache.rs`: one map from ranges of files to their bytes, bounded
by the weight of its entries, and any number of readers that look ranges up, fetch what is missing
and put it in.

* `get` and `put` are what is done under the lock; `Reading` is a call of `read` between two of
  these steps, and `system` all its steps.
* A `Storage` is what the store does when it is asked: it may fail, and it may return fewer ranges
  or shorter ones.
* `cache_transparent` is what holds in every run.
-/

namespace IcebergRust.DataCache

open LruCache

abbrev Bytes := List UInt8

structure Range where
  start : Nat
  «end» : Nat
deriving DecidableEq, Repr

structure Key where
  file : String
  size : Nat
  start : Nat
  «end» : Nat
deriving DecidableEq, Repr

/-- `usize::MAX`. -/
def usizeMax : Nat := 18446744073709551615

def saturatingAdd (a b : Nat) : Nat := min (a + b) usizeMax

/-- `Key::weight`. -/
def Key.weight (key : Key) (bytes : Nat) : Nat :=
  saturatingAdd (saturatingAdd bytes key.file.utf8ByteSize) 192

def Key.range (key : Key) : Range := ⟨key.start, key.end⟩

/-- `State`. -/
structure State where
  entries : LruCache Key Bytes
  used : Nat

def State.new : State := ⟨.unbounded, 0⟩

/-- `get`: the entry becomes the one used last. -/
def get (state : State) (key : Key) : Option (Bytes × State) :=
  (state.entries.getMut key).map fun found => (found.1, ⟨found.2, state.used⟩)

/-- The weight of an entry. -/
def weightOf (entry : Key × Bytes) : Nat := entry.1.weight entry.2.length

/-- The loop of `put`, whose turns are as many as there are entries. -/
def evict (cap : Nat) : Nat → State → State
  | 0, state => state
  | turns + 1, state =>
    if state.used > cap then
      match state.entries.entries.getLast? with
      | none => state
      | some old => evict cap turns ⟨state.entries.popLru, state.used - weightOf old⟩
    else state

/-- `put`. -/
def put (cap : Nat) (state : State) (key : Key) (bytes : Bytes) : State :=
  let weight := key.weight bytes.length
  if weight > cap ∨ bytes = [] then state
  else
    let entries := state.entries.push key bytes
    let used := match state.entries.peek key with
      | some previous => state.used - key.weight previous.length
      | none => state.used
    evict cap entries.len ⟨entries, saturatingAdd used weight⟩

/-! ### Calls of `read` -/

inductive ParquetError where
  | general (message : String)
  | external (message : String)
deriving DecidableEq, Repr

/-- What is asked of one file. -/
structure Request where
  file : String
  ranges : List Range
deriving DecidableEq, Repr

/-- What the store does with a request for ranges: it fails, or it returns some bytes of the first
ranges, one number for each. -/
inductive Storage where
  | fails (error : ParquetError)
  | answers (lengths : List Nat)

/-- The bytes of a range. -/
def slice (contents : Bytes) (range : Range) : Bytes :=
  (contents.drop range.start).take (range.end - range.start)

/-- `get_byte_ranges`. -/
def Storage.getByteRanges (storage : Storage) (contents : Bytes) (ranges : List Range) :
    Except ParquetError (List Bytes) :=
  match storage with
  | .fails error => .error error
  | .answers lengths =>
    .ok (List.zipWith (fun range length => (slice contents range).take length) ranges lengths)

/-- A call between two steps: it looks ranges up, waits for the missing ones, or puts them in. -/
inductive Reading where
  | looking (request : Request) (left : List Range) (output : List (Option Bytes))
      (missing : List Range) (missingKeys : List (Nat × Key))
  | fetching (request : Request) (output : List (Option Bytes))
      (missing : List Range) (missingKeys : List (Nat × Key))
  | storing (request : Request) (output : List (Option Bytes))
      (fetched : List ((Nat × Key) × Bytes))

/-- The cache, what calls have returned, and which ranges were asked of the store for which. -/
structure Shared where
  state : State
  returned : List (Request × Except ParquetError (List Bytes))
  reads : List (Request × List Range)

namespace Shared

def new : Shared := ⟨.new, [], []⟩

/-- A call returns. -/
def return_ (shared : Shared) (request : Request) (result : Except ParquetError (List Bytes)) :
    Shared × Option Reading :=
  ({ shared with returned := (request, result) :: shared.returned }, none)

end Shared

/-- The output of a call that has everything it waited for. -/
def collect (output : List (Option Bytes)) : Except ParquetError (List Bytes) :=
  output.mapM fun bytes => match bytes with
    | some bytes => .ok bytes
    | none => .error (.general "Missing Parquet byte range")

variable (files : String → Bytes) (cap : Nat)

/-- The next step of `read`. -/
def advance (storage : Storage) : Reading → Shared → Shared × Option Reading
  | .looking request (range :: left) output missing missingKeys, shared =>
    let size := (files request.file).length
    if range.start > range.end ∨ range.end > size then
      shared.return_ request (.error (.general "Parquet range outside file bounds"))
    else
      let key : Key := ⟨request.file, size, range.start, range.end⟩
      match get shared.state key with
      | some (bytes, state) =>
        ({ shared with state },
          some (.looking request left (output ++ [some bytes]) missing missingKeys))
      | none =>
        (shared, some (.looking request left (output ++ [none]) (missing ++ [range])
          (missingKeys ++ [(output.length, key)])))
  | .looking request [] output missing missingKeys, shared =>
    if missing = [] then shared.return_ request (collect output)
    else
      ({ shared with reads := (request, missing) :: shared.reads },
        some (.fetching request output missing missingKeys))
  | .fetching request output missing missingKeys, shared =>
    match storage.getByteRanges (files request.file) missing with
    | .error error => shared.return_ request (.error error)
    | .ok fetched =>
      if fetched.length ≠ missingKeys.length then
        shared.return_ request (.error (.general "Incomplete Parquet multi-range response"))
      else (shared, some (.storing request output (missingKeys.zip fetched)))
  | .storing request output [], shared => shared.return_ request (collect output)
  | .storing request output (((index, key), bytes) :: fetched), shared =>
    if bytes.length ≠ key.end - key.start then
      shared.return_ request (.error (.general "Truncated Parquet byte range"))
    else
      ({ shared with state := put cap shared.state key bytes },
        some (.storing request (output.set index (some bytes)) fetched))

/-- Any number of calls. -/
def system : Interleaving.System Shared Reading Request Storage where
  begin request shared := (shared, some (.looking request request.ranges [] [] []))
  advance := advance files cap

/-- The state of a new cache after some steps of some calls. -/
def run (events : List (Interleaving.Event Request Storage)) :
    Interleaving.State Shared Reading :=
  Interleaving.run (system files cap) ⟨.new, []⟩ events

/-! ### The account -/

variable {cap : Nat}

/-- The sum of the weights of the retained entries. -/
def State.total (state : State) : Nat := state.entries.total weightOf

variable {state : State} {key : Key} {bytes : Bytes} {request : Request}
  {output : List (Option Bytes)} {ranges missing : List Range} {missingKeys : List (Nat × Key)}
  {shared : Shared}

theorem mem_evict {turns : Nat} {entry : Key × Bytes}
    (member : entry ∈ (evict cap turns state).entries.entries) : entry ∈ state.entries.entries := by
  induction turns generalizing state with
  | zero => exact member
  | succ turns ih =>
    rw [evict] at member
    split at member
    · split at member
      · exact member
      · exact mem_popLru (ih member)
    · exact member

/-- The loop ends within the capacity, and never accounts for more than is there. -/
theorem evict_bounded {turns : Nat} (account : state.used ≤ state.total)
    (enough : state.entries.len ≤ turns) :
    (evict cap turns state).used ≤ cap ∧
      (evict cap turns state).used ≤ (evict cap turns state).total := by
  induction turns generalizing state with
  | zero =>
    have empty : state.entries.entries = [] := List.length_eq_zero_iff.mp (Nat.le_zero.mp enough)
    have none_ : state.total = 0 := total_eq_zero _ (by rw [empty]; rfl)
    rw [evict]
    exact ⟨by omega, account⟩
  | succ turns ih =>
    rw [evict]
    split
    · split
      · next none_ =>
        have zero : state.total = 0 := total_eq_zero _ none_
        exact ⟨by omega, account⟩
      · next old gone =>
        have popped : _ = state.total := total_popLru weightOf gone
        refine ih ?_ ?_
        · show state.used - weightOf old ≤ state.entries.popLru.total weightOf
          omega
        · show state.entries.popLru.len ≤ turns
          rw [len_popLru]
          omega
    · next within =>
      exact ⟨by omega, account⟩

theorem evict_exact {turns : Nat} (account : state.used = state.total) :
    (evict cap turns state).used = (evict cap turns state).total := by
  induction turns generalizing state with
  | zero => exact account
  | succ turns ih =>
    rw [evict]
    split
    · split
      · exact account
      · next old gone =>
        have popped : _ = state.total := total_popLru weightOf gone
        refine ih ?_
        show state.used - weightOf old = state.entries.popLru.total weightOf
        omega
    · exact account

theorem mem_put {entry : Key × Bytes} (member : entry ∈ (put cap state key bytes).entries.entries) :
    entry = (key, bytes) ∨ entry ∈ state.entries.entries := by
  unfold put at member
  dsimp only at member
  split at member
  · exact .inr member
  · exact mem_push (mem_evict member)

/-- The accounted size before the loop. -/
def charged (state : State) (key : Key) (bytes : Bytes) : Nat :=
  state.used - ((state.entries.peek key).map fun older => weightOf (key, older)).getD 0 +
    weightOf (key, bytes)

theorem put_eq (state : State) (key : Key) (bytes : Bytes) : put cap state key bytes =
    if key.weight bytes.length > cap ∨ bytes = [] then state
    else evict cap (state.entries.push key bytes).len
      ⟨state.entries.push key bytes, min (charged state key bytes) usizeMax⟩ := by
  unfold put charged
  cases state.entries.peek key <;> rfl

theorem charged_le (account : state.used ≤ state.total) :
    charged state key bytes ≤ (state.entries.push key bytes).total weightOf := by
  have pushed := @LruCache.total_push Key Bytes _ state.entries key bytes weightOf
  have total : state.entries.total weightOf = state.total := rfl
  have least := @LruCache.weight_le_total_push Key Bytes _ state.entries key bytes weightOf
  unfold charged
  omega

theorem put_bounded (bounded : state.used ≤ cap) (account : state.used ≤ state.total) :
    (put cap state key bytes).used ≤ cap ∧
      (put cap state key bytes).used ≤ (put cap state key bytes).total := by
  rw [put_eq]
  split
  · exact ⟨bounded, account⟩
  · have charge := @charged_le state key bytes account
    refine evict_bounded ?_ (Nat.le_refl _)
    show min (charged state key bytes) usizeMax ≤ (state.entries.push key bytes).total weightOf
    omega

/-- The entry is not put in, or the sum of the weights with it is within `usize`. -/
def Fits (cap : Nat) (state : State) (key : Key) (bytes : Bytes) : Prop :=
  key.weight bytes.length > cap ∨ bytes = [] ∨
    (state.entries.push key bytes).total weightOf ≤ usizeMax

theorem put_exact (account : state.used = state.total) (fits : Fits cap state key bytes) :
    (put cap state key bytes).used = (put cap state key bytes).total := by
  rw [put_eq]
  split
  · exact account
  · next kept =>
    rw [not_or] at kept
    have small := (fits.resolve_left kept.1).resolve_left kept.2
    refine evict_exact ?_
    show min (charged state key bytes) usizeMax = (state.entries.push key bytes).total weightOf
    have pushed := @LruCache.total_push Key Bytes _ state.entries key bytes weightOf
    have total : state.entries.total weightOf = state.total := rfl
    have least := @LruCache.weight_le_total_push Key Bytes _ state.entries key bytes weightOf
    unfold charged
    omega

theorem fits_of_small (small : 2 * cap ≤ usizeMax) (bounded : state.used ≤ cap)
    (account : state.used = state.total) : Fits cap state key bytes := by
  by_cases large : key.weight bytes.length > cap
  · exact .inl large
  · have pushed := @LruCache.total_push Key Bytes _ state.entries key bytes weightOf
    have total : state.entries.total weightOf = state.total := rfl
    have weight : weightOf (key, bytes) = key.weight bytes.length := rfl
    exact .inr (.inr (by omega))

theorem get_spec {after : State} (found : get state key = some (bytes, after)) :
    (key, bytes) ∈ state.entries.entries ∧
      (∀ entry ∈ after.entries.entries, entry ∈ state.entries.entries) ∧
      after.used = state.used ∧ after.total = state.total := by
  obtain ⟨⟨value, cache⟩, got, same⟩ := Option.map_eq_some_iff.mp found
  obtain ⟨rfl, rfl⟩ := Prod.mk.inj same
  obtain ⟨member, others⟩ := mem_getMut got
  exact ⟨member, others, rfl, total_getMut weightOf got⟩

/-! ### The bytes -/

/-- A range of a file. -/
def Inside (contents : Bytes) (range : Range) : Prop :=
  range.start ≤ range.end ∧ range.end ≤ contents.length

variable {files : String → Bytes}

/-- What is cached is what the file holds. -/
def Right (files : String → Bytes) (entry : Key × Bytes) : Prop :=
  entry.2 = slice (files entry.1.file) entry.1.range

variable (files) in
/-- The output has a place for each range, and what it holds is right. -/
def Partial (request : Request) (ranges : List Range) (output : List (Option Bytes)) : Prop :=
  List.Forall₂ (fun range found => ∀ bytes, found = some bytes →
    bytes = slice (files request.file) range) ranges output

/-- What is missing is named with its place. -/
def Waits (request : Request) (ranges : List Range) (missing : List Range)
    (missingKeys : List (Nat × Key)) : Prop :=
  missing = missingKeys.map (·.2.range) ∧
    ∀ waiting ∈ missingKeys, waiting.2.file = request.file ∧
      ranges[waiting.1]? = some waiting.2.range

variable (files) in
/-- What a call has found so far. -/
def Reading.Sound : Reading → Prop
  | .looking request left output missing missingKeys => ∃ done, request.ranges = done ++ left ∧
      (∀ range ∈ done, Inside (files request.file) range) ∧
      Partial files request done output ∧ Waits request done missing missingKeys
  | .fetching request output missing missingKeys =>
      (∀ range ∈ request.ranges, Inside (files request.file) range) ∧
      Partial files request request.ranges output ∧
      Waits request request.ranges missing missingKeys
  | .storing request output fetched =>
      (∀ range ∈ request.ranges, Inside (files request.file) range) ∧
      Partial files request request.ranges output ∧
      ∀ held ∈ fetched, held.1.2.file = request.file ∧
        request.ranges[held.1.1]? = some held.1.2.range ∧
        (held.2.length = held.1.2.end - held.1.2.start → Right files (held.1.2, held.2))

variable (files) in
/-- A result that is given is right, and a range outside the file is refused. -/
def Answered (request : Request) (result : Except ParquetError (List Bytes)) : Prop :=
  (∀ output, result = .ok output →
    output = request.ranges.map (slice (files request.file))) ∧
  ((∃ range ∈ request.ranges, ¬ Inside (files request.file) range) →
    result = .error (.general "Parquet range outside file bounds"))

variable (files cap) in
/-- What holds of the cache and of everything calls have done. -/
structure Shared.Sound (shared : Shared) : Prop where
  right : ∀ entry ∈ shared.state.entries.entries, Right files entry
  bounded : shared.state.used ≤ cap
  account : shared.state.used ≤ shared.state.total
  returned : ∀ call ∈ shared.returned, Answered files call.1 call.2
  reads : ∀ read ∈ shared.reads, ∀ range ∈ read.1.ranges, Inside (files read.1.file) range

theorem slice_length_le (contents : Bytes) (range : Range) :
    (slice contents range).length ≤ range.end - range.start :=
  List.length_take_le ..

/-- A part of a range that is as long as the range is the whole range. -/
theorem take_slice {contents : Bytes} {range : Range} {length : Nat}
    (whole : ((slice contents range).take length).length = range.end - range.start) :
    (slice contents range).take length = slice contents range := by
  have most := slice_length_le contents range
  rw [List.length_take] at whole
  exact List.take_of_length_le (by omega)

theorem collect_partial (found : Partial files request request.ranges output) {bytes : List Bytes}
    (all : collect output = .ok bytes) :
    bytes = request.ranges.map (slice (files request.file)) := by
  have each := Fallible.mapM_eq_ok.mp all
  clear all
  unfold Partial at found
  generalize request.ranges = ranges at found
  induction found generalizing bytes with
  | nil =>
    cases each
    rfl
  | @cons range found ranges output here _ ih =>
    cases each with
    | @cons _ own _ rest is_ others =>
      cases found with
      | none => exact absurd is_ (by simp)
      | some held =>
        obtain rfl := Except.ok.inj is_
        rw [List.map_cons, here held rfl, ih others]

theorem Partial.snoc (found : Partial files request ranges output) {range : Range}
    {last : Option Bytes}
    (right : ∀ bytes, last = some bytes → bytes = slice (files request.file) range) :
    Partial files request (ranges ++ [range]) (output ++ [last]) :=
  List.rel_append found (.cons right .nil)

theorem Partial.set (found : Partial files request ranges output) {index : Nat} {range : Range}
    (named : ranges[index]? = some range) (right : bytes = slice (files request.file) range) :
    Partial files request ranges (output.set index (some bytes)) := by
  unfold Partial at found ⊢
  induction found generalizing index with
  | nil => exact .nil
  | @cons first held ranges output here rest ih =>
    cases index with
    | zero =>
      obtain rfl := Option.some.inj named
      refine .cons (fun other same => ?_) rest
      rw [← Option.some.inj same, right]
    | succ index => exact .cons here (ih named)

theorem Waits.snoc (waits : Waits request ranges missing missingKeys) {index : Nat} (key : Key)
    (length : index = ranges.length) (file : key.file = request.file) :
    Waits request (ranges ++ [key.range]) (missing ++ [key.range])
      (missingKeys ++ [(index, key)]) := by
  obtain ⟨rfl, named⟩ := waits
  refine ⟨by simp, fun waiting member => ?_⟩
  rcases List.mem_append.mp member with earlier | here
  · obtain ⟨same, at_⟩ := named waiting earlier
    have below := (List.getElem?_eq_some_iff.mp at_).1
    exact ⟨same, by rw [List.getElem?_append_left below, at_]⟩
  · obtain rfl := List.mem_singleton.mp here
    exact ⟨file, by simp [length]⟩

theorem Waits.keep (waits : Waits request ranges missing missingKeys) (range : Range) :
    Waits request (ranges ++ [range]) missing missingKeys := by
  refine ⟨waits.1, fun waiting member => ?_⟩
  obtain ⟨same, at_⟩ := waits.2 waiting member
  have below := (List.getElem?_eq_some_iff.mp at_).1
  exact ⟨same, by rw [List.getElem?_append_left below, at_]⟩

/-! ### Steps -/

theorem answered_error {error : ParquetError}
    (inside : ∀ range ∈ request.ranges, Inside (files request.file) range) :
    Answered files request (.error error) := by
  refine ⟨fun output same => absurd same (by simp), ?_⟩
  rintro ⟨range, member, outside⟩
  exact absurd (inside range member) outside

theorem answered_collect (inside : ∀ range ∈ request.ranges, Inside (files request.file) range)
    (found : Partial files request request.ranges output) :
    Answered files request (collect output) := by
  refine ⟨fun bytes all => collect_partial found all, ?_⟩
  rintro ⟨range, member, outside⟩
  exact absurd (inside range member) outside

theorem Shared.Sound.return_ (sound : shared.Sound cap files)
    {result : Except ParquetError (List Bytes)} (answered : Answered files request result) :
    (shared.return_ request result).1.Sound cap files where
  right := sound.right
  bounded := sound.bounded
  account := sound.account
  returned := by
    intro call member
    rcases List.mem_cons.mp member with rfl | earlier
    · exact answered
    · exact sound.returned call earlier
  reads := sound.reads

theorem Shared.Sound.withState (sound : shared.Sound cap files)
    (right : ∀ entry ∈ state.entries.entries, Right files entry) (bounded : state.used ≤ cap)
    (account : state.used ≤ state.total) : Shared.Sound cap files { shared with state } :=
  ⟨right, bounded, account, sound.returned, sound.reads⟩

theorem Shared.Sound.get (sound : shared.Sound cap files)
    (found : DataCache.get shared.state key = some (bytes, state)) :
    Shared.Sound cap files { shared with state } := by
  obtain ⟨_, others, used, total⟩ := get_spec found
  refine sound.withState (fun entry member => sound.right entry (others entry member)) ?_ ?_
  · rw [used]
    exact sound.bounded
  · rw [used, total]
    exact sound.account

theorem Shared.Sound.put (sound : shared.Sound cap files) (right : Right files (key, bytes)) :
    Shared.Sound cap files { shared with state := put cap shared.state key bytes } := by
  have bounds := @put_bounded cap shared.state key bytes sound.bounded sound.account
  have held := fun entry => @mem_put cap shared.state key bytes entry
  generalize DataCache.put cap shared.state key bytes = after at bounds held
  refine sound.withState (fun entry member => ?_) bounds.1 bounds.2
  rcases held entry member with rfl | earlier
  · exact right
  · exact sound.right entry earlier

/-- What the store returns for a range is the whole range or not as long. -/
theorem fetched_right (waits : Waits request request.ranges missing missingKeys) {storage : Storage}
    {fetched : List Bytes} (got : storage.getByteRanges (files request.file) missing = .ok fetched) :
    ∀ held ∈ missingKeys.zip fetched, held.1.2.file = request.file ∧
      request.ranges[held.1.1]? = some held.1.2.range ∧
      (held.2.length = held.1.2.end - held.1.2.start → Right files (held.1.2, held.2)) := by
  rintro ⟨waiting, bytes⟩ member
  obtain ⟨file, named⟩ := waits.2 waiting (List.of_mem_zip member).1
  refine ⟨file, named, fun whole => ?_⟩
  cases storage with
  | fails error => exact absurd got (by simp [Storage.getByteRanges])
  | answers lengths =>
    obtain rfl := Except.ok.inj got
    rw [waits.1, List.zipWith_map_left] at member
    obtain ⟨place, below, here⟩ := List.getElem_of_mem member
    rw [List.getElem_zip, List.getElem_zipWith, Prod.mk.injEq] at here
    obtain ⟨rfl, rfl⟩ := here
    rw [Right, file]
    exact take_slice whole

theorem advance_sound {storage : Storage} {call : Reading} (sound : shared.Sound cap files)
    (own : call.Sound files) :
    (advance files cap storage call shared).1.Sound cap files ∧
      ∀ next ∈ (advance files cap storage call shared).2, next.Sound files := by
  match call with
  | .looking request (range :: left) output missing missingKeys =>
    obtain ⟨done, all, inside, found, waits⟩ := own
    rw [advance]
    dsimp only
    split
    · next outside =>
      refine ⟨sound.return_ ⟨fun output same => absurd same (by simp), fun _ => rfl⟩, ?_⟩
      exact fun next member => absurd member (by simp [Shared.return_])
    · next within =>
      rw [not_or] at within
      have here : Inside (files request.file) range := by
        unfold Inside
        omega
      have inside' : ∀ earlier ∈ done ++ [range], Inside (files request.file) earlier := by
        intro earlier member
        rcases List.mem_append.mp member with before | last
        · exact inside earlier before
        · exact List.mem_singleton.mp last ▸ here
      have all' : request.ranges = (done ++ [range]) ++ left := by rw [all, List.append_assoc]; rfl
      split
      · next bytes state hit =>
        refine ⟨sound.get hit, fun next member => ?_⟩
        obtain rfl := Option.mem_some.mp member
        have right := sound.right _ (get_spec hit).1
        refine ⟨done ++ [range], all', inside', found.snoc fun other same => ?_, waits.keep range⟩
        rw [← Option.some.inj same]
        exact right
      · refine ⟨sound, fun next member => ?_⟩
        obtain rfl := Option.mem_some.mp member
        refine ⟨done ++ [range], all', inside', found.snoc fun other same => absurd same (by simp),
          ?_⟩
        exact waits.snoc ⟨request.file, _, range.start, range.end⟩ found.length_eq.symm rfl
  | .looking request [] output missing missingKeys =>
    obtain ⟨done, all, inside, found, waits⟩ := own
    rw [List.append_nil] at all
    subst all
    rw [advance]
    split
    · refine ⟨sound.return_ (answered_collect inside found), ?_⟩
      exact fun next member => absurd member (by simp [Shared.return_])
    · refine ⟨⟨sound.right, sound.bounded, sound.account, sound.returned, ?_⟩,
        fun next member => ?_⟩
      · intro read member
        rcases List.mem_cons.mp member with rfl | earlier
        · exact inside
        · exact sound.reads read earlier
      · obtain rfl := Option.mem_some.mp member
        exact ⟨inside, found, waits⟩
  | .fetching request output missing missingKeys =>
    obtain ⟨inside, found, waits⟩ := own
    rw [advance]
    split
    · refine ⟨sound.return_ (answered_error inside), ?_⟩
      exact fun next member => absurd member (by simp [Shared.return_])
    · next fetched got =>
      split
      · refine ⟨sound.return_ (answered_error inside), ?_⟩
        exact fun next member => absurd member (by simp [Shared.return_])
      · refine ⟨sound, fun next member => ?_⟩
        obtain rfl := Option.mem_some.mp member
        exact ⟨inside, found, fetched_right waits got⟩
  | .storing request output [] =>
    obtain ⟨inside, found, held⟩ := own
    rw [advance]
    refine ⟨sound.return_ (answered_collect inside found), ?_⟩
    exact fun next member => absurd member (by simp [Shared.return_])
  | .storing request output (((index, key), bytes) :: fetched) =>
    obtain ⟨inside, found, held⟩ := own
    obtain ⟨⟨file, named, right⟩, others⟩ := List.forall_mem_cons.mp held
    rw [advance]
    split
    · refine ⟨sound.return_ (answered_error inside), ?_⟩
      exact fun next member => absurd member (by simp [Shared.return_])
    · next whole =>
      have right' := right (not_not.mp whole)
      refine ⟨sound.put right', fun next member => ?_⟩
      obtain rfl := Option.mem_some.mp member
      refine ⟨inside, found.set named ?_, others⟩
      rw [← file]
      exact right'

/-! ### Runs -/

theorem keeps_sound : Interleaving.Keeps (system files cap) (Shared.Sound cap files)
    (fun _ call => call.Sound files) fun _ _ => True where
  symm := fun _ => trivial
  begin := by
    intro request shared sound
    refine ⟨sound, fun call member => ?_⟩
    obtain rfl := Option.mem_some.mp member
    refine ⟨[], rfl, fun range member => absurd member List.not_mem_nil, .nil, rfl, ?_⟩
    exact fun waiting member => absurd member List.not_mem_nil
  beginOther := fun _ _ _ _ own => ⟨own, fun _ _ => trivial⟩
  advance := fun _ _ _ sound own => advance_sound sound own
  advanceOther := fun _ _ _ _ _ _ own _ => ⟨own, fun _ _ => trivial⟩

theorem sound_new : (Shared.new).Sound cap files where
  right := fun _ member => absurd member List.not_mem_nil
  bounded := Nat.zero_le cap
  account := Nat.zero_le _
  returned := fun _ member => absurd member List.not_mem_nil
  reads := fun _ member => absurd member List.not_mem_nil

theorem sound_run (events : List (Interleaving.Event Request Storage)) :
    (run files cap events).shared.Sound cap files :=
  (Interleaving.holds_run keeps_sound
    ⟨sound_new, fun _ member => absurd member List.not_mem_nil, .nil⟩ events).shared

/-- The entry a step puts in. -/
def storing (state : Interleaving.State Shared Reading) :
    Interleaving.Event Request Storage → Option (Key × Bytes)
  | .advance place _ =>
    match state.calls[place]? with
    | some (.storing _ _ (((_, key), bytes) :: _)) =>
      if bytes.length ≠ key.end - key.start then none else some (key, bytes)
    | _ => none
  | _ => none

variable (files cap) in
/-- Every entry that is put in fits. -/
def Unsaturated (events : List (Interleaving.Event Request Storage)) : Prop :=
  ∀ before event after, events = before ++ event :: after →
    ∀ entry ∈ storing (run files cap before) event,
      Fits cap (run files cap before).shared.state entry.1 entry.2

/-- A step puts in its entry, or leaves the account. -/
theorem step_account (state : Interleaving.State Shared Reading)
    (event : Interleaving.Event Request Storage) :
    (∃ entry ∈ storing state event,
      (Interleaving.step (system files cap) state event).shared.state =
        put cap state.shared.state entry.1 entry.2) ∨
    (Interleaving.step (system files cap) state event).shared.state.used =
        state.shared.state.used ∧
      (Interleaving.step (system files cap) state event).shared.state.total =
        state.shared.state.total := by
  cases event with
  | call request => exact .inr ⟨rfl, rfl⟩
  | stop place => exact .inr ⟨rfl, rfl⟩
  | advance place storage =>
    rw [Interleaving.step]
    cases there : state.calls[place]? with
    | none => exact .inr ⟨rfl, rfl⟩
    | some call =>
      show (∃ entry ∈ _, (advance files cap storage call state.shared).1.state = _) ∨
        (advance files cap storage call state.shared).1.state.used = _ ∧
          (advance files cap storage call state.shared).1.state.total = _
      cases call with
      | looking request left output missing missingKeys =>
        right
        cases left with
        | nil =>
          rw [advance]
          split
          · exact ⟨rfl, rfl⟩
          · exact ⟨rfl, rfl⟩
        | cons range left =>
          rw [advance]
          dsimp only
          split
          · exact ⟨rfl, rfl⟩
          · split
            · next hit => exact (get_spec hit).2.2
            · exact ⟨rfl, rfl⟩
      | fetching request output missing missingKeys =>
        right
        rw [advance]
        split
        · exact ⟨rfl, rfl⟩
        · split
          · exact ⟨rfl, rfl⟩
          · exact ⟨rfl, rfl⟩
      | storing request output fetched =>
        cases fetched with
        | nil => exact .inr ⟨rfl, rfl⟩
        | cons held fetched =>
          obtain ⟨⟨index, key⟩, bytes⟩ := held
          rw [advance]
          split
          · exact .inr ⟨rfl, rfl⟩
          · next whole =>
            refine .inl ⟨(key, bytes), ?_, ?_⟩
            · rw [storing, there]
              exact if_neg whole
            · dsimp only

theorem account_run {events : List (Interleaving.Event Request Storage)}
    (fits : Unsaturated cap files events) :
    (run files cap events).shared.state.used = (run files cap events).shared.state.total := by
  induction events using List.reverseRecOn with
  | nil => rfl
  | append_singleton events event ih =>
    have earlier := ih fun before next after split =>
      fits before next (after ++ [event]) (by rw [split, List.append_assoc, List.cons_append])
    rw [run, Interleaving.run_snoc]
    rcases @step_account cap files (run files cap events) event with ⟨entry, stored, same⟩ | same
    · have fit := fits events event [] rfl entry stored
      rw [run] at same
      rw [same]
      exact put_exact earlier fit
    · rw [run] at same
      rw [same.1, same.2]
      exact earlier

theorem unsaturated_of_small (small : 2 * cap ≤ usizeMax)
    (events : List (Interleaving.Event Request Storage)) : Unsaturated cap files events := by
  induction events using List.reverseRecOn with
  | nil =>
    intro before event after split
    exact absurd split (by simp)
  | append_singleton events last ih =>
    intro before event after split
    rcases List.eq_nil_or_concat after with rfl | ⟨after, other, rfl⟩
    · obtain ⟨rfl, -⟩ := List.append_inj' split rfl
      exact fun entry _ => fits_of_small small (sound_run events).bounded (account_run ih)
    · rw [List.concat_eq_append, ← List.cons_append, ← List.append_assoc] at split
      exact ih before event after (List.append_inj' split rfl).1

/-- In every run of any number of calls, what a call returns are the bytes it asked for, what is
cached is what its file holds, nothing is read for a call with a range outside its file, and the
account is within the capacity; it is the sum of the weights if no entry is put in that takes the
sum beyond `usize`, which no entry does if the capacity is at most half of it. -/
theorem cache_transparent (files : String → Bytes) (cap : Nat)
    (events : List (Interleaving.Event Request Storage)) :
    (∀ call ∈ (run files cap events).shared.returned, Answered files call.1 call.2) ∧
    (∀ entry ∈ (run files cap events).shared.state.entries.entries, Right files entry) ∧
    (∀ read ∈ (run files cap events).shared.reads,
      ∀ range ∈ read.1.ranges, Inside (files read.1.file) range) ∧
    (run files cap events).shared.state.used ≤ cap ∧
    (Unsaturated cap files events → (run files cap events).shared.state.used =
      (run files cap events).shared.state.total) ∧
    (2 * cap ≤ usizeMax → Unsaturated cap files events) := by
  have sound := @sound_run cap files events
  exact ⟨sound.returned, sound.right, sound.reads, sound.bounded, account_run,
    fun small => unsaturated_of_small small events⟩

theorem utf8ByteSize_replicate (count : Nat) :
    (String.ofList (List.replicate count 'a')).utf8ByteSize = count := by
  induction count with
  | zero => rfl
  | succ count ih =>
    rw [List.replicate_succ, ← List.singleton_append, String.ofList_append,
      String.utf8ByteSize_append, ih]
    have one : (String.ofList ['a']).utf8ByteSize = 1 := by decide
    omega

/-- The steps of a call for two ranges of a file that are both fetched and put in. -/
def twoRanges (file : String) : List (Interleaving.Event Request Storage) :=
  [.call ⟨file, [⟨0, 1⟩, ⟨1, 2⟩]⟩, .advance 0 (.answers []), .advance 0 (.answers []),
    .advance 0 (.answers []), .advance 0 (.answers [1, 1]), .advance 0 (.answers []),
    .advance 0 (.answers [])]

theorem saturated (file : String) (long : file.utf8ByteSize = 9223372036854775807) :
    (run (fun _ => [0, 0]) usizeMax (twoRanges file)).shared.state.used ≠
      (run (fun _ => [0, 0]) usizeMax (twoRanges file)).shared.state.total := by
  have stored : (run (fun _ => [0, 0]) usizeMax (twoRanges file)).shared.state =
      put usizeMax (put usizeMax .new ⟨file, 2, 0, 1⟩ [0]) ⟨file, 2, 1, 2⟩ [0] := by
    simp [run, twoRanges, Interleaving.run, Interleaving.step, system, advance, Shared.new, get,
      State.new, getMut, unbounded, Storage.getByteRanges, slice]
  have weight : ∀ start «end», Key.weight ⟨file, 2, start, «end»⟩ 1 = 9223372036854776000 := by
    intro start «end»
    simp [Key.weight, saturatingAdd, usizeMax, long]
  have first : put usizeMax .new ⟨file, 2, 0, 1⟩ [0] =
      ⟨unbounded.push ⟨file, 2, 0, 1⟩ [0], 9223372036854776000⟩ := by
    simp [put, weight, usizeMax, State.new, peek, unbounded, push,
      len, evict, saturatingAdd]
  have second : put usizeMax ⟨unbounded.push ⟨file, 2, 0, 1⟩ [0], 9223372036854776000⟩
      ⟨file, 2, 1, 2⟩ [0] =
      ⟨(unbounded.push ⟨file, 2, 0, 1⟩ [0]).push ⟨file, 2, 1, 2⟩ [0], usizeMax⟩ := by
    simp [put, weight, usizeMax, peek, unbounded, push,
      len, evict, saturatingAdd]
  rw [stored, first, second]
  simp [State.total, total, push, unbounded, weightOf, weight, usizeMax]

/-- Two entries of a file whose name is as long as a string can be weigh more than `usize` holds. -/
theorem account_saturates :
    (run (fun _ => [0, 0]) usizeMax
      (twoRanges (String.ofList (List.replicate (9223372036854775807) 'a')))).shared.state.used ≠
    (run (fun _ => [0, 0]) usizeMax
      (twoRanges (String.ofList (List.replicate (9223372036854775807) 'a')))).shared.state.total :=
  saturated _ (utf8ByteSize_replicate _)

end IcebergRust.DataCache
