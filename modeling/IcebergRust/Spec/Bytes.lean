import IcebergRust.Lib.Reader
import IcebergRust.Spec.LittleEndian

/-!
# Slices of bytes

What the parsers of binary files do to a `&[u8]`: they take it apart by ranges, of which one out of
bounds is a panic, and read words from it.
-/

namespace IcebergRust

open Fallible Reader

/-- An error that is returned, not a panic. -/
def Error.Returned (e : Error) : Prop := ∀ what, e ≠ .panicked what

theorem not_panics_iff {α : Type} {run : Except Error α} :
    ¬ Panics run ↔ Raises Error.Returned run := by
  constructor
  · rintro calm e failed what rfl
    exact calm ⟨what, failed⟩
  · rintro returned ⟨what, failed⟩
    exact returned _ failed what rfl

/-- `-` on `usize`. -/
def subUsize (a b : Nat) : Except Error Nat :=
  if b ≤ a then .ok (a - b) else .error (.panicked "attempt to subtract with overflow")

/-- `bytes[start..stop]`. -/
def slice (bytes : List UInt8) (start stop : Nat) : Except Error (List UInt8) :=
  if start ≤ stop ∧ stop ≤ bytes.length then .ok ((bytes.take stop).drop start)
  else .error (.panicked "range out of bounds")

/-- `from_be_bytes` of a slice, which must have the width of the integer. -/
def fromBeBytes (width : Nat) (bytes : List UInt8) : Except Error (BitVec width) :=
  fromLeBytes width bytes.reverse

/-- `to_be_bytes`. -/
def toBeBytes {width : Nat} (bits : BitVec width) : List UInt8 := (Value.leBytes bits).reverse

/-- `Read::read_exact` of a slice. -/
def readExact (count : Nat) : Reader Error UInt8 (List UInt8) := fun input =>
  if input.length < count then .error (.io "failed to fill whole buffer")
  else .ok (input.take count, input.drop count)

/-- A reader of slices that returns its errors. -/
def Calm {α : Type} (read : Reader Error UInt8 α) : Prop :=
  ∀ input, Raises Error.Returned (read input)

/-- A little-endian word from the front of a slice. -/
def readLe (count : Nat) : Reader Error UInt8 (BitVec (8 * count)) :=
  (readExact count).andThen fun bytes input => (fromLeBytes (8 * count) bytes).map (·, input)

@[simp] theorem subUsize_add (a b : Nat) : subUsize (a + b) b = .ok a := by
  unfold subUsize
  rw [if_pos (Nat.le_add_left b a), Nat.add_sub_cancel]

theorem subUsize_of_le {a b : Nat} (le : b ≤ a) : subUsize a b = .ok (a - b) := if_pos le

theorem exists_slice {bytes : List UInt8} {start stop : Nat} (order : start ≤ stop)
    (within : stop ≤ bytes.length) :
    ∃ part, slice bytes start stop = .ok part ∧ part.length = stop - start := by
  refine ⟨_, if_pos ⟨order, within⟩, ?_⟩
  rw [List.length_drop, List.length_take_of_le within]

/-- The part between two others. -/
theorem slice_middle (before middle after : List UInt8) :
    slice (before ++ (middle ++ after)) before.length (before.length + middle.length) =
      .ok middle := by
  have stop : before.length + middle.length ≤ (before ++ (middle ++ after)).length := by
    simp only [List.length_append]
    omega
  unfold slice
  rw [if_pos ⟨Nat.le_add_right .., stop⟩, ← List.append_assoc, ← List.length_append,
    List.take_left, List.drop_left]

theorem slice_start (before after : List UInt8) :
    slice (before ++ after) 0 before.length = .ok before := by
  have part := slice_middle [] before after
  rwa [List.nil_append, List.length_nil, Nat.zero_add] at part

theorem slice_end (before after : List UInt8) :
    slice (before ++ after) before.length (before ++ after).length = .ok after := by
  have part := slice_middle before after []
  rwa [List.append_nil, ← List.length_append] at part

theorem length_toBeBytes {width : Nat} (bits : BitVec width) :
    (toBeBytes bits).length = width / 8 := by
  rw [toBeBytes, List.length_reverse, length_leBytes]

/-- A word is read from its bytes only. -/
theorem fromLeBytes_eq_ok {count : Nat} {bytes : List UInt8} {bits : BitVec (8 * count)} :
    fromLeBytes (8 * count) bytes = .ok bits ↔ bytes = Value.leBytes bits := by
  constructor
  · intro read
    unfold fromLeBytes at read
    by_cases width : 8 * bytes.length = 8 * count
    · rw [if_pos width] at read
      cases read
      exact (leBytes_ofLeBytes (by omega)).symm
    · rw [if_neg width] at read
      cases read
  · rintro rfl
    exact fromLeBytes_leBytes bits

theorem fromBeBytes_eq_ok {count : Nat} {bytes : List UInt8} {bits : BitVec (8 * count)} :
    fromBeBytes (8 * count) bytes = .ok bits ↔ bytes = toBeBytes bits := by
  rw [fromBeBytes, fromLeBytes_eq_ok, toBeBytes]
  exact ⟨fun same => by rw [← same, List.reverse_reverse], fun same => by
    rw [same, List.reverse_reverse]⟩

theorem fromLeBytes_returns (width : Nat) (bytes : List UInt8) :
    Raises Error.Returned (fromLeBytes width bytes) := by
  unfold fromLeBytes
  by_cases fits : 8 * bytes.length = width
  · rw [if_pos fits]
    exact raises_ok _
  · rw [if_neg fits]
    exact raises_error nofun

theorem fromBeBytes_returns (width : Nat) (bytes : List UInt8) :
    Raises Error.Returned (fromBeBytes width bytes) := fromLeBytes_returns width _

theorem readExact_reads (count : Nat) :
    Reads (fun text found => text = found ∧ found.length = count) (readExact count) :=
  reads_take count _

theorem calm_readLe (count : Nat) : Calm (readLe count) := by
  intro input
  refine Raises.bind (Raises.guard (fun _ => nofun) fun _ => raises_ok _) fun found _ => ?_
  exact (fromLeBytes_returns _ _).map _

/-- A word is read from its bytes. -/
theorem readLe_reads (count : Nat) :
    Reads (fun text bits => text = Value.leBytes bits) (readLe count) := by
  have word (bytes : List UInt8) : Reads (fun text bits => text = [] ∧ bytes = Value.leBytes bits)
      fun input : List UInt8 => (fromLeBytes (8 * count) bytes).map (·, input) := by
    intro input bits rest
    rw [map_eq_ok]
    constructor
    · rintro ⟨found, run, same⟩
      cases same
      exact ⟨[], rfl, rfl, fromLeBytes_eq_ok.mp run⟩
    · rintro ⟨_, rfl, rfl, same⟩
      exact ⟨bits, fromLeBytes_eq_ok.mpr same, rfl⟩
  refine ((readExact_reads count).andThen word).of_iff ?_
  intro text bits
  constructor
  · rintro ⟨_, _, bytes, rfl, ⟨rfl, -⟩, rfl, rfl⟩
    exact List.append_nil _
  · rintro rfl
    have length := length_leBytes bits
    rw [Nat.mul_div_cancel_left count (by decide)] at length
    exact ⟨_, [], _, (List.append_nil _).symm, ⟨rfl, length⟩, rfl, rfl⟩

end IcebergRust
