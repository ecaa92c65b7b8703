import IcebergRust.Lib.Fallible

/-!
# Readers

Programs that read from the front of their input and return what they leave of it.

* `Reads` relates a reader to what it reads: it succeeds exactly on the texts of a value, whatever
  follows them.
* `Reads.andThen` reads one thing after another; `Reads.check` is a reader behind a condition.
-/

/-- A program that reads from the front of its input. -/
abbrev Reader (ε σ α : Type) := List σ → Except ε (α × List σ)

namespace Reader

open Fallible

variable {ε σ α β : Type}

/-- One reader after another. -/
def andThen (read : Reader ε σ α) (next : α → Reader ε σ β) : Reader ε σ β := fun input =>
  read input >>= fun found => next found.1 found.2

/-- A reader reads the texts of a value, and leaves what follows. -/
def Reads (spells : List σ → α → Prop) (read : Reader ε σ α) : Prop :=
  ∀ input a rest, read input = .ok (a, rest) ↔ ∃ text, input = text ++ rest ∧ spells text a

variable {read : Reader ε σ α}

theorem Reads.of_iff {spells spells' : List σ → α → Prop} (reads : Reads spells read)
    (same : ∀ text a, spells text a ↔ spells' text a) : Reads spells' read := by
  intro input a rest
  rw [reads]
  exact exists_congr fun text => and_congr_right fun _ => same text a

theorem reads_nothing (a : α) :
    Reads (fun text b => text = [] ∧ b = a)
      (fun input : List σ => (.ok (a, input) : Except ε (α × List σ))) := by
  intro input b rest
  constructor
  · intro read
    cases read
    exact ⟨[], rfl, rfl, rfl⟩
  · rintro ⟨_, rfl, rfl, rfl⟩
    rfl

theorem Reads.andThen {spells : List σ → α → Prop} {spells' : α → List σ → β → Prop}
    {next : α → Reader ε σ β} (first : Reads spells read) (second : ∀ a, Reads (spells' a) (next a)) :
    Reads (fun text b => ∃ start rest a, text = start ++ rest ∧ spells start a ∧ spells' a rest b)
      (read.andThen next) := by
  intro input b rest
  unfold Reader.andThen
  rw [bind_eq_ok]
  constructor
  · rintro ⟨⟨a, left⟩, run, run'⟩
    obtain ⟨start, rfl, spelled⟩ := (first _ _ _).mp run
    obtain ⟨more, rfl, spelled'⟩ := (second a _ _ _).mp run'
    exact ⟨start ++ more, (List.append_assoc ..).symm, start, more, a, rfl, spelled, spelled'⟩
  · rintro ⟨_, rfl, start, more, a, rfl, spelled, spelled'⟩
    refine ⟨(a, more ++ rest), (first _ _ _).mpr ⟨start, List.append_assoc .., spelled⟩, ?_⟩
    exact (second a _ _ _).mpr ⟨more, rfl, spelled'⟩

/-- A reader behind a condition. -/
theorem Reads.check {spells : List σ → α → Prop} (reads : Reads spells read) (bad : Prop)
    [Decidable bad] (e : ε) :
    Reads (fun text a => ¬ bad ∧ spells text a)
      (fun input => if bad then .error e else read input) := by
  intro input a rest
  rw [guard_eq_ok, reads]
  exact ⟨fun ⟨good, text, same, spelled⟩ => ⟨text, same, good, spelled⟩,
    fun ⟨text, same, good, spelled⟩ => ⟨good, text, same, spelled⟩⟩

/-- The value that is read, seen through a function. -/
theorem Reads.map {spells : List σ → α → Prop} (reads : Reads spells read) (f : α → β) :
    Reads (fun text b => ∃ a, f a = b ∧ spells text a)
      (fun input => (read input).map fun found => (f found.1, found.2)) := by
  intro input b rest
  rw [map_eq_ok]
  constructor
  · rintro ⟨⟨a, left⟩, run, same⟩
    cases same
    obtain ⟨text, rfl, spelled⟩ := (reads _ _ _).mp run
    exact ⟨text, rfl, a, rfl, spelled⟩
  · rintro ⟨text, rfl, a, rfl, spelled⟩
    exact ⟨(a, rest), (reads _ _ _).mpr ⟨text, rfl, spelled⟩, rfl⟩

/-- As many elements as asked for. -/
theorem reads_take (count : Nat) (e : ε) :
    Reads (fun text found => text = found ∧ found.length = count)
      (fun input : List σ => if input.length < count then .error e
        else .ok (input.take count, input.drop count)) := by
  intro input found rest
  rw [guard_eq_ok, Except.ok.injEq, Prod.mk.injEq, Nat.not_lt]
  constructor
  · rintro ⟨enough, rfl, rfl⟩
    exact ⟨_, (List.take_append_drop count input).symm, rfl, List.length_take_of_le enough⟩
  · rintro ⟨_, rfl, rfl, rfl⟩
    refine ⟨?_, List.take_left, List.drop_left⟩
    rw [List.length_append]
    exact Nat.le_add_right ..

end Reader
