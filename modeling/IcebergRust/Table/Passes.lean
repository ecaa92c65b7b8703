import IcebergRust.Table.Assembled
import Mathlib.Data.List.MinMax

/-!
# The passes over the old list

The selection functions and the copying pass as runs of the machine: what they list, what
they hold back, and which rows they lose.

* `Offered` is the inversion of `offer`, the step all selection functions share.
* `lostRows` are the candidates the unpartitioned selection loses, read off the list; the
  partitioned selection loses none.
-/

namespace IcebergRust

open Fallible

variable {V : Type}

/-- Recording rows that are lost. -/
def Ledger.lose (ledger : Ledger V) (rows : List (ManifestListEntry V)) : Ledger V :=
  { ledger with displaced := Multiset.ofList rows + ledger.displaced }

theorem Ledger.lose_nil (ledger : Ledger V) : ledger.lose [] = ledger := by simp [lose]

theorem Ledger.lose_append (ledger : Ledger V) (first second : List (ManifestListEntry V)) :
    (ledger.lose first).lose second = ledger.lose (first ++ second) := by
  simp only [lose, ← Multiset.coe_add, add_assoc, add_left_comm]

theorem Ledger.lose_perm (ledger : Ledger V) {first second : List (ManifestListEntry V)}
    (perm : first.Perm second) : ledger.lose first = ledger.lose second := by
  rw [lose, lose, Multiset.coe_eq_coe.mpr perm]

/-! ### One row -/

/-- What `offer` can do: take the first candidate, pass on the row or the candidate, or lose the
candidate.  The last argument lists the rows lost. -/
inductive Offered {σ κ : Type} (emit : σ → ManifestListEntry V → Except Error σ)
    (choose : κ → κ → Except Error Choice) (key : κ) (row : ManifestListEntry V) :
    σ × Option (κ × ManifestListEntry V) → σ × Option (κ × ManifestListEntry V) →
      List (ManifestListEntry V) → Prop
  | first (s : σ) : Offered emit choose key row (s, none) (s, some (key, row)) []
  | keep {s t : σ} {k : κ} {candidate : ManifestListEntry V} (chosen : choose k key = .ok .keep)
      (emitted : emit s row = .ok t) :
      Offered emit choose key row (s, some (k, candidate)) (t, some (k, candidate)) []
  | replace {s t : σ} {k : κ} {candidate : ManifestListEntry V}
      (chosen : choose k key = .ok .replace) (emitted : emit s candidate = .ok t) :
      Offered emit choose key row (s, some (k, candidate)) (t, some (key, row)) []
  | overwrite {s : σ} {k : κ} {candidate : ManifestListEntry V}
      (chosen : choose k key = .ok .overwrite) :
      Offered emit choose key row (s, some (k, candidate)) (s, some (key, row)) [candidate]

variable {row : ManifestListEntry V} {rows : List (ManifestListEntry V)} {overwrites : List String}

theorem offer_offered {σ κ : Type} {emit : σ → ManifestListEntry V → Except Error σ}
    {choose : κ → κ → Except Error Choice} {key : κ}
    {before after : σ × Option (κ × ManifestListEntry V)}
    (run : offer emit choose before key row = .ok after) :
    ∃ lost, Offered emit choose key row before after lost := by
  obtain ⟨s, candidate⟩ := before
  cases candidate with
  | none =>
    cases run
    exact ⟨[], .first s⟩
  | some candidate =>
    simp only [offer, bind_eq_ok] at run
    obtain ⟨choice, chosen, run⟩ := run
    cases choice with
    | keep =>
      obtain ⟨t, emitted, run⟩ := bind_eq_ok.mp run
      cases run
      exact ⟨[], .keep chosen emitted⟩
    | replace =>
      obtain ⟨t, emitted, run⟩ := bind_eq_ok.mp run
      cases run
      exact ⟨[], .replace chosen emitted⟩
    | overwrite =>
      cases run
      exact ⟨[candidate.2], .overwrite chosen⟩

/-! ### Lost candidates -/

/-- The candidate of the unpartitioned selection after a further row. -/
def nextCandidate (candidate : Option (ManifestListEntry V)) (row : ManifestListEntry V) :
    ManifestListEntry V :=
  match candidate with
  | none => row
  | some selected =>
    match chooseByRows selected.addedRowsCount row.addedRowsCount with
    | .keep => selected
    | _ => row

/-- The candidate of the unpartitioned selection and the rows it has lost, after a further row. -/
def candidateStep (state : Option (ManifestListEntry V) × List (ManifestListEntry V))
    (row : ManifestListEntry V) : Option (ManifestListEntry V) × List (ManifestListEntry V) :=
  (some (nextCandidate state.1 row),
    state.2 ++ if row.addedRowsCount.isNone then state.1.toList else [])

/-- The number of added rows of a manifest, for comparison. -/
def rowCount (row : ManifestListEntry V) : Int := row.addedRowsCount.getD 0

/-- The first of the rows with the smallest count. -/
def smallestRow (rows : List (ManifestListEntry V)) : Option (ManifestListEntry V) :=
  @List.argmin _ Int Int.instLinearOrder.toPreorder (fun m n => Int.decLt m n) rowCount rows

/-- The candidates an unpartitioned selection loses among compatible rows.  The first row without a
count takes the place of the smallest row before it, and each later one that of its predecessor. -/
def lostRows (rows : List (ManifestListEntry V)) : List (ManifestListEntry V) :=
  match rows.dropWhile fun row => row.addedRowsCount.isSome with
  | [] => []
  | rest =>
    (smallestRow (rows.takeWhile fun row => row.addedRowsCount.isSome)).toList ++
      (rest.filter fun row => row.addedRowsCount.isNone).dropLast

/-- Rows with a count only compete for the smallest count. -/
theorem candidateStep_counted (counted : ∀ row ∈ rows, row.addedRowsCount.isSome) :
    rows.foldl candidateStep (none, []) = (smallestRow rows, []) := by
  unfold smallestRow
  induction rows using List.reverseRecOn with
  | nil => rfl
  | append_singleton rows row ih =>
    obtain ⟨count, here⟩ := Option.isSome_iff_exists.mp (counted row (by simp))
    rw [List.foldl_append, ih fun r member => counted r (List.mem_append_left _ member),
      List.argmin_concat]
    cases smallest : List.argmin rowCount rows with
    | none => simp [candidateStep, nextCandidate, here]
    | some selected =>
      obtain ⟨other, there⟩ := Option.isSome_iff_exists.mp
        (counted selected (List.mem_append_left _ (List.argmin_mem smallest)))
      by_cases smaller : count < other <;>
        simp [candidateStep, nextCandidate, chooseByRows, rowCount, here, there, smaller]

/-- Once a row without a count is the candidate, only such rows follow it. -/
theorem candidateStep_uncounted {candidate : ManifestListEntry V}
    (uncounted : candidate.addedRowsCount = none) (lost rows : List (ManifestListEntry V)) :
    (rows.foldl candidateStep (some candidate, lost)).2 =
      lost ++ (candidate :: rows.filter fun row => row.addedRowsCount.isNone).dropLast := by
  induction rows generalizing candidate lost with
  | nil => simp
  | cons row rows ih =>
    cases count : row.addedRowsCount with
    | none =>
      have next : candidateStep (some candidate, lost) row = (some row, lost ++ [candidate]) := by
        simp [candidateStep, nextCandidate, chooseByRows, count]
      rw [List.foldl_cons, next, ih count, List.filter_cons_of_pos (by simp [count])]
      simp
    | some n =>
      have next : candidateStep (some candidate, lost) row = (some candidate, lost) := by
        simp [candidateStep, nextCandidate, chooseByRows, count, uncounted]
      rw [List.foldl_cons, next, ih uncounted, List.filter_cons_of_neg (by simp [count])]

/-- The rows the unpartitioned selection loses. -/
theorem candidateStep_lost (rows : List (ManifestListEntry V)) :
    (rows.foldl candidateStep (none, [])).2 = lostRows rows := by
  have counted : ∀ row ∈ rows.takeWhile (·.addedRowsCount.isSome), row.addedRowsCount.isSome :=
    List.all_eq_true.mp List.all_takeWhile
  have whole : rows.takeWhile (·.addedRowsCount.isSome) ++
      rows.dropWhile (·.addedRowsCount.isSome) = rows := List.takeWhile_append_dropWhile
  have first := List.head?_dropWhile_not (·.addedRowsCount.isSome) rows
  rw [lostRows]
  conv_lhs => rw [← whole, List.foldl_append, candidateStep_counted counted]
  cases rest : rows.dropWhile (·.addedRowsCount.isSome) with
  | nil => rfl
  | cons row others =>
    rw [rest] at first
    have uncounted : row.addedRowsCount = none := by simpa using first
    have next (candidate : Option (ManifestListEntry V)) :
        candidateStep (candidate, []) row = (some row, candidate.toList) := by
      cases candidate <;> simp [candidateStep, nextCandidate, chooseByRows, uncounted]
    rw [List.foldl_cons, next, candidateStep_uncounted uncounted]
    simp only [List.filter_cons_of_pos, uncounted, Option.isNone_none]

/-! ### One row as a run -/

variable [PartitionValue V] {metadata : TableMetadata} {snapshotId : Int} {uuid : String}
  {mixes : Prop}

/-- Emitting a row lists it or sets it aside. -/
def Emits {σ : Type} (metadata : TableMetadata) (snapshotId : Int) (uuid : String) (mixes : Prop)
    (emit : σ → ManifestListEntry V → Except Error σ) (output : σ → ListOutput V)
    (aside : σ → List (ManifestListEntry V)) : Prop :=
  ∀ {s t : σ} {row : ManifestListEntry V}, emit s row = .ok t →
    ∀ (store : Store V) (held : Multiset (ManifestListEntry V))
      (loose : Multiset (ManifestContent × ManifestEntry V)) (ledger : Ledger V) (count : Nat),
      Assembles metadata snapshotId uuid mixes
        ⟨store, output s, row ::ₘ (Multiset.ofList (aside s) + held), loose, ledger, count⟩
        ⟨store, output t, Multiset.ofList (aside t) + held, loose, ledger, count⟩

theorem appendManifest_emits :
    Emits metadata snapshotId uuid mixes
      (appendManifest : ListOutput V → ManifestListEntry V → _) id fun _ => [] := by
  intro s t row run store held loose ledger count
  have list : AssemblyStep metadata snapshotId uuid mixes _ _ :=
    .list ⟨store, s, held, loose, ledger, count⟩ row t run
  simpa using list.assembles

theorem passOn_emits (overwrites : List String) :
    Emits metadata snapshotId uuid mixes
      (passOn overwrites : OverwriteOutput V → ManifestListEntry V → _) (·.output)
      (·.manifestsToOverwrite) := by
  intro s t row run store held loose ledger count
  simp only [passOn] at run
  split at run
  · cases run
    have order : Multiset.ofList (s.manifestsToOverwrite ++ [row]) + held =
        row ::ₘ (Multiset.ofList s.manifestsToOverwrite + held) := by
      rw [← Multiset.coe_add, add_right_comm, Multiset.coe_singleton, add_comm,
        Multiset.singleton_add]
    rw [order]
    exact .refl _
  · obtain ⟨output, listed, run⟩ := bind_eq_ok.mp run
    cases run
    have list : AssemblyStep metadata snapshotId uuid mixes _ _ :=
      .list ⟨store, s.output, Multiset.ofList s.manifestsToOverwrite + held, loose, ledger, count⟩
        row output listed
    exact list.assembles

/-- Losing rows. -/
theorem lose_assembles (versioned : metadata.formatVersion ≠ .v3) (a : Assembly V)
    (lost : List (ManifestListEntry V)) :
    Assembles metadata snapshotId uuid mixes { a with held := Multiset.ofList lost + a.held }
      { a with ledger := a.ledger.lose lost } := by
  induction lost generalizing a with
  | nil => simpa [Ledger.lose_nil] using Assembles.refl a
  | cons row lost ih =>
    have displace : AssemblyStep metadata snapshotId uuid mixes _ _ :=
      .displace { a with held := Multiset.ofList lost + a.held } row versioned
    have rest := ih { a with ledger := a.ledger.displace row }
    have same : (a.ledger.displace row).lose lost = a.ledger.lose (row :: lost) := by
      simp [Ledger.lose, Ledger.displace, ← Multiset.cons_coe, Multiset.add_cons]
    rw [← Multiset.cons_coe, Multiset.cons_add, ← same]
    exact displace.assembles.trans rest

/-- A row is offered to a candidate. -/
theorem Offered.assembles {σ κ : Type} {emit : σ → ManifestListEntry V → Except Error σ}
    {output : σ → ListOutput V} {aside : σ → List (ManifestListEntry V)}
    {choose : κ → κ → Except Error Choice} {key : κ}
    {before after : σ × Option (κ × ManifestListEntry V)} {lost : List (ManifestListEntry V)}
    (offered : Offered emit choose key row before after lost)
    (emits : Emits metadata snapshotId uuid mixes emit output aside)
    (versioned : metadata.formatVersion ≠ .v3) (store : Store V)
    (held : Multiset (ManifestListEntry V)) (loose : Multiset (ManifestContent × ManifestEntry V))
    (ledger : Ledger V) (count : Nat) :
    Assembles metadata snapshotId uuid mixes
      ⟨store, output before.1, row ::ₘ (optional (before.2.map (·.2)) +
        (Multiset.ofList (aside before.1) + held)), loose, ledger, count⟩
      ⟨store, output after.1, optional (after.2.map (·.2)) +
        (Multiset.ofList (aside after.1) + held), loose, ledger.lose lost, count⟩ := by
  cases offered with
  | first s => simpa [Ledger.lose_nil] using Assembles.refl _
  | @keep s t k candidate chosen emitted =>
    have passed := emits emitted store (candidate ::ₘ held) loose ledger count
    simpa [Ledger.lose_nil, Multiset.add_cons] using passed
  | @replace s t k candidate chosen emitted =>
    have passed := emits emitted store (row ::ₘ held) loose ledger count
    simpa [Ledger.lose_nil, Multiset.add_cons, Multiset.cons_swap] using passed
  | @overwrite s k candidate chosen =>
    have loses : Assembles metadata snapshotId uuid mixes _ _ := lose_assembles versioned
      ⟨store, output s, row ::ₘ (Multiset.ofList (aside s) + held), loose, ledger, count⟩
      [candidate]
    simpa [Multiset.cons_swap] using loses

/-! ### The selection passes -/

/-- A relation between the rows offered so far, the candidate and the rows lost that every offer
keeps. -/
structure TracksKey {κ : Type} (keyOf : ManifestListEntry V → Except Error κ)
    (choose : κ → κ → Except Error Choice)
    (J : List (ManifestListEntry V) → Option (κ × ManifestListEntry V) →
      List (ManifestListEntry V) → Prop) : Prop where
  start : J [] none []
  offer : ∀ {σ : Type} {emit : σ → ManifestListEntry V → Except Error σ}
    {offered lost gone : List (ManifestListEntry V)} {key : κ} {row : ManifestListEntry V}
    {before after : σ × Option (κ × ManifestListEntry V)}, J offered before.2 lost →
    keyOf row = .ok key → Offered emit choose key row before after gone →
    J (offered ++ [row]) after.2 (lost ++ gone)

/-- The candidate and the lost rows are those of `candidateStep`. -/
def CandidateOf (offered : List (ManifestListEntry V))
    (candidate : Option (Option Int × ManifestListEntry V)) (lost : List (ManifestListEntry V)) :
    Prop :=
  (∀ held ∈ candidate, held.1 = held.2.addedRowsCount) ∧
    offered.foldl candidateStep (none, []) = (candidate.map (·.2), lost)

omit [PartitionValue V] in
theorem chooseByRows_eq_overwrite {selected count : Option Int} :
    chooseByRows selected count = .overwrite ↔ count.isNone := by
  cases count with
  | none => simp [chooseByRows]
  | some n => simp [chooseByRows, ite_eq_iff]

omit [PartitionValue V] in
/-- The unpartitioned selection is the fold of `candidateStep`. -/
theorem unpartitioned_tracks :
    TracksKey (fun row : ManifestListEntry V => .ok row.addedRowsCount)
      (fun selected count => .ok (chooseByRows selected count)) CandidateOf where
  start := ⟨fun _ none => absurd none (by simp), rfl⟩
  offer := by
    rintro σ emit offered lost gone key row before after ⟨keyed, folded⟩ keyOf step
    cases keyOf
    rw [CandidateOf, List.foldl_append, folded]
    cases step with
    | first s => exact ⟨fun held here => by cases here; rfl, by simp [candidateStep, nextCandidate]⟩
    | @keep s t k candidate chosen emitted =>
      have same : k = candidate.addedRowsCount := keyed (k, candidate) rfl
      subst same
      have keeps := Except.ok.inj chosen
      have counted : ¬ row.addedRowsCount.isNone := by
        simp [← @chooseByRows_eq_overwrite candidate.addedRowsCount, keeps]
      exact ⟨keyed, by simp [candidateStep, nextCandidate, keeps, counted]⟩
    | @replace s t k candidate chosen emitted =>
      have same : k = candidate.addedRowsCount := keyed (k, candidate) rfl
      subst same
      have replaces := Except.ok.inj chosen
      have counted : ¬ row.addedRowsCount.isNone := by
        simp [← @chooseByRows_eq_overwrite candidate.addedRowsCount, replaces]
      exact ⟨fun held here => by cases here; rfl,
        by simp [candidateStep, nextCandidate, replaces, counted]⟩
    | @overwrite s k candidate chosen =>
      have same : k = candidate.addedRowsCount := keyed (k, candidate) rfl
      subst same
      have overwrites := Except.ok.inj chosen
      have uncounted := chooseByRows_eq_overwrite.mp overwrites
      exact ⟨fun held here => by cases here; rfl,
        by simp [candidateStep, nextCandidate, overwrites, uncounted]⟩

/-- The partitioned selection loses no candidate. -/
theorem partitioned_tracks (bounding : Rectangle V) :
    TracksKey (expandedBounds bounding) chooseByBounds fun _ _ lost => lost = [] where
  start := rfl
  offer := by
    rintro σ emit offered lost gone key row before after rfl keyOf step
    cases step with
    | first s => rfl
    | keep chosen emitted => rfl
    | replace chosen emitted => rfl
    | overwrite chosen =>
      obtain ⟨ordering, -, chosen⟩ := bind_eq_ok.mp chosen
      cases ordering <;> cases chosen

/-- The rows of a content a selection may rewrite. -/
def compatible (metadata : TableMetadata) (types : List IcebergType) (content : ManifestContent)
    (rows : List (ManifestListEntry V)) : List (ManifestListEntry V) :=
  rows.filter fun row => rewriteAllows metadata types row && row.content = content

/-- The state of the selection pass after some rows, as a run from all rows. -/
structure SelectRun {κ : Type} (metadata : TableMetadata) (snapshotId : Int) (uuid : String)
    (mixes : Prop)
    (J : List (ManifestListEntry V) → Option (κ × ManifestListEntry V) →
      List (ManifestListEntry V) → Prop)
    (allows : ManifestListEntry V → Bool) (output : ListOutput V)
    (done : List (ManifestListEntry V)) (state : SelectState V κ)
    (lostData lostDeletes : List (ManifestListEntry V)) : Prop where
  data : J (done.filter fun row => allows row && row.content = .data) state.data lostData
  deletes : J (done.filter fun row => allows row && row.content = .deletes) state.deletes lostDeletes
  dataContent : ∀ held ∈ state.data, held.2.content = .data
  deletesContent : ∀ held ∈ state.deletes, held.2.content = .deletes
  assembles : ∀ (store : Store V) (held : Multiset (ManifestListEntry V))
    (loose : Multiset (ManifestContent × ManifestEntry V)) (ledger : Ledger V) (count : Nat),
    Assembles metadata snapshotId uuid mixes
      ⟨store, output, Multiset.ofList done + held, loose, ledger, count⟩
      ⟨store, state.output, optional (state.data.map (·.2)) +
        (optional (state.deletes.map (·.2)) + held), loose,
        ledger.lose (lostData ++ lostDeletes), count⟩

section Tracked

variable {κ : Type} {keyOf : ManifestListEntry V → Except Error κ}
  {choose : κ → κ → Except Error Choice}
  {J : List (ManifestListEntry V) → Option (κ × ManifestListEntry V) →
    List (ManifestListEntry V) → Prop}

omit [PartitionValue V] in
/-- A candidate is the offered row or the previous candidate. -/
theorem Offered.candidate {σ : Type} {emit : σ → ManifestListEntry V → Except Error σ} {key : κ}
    {before after : σ × Option (κ × ManifestListEntry V)} {lost : List (ManifestListEntry V)}
    (offered : Offered emit choose key row before after lost) (p : ManifestListEntry V → Prop)
    (here : p row) (earlier : ∀ held ∈ before.2, p held.2) : ∀ held ∈ after.2, p held.2 := by
  cases offered with
  | first s => rintro held ⟨⟩; exact here
  | keep chosen emitted => exact earlier
  | replace chosen emitted => rintro held ⟨⟩; exact here
  | overwrite chosen => rintro held ⟨⟩; exact here

omit [PartitionValue V] in
theorem ofList_concat_add (done : List (ManifestListEntry V)) (row : ManifestListEntry V)
    (held : Multiset (ManifestListEntry V)) :
    Multiset.ofList (done ++ [row]) + held = Multiset.ofList done + (row ::ₘ held) := by
  rw [← Multiset.coe_add, add_assoc, Multiset.coe_singleton, Multiset.singleton_add]

theorem selectStep_run (tracks : TracksKey keyOf choose J)
    (versioned : metadata.formatVersion ≠ .v3) {allows : ManifestListEntry V → Bool}
    {output : ListOutput V} {done : List (ManifestListEntry V)} {before after : SelectState V κ}
    (here : ∃ lostData lostDeletes,
      SelectRun metadata snapshotId uuid mixes J allows output done before lostData lostDeletes)
    (run : selectStep allows keyOf choose before row = .ok after) :
    ∃ lostData lostDeletes, SelectRun metadata snapshotId uuid mixes J allows output
      (done ++ [row]) after lostData lostDeletes := by
  obtain ⟨lostData, lostDeletes, here⟩ := here
  simp only [selectStep] at run
  split at run
  · rename_i allowed
    obtain ⟨key, keyed, run⟩ := bind_eq_ok.mp run
    cases content : row.content with
    | data =>
      rw [content] at run
      obtain ⟨⟨listed, data⟩, offers, run⟩ := bind_eq_ok.mp run
      cases run
      obtain ⟨gone, offered⟩ := offer_offered offers
      refine ⟨lostData ++ gone, lostDeletes, ?_, ?_, ?_, here.deletesContent, ?_⟩
      · rw [List.filter_append, List.filter_cons_of_pos (by simp [allowed, content])]
        exact tracks.offer here.data keyed offered
      · rw [List.filter_append, List.filter_cons_of_neg (by simp [content])]
        simpa using here.deletes
      · exact offered.candidate (·.content = .data) content here.dataContent
      · intro store held loose ledger count
        have one := here.assembles store (row ::ₘ held) loose ledger count
        have two : Assembles metadata snapshotId uuid mixes _ _ :=
          offered.assembles appendManifest_emits versioned store
          (optional (before.deletes.map (·.2)) + held) loose
          (ledger.lose (lostData ++ lostDeletes)) count
        have order : (lostData ++ lostDeletes ++ gone).Perm (lostData ++ gone ++ lostDeletes) := by
          rw [List.append_assoc, List.append_assoc]
          exact List.perm_append_comm.append_left _
        rw [Ledger.lose_append, Ledger.lose_perm ledger order] at two
        simp only [Multiset.add_cons, Multiset.coe_nil, zero_add, id_eq] at one two
        rw [ofList_concat_add, Multiset.add_cons]
        exact one.trans two
    | deletes =>
      rw [content] at run
      obtain ⟨⟨listed, deletes⟩, offers, run⟩ := bind_eq_ok.mp run
      cases run
      obtain ⟨gone, offered⟩ := offer_offered offers
      refine ⟨lostData, lostDeletes ++ gone, ?_, ?_, here.dataContent, ?_, ?_⟩
      · rw [List.filter_append, List.filter_cons_of_neg (by simp [content])]
        simpa using here.data
      · rw [List.filter_append, List.filter_cons_of_pos (by simp [allowed, content])]
        exact tracks.offer here.deletes keyed offered
      · exact offered.candidate (·.content = .deletes) content here.deletesContent
      · intro store held loose ledger count
        have one := here.assembles store (row ::ₘ held) loose ledger count
        have two : Assembles metadata snapshotId uuid mixes _ _ :=
          offered.assembles appendManifest_emits versioned store
          (optional (before.data.map (·.2)) + held) loose
          (ledger.lose (lostData ++ lostDeletes)) count
        rw [Ledger.lose_append, List.append_assoc] at two
        simp only [Multiset.add_cons, Multiset.coe_nil, zero_add, id_eq,
          add_left_comm (optional (Option.map _ before.data))] at one two
        rw [ofList_concat_add, Multiset.add_cons, add_left_comm]
        exact one.trans two
  · rename_i refused
    obtain ⟨listed, lists, run⟩ := bind_eq_ok.mp run
    cases run
    refine ⟨lostData, lostDeletes, ?_, ?_, here.dataContent, here.deletesContent, ?_⟩
    · rw [List.filter_append, List.filter_cons_of_neg (by simp [refused])]
      simpa using here.data
    · rw [List.filter_append, List.filter_cons_of_neg (by simp [refused])]
      simpa using here.deletes
    · intro store held loose ledger count
      have one := here.assembles store (row ::ₘ held) loose ledger count
      have list : AssemblyStep metadata snapshotId uuid mixes _ _ :=
        .list ⟨store, before.output, optional (before.data.map (·.2)) +
          (optional (before.deletes.map (·.2)) + held), loose,
          ledger.lose (lostData ++ lostDeletes), count⟩ row listed lists
      simp only [Multiset.add_cons] at one
      rw [ofList_concat_add, Multiset.add_cons]
      exact one.trans list.assembles

/-- The selection pass of an append is a run: it holds back one manifest for each content, of that
content, and loses the rows the relation tells. -/
theorem selectManifest_assembles (tracks : TracksKey keyOf choose J)
    (versioned : metadata.formatVersion ≠ .v3) {output : ListOutput V}
    {selected : SelectedManifest V}
    (run : selectManifest keyOf choose rows output metadata = .ok selected) :
    ∃ types data deletes lostData lostDeletes, rewritePartitionTypes metadata = .ok types ∧
      selected.dataManifest = data.map (·.2) ∧ selected.deleteManifest = deletes.map (·.2) ∧
      SelectRun metadata snapshotId uuid mixes J (rewriteAllows metadata types) output rows
        ⟨selected.output, data, deletes, selected.fileCountAllEntries⟩ lostData lostDeletes := by
  simp only [selectManifest, bind_eq_ok] at run
  obtain ⟨types, typed, state, folded, run⟩ := run
  cases run
  obtain ⟨lostData, lostDeletes, done⟩ := foldlM_prefix_invariant
    (fun done (state : SelectState V κ) => ∃ lostData lostDeletes, SelectRun metadata snapshotId
      uuid mixes J (rewriteAllows metadata types) output done state lostData lostDeletes)
    (fun done row a b _ here stepped => selectStep_run tracks versioned here stepped) folded
    ⟨[], [], tracks.start, tracks.start, by simp, by simp, fun store held loose ledger count => by
      simpa [Ledger.lose_nil] using Assembles.refl _⟩
  exact ⟨types, state.data, state.deletes, lostData, lostDeletes, typed, rfl, rfl, done⟩

/-! ### The passes that set manifests aside -/

/-- Those of some rows that are named by an overwrite. -/
def namedRows (overwrites : List String) (rows : Multiset (ManifestListEntry V)) :
    Multiset (ManifestListEntry V) :=
  rows.filter fun row => row.manifestPath ∈ overwrites

section

omit [PartitionValue V]

theorem namedRows_add (overwrites : List String) (first second : Multiset (ManifestListEntry V)) :
    namedRows overwrites (first + second) =
      namedRows overwrites first + namedRows overwrites second :=
  Multiset.filter_add ..

@[simp] theorem namedRows_zero (overwrites : List String) :
    namedRows overwrites (0 : Multiset (ManifestListEntry V)) = 0 := rfl

theorem passOn_aside {s t : OverwriteOutput V} (run : passOn overwrites s row = .ok t) :
    Multiset.ofList t.manifestsToOverwrite =
      Multiset.ofList s.manifestsToOverwrite + namedRows overwrites {row} := by
  simp only [passOn] at run
  split at run
  · rename_i hit
    cases run
    rw [← Multiset.coe_add, namedRows, Multiset.filter_singleton, if_pos hit]
    rfl
  · rename_i miss
    obtain ⟨output, -, run⟩ := bind_eq_ok.mp run
    cases run
    rw [namedRows, Multiset.filter_singleton, if_neg miss]
    exact (add_zero _).symm

end

/-- A pass over some rows with a candidate: what has become of them. -/
structure PassRun {κ : Type} (metadata : TableMetadata) (snapshotId : Int) (uuid : String)
    (mixes : Prop) (overwrites : List String)
    (J : List (ManifestListEntry V) → Option (κ × ManifestListEntry V) →
      List (ManifestListEntry V) → Prop)
    (allows : ManifestListEntry V → Bool) (output : ListOutput V)
    (done : List (ManifestListEntry V)) (passed : OverwriteOutput V)
    (selected : Option (κ × ManifestListEntry V)) (lost : List (ManifestListEntry V)) : Prop where
  candidate : J (done.filter allows) selected lost
  aside : namedRows overwrites (Multiset.ofList done) =
    Multiset.ofList passed.manifestsToOverwrite +
      namedRows overwrites (optional (selected.map (·.2)) + Multiset.ofList lost)
  assembles : ∀ (store : Store V) (held : Multiset (ManifestListEntry V))
    (loose : Multiset (ManifestContent × ManifestEntry V)) (ledger : Ledger V) (count : Nat),
    Assembles metadata snapshotId uuid mixes
      ⟨store, output, Multiset.ofList done + held, loose, ledger, count⟩
      ⟨store, passed.output, optional (selected.map (·.2)) +
        (Multiset.ofList passed.manifestsToOverwrite + held), loose, ledger.lose lost, count⟩

omit [PartitionValue V] in
/-- An offer keeps track of the named rows. -/
theorem Offered.aside {key : κ}
    {before after : OverwriteOutput V × Option (κ × ManifestListEntry V)}
    {lost : List (ManifestListEntry V)}
    (offered : Offered (passOn overwrites) choose key row before after lost) :
    Multiset.ofList before.1.manifestsToOverwrite +
        namedRows overwrites (optional (before.2.map (·.2)) + {row}) =
      Multiset.ofList after.1.manifestsToOverwrite +
        namedRows overwrites (optional (after.2.map (·.2)) + Multiset.ofList lost) := by
  simp only [namedRows_add]
  cases offered with
  | first s => simp
  | keep chosen emitted =>
    simp only [passOn_aside emitted, Multiset.coe_nil, namedRows_zero]
    abel
  | replace chosen emitted =>
    simp only [passOn_aside emitted, Multiset.coe_nil, namedRows_zero, Option.map_some,
      optional_some]
    abel
  | overwrite chosen =>
    simp only [Multiset.coe_singleton, Option.map_some, optional_some]
    abel

theorem overwriteStep_run (tracks : TracksKey keyOf choose J)
    (versioned : metadata.formatVersion ≠ .v3) {allows : ManifestListEntry V → Bool}
    {output : ListOutput V} {done : List (ManifestListEntry V)} {before after : OverwriteState V κ}
    (here : ∃ lost, PassRun metadata snapshotId uuid mixes overwrites J allows output done
      before.passed before.selected lost)
    (run : overwriteStep overwrites allows keyOf choose before row = .ok after) :
    ∃ lost, PassRun metadata snapshotId uuid mixes overwrites J allows output (done ++ [row])
      after.passed after.selected lost := by
  obtain ⟨lost, here⟩ := here
  simp only [overwriteStep] at run
  split at run
  · rename_i allowed
    obtain ⟨key, keyed, run⟩ := bind_eq_ok.mp run
    obtain ⟨⟨passed, selected⟩, offers, run⟩ := bind_eq_ok.mp run
    cases run
    obtain ⟨gone, offered⟩ := offer_offered offers
    refine ⟨lost ++ gone, ?_, ?_, ?_⟩
    · rw [List.filter_append, List.filter_cons_of_pos allowed]
      exact tracks.offer here.candidate keyed offered
    · have one := offered.aside
      rw [← Multiset.coe_add, namedRows_add, here.aside, Multiset.coe_singleton]
      simp only [namedRows_add, ← Multiset.coe_add] at one ⊢
      have order (a b c d : Multiset (ManifestListEntry V)) : a + (b + c) + d = a + (b + d) + c := by
        abel
      rw [order, one]
      abel
    · intro store held loose ledger count
      have one := here.assembles store (row ::ₘ held) loose ledger count
      have two : Assembles metadata snapshotId uuid mixes _ _ :=
        offered.assembles (passOn_emits overwrites) versioned store held loose
          (ledger.lose lost) count
      rw [Ledger.lose_append] at two
      simp only [Multiset.add_cons] at one
      rw [ofList_concat_add, Multiset.add_cons]
      exact one.trans two
  · rename_i refused
    obtain ⟨passed, passes, run⟩ := bind_eq_ok.mp run
    cases run
    refine ⟨lost, ?_, ?_, ?_⟩
    · rw [List.filter_append, List.filter_cons_of_neg refused]
      simpa using here.candidate
    · rw [← Multiset.coe_add, namedRows_add, here.aside, Multiset.coe_singleton,
        passOn_aside passes]
      exact add_right_comm _ _ _
    · intro store held loose ledger count
      have one := here.assembles store (row ::ₘ held) loose ledger count
      have emitted : Assembles metadata snapshotId uuid mixes _ _ := passOn_emits overwrites passes
        store (optional (before.selected.map (·.2)) + held) loose (ledger.lose lost) count
      simp only [Multiset.add_cons, add_left_comm (Multiset.ofList _)] at one emitted
      rw [ofList_concat_add, Multiset.add_cons]
      exact one.trans emitted

/-- The selection pass of an overwrite. -/
theorem selectWithoutOverwrites_run (tracks : TracksKey keyOf choose J)
    (versioned : metadata.formatVersion ≠ .v3) {output : ListOutput V}
    {selected : OverwriteManifest V}
    (run : selectWithoutOverwrites keyOf choose rows output overwrites metadata = .ok selected) :
    ∃ types candidate lost, rewritePartitionTypes metadata = .ok types ∧
      selected.manifest = candidate.map (·.2) ∧
      PassRun metadata snapshotId uuid mixes overwrites J (rewriteAllows metadata types) output rows
        ⟨selected.output, selected.manifestsToOverwrite⟩ candidate lost := by
  simp only [selectWithoutOverwrites, bind_eq_ok] at run
  obtain ⟨types, typed, state, folded, run⟩ := run
  cases run
  obtain ⟨lost, done⟩ := foldlM_prefix_invariant
    (fun done (state : OverwriteState V κ) => ∃ lost, PassRun metadata snapshotId uuid mixes
      overwrites J (rewriteAllows metadata types) output done state.passed state.selected lost)
    (fun done row a b _ here stepped => overwriteStep_run tracks versioned here stepped) folded
    ⟨[], tracks.start, by simp, fun store held loose ledger count => by
      simpa [Ledger.lose_nil] using Assembles.refl _⟩
  exact ⟨types, state.selected, lost, typed, rfl, done⟩

end Tracked

/-- The state of the pass that selects nothing, as a run from all rows. -/
structure CopyRun (metadata : TableMetadata) (snapshotId : Int) (uuid : String) (mixes : Prop)
    (overwrites : List String) (output : ListOutput V) (done : List (ManifestListEntry V))
    (passed : OverwriteOutput V) : Prop where
  aside : namedRows overwrites (Multiset.ofList done) = Multiset.ofList passed.manifestsToOverwrite
  assembles : ∀ (store : Store V) (held : Multiset (ManifestListEntry V))
    (loose : Multiset (ManifestContent × ManifestEntry V)) (ledger : Ledger V) (count : Nat),
    Assembles metadata snapshotId uuid mixes
      ⟨store, output, Multiset.ofList done + held, loose, ledger, count⟩
      ⟨store, passed.output, Multiset.ofList passed.manifestsToOverwrite + held, loose, ledger,
        count⟩

/-- The pass that selects nothing sets aside the named rows and lists the others. -/
theorem copyManifests_run {state : ManifestListWriter.CopyState V}
    (run : ManifestListWriter.copyManifests rows overwrites metadata = .ok state) :
    CopyRun metadata snapshotId uuid mixes overwrites
      (.start metadata.formatVersion (ManifestListWriter.tableAssigner metadata)) rows
      state.passed := by
  refine foldlM_prefix_invariant (fun done (state : ManifestListWriter.CopyState V) =>
    CopyRun metadata snapshotId uuid mixes overwrites _ done state.passed) ?_ run
    ⟨rfl, fun store held loose ledger count => by simpa using Assembles.refl _⟩
  intro done row before after _ here stepped
  obtain ⟨count, -, stepped⟩ := bind_eq_ok.mp stepped
  obtain ⟨passed, passes, stepped⟩ := bind_eq_ok.mp stepped
  cases stepped
  constructor
  · rw [← Multiset.coe_add, namedRows_add, here.aside, passOn_aside passes, Multiset.coe_singleton]
  · intro store held loose ledger count
    have one := here.assembles store (row ::ₘ held) loose ledger count
    have emitted : Assembles metadata snapshotId uuid mixes _ _ :=
      passOn_emits overwrites passes store held loose ledger count
    rw [ofList_concat_add]
    simp only [Multiset.add_cons] at one ⊢
    exact one.trans emitted

end IcebergRust
