import IcebergRust.Spec.ValueViews

/-!
# Equality, hash and order of values

`PartialEq`, `Hash` and `Ord` of `Value` and `Struct`.  The equality and the hash of a struct go by
the names of its columns, its order by their positions.

* `same_iff_inside` says what equality looks at: what the left value has along a path of names,
  the right one has.  So it is reflexive and transitive, and need not be symmetric.
* `cmp_eq_iff_alike` says the same of the order, along paths of positions.
* `coherent_iff` is where the three agree.
-/

namespace IcebergRust

open Interchange Lexicographic Observation

/-! ### Hashing -/

/-- What is written to a `Hasher`. -/
inductive Token where
  | number (n : Int)
  | bytes (bytes : List UInt8)
deriving DecidableEq

/-- `Hash` of `OrderedFloat`: one number for every NaN and one for both zeros. -/
def floatToken {format : Format} (word : Word format) : Token :=
  if word.isNan then .number (-1)
  else if word.isZero then .number 0
  else .number word.toBits.toNat

/-- Floats that are equal hash equally. -/
theorem floatToken_eq_of_same {format : Format} {a b : Word format} (equal : a.same b = true) :
    floatToken a = floatToken b := by
  unfold Word.same at equal
  unfold floatToken
  by_cases nan : a.isNan = true
  · rw [if_pos nan] at equal
    rw [if_pos nan, if_pos equal]
  · rw [if_neg nan, Bool.or_eq_true, Bool.and_eq_true] at equal
    rcases equal with ⟨zero, zero'⟩ | same
    · have number : ¬ b.isNan = true := by
        simp only [Word.isNan, Word.isZero, decide_eq_true_eq] at zero' ⊢
        omega
      rw [if_neg nan, if_neg number, if_pos zero, if_pos zero']
    · rw [of_decide_eq_true same]

namespace Value

/-- The index of a variant, by which derived impls tell variants apart. -/
def variant : Value → Nat
  | .boolean _ => 0
  | .int _ => 1
  | .longInt _ => 2
  | .float _ => 3
  | .double _ => 4
  | .date _ => 5
  | .time _ => 6
  | .timestamp _ => 7
  | .timestampTZ _ => 8
  | .timestampNano _ => 9
  | .timestampTZNano _ => 10
  | .string _ => 11
  | .uuid _ => 12
  | .fixed _ _ => 13
  | .binary _ => 14
  | .decimal _ => 15

/-- `Hash` of the content of a primitive variant; `hashDecimal` is that of the decimal library. -/
def contentHash (hashDecimal : Decimal → List Token) : Value → List Token
  | .boolean value => [.number (if value then 1 else 0)]
  | .int value => [.number value.toInt]
  | .longInt value => [.number value.toInt]
  | .float value => [floatToken value]
  | .double value => [floatToken value]
  | .date days => [.number days.toInt]
  | .time micros => [.number micros.toInt]
  | .timestamp micros => [.number micros.toInt]
  | .timestampTZ micros => [.number micros.toInt]
  | .timestampNano nanos => [.number nanos.toInt]
  | .timestampTZNano nanos => [.number nanos.toInt]
  | .string text => [.bytes (utf8 text)]
  | .uuid value => [.number value.toNat]
  | .fixed size bytes => [.number size, .number bytes.length, .bytes bytes]
  | .binary bytes => [.number bytes.length, .bytes bytes]
  | .decimal value => hashDecimal value

/-- `Hash`. -/
def hash (hashDecimal : Decimal → List Token) (value : Value) : List Token :=
  .number value.variant :: value.contentHash hashDecimal

/-- `Ord`. -/
def cmp : Value → Value → Ordering
  | .boolean a, .boolean b => compare a b
  | .int a, .int b => compare a.toInt b.toInt
  | .longInt a, .longInt b => compare a.toInt b.toInt
  | .float a, .float b => compare a.rank b.rank
  | .double a, .double b => compare a.rank b.rank
  | .date a, .date b => compare a.toInt b.toInt
  | .time a, .time b => compare a.toInt b.toInt
  | .timestamp a, .timestamp b => compare a.toInt b.toInt
  | .timestampTZ a, .timestampTZ b => compare a.toInt b.toInt
  | .timestampNano a, .timestampNano b => compare a.toInt b.toInt
  | .timestampTZNano a, .timestampTZNano b => compare a.toInt b.toInt
  | .string a, .string b => compareOfLessAndEq (utf8 a) (utf8 b)
  | .uuid a, .uuid b => compare a.toNat b.toNat
  | .fixed size a, .fixed other b => (compare size other).then (compareOfLessAndEq a b)
  | .binary a, .binary b => compareOfLessAndEq a b
  | .decimal a, .decimal b => compare (a.mantissa * 10 ^ b.scale) (b.mantissa * 10 ^ a.scale)
  | a, b => compare a.variant b.variant

/-- A primitive value hashes like its equals. -/
theorem hash_eq_of_same {hashDecimal : Decimal → List Token}
    (decimals : ∀ a b : Decimal, a.mantissa * 10 ^ b.scale = b.mantissa * 10 ^ a.scale →
      hashDecimal a = hashDecimal b) {a b : Value} (equal : a.same b = true) :
    a.hash hashDecimal = b.hash hashDecimal := by
  cases a with
  | float a =>
    cases b <;> simp [same] at equal
    exact congrArg (fun token => [Token.number 3, token]) (floatToken_eq_of_same equal)
  | double a =>
    cases b <;> simp [same] at equal
    exact congrArg (fun token => [Token.number 4, token]) (floatToken_eq_of_same equal)
  | decimal a =>
    cases b <;> simp [same] at equal
    exact congrArg (Token.number 15 :: ·) (decimals _ _ equal)
  | _ =>
    obtain rfl := of_decide_eq_true equal
    rfl

/-- The order of primitive values is that of their equality. -/
theorem cmp_eq_iff (a b : Value) : a.cmp b = .eq ↔ a.same b = true := by
  have texts : ∀ a b : List UInt8, compareOfLessAndEq a b = .eq ↔ a = b :=
    fun _ _ => compareOfLessAndEq_eq_eq List.le_refl List.not_le
  cases a <;> cases b <;>
    simp [cmp, same, variant, Word.same_iff_rank, texts, utf8_inj, BitVec.toInt_inj,
      ← BitVec.toNat_inj]

end Value

/-! ### The three on nested values -/

namespace NestedValue

/-- `PartialEq` of `Option<Value>`, the left one given by what it equals. -/
def sameOption (a : Option (NestedValue → Bool)) (b : Option NestedValue) : Bool :=
  match a, b with
  | none, none => true
  | some equal, some b => equal b
  | _, _ => false

/-- `PartialEq` of `Struct`: the columns of the names of the left one. -/
def sameStruct (a : Struct (NestedValue → Bool)) (b : Struct NestedValue) : Bool :=
  a.keys.all fun key =>
    match a.get key, b.get key with
    | some cell, some other => sameOption cell other
    | none, none => true
    | _, _ => false

/-- `PartialEq`. -/
def same : NestedValue → NestedValue → Bool :=
  fold
    (fun a b => match b with
      | .primitive b => a.same b
      | _ => false)
    (fun columns b => match b with
      | .struct b => sameStruct ⟨columns⟩ b
      | _ => false)
    (fun items b => match b with
      | .list b => allSame sameOption items b
      | _ => false)
    (fun entries b => match b with
      | .map b => allSame (fun own other => own.1 other.1 && sameOption own.2 other.2) entries b
      | _ => false)

/-- The index of a variant. -/
def variant : NestedValue → Nat
  | .primitive value => value.variant
  | .struct _ => 16
  | .list _ => 17
  | .map _ => 18

/-- `Ord` of `Option<Value>`: null comes first. -/
def cmpOption (a : Option (NestedValue → Ordering)) (b : Option NestedValue) : Ordering :=
  match a, b with
  | none, none => .eq
  | none, some _ => .lt
  | some _, none => .gt
  | some order, some b => order b

/-- `Ord` of an entry of the lookup table. -/
def cmpLookup (a b : String × Nat) : Ordering :=
  (compareOfLessAndEq (utf8 a.1) (utf8 b.1)).then (compare a.2 b.2)

/-- `Ord` of `Struct`: the fields in order, and then the lookup tables. -/
def cmpStruct (a : Struct (NestedValue → Ordering)) (b : Struct NestedValue) : Ordering :=
  (cmpAll (fun own other => cmpOption own.2 other.2) a.fields b.fields).then
    (cmpAll cmpLookup a.lookup b.lookup)

/-- `Ord`. -/
def cmp : NestedValue → NestedValue → Ordering :=
  fold
    (fun a b => match b with
      | .primitive b => a.cmp b
      | b => compare a.variant b.variant)
    (fun columns b => match b with
      | .struct b => cmpStruct ⟨columns⟩ b
      | b => compare 16 b.variant)
    (fun items b => match b with
      | .list b => cmpAll cmpOption items b
      | b => compare 17 b.variant)
    (fun entries b => match b with
      | .map b =>
        cmpAll (fun own other => (own.1 other.1).then (cmpOption own.2 other.2)) entries b
      | b => compare 18 b.variant)

/-- `Hash` of an `Option`. -/
def hashOption : Option (List Token) → List Token
  | none => [.number 0]
  | some tokens => .number 1 :: tokens

/-- `Hash` of `Struct`: each name with what `get` returns for it. -/
def hashStruct (tuple : Struct (List Token)) : List Token :=
  tuple.keys.flatMap fun key => .bytes (utf8 key) :: hashOption ((tuple.get key).map hashOption)

/-- `Hash`. -/
def hash (hashDecimal : Decimal → List Token) : NestedValue → List Token :=
  fold (Value.hash hashDecimal) (fun columns => .number 16 :: hashStruct ⟨columns⟩)
    (fun items => .number 17 :: .number items.length :: items.flatMap hashOption)
    (fun entries => .number 18 :: .number entries.length ::
      entries.flatMap fun entry => entry.1 ++ hashOption entry.2)

/-! ### What equality and order look at -/

theorem rel_iff_sameOption (a b : Option NestedValue) :
    Option.Rel (fun a b => a.same b = true) a b ↔ sameOption (a.map same) b = true := by
  cases a <;> cases b <;> simp [sameOption]

theorem same_struct (a b : Struct NestedValue) :
    (struct a).same (.struct b) = true ↔ ∀ name cell, a.get name = some cell →
      ∃ other, b.get name = some other ∧ Option.Rel (fun a b => a.same b = true) cell other := by
  have runs : (struct a).same (.struct b) = sameStruct (a.map (Option.map same)) b := by
    unfold same
    rw [fold_struct]
    rfl
  rw [runs, sameStruct, List.all_eq_true, Struct.keys_map]
  constructor
  · intro all name cell found
    have agrees := all name (Struct.mem_keys_of_get found)
    rw [Struct.get_map, found, Option.map_some] at agrees
    cases found' : b.get name with
    | none => simp [found'] at agrees
    | some other =>
      rw [found'] at agrees
      exact ⟨other, rfl, (rel_iff_sameOption cell other).mpr agrees⟩
  · intro each name named
    obtain ⟨cell, found⟩ := Struct.get_of_mem_keys named
    obtain ⟨other, found', related⟩ := each name cell found
    rw [Struct.get_map, found, found']
    exact (rel_iff_sameOption cell other).mp related

/-- Equality looks at columns by their names. -/
theorem sees_same : Sees byName fun a b => a.same b = true where
  apart a b equal := by
    cases a <;> cases b <;> simp [same] at equal <;> rfl
  primitive a b := Iff.rfl
  struct a b := (same_struct a b).trans (and_iff_right rfl).symm
  list as bs := by
    have runs : (list as).same (.list bs) = allSame sameOption (as.map (Option.map same)) bs := by
      unfold same
      rw [fold_list]
    rw [runs, allSame_iff, List.forall₂_map_left_iff]
    exact forall₂_congr_left fun a _ b => (rel_iff_sameOption a b).symm
  map as bs := by
    have runs : (map as).same (.map bs) =
        allSame (fun own other => own.1 other.1 && sameOption own.2 other.2)
          (as.map fun entry => (same entry.1, entry.2.map same)) bs := by
      unfold same
      rw [fold_map]
    rw [runs, allSame_iff, List.forall₂_map_left_iff]
    refine forall₂_congr_left fun a _ b => ?_
    rw [Bool.and_eq_true, rel_iff_sameOption]

theorem rel_iff_cmpOption (a b : Option NestedValue) :
    Option.Rel (fun a b => a.cmp b = .eq) a b ↔ cmpOption (a.map cmp) b = .eq := by
  cases a <;> cases b <;> simp [cmpOption]

theorem cmpLookup_eq_iff (a b : String × Nat) : cmpLookup a b = .eq ↔ a = b := by
  rw [cmpLookup, Ordering.then_eq_eq, compareOfLessAndEq_eq_eq List.le_refl List.not_le,
    utf8_inj, compare_eq_iff_eq, Prod.ext_iff]

theorem cmp_struct (a b : Struct NestedValue) :
    (struct a).cmp (.struct b) = .eq ↔
      List.Forall₂ (fun own other => Option.Rel (fun a b => a.cmp b = .eq) own.2 other.2)
        a.fields b.fields ∧ a.lookup = b.lookup := by
  have runs : (struct a).cmp (.struct b) = cmpStruct (a.map (Option.map cmp)) b := by
    unfold cmp
    rw [fold_struct]
    rfl
  rw [runs, cmpStruct, Ordering.then_eq_eq, cmpAll_eq_iff, cmpAll_eq_iff, Struct.lookup_map]
  refine and_congr ?_ ?_
  · rw [Struct.map, List.forall₂_map_left_iff]
    exact forall₂_congr_left fun own _ other => (rel_iff_cmpOption own.2 other.2).symm
  · rw [← List.forall₂_eq_eq_eq]
    exact forall₂_congr_left fun own _ other => cmpLookup_eq_iff own other

/-- The order looks at columns by their positions. -/
theorem sees_cmp : Sees byPosition fun a b => a.cmp b = .eq where
  apart a b equal := by
    have small : ∀ value : Value, value.variant < 16 := by
      intro value
      cases value <;> simp [Value.variant]
    cases a with
    | primitive value =>
      have below := small value
      cases b with
      | primitive => rfl
      | _ =>
        simp [cmp, variant] at equal
        omega
    | _ =>
      cases b with
      | primitive value =>
        have below := small value
        simp [cmp, variant] at equal
        omega
      | _ => simp [cmp, variant] at equal <;> rfl
  primitive a b := Value.cmp_eq_iff a b
  struct a b := by
    rw [cmp_struct, forall₂_iff_getElem?]
    constructor
    · rintro ⟨⟨length, each⟩, tables⟩
      refine ⟨Prod.ext length tables, ?_⟩
      intro column cell found
      obtain ⟨own, listed, rfl⟩ := Option.map_eq_some_iff.mp found
      obtain ⟨other, listed', related⟩ := each column own listed
      exact ⟨other.2, Option.map_eq_some_iff.mpr ⟨other, listed', rfl⟩, related⟩
    · rintro ⟨labels, each⟩
      obtain ⟨length, tables⟩ := Prod.ext_iff.mp labels
      refine ⟨⟨length, ?_⟩, tables⟩
      intro column own listed
      obtain ⟨_, found, related⟩ := each column own.2
        (Option.map_eq_some_iff.mpr ⟨own, listed, rfl⟩)
      obtain ⟨other, listed', rfl⟩ := Option.map_eq_some_iff.mp found
      exact ⟨other, listed', related⟩
  list as bs := by
    have runs : (list as).cmp (.list bs) = cmpAll cmpOption (as.map (Option.map cmp)) bs := by
      unfold cmp
      rw [fold_list]
    rw [runs, cmpAll_eq_iff, List.forall₂_map_left_iff]
    exact forall₂_congr_left fun a _ b => (rel_iff_cmpOption a b).symm
  map as bs := by
    have runs : (map as).cmp (.map bs) =
        cmpAll (fun own other => (own.1 other.1).then (cmpOption own.2 other.2))
          (as.map fun entry => (cmp entry.1, entry.2.map cmp)) bs := by
      unfold cmp
      rw [fold_map]
    rw [runs, cmpAll_eq_iff, List.forall₂_map_left_iff]
    refine forall₂_congr_left fun a _ b => ?_
    rw [Ordering.then_eq_eq, rel_iff_cmpOption]

theorem same_iff_inside (a b : NestedValue) : a.same b = true ↔ Inside a b :=
  sees_same.iff_within a b

theorem cmp_eq_iff_alike (a b : NestedValue) : a.cmp b = .eq ↔ Alike a b :=
  sees_cmp.iff_within a b

/-! ### Where they agree -/

/-- Cells are equal, either way. -/
def SameCells (a b : Option NestedValue) : Prop :=
  Option.Rel (fun a b => a.same b = true) a b ∧ Option.Rel (fun a b => a.same b = true) b a

theorem sameCells_of_cmp_eq {a b : Option NestedValue}
    (inside : ∀ value, a = some value → ∀ {b : NestedValue}, value.cmp b = .eq →
      value.same b = true ∧ b.same value = true)
    (equal : Option.Rel (fun a b => a.cmp b = .eq) a b) : SameCells a b := by
  cases equal with
  | none => exact ⟨.none, .none⟩
  | some equal =>
    obtain ⟨same, back⟩ := inside _ rfl equal
    exact ⟨.some same, .some back⟩

/-- Structs whose columns are equal in place, under one lookup table, are equal by name. -/
theorem same_struct_of_lookup {a b : Struct NestedValue} (tables : a.lookup = b.lookup)
    (cells : List.Forall₂ (fun own other =>
      Option.Rel (fun a b => a.same b = true) own.2 other.2) a.fields b.fields) :
    (struct a).same (.struct b) = true := by
  refine (same_struct a b).mpr ?_
  intro name cell found
  obtain ⟨index, listed, own, placed, rfl⟩ := Struct.get_eq_some_iff.mp found
  obtain ⟨other, placed', related⟩ := (forall₂_iff_getElem?.mp cells).2 index own placed
  exact ⟨other.2, Struct.get_eq_some_iff.mpr ⟨index, tables ▸ listed, other, placed', rfl⟩, related⟩

/-- Values in one place of the order are equal, either way. -/
theorem same_of_cmp_eq {a b : NestedValue} (equal : a.cmp b = .eq) :
    a.same b = true ∧ b.same a = true := by
  induction a generalizing b with
  | primitive a =>
    cases b with
    | primitive b =>
      have same := (Value.cmp_eq_iff a b).mp equal
      exact ⟨same, Value.same_symm same⟩
    | _ => cases sees_cmp.apart _ _ equal
  | struct a ih =>
    cases b with
    | struct b =>
      obtain ⟨cells, tables⟩ := (cmp_struct a b).mp equal
      have each : List.Forall₂ (fun own other => SameCells own.2 other.2) a.fields b.fields :=
        forall₂_imp_left (fun own listed other => sameCells_of_cmp_eq (ih own listed)) cells
      refine ⟨same_struct_of_lookup tables ?_, same_struct_of_lookup tables.symm ?_⟩
      · exact each.imp fun _ _ both => both.1
      · exact .flip (each.imp fun _ _ both => both.2)
    | _ => cases sees_cmp.apart _ _ equal
  | list as ih =>
    cases b with
    | list bs =>
      have each : List.Forall₂ SameCells as bs :=
        forall₂_imp_left (fun item listed other => sameCells_of_cmp_eq (ih item listed))
          ((sees_cmp.list as bs).mp equal)
      refine ⟨(sees_same.list as bs).mpr ?_, (sees_same.list bs as).mpr ?_⟩
      · exact each.imp fun _ _ both => both.1
      · exact .flip (each.imp fun _ _ both => both.2)
    | _ => cases sees_cmp.apart _ _ equal
  | map as ih =>
    cases b with
    | map bs =>
      have each : List.Forall₂ (fun a b => (a.1.same b.1 = true ∧ b.1.same a.1 = true) ∧
          SameCells a.2 b.2) as bs :=
        forall₂_imp_left (fun entry listed other related =>
          ⟨(ih entry listed).1 related.1, sameCells_of_cmp_eq (ih entry listed).2 related.2⟩)
          ((sees_cmp.map as bs).mp equal)
      refine ⟨(sees_same.map as bs).mpr ?_, (sees_same.map bs as).mpr ?_⟩
      · exact each.imp fun _ _ both => ⟨both.1.1, both.2.1⟩
      · exact .flip (each.imp fun _ _ both => ⟨both.1.2, both.2.2⟩)
    | _ => cases sees_cmp.apart _ _ equal

section Hash

variable {hashDecimal : Decimal → List Token}

theorem hashOption_eq {a b : Option NestedValue}
    (inside : ∀ value, a = some value → ∀ {b : NestedValue}, value.same b = true →
      b.same value = true → value.hash hashDecimal = b.hash hashDecimal)
    (equal : SameCells a b) :
    hashOption (a.map (hash hashDecimal)) = hashOption (b.map (hash hashDecimal)) := by
  obtain ⟨same, back⟩ := equal
  cases same with
  | none => rfl
  | some same =>
    cases back with
    | some back => exact congrArg (Token.number 1 :: ·) (inside _ rfl same back)

theorem hash_struct (tuple : Struct NestedValue) :
    (struct tuple).hash hashDecimal =
      .number 16 :: hashStruct (tuple.map (Option.map (hash hashDecimal))) := by
  unfold hash
  rw [fold_struct]
  rfl

theorem hash_list (items : List (Option NestedValue)) :
    (list items).hash hashDecimal = .number 17 :: .number items.length ::
      items.flatMap fun item => hashOption (item.map (hash hashDecimal)) := by
  unfold hash
  rw [fold_list, List.length_map, List.flatMap_map]

theorem hash_map (entries : List (NestedValue × Option NestedValue)) :
    (map entries).hash hashDecimal = .number 18 :: .number entries.length ::
      entries.flatMap fun entry =>
        entry.1.hash hashDecimal ++ hashOption (entry.2.map (hash hashDecimal)) := by
  unfold hash
  rw [fold_map, List.length_map, List.flatMap_map]

/-- Values that equal one another hash equally. -/
theorem hash_eq_of_same
    (decimals : ∀ a b : Decimal, a.mantissa * 10 ^ b.scale = b.mantissa * 10 ^ a.scale →
      hashDecimal a = hashDecimal b) {a b : NestedValue} (equal : a.same b = true)
    (back : b.same a = true) : a.hash hashDecimal = b.hash hashDecimal := by
  induction a generalizing b with
  | primitive a =>
    cases b with
    | primitive b => exact Value.hash_eq_of_same decimals equal
    | _ => cases sees_same.apart _ _ equal
  | struct a ih =>
    cases b with
    | struct b =>
      have forth := (same_struct a b).mp equal
      have back := (same_struct b a).mp back
      have keys : a.keys = b.keys := by
        refine Struct.keys_eq fun name => ⟨fun named => ?_, fun named => ?_⟩
        · obtain ⟨cell, found⟩ := Struct.get_of_mem_keys named
          obtain ⟨_, found', _⟩ := forth name cell found
          exact Struct.mem_keys_of_get found'
        · obtain ⟨cell, found⟩ := Struct.get_of_mem_keys named
          obtain ⟨_, found', _⟩ := back name cell found
          exact Struct.mem_keys_of_get found'
      rw [hash_struct, hash_struct, hashStruct, hashStruct, Struct.keys_map, Struct.keys_map,
        ← keys]
      refine congrArg (Token.number 16 :: ·) (List.flatMap_congr fun name named => ?_)
      obtain ⟨cell, found⟩ := Struct.get_of_mem_keys named
      obtain ⟨other, found', same⟩ := forth name cell found
      obtain ⟨_, found'', same'⟩ := back name other found'
      cases found.symm.trans found''
      obtain ⟨own, listed, rfl⟩ := Struct.mem_of_get found
      rw [Struct.get_map, Struct.get_map, found, found']
      exact congrArg (fun tokens => Token.bytes (utf8 name) :: Token.number 1 :: tokens)
        (hashOption_eq (ih own listed) ⟨same, same'⟩)
    | _ => cases sees_same.apart _ _ equal
  | list as ih =>
    cases b with
    | list bs =>
      have forth := (sees_same.list as bs).mp equal
      have each : List.Forall₂ SameCells as bs :=
        forth.mp (fun _ _ => And.intro) ((sees_same.list bs as).mp back).flip
      rw [hash_list, hash_list, forth.length_eq]
      refine congrArg (fun tokens => Token.number 17 :: Token.number bs.length :: tokens) ?_
      exact flatMap_eq_of_forall₂
        (forall₂_imp_left (fun item listed other => hashOption_eq (ih item listed)) each)
    | _ => cases sees_same.apart _ _ equal
  | map as ih =>
    cases b with
    | map bs =>
      have forth := (sees_same.map as bs).mp equal
      have each := forth.mp (fun _ _ => And.intro) ((sees_same.map bs as).mp back).flip
      rw [hash_map, hash_map, forth.length_eq]
      refine congrArg (fun tokens => Token.number 18 :: Token.number bs.length :: tokens) ?_
      refine flatMap_eq_of_forall₂ (forall₂_imp_left ?_ each)
      rintro entry listed other ⟨⟨key, value⟩, key', value'⟩
      exact congrArg₂ (· ++ ·) ((ih entry listed).1 key key')
        (hashOption_eq (ih entry listed).2 ⟨value, value'⟩)
    | _ => cases sees_same.apart _ _ equal

end Hash

/-- The properties of `Eq`, `Hash` and `Ord` that maps with these values as keys rely on. -/
structure Coherent (hashDecimal : Decimal → List Token) (a b c : NestedValue) : Prop where
  reflexive : a.same a = true
  symmetric : a.same b = b.same a
  transitive : a.same b = true → b.same c = true → a.same c = true
  hash : a.same b = true → a.hash hashDecimal = b.hash hashDecimal
  order : a.cmp b = .eq ↔ a.same b = true

/-- Equality, hash and order agree on two values exactly if they are alike or neither is inside
the other one. -/
theorem coherent_iff {hashDecimal : Decimal → List Token}
    (decimals : ∀ a b : Decimal, a.mantissa * 10 ^ b.scale = b.mantissa * 10 ^ a.scale →
      hashDecimal a = hashDecimal b) (a b c : NestedValue) :
    Coherent hashDecimal a b c ↔ Alike a b ∨ ¬ Inside a b ∧ ¬ Inside b a := by
  constructor
  · intro coherent
    rw [← cmp_eq_iff_alike, coherent.order, ← same_iff_inside, ← same_iff_inside,
      ← coherent.symmetric]
    exact (em _).imp_right fun apart => ⟨apart, apart⟩
  · intro agree
    have order : a.cmp b = .eq ↔ a.same b = true := by
      rcases agree with alike | ⟨apart, -⟩
      · have equal := (cmp_eq_iff_alike a b).mpr alike
        exact iff_of_true equal (same_of_cmp_eq equal).1
      · rw [← same_iff_inside] at apart
        exact iff_of_false (fun equal => apart (same_of_cmp_eq equal).1) apart
    have symmetric : a.same b = b.same a := by
      rcases agree with alike | ⟨apart, apart'⟩
      · obtain ⟨equal, back⟩ := same_of_cmp_eq ((cmp_eq_iff_alike a b).mpr alike)
        exact equal.trans back.symm
      · rw [← same_iff_inside, Bool.not_eq_true] at apart apart'
        exact apart.trans apart'.symm
    refine ⟨?_, symmetric, ?_, ?_, order⟩
    · exact (same_iff_inside a a).mpr (inside_refl a)
    · intro first second
      rw [same_iff_inside] at first second ⊢
      exact first.trans second
    · exact fun equal => hash_eq_of_same decimals equal (symmetric ▸ equal)

/-- A decimal hashed by its number in lowest terms. -/
def lowestTerms (value : Decimal) : List Token :=
  let number := Rat.divInt value.mantissa (10 ^ value.scale)
  [.number number.num, .number number.den]

theorem coherent_iff_decimals :
    Coherent lowestTerms (.primitive (.decimal ⟨70, 1⟩)) (.primitive (.decimal ⟨700, 2⟩))
      (.primitive (.decimal ⟨7, 0⟩)) := by
  have lowest : ∀ a b : Decimal, a.mantissa * 10 ^ b.scale = b.mantissa * 10 ^ a.scale →
      lowestTerms a = lowestTerms b := by
    intro a b equal
    have numbers : Rat.divInt a.mantissa (10 ^ a.scale) = Rat.divInt b.mantissa (10 ^ b.scale) :=
      (Rat.divInt_eq_divInt_iff (pow_ne_zero _ (by decide)) (pow_ne_zero _ (by decide))).mpr equal
    unfold lowestTerms
    rw [numbers]
  apply (coherent_iff lowest _ _ _).mpr
  exact .inl ((cmp_eq_iff_alike _ _).mp rfl)

/-- A struct without columns equals every other one, and no other one equals it. -/
theorem empty_struct_incoherent :
    ¬ Coherent lowestTerms (.struct ⟨[]⟩) (.struct ⟨[("a", none)]⟩) (.struct ⟨[]⟩) ∧
      (struct ⟨[]⟩).same (.struct ⟨[("a", none)]⟩) = true ∧
      (struct ⟨[("a", none)]⟩).same (.struct ⟨[]⟩) = false ∧
      (struct ⟨[]⟩).cmp (.struct ⟨[("a", none)]⟩) = .lt :=
  ⟨(fun coherent => nomatch coherent.symmetric), rfl, rfl, rfl⟩

end NestedValue

end IcebergRust
