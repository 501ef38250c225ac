-- SUMMARY: Exact sizes and alignments of shapes, by the placement rules over numbers without a limit.
import Mathlib.Algebra.GroupWithZero.Nat
import StructPadding.Layout.Checked

/-!
# Measures

The sizes of `Layout/Extent` stop at the greatest word and those of `Layout/Checked` have no value there.
Both are measured against the sizes of this module, which follow the same placement over unbounded numbers.
-/

namespace StructPadding

mutual

/-- Induction over shapes: a struct may be assumed to have the property in each of its fields. -/
@[elab_as_elim]
theorem Shape.induction {motive : Shape → Prop} (scalar : ∀ s, motive (.scalar s))
    (array : ∀ e n, motive e → motive (.array e n))
    (struct : ∀ fields, (∀ f ∈ fields, motive f.shape) → motive (.struct fields)) : ∀ s, motive s
  | .scalar s => scalar s
  | .array e n => array e n (Shape.induction scalar array struct e)
  | .struct fields => struct fields (Shape.induction_fields scalar array struct fields)

private theorem Shape.induction_fields {motive : Shape → Prop} (scalar : ∀ s, motive (.scalar s))
    (array : ∀ e n, motive e → motive (.array e n))
    (struct : ∀ fields, (∀ f ∈ fields, motive f.shape) → motive (.struct fields)) :
    ∀ fields : List Field, ∀ f ∈ fields, motive f.shape
  | [], f, hf => absurd hf List.not_mem_nil
  | ⟨_, s⟩ :: rest, f, hf => by
    rcases List.mem_cons.1 hf with rfl | hf
    · exact Shape.induction scalar array struct s
    · exact Shape.induction_fields scalar array struct rest f hf

end

/-! ## Rounding -/

/-- The least multiple of `a` that is not below `x`. -/
def roundUp (x a : Nat) : Nat := (x + (a - 1)) / a * a

theorem dvd_roundUp (x a : Nat) : a ∣ roundUp x a := Nat.dvd_mul_left ..

theorem le_roundUp (x : Nat) {a : Nat} (ha : 0 < a) : x ≤ roundUp x a := by
  have h := Nat.div_add_mod (x + (a - 1)) a
  have hm := Nat.mod_lt (x + (a - 1)) ha
  rw [Nat.mul_comm] at h
  unfold roundUp
  omega

theorem roundUp_lt_add (x : Nat) {a : Nat} (ha : 0 < a) : roundUp x a < x + a := by
  have h := Nat.div_mul_le_self (x + (a - 1)) a
  unfold roundUp
  omega

theorem roundUp_le_of_dvd {x a y : Nat} (ha : 0 < a) (hxy : x ≤ y) (hd : a ∣ y) : roundUp x a ≤ y := by
  obtain ⟨k, rfl⟩ := hd
  have hlt : (x + (a - 1)) / a < k + 1 := by
    rw [Nat.div_lt_iff_lt_mul ha, Nat.succ_mul, Nat.mul_comm k a]
    omega
  rw [Nat.mul_comm a k]
  exact Nat.mul_le_mul_right a (Nat.le_of_lt_succ hlt)

theorem roundUp_of_dvd {x a : Nat} (ha : 0 < a) (hd : a ∣ x) : roundUp x a = x :=
  Nat.le_antisymm (roundUp_le_of_dvd ha (Nat.le_refl x) hd) (le_roundUp x ha)

theorem roundUp_mono {x y a : Nat} (ha : 0 < a) (h : x ≤ y) : roundUp x a ≤ roundUp y a :=
  roundUp_le_of_dvd ha (Nat.le_trans h (le_roundUp y ha)) (dvd_roundUp y a)

namespace Word

/-- Where the sum on the way is a word, rounding up is exact. -/
theorem roundUp_of_le {x a : Nat} (h : x + (a - 1) ≤ limit) : roundUp x a = StructPadding.roundUp x a := by
  simp only [roundUp, StructPadding.roundUp, add_of_le h, Nat.div_mul_self_eq_mod_sub_self]

theorem roundUp?_eq_some_iff {x a n : Nat} :
    roundUp? x a = some n ↔ x + (a - 1) ≤ limit ∧ n = StructPadding.roundUp x a := by
  simp only [roundUp?, add?, Option.map_eq_some_iff, fits?_eq_some_iff, StructPadding.roundUp,
    Nat.div_mul_self_eq_mod_sub_self]
  grind

/-- Rounding up does not fall below a number that leaves room for the alignment. -/
theorem le_roundUp_of_le {low x a bound : Nat} (hbound : 2 * bound ≤ limit) (ha : 0 < a) (hab : a ≤ bound)
    (hlow : low ≤ x) (hb : low ≤ bound) : low ≤ roundUp x a := by
  have hmod := Nat.mod_lt (add x (a - 1)) ha
  simp only [roundUp, add] at hmod ⊢
  omega

end Word

/-! ## Measures in order -/

/-- Size and alignment of a value, as numbers without a limit. -/
structure Measure where
  size : Nat
  align : Nat
  deriving DecidableEq, Repr, Inhabited

namespace Measure

/-- Bytes a field takes when `used` bytes lie before it; a zero-size last field behind other bytes takes
    one. -/
def occupied (μ : Measure) (isLast : Bool) (used : Nat) : Nat :=
  if isLast ∧ μ.size = 0 ∧ used ≠ 0 then 1 else μ.size

/-- The end of the last field, when `used` bytes lie before the fields. -/
def stopFrom (used : Nat) : List Measure → Nat
  | [] => used
  | μ :: rest => stopFrom (roundUp used μ.align + μ.occupied rest.isEmpty used) rest

/-- The largest alignment; one without fields. -/
def maxAlign (μs : List Measure) : Nat := μs.foldr (fun μ a => max μ.align a) 1

/-- The measure of a struct with the given fields. -/
def ofFields (μs : List Measure) : Measure where
  size := roundUp (stopFrom 0 μs) (maxAlign μs)
  align := maxAlign μs

/-- The measure of `n` values in a row. -/
def times (n : Nat) (μ : Measure) : Measure where
  size := n * μ.size
  align := μ.align

/-- The sum of the sizes. -/
def netSize (μs : List Measure) : Nat := (μs.map size).sum

@[simp] theorem maxAlign_nil : maxAlign [] = 1 := rfl
@[simp] theorem maxAlign_cons (μ : Measure) (μs : List Measure) :
    maxAlign (μ :: μs) = max μ.align (maxAlign μs) := rfl
@[simp] theorem netSize_nil : netSize [] = 0 := rfl
@[simp] theorem netSize_cons (μ : Measure) (μs : List Measure) :
    netSize (μ :: μs) = μ.size + netSize μs := by simp [netSize]

theorem maxAlign_pos (μs : List Measure) : 0 < maxAlign μs := by
  induction μs with
  | nil => exact Nat.one_pos
  | cons μ rest ih => exact Nat.lt_of_lt_of_le ih (Nat.le_max_right ..)

theorem maxAlign_le {μs : List Measure} {bound : Nat} (hb : 0 < bound) (h : ∀ μ ∈ μs, μ.align ≤ bound) :
    maxAlign μs ≤ bound := by
  induction μs with
  | nil => exact hb
  | cons μ rest ih =>
    have hrest := ih fun ν hν => h ν (List.mem_cons_of_mem _ hν)
    exact Nat.max_le.2 ⟨h μ (List.mem_cons_self ..), hrest⟩

theorem le_maxAlign {μ : Measure} {μs : List Measure} (h : μ ∈ μs) : μ.align ≤ maxAlign μs := by
  induction μs with
  | nil => cases h
  | cons ν rest ih =>
    rw [maxAlign_cons]
    rcases List.mem_cons.1 h with rfl | h
    · exact Nat.le_max_left ..
    · exact Nat.le_trans (ih h) (Nat.le_max_right ..)

theorem size_le_occupied (μ : Measure) (isLast : Bool) (used : Nat) : μ.size ≤ μ.occupied isLast used := by
  unfold occupied
  split
  · omega
  · exact Nat.le_refl _

/-- Placing fields loses none of the bytes before them, nor of their own. -/
theorem le_stopFrom {μs : List Measure} (h : ∀ μ ∈ μs, 0 < μ.align) (used : Nat) :
    used + netSize μs ≤ stopFrom used μs := by
  induction μs generalizing used with
  | nil => simp [stopFrom]
  | cons μ rest ih =>
    have hstep := ih (fun ν hν => h ν (List.mem_cons_of_mem _ hν))
      (roundUp used μ.align + μ.occupied rest.isEmpty used)
    have hround := le_roundUp used (h μ (List.mem_cons_self ..))
    have hsize := μ.size_le_occupied rest.isEmpty used
    simp only [netSize_cons, stopFrom]
    omega

end Measure

/-! ## Shapes -/

/-- The size of a scalar, in words where it follows the machine. -/
def Scalar.exactSize (m : Machine) (s : Scalar) : Nat :=
  if s.words = 0 then s.size m else s.words * m.wordSize

mutual

/-- Size and alignment of a shape. -/
def Shape.measure (m : Machine) : Shape → Measure
  | .scalar s => ⟨s.exactSize m, min (max (s.exactSize m) 1) m.maxAlign⟩
  | .array e n => (e.measure m).times n
  | .struct fields => .ofFields (measures m fields)

/-- Sizes and alignments of a list of fields. -/
def measures (m : Machine) : List Field → List Measure
  | [] => []
  | f :: rest => f.measure m :: measures m rest

def Field.measure (m : Machine) : Field → Measure
  | ⟨_, shape⟩ => shape.measure m

end

/-- The exact size of a value. -/
def Shape.exactSize (m : Machine) (s : Shape) : Nat := (s.measure m).size

/-- The exact size of a struct with the given fields. -/
def exactActualSize (m : Machine) (fields : List Field) : Nat := (Shape.struct fields).exactSize m

@[simp] theorem measures_eq_map (m : Machine) (fields : List Field) :
    measures m fields = fields.map (Field.measure m) := by
  induction fields with
  | nil => rfl
  | cons f rest ih => simp [measures, ih]

theorem Field.measure_eq (m : Machine) (f : Field) : f.measure m = f.shape.measure m := by
  cases f; rfl

theorem mem_measures_iff {m : Machine} {fields : List Field} {μ : Measure} :
    μ ∈ measures m fields ↔ ∃ f ∈ fields, f.shape.measure m = μ := by
  simp only [measures_eq_map, List.mem_map, Field.measure_eq]

/-- Every alignment is positive. -/
theorem Shape.measure_align_pos (m : Machine) (s : Shape) : 0 < (s.measure m).align := by
  induction s using Shape.induction with
  | scalar s =>
    have hm := m.maxAlign_pos
    simp only [Shape.measure]
    omega
  | array e n ih => exact ih
  | struct fields _ => exact Measure.maxAlign_pos _

theorem measures_align_pos {m : Machine} {fields : List Field} {μ : Measure} (h : μ ∈ measures m fields) :
    0 < μ.align := by
  obtain ⟨f, -, rfl⟩ := mem_measures_iff.1 h
  exact f.shape.measure_align_pos m

end StructPadding
