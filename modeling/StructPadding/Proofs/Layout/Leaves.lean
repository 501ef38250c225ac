-- SUMMARY: The scalars of a shape, with their offsets: all aligned, all inside the shape, no two overlapping.
import StructPadding.Proofs.Layout.Optimal
import StructPadding.Proofs.Layout.Saturation

/-!
# Leaves

A value of any shape is in the end a list of scalars, each at an offset of its own: those of an array element by
element, those of a struct field by field. Placement looks at one level only. That it puts every scalar at a multiple
of the scalar's alignment, whatever lies around, needs sizes to be multiples of alignments and the alignment of a part
to divide that of the whole.
-/

namespace StructPadding

/-- A scalar and its offset in the value it is part of. -/
structure Leaf where
  scalar : Scalar
  offset : Nat
  deriving DecidableEq, Repr

namespace Leaf

/-- The offset behind the last byte of a leaf. -/
def stop (m : Machine) (l : Leaf) : Nat := l.offset + l.scalar.size m

/-- Whether leaves are aligned, lie from `start` to `stop`, and come one behind the other. -/
structure Arranged (m : Machine) (start stop : Nat) (leaves : List Leaf) : Prop where
  align_dvd : ∀ l ∈ leaves, l.scalar.align m ∣ l.offset
  start_le : ∀ l ∈ leaves, start ≤ l.offset
  stop_le : ∀ l ∈ leaves, l.stop m ≤ stop
  apart : leaves.Pairwise fun a b => a.stop m ≤ b.offset

namespace Arranged

variable {m : Machine} {start mid stop : Nat} {xs ys : List Leaf}

theorem nil : Arranged m start stop [] := by constructor <;> simp

theorem singleton {s : Scalar} (h : s.align m ∣ start) : Arranged m start (start + s.size m) [⟨s, start⟩] := by
  constructor <;> simp [h, Leaf.stop]

theorem mono {start' stop' : Nat} (h : Arranged m start stop xs) (hstart : start' ≤ start) (hstop : stop ≤ stop') :
    Arranged m start' stop' xs where
  align_dvd := h.align_dvd
  start_le l hl := Nat.le_trans hstart (h.start_le l hl)
  stop_le l hl := Nat.le_trans (h.stop_le l hl) hstop
  apart := h.apart

theorem append (hx : Arranged m start mid xs) (hy : Arranged m mid stop ys) (hstart : start ≤ mid)
    (hstop : mid ≤ stop) : Arranged m start stop (xs ++ ys) := by
  have hx' := hx.mono (Nat.le_refl start) hstop
  have hy' := hy.mono hstart (Nat.le_refl stop)
  constructor
  · intro l hl
    exact (List.mem_append.1 hl).elim (hx.align_dvd l) (hy.align_dvd l)
  · intro l hl
    exact (List.mem_append.1 hl).elim (hx'.start_le l) (hy'.start_le l)
  · intro l hl
    exact (List.mem_append.1 hl).elim (hx'.stop_le l) (hy'.stop_le l)
  · rw [List.pairwise_append]
    exact ⟨hx.apart, hy.apart, fun a ha b hb => Nat.le_trans (hx.stop_le a ha) (hy.start_le b hb)⟩

/-- What is arranged at every step of a given size is so in a row. -/
theorem range {size : Nat} {leaves : Nat → List Leaf} (n : Nat)
    (h : ∀ i, Arranged m (start + i * size) (start + i * size + size) (leaves i)) :
    Arranged m start (start + n * size) ((List.range n).flatMap leaves) := by
  induction n with
  | zero => exact .nil
  | succ n ih =>
    rw [List.range_succ, List.flatMap_append, List.flatMap_singleton, Nat.succ_mul, ← Nat.add_assoc]
    exact ih.append (h n) (by omega) (by omega)

end Arranged

end Leaf

/-! ## Flattening -/

mutual

/-- The leaves of a value that starts at offset `base`. -/
def Shape.leaves (m : Machine) (base : Nat) : Shape → List Leaf
  | .scalar s => [⟨s, base⟩]
  | .array e n => (List.range n).flatMap fun i => e.leaves m (base + i * (e.extent m).size)
  | .struct fields => fieldLeaves m base fields (fieldSlots m fields)

/-- The leaves of fields at the offsets of their slots. -/
def fieldLeaves (m : Machine) (base : Nat) : List Field → List Slot → List Leaf
  | f :: rest, slot :: slots => f.leaves m (base + slot.offset) ++ fieldLeaves m base rest slots
  | _, _ => []

def Field.leaves (m : Machine) (base : Nat) : Field → List Leaf
  | ⟨_, shape⟩ => shape.leaves m base

end

theorem Field.leaves_eq (m : Machine) (base : Nat) (f : Field) : f.leaves m base = f.shape.leaves m base := by
  cases f; rfl

/-- Every scalar takes some byte. -/
theorem Scalar.size_pos (m : Machine) (s : Scalar) : 0 < s.size m := by
  have hw := m.wordSize_pos
  cases s <;> simp only [size, words, Word.mul, Word.limit] <;> omega

/-! ## Arrangement -/

/-- Fields that are arranged from any multiple of their alignments on are so in the slots of a struct. -/
theorem arranged_fieldLeaves {m : Machine} {base : Nat} {fields : List Field}
    (hbase : ∀ f ∈ fields, (f.extent m).align ∣ base)
    (h : ∀ f ∈ fields, ∀ start, (f.extent m).align ∣ start →
      Leaf.Arranged m start (start + (f.extent m).size) (f.leaves m start))
    {used t : Nat} (index : Nat) (hstop : Extent.checkedStop used (extents m fields) = some t) :
    used ≤ t ∧ Leaf.Arranged m (base + used) (base + t)
      (fieldLeaves m base fields (Extent.placeFrom index used (extents m fields))) := by
  induction fields generalizing index used with
  | nil =>
    obtain rfl := Option.some.inj hstop
    exact ⟨Nat.le_refl _, .nil⟩
  | cons f rest ih =>
    obtain ⟨slot, hslot, hplace, hrest⟩ := Extent.follows_of_checkedStop (f.extent_align_pos m) index hstop
    obtain ⟨hle, hleaves⟩ := ih (fun g hg => hbase g (List.mem_cons_of_mem _ hg))
      (fun g hg => h g (List.mem_cons_of_mem _ hg)) (index + 1) hrest
    have hf := List.mem_cons_self (a := f) (l := rest)
    have hoffset := hslot.offset_eq
    have hend := hslot.stop_eq
    have hsize := (f.extent m).measure.size_le_occupied (extents m rest).isEmpty used
    rw [Extent.measure_size, Extent.measure_occupied, ← hslot.size_eq] at hsize
    have hdvd : (f.extent m).align ∣ slot.offset := hslot.align_eq ▸ hslot.align_dvd
    have hfield := h f hf (base + slot.offset) (Nat.dvd_add (hbase f hf) hdvd)
    refine ⟨by omega, ?_⟩
    rw [extents, hplace, fieldLeaves]
    exact (hfield.mono (by omega) (by omega)).append hleaves (by omega) (by omega)

section

variable {m : Machine} (hw : m.wordSize.isPowerOfTwo) (ha : m.maxAlign.isPowerOfTwo) (hle : m.maxAlign ≤ m.wordSize)
include hw ha hle

theorem Shape.Fits.align_dvd_size {s : Shape} (h : s.Fits m) : (s.extent m).align ∣ (s.extent m).size := by
  have hregular := s.regular_measure hw ha hle
  rw [← h.isExact.measure_eq] at hregular
  exact hregular.align_dvd_size

theorem Field.align_dvd_struct {fields : List Field} {f : Field} (hf : f ∈ fields) :
    (f.extent m).align ∣ ((Shape.struct fields).extent m).align := by
  rw [Field.extent_eq, Shape.extent_align, Shape.extent_align]
  exact Measure.align_dvd_maxAlign (regular_measures hw ha hle) (mem_measures_iff.2 ⟨f, hf, rfl⟩)

/-- From any multiple of its alignment on, the leaves of a value are arranged within its bytes. -/
theorem Shape.Fits.arranged {s : Shape} (h : s.Fits m) {base : Nat} (hbase : (s.extent m).align ∣ base) :
    Leaf.Arranged m base (base + (s.extent m).size) (s.leaves m base) := by
  induction s using Shape.induction generalizing base with
  | scalar s => exact .singleton hbase
  | array e n ih =>
    obtain ⟨-, he⟩ := fits_array_iff.1 h
    have hsize : ((Shape.array e n).extent m).size = n * (e.extent m).size := by
      rw [h.extent_size, he.extent_size]
      rfl
    have hdvd := he.align_dvd_size hw ha hle
    rw [hsize]
    exact .range n fun i => ih he (Nat.dvd_add hbase (Nat.dvd_mul_left_of_dvd hdvd i))
  | struct fields ih =>
    obtain ⟨-, hfields⟩ := fits_struct_iff.1 h
    obtain ⟨stop, hstop, hsize, -⟩ := Extent.checkedStop_of_checkedStructSize h.checkedStructSize
    have hparts : ∀ f ∈ fields, (f.extent m).align ∣ base := fun f hf =>
      Nat.dvd_trans (Field.align_dvd_struct hw ha hle hf) hbase
    have hfield : ∀ f ∈ fields, ∀ start, (f.extent m).align ∣ start →
        Leaf.Arranged m start (start + (f.extent m).size) (f.leaves m start) := by
      intro f hf start hstart
      rw [Field.extent_eq] at hstart ⊢
      rw [Field.leaves_eq]
      exact ih f hf (hfields f hf) hstart
    obtain ⟨-, harranged⟩ := arranged_fieldLeaves hparts hfield 0 hstop
    rw [h.extent_size]
    exact harranged.mono (Nat.le_refl _) (Nat.add_le_add_left hsize base)

end

/-- Every nested value is aligned, and no two overlap. With powers of two for word size and alignment, the leaves of a
    value with a checked size lie at multiples of their own alignments and inside the bytes of the value, each takes
    some byte, and of any two the former ends before the latter starts. -/
theorem leaves_aligned_apart {m : Machine} {s : Shape} {n : Nat} (hw : m.wordSize.isPowerOfTwo)
    (ha : m.maxAlign.isPowerOfTwo) (hle : m.maxAlign ≤ m.wordSize) (h : s.checkedSize m = some n) :
    (∀ l ∈ s.leaves m 0, l.scalar.align m ∣ l.offset ∧ l.offset < l.stop m ∧ l.stop m ≤ (s.extent m).size) ∧
      (s.leaves m 0).Pairwise fun a b => a.stop m ≤ b.offset := by
  obtain ⟨hfit, -⟩ := Shape.checkedSize_eq_some_iff.1 h
  have harranged := hfit.arranged hw ha hle (Nat.dvd_zero _)
  rw [Nat.zero_add] at harranged
  refine ⟨fun l hl => ⟨harranged.align_dvd l hl, ?_, harranged.stop_le l hl⟩, harranged.apart⟩
  exact Nat.lt_add_of_pos_right (l.scalar.size_pos m)

/-- Two pairs of a byte and a word, between bytes. -/
def pairsBetween : Shape :=
  .struct [⟨"head", .scalar .bool⟩, ⟨"pairs", .array (.struct [⟨"tag", .scalar .uint8⟩, ⟨"value", .scalar .uint32⟩]) 2⟩,
    ⟨"tail", .scalar .int16⟩]

theorem leaves_aligned_apart_pairsBetween :
    Nat.isPowerOfTwo Machine.amd64.wordSize ∧ Nat.isPowerOfTwo Machine.amd64.maxAlign ∧
      Machine.amd64.maxAlign ≤ Machine.amd64.wordSize ∧ pairsBetween.checkedSize .amd64 = some 24 ∧
      pairsBetween.leaves .amd64 0 =
        [⟨.bool, 0⟩, ⟨.uint8, 4⟩, ⟨.uint32, 8⟩, ⟨.uint8, 12⟩, ⟨.uint32, 16⟩, ⟨.int16, 20⟩] ∧
      (pairsBetween.leaves .amd64 0).Pairwise fun a b => a.stop .amd64 ≤ b.offset := by
  have hw : Nat.isPowerOfTwo Machine.amd64.wordSize := ⟨3, rfl⟩
  have h : pairsBetween.checkedSize .amd64 = some 24 := by rfl
  exact ⟨hw, hw, Nat.le_refl _, h, rfl, (leaves_aligned_apart hw hw (Nat.le_refl _) h).2⟩

end StructPadding
