-- SUMMARY: Sizes saturate without ever being small, and no operation on the way lacks a result.
import StructPadding.Proofs.Layout.Saturation

/-!
# Trapping arithmetic

Sums and products of sizes stop at the limit by themselves. The other operations on machine words have no result for
some operands: a difference below zero, a remainder by zero, a shift by a whole word, bounds that are the wrong way
round. The layout is computed here by operations that trap there. None does, and the layout is the same.
-/

namespace StructPadding

namespace Trapping

/-! ## Operations -/

/-- The difference, unless it is negative. -/
def sub (a b : Nat) : Option Nat := if b ≤ a then some (a - b) else none

/-- The remainder, unless the divisor is zero. -/
def mod (a b : Nat) : Option Nat := if b = 0 then none else some (a % b)

/-- The word with bit `n` alone, unless a word has no such bit. -/
def bit (n : Nat) : Option Nat := if n < 64 then some (Nat.pow 2 n) else none

/-- The number within bounds that is nearest to `x`, unless no number is within them. -/
def clamp (x low high : Nat) : Option Nat := if low ≤ high then some (min (max x low) high) else none

theorem sub_of_le {a b : Nat} (h : b ≤ a) : sub a b = some (a - b) := if_pos h

theorem mod_of_pos {a b : Nat} (h : 0 < b) : mod a b = some (a % b) := if_neg (Nat.ne_of_gt h)

theorem bit_of_lt {n : Nat} (h : n < 64) : bit n = some (Nat.pow 2 n) := if_pos h

theorem clamp_of_le {x low high : Nat} (h : low ≤ high) : clamp x low high = some (min (max x low) high) := if_pos h

/-! ## Placing -/

/-- The least multiple of `a` that is not below `x`, or the greatest one within the limit. -/
def roundUp (x a : Nat) : Option Nat := do
  let y := Word.add x (← sub a 1)
  sub y (← mod y a)

/-- The slots of the fields from number `index` on. The gap before a field is a difference that stops at zero. -/
def placeFrom (index used : Nat) : List Measure → Option (List Slot)
  | [] => some []
  | μ :: rest => do
    let size := μ.occupied rest.isEmpty used
    let offset ← roundUp used μ.align
    let slots ← placeFrom (index + 1) (Word.add offset size) rest
    some ({ index, offset, size, align := μ.align, paddingBefore := offset - used } :: slots)

/-- The end of the last slot. -/
def stop (slots : List Slot) : Nat := (slots.getLast?.map Slot.stop).getD 0

/-- The size of a struct: the end of its last field, rounded up to the largest alignment. -/
def structSize (μs : List Measure) : Option Nat := do
  let slots ← placeFrom 0 0 μs
  roundUp (stop slots) (Measure.maxAlign μs)

theorem roundUp_eq {a : Nat} (ha : 0 < a) (x : Nat) : roundUp x a = some (Word.roundUp x a) := by
  simp only [roundUp, sub_of_le ha, mod_of_pos ha, sub_of_le (Nat.mod_le ..), Option.bind_eq_bind, Option.bind_some]
  rfl

section

variable {es : List Extent} (ha : ∀ e ∈ es, 0 < e.align)
include ha

theorem placeFrom_eq (index used : Nat) :
    placeFrom index used (es.map Extent.measure) = some (Extent.placeFrom index used es) := by
  induction es generalizing index used with
  | nil => rfl
  | cons e rest ih =>
    have hround := roundUp_eq (ha e (List.mem_cons_self ..)) used
    have hrest := ih fun d hd => ha d (List.mem_cons_of_mem _ hd)
    simp only [placeFrom, List.map_cons, Extent.measure_align, Extent.measure_occupied, List.isEmpty_map, hround, hrest,
      Option.bind_eq_bind, Option.bind_some]
    rfl

theorem structSize_eq : structSize (es.map Extent.measure) = some (Extent.structSize es) := by
  simp only [structSize, placeFrom_eq ha, ← Extent.maxAlign_eq_measure, roundUp_eq (Extent.maxAlign_pos es),
    Option.bind_eq_bind, Option.bind_some]
  rfl

end

/-! ## Shapes -/

mutual

/-- Size and alignment of a shape. -/
def measure (m : Machine) : Shape → Option Measure
  | .scalar s => do
    let align ← clamp (s.size m) 1 m.maxAlign
    some ⟨s.size m, align⟩
  | .array e n => do
    let μ ← measure m e
    some ⟨Word.mul n μ.size, μ.align⟩
  | .struct fields => do
    let μs ← measures m fields
    let size ← structSize μs
    some ⟨size, Measure.maxAlign μs⟩

/-- Sizes and alignments of a list of fields. -/
def measures (m : Machine) : List Field → Option (List Measure)
  | [] => some []
  | f :: rest => do
    let μ ← measureField m f
    let μs ← measures m rest
    some (μ :: μs)

def measureField (m : Machine) : Field → Option Measure
  | ⟨_, shape⟩ => measure m shape

end

section

variable (m : Machine) (fields : List Field)

/-- The slots of a struct's fields. -/
def fieldSlots : Option (List Slot) := do placeFrom 0 0 (← measures m fields)

/-- The size of a struct with the given fields. -/
def actualSize : Option Nat := do structSize (← measures m fields)

/-- Bytes behind the last field, a difference that stops at zero. -/
def tailPadding : Option Nat := do
  let slots ← fieldSlots m fields
  let size ← actualSize m fields
  some (size - stop slots)

/-- The largest object of a machine. -/
def maxObjectSize : Option Nat :=
  if 8 ≤ m.wordSize then bit 50
  else do
    let bits ← Word.mul? 8 m.wordSize
    sub (← bit (← sub bits 1)) 1

end

/-! ## Nothing traps -/

variable {m : Machine} {fields : List Field}

theorem measures_of_forall (h : ∀ f ∈ fields, measure m f.shape = some (f.shape.extent m).measure) :
    measures m fields = some ((extents m fields).map Extent.measure) := by
  induction fields with
  | nil => rfl
  | cons f rest ih =>
    have hf := h f (List.mem_cons_self ..)
    have hrest := ih fun g hg => h g (List.mem_cons_of_mem _ hg)
    cases f
    simp only [measures, measureField, hf, hrest, Option.bind_eq_bind, Option.bind_some, extents, Field.extent,
      List.map_cons]

theorem measure_eq (s : Shape) : measure m s = some (s.extent m).measure := by
  induction s using Shape.induction with
  | scalar s =>
    simp only [measure, clamp_of_le m.maxAlign_pos, Option.bind_eq_bind, Option.bind_some]
    rfl
  | array e n ih =>
    simp only [measure, ih, Option.bind_eq_bind, Option.bind_some]
    rfl
  | struct fields ih =>
    simp only [measure, measures_of_forall ih, structSize_eq fun _ => extents_align_pos, Option.bind_eq_bind,
      Option.bind_some, ← Extent.maxAlign_eq_measure]
    rfl

theorem measures_eq : measures m fields = some ((extents m fields).map Extent.measure) :=
  measures_of_forall fun f _ => measure_eq f.shape

theorem fieldSlots_eq : fieldSlots m fields = some (StructPadding.fieldSlots m fields) := by
  simp only [fieldSlots, measures_eq, placeFrom_eq fun _ => extents_align_pos, Option.bind_eq_bind, Option.bind_some]
  rfl

theorem actualSize_eq : actualSize m fields = some (StructPadding.actualSize m fields) := by
  simp only [actualSize, measures_eq, structSize_eq fun _ => extents_align_pos, Option.bind_eq_bind, Option.bind_some]
  rfl

theorem tailPadding_eq : tailPadding m fields = some (StructPadding.tailPadding m fields) := by
  simp only [tailPadding, fieldSlots_eq, actualSize_eq, Option.bind_eq_bind, Option.bind_some]
  rfl

theorem maxObjectSize_eq : maxObjectSize m = some m.maxObjectSize := by
  have hw := m.wordSize_pos
  unfold maxObjectSize Machine.maxObjectSize
  split
  · exact bit_of_lt (by decide)
  · have hbits : Word.mul? 8 m.wordSize = some (8 * m.wordSize) :=
      Word.fits?_eq_some_iff.2 ⟨Nat.le_trans (m := 64) (by omega) (by decide), rfl⟩
    have hpow : 1 ≤ Nat.pow 2 (8 * m.wordSize - 1) := Nat.one_le_two_pow
    simp only [hbits, sub_of_le (show 1 ≤ 8 * m.wordSize by omega),
      bit_of_lt (show 8 * m.wordSize - 1 < 64 by omega), sub_of_le hpow, Option.bind_eq_bind, Option.bind_some]

end Trapping

/-! ## Saturation -/

/-- Sizes saturate without ever being small. They are exact below a bound that is one alignment away from the end of the
    words, and are never below it where the exact size is not. In every case the alignment is between one and the
    largest, the size of a struct is a multiple of its alignment, and every operation on the way has a result. -/
theorem size_saturates (m : Machine) :
    (∀ s : Shape,
      (s.exactSize m < Word.limit + 1 - m.maxAlign → (s.extent m).size = s.exactSize m) ∧
      (Word.limit + 1 - m.maxAlign ≤ s.exactSize m → Word.limit + 1 - m.maxAlign ≤ (s.extent m).size) ∧
      (s.extent m).size ≤ Word.limit ∧ 1 ≤ (s.extent m).align ∧ (s.extent m).align ≤ m.maxAlign ∧
      Trapping.measure m s = some (s.extent m).measure) ∧
    (∀ fields : List Field,
      ((Shape.struct fields).extent m).align ∣ ((Shape.struct fields).extent m).size ∧
      Trapping.fieldSlots m fields = some (fieldSlots m fields) ∧
      Trapping.actualSize m fields = some (actualSize m fields) ∧
      Trapping.tailPadding m fields = some (tailPadding m fields)) ∧
    Trapping.maxObjectSize m = some m.maxObjectSize := by
  refine ⟨fun s => ?_, fun fields => ?_, Trapping.maxObjectSize_eq⟩
  · have hpos := m.maxAlign_pos
    have hle := s.measure_align_le m
    obtain ⟨halign, halignPos, -, hsize⟩ := s.saturates m
    rw [halign]
    refine ⟨fun h => hsize.eq_of_le ?_, (hsize.mono hle).le_of_le, hsize.le_limit, halignPos, hle,
      Trapping.measure_eq s⟩
    unfold Shape.exactSize at h
    omega
  · exact ⟨Extent.maxAlign_dvd_structSize _, Trapping.fieldSlots_eq, Trapping.actualSize_eq, Trapping.tailPadding_eq⟩

/-- A struct of which the exact size is eight bytes more than there are words. -/
def overfull : Shape := .struct [⟨"flag", .scalar .bool⟩, ⟨"data", .array (.scalar .int64) 0x2000000000000000⟩]

theorem size_saturates_overfull :
    overfull.exactSize .amd64 = Word.limit + 9 ∧
      Word.limit + 1 - Machine.amd64.maxAlign ≤ (overfull.extent .amd64).size ∧
      (Shape.scalar .int64).exactSize .amd64 < Word.limit + 1 - Machine.amd64.maxAlign ∧
      ((Shape.scalar .int64).extent .amd64).size = 8 := by
  obtain ⟨hsizes, -⟩ := size_saturates .amd64
  have hexact : overfull.exactSize .amd64 = Word.limit + 9 := by rfl
  have hsmall : (Shape.scalar .int64).exactSize .amd64 < Word.limit + 1 - Machine.amd64.maxAlign := by decide
  refine ⟨hexact, (hsizes overfull).2.1 ?_, hsmall, (hsizes (.scalar .int64)).1 hsmall⟩
  rw [hexact]
  decide

end StructPadding
