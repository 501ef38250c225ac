-- SUMMARY: The sum of the field sizes is within the size of the struct, until rounding down at the limit lets it pass.
import StructPadding.Proofs.Layout.Accounting
import StructPadding.Proofs.Layout.Saturation

/-!
# Reference sizes

Padding only adds bytes, so the sum of the field sizes is within the exact size of the struct. At the limit the two
sizes part: the sum stops at the limit itself, and the size of the struct at a multiple of its alignment below.
-/

namespace StructPadding

theorem Extent.sum_size_le_of_saturates {slack : Nat} {μs : List Measure} {es : List Extent}
    (h : List.Forall₂ (Saturates slack) μs es) : (es.map size).sum ≤ Measure.netSize μs := by
  induction h with
  | nil => exact Nat.le_refl _
  | cons he _ ih =>
    rw [List.map_cons, List.sum_cons, Measure.netSize_cons]
    exact Nat.add_le_add he.size.le ih

/-- The reference size is within the exact size of the struct. -/
theorem referenceSize_le_exactActualSize (m : Machine) (fields : List Field) :
    referenceSize m fields ≤ exactActualSize m fields := by
  have hfields : List.Forall₂ (Extent.Saturates m.maxAlign) (measures m fields) (extents m fields) :=
    forall₂_saturates fun f _ => (f.shape.saturates m).mono (f.shape.measure_align_le m)
  calc
    referenceSize m fields ≤ ((extents m fields).map Extent.size).sum := by
      rw [referenceSize, Extent.netSize_eq]
      exact Nat.min_le_left ..
    _ ≤ Measure.netSize (measures m fields) := Extent.sum_size_le_of_saturates hfields
    _ ≤ Measure.stopFrom 0 (measures m fields) := by
      have halign : ∀ μ ∈ measures m fields, 0 < μ.align := fun _ => measures_align_pos
      simpa only [Nat.zero_add] using Measure.le_stopFrom halign 0
    _ ≤ exactActualSize m fields := le_roundUp _ (Measure.maxAlign_pos _)

/-- The reference size is within the actual size exactly where it is within the greatest byte count that is a multiple
    of the struct's alignment, and so is that of a finding within its actual size. Fields with a checked size are so. -/
theorem referenceSize_le_actualSize_iff (m : Machine) (fields : List Field) :
    (referenceSize m fields ≤ actualSize m fields ↔
      referenceSize m fields ≤ Word.lastMultiple (Extent.maxAlign (extents m fields))) ∧
    (∀ f, Finding.ofFields? m fields = some f →
      (f.reference < f.actual ↔
        referenceSize m fields ≤ Word.lastMultiple (Extent.maxAlign (extents m fields)))) ∧
    ∀ size, checkedActualSize m fields = some size →
      referenceSize m fields ≤ Word.lastMultiple (Extent.maxAlign (extents m fields)) := by
  have hexact := referenceSize_le_exactActualSize m fields
  have hactual := actualSize_eq_min m fields
  have hiff : referenceSize m fields ≤ actualSize m fields ↔
      referenceSize m fields ≤ Word.lastMultiple (Extent.maxAlign (extents m fields)) := by
    rw [hactual, Nat.le_min]
    exact and_iff_right hexact
  refine ⟨hiff, fun f hf => ?_, fun size h => ?_⟩
  · obtain ⟨hne, rfl⟩ := Finding.ofFields?_eq_some_iff.1 hf
    rw [← hiff]
    exact ⟨Nat.le_of_lt, fun hle => Nat.lt_of_le_of_ne hle hne.symm⟩
  · have hsize := actualSize_eq_sum h
    exact hiff.1 (by omega)

theorem referenceSize_le_actualSize_iff_emptyLast :
    Finding.ofFields? .amd64 emptyLast = some ⟨24, 9⟩ ∧ checkedActualSize .amd64 emptyLast = some 24 ∧
      referenceSize .amd64 emptyLast ≤ actualSize .amd64 emptyLast ∧
      referenceSize .amd64 emptyLast ≤ Word.lastMultiple (Extent.maxAlign (extents .amd64 emptyLast)) ∧
      (Finding.mk 24 9).reference < (Finding.mk 24 9).actual := by
  have hfinding : Finding.ofFields? .amd64 emptyLast = some ⟨24, 9⟩ := by rfl
  have hchecked : checkedActualSize .amd64 emptyLast = some 24 := by rfl
  obtain ⟨hsizes, hfindings, hfits⟩ := referenceSize_le_actualSize_iff .amd64 emptyLast
  have hlast := hfits 24 hchecked
  exact ⟨hfinding, hchecked, hsizes.2 hlast, hlast, (hfindings _ hfinding).2 hlast⟩

/-- A byte and, behind seven bytes of padding, the largest array of aligned words. -/
def largeData : List Field := [⟨"flag", .scalar .bool⟩, ⟨"data", .array (.scalar .int64) 0x1fffffffffffffff⟩]

/-- Rounding down at the limit can make a struct smaller than the sum of its fields, which is exact here. -/
theorem not_all_referenceSize_le_actualSize :
    ¬ ((∀ (m : Machine) (fields : List Field), referenceSize m fields ≤ actualSize m fields) ∧
      ∀ (m : Machine) (fields : List Field) (f : Finding), Finding.ofFields? m fields = some f →
        f.reference < f.actual) := by
  rintro ⟨hsizes, -⟩
  have hreference : referenceSize .amd64 largeData = Word.limit - 6 := by rfl
  have hactual : actualSize .amd64 largeData = Word.limit - 7 := by rfl
  have hle := hsizes .amd64 largeData
  rw [hreference, hactual] at hle
  exact absurd hle (by decide)

end StructPadding
