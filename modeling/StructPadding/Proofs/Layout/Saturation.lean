-- SUMMARY: How far sizes that stop at the limit are from the exact ones, and the greatest size of a struct.
import Mathlib.Data.List.Forall2
import StructPadding.Proofs.Layout.CheckedSize

/-!
# Saturation

A size is exact where the exact size is a byte count. Beyond, rounding down to an alignment takes less than that
alignment from the limit, and nothing that follows takes more: the size of a struct is then the greatest byte count
that is a multiple of its alignment.
-/

namespace StructPadding

namespace Word

/-! ## The greatest multiple -/

/-- The greatest byte count that is a multiple of `a`. -/
def lastMultiple (a : Nat) : Nat := limit - limit % a

theorem lastMultiple_le_limit (a : Nat) : lastMultiple a ≤ limit := Nat.sub_le ..

theorem dvd_lastMultiple (a : Nat) : a ∣ lastMultiple a := Nat.dvd_sub_mod _

theorem limit_lt_lastMultiple_add {a : Nat} (ha : 0 < a) : limit < lastMultiple a + a := by
  have hmod := Nat.mod_lt limit ha
  have hle := Nat.mod_le limit a
  unfold lastMultiple
  omega

theorem le_lastMultiple {a n : Nat} (ha : 0 < a) (hd : a ∣ n) (hn : n ≤ limit) : n ≤ lastMultiple a :=
  Nat.le_of_lt_add_of_dvd (Nat.lt_of_le_of_lt hn (limit_lt_lastMultiple_add ha)) hd (dvd_lastMultiple a)

/-- Rounding up within words gives the exact multiple, as far as there is one. -/
theorem roundUp_eq_min {a : Nat} (ha : 0 < a) (x : Nat) :
    roundUp x a = min (StructPadding.roundUp x a) (lastMultiple a) := by
  by_cases h : x + (a - 1) ≤ limit
  · have hexact := roundUp_of_le h
    have hle := le_lastMultiple ha (dvd_roundUp x a) (roundUp_le_limit x a)
    omega
  · -- the sum stops at the limit, from which the remainder is dropped
    have hlast : roundUp x a = lastMultiple a := by
      simp only [roundUp, add, lastMultiple, Nat.min_eq_right (Nat.le_of_not_le h)]
    have hround : lastMultiple a ≤ StructPadding.roundUp x a := by
      have hx := le_roundUp x ha
      have hlimit := lastMultiple_le_limit a
      refine Nat.le_of_lt_add_of_dvd (n := a) ?_ (dvd_lastMultiple a) (StructPadding.dvd_roundUp x a)
      omega
    omega

/-! ## Numbers that stop at the limit -/

/-- Whether `x` stands for the number `n` in words: it is `n`, where that is a byte count, and is otherwise less than
    `slack` away from passing the limit. -/
def Saturates (slack n x : Nat) : Prop := n ≤ limit ∧ x = n ∨ limit < n ∧ x ≤ limit ∧ limit < x + slack

namespace Saturates

variable {slack n x k y : Nat}

theorem of_le (h : n ≤ limit) : Saturates slack n n := .inl ⟨h, rfl⟩

theorem of_min (hslack : 0 < slack) : Saturates slack n (min n limit) := by
  unfold Saturates
  omega

theorem mono {slack' : Nat} (h : Saturates slack n x) (hle : slack ≤ slack') : Saturates slack' n x := by
  unfold Saturates at h ⊢
  omega

theorem eq_of_le (h : Saturates slack n x) (hn : n ≤ limit) : x = n := by
  unfold Saturates at h
  omega

/-- What stands for a large number is no small one. -/
theorem le_of_le (h : Saturates slack n x) (hn : limit + 1 - slack ≤ n) : limit + 1 - slack ≤ x := by
  unfold Saturates at h
  omega

theorem le (h : Saturates slack n x) : x ≤ n := by
  unfold Saturates at h
  omega

theorem le_limit (h : Saturates slack n x) : x ≤ limit := by
  unfold Saturates at h
  omega

/-- Only zero stands for zero. -/
theorem eq_zero_iff (h : Saturates slack n x) (hslack : slack ≤ limit) : x = 0 ↔ n = 0 := by
  unfold Saturates at h
  omega

theorem add (h : Saturates slack n x) (h' : Saturates slack k y) (hslack : 0 < slack) :
    Saturates slack (n + k) (Word.add x y) := by
  unfold Saturates Word.add at *
  omega

theorem mul (h : Saturates slack n x) (hslack : 0 < slack) (k : Nat) : Saturates slack (k * n) (Word.mul k x) := by
  rcases h with ⟨-, rfl⟩ | ⟨hn, hx, hlast⟩
  · exact of_min hslack
  · rcases Nat.eq_zero_or_pos k with rfl | hk
    · simp [Saturates, Word.mul]
    · have hnk : n ≤ k * n := Nat.le_mul_of_pos_left n hk
      have hxk : x ≤ k * x := Nat.le_mul_of_pos_left x hk
      unfold Saturates Word.mul
      omega

/-- Rounding up to an alignment within the slack takes nothing more from the limit. -/
theorem roundUp {a : Nat} (h : Saturates slack n x) (ha : 0 < a) (hslack : a ≤ slack) :
    Saturates slack (StructPadding.roundUp n a) (Word.roundUp x a) := by
  have hlast := limit_lt_lastMultiple_add ha
  have hlimit := lastMultiple_le_limit a
  rw [roundUp_eq_min ha]
  rcases h with ⟨-, rfl⟩ | ⟨hn, -, hx⟩
  · have hmultiple := le_lastMultiple ha (StructPadding.dvd_roundUp x a)
    unfold Saturates
    omega
  · have hround := le_roundUp n ha
    have hround' := le_roundUp x ha
    unfold Saturates
    omega

end Saturates

end Word

/-! ## Extents -/

namespace Extent

/-- Whether an extent has a given alignment and stands for a given size. -/
structure Saturates (slack : Nat) (μ : Measure) (e : Extent) : Prop where
  align_eq : e.align = μ.align
  align_pos : 0 < μ.align
  align_le : μ.align ≤ slack
  size : Word.Saturates slack μ.size e.size

variable {slack : Nat} {μ : Measure} {e : Extent} {μs : List Measure} {es : List Extent}

theorem Saturates.mono {slack' : Nat} (h : Saturates slack μ e) (hle : slack ≤ slack') : Saturates slack' μ e :=
  ⟨h.align_eq, h.align_pos, Nat.le_trans h.align_le hle, h.size.mono hle⟩

theorem Saturates.occupied (h : Saturates slack μ e) (hslack : slack ≤ Word.limit) {used used' : Nat}
    (hused : Word.Saturates slack used used') (isLast : Bool) :
    Word.Saturates slack (μ.occupied isLast used) (e.occupied isLast used') := by
  have hsize := h.size.eq_zero_iff hslack
  have hused' := hused.eq_zero_iff hslack
  simp only [Measure.occupied, Extent.occupied, ne_eq, hsize, hused']
  split
  · exact .of_le (by decide)
  · exact h.size

theorem saturates_stopFrom (h : List.Forall₂ (Saturates slack) μs es) (hslack : slack ≤ Word.limit) {used used' : Nat}
    (hused : Word.Saturates slack used used') :
    Word.Saturates slack (Measure.stopFrom used μs) (stopFrom used' es) := by
  induction h generalizing used used' with
  | nil => exact hused
  | @cons μ e μs es he hes ih =>
    have hempty : es.isEmpty = μs.isEmpty := by
      cases hes <;> rfl
    rw [Measure.stopFrom, stopFrom, he.align_eq, hempty]
    have hpos := Nat.lt_of_lt_of_le he.align_pos he.align_le
    exact ih ((hused.roundUp he.align_pos he.align_le).add (he.occupied hslack hused _) hpos)

theorem maxAlign_eq_of_saturates (h : List.Forall₂ (Saturates slack) μs es) : maxAlign es = Measure.maxAlign μs := by
  induction h with
  | nil => rfl
  | cons he _ ih => rw [maxAlign_cons, Measure.maxAlign_cons, ih, he.align_eq]

end Extent

/-! ## Shapes -/

/-- No alignment is larger than the machine asks for. -/
theorem Shape.measure_align_le (m : Machine) (s : Shape) : (s.measure m).align ≤ m.maxAlign := by
  induction s using Shape.induction with
  | scalar s => exact Nat.min_le_right ..
  | array e n ih => exact ih
  | struct fields ih =>
    apply Measure.maxAlign_le m.maxAlign_pos
    intro μ hμ
    obtain ⟨f, hf, rfl⟩ := mem_measures_iff.1 hμ
    exact ih f hf

theorem Shape.measure_align_le_limit (m : Machine) (s : Shape) : (s.measure m).align ≤ Word.limit :=
  Nat.le_trans (s.measure_align_le m) m.maxAlign_le

theorem forall₂_saturates {m : Machine} {fields : List Field} {slack : Nat}
    (h : ∀ f ∈ fields, Extent.Saturates slack (f.shape.measure m) (f.shape.extent m)) :
    List.Forall₂ (Extent.Saturates slack) (measures m fields) (extents m fields) := by
  rw [measures_eq_map, extents_eq_map, List.forall₂_map_left_iff, List.forall₂_map_right_iff, List.forall₂_same]
  intro f hf
  rw [Field.measure_eq, Field.extent_eq]
  exact h f hf

/-- The extent of a shape stands for its exact measure, and takes less than its alignment from the limit. -/
theorem Shape.saturates (m : Machine) (s : Shape) :
    Extent.Saturates (s.measure m).align (s.measure m) (s.extent m) := by
  have hpos := m.maxAlign_pos
  have hlimit := m.maxAlign_le
  induction s using Shape.induction with
  | scalar s =>
    have hsize := s.size_eq m
    constructor
    · simp only [extent, Scalar.extent, Scalar.align, measure]
      omega
    · exact (Shape.scalar s).measure_align_pos m
    · exact Nat.le_refl _
    · simp only [extent, Scalar.extent, hsize]
      exact .of_min ((Shape.scalar s).measure_align_pos m)
  | array e n ih => exact ⟨ih.align_eq, ih.align_pos, ih.align_le, ih.size.mul ih.align_pos n⟩
  | struct fields ih =>
    have hslack := (Shape.struct fields).measure_align_le_limit m
    have hfields : List.Forall₂ (Extent.Saturates (Measure.maxAlign (measures m fields))) (measures m fields)
        (extents m fields) :=
      forall₂_saturates fun f hf => (ih f hf).mono (Measure.le_maxAlign (mem_measures_iff.2 ⟨f, hf, rfl⟩))
    have halign := Extent.maxAlign_eq_of_saturates hfields
    refine ⟨halign, Measure.maxAlign_pos _, Nat.le_refl _, ?_⟩
    have hstop := Extent.saturates_stopFrom hfields hslack (.of_le (Nat.zero_le _))
    simp only [extent, Extent.ofFields, Extent.structSize, Extent.stop_eq_stopFrom, halign]
    exact hstop.roundUp (Measure.maxAlign_pos _) (Nat.le_refl _)

theorem Shape.extent_align (m : Machine) (s : Shape) : (s.extent m).align = (s.measure m).align :=
  (s.saturates m).align_eq

/-- The size of a struct is its exact size or, if that is no byte count, the greatest multiple of its alignment. -/
theorem actualSize_eq_min (m : Machine) (fields : List Field) :
    actualSize m fields =
      min (exactActualSize m fields) (Word.lastMultiple (Extent.maxAlign (extents m fields))) := by
  have hpos := Extent.maxAlign_pos (extents m fields)
  have hdvd := Extent.maxAlign_dvd_structSize (extents m fields)
  have hsize : Word.Saturates (Extent.maxAlign (extents m fields)) (exactActualSize m fields) (actualSize m fields) :=
    ((Shape.struct fields).saturates m).size.mono (Nat.le_of_eq ((Shape.struct fields).extent_align m).symm)
  have hlast := Word.le_lastMultiple hpos hdvd hsize.le_limit
  have hle := hsize.le
  rcases hsize with ⟨-, heq⟩ | ⟨hexact, -, hslack⟩
  · rw [← heq]
    exact (Nat.min_eq_left hlast).symm
  · have hlimit := Word.lastMultiple_le_limit (Extent.maxAlign (extents m fields))
    have hge : Word.lastMultiple (Extent.maxAlign (extents m fields)) ≤ actualSize m fields :=
      Nat.le_of_lt_add_of_dvd (by omega) (Word.dvd_lastMultiple _) hdvd
    rw [Nat.min_eq_right (by omega)]
    exact Nat.le_antisymm hlast hge

end StructPadding
