-- SUMMARY: With powers of two for alignments, no order of the fields gives a smaller struct than the suggested one.
import StructPadding.Analysis.Report
import StructPadding.Proofs.Layout.CheckedSize
import StructPadding.Proofs.Layout.Sorting

/-!
# Optimality

Where word size and alignment of the target are powers of two, sizes are multiples of their alignments. Fields
by descending alignment then lie without gaps, and the struct is as large as the fields in any order have to
make it: their sizes, rounded up to the largest alignment.
-/

namespace StructPadding

/-! ## Powers of two -/

theorem dvd_of_isPowerOfTwo_of_le {a b : Nat} (ha : a.isPowerOfTwo) (hb : b.isPowerOfTwo) (h : a ≤ b) :
    a ∣ b := by
  obtain ⟨k, rfl⟩ := ha
  obtain ⟨l, rfl⟩ := hb
  exact Nat.pow_dvd_pow 2 ((Nat.pow_le_pow_iff_right (by decide)).1 h)

theorem isPowerOfTwo_min {a b : Nat} (ha : a.isPowerOfTwo) (hb : b.isPowerOfTwo) : (min a b).isPowerOfTwo := by
  rcases Nat.le_total a b with h | h
  · rwa [Nat.min_eq_left h]
  · rwa [Nat.min_eq_right h]

theorem isPowerOfTwo_max {a b : Nat} (ha : a.isPowerOfTwo) (hb : b.isPowerOfTwo) : (max a b).isPowerOfTwo := by
  rcases Nat.le_total a b with h | h
  · rwa [Nat.max_eq_right h]
  · rwa [Nat.max_eq_left h]

/-! ## Regular measures -/

namespace Measure

/-- Whether the alignment is a power of two that the size is a multiple of. -/
structure Regular (μ : Measure) : Prop where
  isPowerOfTwo : μ.align.isPowerOfTwo
  align_dvd_size : μ.align ∣ μ.size

theorem isPowerOfTwo_maxAlign {μs : List Measure} (h : ∀ μ ∈ μs, μ.Regular) : (maxAlign μs).isPowerOfTwo := by
  induction μs with
  | nil => exact Nat.isPowerOfTwo_one
  | cons μ rest ih =>
    have hrest := ih fun ν hν => h ν (List.mem_cons_of_mem _ hν)
    exact isPowerOfTwo_max (h μ (List.mem_cons_self ..)).isPowerOfTwo hrest

/-- The alignment of a field divides that of the struct. -/
theorem align_dvd_maxAlign {μs : List Measure} (h : ∀ μ ∈ μs, μ.Regular) {μ : Measure} (hμ : μ ∈ μs) :
    μ.align ∣ maxAlign μs :=
  dvd_of_isPowerOfTwo_of_le (h μ hμ).isPowerOfTwo (isPowerOfTwo_maxAlign h) (le_maxAlign hμ)

theorem Regular.ofFields {μs : List Measure} (h : ∀ μ ∈ μs, μ.Regular) : (ofFields μs).Regular where
  isPowerOfTwo := isPowerOfTwo_maxAlign h
  align_dvd_size := dvd_roundUp ..

theorem Regular.times {μ : Measure} (h : μ.Regular) (n : Nat) : (μ.times n).Regular where
  isPowerOfTwo := h.isPowerOfTwo
  align_dvd_size := Nat.dvd_mul_left_of_dvd h.align_dvd_size n

end Measure

section

variable {m : Machine} (hw : m.wordSize.isPowerOfTwo) (ha : m.maxAlign.isPowerOfTwo) (hle : m.maxAlign ≤ m.wordSize)
include hw ha hle

/-- Scalars have the size of some words, or a power of two. -/
theorem Scalar.regular_measure (s : Scalar) : ((Shape.scalar s).measure m).Regular := by
  have hdvd := dvd_of_isPowerOfTwo_of_le ha hw hle
  have hfixed : ∀ k, Nat.isPowerOfTwo k →
      (⟨k, min (max k 1) m.maxAlign⟩ : Measure).Regular := by
    intro k hk
    have hpos := Nat.pos_of_isPowerOfTwo hk
    rw [Nat.max_eq_left hpos]
    exact ⟨isPowerOfTwo_min hk ha, dvd_of_isPowerOfTwo_of_le (isPowerOfTwo_min hk ha) hk (Nat.min_le_left ..)⟩
  have hwords : ∀ n, 0 < n →
      (⟨n * m.wordSize, min (max (n * m.wordSize) 1) m.maxAlign⟩ : Measure).Regular := by
    intro n hn
    have hmul : m.wordSize ≤ n * m.wordSize := Nat.le_mul_of_pos_left _ hn
    rw [Nat.min_eq_right (by omega)]
    exact ⟨ha, Nat.dvd_mul_left_of_dvd hdvd n⟩
  cases s with
  | bool | int8 | uint8 => exact hfixed 1 ⟨0, rfl⟩
  | int16 | uint16 => exact hfixed 2 ⟨1, rfl⟩
  | int32 | uint32 | float32 => exact hfixed 4 ⟨2, rfl⟩
  | int64 | uint64 | float64 | complex64 => exact hfixed 8 ⟨3, rfl⟩
  | complex128 => exact hfixed 16 ⟨4, rfl⟩
  | string | interface => exact hwords 2 (by decide)
  | slice => exact hwords 3 (by decide)
  | pointer | chan | map | func => exact hwords 1 (by decide)

/-- Every size is a multiple of its alignment. -/
theorem Shape.regular_measure (s : Shape) : (s.measure m).Regular := by
  induction s using Shape.induction with
  | scalar s => exact s.regular_measure hw ha hle
  | array e n ih => exact ih.times n
  | struct fields ih =>
    apply Measure.Regular.ofFields
    intro μ hμ
    obtain ⟨f, hf, rfl⟩ := mem_measures_iff.1 hμ
    exact ih f hf

theorem regular_measures {fields : List Field} : ∀ μ ∈ measures m fields, μ.Regular := by
  intro μ hμ
  obtain ⟨f, -, rfl⟩ := mem_measures_iff.1 hμ
  exact f.shape.regular_measure hw ha hle

end

/-! ## Fields without gaps -/

namespace Measure

/-- Fields in order take their own bytes only: as long as fields have no size nothing lies before them, and
    from then on all alignments divide what does. -/
theorem stopFrom_of_pairwise {μs : List Measure} (hreg : ∀ μ ∈ μs, μ.Regular) (hsorted : μs.Pairwise Before)
    {used : Nat} (hused : used = 0 ∨ ∀ μ ∈ μs, μ.size ≠ 0) (hdvd : ∀ μ ∈ μs, μ.align ∣ used) :
    stopFrom used μs = used + netSize μs := by
  induction μs generalizing used with
  | nil => simp [stopFrom]
  | cons μ rest ih =>
    obtain ⟨hfirst, hrest⟩ := List.pairwise_cons.1 hsorted
    have hμ := hreg μ (List.mem_cons_self ..)
    have hround : roundUp used μ.align = used :=
      roundUp_of_dvd (Nat.pos_of_isPowerOfTwo hμ.isPowerOfTwo) (hdvd μ (List.mem_cons_self ..))
    -- a last field without a size takes no byte, since no bytes lie before it
    have hoccupied : μ.occupied rest.isEmpty used = μ.size := by
      unfold occupied
      rcases hused with rfl | hne
      · simp
      · simp [hne μ (List.mem_cons_self ..)]
    have hreg' : ∀ ν ∈ rest, ν.Regular := fun ν hν => hreg ν (List.mem_cons_of_mem _ hν)
    have hused' : used + μ.size = 0 ∨ ∀ ν ∈ rest, ν.size ≠ 0 := by
      rcases hused with rfl | hne
      · by_cases hz : μ.size = 0
        · exact .inl (by omega)
        · exact .inr fun ν hν h => hz ((hfirst ν hν).1 h)
      · exact .inr fun ν hν => hne ν (List.mem_cons_of_mem _ hν)
    -- alignments descend once a field has a size, and powers of two divide the larger ones
    have hdvd' : ∀ ν ∈ rest, ν.align ∣ used + μ.size := by
      intro ν hν
      refine Nat.dvd_add (hdvd ν (List.mem_cons_of_mem _ hν)) ?_
      by_cases hz : μ.size = 0
      · rw [hz]
        exact Nat.dvd_zero _
      · have halign := dvd_of_isPowerOfTwo_of_le (hreg' ν hν).isPowerOfTwo hμ.isPowerOfTwo ((hfirst ν hν).2 hz)
        exact Nat.dvd_trans halign hμ.align_dvd_size
    simp only [stopFrom, hround, hoccupied, ih hreg' hrest hused' hdvd', netSize_cons]
    omega

theorem netSize_perm {μs νs : List Measure} (h : μs.Perm νs) : netSize μs = netSize νs := (h.map size).sum_nat

theorem maxAlign_perm {μs νs : List Measure} (h : μs.Perm νs) : maxAlign μs = maxAlign νs := by
  induction h with
  | nil => rfl
  | cons μ _ ih => simp only [maxAlign_cons, ih]
  | swap μ ν rest => simp only [maxAlign_cons, Nat.max_left_comm]
  | trans _ _ ih₁ ih₂ => exact ih₁.trans ih₂

end Measure

/-! ## The least size -/

/-- The sizes of the fields, rounded up to the largest alignment. -/
def leastSize (m : Machine) (fields : List Field) : Nat :=
  roundUp (Measure.netSize (measures m fields)) (Measure.maxAlign (measures m fields))

theorem leastSize_perm {m : Machine} {p fields : List Field} (h : p.Perm fields) :
    leastSize m p = leastSize m fields := by
  have hmeasures : (measures m p).Perm (measures m fields) := by
    simpa only [measures_eq_map] using h.map (Field.measure m)
  rw [leastSize, leastSize, Measure.netSize_perm hmeasures, Measure.maxAlign_perm hmeasures]

theorem leastSize_le_exactActualSize (m : Machine) (fields : List Field) :
    leastSize m fields ≤ exactActualSize m fields := by
  have halign : ∀ μ ∈ measures m fields, 0 < μ.align := fun _ => measures_align_pos
  have hstop := Measure.le_stopFrom halign 0
  apply roundUp_mono (Measure.maxAlign_pos _)
  omega

namespace Extent

section

variable {bound : Nat} (hbound : 2 * bound ≤ Word.limit) {es : List Extent}
  (ha : ∀ e ∈ es, 0 < e.align ∧ e.align ≤ bound)
include hbound ha

/-- Placing fields loses none of their bytes, even where it stops at the limit. -/
theorem le_stopFrom {low used : Nat} (hlow : low ≤ used)
    (h : low + Measure.netSize (es.map measure) ≤ bound) :
    low + Measure.netSize (es.map measure) ≤ stopFrom used es := by
  induction es generalizing low used with
  | nil => simpa [stopFrom] using hlow
  | cons e rest ih =>
    obtain ⟨hpos, hle⟩ := ha e (List.mem_cons_self ..)
    simp only [List.map_cons, Measure.netSize_cons, measure_size] at h ⊢
    have hround := Word.le_roundUp_of_le hbound hpos hle hlow (by omega)
    have hsize := e.measure.size_le_occupied rest.isEmpty used
    simp only [measure_size, measure_occupied] at hsize
    have hnext : low + e.size ≤ Word.add (Word.roundUp used e.align) (e.occupied rest.isEmpty used) := by
      simp only [Word.add]
      omega
    have hrest := ih (fun d hd => ha d (List.mem_cons_of_mem _ hd)) hnext (by omega)
    rw [stopFrom]
    omega

/-- The size of a struct is not below that of its fields, rounded up to the largest alignment. -/
theorem le_structSize (hb : 0 < bound)
    (h : roundUp (Measure.netSize (es.map measure)) (Measure.maxAlign (es.map measure)) ≤ bound) :
    roundUp (Measure.netSize (es.map measure)) (Measure.maxAlign (es.map measure)) ≤ structSize es := by
  have hmax := maxAlign_le hb fun e he => (ha e he).2
  rw [← maxAlign_eq_measure] at h ⊢
  have hpos := maxAlign_pos es
  have hnet := le_roundUp (Measure.netSize (es.map measure)) hpos
  have hstop : 0 + Measure.netSize (es.map measure) ≤ stopFrom 0 es :=
    le_stopFrom hbound ha (Nat.le_refl 0) (by omega)
  rw [Nat.zero_add] at hstop
  rw [structSize, stop_eq_stopFrom]
  by_cases hword : stopFrom 0 es + (maxAlign es - 1) ≤ Word.limit
  · rw [Word.roundUp_of_le hword]
    exact roundUp_mono hpos hstop
  · have hmod := Nat.mod_lt (Word.add (stopFrom 0 es) (maxAlign es - 1)) hpos
    simp only [Word.roundUp, Word.add] at hmod ⊢
    omega

end

end Extent

/-- No struct of fields that fit is smaller than the least size. -/
theorem leastSize_le_actualSize {m : Machine} {fields : List Field} (hfit : ∀ f ∈ fields, f.shape.Fits m)
    (h : leastSize m fields ≤ m.maxObjectSize) : leastSize m fields ≤ actualSize m fields := by
  obtain ⟨hpos, hroom⟩ := m.maxObjectSize_bounds
  have hexact := extents_measure fun f hf => (hfit f hf).isExact
  rw [leastSize, ← hexact] at h ⊢
  exact Extent.le_structSize hroom (extents_align_bounds hfit fun f hf => (hfit f hf).isExact) hpos h

section

variable {m : Machine} (hw : m.wordSize.isPowerOfTwo) (ha : m.maxAlign.isPowerOfTwo) (hle : m.maxAlign ≤ m.wordSize)
  {fields : List Field} {size : Nat} (h : checkedActualSize m fields = some size)
include hw ha hle h

/-- In suggested order, fields that fit take the least size. -/
theorem suggestedSize_eq_leastSize : suggestedSize m fields = leastSize m fields := by
  obtain ⟨hfields, hsize, -⟩ := checkedActualSize_eq_some_iff.1 h
  have hperm := reorder_perm m fields
  have hsorted : ∀ f ∈ reorder fields (suggestedOrder m fields), f.shape.Fits m :=
    fun f hf => hfields f (hperm.mem_iff.1 hf)
  have hpairs := pairwise_before_suggestedOrder m fields
  rw [extents_measure fun f hf => (hsorted f hf).isExact] at hpairs
  have hstop : Measure.stopFrom 0 (measures m (reorder fields (suggestedOrder m fields))) = 0 + _ :=
    Measure.stopFrom_of_pairwise (regular_measures hw ha hle) hpairs (.inl rfl) fun μ _ => Nat.dvd_zero _
  have hexact : exactActualSize m (reorder fields (suggestedOrder m fields)) = leastSize m fields := by
    rw [← leastSize_perm hperm, leastSize, exactActualSize, Shape.exactSize, Shape.measure, Measure.ofFields, hstop,
      Nat.zero_add]
  have hfits : (Shape.struct (reorder fields (suggestedOrder m fields))).Fits m := by
    rw [Shape.fits_struct_iff, hexact]
    exact ⟨Nat.le_trans (leastSize_le_exactActualSize m fields) hsize, hsorted⟩
  rw [suggestedSize, ← hexact]
  exact hfits.extent_size

end

/-- The suggested order is optimal. With powers of two for word size and alignment, fields with a checked size
    take their reference size, rounded up to the largest alignment, when they are in suggested order, and no
    order of the same fields takes less. A report without a suggestion is about fields that no order improves. -/
theorem suggestedOrder_optimal {m : Machine} {fields : List Field} {size : Nat} (hw : m.wordSize.isPowerOfTwo)
    (ha : m.maxAlign.isPowerOfTwo) (hle : m.maxAlign ≤ m.wordSize)
    (h : checkedActualSize m fields = some size) :
    suggestedSize m fields = roundUp (referenceSize m fields) (Extent.maxAlign (extents m fields)) ∧
      (∀ p : List Field, p.Perm fields → suggestedSize m fields ≤ actualSize m p) ∧
      ∀ (site : Site) (r : Report), Report.ofSite? m true site fields = some r → r.suggestion = none →
        ∀ p : List Field, p.Perm fields → actualSize m fields ≤ actualSize m p := by
  obtain ⟨hfields, hsize, -⟩ := checkedActualSize_eq_some_iff.1 h
  have hsuggested := suggestedSize_eq_leastSize hw ha hle h
  have hleast : ∀ p : List Field, p.Perm fields → suggestedSize m fields ≤ actualSize m p := by
    intro p hp
    rw [hsuggested, ← leastSize_perm hp]
    refine leastSize_le_actualSize (fun f hf => hfields f (hp.mem_iff.1 hf)) ?_
    rw [leastSize_perm hp]
    exact Nat.le_trans (leastSize_le_exactActualSize m fields) hsize
  refine ⟨?_, hleast, ?_⟩
  · rw [hsuggested, referenceSize_eq_sum h, Extent.maxAlign_eq_measure, ← Extent.netSize_map_measure,
      extents_measure fun f hf => (hfields f hf).isExact]
    rfl
  · intro site r hr hnone p hp
    obtain ⟨finding, -, rfl⟩ := Option.map_eq_some_iff.1 hr
    have hnot : actualSize m fields ≤ suggestedSize m fields := by
      simp only [Report.suggestionFor, ↓reduceIte, ite_eq_right_iff, reduceCtorEq, imp_false, Nat.not_lt] at hnone
      exact hnone
    exact Nat.le_trans hnot (hleast p hp)

/-- A field of eight bytes between two of one byte. -/
def mixedFields : List Field := [⟨"flag", .scalar .bool⟩, ⟨"count", .scalar .int64⟩, ⟨"done", .scalar .bool⟩]

theorem suggestedOrder_optimal_mixed :
    Nat.isPowerOfTwo Machine.amd64.wordSize ∧ Nat.isPowerOfTwo Machine.amd64.maxAlign ∧
      Machine.amd64.maxAlign ≤ Machine.amd64.wordSize ∧ checkedActualSize .amd64 mixedFields = some 24 ∧
      suggestedSize .amd64 mixedFields = 16 ∧
      ∀ p : List Field, p.Perm mixedFields → 16 ≤ actualSize .amd64 p := by
  have hw : Nat.isPowerOfTwo Machine.amd64.wordSize := ⟨3, rfl⟩
  have h : checkedActualSize .amd64 mixedFields = some 24 := by rfl
  obtain ⟨hround, hleast, -⟩ := suggestedOrder_optimal hw hw (Nat.le_refl _) h
  have hsize : suggestedSize .amd64 mixedFields = 16 := hround
  rw [hsize] at hleast
  exact ⟨hw, hw, Nat.le_refl _, h, hsize, hleast⟩

end StructPadding
