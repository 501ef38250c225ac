-- SUMMARY: One more field, at whatever position, never makes a struct smaller.
import StructPadding.Proofs.Layout.Optimal

/-!
# Insertion

A field that is added pushes the fields behind it to later places, and placing is monotone. Two things work against
that: the byte of a zero-size last field is taken away when the field is last no more, and the struct is rounded up to
another alignment. The field that is last instead ends behind that byte, and the alignments are powers of two, so the new
one is a multiple of the old one.
-/

namespace StructPadding

/-- Rounding up to a multiple of the alignment, from a later place, leads at least as far. -/
theorem roundUp_le_roundUp {x y a b : Nat} (ha : 0 < a) (hb : 0 < b) (hxy : x ≤ y) (hab : a ∣ b) :
    roundUp x a ≤ roundUp y b :=
  roundUp_le_of_dvd ha (Nat.le_trans hxy (le_roundUp y hb)) (Nat.dvd_trans hab (dvd_roundUp y b))

namespace Measure

/-! ## Ends of fields -/

theorem occupied_mono (μ : Measure) (isLast : Bool) {used used' : Nat} (h : used ≤ used') :
    μ.occupied isLast used ≤ μ.occupied isLast used' := by
  by_cases hbyte : isLast ∧ μ.size = 0 ∧ used ≠ 0
  · have hbyte' : isLast ∧ μ.size = 0 ∧ used' ≠ 0 := ⟨hbyte.1, hbyte.2.1, by omega⟩
    have hone : μ.occupied isLast used = 1 := if_pos hbyte
    have hone' : μ.occupied isLast used' = 1 := if_pos hbyte'
    exact Nat.le_of_eq (hone.trans hone'.symm)
  · rw [occupied, if_neg hbyte]
    exact μ.size_le_occupied isLast used'

/-- With more bytes before them, fields end later. -/
theorem stopFrom_mono {μs : List Measure} (ha : ∀ μ ∈ μs, 0 < μ.align) {used used' : Nat} (h : used ≤ used') :
    stopFrom used μs ≤ stopFrom used' μs := by
  induction μs generalizing used used' with
  | nil => exact h
  | cons μ rest ih =>
    have hround := roundUp_mono (ha μ (List.mem_cons_self ..)) h
    have hsize := μ.occupied_mono rest.isEmpty h
    exact ih (fun ν hν => ha ν (List.mem_cons_of_mem _ hν)) (Nat.add_le_add hround hsize)

/-- A field that is last no more, with another behind it, ends no later than that one. -/
theorem stopFrom_singleton_le_pair {μ ν : Measure} (hμ : 0 < μ.align) (hν : 0 < ν.align) {used used' : Nat}
    (h : used ≤ used') : stopFrom used [μ] ≤ stopFrom used' [μ, ν] := by
  have hround := roundUp_mono hμ h
  have hused := le_roundUp used hμ
  have hbehind := le_roundUp (roundUp used' μ.align + μ.size) hν
  simp only [stopFrom, List.isEmpty_nil, List.isEmpty_cons, occupied, Bool.false_eq_true, false_and, true_and,
    ↓reduceIte]
  -- where the first field had a byte, the second has one, since bytes lie before it too
  split <;> split <;> omega

/-- One more field does not make the end of the fields earlier. -/
theorem stopFrom_le_insert {before after : List Measure} {ν : Measure} (ha : ∀ μ ∈ before ++ ν :: after, 0 < μ.align)
    {used used' : Nat} (h : used ≤ used') :
    stopFrom used (before ++ after) ≤ stopFrom used' (before ++ ν :: after) := by
  have hν : 0 < ν.align := ha ν (by simp)
  induction before generalizing used used' with
  | nil =>
    have hround := le_roundUp used' hν
    refine stopFrom_mono (fun μ hμ => ha μ (List.mem_cons_of_mem _ hμ)) ?_
    omega
  | cons μ rest ih =>
    have hμ : 0 < μ.align := ha μ (List.mem_cons_self ..)
    have hrest : ∀ ξ ∈ rest ++ ν :: after, 0 < ξ.align := fun ξ hξ => ha ξ (List.mem_cons_of_mem _ hξ)
    cases hempty : rest ++ after with
    | nil =>
      obtain ⟨rfl, rfl⟩ := List.append_eq_nil_iff.1 hempty
      exact stopFrom_singleton_le_pair hμ hν h
    | cons ξ ξs =>
      have hround := roundUp_mono hμ h
      have hnext : ¬ (rest ++ ν :: after).isEmpty := by simp
      have hstep := ih hrest (Nat.add_le_add_right hround μ.size)
      rw [hempty] at hstep
      simpa [stopFrom, hempty, hnext, occupied] using hstep

/-! ## Alignments -/

theorem maxAlign_le_insert (before after : List Measure) (ν : Measure) :
    maxAlign (before ++ after) ≤ maxAlign (before ++ ν :: after) := by
  have hsublist := (List.sublist_cons_self ν after).append_left before
  exact maxAlign_le (maxAlign_pos _) fun μ hμ => le_maxAlign (hsublist.subset hμ)

/-- One more field makes no struct smaller, where alignments are powers of two. -/
theorem size_ofFields_le_insert {before after : List Measure} {ν : Measure}
    (h : ∀ μ ∈ before ++ ν :: after, μ.Regular) :
    (ofFields (before ++ after)).size ≤ (ofFields (before ++ ν :: after)).size := by
  have hsublist := (List.sublist_cons_self ν after).append_left before
  have hfewer : ∀ μ ∈ before ++ after, μ.Regular := fun μ hμ => h μ (hsublist.subset hμ)
  have hdvd := dvd_of_isPowerOfTwo_of_le (isPowerOfTwo_maxAlign hfewer) (isPowerOfTwo_maxAlign h)
    (maxAlign_le_insert before after ν)
  have hstop := stopFrom_le_insert (fun μ hμ => Nat.pos_of_isPowerOfTwo (h μ hμ).isPowerOfTwo) (Nat.le_refl 0)
  exact roundUp_le_roundUp (maxAlign_pos _) (maxAlign_pos _) hstop hdvd

end Measure

/-! ## Structs -/

theorem actualSize_eq_exact {m : Machine} {fields : List Field} {size : Nat}
    (h : checkedActualSize m fields = some size) : actualSize m fields = exactActualSize m fields :=
  (Shape.checkedSize_eq_some_iff.1 h).1.extent_size

/-- One more field never shrinks a struct. With powers of two for word size and alignment, fields with a checked size
    take no more bytes than the same fields with another one among them, in front of them or behind them, if these have
    a checked size too. -/
theorem actualSize_le_insert {m : Machine} {before after : List Field} {f : Field} {size size' : Nat}
    (hw : m.wordSize.isPowerOfTwo) (ha : m.maxAlign.isPowerOfTwo) (hle : m.maxAlign ≤ m.wordSize)
    (h : checkedActualSize m (before ++ after) = some size)
    (h' : checkedActualSize m (before ++ f :: after) = some size') :
    actualSize m (before ++ after) ≤ actualSize m (before ++ f :: after) := by
  have hregular : ∀ μ ∈ measures m (before ++ f :: after), μ.Regular := regular_measures hw ha hle
  rw [actualSize_eq_exact h, actualSize_eq_exact h']
  simp only [measures_eq_map, List.map_append, List.map_cons] at hregular
  simpa only [exactActualSize, Shape.exactSize, Shape.measure, measures_eq_map, List.map_append, List.map_cons] using
    Measure.size_ofFields_le_insert hregular

/-- A flag behind a count takes the byte that an empty struct between them had when it was last. -/
theorem actualSize_le_insert_emptyLast :
    Nat.isPowerOfTwo Machine.amd64.wordSize ∧ Nat.isPowerOfTwo Machine.amd64.maxAlign ∧
      Machine.amd64.maxAlign ≤ Machine.amd64.wordSize ∧
      checkedActualSize .amd64 ([⟨"count", .scalar .int64⟩, ⟨"mark", .struct []⟩] ++ []) = some 16 ∧
      checkedActualSize .amd64 ([⟨"count", .scalar .int64⟩, ⟨"mark", .struct []⟩] ++ [⟨"flag", .scalar .bool⟩]) =
        some 16 ∧
      actualSize .amd64 ([⟨"count", .scalar .int64⟩, ⟨"mark", .struct []⟩] ++ []) ≤
        actualSize .amd64 ([⟨"count", .scalar .int64⟩, ⟨"mark", .struct []⟩] ++ [⟨"flag", .scalar .bool⟩]) := by
  have hw : Nat.isPowerOfTwo Machine.amd64.wordSize := ⟨3, rfl⟩
  exact ⟨hw, hw, Nat.le_refl _, rfl, rfl, actualSize_le_insert hw hw (Nat.le_refl _) rfl rfl⟩

end StructPadding
