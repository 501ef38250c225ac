-- SUMMARY: An array is laid out as that many fields of its element, except for odd runs of slices on one architecture.
import StructPadding.Proofs.Layout.Optimal
import StructPadding.Proofs.Layout.Saturation

/-!
# Arrays as consecutive fields

The size of an array is a product, that of a struct what placing its fields comes to. Each of several equal fields takes
the size of one, rounded up to its alignment, so the two agree where the size of the element is a multiple of its
alignment. On the known architectures that is so for all shapes but one kind: a slice takes three words, which are
twelve bytes aligned to eight where words of four bytes meet alignments of eight.
-/

namespace StructPadding

/-! ## Equal fields -/

theorem roundUp_add_of_dvd {x a : Nat} (h : a ∣ x) (y : Nat) : roundUp (x + y) a = x + roundUp y a := by
  obtain ⟨k, rfl⟩ := h
  rcases Nat.eq_zero_or_pos a with rfl | ha
  · simp [roundUp]
  · rw [roundUp, roundUp, Nat.add_assoc, Nat.mul_add_div ha, Nat.add_mul, Nat.mul_comm a k]

namespace Measure

variable {μ : Measure}

@[simp] theorem maxAlign_replicate (ha : 0 < μ.align) (n : Nat) : maxAlign (List.replicate (n + 1) μ) = μ.align := by
  induction n with
  | zero =>
    simp only [List.replicate_succ, List.replicate_zero, maxAlign_cons, maxAlign_nil]
    omega
  | succ n ih => rw [List.replicate_succ, maxAlign_cons, ih, Nat.max_self]

/-- Fields without a size take no byte at all where none lies before them. -/
theorem stopFrom_replicate_of_size_eq_zero (hsize : μ.size = 0) (n : Nat) :
    stopFrom 0 (List.replicate n μ) = 0 := by
  induction n with
  | zero => rfl
  | succ n ih =>
    have hround : roundUp 0 μ.align = 0 := by
      rcases Nat.eq_zero_or_pos μ.align with h | h
      · simp [roundUp, h]
      · exact roundUp_of_dvd h (Nat.dvd_zero _)
    simpa [List.replicate_succ, stopFrom, occupied, hsize, hround] using ih

/-- Each field but the last takes its size, rounded up to its alignment. -/
theorem stopFrom_replicate_succ (hsize : 0 < μ.size) {used start : Nat}
    (hused : roundUp used μ.align = start) (n : Nat) :
    stopFrom used (List.replicate (n + 1) μ) = start + n * roundUp μ.size μ.align + μ.size := by
  have hoccupied : ∀ isLast used, μ.occupied isLast used = μ.size := by
    intro isLast used
    simp only [occupied, Nat.ne_of_gt hsize, false_and, and_false, ↓reduceIte]
  induction n generalizing used start with
  | zero => simp [stopFrom, hoccupied, hused]
  | succ n ih =>
    have hdvd : μ.align ∣ start := hused ▸ dvd_roundUp used μ.align
    rw [List.replicate_succ, stopFrom, hoccupied, hused, ih (roundUp_add_of_dvd hdvd μ.size), Nat.succ_mul]
    omega

/-- Equal fields take as many times the size of one, rounded up to its alignment. -/
theorem size_ofFields_replicate (ha : 0 < μ.align) (n : Nat) :
    (ofFields (List.replicate (n + 1) μ)).size = (n + 1) * roundUp μ.size μ.align := by
  have hzero : roundUp 0 μ.align = 0 := roundUp_of_dvd ha (Nat.dvd_zero _)
  simp only [ofFields, maxAlign_replicate ha]
  rcases Nat.eq_zero_or_pos μ.size with hsize | hsize
  · rw [stopFrom_replicate_of_size_eq_zero hsize, hsize, hzero, Nat.mul_zero]
  · have hdvd : μ.align ∣ n * roundUp μ.size μ.align := Nat.dvd_mul_left_of_dvd (dvd_roundUp ..) n
    rw [stopFrom_replicate_succ hsize hzero, Nat.zero_add, roundUp_add_of_dvd hdvd, Nat.succ_mul]

end Measure

/-! ## Sizes that are no multiples of alignments -/

/-- The architecture with words of four bytes and alignments of eight. -/
def Machine.amd64p32 : Machine :=
  { narrow with
    maxAlign := amd64.maxAlign
    maxAlign_pos := amd64.maxAlign_pos
    maxAlign_le := amd64.maxAlign_le }

/-- The known architectures have words as large as their alignments, of four or of eight bytes, or are this one. -/
theorem Machine.eq_of_ofArch?_eq_some {name : String} {m : Machine} (h : ofArch? name = some m) :
    name ≠ "amd64p32" ∧ (m = amd64 ∨ m = narrow) ∨ name = "amd64p32" ∧ m = amd64p32 := by
  obtain ⟨before, after, heq, -⟩ := List.lookup_eq_some_iff.1 h
  have hmem : (name, m) ∈ architectures := heq ▸ List.mem_append_right before (List.mem_cons_self ..)
  have hall : ∀ p ∈ architectures, p.1 ≠ "amd64p32" ∧ (p.2 = amd64 ∨ p.2 = narrow) ∨
      p.1 = "amd64p32" ∧ p.2 = amd64p32 := by
    simp [architectures, amd64p32, narrow, amd64]
  exact hall _ hmem

/-- Whether a shape is an odd number of slices in a row, and nothing else. -/
def Shape.isOddSlices : Shape → Bool
  | .scalar s => s == .slice
  | .array e n => n % 2 == 1 && e.isOddSlices
  | .struct _ => false

/-- With words of four bytes and alignments of eight, an odd number of slices takes four bytes more than a multiple of
    its alignment, and any other shape such a multiple. -/
theorem Shape.measure_amd64p32 (s : Shape) :
    if s.isOddSlices then (s.measure .amd64p32).align = 8 ∧ (s.measure .amd64p32).size % 8 = 4
    else (s.measure .amd64p32).align ∣ (s.measure .amd64p32).size := by
  induction s using Shape.induction with
  | scalar s => cases s <;> decide
  | array e n ih =>
    simp only [isOddSlices, Bool.and_eq_true, beq_iff_eq, measure, Measure.times]
    by_cases he : e.isOddSlices
    · simp only [he, ↓reduceIte] at ih
      obtain ⟨halign, hsize⟩ := ih
      have hmod : n * (e.measure .amd64p32).size % 8 = n % 8 * 4 % 8 := by rw [Nat.mul_mod, hsize]
      split
      · exact ⟨halign, by omega⟩
      · next hn =>
        have heven : n % 2 ≠ 1 := fun h => hn ⟨h, he⟩
        rw [halign]
        exact Nat.dvd_of_mod_eq_zero (by omega)
    · simp only [he, Bool.false_eq_true, ↓reduceIte, and_false] at ih ⊢
      exact Nat.dvd_mul_left_of_dvd ih n
  | struct fields ih => exact dvd_roundUp ..

/-- On every known architecture, the size of a shape is a multiple of its alignment, but for odd numbers of slices on
    one of them. -/
theorem Shape.align_dvd_size_of_ofArch? {name : String} {m : Machine} (hm : Machine.ofArch? name = some m) {s : Shape}
    (h : ¬(name = "amd64p32" ∧ s.isOddSlices)) : (s.measure m).align ∣ (s.measure m).size := by
  have hfour : Nat.isPowerOfTwo 4 := ⟨2, rfl⟩
  have height : Nat.isPowerOfTwo 8 := ⟨3, rfl⟩
  rcases Machine.eq_of_ofArch?_eq_some hm with ⟨-, rfl | rfl⟩ | ⟨rfl, rfl⟩
  · exact (s.regular_measure height height (Nat.le_refl _)).align_dvd_size
  · exact (s.regular_measure hfour hfour (Nat.le_refl _)).align_dvd_size
  · have hodd : ¬s.isOddSlices = true := fun hs => h ⟨rfl, hs⟩
    simpa only [hodd, Bool.false_eq_true, ↓reduceIte] using s.measure_amd64p32

/-! ## Arrays -/

section

variable {m : Machine} {t : Shape} {n : Nat} {fields : List Field}

/-- A struct of equal fields takes as many times the size of one, rounded up to its alignment. -/
theorem exactActualSize_of_forall_eq (hn : 1 ≤ n) (hlength : fields.length = n) (hfields : ∀ f ∈ fields, f.shape = t) :
    exactActualSize m fields = n * roundUp (t.measure m).size (t.measure m).align := by
  obtain ⟨k, rfl⟩ : ∃ k, n = k + 1 := ⟨n - 1, by omega⟩
  have hmeasures : measures m fields = List.replicate (k + 1) (t.measure m) := by
    rw [List.eq_replicate_iff]
    refine ⟨by simpa using hlength, ?_⟩
    intro μ hμ
    obtain ⟨f, hf, rfl⟩ := mem_measures_iff.1 hμ
    rw [hfields f hf]
  rw [exactActualSize, Shape.exactSize, Shape.measure, hmeasures]
  exact Measure.size_ofFields_replicate (t.measure_align_pos m) k

theorem actualSize_of_le_limit (h : exactActualSize m fields ≤ Word.limit) :
    actualSize m fields = exactActualSize m fields :=
  ((Shape.struct fields).saturates m).size.eq_of_le h

end

/-- An array is laid out like that many consecutive fields. On a known architecture, an array with a checked size takes
    the bytes of a struct of as many fields of its element's shape, and every element is aligned. The one exception are
    the slices of the architecture with words of four bytes and alignments of eight, and odd numbers of them in a row:
    their size is no multiple of their alignment, so four bytes of padding lie behind every field and behind no
    element. -/
theorem array_consecutive {name : String} {m : Machine} {t : Shape} {n size : Nat} {fields : List Field}
    (hm : Machine.ofArch? name = some m) (hn : 1 ≤ n) (h : (Shape.array t n).checkedSize m = some size)
    (hlength : fields.length = n) (hfields : ∀ f ∈ fields, f.shape = t) :
    (¬(name = "amd64p32" ∧ t.isOddSlices) →
      ((Shape.array t n).extent m).size = actualSize m fields ∧ (t.extent m).align ∣ (t.extent m).size ∧
        ∀ i < n, (t.extent m).align ∣ i * (t.extent m).size) ∧
    (name = "amd64p32" ∧ t.isOddSlices →
      ((Shape.array t n).extent m).size + 4 * n = actualSize m fields ∧
        ¬(t.extent m).align ∣ (t.extent m).size) := by
  obtain ⟨hfit, -⟩ := Shape.checkedSize_eq_some_iff.1 h
  obtain ⟨hsize, ht⟩ := Shape.fits_array_iff.1 hfit
  have hroom := m.maxObjectSize_bounds.2
  have hexact := exactActualSize_of_forall_eq (m := m) hn hlength hfields
  have harray : (Shape.array t n).exactSize m = n * (t.measure m).size := rfl
  rw [harray] at hsize
  rw [hfit.extent_size, harray, ht.extent_size, Shape.extent_align, Shape.exactSize]
  constructor
  · intro hodd
    have hdvd := Shape.align_dvd_size_of_ofArch? hm hodd
    rw [roundUp_of_dvd (t.measure_align_pos m) hdvd] at hexact
    rw [actualSize_of_le_limit (by omega), hexact]
    exact ⟨rfl, hdvd, fun i _ => Nat.dvd_mul_left_of_dvd hdvd i⟩
  · rintro ⟨rfl, hodd⟩
    obtain rfl : m = .amd64p32 := by
      rcases Machine.eq_of_ofArch?_eq_some hm with ⟨hne, -⟩ | ⟨-, rfl⟩
      · exact absurd rfl hne
      · rfl
    have hmeasure := t.measure_amd64p32
    simp only [hodd, ↓reduceIte] at hmeasure
    obtain ⟨halign, hmod⟩ := hmeasure
    have hround : roundUp (t.measure .amd64p32).size (t.measure .amd64p32).align = (t.measure .amd64p32).size + 4 := by
      rw [halign, roundUp]
      omega
    -- at least four bytes are an element, so that the padding at most doubles the size
    have hfour : 4 * n ≤ n * (t.measure .amd64p32).size := by
      rw [Nat.mul_comm]
      exact Nat.mul_le_mul_left n (by omega)
    rw [hround, Nat.mul_add] at hexact
    rw [actualSize_of_le_limit (by omega), hexact, halign]
    exact ⟨by omega, fun hdvd => by omega⟩

/-- A string and a byte behind it. -/
def namedFlag : Shape := .struct [⟨"name", .scalar .string⟩, ⟨"flag", .scalar .bool⟩]

theorem array_consecutive_namedFlag :
    Machine.ofArch? "wasm" = some .amd64 ∧ 1 ≤ 3 ∧ (Shape.array namedFlag 3).checkedSize .amd64 = some 72 ∧
      actualSize .amd64 [⟨"a", namedFlag⟩, ⟨"b", namedFlag⟩, ⟨"c", namedFlag⟩] = 72 := by
  have hm : Machine.ofArch? "wasm" = some .amd64 := by rfl
  have h : (Shape.array namedFlag 3).checkedSize .amd64 = some 72 := by rfl
  have hfields : ∀ f ∈ ([⟨"a", namedFlag⟩, ⟨"b", namedFlag⟩, ⟨"c", namedFlag⟩] : List Field), f.shape = namedFlag := by
    simp
  obtain ⟨hsize, -⟩ := (array_consecutive hm (by decide) h rfl hfields).1 (by decide)
  exact ⟨hm, by decide, h, hsize.symm⟩

/-- Where words have four bytes and alignments eight, two slices are not laid out as an array of them. -/
theorem not_all_array_consecutive :
    ¬∀ (name : String) (m : Machine), Machine.ofArch? name = some m → ∀ (t : Shape) (n : Nat) (fields : List Field),
      1 ≤ n → ((Shape.array t n).checkedSize m).isSome → fields.length = n → (∀ f ∈ fields, f.shape = t) →
        ((Shape.array t n).extent m).size = actualSize m fields ∧ (t.extent m).align ∣ (t.extent m).size := by
  intro h
  have hsize := (h "amd64p32" .amd64p32 rfl (.scalar .slice) 2 [⟨"a", .scalar .slice⟩, ⟨"b", .scalar .slice⟩]
    (by decide) rfl rfl (by simp)).1
  have hne : ((Shape.array (.scalar .slice) 2).extent .amd64p32).size ≠
      actualSize .amd64p32 [⟨"a", .scalar .slice⟩, ⟨"b", .scalar .slice⟩] := by decide +kernel
  exact hne hsize

end StructPadding
