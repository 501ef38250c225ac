-- SUMMARY: A checked size exists exactly where every component fits the target, and then it is exact.
import StructPadding.Proofs.Layout.Measure

/-!
# Checked sizes are exact

A shape fits a target if no component of it is larger than the largest object. On shapes that fit, the
checked, the saturating and the exact measure are the same; on others there is no checked size.
-/

namespace StructPadding

/-! ## Components -/

/-- The shapes that a shape is made of, itself included. An array has its element for a component whatever
    its length. -/
inductive Shape.Component (c : Shape) : Shape → Prop
  | self : Component c c
  | element {e : Shape} {n : Nat} : Component c e → Component c (.array e n)
  | field {fields : List Field} {f : Field} :
      f ∈ fields → Component c f.shape → Component c (.struct fields)

/-- Whether every component can exist on the target. -/
def Shape.Fits (m : Machine) (s : Shape) : Prop := ∀ c, Component c s → c.exactSize m ≤ m.maxObjectSize

namespace Shape

theorem fits_scalar_iff {m : Machine} {s : Scalar} :
    (Shape.scalar s).Fits m ↔ s.exactSize m ≤ m.maxObjectSize := by
  constructor
  · intro h
    exact h _ .self
  · intro h c hc
    cases hc
    exact h

theorem fits_array_iff {m : Machine} {e : Shape} {n : Nat} :
    (Shape.array e n).Fits m ↔ (Shape.array e n).exactSize m ≤ m.maxObjectSize ∧ e.Fits m := by
  constructor
  · intro h
    exact ⟨h _ .self, fun c hc => h c (.element hc)⟩
  · rintro ⟨hsize, he⟩ c hc
    cases hc with
    | self => exact hsize
    | element hc => exact he c hc

theorem fits_struct_iff {m : Machine} {fields : List Field} :
    (Shape.struct fields).Fits m ↔
      exactActualSize m fields ≤ m.maxObjectSize ∧ ∀ f ∈ fields, f.shape.Fits m := by
  constructor
  · intro h
    exact ⟨h _ .self, fun f hf c hc => h c (.field hf hc)⟩
  · rintro ⟨hsize, hfields⟩ c hc
    cases hc with
    | self => exact hsize
    | field hf hc => exact hfields _ hf c hc

end Shape

/-! ## Room below the limit -/

/-- Objects exist, and two of the largest ones fit a word together. -/
theorem Machine.maxObjectSize_bounds (m : Machine) : 0 < m.maxObjectSize ∧ 2 * m.maxObjectSize ≤ Word.limit := by
  have hw := m.wordSize_pos
  unfold maxObjectSize
  split
  · decide
  · have hmem : m.wordSize ∈ [1, 2, 3, 4, 5, 6, 7] := by
      simp
      omega
    generalize m.wordSize = w at hmem
    revert w
    decide

/-- Alignments stay within the largest object where the shape does. -/
theorem Shape.Fits.align_le {m : Machine} {s : Shape} (h : s.Fits m) : (s.measure m).align ≤ m.maxObjectSize := by
  have hpos := m.maxObjectSize_bounds.1
  induction s using Shape.induction with
  | scalar s =>
    have hsize := fits_scalar_iff.1 h
    simp only [Shape.measure]
    omega
  | array e n ih => exact ih (fits_array_iff.1 h).2
  | struct fields ih =>
    apply Measure.maxAlign_le hpos
    intro μ hμ
    obtain ⟨f, hf, rfl⟩ := mem_measures_iff.1 hμ
    exact ih f hf ((fits_struct_iff.1 h).2 f hf)

/-! ## Placing extents -/

/-- Whether a slot with a given number is for a field of extent `e`, as close behind `used` bytes as the alignment of
    the field allows, with exact numbers. -/
structure Slot.Follows (slot : Slot) (index used : Nat) (e : Extent) (isLast : Bool) : Prop where
  index_eq : slot.index = index
  align_eq : slot.align = e.align
  size_eq : slot.size = e.occupied isLast used
  stop_eq : slot.stop = slot.offset + slot.size
  align_dvd : slot.align ∣ slot.offset
  offset_eq : slot.offset = used + slot.paddingBefore
  paddingBefore_lt : slot.paddingBefore < slot.align

namespace Extent

/-- Size and alignment of an extent. -/
def measure (e : Extent) : Measure := ⟨e.size, e.align⟩

@[simp] theorem measure_size (e : Extent) : e.measure.size = e.size := rfl
@[simp] theorem measure_align (e : Extent) : e.measure.align = e.align := rfl
@[simp] theorem measure_occupied (e : Extent) (isLast : Bool) (used : Nat) :
    e.measure.occupied isLast used = e.occupied isLast used := rfl

/-- The end of the last field, when `used` bytes lie before the fields. -/
def stopFrom (used : Nat) : List Extent → Nat
  | [] => used
  | e :: rest => stopFrom (Word.add (Word.roundUp used e.align) (e.occupied rest.isEmpty used)) rest

theorem getLast?_placeFrom (index used : Nat) (es : List Extent) :
    ((placeFrom index used es).getLast?.map Slot.stop).getD used = stopFrom used es := by
  induction es generalizing index used with
  | nil => rfl
  | cons e rest ih =>
    have hrest := ih (index + 1) (Word.add (Word.roundUp used e.align) (e.occupied rest.isEmpty used))
    simp only [stopFrom, placeFrom, List.getLast?_cons, ← hrest]
    cases placeFrom (index + 1) _ rest with
    | nil => rfl
    | cons s slots => simp [List.getLast?_cons]

theorem stop_eq_stopFrom (es : List Extent) : stop es = stopFrom 0 es := getLast?_placeFrom 0 0 es

theorem maxAlign_eq_measure (es : List Extent) : maxAlign es = Measure.maxAlign (es.map measure) := by
  induction es with
  | nil => rfl
  | cons e rest ih => simp [ih, measure]

theorem maxAlign_le {es : List Extent} {bound : Nat} (hb : 0 < bound) (h : ∀ e ∈ es, e.align ≤ bound) :
    maxAlign es ≤ bound := by
  rw [maxAlign_eq_measure]
  apply Measure.maxAlign_le hb
  intro μ hμ
  obtain ⟨e, he, rfl⟩ := List.mem_map.1 hμ
  exact h e he

/-- The sum of the sizes, as far as it is a word. -/
theorem netSize_eq (es : List Extent) : netSize es = min (es.map size).sum Word.limit := by
  have h : ∀ used, used ≤ Word.limit →
      es.foldl (fun sum e => Word.add sum e.size) used = min (used + (es.map size).sum) Word.limit := by
    induction es with
    | nil =>
      intro used hused
      simp [Nat.min_eq_left hused]
    | cons e rest ih =>
      intro used _
      rw [List.foldl_cons, ih _ (Word.add_le_limit ..), Word.add, List.map_cons, List.sum_cons]
      omega
  rw [netSize, h 0 (Nat.zero_le _), Nat.zero_add]

@[simp] theorem netSize_map_measure (es : List Extent) : Measure.netSize (es.map measure) = (es.map size).sum := by
  simp [Measure.netSize, Function.comp_def]

/-- The checked end is the exact one, and the saturating one too. -/
theorem stopFrom_of_checkedStop {used t : Nat} {es : List Extent} (h : checkedStop used es = some t) :
    t = Measure.stopFrom used (es.map measure) ∧ stopFrom used es = t := by
  induction es generalizing used with
  | nil =>
    obtain rfl := Option.some.inj h
    exact ⟨rfl, rfl⟩
  | cons e rest ih =>
    simp only [checkedStop, Option.bind_eq_bind, Option.bind_eq_some_iff] at h
    obtain ⟨offset, hoffset, next, hnext, h⟩ := h
    have hround := Word.roundUp_eq_of_roundUp? hoffset
    have hadd := Word.add_eq_of_add? hnext
    obtain ⟨-, rfl⟩ := Word.roundUp?_eq_some_iff.1 hoffset
    obtain ⟨-, rfl⟩ := Word.fits?_eq_some_iff.1 hnext
    obtain ⟨hexact, hsat⟩ := ih h
    refine ⟨?_, ?_⟩
    · simpa [Measure.stopFrom] using hexact
    · rw [stopFrom, hround, hadd]
      exact hsat

/-- Where the end is checked, the first field gets a slot behind the bytes before it, and the others get theirs behind
    that slot. -/
theorem follows_of_checkedStop {e : Extent} {rest : List Extent} {used t : Nat} (he : 0 < e.align) (index : Nat)
    (h : checkedStop used (e :: rest) = some t) :
    ∃ slot : Slot, slot.Follows index used e rest.isEmpty ∧
      placeFrom index used (e :: rest) = slot :: placeFrom (index + 1) slot.stop rest ∧
      checkedStop slot.stop rest = some t := by
  simp only [checkedStop, Option.bind_eq_bind, Option.bind_eq_some_iff] at h
  obtain ⟨offset, hoffset, next, hnext, h⟩ := h
  have hround := Word.roundUp_eq_of_roundUp? hoffset
  have hadd := Word.add_eq_of_add? hnext
  obtain ⟨-, rfl⟩ := Word.roundUp?_eq_some_iff.1 hoffset
  obtain ⟨-, rfl⟩ := Word.fits?_eq_some_iff.1 hnext
  have hle := le_roundUp used he
  have hlt := roundUp_lt_add used he
  refine ⟨⟨index, roundUp used e.align, e.occupied rest.isEmpty used, e.align, roundUp used e.align - used⟩, ?_, ?_, ?_⟩
  · exact { index_eq := rfl, align_eq := rfl, size_eq := rfl, stop_eq := hadd, align_dvd := dvd_roundUp ..
            offset_eq := by simp only; omega, paddingBefore_lt := by simp only; omega }
  · simp only [placeFrom, Slot.stop, hround]
  · rw [Slot.stop, hadd]
    exact h

/-- Where the exact end and all alignments leave room below the limit, the checked end exists. -/
theorem checkedStop_of_le {bound : Nat} (hbound : 2 * bound ≤ Word.limit) {es : List Extent}
    (ha : ∀ e ∈ es, 0 < e.align ∧ e.align ≤ bound) {used : Nat}
    (h : Measure.stopFrom used (es.map measure) ≤ bound) :
    checkedStop used es = some (Measure.stopFrom used (es.map measure)) := by
  induction es generalizing used with
  | nil => rfl
  | cons e rest ih =>
    have hrest : ∀ d ∈ rest, 0 < d.align ∧ d.align ≤ bound := fun d hd => ha d (List.mem_cons_of_mem _ hd)
    obtain ⟨hpos, hle⟩ := ha e (List.mem_cons_self ..)
    simp only [List.map_cons, Measure.stopFrom, measure_align, measure_occupied, List.isEmpty_map] at h ⊢
    have hused := le_roundUp used hpos
    have halign : ∀ μ ∈ rest.map measure, 0 < μ.align := by
      intro μ hμ
      obtain ⟨d, hd, rfl⟩ := List.mem_map.1 hμ
      exact (hrest d hd).1
    have hstop := Measure.le_stopFrom halign (roundUp used e.align + e.occupied rest.isEmpty used)
    -- rounding looks at one alignment more than the end, which is why the bound is taken twice
    have hround : Word.roundUp? used e.align = some (roundUp used e.align) :=
      Word.roundUp?_eq_some_iff.2 ⟨by omega, rfl⟩
    have hadd : Word.add? (roundUp used e.align) (e.occupied rest.isEmpty used) =
        some (roundUp used e.align + e.occupied rest.isEmpty used) :=
      Word.fits?_eq_some_iff.2 ⟨by omega, rfl⟩
    simp only [checkedStop, hround, hadd, Option.bind_eq_bind, Option.bind_some]
    exact ih hrest h

/-- The checked size of a struct exists exactly where the exact one is that of an object. -/
theorem checkedStructSize_eq_some_iff {m : Machine} {es : List Extent} {n : Nat}
    (ha : ∀ e ∈ es, 0 < e.align ∧ e.align ≤ m.maxObjectSize) :
    checkedStructSize m es = some n ↔
      (Measure.ofFields (es.map measure)).size ≤ m.maxObjectSize ∧
        n = (Measure.ofFields (es.map measure)).size := by
  obtain ⟨hpos, hroom⟩ := m.maxObjectSize_bounds
  have hmax := maxAlign_le hpos fun e he => (ha e he).2
  simp only [checkedStructSize, Option.bind_eq_bind, Option.bind_eq_some_iff, Measure.ofFields,
    ← maxAlign_eq_measure]
  constructor
  · rintro ⟨stop, hstop, size, hsize, hn⟩
    obtain ⟨rfl, -⟩ := stopFrom_of_checkedStop hstop
    obtain ⟨-, rfl⟩ := Word.roundUp?_eq_some_iff.1 hsize
    obtain ⟨hle, rfl⟩ := Machine.addressable?_eq_some_iff.1 hn
    exact ⟨hle, rfl⟩
  · rintro ⟨hle, rfl⟩
    have hround := le_roundUp (Measure.stopFrom 0 (es.map measure)) (maxAlign_pos es)
    refine ⟨_, checkedStop_of_le hroom ha (Nat.le_trans hround hle), _,
      Word.roundUp?_eq_some_iff.2 ⟨?_, rfl⟩, Machine.addressable?_eq_some_iff.2 ⟨hle, rfl⟩⟩
    omega

/-- Where the checked size of a struct exists, the checked end of its fields does, and lies within. -/
theorem checkedStop_of_checkedStructSize {m : Machine} {es : List Extent} {n : Nat}
    (h : checkedStructSize m es = some n) :
    ∃ stop, checkedStop 0 es = some stop ∧ stop ≤ n ∧ Word.roundUp? stop (maxAlign es) = some n := by
  simp only [checkedStructSize, Option.bind_eq_bind, Option.bind_eq_some_iff] at h
  obtain ⟨stop, hstop, size, hsize, hn⟩ := h
  obtain ⟨-, rfl⟩ := Machine.addressable?_eq_some_iff.1 hn
  obtain ⟨-, hround⟩ := Word.roundUp?_eq_some_iff.1 hsize
  refine ⟨stop, hstop, ?_, hsize⟩
  rw [hround]
  exact le_roundUp stop (maxAlign_pos es)

/-- Where the checked size of a struct exists, the saturating one is the same. -/
theorem structSize_of_checkedStructSize {m : Machine} {es : List Extent} {n : Nat}
    (h : checkedStructSize m es = some n) : structSize es = n := by
  obtain ⟨stop, hstop, -, hsize⟩ := checkedStop_of_checkedStructSize h
  rw [structSize, stop_eq_stopFrom, (stopFrom_of_checkedStop hstop).2]
  exact Word.roundUp_eq_of_roundUp? hsize

end Extent

/-! ## Shapes -/

theorem Scalar.size_eq (m : Machine) (s : Scalar) : s.size m = min (s.exactSize m) Word.limit := by
  cases s <;> simp only [size, exactSize, words, Word.mul, ↓reduceIte] <;> rfl

theorem Shape.extent_align_pos (m : Machine) (s : Shape) : 0 < (s.extent m).align := by
  induction s using Shape.induction with
  | scalar s =>
    have hm := m.maxAlign_pos
    simp only [extent, Scalar.extent, Scalar.align]
    omega
  | array e n ih => exact ih
  | struct fields _ => exact Extent.maxAlign_pos _

theorem mem_extents_iff {m : Machine} {fields : List Field} {e : Extent} :
    e ∈ extents m fields ↔ ∃ f ∈ fields, f.shape.extent m = e := by
  simp only [extents_eq_map, List.mem_map, Field.extent_eq]

theorem Field.extent_align_pos (m : Machine) (f : Field) : 0 < (f.extent m).align := by
  rw [Field.extent_eq]
  exact f.shape.extent_align_pos m

theorem extents_align_pos {m : Machine} {fields : List Field} {e : Extent} (h : e ∈ extents m fields) :
    0 < e.align := by
  obtain ⟨f, -, rfl⟩ := mem_extents_iff.1 h
  exact f.shape.extent_align_pos m

/-- The checked and the exact measure of a shape agree with its extent. -/
structure Shape.IsExact (m : Machine) (s : Shape) : Prop where
  checkedExtent_eq : s.checkedExtent m = some (s.extent m)
  measure_eq : (s.extent m).measure = s.measure m

section

variable {m : Machine} {fields : List Field}

theorem extents_measure (h : ∀ f ∈ fields, f.shape.IsExact m) :
    (extents m fields).map Extent.measure = measures m fields := by
  simp only [extents_eq_map, measures_eq_map, List.map_map]
  apply List.map_congr_left
  intro f hf
  simpa only [Function.comp_apply, Field.extent_eq, Field.measure_eq] using (h f hf).measure_eq

theorem checkedExtents_eq (h : ∀ f ∈ fields, f.shape.IsExact m) :
    checkedExtents m fields = some (extents m fields) := by
  induction fields with
  | nil => rfl
  | cons g rest ih =>
    have hg := (h g (List.mem_cons_self ..)).checkedExtent_eq
    have hrest := ih fun f hf => h f (List.mem_cons_of_mem _ hf)
    cases g with
    | mk name shape =>
      simp only [checkedExtents, Field.checkedExtent, extents, Field.extent, hg, hrest, Option.bind_eq_bind,
        Option.bind_some]

theorem checkedExtent_of_checkedExtents {es : List Extent} (h : checkedExtents m fields = some es) :
    ∀ f ∈ fields, ∃ e, f.shape.checkedExtent m = some e := by
  induction fields generalizing es with
  | nil => simp
  | cons g rest ih =>
    cases g with
    | mk name shape =>
      simp only [checkedExtents, Field.checkedExtent, Option.bind_eq_bind, Option.bind_eq_some_iff] at h
      obtain ⟨e, he, ds, hds, -⟩ := h
      intro f hf
      rcases List.mem_cons.1 hf with rfl | hf
      · exact ⟨e, he⟩
      · exact ih hds f hf

theorem extents_align_bounds (hfit : ∀ f ∈ fields, f.shape.Fits m) (h : ∀ f ∈ fields, f.shape.IsExact m) :
    ∀ e ∈ extents m fields, 0 < e.align ∧ e.align ≤ m.maxObjectSize := by
  intro e he
  obtain ⟨f, hf, rfl⟩ := mem_extents_iff.1 he
  have hf' : (f.shape.extent m).align = (f.shape.measure m).align := congrArg Measure.align (h f hf).measure_eq
  rw [hf']
  exact ⟨f.shape.measure_align_pos m, (hfit f hf).align_le⟩

/-- A struct of fields that fit has a checked size exactly where its exact size is that of an object. -/
theorem checkedStructSize_extents_iff (hfit : ∀ f ∈ fields, f.shape.Fits m)
    (h : ∀ f ∈ fields, f.shape.IsExact m) {n : Nat} :
    Extent.checkedStructSize m (extents m fields) = some n ↔
      exactActualSize m fields ≤ m.maxObjectSize ∧ n = exactActualSize m fields := by
  rw [Extent.checkedStructSize_eq_some_iff (extents_align_bounds hfit h), extents_measure h]
  rfl

end

namespace Shape

/-- Shapes that fit have the same measure in every arithmetic. -/
theorem Fits.isExact {m : Machine} {s : Shape} (h : s.Fits m) : s.IsExact m := by
  have hroom := m.maxObjectSize_bounds.2
  induction s using Shape.induction with
  | scalar s =>
    have hsize := fits_scalar_iff.1 h
    have heq : s.size m = s.exactSize m := by
      rw [s.size_eq]
      omega
    have haddr : m.addressable? (s.size m) = some (s.size m) :=
      Machine.addressable?_eq_some_iff.2 ⟨by omega, rfl⟩
    constructor
    · simp only [checkedExtent, haddr, Option.bind_eq_bind, Option.bind_some, extent, Scalar.extent]
    · simp only [extent, Scalar.extent, Extent.measure, measure, Scalar.align, heq]
  | array e n ih =>
    obtain ⟨hsize, he⟩ := fits_array_iff.1 h
    obtain ⟨hchecked, hmeasure⟩ := ih he
    simp only [exactSize, measure, Measure.times, ← hmeasure, Extent.measure_size] at hsize
    have hmul : Word.mul n (e.extent m).size = n * (e.extent m).size := Word.mul_of_le (by omega)
    have hmul? : Word.mul? n (e.extent m).size = some (n * (e.extent m).size) :=
      Word.fits?_eq_some_iff.2 ⟨by omega, rfl⟩
    have haddr : m.addressable? (n * (e.extent m).size) = some (n * (e.extent m).size) :=
      Machine.addressable?_eq_some_iff.2 ⟨hsize, rfl⟩
    constructor
    · simp only [checkedExtent, hchecked, hmul?, haddr, Option.bind_eq_bind, Option.bind_some, extent,
        Extent.times, hmul]
    · simp only [extent, Extent.times, Extent.measure, measure, Measure.times, hmul, ← hmeasure]
  | struct fields ih =>
    obtain ⟨hsize, hfit⟩ := fits_struct_iff.1 h
    have hexact : ∀ f ∈ fields, f.shape.IsExact m := fun f hf => ih f hf (hfit f hf)
    have hstruct : Extent.checkedStructSize m (extents m fields) = some (exactActualSize m fields) :=
      (checkedStructSize_extents_iff hfit hexact).2 ⟨hsize, rfl⟩
    have hsat := Extent.structSize_of_checkedStructSize hstruct
    constructor
    · simp only [checkedExtent, checkedExtents_eq hexact, hstruct, Option.bind_eq_bind, Option.bind_some, extent,
        Extent.ofFields, hsat]
    · simp only [extent, Extent.ofFields, Extent.measure, hsat, Extent.maxAlign_eq_measure,
        extents_measure hexact]
      rfl

/-- Only shapes that fit have a checked extent. -/
theorem fits_of_checkedExtent {m : Machine} {s : Shape} {e : Extent} (h : s.checkedExtent m = some e) :
    s.Fits m := by
  induction s using Shape.induction generalizing e with
  | scalar s =>
    have hroom := m.maxObjectSize_bounds
    simp only [checkedExtent, Option.bind_eq_bind, Option.bind_eq_some_iff, Machine.addressable?_eq_some_iff] at h
    obtain ⟨size, ⟨hle, rfl⟩, -⟩ := h
    rw [s.size_eq] at hle
    rw [fits_scalar_iff]
    omega
  | array t n ih =>
    simp only [checkedExtent, Option.bind_eq_bind, Option.bind_eq_some_iff, Machine.addressable?_eq_some_iff] at h
    obtain ⟨one, hone, total, htotal, size, ⟨hle, rfl⟩, -⟩ := h
    obtain ⟨-, rfl⟩ := Word.fits?_eq_some_iff.1 htotal
    have ht := ih hone
    obtain ⟨hchecked, hmeasure⟩ := ht.isExact
    obtain rfl := Option.some.inj (hone.symm.trans hchecked)
    rw [fits_array_iff]
    refine ⟨?_, ht⟩
    rw [exactSize, measure, Measure.times, ← hmeasure]
    exact hle
  | struct fields ih =>
    simp only [checkedExtent, Option.bind_eq_bind, Option.bind_eq_some_iff] at h
    obtain ⟨es, hes, size, hsize, -⟩ := h
    have hfit : ∀ f ∈ fields, f.shape.Fits m := by
      intro f hf
      obtain ⟨d, hd⟩ := checkedExtent_of_checkedExtents hes f hf
      exact ih f hf hd
    have hexact : ∀ f ∈ fields, f.shape.IsExact m := fun f hf => (hfit f hf).isExact
    obtain rfl := Option.some.inj (hes.symm.trans (checkedExtents_eq hexact))
    exact fits_struct_iff.2 ⟨((checkedStructSize_extents_iff hfit hexact).1 hsize).1, hfit⟩

/-- A checked size exists exactly where every component fits, and is then the exact one. -/
theorem checkedSize_eq_some_iff {m : Machine} {s : Shape} {n : Nat} :
    s.checkedSize m = some n ↔ s.Fits m ∧ n = s.exactSize m := by
  simp only [checkedSize, Option.map_eq_some_iff]
  constructor
  · rintro ⟨e, he, rfl⟩
    have hfit := fits_of_checkedExtent he
    obtain ⟨hchecked, hmeasure⟩ := hfit.isExact
    obtain rfl := Option.some.inj (he.symm.trans hchecked)
    exact ⟨hfit, congrArg Measure.size hmeasure⟩
  · rintro ⟨hfit, rfl⟩
    exact ⟨_, hfit.isExact.checkedExtent_eq, congrArg Measure.size hfit.isExact.measure_eq⟩

theorem Fits.extent_size {m : Machine} {s : Shape} (h : s.Fits m) : (s.extent m).size = s.exactSize m :=
  congrArg Measure.size h.isExact.measure_eq

theorem Fits.checkedStructSize {m : Machine} {fields : List Field} (h : (Shape.struct fields).Fits m) :
    Extent.checkedStructSize m (extents m fields) = some (exactActualSize m fields) := by
  obtain ⟨hsize, hfields⟩ := fits_struct_iff.1 h
  exact (checkedStructSize_extents_iff hfields fun f hf => (hfields f hf).isExact).2 ⟨hsize, rfl⟩

end Shape

theorem checkedActualSize_eq_some_iff {m : Machine} {fields : List Field} {n : Nat} :
    checkedActualSize m fields = some n ↔
      (∀ f ∈ fields, f.shape.Fits m) ∧ exactActualSize m fields ≤ m.maxObjectSize ∧
        n = exactActualSize m fields := by
  rw [checkedActualSize, Shape.checkedSize_eq_some_iff, Shape.fits_struct_iff]
  constructor
  · rintro ⟨⟨hsize, hfields⟩, hn⟩
    exact ⟨hfields, hsize, hn⟩
  · rintro ⟨hfields, hsize, hn⟩
    exact ⟨⟨hsize, hfields⟩, hn⟩

/-- The reference size of a struct with a checked size is the plain sum of the field sizes. -/
theorem referenceSize_eq_sum {m : Machine} {fields : List Field} {n : Nat} (h : checkedActualSize m fields = some n) :
    referenceSize m fields = ((extents m fields).map Extent.size).sum := by
  have hroom := m.maxObjectSize_bounds.2
  obtain ⟨hfields, hsize, -⟩ := checkedActualSize_eq_some_iff.1 h
  have halign : ∀ μ ∈ measures m fields, 0 < μ.align := fun _ => measures_align_pos
  have hstop := Measure.le_stopFrom halign 0
  have hround := le_roundUp (Measure.stopFrom 0 (measures m fields)) (Measure.maxAlign_pos (measures m fields))
  rw [exactActualSize, Shape.exactSize, Shape.measure, Measure.ofFields] at hsize
  rw [← Extent.netSize_map_measure, extents_measure fun f hf => (hfields f hf).isExact, referenceSize,
    Extent.netSize_eq, ← Extent.netSize_map_measure, extents_measure fun f hf => (hfields f hf).isExact]
  simp only at hsize
  omega

/-- Checked sizes are exact. A shape has one exactly where each of its components, itself included, is no
    larger than the largest object by its exact size; the checked size is then that exact size, and so is
    the saturating one. The same holds of a struct given by its fields. -/
theorem checkedSize_exact (m : Machine) :
    (∀ (s : Shape) (n : Nat),
      (s.checkedSize m = some n ↔
        (∀ c, Shape.Component c s → c.exactSize m ≤ m.maxObjectSize) ∧ n = s.exactSize m) ∧
      (s.checkedSize m = some n → (s.extent m).size = n)) ∧
    ∀ (fields : List Field) (n : Nat),
      (checkedActualSize m fields = some n ↔
        (∀ f ∈ fields, ∀ c, Shape.Component c f.shape → c.exactSize m ≤ m.maxObjectSize) ∧
          exactActualSize m fields ≤ m.maxObjectSize ∧ n = exactActualSize m fields) ∧
      (checkedActualSize m fields = some n → actualSize m fields = n) := by
  have hshape : ∀ (s : Shape) (n : Nat), s.checkedSize m = some n → (s.extent m).size = n := by
    intro s n h
    obtain ⟨hfit, rfl⟩ := Shape.checkedSize_eq_some_iff.1 h
    exact hfit.extent_size
  exact ⟨fun s n => ⟨Shape.checkedSize_eq_some_iff, hshape s n⟩,
    fun fields n => ⟨checkedActualSize_eq_some_iff, hshape (.struct fields) n⟩⟩

end StructPadding
