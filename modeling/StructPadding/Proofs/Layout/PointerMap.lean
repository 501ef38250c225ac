-- SUMMARY: The pointer prefix of a value ends exactly at the last of its bytes that may hold a reference.
import Mathlib.Order.Bounds.Defs
import StructPadding.Proofs.Layout.CheckedSize

/-!
# Pointer maps

The pointer map of a value says of each byte whether it may hold a reference: words of scalars at fixed places, those of
an array element by element, those of a struct field by field. The pointer prefix is computed without it, for arrays by a
product and for structs by placing the fields once more, and has nothing of it but the end. What has to be seen is that
the fields behind a reference, and the elements behind the last one, never take the end back.
-/

namespace StructPadding

/-! ## Maps -/

/-- The bytes of a scalar that may hold a reference: those of its first word, or of both words of an interface. -/
def Scalar.pointerBytes (m : Machine) : Scalar → List Nat
  | .string | .pointer | .slice | .chan | .map | .func => List.range m.wordSize
  | .interface => List.range (2 * m.wordSize)
  | _ => []

mutual

/-- The bytes of a value that may hold a reference. -/
def Shape.pointerBytes (m : Machine) : Shape → List Nat
  | .scalar s => s.pointerBytes m
  | .array e n => (List.range n).flatMap fun i => (e.pointerBytes m).map (i * (e.extent m).size + ·)
  | .struct fields => fieldPointerBytes m fields (fieldSlots m fields)

/-- The bytes of fields in their slots that may hold a reference. -/
def fieldPointerBytes (m : Machine) : List Field → List Slot → List Nat
  | f :: rest, slot :: slots => (f.pointerBytes m).map (slot.offset + ·) ++ fieldPointerBytes m rest slots
  | _, _ => []

def Field.pointerBytes (m : Machine) : Field → List Nat
  | ⟨_, shape⟩ => shape.pointerBytes m

end

theorem Field.pointerBytes_eq (m : Machine) (f : Field) : f.pointerBytes m = f.shape.pointerBytes m := by
  cases f; rfl

theorem Scalar.pointerBytes_eq (m : Machine) (s : Scalar) :
    s.pointerBytes m = List.range (s.pointerWords * m.wordSize) := by
  cases s <;> simp [pointerBytes, pointerWords]

theorem Scalar.pointerWords_le (s : Scalar) : s.pointerWords ≤ s.words := by cases s <;> decide

/-! ## Ends of maps -/

/-- Whether a number is one past the largest of some bytes, or zero where there are none. -/
structure EndsAt (bytes : List Nat) (stop : Nat) : Prop where
  lt : ∀ b ∈ bytes, b < stop
  last_mem : 0 < stop → stop - 1 ∈ bytes

namespace EndsAt

variable {xs ys : List Nat} {p q : Nat}

theorem nil : EndsAt [] 0 := ⟨fun _ hb => absurd hb List.not_mem_nil, fun h => absurd h (Nat.lt_irrefl 0)⟩

theorem range (n : Nat) : EndsAt (List.range n) n :=
  ⟨fun _ hb => List.mem_range.1 hb, fun h => List.mem_range.2 (Nat.sub_lt h Nat.one_pos)⟩

theorem eq_nil (h : EndsAt xs 0) : xs = [] := List.eq_nil_iff_forall_not_mem.2 fun b hb => Nat.not_lt_zero b (h.lt b hb)

/-- Bytes in front of others do not matter for the end. -/
theorem append (hx : EndsAt xs p) (hy : EndsAt ys q) (hpq : q ≠ 0 → p ≤ q) :
    EndsAt (xs ++ ys) (if q = 0 then p else q) := by
  split
  · next hq =>
    obtain rfl := (hq ▸ hy).eq_nil
    rwa [List.append_nil]
  · next hq =>
    refine ⟨fun b hb => ?_, fun h => List.mem_append_right xs (hy.last_mem h)⟩
    rcases List.mem_append.1 hb with hb | hb
    · exact Nat.lt_of_lt_of_le (hx.lt b hb) (hpq hq)
    · exact hy.lt b hb

theorem shift (h : EndsAt xs p) (offset : Nat) :
    EndsAt (xs.map (offset + ·)) (if p = 0 then 0 else offset + p) := by
  split
  · next hp =>
    obtain rfl := (hp ▸ h).eq_nil
    exact .nil
  · next hp =>
    refine ⟨fun b hb => ?_, fun _ => List.mem_map.2 ⟨p - 1, h.last_mem (Nat.pos_of_ne_zero hp), by omega⟩⟩
    obtain ⟨c, hc, rfl⟩ := List.mem_map.1 hb
    exact Nat.add_lt_add_left (h.lt c hc) offset

/-- Of bytes that are repeated at every step, the last ones end the map. -/
theorem steps (h : EndsAt xs p) (n size : Nat) :
    EndsAt ((List.range n).flatMap fun i => xs.map (i * size + ·))
      (if n = 0 ∨ p = 0 then 0 else (n - 1) * size + p) := by
  have hmem : ∀ b, b ∈ ((List.range n).flatMap fun i => xs.map (i * size + ·)) ↔
      ∃ i < n, ∃ c ∈ xs, i * size + c = b := by simp
  split
  · next hnone =>
    refine ⟨fun b hb => ?_, fun h => absurd h (Nat.lt_irrefl 0)⟩
    obtain ⟨i, hi, c, hc, -⟩ := (hmem b).1 hb
    have := h.lt c hc
    omega
  · next hsome =>
    constructor
    · intro b hb
      obtain ⟨i, hi, c, hc, rfl⟩ := (hmem b).1 hb
      have hstep : i * size ≤ (n - 1) * size := Nat.mul_le_mul_right size (by omega)
      have := h.lt c hc
      omega
    · intro _
      exact (hmem _).2 ⟨n - 1, by omega, p - 1, h.last_mem (by omega), by omega⟩

theorem isGreatest (h : EndsAt xs p) : xs = [] ∧ p = 0 ∨ ∃ b, IsGreatest {b | b ∈ xs} b ∧ p = b + 1 := by
  cases p with
  | zero => exact .inl ⟨h.eq_nil, rfl⟩
  | succ b => exact .inr ⟨b, ⟨h.last_mem (Nat.succ_pos b), fun c hc => Nat.le_of_lt_succ (h.lt c hc)⟩, rfl⟩

end EndsAt

/-! ## Fields -/

/-- Where the end of the fields is checked, the first field ends the prefix if no later one does, at its references
    behind the offset of its slot. -/
theorem Extent.pointerPrefixFrom_cons {e : Extent} {rest : List Extent} {used t : Nat} (he : 0 < e.align)
    (hp : e.pointerPrefix ≤ e.size) (index : Nat) (h : checkedStop used (e :: rest) = some t) :
    ∃ slot : Slot, slot.Follows index used e rest.isEmpty ∧
      placeFrom index used (e :: rest) = slot :: placeFrom (index + 1) slot.stop rest ∧
      checkedStop slot.stop rest = some t ∧
      pointerPrefixFrom used (e :: rest) =
        if pointerPrefixFrom slot.stop rest = 0 then if e.pointerPrefix = 0 then 0 else slot.offset + e.pointerPrefix
        else pointerPrefixFrom slot.stop rest := by
  obtain ⟨slot, hslot, hplace, hrest⟩ := follows_of_checkedStop he index h
  refine ⟨slot, hslot, hplace, hrest, ?_⟩
  have hoffset : Word.roundUp used e.align = slot.offset := congrArg Slot.offset (List.cons.inj hplace).1
  have hsize := e.measure.size_le_occupied rest.isEmpty used
  rw [measure_size, measure_occupied, ← hslot.size_eq] at hsize
  have hlimit : slot.offset + slot.size ≤ Word.limit := hslot.stop_eq ▸ Word.add_le_limit ..
  have hadd : Word.add slot.offset e.pointerPrefix = slot.offset + e.pointerPrefix := Word.add_of_le (by omega)
  -- the byte of a zero-size last field stands behind all references
  have hlater : pointerPrefixFrom (Word.add slot.offset e.size) rest = pointerPrefixFrom slot.stop rest := by
    cases rest with
    | nil => rfl
    | cons d ds =>
      have hnotLast : slot.size = e.size := by simp [hslot.size_eq, occupied]
      rw [Slot.stop, hnotLast]
  simp only [pointerPrefixFrom, hoffset, hlater, hadd]
  cases pointerPrefixFrom slot.stop rest <;> simp

section

variable {m : Machine}

/-- Fields whose prefixes end their maps do so in the slots of a struct too, all behind the bytes before them and in
    front of the end of the last one. -/
theorem endsAt_fieldPointerBytes {fields : List Field}
    (hfields : ∀ f ∈ fields, EndsAt (f.pointerBytes m) (f.extent m).pointerPrefix ∧
      (f.extent m).pointerPrefix ≤ (f.extent m).size)
    {used t : Nat} (index : Nat) (h : Extent.checkedStop used (extents m fields) = some t) :
    EndsAt (fieldPointerBytes m fields (Extent.placeFrom index used (extents m fields)))
        (Extent.pointerPrefixFrom used (extents m fields)) ∧
      (∀ b ∈ fieldPointerBytes m fields (Extent.placeFrom index used (extents m fields)), used ≤ b) ∧
      used ≤ t ∧ Extent.pointerPrefixFrom used (extents m fields) ≤ t := by
  induction fields generalizing index used with
  | nil =>
    obtain rfl := Option.some.inj h
    exact ⟨.nil, fun _ hb => absurd hb List.not_mem_nil, Nat.le_refl _, Nat.zero_le _⟩
  | cons f rest ih =>
    obtain ⟨hf, hpointers⟩ := hfields f (List.mem_cons_self ..)
    obtain ⟨slot, hslot, hplace, hrest, heq⟩ :=
      Extent.pointerPrefixFrom_cons (f.extent_align_pos m) hpointers index h
    obtain ⟨hends, hbehind, hstop, hlast⟩ := ih (fun g hg => hfields g (List.mem_cons_of_mem _ hg)) (index + 1) hrest
    have hoffset := hslot.offset_eq
    have hend := hslot.stop_eq
    have hsize := (f.extent m).measure.size_le_occupied (extents m rest).isEmpty used
    rw [Extent.measure_size, Extent.measure_occupied, ← hslot.size_eq] at hsize
    rw [extents, hplace, fieldPointerBytes, heq]
    refine ⟨(hf.shift slot.offset).append hends fun hne => ?_, fun b hb => ?_, by omega, ?_⟩
    · -- the last byte of the later fields stands behind the slot
      have hle := hbehind _ (hends.last_mem (Nat.pos_of_ne_zero hne))
      split <;> omega
    · rcases List.mem_append.1 hb with hb | hb
      · obtain ⟨c, -, rfl⟩ := List.mem_map.1 hb
        omega
      · have := hbehind b hb
        omega
    · split
      · split <;> omega
      · exact hlast

/-! ## Shapes -/

/-- A scalar that fits has its references in its first bytes. -/
theorem Scalar.endsAt_pointerBytes (s : Scalar) (h : s.exactSize m ≤ m.maxObjectSize) :
    EndsAt (s.pointerBytes m) (s.extent m).pointerPrefix ∧ (s.extent m).pointerPrefix ≤ (s.extent m).size := by
  have hroom := m.maxObjectSize_bounds.2
  have hwords : s.pointerWords * m.wordSize ≤ s.exactSize m := by
    have hle := Nat.mul_le_mul_right m.wordSize s.pointerWords_le
    unfold exactSize
    split
    · next hnone =>
      rw [hnone, Nat.zero_mul] at hle
      exact Nat.le_trans hle (Nat.zero_le _)
    · exact hle
  have hpointers : (s.extent m).pointerPrefix = s.pointerWords * m.wordSize := Word.mul_of_le (by omega)
  have hsize : (s.extent m).size = s.exactSize m := (s.size_eq m).trans (Nat.min_eq_left (by omega))
  rw [hpointers, hsize, s.pointerBytes_eq]
  exact ⟨.range _, hwords⟩

/-- The prefix of a value that fits ends its map, and lies within its bytes. -/
theorem Shape.Fits.endsAt_pointerBytes {s : Shape} (h : s.Fits m) :
    EndsAt (s.pointerBytes m) (s.extent m).pointerPrefix ∧ (s.extent m).pointerPrefix ≤ (s.extent m).size := by
  induction s using Shape.induction with
  | scalar s => exact s.endsAt_pointerBytes (fits_scalar_iff.1 h)
  | array e n ih =>
    obtain ⟨hsize, he⟩ := fits_array_iff.1 h
    obtain ⟨hends, hle⟩ := ih he
    have hroom := m.maxObjectSize_bounds.2
    have hwhole : ((Shape.array e n).extent m).size = n * (e.extent m).size := by
      rw [h.extent_size, he.extent_size]
      rfl
    rw [← h.extent_size, hwhole] at hsize
    have hrow : n ≠ 0 → (n - 1) * (e.extent m).size + (e.extent m).size = n * (e.extent m).size := by
      intro hn
      obtain ⟨k, rfl⟩ := Nat.exists_eq_succ_of_ne_zero hn
      exact (Nat.succ_mul k _).symm
    have hpointers : ((Shape.array e n).extent m).pointerPrefix =
        if n = 0 ∨ (e.extent m).pointerPrefix = 0 then 0
        else (n - 1) * (e.extent m).size + (e.extent m).pointerPrefix := by
      simp only [extent, Extent.times]
      split
      · rfl
      · next hsome =>
        have hrow := hrow fun hn => hsome (.inl hn)
        rw [Word.mul_of_le (by omega), Word.add_of_le (by omega)]
    refine ⟨hpointers ▸ hends.steps n (e.extent m).size, ?_⟩
    rw [hpointers, hwhole]
    split
    · exact Nat.zero_le _
    · next hsome =>
      have hrow := hrow fun hn => hsome (.inl hn)
      omega
  | struct fields ih =>
    obtain ⟨-, hfields⟩ := fits_struct_iff.1 h
    obtain ⟨stop, hstop, hle, -⟩ := Extent.checkedStop_of_checkedStructSize h.checkedStructSize
    have hparts : ∀ f ∈ fields, EndsAt (f.pointerBytes m) (f.extent m).pointerPrefix ∧
        (f.extent m).pointerPrefix ≤ (f.extent m).size := by
      intro f hf
      rw [Field.pointerBytes_eq, Field.extent_eq]
      exact ih f hf (hfields f hf)
    obtain ⟨hends, -, -, hlast⟩ := endsAt_fieldPointerBytes hparts 0 hstop
    rw [h.extent_size]
    exact ⟨hends, Nat.le_trans hlast hle⟩

end

/-- The pointer prefix ends exactly at the last reference. Of a value with a checked size it is zero if no byte may hold
    a reference, and otherwise one past the largest byte that may; so it lies within the bytes of the value. -/
theorem pointerPrefix_exact {m : Machine} {s : Shape} {size : Nat} (h : s.checkedSize m = some size) :
    (s.pointerBytes m = [] ∧ (s.extent m).pointerPrefix = 0 ∨
        ∃ b, IsGreatest {b | b ∈ s.pointerBytes m} b ∧ (s.extent m).pointerPrefix = b + 1) ∧
      (s.extent m).pointerPrefix ≤ (s.extent m).size := by
  obtain ⟨hends, hle⟩ := (Shape.checkedSize_eq_some_iff.1 h).1.endsAt_pointerBytes
  exact ⟨hends.isGreatest, hle⟩

/-- Two strings between fields without references, the last of which takes a byte of its own. -/
def namedRange : Shape :=
  .struct [⟨"closed", .scalar .bool⟩, ⟨"names", .array (.scalar .string) 2⟩, ⟨"count", .scalar .int64⟩,
    ⟨"mark", .struct []⟩]

theorem pointerPrefix_exact_namedRange :
    namedRange.checkedSize .amd64 = some 56 ∧
      namedRange.pointerBytes .amd64 = List.range' 8 8 ++ List.range' 24 8 ∧
      IsGreatest {b | b ∈ namedRange.pointerBytes .amd64} 31 ∧
      (namedRange.extent .amd64).pointerPrefix = 32 ∧
      (namedRange.extent .amd64).pointerPrefix ≤ (namedRange.extent .amd64).size := by
  have h : namedRange.checkedSize .amd64 = some 56 := by rfl
  have hbytes : namedRange.pointerBytes .amd64 = List.range' 8 8 ++ List.range' 24 8 := by rfl
  have hpointers : (namedRange.extent .amd64).pointerPrefix = 32 := by rfl
  obtain ⟨hnone | ⟨b, hgreatest, hb⟩, hle⟩ := pointerPrefix_exact h
  · cases hbytes.symm.trans hnone.1
  · obtain rfl : b = 31 := by omega
    exact ⟨h, hbytes, hgreatest, hpointers, hle⟩

end StructPadding
