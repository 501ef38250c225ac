-- SUMMARY: Each field lies as early as order, alignment and the fields before it allow, and the struct ends as early.
import Mathlib.Data.List.Forall2
import StructPadding.Proofs.Layout.Accounting

/-!
# The tightest layout

A competing layout gives every field an offset of its own. Placement puts each field at the first multiple of its
alignment behind the field before, so by induction over the fields no competing layout has any of them earlier, whatever
numbers the alignments are.
-/

namespace StructPadding

/-! ## Competing layouts -/

/-- Whether offsets are a layout of fields with the alignments and sizes of the given slots, in their order: each offset
    is a multiple of its field's alignment, and each field, one without a size too, begins at or behind the ends of all
    fields before it. -/
structure Slot.IsLayout (slots : List Slot) (offsets : List Nat) : Prop where
  align_dvd : List.Forall₂ (fun slot o => slot.align ∣ o) slots offsets
  apart : (slots.zip offsets).Pairwise fun p q => p.2 + p.1.size ≤ q.2

/-- The end of the slot before number `i`, and `used` for the first one. -/
def Slot.stopBefore (used : Nat) (slots : List Slot) : Nat → Nat
  | 0 => used
  | i + 1 => (slots[i]?.map Slot.stop).getD used

namespace Slot

@[simp] theorem stopBefore_zero (used : Nat) (slots : List Slot) : stopBefore used slots 0 = used := rfl

theorem stopBefore_cons_succ {used i : Nat} {slot : Slot} {slots : List Slot} (h : i ≤ slots.length) :
    stopBefore used (slot :: slots) (i + 1) = stopBefore slot.stop slots i := by
  cases i with
  | zero => rfl
  | succ i =>
    have hi : i < slots.length := h
    simp [stopBefore, List.getElem?_eq_getElem hi]

namespace IsLayout

variable {slot : Slot} {slots : List Slot} {offset : Nat} {offsets : List Nat}

theorem nil : IsLayout [] [] := ⟨.nil, .nil⟩

theorem cons (hdvd : slot.align ∣ offset) (hbehind : ∀ o ∈ offsets, offset + slot.size ≤ o)
    (h : IsLayout slots offsets) : IsLayout (slot :: slots) (offset :: offsets) where
  align_dvd := .cons hdvd h.align_dvd
  apart := List.pairwise_cons.2 ⟨fun p hp => hbehind p.2 (List.of_mem_zip hp).2, h.apart⟩

/-- The first offset of a layout is aligned, and the others are a layout behind it. -/
theorem of_cons (h : IsLayout (slot :: slots) offsets) :
    ∃ offset rest, offsets = offset :: rest ∧ slot.align ∣ offset ∧ (∀ o ∈ rest, offset + slot.size ≤ o) ∧
      IsLayout slots rest := by
  obtain ⟨offset, rest, hdvd, hrest, rfl⟩ := List.forall₂_cons_left_iff.1 h.align_dvd
  obtain ⟨hbehind, hapart⟩ := List.pairwise_cons.1 h.apart
  refine ⟨offset, rest, rfl, hdvd, ?_, ⟨hrest, hapart⟩⟩
  intro o ho
  have hsnd : o ∈ (slots.zip rest).map Prod.snd := by
    rwa [List.map_snd_zip (Nat.le_of_eq hrest.length_eq.symm)]
  obtain ⟨p, hp, rfl⟩ := List.mem_map.1 hsnd
  exact hbehind p hp

end IsLayout

/-- No multiple of the alignment that lies behind the same bytes comes before the slot. -/
theorem Follows.offset_le {slot : Slot} {index used offset : Nat} {e : Extent} {isLast : Bool}
    (h : slot.Follows index used e isLast) (hused : used ≤ offset) (hdvd : slot.align ∣ offset) :
    slot.offset ≤ offset := by
  have hoffset := h.offset_eq
  have hlt := h.paddingBefore_lt
  exact Nat.le_of_lt_add_of_dvd (by omega) h.align_dvd hdvd

end Slot

/-! ## Placing -/

namespace Extent

section

variable {es : List Extent} (ha : ∀ e ∈ es, 0 < e.align) {used t : Nat} (index : Nat)
  (h : checkedStop used es = some t)
include ha h

/-- Every slot is as close behind the one before as the alignment of its field allows. -/
theorem follows_placeFrom {i : Nat} (hi : i < es.length) :
    ∃ slot, (placeFrom index used es)[i]? = some slot ∧
      slot.Follows (index + i) (Slot.stopBefore used (placeFrom index used es) i) es[i] (i + 1 == es.length) := by
  induction es generalizing index used i with
  | nil => simp at hi
  | cons e rest ih =>
    obtain ⟨slot, hslot, hplace, hrest⟩ := follows_of_checkedStop (ha e (List.mem_cons_self ..)) index h
    rw [hplace]
    cases i with
    | zero =>
      refine ⟨slot, rfl, ?_⟩
      cases rest <;> exact hslot
    | succ i =>
      have hi' : i < rest.length := Nat.lt_of_succ_lt_succ hi
      obtain ⟨next, hnext, hfollows⟩ := ih (fun d hd => ha d (List.mem_cons_of_mem _ hd)) (index + 1) hrest hi'
      have hle : i ≤ (placeFrom (index + 1) slot.stop rest).length := by
        rw [length_placeFrom]
        exact Nat.le_of_lt hi'
      refine ⟨next, by simpa using hnext, ?_⟩
      rw [Slot.stopBefore_cons_succ hle]
      simpa [Nat.add_assoc, Nat.add_comm 1 i] using hfollows

/-- The slots are a layout themselves, behind the bytes that lie before them. -/
theorem isLayout_placeFrom :
    Slot.IsLayout (placeFrom index used es) ((placeFrom index used es).map Slot.offset) ∧
      ∀ o ∈ (placeFrom index used es).map Slot.offset, used ≤ o := by
  induction es generalizing index used with
  | nil => exact ⟨.nil, by simp [placeFrom]⟩
  | cons e rest ih =>
    obtain ⟨slot, hslot, hplace, hrest⟩ := follows_of_checkedStop (ha e (List.mem_cons_self ..)) index h
    obtain ⟨hlayout, hbehind⟩ := ih (fun d hd => ha d (List.mem_cons_of_mem _ hd)) (index + 1) hrest
    have hstop := hslot.stop_eq
    have hoffset := hslot.offset_eq
    rw [hplace, List.map_cons]
    refine ⟨hlayout.cons hslot.align_dvd (by simpa only [hstop] using hbehind), ?_⟩
    intro o ho
    rcases List.mem_cons.1 ho with rfl | ho
    · omega
    · have hle := hbehind o ho
      omega

/-- No competing layout behind the same bytes has a field before its slot: the first field cannot come earlier, and the
    others lie behind an end that is no earlier than that of its slot. -/
theorem placeFrom_le_of_isLayout {offsets : List Nat} (hlayout : Slot.IsLayout (placeFrom index used es) offsets)
    (hused : ∀ o ∈ offsets, used ≤ o) :
    List.Forall₂ (fun slot o => slot.offset ≤ o) (placeFrom index used es) offsets := by
  induction es generalizing index used offsets with
  | nil =>
    obtain rfl := List.forall₂_nil_left_iff.1 hlayout.align_dvd
    exact .nil
  | cons e rest ih =>
    obtain ⟨slot, hslot, hplace, hrest⟩ := follows_of_checkedStop (ha e (List.mem_cons_self ..)) index h
    rw [hplace] at hlayout ⊢
    obtain ⟨offset, os, rfl, hdvd, hbehind, hos⟩ := hlayout.of_cons
    have hle := hslot.offset_le (hused offset (List.mem_cons_self ..)) hdvd
    have hstop := hslot.stop_eq
    refine .cons hle (ih (fun d hd => ha d (List.mem_cons_of_mem _ hd)) (index + 1) hrest hos ?_)
    intro o ho
    have := hbehind o ho
    omega

end

/-- The size of a struct is the first multiple of the largest alignment at or behind the end of its fields. -/
theorem structSize_least {m : Machine} {es : List Extent} {size : Nat} (h : checkedStructSize m es = some size) :
    maxAlign es ∣ structSize es ∧ stop es ≤ structSize es ∧
      (∀ n, maxAlign es ∣ n → stop es ≤ n → structSize es ≤ n) ∧ structSize es < stop es + maxAlign es := by
  obtain ⟨t, hstop, -, hround⟩ := checkedStop_of_checkedStructSize h
  have hpos := maxAlign_pos es
  obtain rfl : stop es = t := by
    rw [stop_eq_stopFrom]
    exact (stopFrom_of_checkedStop hstop).2
  obtain ⟨-, rfl⟩ := Word.roundUp?_eq_some_iff.1 hround
  rw [structSize_of_checkedStructSize h]
  exact ⟨StructPadding.dvd_roundUp .., le_roundUp _ hpos, fun n hd hn => roundUp_le_of_dvd hpos hn hd,
    roundUp_lt_add _ hpos⟩

end Extent

/-! ## Structs -/

/-- Fields with a checked size are laid out as tightly as their order allows. Each slot has the number and the
    alignment of its field and is as close behind the slot before as a multiple of that alignment can be; the slots do
    not overlap; and no layout of the same fields, in the same order and with the same sizes, has any of them at a
    smaller offset. The struct has the least size that is a multiple of the largest alignment and not before the end of
    the last slot, so that less than that alignment is left behind it. -/
theorem fieldSlots_tightest {m : Machine} {fields : List Field} {size : Nat}
    (h : checkedActualSize m fields = some size) :
    (fieldSlots m fields).length = fields.length ∧
      (∀ i (hi : i < fields.length), ∃ slot, (fieldSlots m fields)[i]? = some slot ∧
        slot.Follows i (Slot.stopBefore 0 (fieldSlots m fields) i) (fields[i].extent m) (i + 1 == fields.length)) ∧
      Slot.IsLayout (fieldSlots m fields) ((fieldSlots m fields).map Slot.offset) ∧
      (∀ offsets, Slot.IsLayout (fieldSlots m fields) offsets →
        List.Forall₂ (fun slot o => slot.offset ≤ o) (fieldSlots m fields) offsets) ∧
      let stop := ((fieldSlots m fields).getLast?.map Slot.stop).getD 0
      let align := Extent.maxAlign (extents m fields)
      align ∣ actualSize m fields ∧ stop ≤ actualSize m fields ∧
        (∀ n, align ∣ n → stop ≤ n → actualSize m fields ≤ n) ∧
        actualSize m fields = stop + tailPadding m fields ∧ tailPadding m fields < align := by
  have hstruct := checkedStructSize_of_checkedActualSize h
  obtain ⟨t, hstop, -, -⟩ := Extent.checkedStop_of_checkedStructSize hstruct
  have ha : ∀ e ∈ extents m fields, 0 < e.align := fun e he => extents_align_pos he
  have hlength : (fieldSlots m fields).length = fields.length := by
    simp [fieldSlots, Extent.place, Extent.length_placeFrom]
  have hlast : ((fieldSlots m fields).getLast?.map Slot.stop).getD 0 = Extent.stop (extents m fields) := rfl
  obtain ⟨hdvd, hle, hleast, hlt⟩ := Extent.structSize_least hstruct
  refine ⟨hlength, ?_, (Extent.isLayout_placeFrom ha 0 hstop).1, ?_, ?_⟩
  · intro i hi
    have hi' : i < (extents m fields).length := by simpa using hi
    obtain ⟨slot, hslot, hfollows⟩ := Extent.follows_placeFrom ha 0 hstop hi'
    exact ⟨slot, hslot, by simpa [fieldSlots, Extent.place] using hfollows⟩
  · intro offsets hlayout
    exact Extent.placeFrom_le_of_isLayout ha 0 hstop hlayout fun o _ => Nat.zero_le o
  · simp only [hlast]
    refine ⟨hdvd, hle, hleast, ?_, ?_⟩ <;> simp only [actualSize, tailPadding, Extent.tailPadding] <;> omega

theorem fieldSlots_tightest_emptyLast :
    checkedActualSize .amd64 emptyLast = some 24 ∧ Slot.IsLayout (fieldSlots .amd64 emptyLast) [1, 16, 40] ∧
      List.Forall₂ (fun slot o => slot.offset ≤ o) (fieldSlots .amd64 emptyLast) [1, 16, 40] ∧
      (fieldSlots .amd64 emptyLast).map Slot.offset = [0, 8, 16] ∧ tailPadding .amd64 emptyLast < 8 := by
  have h : checkedActualSize .amd64 emptyLast = some 24 := by rfl
  have hlayout : Slot.IsLayout (fieldSlots .amd64 emptyLast) [1, 16, 40] :=
    ⟨by decide +kernel, by decide +kernel⟩
  obtain ⟨-, -, -, hleast, -, -, -, -, htail⟩ := fieldSlots_tightest h
  exact ⟨h, hlayout, hleast _ hlayout, rfl, htail⟩

end StructPadding
