-- SUMMARY: The suggested order holds every field once, zero-size fields first and then by descending alignment.
import StructPadding.Layout.Order
import StructPadding.Proofs.Layout.CheckedSize

/-!
# Sorting

The order between extents is total and transitive, so that sorting by it gives a sorted list. Of the sorted
list only the first two criteria matter for the size of the struct.
-/

namespace StructPadding

open Std

/-- Fields of size zero come before all others, and those by descending alignment. -/
def Measure.Before (a b : Measure) : Prop := (b.size = 0 → a.size = 0) ∧ (a.size ≠ 0 → b.align ≤ a.align)

namespace Extent

/-! ## The order between extents -/

/-- Bytes behind the last reference of an extent that has references. -/
def scalarTail (e : Extent) : Nat := if e.pointerPrefix = 0 then 0 else e.size - e.pointerPrefix

/-- The order between extents compares five numbers, one after the other. -/
theorem precedence_eq_compareLex (a b : Extent) :
    precedence a b =
      compareLex (fun a b => compareOn (fun e : Extent => e.size == 0) b a)
        (compareLex (fun a b => compareOn align b a)
          (compareLex (compareOn fun e => e.pointerPrefix == 0)
            (compareLex (compareOn scalarTail) fun a b => compareOn size b a))) a b := by
  simp only [precedence, compareLex, compareOn, scalarTail]
  by_cases ha : a.pointerPrefix = 0 <;> by_cases hb : b.pointerPrefix = 0
  · simp [ha, hb]
  -- where only one of the two has references, the third number decides
  · have hb' : (b.pointerPrefix == 0) = false := by simpa using hb
    have hthird : compare true false = .gt := rfl
    simp only [ha, hb', beq_self_eq_true, hthird, Ordering.then]
  · have ha' : (a.pointerPrefix == 0) = false := by simpa using ha
    have hthird : compare false true = .lt := rfl
    simp only [hb, ha', beq_self_eq_true, hthird, Ordering.then]
  · simp [ha, hb]

instance : TransCmp precedence where
  eq_swap {a b} := by
    rw [precedence_eq_compareLex, precedence_eq_compareLex]
    exact OrientedCmp.eq_swap
  isLE_trans {a b c} := by
    rw [precedence_eq_compareLex, precedence_eq_compareLex, precedence_eq_compareLex]
    exact TransCmp.isLE_trans

theorem isLE_precedence_total (a b : Extent) : (precedence a b).isLE || (precedence b a).isLE := by
  have hswap : precedence b a = (precedence a b).swap := OrientedCmp.eq_swap
  rw [hswap]
  cases precedence a b <;> rfl

/-- The suggested order looks at sizes and alignments before anything else. -/
theorem before_of_isLE_precedence {a b : Extent} (h : (precedence a b).isLE) : a.measure.Before b.measure := by
  rw [precedence, Ordering.isLE_then_iff_or] at h
  simp only [Measure.Before, measure_size, measure_align]
  have hfirst : compare true false = .gt := rfl
  constructor
  · intro hb
    by_cases ha : a.size = 0
    · exact ha
    · have ha' : (a.size == 0) = false := by simpa using ha
      simp [ha', hb, hfirst] at h
  · intro ha
    have ha' : (a.size == 0) = false := by simpa using ha
    by_cases hb : b.size = 0
    · simp [ha', hb, hfirst] at h
    · have hb' : (b.size == 0) = false := by simpa using hb
      simp only [ha', hb', ReflOrd.compare_self, reduceCtorEq, true_and, false_or] at h
      rw [Ordering.isLE_then_iff_or, Nat.compare_eq_lt, Nat.compare_eq_eq] at h
      omega

end Extent

/-! ## The suggested order -/

theorem filterMap_getElem?_range {α : Type} (xs : List α) : (List.range xs.length).filterMap (xs[·]?) = xs := by
  induction xs with
  | nil => rfl
  | cons x rest ih =>
    rw [List.length_cons, List.range_succ_eq_map, List.filterMap_cons_some (by rfl), List.filterMap_map]
    exact congrArg (x :: ·) ih

/-- Fields in suggested order are the same fields. -/
theorem reorder_perm (m : Machine) (fields : List Field) :
    (reorder fields (suggestedOrder m fields)).Perm fields := by
  have h := (Extent.order_perm (extents m fields)).filterMap (fields[·]?)
  rw [extents_eq_map, List.length_map, filterMap_getElem?_range] at h
  rwa [suggestedOrder, extents_eq_map]

/-- The extents of fields that are named with their numbers. -/
theorem extents_reorder {m : Machine} {fields : List Field} {pairs : List (Extent × Nat)}
    (h : ∀ p ∈ pairs, (extents m fields)[p.2]? = some p.1) :
    extents m (reorder fields (pairs.map Prod.snd)) = pairs.map Prod.fst := by
  induction pairs with
  | nil => rfl
  | cons p rest ih =>
    have hrest := ih fun q hq => h q (List.mem_cons_of_mem _ hq)
    have hp := h p (List.mem_cons_self ..)
    simp only [extents_eq_map, List.getElem?_map, Option.map_eq_some_iff] at hp hrest
    obtain ⟨f, hf, hp⟩ := hp
    simp only [reorder, extents_eq_map, List.map_cons, List.filterMap_cons_some hf, hp]
    exact congrArg (p.1 :: ·) hrest

/-- In suggested order, no field comes before one that is to come earlier. -/
theorem pairwise_isLE_suggestedOrder (m : Machine) (fields : List Field) :
    (extents m (reorder fields (suggestedOrder m fields))).Pairwise fun a b => (Extent.precedence a b).isLE := by
  have htrans : ∀ a b c : Extent × Nat, (Extent.precedence a.1 b.1).isLE → (Extent.precedence b.1 c.1).isLE →
      (Extent.precedence a.1 c.1).isLE := fun _ _ _ => TransCmp.isLE_trans
  have hsorted := List.pairwise_mergeSort htrans (fun a b => Extent.isLE_precedence_total a.1 b.1)
    (extents m fields).zipIdx
  rw [suggestedOrder, Extent.order, extents_reorder]
  · exact List.pairwise_map.2 hsorted
  · intro p hp
    exact List.mem_zipIdx_iff_getElem?.1 (List.mem_mergeSort.1 hp)

/-- In suggested order, zero-size fields come first and the others by descending alignment. -/
theorem pairwise_before_suggestedOrder (m : Machine) (fields : List Field) :
    ((extents m (reorder fields (suggestedOrder m fields))).map Extent.measure).Pairwise Measure.Before :=
  List.pairwise_map.2 ((pairwise_isLE_suggestedOrder m fields).imp Extent.before_of_isLE_precedence)

end StructPadding
