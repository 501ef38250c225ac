-- SUMMARY: A field order with little padding, and the size it gives.
import StructPadding.Layout.Extent

/-!
# Suggested order

Fields are sorted by a key read off their extents: zero-size fields first, then descending alignment, then
fields with references before fields without, then few scalar bytes behind the last reference, then
descending size. Fields with equal keys keep their order.
-/

namespace StructPadding

namespace Extent

/-- Which of two fields the suggested order puts first. -/
def precedence (a b : Extent) : Ordering :=
  (compare (b.size == 0) (a.size == 0)).then <|
  (compare b.align a.align).then <|
  (compare (a.pointerPrefix == 0) (b.pointerPrefix == 0)).then <|
  (if a.pointerPrefix = 0 then .eq
    else compare (a.size - a.pointerPrefix) (b.size - b.pointerPrefix)).then <|
  compare b.size a.size

/-- The indices of the extents in suggested order. -/
def order (es : List Extent) : List Nat :=
  (es.zipIdx.mergeSort fun a b => (precedence a.1 b.1).isLE).map (·.2)

/-- The suggested order names every field once. -/
theorem order_perm (es : List Extent) : (order es).Perm (List.range es.length) := by
  have h : (es.zipIdx.map Prod.snd) = List.range es.length := by
    rw [List.zipIdx_map_snd, List.range_eq_range']
  rw [← h]
  exact (List.mergeSort_perm ..).map _

end Extent

/-- The indices of the fields in suggested order. -/
def suggestedOrder (m : Machine) (fields : List Field) : List Nat := Extent.order (extents m fields)

/-- The fields named by a list of indices, in that order. -/
def reorder (fields : List Field) (order : List Nat) : List Field := order.filterMap (fields[·]?)

/-- The size of the struct with its fields in suggested order. -/
def suggestedSize (m : Machine) (fields : List Field) : Nat :=
  actualSize m (reorder fields (suggestedOrder m fields))

end StructPadding
