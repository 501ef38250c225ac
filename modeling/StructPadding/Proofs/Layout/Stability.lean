-- SUMMARY: The suggested order is the only stable one, and fields that are in it already keep their places.
import StructPadding.Proofs.Layout.Sorting

/-!
# Stability

Extents are compared by five numbers, one of which counts only where there are references. That is a total preorder, so
the fields can be sorted by it, and the sort keeps the order of fields that are level. Numbered fields that are never
level have one sorted order only: the suggested order is determined by what is said of it here, and suggesting it again
changes nothing.
-/

namespace StructPadding

open Std

/-- Sorting numbered values by the values alone sorts them by value and then by number. -/
theorem mergeSort_zipIdx_fst {α : Type} (le : α → α → Bool) (xs : List α) :
    (xs.zipIdx.mergeSort fun p q => le p.1 q.1) = xs.zipIdx.mergeSort (List.zipIdxLE le) := by
  have hnumber : ∀ p ∈ xs.zipIdx.zipIdx, p.2 = p.1.2 := by
    intro p hp
    obtain ⟨hlt, heq⟩ := List.getElem?_eq_some_iff.1 (List.mem_zipIdx_iff_getElem?.1 hp)
    rw [← heq]
    simp
  have hmap : (xs.zipIdx.zipIdx.mergeSort (List.zipIdxLE fun p q => le p.1 q.1)).map Prod.fst =
      (xs.zipIdx.zipIdx.map Prod.fst).mergeSort (List.zipIdxLE le) := by
    apply List.map_mergeSort
    intro p hp q hq
    simp only [List.zipIdxLE, hnumber p hp, hnumber q hq]
  rw [← List.mergeSort_zipIdx, hmap, List.zipIdx_map_fst]

namespace Extent

/-- Whether field number `i` may stand before number `j`: it is not to come later, and where the two are level it has
    the smaller number. -/
def MayPrecede (es : List Extent) (i j : Nat) : Prop :=
  ∀ a ∈ es[i]?, ∀ b ∈ es[j]?, precedence a b ≠ .gt ∧ (precedence a b = .eq → i < j)

instance (es : List Extent) (i j : Nat) : Decidable (MayPrecede es i j) :=
  inferInstanceAs (Decidable (∀ a ∈ es[i]?, ∀ b ∈ es[j]?, precedence a b ≠ .gt ∧ (precedence a b = .eq → i < j)))

variable {es : List Extent}

theorem isLE_precedence_trans (a b c : Extent) (hab : (precedence a b).isLE) (hbc : (precedence b c).isLE) :
    (precedence a c).isLE := TransCmp.isLE_trans hab hbc

/-- Two different fields do not both stand before the other. -/
theorem MayPrecede.antisymm {i j : Nat} (hi : i < es.length) (hj : j < es.length) (hij : MayPrecede es i j)
    (hji : MayPrecede es j i) : i = j := by
  obtain ⟨hle, hlt⟩ := hij _ (List.getElem?_eq_getElem hi) _ (List.getElem?_eq_getElem hj)
  obtain ⟨hge, hgt⟩ := hji _ (List.getElem?_eq_getElem hj) _ (List.getElem?_eq_getElem hi)
  have hswap : precedence es[j] es[i] = (precedence es[i] es[j]).swap := OrientedCmp.eq_swap
  cases hcompare : precedence es[i] es[j] with
  | lt => exact absurd (by rw [hswap, hcompare]; rfl) hge
  | gt => exact absurd hcompare hle
  | eq =>
    have hlt := hlt hcompare
    have hgt := hgt (by rw [hswap, hcompare]; rfl)
    omega

/-- In suggested order, every field may stand before the later ones. -/
theorem pairwise_order (es : List Extent) : (order es).Pairwise (MayPrecede es) := by
  have hsorted := List.pairwise_mergeSort (List.zipIdxLE_trans isLE_precedence_trans)
    (List.zipIdxLE_total isLE_precedence_total) es.zipIdx
  have hnodup : (order es).Nodup := (order_perm es).nodup_iff.2 List.nodup_range
  rw [order, mergeSort_zipIdx_fst fun a b => (precedence a b).isLE] at hnodup ⊢
  refine List.pairwise_map.2 ((hsorted.and (List.pairwise_map.1 hnodup)).imp_of_mem ?_)
  rintro ⟨a, i⟩ ⟨b, j⟩ hi hj ⟨hle, hne⟩ c hc d hd
  have ha : es[i]? = some a := List.mem_zipIdx_iff_getElem?.1 (List.mem_mergeSort.1 hi)
  have hb : es[j]? = some b := List.mem_zipIdx_iff_getElem?.1 (List.mem_mergeSort.1 hj)
  obtain rfl := Option.some.inj (ha.symm.trans hc)
  obtain rfl := Option.some.inj (hb.symm.trans hd)
  have hswap : precedence b a = (precedence a b).swap := OrientedCmp.eq_swap
  simp only [List.zipIdxLE, hswap] at hle
  cases hcompare : precedence a b with
  | lt => simp
  | gt => simp [hcompare] at hle
  | eq =>
    have hle : i ≤ j := by simpa [hcompare] using hle
    exact ⟨by simp, fun _ => Nat.lt_of_le_of_ne hle hne⟩

/-- No other order of the fields is like that. -/
theorem eq_order_of_pairwise {is : List Nat} (hperm : is.Perm (List.range es.length))
    (h : is.Pairwise (MayPrecede es)) : is = order es := by
  refine List.Perm.eq_of_pairwise ?_ h (pairwise_order es) (hperm.trans (order_perm es).symm)
  intro i j hi hj
  have hi := List.mem_range.1 (hperm.mem_iff.1 hi)
  have hj := List.mem_range.1 ((order_perm es).mem_iff.1 hj)
  exact MayPrecede.antisymm hi hj

/-- Fields in order stay where they are. -/
theorem order_of_pairwise (h : es.Pairwise fun a b => (precedence a b).isLE) : order es = List.range es.length := by
  have hsorted : es.zipIdx.Pairwise fun p q => (precedence p.1 q.1).isLE := by
    have hvalues : (es.zipIdx.map Prod.fst).Pairwise fun a b => (precedence a b).isLE := by rwa [List.zipIdx_map_fst]
    exact List.pairwise_map.1 hvalues
  rw [order, List.mergeSort_of_pairwise hsorted, List.zipIdx_map_snd, List.range_eq_range']

end Extent

/-! ## Fields -/

/-- The suggested order is a canonical stable sort. It names every field once; the comparison it sorts by is a total
    preorder; no field is to come later than one behind it, and fields that are level keep their order; no other order of
    the fields is like that; and fields in suggested order are suggested to stay as they are. -/
theorem suggestedOrder_canonical (m : Machine) (fields : List Field) :
    (suggestedOrder m fields).Perm (List.range fields.length) ∧
      ((∀ a b : Extent, a.precedence a = .eq ∧ b.precedence a = (a.precedence b).swap ∧
          ((a.precedence b).isLE ∨ (b.precedence a).isLE)) ∧
        ∀ a b c : Extent, (a.precedence b).isLE → (b.precedence c).isLE → (a.precedence c).isLE) ∧
      (suggestedOrder m fields).Pairwise (Extent.MayPrecede (extents m fields)) ∧
      (∀ is : List Nat, is.Perm (List.range fields.length) → is.Pairwise (Extent.MayPrecede (extents m fields)) →
        is = suggestedOrder m fields) ∧
      suggestedOrder m (reorder fields (suggestedOrder m fields)) = List.range fields.length := by
  have hlength : (extents m fields).length = fields.length := by simp
  have hperm := Extent.order_perm (extents m fields)
  rw [hlength] at hperm
  refine ⟨hperm, ⟨fun a b => ⟨ReflCmp.compare_self, OrientedCmp.eq_swap, ?_⟩, Extent.isLE_precedence_trans⟩,
    Extent.pairwise_order _, fun is his => Extent.eq_order_of_pairwise (hlength ▸ his), ?_⟩
  · exact Bool.or_eq_true_iff.1 (Extent.isLE_precedence_total a b)
  · have hsame : (reorder fields (suggestedOrder m fields)).length = fields.length := (reorder_perm m fields).length_eq
    have hsorted := Extent.order_of_pairwise (pairwise_isLE_suggestedOrder m fields)
    rwa [extents_eq_map, List.length_map, hsame, ← extents_eq_map] at hsorted

/-- Two pointers and a string among fields without references and without size. -/
def levelFields : List Field :=
  [⟨"count", .scalar .int64⟩, ⟨"next", .scalar .pointer⟩, ⟨"mark", .struct []⟩, ⟨"name", .scalar .string⟩,
   ⟨"last", .scalar .pointer⟩]

theorem suggestedOrder_canonical_level :
    [2, 1, 4, 3, 0].Perm (List.range levelFields.length) ∧
      [2, 1, 4, 3, 0].Pairwise (Extent.MayPrecede (extents .amd64 levelFields)) ∧
      suggestedOrder .amd64 levelFields = [2, 1, 4, 3, 0] ∧
      suggestedOrder .amd64 (reorder levelFields [2, 1, 4, 3, 0]) = [0, 1, 2, 3, 4] := by
  have hperm : [2, 1, 4, 3, 0].Perm (List.range levelFields.length) := by decide
  have hpairwise : [2, 1, 4, 3, 0].Pairwise (Extent.MayPrecede (extents .amd64 levelFields)) := by decide
  obtain ⟨-, -, -, hunique, hagain⟩ := suggestedOrder_canonical .amd64 levelFields
  have horder := hunique _ hperm hpairwise
  rw [← horder] at hagain
  exact ⟨hperm, hpairwise, horder.symm, hagain⟩

end StructPadding
