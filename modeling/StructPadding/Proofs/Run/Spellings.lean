-- SUMMARY: Normalized paths: each list of components once, in the spelling that comes first.
import Mathlib.Data.List.Sort
import StructPadding.Proofs.Run.Grouping

/-!
# Spellings

Different paths may have the same components. Of those in a list, normalizing keeps the one that comes first, since
sorting does not change their order. So what the normal list is depends on the first spelling of each path only, and up
to spelling only on which paths there are.
-/

namespace StructPadding

open Std

namespace Path

instance : Std.Irrefl fun p q : Path => p.compare q = .lt where
  irrefl _ h := absurd (h.symm.trans ReflCmp.compare_self) nofun

instance : Std.Antisymm fun p q : Path => p.compare q = .lt where
  antisymm _ _ h h' := absurd (h'.symm.trans (OrientedCmp.gt_of_lt h)) nofun

/-- The path in a list that has the components of a given one, as it is spelled first. -/
def spelling? (ps : List Path) (p : Path) : Option Path := ps.find? fun q => q.components = p.components

theorem spelling?_cons (q : Path) (qs : List Path) (p : Path) :
    spelling? (q :: qs) p = if q.components = p.components then some q else spelling? qs p := by
  simp only [spelling?, List.find?_cons]
  split <;> simp_all

theorem spelling?_append (ps qs : List Path) (p : Path) :
    spelling? (ps ++ qs) p = (spelling? ps p).or (spelling? qs p) := List.find?_append

theorem spelling?_congr {p q : Path} (h : p.components = q.components) (ps : List Path) :
    spelling? ps p = spelling? ps q := by
  simp only [spelling?, h]

theorem of_spelling? {ps : List Path} {p q : Path} (h : spelling? ps p = some q) :
    q ∈ ps ∧ q.components = p.components :=
  ⟨List.mem_of_find?_eq_some h, by simpa using List.find?_some h⟩

theorem spelling?_eq_none {ps : List Path} {p : Path} :
    spelling? ps p = none ↔ ∀ q ∈ ps, q.components ≠ p.components := by
  simp [spelling?]

/-- Sorting does not change how a path is spelled first. -/
theorem spelling?_mergeSort (ps : List Path) (p : Path) :
    spelling? (ps.mergeSort fun p q => (p.compare q).isLE) p = spelling? ps p := by
  rw [spelling?, spelling?, ← List.head?_filter, ← List.head?_filter,
    Run.filter_mergeSort (fun p q => compare_eq_iff (p := p) (q := q))]

/-- Of the paths with the same components, the first one stays when repetitions are removed from a list in order. -/
theorem spelling?_of_mem_dedup {ps : List Path} (h : ps.Pairwise fun p q => (p.compare q).isLE) {r : Path}
    (hr : r ∈ dedup ps) : spelling? ps r = some r := by
  fun_induction dedup ps with
  | case1 => cases hr
  | case2 p =>
    obtain rfl := List.mem_singleton.1 hr
    exact (spelling?_cons ..).trans (if_pos rfl)
  | case3 p q rest hsame ih =>
    have hfirst := ih (h.sublist ((List.sublist_cons_self q rest).cons_cons p)) hr
    rw [same_iff] at hsame
    rw [spelling?_cons] at hfirst
    rw [spelling?_cons, spelling?_cons, ← hsame]
    split <;> simp_all
  | case4 p q rest hne ih =>
    have hup := pairwise_dedup h
    rw [dedup, if_neg hne] at hup
    rw [spelling?_cons]
    rcases List.mem_cons.1 hr with rfl | hr
    · exact if_pos rfl
    · have hp : p.components ≠ r.components := fun heq =>
        absurd ((compare_eq_iff.2 heq).symm.trans ((List.pairwise_cons.1 hup).1 r hr)) nofun
      rw [if_neg hp]
      exact ih (List.pairwise_cons.1 h).2 hr

/-- The normal list has the first spelling of each path. -/
theorem mem_normalize_iff {ps : List Path} {p : Path} : p ∈ normalize ps ↔ spelling? ps p = some p := by
  have hfirst {q : Path} (hq : q ∈ normalize ps) : spelling? ps q = some q := by
    rw [← spelling?_mergeSort]
    exact spelling?_of_mem_dedup (pairwise_mergeSort_isLE ps) hq
  refine ⟨hfirst, fun h => ?_⟩
  obtain ⟨q, hq, hsame⟩ := exists_mem_normalize (of_spelling? h).1
  have heq := hfirst hq
  rw [spelling?_congr hsame, h] at heq
  cases heq
  exact hq

/-- Lists in which every path is spelled alike first have the same normal list. -/
theorem normalize_congr {ps qs : List Path} (h : ∀ p, spelling? ps p = spelling? qs p) : normalize ps = normalize qs :=
  (pairwise_normalize ps).eq_of_mem_iff (pairwise_normalize qs) fun p => by
    rw [mem_normalize_iff, mem_normalize_iff, h]

/-! ## Other orders -/

/-- Whether no path is spelled in two ways. -/
def SpelledAlike (ps : List Path) : Prop := ∀ p ∈ ps, ∀ q ∈ ps, p.components = q.components → p = q

/-- The order of paths none of which is spelled in two ways makes no difference. -/
theorem SpelledAlike.spelling?_perm {ps qs : List Path} (h : SpelledAlike ps) (hperm : ps.Perm qs) (p : Path) :
    spelling? ps p = spelling? qs p := by
  cases hps : spelling? ps p with
  | none => exact (spelling?_eq_none.2 fun q hq => spelling?_eq_none.1 hps q (hperm.mem_iff.2 hq)).symm
  | some r =>
    obtain ⟨hr, hcomponents⟩ := of_spelling? hps
    cases hqs : spelling? qs p with
    | none => exact absurd hcomponents (spelling?_eq_none.1 hqs r (hperm.mem_iff.1 hr))
    | some r' =>
      obtain ⟨hr', hcomponents'⟩ := of_spelling? hqs
      rw [h r hr r' (hperm.mem_iff.2 hr') (hcomponents.trans hcomponents'.symm)]

/-- Lists of such paths may each be in another order. -/
theorem normalize_flatten_congr {pss qss : List (List Path)}
    (h : List.Forall₂ (fun ps qs => SpelledAlike ps ∧ ps.Perm qs) pss qss) :
    normalize pss.flatten = normalize qss.flatten := by
  refine normalize_congr fun p => ?_
  induction h with
  | nil => rfl
  | cons hhead _ ih =>
    rw [List.flatten_cons, List.flatten_cons, spelling?_append, spelling?_append, hhead.1.spelling?_perm hhead.2, ih]

/-- Up to spelling, the normal list depends only on which paths there are. -/
theorem map_components_normalize_congr {ps qs : List Path}
    (h : ∀ c, c ∈ ps.map components ↔ c ∈ qs.map components) :
    (normalize ps).map components = (normalize qs).map components := by
  have hup (ps : List Path) : ((normalize ps).map components).Pairwise fun a b => Ord.compare a b = .lt :=
    List.pairwise_map.2 (pairwise_normalize ps)
  have hmem (ps : List Path) (c : List Component) : c ∈ (normalize ps).map components ↔ c ∈ ps.map components := by
    simp only [List.mem_map]
    refine ⟨fun ⟨p, hp, hc⟩ => ⟨p, mem_of_mem_normalize hp, hc⟩, fun ⟨p, hp, hc⟩ => ?_⟩
    obtain ⟨q, hq, hsame⟩ := exists_mem_normalize hp
    exact ⟨q, hq, hsame.trans hc⟩
  have : Std.Irrefl fun a b : List Component => Ord.compare a b = .lt :=
    ⟨fun _ h => absurd (h.symm.trans ReflOrd.compare_self) nofun⟩
  have : Std.Antisymm fun a b : List Component => Ord.compare a b = .lt :=
    ⟨fun _ _ h h' => absurd (h'.symm.trans (OrientedCmp.gt_of_lt h)) nofun⟩
  exact (hup ps).eq_of_mem_iff (hup qs) fun c => by rw [hmem, hmem, h]

end Path

end StructPadding
