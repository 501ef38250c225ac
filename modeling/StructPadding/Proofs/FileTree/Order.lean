-- SUMMARY: The order between paths, and lists of paths in order without repetition.
import StructPadding.FileTree.Path

/-!
# Order between paths

Components are ordered, and so are lists of them. Paths are normalized by sorting them by their components and removing
those that repeat the one before, which leaves each list of components once.
-/

namespace StructPadding

open Std

/-! ## Sorting -/

section

variable {α : Type} {cmp : α → α → Ordering} [TransCmp cmp]

theorem isLE_or_isLE (a b : α) : (cmp a b).isLE || (cmp b a).isLE := by
  have hswap : cmp b a = (cmp a b).swap := OrientedCmp.eq_swap
  rw [hswap]
  cases cmp a b <;> rfl

theorem pairwise_mergeSort_isLE (l : List α) :
    (l.mergeSort fun a b => (cmp a b).isLE).Pairwise fun a b => (cmp a b).isLE :=
  List.pairwise_mergeSort (fun _ _ _ => TransCmp.isLE_trans) isLE_or_isLE l

end

/-! ## Components -/

namespace Component

def rank : Component → Nat
  | root => 0
  | current => 1
  | parent => 2
  | name _ => 3

def text : Component → String
  | name s => s
  | _ => ""

/-- Components are ordered by their kind, and names by their text. -/
theorem compare_eq_compareLex (a b : Component) :
    compare a b = compareLex (compareOn rank) (compareOn text) a b := by
  cases a <;> cases b <;> first
    | rfl
    | exact (ReflOrd.compare_self (a := "")).symm
    | exact Ordering.then_eq

instance : TransOrd Component where
  eq_swap {a b} := by
    rw [compare_eq_compareLex, compare_eq_compareLex]
    exact OrientedCmp.eq_swap
  isLE_trans {a b c} := by
    rw [compare_eq_compareLex, compare_eq_compareLex, compare_eq_compareLex]
    exact TransCmp.isLE_trans

theorem compare_name (a b : String) : compare (name a) (name b) = compare a b := Ordering.then_eq

instance : LawfulEqOrd Component where
  compare_self {a} := ReflCmp.compare_self
  eq_of_compare {a b} h := by
    cases a <;> cases b <;> first
      | rfl
      | cases h
      | exact congrArg name (LawfulEqCmp.eq_of_compare ((compare_name ..).symm.trans h))

end Component

/-! ## Paths -/

namespace Path

theorem same_iff {p q : Path} : p.same q = true ↔ p.components = q.components := by simp [same]

theorem compare_eq_iff {p q : Path} : p.compare q = .eq ↔ p.components = q.components := Std.compare_eq_iff_eq

instance : TransCmp Path.compare where
  eq_swap {p q} := OrientedOrd.eq_swap (a := p.components) (b := q.components)
  isLE_trans {p q r} := TransOrd.isLE_trans (a := p.components) (b := q.components) (c := r.components)

theorem dedup_sublist (ps : List Path) : (dedup ps).Sublist ps := by
  fun_induction dedup ps with
  | case1 => exact .refl _
  | case2 => exact .refl _
  | case3 p q rest h ih => exact ih.trans ((List.sublist_cons_self q rest).cons_cons p)
  | case4 p q rest h ih => exact ih.cons_cons p

/-- A list in order from which repetitions are removed goes up. -/
theorem pairwise_dedup {ps : List Path} (h : ps.Pairwise fun p q => (p.compare q).isLE) :
    (dedup ps).Pairwise fun p q => p.compare q = .lt := by
  fun_induction dedup ps with
  | case1 => exact .nil
  | case2 p => exact .cons (by simp) .nil
  | case3 p q rest _ ih => exact ih (h.sublist ((List.sublist_cons_self q rest).cons_cons p))
  | case4 p q rest hne ih =>
    obtain ⟨hp, hrest⟩ := List.pairwise_cons.1 h
    refine .cons (fun r hr => ?_) (ih hrest)
    have hlt : p.compare q = .lt :=
      (Ordering.isLE_iff_eq_lt_or_eq_eq.1 (hp q (List.mem_cons_self ..))).resolve_right fun heq =>
        hne (same_iff.2 (compare_eq_iff.1 heq))
    have hle : (q.compare r).isLE := by
      rcases List.mem_cons.1 ((dedup_sublist _).subset hr) with rfl | hr
      · rw [compare_eq_iff.2 rfl]
        rfl
      · exact (List.pairwise_cons.1 hrest).1 r hr
    exact TransCmp.lt_of_lt_of_isLE hlt hle

theorem exists_mem_dedup {ps : List Path} {p : Path} (h : p ∈ ps) : ∃ q ∈ dedup ps, q.components = p.components := by
  fun_induction dedup ps generalizing p with
  | case1 => cases h
  | case2 q => exact ⟨p, h, rfl⟩
  | case3 q r rest hsame ih =>
    rcases List.mem_cons.1 h with rfl | h
    · exact ih (List.mem_cons_self ..)
    rcases List.mem_cons.1 h with rfl | h
    · obtain ⟨s, hs, heq⟩ := ih (List.mem_cons_self ..)
      exact ⟨s, hs, heq.trans (same_iff.1 hsame)⟩
    · exact ih (List.mem_cons_of_mem _ h)
  | case4 q r rest hne ih =>
    rcases List.mem_cons.1 h with rfl | h
    · exact ⟨p, List.mem_cons_self .., rfl⟩
    · obtain ⟨s, hs, heq⟩ := ih h
      exact ⟨s, List.mem_cons_of_mem _ hs, heq⟩

/-- Normalized paths go up. -/
theorem pairwise_normalize (ps : List Path) : (normalize ps).Pairwise fun p q => p.compare q = .lt :=
  pairwise_dedup (pairwise_mergeSort_isLE ps)

/-- Paths that go up are normalized. -/
theorem normalize_eq_self {ps : List Path} (h : ps.Pairwise fun p q => p.compare q = .lt) : normalize ps = ps := by
  have hdedup : dedup ps = ps := by
    fun_induction dedup ps with
    | case1 => rfl
    | case2 => rfl
    | case3 p q rest hsame _ =>
      have hlt := (List.pairwise_cons.1 h).1 q (List.mem_cons_self ..)
      rw [compare_eq_iff.2 (same_iff.1 hsame)] at hlt
      cases hlt
    | case4 p q rest _ ih => rw [ih (List.pairwise_cons.1 h).2]
  rw [normalize, List.mergeSort_of_pairwise (h.imp fun hlt => by rw [hlt]; rfl), hdedup]

theorem mem_of_mem_normalize {ps : List Path} {p : Path} (h : p ∈ normalize ps) : p ∈ ps :=
  List.mem_mergeSort.1 ((dedup_sublist _).subset h)

theorem exists_mem_normalize {ps : List Path} {p : Path} (h : p ∈ ps) :
    ∃ q ∈ normalize ps, q.components = p.components := exists_mem_dedup (List.mem_mergeSort.2 h)

end Path

end StructPadding
