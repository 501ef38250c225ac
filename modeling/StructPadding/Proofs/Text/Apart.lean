-- SUMMARY: Expressions told apart by characters: the first ones of their words, or ones that only one of them has.
import StructPadding.Proofs.Text.Matching

/-!
# Apart

Whether two expressions have a word in common can mostly be seen from their characters. Either no set that has first
characters of the one meets such a set of the other, or every word of the one has a character of a few that the other
avoids. Where an expression is a choice, this is seen for each alternative by itself.
-/

namespace StructPadding

theorem CharSet.contains_iff_exists {s : CharSet} (hs : s.complement = false) {c : Char} :
    s.contains c = true ↔ ∃ r ∈ s.ranges, r.1 ≤ c ∧ c ≤ r.2 := by
  simp [contains, hs]

/-- Whether two sets are given by ranges of which no two meet. -/
def CharSet.apart (s t : CharSet) : Bool :=
  !s.complement && !t.complement && s.ranges.all fun r => t.ranges.all fun q => r.2 < q.1 || q.2 < r.1

theorem CharSet.not_contains_of_apart {s t : CharSet} {c : Char} (h : s.apart t = true) (hs : s.contains c = true) :
    ¬ t.contains c = true := by
  simp only [apart, Bool.and_eq_true, Bool.not_eq_true', List.all_eq_true, Bool.or_eq_true, decide_eq_true_eq] at h
  obtain ⟨⟨hscomplement, htcomplement⟩, hranges⟩ := h
  intro ht
  obtain ⟨r, hr, hrc, hcr⟩ := (contains_iff_exists hscomplement).1 hs
  obtain ⟨q, hq, hqc, hcq⟩ := (contains_iff_exists htcomplement).1 ht
  rcases hranges r hr q hq with hlt | hlt
  · exact Char.not_lt.2 (Char.le_trans hqc hcr) hlt
  · exact Char.not_lt.2 (Char.le_trans hrc hcq) hlt

namespace Regex

/-! ## First characters -/

/-- The sets of the first characters of words. -/
def heads : Regex → List CharSet
  | .nothing | .empty => []
  | .one s => [s]
  | .seq a b => if a.nullable then a.heads ++ b.heads else a.heads
  | .alt a b => a.heads ++ b.heads
  | .many a => a.heads

theorem exists_head_of_matches {r : Regex} {c : Char} {w : List Char} (h : Matches r (c :: w)) :
    ∃ s ∈ r.heads, s.contains c = true := by
  induction r generalizing w with
  | nothing => cases h
  | empty => cases h
  | one s =>
    obtain ⟨d, hd, heq⟩ := matches_one_iff.1 h
    exact ⟨s, List.mem_singleton_self s, List.head_eq_of_cons_eq heq ▸ hd⟩
  | seq a b iha ihb =>
    obtain ⟨u, v, hu, hv, heq⟩ := matches_seq_iff.1 h
    cases u with
    | nil =>
      obtain rfl : c :: w = v := heq
      obtain ⟨s, hs, hc⟩ := ihb hv
      exact ⟨s, by simp [heads, (nullable_iff a).2 hu, hs], hc⟩
    | cons d u =>
      obtain ⟨rfl, -⟩ := List.cons_eq_cons.1 heq
      obtain ⟨s, hs, hc⟩ := iha hu
      refine ⟨s, ?_, hc⟩
      simp only [heads]
      split
      · exact List.mem_append_left _ hs
      · exact hs
  | alt a b iha ihb =>
    rcases matches_alt_iff.1 h with h | h
    · exact (iha h).imp fun s hs => hs.imp_left (List.mem_append_left _)
    · exact (ihb h).imp fun s hs => hs.imp_left (List.mem_append_right _)
  | many a ih =>
    obtain ⟨u, v, hu, -, -⟩ := matches_many_cons h
    exact ih hu

/-! ## Required characters -/

/-- Whether every word has one of some characters. -/
def requires (cs : List Char) : Regex → Bool
  | .nothing => true
  | .empty | .many _ => false
  | .one s => !s.complement && s.ranges.all fun r => r.1 == r.2 && cs.contains r.1
  | .seq a b => a.requires cs || b.requires cs
  | .alt a b => a.requires cs && b.requires cs

theorem exists_mem_of_requires {cs : List Char} {r : Regex} {w : List Char} (h : r.requires cs = true)
    (hw : Matches r w) : ∃ c ∈ cs, c ∈ w := by
  induction hw with
  | empty | manyNil | manyAppend => cases h
  | @one s c hc =>
    simp only [requires, Bool.and_eq_true, Bool.not_eq_true', List.all_eq_true, beq_iff_eq,
      List.contains_iff_mem] at h
    obtain ⟨r, hr, hrc, hcr⟩ := (CharSet.contains_iff_exists h.1).1 hc
    obtain ⟨hone, hmem⟩ := h.2 r hr
    obtain rfl : r.1 = c := Char.le_antisymm hrc (hone ▸ hcr)
    exact ⟨r.1, hmem, List.mem_singleton_self _⟩
  | seq _ _ iha ihb =>
    rcases Bool.or_eq_true_iff.1 h with h | h
    · exact (iha h).imp fun c hc => hc.imp_right (List.mem_append_left _)
    · exact (ihb h).imp fun c hc => hc.imp_right (List.mem_append_right _)
  | altLeft _ ih => exact ih (Bool.and_eq_true_iff.1 h).1
  | altRight _ ih => exact ih (Bool.and_eq_true_iff.1 h).2

/-! ## Telling apart -/

/-- Whether all first characters of one expression differ from those of another one. -/
def headsApart (a b : Regex) : Bool := a.heads.all fun s => b.heads.all s.apart

/-- Whether words of one expression have characters, out of some list, that another one avoids. -/
def contrasts (marks : List (List Char)) (a b : Regex) : Bool :=
  marks.any fun cs => a.requires cs && cs.all b.avoids

/-- Whether characters tell the words of two expressions apart. -/
def toldApart (marks : List (List Char)) (a b : Regex) : Bool :=
  a.headsApart b || a.contrasts marks b || b.contrasts marks a

theorem not_matches_of_headsApart {a b : Regex} {w : List Char} (h : a.headsApart b = true) (hw : w ≠ [])
    (ha : Matches a w) : ¬ Matches b w := by
  intro hb
  obtain ⟨c, w, rfl⟩ := List.exists_cons_of_ne_nil hw
  obtain ⟨s, hs, hsc⟩ := exists_head_of_matches ha
  obtain ⟨t, ht, htc⟩ := exists_head_of_matches hb
  have hapart : s.apart t = true := List.all_eq_true.1 (List.all_eq_true.1 h s hs) t ht
  exact CharSet.not_contains_of_apart hapart hsc htc

theorem not_matches_of_contrasts {marks : List (List Char)} {a b : Regex} {w : List Char}
    (h : a.contrasts marks b = true) (ha : Matches a w) : ¬ Matches b w := by
  intro hb
  obtain ⟨cs, -, hcs⟩ := List.any_eq_true.1 h
  obtain ⟨hrequires, havoids⟩ := Bool.and_eq_true_iff.1 hcs
  obtain ⟨c, hc, hcw⟩ := exists_mem_of_requires hrequires ha
  exact not_mem_of_avoids (List.all_eq_true.1 havoids c hc) hb hcw

theorem not_matches_of_toldApart {marks : List (List Char)} {a b : Regex} {w : List Char}
    (h : a.toldApart marks b = true) (hw : w ≠ []) (ha : Matches a w) : ¬ Matches b w := by
  rcases Bool.or_eq_true_iff.1 h with h | hright
  · rcases Bool.or_eq_true_iff.1 h with hheads | hleft
    · exact not_matches_of_headsApart hheads hw ha
    · exact not_matches_of_contrasts hleft ha
  · exact fun hb => not_matches_of_contrasts hright hb ha

/-! ## Alternatives -/

/-- The alternatives of a choice, down to what is none. -/
def alternatives : Regex → List Regex
  | .alt a b => a.alternatives ++ b.alternatives
  | .nothing => [.nothing]
  | .empty => [.empty]
  | .one s => [.one s]
  | .seq a b => [.seq a b]
  | .many a => [.many a]

theorem matches_iff_alternatives {r : Regex} {w : List Char} : Matches r w ↔ ∃ a ∈ r.alternatives, Matches a w := by
  induction r with
  | alt a b iha ihb => simp only [matches_alt_iff, iha, ihb, alternatives, List.mem_append, or_and_right, exists_or]
  | _ => simp [alternatives]

/-- Two expressions that have a word in common have it in two alternatives that are not told apart. -/
theorem exists_alternatives_of_matches (marks : List (List Char)) {a b : Regex} {w : List Char} (hw : w ≠ [])
    (ha : Matches a w) (hb : Matches b w) :
    ∃ x ∈ a.alternatives, ∃ y ∈ b.alternatives, x.toldApart marks y = false ∧ Matches x w ∧ Matches y w := by
  obtain ⟨x, hx, hxw⟩ := matches_iff_alternatives.1 ha
  obtain ⟨y, hy, hyw⟩ := matches_iff_alternatives.1 hb
  refine ⟨x, hx, y, hy, ?_, hxw, hyw⟩
  exact Bool.eq_false_iff.2 fun h => not_matches_of_toldApart h hw hxw hyw

end Regex

end StructPadding
