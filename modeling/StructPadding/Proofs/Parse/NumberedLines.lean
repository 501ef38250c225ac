-- SUMMARY: The constants that the lines of a group stand for: their numbers, the values they repeat, and rejected lines.
import Mathlib.Data.List.Induction
import StructPadding.Proofs.Parse.ConstLines

/-!
# Numbered lines

The lines before a line of constants add a number to it, and values where it has none of its own. Completing the lines
of a group one after the other gives each its number and the values of the nearest line up to it that has any, or fails
at the first line that has nothing to repeat.
-/

namespace StructPadding.Parser

variable {lines : List ConstLine} {line : ConstLine}

/-! ## Completing lines -/

/-- The constants of a line behind others: numbered, and with the values of the last of those where the line has none of
    its own and no type. -/
def ConstLine.complete (line : ConstLine) (before : List ConstDecl) : Except Problem ConstDecl :=
  let previous := (before.getLast?.map (·.values)).getD []
  let values := if line.values.isEmpty && !line.isTyped then previous else line.values
  if values.isEmpty then .error ⟨.missingValue, line.span⟩
  else .ok ⟨line.names, values, before.length, line.span⟩

/-- The constants of the lines of a group. -/
def completed (lines : List ConstLine) : Except Problem (List ConstDecl) :=
  lines.foldlM (fun before line => (before ++ [·]) <$> line.complete before) []

theorem completed_concat {lines : List ConstLine} {decls : List ConstDecl} (h : completed lines = .ok decls)
    (line : ConstLine) : completed (lines ++ [line]) = (decls ++ [·]) <$> line.complete decls := by
  rw [completed, List.foldlM_append, ← completed, h]
  exact bind_pure ((decls ++ [·]) <$> line.complete decls)

theorem completed_of_prefix {lines all : List ConstLine} {e : Problem} (h : lines <+: all)
    (he : completed lines = .error e) : completed all = .error e := by
  obtain ⟨more, rfl⟩ := h
  rw [completed, List.foldlM_append, ← completed, he]
  rfl

/-! ## Numbers and values -/

/-- The values of the last of some lines that has any. -/
def lastValues (lines : List ConstLine) : List Expr :=
  ((lines.filter (!·.values.isEmpty)).getLast?.map (·.values)).getD []

/-- The constants of the lines of a group, each with its number, and with the values of the nearest line up to it that
    has any: its own, or those of a line before it. -/
def numbered (lines : List ConstLine) : List ConstDecl :=
  lines.mapIdx fun k line => ⟨line.names, lastValues (lines.take (k + 1)), k, line.span⟩

/-- Whether a line behind others is rejected: it has no values, and a type, or none before it has values. -/
def ConstLine.IsRejected (line : ConstLine) (before : List ConstLine) : Prop :=
  line.values = [] ∧ (line.isTyped = true ∨ ∀ l ∈ before, l.values = [])

/-- Whether no line of a group is rejected. -/
def NoneRejected (lines : List ConstLine) : Prop :=
  ∀ (k : Nat) (line : ConstLine), lines[k]? = some line → ¬ line.IsRejected (lines.take k)

theorem lastValues_concat (lines : List ConstLine) (line : ConstLine) :
    lastValues (lines ++ [line]) = if line.values.isEmpty then lastValues lines else line.values := by
  cases hline : line.values.isEmpty <;> simp [lastValues, List.filter_append, hline]

theorem lastValues_eq_nil_iff : lastValues lines = [] ↔ ∀ l ∈ lines, l.values = [] := by
  induction lines using List.reverseRecOn with
  | nil => simp [lastValues]
  | append_singleton ls line ih =>
    rw [lastValues_concat]
    cases hline : line.values with
    | nil => simp [ih, hline, or_imp, forall_and]
    | cons => simp [hline]

theorem numbered_concat (lines : List ConstLine) (line : ConstLine) :
    numbered (lines ++ [line]) =
      numbered lines ++ [⟨line.names, lastValues (lines ++ [line]), lines.length, line.span⟩] := by
  unfold numbered
  rw [List.mapIdx_concat]
  congr 1
  · refine List.mapIdx_eq_mapIdx_iff.2 fun k hk => ?_
    rw [List.take_append_of_le_length hk]
  · rw [List.take_of_length_le (by simp)]

theorem length_numbered (lines : List ConstLine) : (numbered lines).length = lines.length := List.length_mapIdx

/-- What a line repeats are the values of the nearest line before it that has any. -/
theorem previous_numbered (lines : List ConstLine) :
    ((numbered lines).getLast?.map (·.values)).getD [] = lastValues lines := by
  cases lines using List.reverseRecOn with
  | nil => rfl
  | append_singleton ls line => simp [numbered_concat]

theorem noneRejected_concat : NoneRejected (lines ++ [line]) ↔ NoneRejected lines ∧ ¬ line.IsRejected lines := by
  constructor
  · intro h
    refine ⟨fun k l hk => ?_, ?_⟩
    · have hlt := (List.getElem?_eq_some_iff.1 hk).1
      have hnot := h k l (by rw [List.getElem?_append_left hlt, hk])
      rwa [List.take_append_of_le_length (Nat.le_of_lt hlt)] at hnot
    · simpa using h lines.length line
  · rintro ⟨hfront, hlast⟩ k l hk
    rcases Nat.lt_or_ge k lines.length with hlt | hge
    · rw [List.take_append_of_le_length (Nat.le_of_lt hlt)]
      rw [List.getElem?_append_left hlt] at hk
      exact hfront k l hk
    · rw [List.getElem?_append_right hge] at hk
      obtain ⟨hone, rfl⟩ := List.getElem?_eq_some_iff.1 hk
      obtain rfl : k = lines.length := by
        rw [List.length_singleton] at hone
        omega
      simpa using hlast

theorem complete_numbered_eq (line : ConstLine) (lines : List ConstLine) :
    line.complete (numbered lines) =
      if (if line.values.isEmpty && !line.isTyped then lastValues lines else line.values).isEmpty then
        .error ⟨.missingValue, line.span⟩
      else .ok ⟨line.names, if line.values.isEmpty && !line.isTyped then lastValues lines else line.values,
        lines.length, line.span⟩ := by
  simp only [ConstLine.complete, previous_numbered, length_numbered]

/-- A line behind completed ones is completed where it is not rejected. -/
theorem complete_numbered (h : ¬ line.IsRejected lines) :
    line.complete (numbered lines) = .ok ⟨line.names, lastValues (lines ++ [line]), lines.length, line.span⟩ := by
  rw [complete_numbered_eq, lastValues_concat]
  cases hvalues : line.values with
  | cons => simp
  | nil =>
    obtain ⟨htyped, hsome⟩ := not_or.1 fun hor => h ⟨hvalues, hor⟩
    rw [← lastValues_eq_nil_iff] at hsome
    simp [htyped, hsome]

theorem complete_numbered_rejected (h : line.IsRejected lines) :
    line.complete (numbered lines) = .error ⟨.missingValue, line.span⟩ := by
  obtain ⟨hvalues, htyped | hnone⟩ := h
  · simp [complete_numbered_eq, hvalues, htyped]
  · simp [complete_numbered_eq, hvalues, lastValues_eq_nil_iff.2 hnone]

theorem completed_of_noneRejected (h : NoneRejected lines) : completed lines = .ok (numbered lines) := by
  induction lines using List.reverseRecOn with
  | nil => rfl
  | append_singleton ls line ih =>
    obtain ⟨hfront, hlast⟩ := noneRejected_concat.1 h
    rw [completed_concat (ih hfront), complete_numbered hlast, numbered_concat]
    rfl

/-- The first line that is rejected makes the group fail. -/
theorem completed_of_rejected {k : Nat} (hk : lines[k]? = some line) (hbefore : NoneRejected (lines.take k))
    (hline : line.IsRejected (lines.take k)) : completed lines = .error ⟨.missingValue, line.span⟩ := by
  have hone := completed_concat (completed_of_noneRejected hbefore) line
  rw [complete_numbered_rejected hline] at hone
  refine completed_of_prefix ⟨lines.drop (k + 1), ?_⟩ hone
  rw [List.append_assoc, List.singleton_append]
  obtain ⟨hlt, rfl⟩ := List.getElem?_eq_some_iff.1 hk
  rw [← List.drop_eq_getElem_cons hlt, List.take_append_drop]

theorem exists_rejected (h : ¬ NoneRejected lines) :
    ∃ k line, lines[k]? = some line ∧ NoneRejected (lines.take k) ∧ line.IsRejected (lines.take k) := by
  induction lines using List.reverseRecOn with
  | nil => exact absurd nofun h
  | append_singleton ls line ih =>
    by_cases hfront : NoneRejected ls
    · have hlast : line.IsRejected ls := not_not.1 fun hlast => h (noneRejected_concat.2 ⟨hfront, hlast⟩)
      exact ⟨ls.length, line, by simp, by simpa using hfront, by simpa using hlast⟩
    · obtain ⟨k, first, hk, hbefore, hfirst⟩ := ih hfront
      have hlt := (List.getElem?_eq_some_iff.1 hk).1
      refine ⟨k, first, by rw [List.getElem?_append_left hlt, hk], ?_, ?_⟩
      · rwa [List.take_append_of_le_length (Nat.le_of_lt hlt)]
      · rwa [List.take_append_of_le_length (Nat.le_of_lt hlt)]

theorem completed_eq_ok_iff {decls : List ConstDecl} :
    completed lines = .ok decls ↔ NoneRejected lines ∧ decls = numbered lines := by
  by_cases h : NoneRejected lines
  · rw [completed_of_noneRejected h]
    exact ⟨fun heq => ⟨h, (Except.ok.inj heq).symm⟩, fun heq => congrArg _ heq.2.symm⟩
  · obtain ⟨k, line, hk, hbefore, hline⟩ := exists_rejected h
    rw [completed_of_rejected hk hbefore hline]
    exact ⟨nofun, fun heq => absurd heq.1 h⟩

/-! ## Lines that are found -/

section

variable {found : List ConstLine} (h : List.Forall₂ ConstLine.IsFoundAs lines found)
include h

theorem exists_foundAs {k : Nat} (hk : lines[k]? = some line) : ∃ l, found[k]? = some l ∧ line.IsFoundAs l := by
  obtain ⟨hlt, rfl⟩ := List.getElem?_eq_some_iff.1 hk
  have hlt' : k < found.length := h.length_eq ▸ hlt
  exact ⟨found[k], List.getElem?_eq_getElem hlt', h.get hlt hlt'⟩

theorem exists_foundFor {k : Nat} (hk : found[k]? = some line) : ∃ l, lines[k]? = some l ∧ l.IsFoundAs line := by
  obtain ⟨hlt, rfl⟩ := List.getElem?_eq_some_iff.1 hk
  have hlt' : k < lines.length := h.length_eq ▸ hlt
  exact ⟨lines[k], List.getElem?_eq_getElem hlt', h.get hlt' hlt⟩

theorem lastValues_of_foundAs : lastValues found = lastValues lines := by
  have hvalues : found.map (·.values) = lines.map (·.values) := by
    induction h with
    | nil => rfl
    | cons hline _ ih => rw [List.map_cons, List.map_cons, ih, hline.1]
  have hmap (ls : List ConstLine) :
      lastValues ls = (((ls.map (·.values)).filter (!·.isEmpty)).getLast?).getD [] := by
    rw [lastValues, List.filter_map, List.getLast?_map]
    rfl
  rw [hmap, hmap, hvalues]

theorem isRejected_of_foundAs {l : ConstLine} (hline : line.IsFoundAs l) :
    l.IsRejected found ↔ line.IsRejected lines := by
  unfold ConstLine.IsRejected
  rw [← lastValues_eq_nil_iff, ← lastValues_eq_nil_iff, lastValues_of_foundAs h, hline.1]

theorem noneRejected_of_foundAs (hnone : NoneRejected lines) : NoneRejected found := by
  intro k l hl
  obtain ⟨line, hline, hfound⟩ := exists_foundFor h hl
  rw [isRejected_of_foundAs (List.forall₂_take k h) hfound]
  exact hnone k line hline

theorem numbered_of_foundAs : List.Forall₂ (fun decl made => made = { decl with span := made.span })
    (numbered lines) (numbered found) := by
  rw [List.forall₂_iff_get]
  refine ⟨by rw [length_numbered, length_numbered, h.length_eq], fun k hlt hlt' => ?_⟩
  rw [length_numbered] at hlt hlt'
  have hline : ConstLine.IsFoundAs lines[k] found[k] := h.get hlt hlt'
  simp only [numbered, List.get_eq_getElem, List.getElem_mapIdx, lastValues_of_foundAs (List.forall₂_take _ h)]
  rw [hline.1]

end

end StructPadding.Parser
