-- SUMMARY: The line and the column of a byte are what one counts on the way to it, and lead back to it.
import Mathlib.Data.List.Induction
import StructPadding.Source.Lines

/-!
# Lines and columns

On the way to a byte one begins at the first column of the first line; a newline leads to the next line, and any other
character to the next column. The line and the column that one arrives at are those of the byte: as many lines end in
front of it, and as many characters stand between the end of the last one and the byte. So no two bytes at which
characters begin have the same line and column.
-/

namespace StructPadding

theorem utf8ByteSize_ofList (cs : List Char) : (String.ofList cs).utf8ByteSize = Line.byteLength cs := by
  induction cs with
  | nil => rfl
  | cons c cs ih =>
    rw [String.ofList_cons, String.utf8ByteSize_append, String.utf8ByteSize_singleton, ih, Line.byteLength_cons]

namespace Line

/-! ## Cutting -/

/-- The first line goes on to a newline or to the end. -/
theorem exists_cut_eq (cs : List Char) : ∃ l rest, cut cs = l :: rest ∧ (rest ≠ [] → l ≠ []) := by
  cases cs with
  | nil => exact ⟨[], [], rfl, fun h => absurd rfl h⟩
  | cons c cs =>
    obtain ⟨l, rest, hcut⟩ := List.exists_cons_of_ne_nil (cut_ne_nil cs)
    by_cases hc : c = '\n'
    · exact ⟨[c], cut cs, by simp [cut, hc], fun _ => List.cons_ne_nil _ _⟩
    · exact ⟨c :: l, rest, by simp [cut, hc, hcut], fun _ => List.cons_ne_nil _ _⟩

/-- Characters that are no newlines belong to the line that comes behind them. -/
theorem cut_append {u cs : List Char} {l : List Char} {rest : List (List Char)} (hu : '\n' ∉ u)
    (h : cut cs = l :: rest) : cut (u ++ cs) = (u ++ l) :: rest := by
  induction u with
  | nil => exact h
  | cons c u ih =>
    simp only [List.mem_cons, not_or] at hu
    rw [List.cons_append, cut, if_neg (Ne.symm hu.1), ih hu.2]
    rfl

/-- A newline ends a line. -/
theorem cut_newline {u : List Char} (hu : '\n' ∉ u) (cs : List Char) :
    cut (u ++ '\n' :: cs) = (u ++ ['\n']) :: cut cs := cut_append hu (by simp [cut])

/-! ## Finding -/

theorem charsWithin_append (u l : List Char) : charsWithin (byteLength u) (u ++ l) = u.length := by
  induction u with
  | nil =>
    cases l with
    | nil => rfl
    | cons c l => simp [charsWithin, Nat.not_le.2 c.utf8Size_pos]
  | cons c u ih => simp [charsWithin, ih]

/-- The line of a byte, if it is not in front of the first one. -/
theorem containing_cons {l : Line} {offset : Nat} (h : l.start ≤ offset) (rest : List Line) :
    containing (l :: rest) offset = ((rest.takeWhile (·.start ≤ offset)).getLast?).getD l := by
  simp [containing, h, List.getLast?_cons]

/-- The first line does not matter to a byte that is not in front of the second one. -/
theorem containing_cons_cons {l l' : Line} {offset : Nat} (h : l.start ≤ offset) (h' : l'.start ≤ offset)
    (rest : List Line) : containing (l :: l' :: rest) offset = containing (l' :: rest) offset := by
  rw [containing_cons h, containing_cons h', List.takeWhile_cons_of_pos (by simpa using h'), List.getLast?_cons]
  rfl

end Line

namespace Location

/-- The place behind a character. -/
def advance (place : Location) (c : Char) : Location :=
  if c = '\n' then ⟨place.line + 1, 1⟩ else ⟨place.line, place.column + 1⟩

open Line

/-- From a place in a line on, the line and the column of a byte are what one counts on the way to it. -/
theorem ofOffset_numbered {u : List Char} (hu : '\n' ∉ u) (number start : Nat) (as bs : List Char) :
    ofOffset (numbered number start (cut (u ++ (as ++ bs)))) (start + byteLength u + byteLength as) =
      as.foldl advance ⟨number, u.length + 1⟩ := by
  induction as generalizing u number start with
  | nil =>
    obtain ⟨l, rest, hcut, hne⟩ := exists_cut_eq bs
    have hcontaining : containing (numbered number start ((u ++ l) :: rest)) (start + byteLength u) =
        ⟨number, start, u ++ l⟩ := by
      rw [numbered, containing_cons (Nat.le_add_right ..)]
      cases rest with
      | nil => rfl
      | cons l' rest =>
        have hpos : 0 < byteLength l := by
          obtain ⟨c, l, rfl⟩ := List.exists_cons_of_ne_nil (hne (List.cons_ne_nil _ _))
          exact Nat.lt_of_lt_of_le c.utf8Size_pos (Nat.le_add_right ..)
        have hbehind : ¬ start + byteLength (u ++ l) ≤ start + byteLength u := by
          rw [byteLength_append]
          omega
        rw [numbered, List.takeWhile_cons_of_neg (by simpa using hbehind)]
        rfl
    rw [List.nil_append, cut_append hu hcut]
    simp [ofOffset, hcontaining, charsWithin_append]
  | cons c as ih =>
    by_cases hc : c = '\n'
    · subst hc
      have hnext := ih (u := []) List.not_mem_nil (number + 1) (start + byteLength (u ++ ['\n']))
      obtain ⟨l, rest, hcut, -⟩ := exists_cut_eq (as ++ bs)
      simp only [List.nil_append, hcut, numbered, byteLength_nil] at hnext
      have hoffset : start + byteLength u + byteLength ('\n' :: as) =
          start + byteLength (u ++ ['\n']) + 0 + byteLength as := by
        simp only [byteLength_cons, byteLength_append, byteLength_nil]
        omega
      rw [List.cons_append, cut_newline hu, hcut, hoffset, ofOffset, numbered, numbered,
        containing_cons_cons (by dsimp only; omega) (by dsimp only; omega)]
      exact hnext
    · have hmore := ih (u := u ++ [c]) (by simp [hu, Ne.symm hc]) number start
      simpa [advance, hc, Nat.add_assoc] using hmore

/-- The line and the column of a byte are what one counts on the way to it. -/
theorem ofOffset_append (before after : String) :
    ofOffset (ofSource (before ++ after)) before.utf8ByteSize = before.toList.foldl advance ⟨1, 1⟩ := by
  have hcount := ofOffset_numbered (u := []) List.not_mem_nil 1 0 before.toList after.toList
  rw [← utf8ByteSize_ofList before.toList, String.ofList_toList] at hcount
  simpa [ofSource] using hcount

/-! ## Pointing -/

/-- Whether a place points at a word in a text, at a byte: the lines above it end in newlines and are one less than its
    line says, and between them and the word stand as many characters of its line as its column says, but one. -/
def PointsAt (place : Location) (text : String) (offset : Nat) (word : String) : Prop :=
  ∃ above indent rest : String, text = above ++ indent ++ word ++ rest ∧
    (∀ c ∈ above.toList.getLast?, c = '\n') ∧ above.toList.count '\n' + 1 = place.line ∧
    '\n' ∉ indent.toList ∧ indent.length + 1 = place.column ∧ (above ++ indent).utf8ByteSize = offset

/-- What one counts on the way to a byte: the newlines, and the characters behind the last of them. -/
theorem exists_of_foldl_advance (cs : List Char) : ∃ above indent, cs = above ++ indent ∧
    (∀ c ∈ above.getLast?, c = '\n') ∧ '\n' ∉ indent ∧
      cs.foldl advance ⟨1, 1⟩ = ⟨above.count '\n' + 1, indent.length + 1⟩ := by
  induction cs using List.reverseRecOn with
  | nil => exact ⟨[], [], rfl, by simp, by simp, rfl⟩
  | append_singleton cs c ih =>
    obtain ⟨above, indent, rfl, hends, hindent, hfold⟩ := ih
    rw [List.foldl_append, hfold]
    by_cases hc : c = '\n'
    · subst hc
      refine ⟨above ++ indent ++ ['\n'], [], by simp, by simp, List.not_mem_nil, ?_⟩
      simp [advance, List.count_append, List.count_eq_zero.2 hindent]
    · exact ⟨above, indent ++ [c], by simp, hends, by simp [hindent, Ne.symm hc], by simp [advance, hc]⟩

/-- The line and the column of a byte point at the word that begins there. -/
theorem pointsAt_ofOffset (before word after : String) :
    (ofOffset (ofSource (before ++ word ++ after)) before.utf8ByteSize).PointsAt (before ++ word ++ after)
      before.utf8ByteSize word := by
  obtain ⟨above, indent, hsplit, hends, hindent, hfold⟩ := exists_of_foldl_advance before.toList
  have hbefore : before = String.ofList above ++ String.ofList indent := by
    rw [← String.ofList_append, ← hsplit, String.ofList_toList]
  have hplace := ofOffset_append before (word ++ after)
  rw [← String.append_assoc, hfold] at hplace
  rw [hplace]
  exact ⟨.ofList above, .ofList indent, after, by rw [← hbefore], by simpa using hends, by simp, by simpa using hindent,
    by simp, by rw [← hbefore]⟩

/-- Nothing comes behind a newline in what ends in a newline and has no more of them. -/
theorem eq_nil_of_count {above more : List Char} (hends : ∀ c ∈ (above ++ more).getLast?, c = '\n')
    (hcount : (above ++ more).count '\n' = above.count '\n') : more = [] := by
  rcases List.eq_nil_or_concat more with rfl | ⟨init, c, rfl⟩
  · rfl
  · obtain rfl : c = '\n' := hends c (by simp [← List.append_assoc])
    simp [List.count_append] at hcount

/-- A place points at words at one byte of a text at most. -/
theorem PointsAt.offset_unique {place : Location} {text word word' : String} {a b : Nat}
    (h : place.PointsAt text a word) (h' : place.PointsAt text b word') : a = b := by
  obtain ⟨above, indent, rest, rfl, hends, hline, -, hcolumn, rfl⟩ := h
  obtain ⟨above', indent', rest', htext, hends', hline', -, hcolumn', rfl⟩ := h'
  have hlist := congrArg String.toList htext
  simp only [String.toList_append, List.append_assoc] at hlist
  have habove : above = above' := by
    rcases List.append_eq_append_iff.1 hlist with ⟨more, hmore, -⟩ | ⟨more, hmore, -⟩
    · rw [hmore] at hends' hline'
      rw [eq_nil_of_count hends' (by omega), List.append_nil] at hmore
      exact (String.toList_inj.1 hmore).symm
    · rw [hmore] at hends hline
      rw [eq_nil_of_count hends (by omega), List.append_nil] at hmore
      exact String.toList_inj.1 hmore
  subst habove
  have hlength : indent.toList.length = indent'.toList.length := by
    rw [String.length_toList, String.length_toList]
    omega
  rw [String.toList_inj.1 (List.append_inj_left (List.append_cancel_left hlist) hlength)]

end Location

end StructPadding
