-- SUMMARY: The words of an expression, the longest match as a law on prefixes, and where a match cannot go on.
import StructPadding.Text.Regex

/-!
# Matching

`Regex.longest` follows all expressions at once. What it finds is the longest prefix of a text that has a label, where
the label of a word is that of the first expression whose language has the word.

Where a match ends can be seen from the expressions: a character that none of their sets has is in no word, and a
repetition of a prefix code can be taken apart in one way only.
-/

namespace StructPadding.Regex

variable {α : Type}

/-! ## Words -/

@[simp] theorem matches_append_iff {a b : Regex} {w : List Char} :
    Matches (a ++ b) w ↔ ∃ u v, Matches a u ∧ Matches b v ∧ w = u ++ v := matches_seq_iff

@[simp] theorem matches_or_iff {a b : Regex} {w : List Char} : Matches (a ||| b) w ↔ Matches a w ∨ Matches b w :=
  matches_alt_iff

theorem contains_map_iff {cs : List Char} {complement : Bool} {d : Char} :
    (CharSet.mk (cs.map fun c => (c, c)) complement).contains d = true ↔ (d ∈ cs ↔ complement = false) := by
  have hany : (cs.map fun c => (c, c)).any (fun r => r.1 ≤ d && d ≤ r.2) = decide (d ∈ cs) := by
    rw [Bool.eq_iff_iff]
    simp only [List.any_map, List.any_eq_true, Function.comp_apply, Bool.and_eq_true, decide_eq_true_eq]
    exact ⟨fun ⟨c, hc, hcd, hdc⟩ => Char.le_antisymm hcd hdc ▸ hc, fun h => ⟨d, h, Char.le_refl d, Char.le_refl d⟩⟩
  simp only [CharSet.contains, hany]
  by_cases hd : d ∈ cs <;> simp [hd]

@[simp] theorem matches_anyOf_iff {s : String} {w : List Char} :
    Matches (anyOf s) w ↔ ∃ c, c ∈ s.toList ∧ w = [c] := by
  simp [anyOf, contains_map_iff]

@[simp] theorem matches_noneOf_iff {s : String} {w : List Char} :
    Matches (noneOf s) w ↔ ∃ c, c ∉ s.toList ∧ w = [c] := by
  simp [noneOf, contains_map_iff]

@[simp] theorem matches_word_iff {s : String} {w : List Char} : Matches (word s) w ↔ w = s.toList := by
  unfold word
  induction s.toList generalizing w with
  | nil => simp
  | cons c cs ih =>
    have hone (d : Char) : (CharSet.mk [(c, c)] false).contains d = true ↔ d = c := by
      simpa using @contains_map_iff [c] false d
    simp only [List.foldr_cons, matches_append_iff, matches_one_iff, hone, ih]
    constructor
    · rintro ⟨u, v, ⟨d, rfl, rfl⟩, rfl, rfl⟩
      rfl
    · rintro rfl
      exact ⟨[c], cs, ⟨c, rfl, rfl⟩, rfl, rfl⟩

/-- Induction on a repetition, word by word. -/
@[elab_as_elim]
theorem Matches.many_induction {a : Regex} {motive : (w : List Char) → Matches (.many a) w → Prop}
    (nil : motive [] .manyNil)
    (append : ∀ {u v : List Char} (hu : Matches a u) (hv : Matches (.many a) v),
      motive v hv → motive (u ++ v) (.manyAppend hu hv))
    {w : List Char} (h : Matches (.many a) w) : motive w h := by
  suffices hall : ∀ r, Matches r w → r = .many a → ∀ h, motive w h from hall _ h rfl h
  clear h
  intro r hw hr
  induction hw with
  | manyNil => exact fun _ => nil
  | manyAppend hu hv _ ih =>
    cases hr
    exact fun _ => append hu hv (ih rfl hv)
  | empty => cases hr
  | one => cases hr
  | seq => cases hr
  | altLeft => cases hr
  | altRight => cases hr

/-! ## Membership -/

/-- Whether a word is in the language. -/
def accepts (r : Regex) : List Char → Bool
  | [] => r.nullable
  | c :: w => (r.derive c).accepts w

theorem accepts_iff {r : Regex} {w : List Char} : r.accepts w = true ↔ Matches r w := by
  induction w generalizing r with
  | nil => exact nullable_iff r
  | cons c w ih => exact ih.trans matches_derive_iff

/-- The label of the first expression that has a word. -/
def label (live : List (α × Regex)) (w : List Char) : Option α := (live.find? (·.2.accepts w)).map (·.1)

theorem label_eq_none_iff {live : List (α × Regex)} {w : List Char} :
    label live w = none ↔ ∀ a r, (a, r) ∈ live → ¬ Matches r w := by
  simp [label, accepts_iff]

theorem exists_of_label {live : List (α × Regex)} {w : List Char} {a : α} (h : label live w = some a) :
    ∃ r, (a, r) ∈ live ∧ Matches r w := by
  obtain ⟨⟨b, r⟩, hfind, rfl⟩ := Option.map_eq_some_iff.1 h
  exact ⟨r, List.mem_of_find?_eq_some hfind, accepts_iff.1 (by simpa using List.find?_some hfind)⟩

theorem label_cons (a : α) (r : Regex) (live : List (α × Regex)) (w : List Char) :
    label ((a, r) :: live) w = if r.accepts w then some a else label live w := by
  by_cases h : r.accepts w = true <;> simp [label, h]

theorem label_append_of_some {live : List (α × Regex)} {w : List Char} {a : α} (h : label live w = some a)
    (more : List (α × Regex)) : label (live ++ more) w = some a := by
  obtain ⟨x, hx, rfl⟩ := Option.map_eq_some_iff.1 h
  simp [label, List.find?_append, hx]

/-- Following expressions over a character keeps the labels of what comes behind it. -/
theorem label_advance (c : Char) (live : List (α × Regex)) (w : List Char) :
    label (advance c live) w = label live (c :: w) := by
  induction live with
  | nil => rfl
  | cons x rest ih =>
    obtain ⟨a, r⟩ := x
    rw [label_cons, ← ih, accepts]
    by_cases hderive : r.derive c = .nothing
    · have hnothing : ¬ (Regex.nothing).accepts w = true := mt accepts_iff.1 not_matches_nothing
      simp [advance, hderive, hnothing]
    · rw [← label_cons]
      simp only [advance, List.filterMap_cons]

/-! ## Longest matches -/

theorem here_eq (live : List (α × Regex)) : longest.here live = (label live []).map fun a => (a, 0) := by
  simp [longest.here, label, accepts, Function.comp_def]

theorem longest_nil (live : List (α × Regex)) : longest live [] = (label live []).map fun a => (a, 0) := here_eq live

theorem longest_cons (live : List (α × Regex)) (c : Char) (cs : List Char) :
    longest live (c :: cs) =
      match longest (advance c live) cs with
      | some (a, n) => some (a, n + 1)
      | none => (label live []).map fun a => (a, 0) := by
  have hnone (ds : List Char) : longest ([] : List (α × Regex)) ds = none := by
    cases ds <;> rfl
  rw [← here_eq, longest]
  split
  · next hdead => rw [hdead, hnone]
  · rfl

/-- Nothing is found exactly where no prefix has a label. -/
theorem longest_eq_none_iff {live : List (α × Regex)} {cs : List Char} :
    longest live cs = none ↔ ∀ u, u <+: cs → label live u = none := by
  induction cs generalizing live with
  | nil => simp [longest_nil]
  | cons c cs ih =>
    rw [longest_cons]
    constructor
    · intro h u hu
      split at h
      · cases h
      · next hnext =>
        cases u with
        | nil => simpa using h
        | cons d u =>
          obtain ⟨rfl, hprefix⟩ := List.cons_prefix_cons.1 hu
          exact label_advance d live u ▸ ih.1 hnext u hprefix
    · intro h
      have hnext : longest (advance c live) cs = none :=
        ih.2 fun u hu => label_advance c live u ▸ h (c :: u) (List.cons_prefix_cons.2 ⟨rfl, hu⟩)
      simp [hnext, h [] List.nil_prefix]

/-- What is found is the longest prefix that has a label, with its label. -/
theorem longest_eq_some_iff {live : List (α × Regex)} {u v : List Char} {a : α} :
    longest live (u ++ v) = some (a, u.length) ↔
      label live u = some a ∧ ∀ w, w ≠ [] → w <+: v → label live (u ++ w) = none := by
  induction u generalizing live with
  | nil =>
    cases v with
    | nil =>
      simp only [List.append_nil, longest_nil, List.prefix_nil]
      constructor
      · intro h
        exact ⟨by simpa using h, fun w hw hnil => absurd hnil hw⟩
      · intro h
        simp [h.1]
    | cons c v =>
      rw [List.nil_append, longest_cons]
      constructor
      · intro h
        split at h
        · cases h
        · next hnext =>
          refine ⟨by simpa using h, fun w hw hwv => ?_⟩
          obtain ⟨d, w, rfl⟩ := List.exists_cons_of_ne_nil hw
          obtain ⟨rfl, hprefix⟩ := List.cons_prefix_cons.1 hwv
          exact label_advance d live w ▸ longest_eq_none_iff.1 hnext w hprefix
      · rintro ⟨hlabel, hlonger⟩
        have hnext : longest (advance c live) v = none := longest_eq_none_iff.2 fun w hw =>
          label_advance c live w ▸ hlonger (c :: w) (List.cons_ne_nil c w) (List.cons_prefix_cons.2 ⟨rfl, hw⟩)
        simp [hnext, hlabel]
  | cons c u ih =>
    have hstep : longest live (c :: u ++ v) = some (a, (c :: u).length) ↔
        longest (advance c live) (u ++ v) = some (a, u.length) := by
      rw [List.cons_append, longest_cons]
      split
      · next b n hnext => simp [hnext]
      · next hnext => simp [hnext]
    rw [hstep, ih]
    simp only [label_advance, List.cons_append]

/-- What is found is a prefix of the text. -/
theorem exists_append_of_longest {live : List (α × Regex)} {cs : List Char} {a : α} {n : Nat}
    (h : longest live cs = some (a, n)) : ∃ u v, cs = u ++ v ∧ u.length = n := by
  suffices hn : n ≤ cs.length from ⟨cs.take n, cs.drop n, (List.take_append_drop n cs).symm, List.length_take_of_le hn⟩
  induction cs generalizing live n with
  | nil =>
    obtain ⟨b, -, hb⟩ := Option.map_eq_some_iff.1 (longest_nil live ▸ h)
    cases hb
    exact Nat.le_refl 0
  | cons c cs ih =>
    rw [longest_cons] at h
    split at h
    · next b m hnext =>
      cases h
      exact Nat.succ_le_succ (ih hnext)
    · obtain ⟨b, -, hb⟩ := Option.map_eq_some_iff.1 h
      cases hb
      exact Nat.zero_le _

theorem matches_of_longest {live : List (α × Regex)} {cs : List Char} {a : α} {n : Nat}
    (h : longest live cs = some (a, n)) : ∃ r, (a, r) ∈ live ∧ Matches r (cs.take n) := by
  obtain ⟨u, v, rfl, rfl⟩ := exists_append_of_longest h
  simpa using exists_of_label (longest_eq_some_iff.1 h).1

/-! ## Where a match ends -/

/-- Whether no set of the expression has a character. -/
def avoids (c : Char) : Regex → Bool
  | .nothing | .empty => true
  | .one s => !s.contains c
  | .seq a b | .alt a b => a.avoids c && b.avoids c
  | .many a => a.avoids c

theorem not_mem_of_avoids {c : Char} {r : Regex} {w : List Char} (h : r.avoids c = true) (hw : Matches r w) : c ∉ w := by
  induction hw with
  | empty | manyNil => exact List.not_mem_nil
  | one hd =>
    simp only [avoids, Bool.not_eq_true'] at h
    rintro hc
    obtain rfl := List.mem_singleton.1 hc
    exact Bool.false_ne_true (h.symm.trans hd)
  | seq _ _ iha ihb =>
    simp only [avoids, Bool.and_eq_true] at h
    exact fun hc => (List.mem_append.1 hc).elim (iha h.1) (ihb h.2)
  | altLeft _ ih =>
    simp only [avoids, Bool.and_eq_true] at h
    exact ih h.1
  | altRight _ ih =>
    simp only [avoids, Bool.and_eq_true] at h
    exact ih h.2
  | manyAppend _ _ iha ihb => exact fun hc => (List.mem_append.1 hc).elim (iha h) (ihb h)

/-- What holds of all characters of the words of an expression holds of those of its repetitions. -/
theorem forall_mem_of_matches_many {a : Regex} {P : Char → Prop} (ha : ∀ u, Matches a u → ∀ c ∈ u, P c)
    {w : List Char} (h : Matches (.many a) w) : ∀ c ∈ w, P c := by
  induction h using Matches.many_induction with
  | nil => exact fun _ hc => absurd hc List.not_mem_nil
  | append hu _ ih => exact fun c hc => (List.mem_append.1 hc).elim (ha _ hu c) (ih c)

theorem matches_many_append {a : Regex} {u v : List Char} (hu : Matches (.many a) u) (hv : Matches (.many a) v) :
    Matches (.many a) (u ++ v) := by
  induction hu using Matches.many_induction with
  | nil => exact hv
  | append hfirst _ ih =>
    rw [List.append_assoc]
    exact .manyAppend hfirst ih

/-- Whether all words of an expression begin in the same way. -/
def Begins (s : List Char) (a : Regex) : Prop := ∀ w, Matches a w → s <+: w

theorem begins_word (s : String) : (word s).Begins s.toList := by
  intro w hw
  exact matches_word_iff.1 hw ▸ List.prefix_rfl

theorem Begins.append {s : List Char} {a : Regex} (h : a.Begins s) (b : Regex) : (a ++ b).Begins s := by
  intro w hw
  obtain ⟨u, v, hu, -, rfl⟩ := matches_append_iff.1 hw
  exact (h u hu).trans (List.prefix_append u v)

/-- Whether no word of the language goes on to another one. -/
def IsPrefixCode (a : Regex) : Prop :=
  ∀ u v x y, Matches a u → Matches a v → u ++ x = v ++ y → u = v

/-- A repetition of a prefix code that begins with one goes on with one. -/
theorem matches_many_of_append {a : Regex} (ha : IsPrefixCode a) {u v : List Char} (hu : Matches (.many a) u)
    (h : Matches (.many a) (u ++ v)) : Matches (.many a) v := by
  induction hu using Matches.many_induction with
  | nil => exact h
  | @append p q hp _ ih =>
    refine ih ?_
    rw [List.append_assoc] at h
    cases p with
    | nil => simpa using h
    | cons c p =>
      obtain ⟨p', rest, hp', hrest, heq⟩ := matches_many_cons h
      have hsame : c :: p = c :: p' := ha _ _ (q ++ v) rest hp hp' (congrArg (c :: ·) heq)
      cases hsame
      exact List.append_cancel_left heq ▸ hrest

/-- A repetition of a prefix code ends where a character stands that no word of it begins with. -/
theorem not_matches_many_append {a : Regex} (ha : IsPrefixCode a) {c : Char} (hc : ∀ u, ¬ Matches a (c :: u))
    {u v : List Char} (hu : Matches (.many a) u) : ¬ Matches (.many a) (u ++ c :: v) := by
  intro h
  obtain ⟨p, rest, hp, -, -⟩ := matches_many_cons (matches_many_of_append ha hu h)
  exact hc p hp

end StructPadding.Regex
