-- SUMMARY: Regular expressions over characters, their languages, and the longest prefix one of several matches.

/-!
# Regular expressions

A regular expression denotes the set of words that `Matches` gives it. Matching takes the derivative of an
expression by one character at a time, which keeps exactly the words that may follow that character
(`matches_derive_iff`).
-/

namespace StructPadding

/-- A set of characters: those within one of the ranges, or those within none of them. -/
structure CharSet where
  ranges : List (Char × Char)
  complement : Bool := false
  deriving DecidableEq, Repr

def CharSet.contains (s : CharSet) (c : Char) : Bool :=
  s.ranges.any (fun r => r.1 ≤ c && c ≤ r.2) != s.complement

inductive Regex
  /-- No word. -/
  | nothing
  /-- The empty word. -/
  | empty
  | one (s : CharSet)
  | seq (a b : Regex)
  | alt (a b : Regex)
  /-- Any number of words in a row. -/
  | many (a : Regex)
  deriving DecidableEq, Repr

namespace Regex

instance : Append Regex := ⟨.seq⟩
instance : HOr Regex Regex Regex := ⟨.alt⟩

/-- Exactly the characters of a text, in order. -/
def word (s : String) : Regex := s.toList.foldr (fun c r => .one ⟨[(c, c)], false⟩ ++ r) .empty

/-- One of the characters of a text. -/
def anyOf (s : String) : Regex := .one ⟨s.toList.map fun c => (c, c), false⟩

/-- A character that is none of a text. -/
def noneOf (s : String) : Regex := .one ⟨s.toList.map fun c => (c, c), true⟩

/-- One character of a range. -/
def range (first last : Char) : Regex := .one ⟨[(first, last)], false⟩

def plus (a : Regex) : Regex := a ++ .many a

def opt (a : Regex) : Regex := a ||| .empty

/-! ## Language -/

/-- The words in the language of an expression. -/
inductive Matches : Regex → List Char → Prop
  | empty : Matches .empty []
  | one {s : CharSet} {c : Char} : s.contains c = true → Matches (.one s) [c]
  | seq {a b : Regex} {u v : List Char} : Matches a u → Matches b v → Matches (.seq a b) (u ++ v)
  | altLeft {a b : Regex} {u : List Char} : Matches a u → Matches (.alt a b) u
  | altRight {a b : Regex} {u : List Char} : Matches b u → Matches (.alt a b) u
  | manyNil {a : Regex} : Matches (.many a) []
  | manyAppend {a : Regex} {u v : List Char} :
      Matches a u → Matches (.many a) v → Matches (.many a) (u ++ v)

@[simp] theorem not_matches_nothing {w : List Char} : ¬ Matches .nothing w := nofun

@[simp] theorem matches_empty_iff {w : List Char} : Matches .empty w ↔ w = [] :=
  ⟨fun | .empty => rfl, fun h => h ▸ .empty⟩

@[simp] theorem matches_one_iff {s : CharSet} {w : List Char} :
    Matches (.one s) w ↔ ∃ c, s.contains c = true ∧ w = [c] :=
  ⟨fun | .one h => ⟨_, h, rfl⟩, fun ⟨_, h, e⟩ => e ▸ .one h⟩

theorem matches_seq_iff {a b : Regex} {w : List Char} :
    Matches (.seq a b) w ↔ ∃ u v, Matches a u ∧ Matches b v ∧ w = u ++ v :=
  ⟨fun | .seq hu hv => ⟨_, _, hu, hv, rfl⟩, fun ⟨_, _, hu, hv, e⟩ => e ▸ .seq hu hv⟩

@[simp] theorem matches_alt_iff {a b : Regex} {w : List Char} :
    Matches (.alt a b) w ↔ Matches a w ∨ Matches b w :=
  ⟨fun | .altLeft h => .inl h | .altRight h => .inr h, fun h => h.elim .altLeft .altRight⟩

/-- A nonempty word of a repetition starts with a nonempty word of what is repeated. -/
theorem matches_many_cons {a : Regex} {c : Char} {w : List Char} (h : Matches (.many a) (c :: w)) :
    ∃ u v, Matches a (c :: u) ∧ Matches (.many a) v ∧ w = u ++ v := by
  generalize hr : Regex.many a = r at h
  generalize hx : c :: w = x at h
  induction h with
  | manyNil => cases hx
  | @manyAppend b u v hu hv _ ih =>
    cases u with
    | nil => exact ih hr hx
    | cons d u =>
      simp only [List.cons_append, List.cons.injEq] at hx
      obtain ⟨rfl, rfl⟩ := hx
      cases hr
      exact ⟨u, v, hu, hv, rfl⟩
  | empty => cases hr
  | one => cases hr
  | seq => cases hr
  | altLeft => cases hr
  | altRight => cases hr

/-! ## Derivatives -/

/-- Whether the empty word is in the language. -/
def nullable : Regex → Bool
  | .nothing | .one _ => false
  | .empty | .many _ => true
  | .seq a b => a.nullable && b.nullable
  | .alt a b => a.nullable || b.nullable

/-- A sequence, shortened where one part is trivial. -/
def consSeq (a b : Regex) : Regex :=
  match a with
  | .nothing => .nothing
  | .empty => b
  | a => .seq a b

/-- A choice, shortened where one part is trivial. -/
def consAlt (a b : Regex) : Regex :=
  match a, b with
  | .nothing, b => b
  | a, .nothing => a
  | a, b => .alt a b

/-- What may follow the character `c`. -/
def derive (c : Char) : Regex → Regex
  | .nothing | .empty => .nothing
  | .one s => if s.contains c then .empty else .nothing
  | .seq a b =>
    let first := consSeq (a.derive c) b
    if a.nullable then consAlt first (b.derive c) else first
  | .alt a b => consAlt (a.derive c) (b.derive c)
  | .many a => consSeq (a.derive c) (.many a)

theorem nullable_iff (r : Regex) : r.nullable = true ↔ Matches r [] := by
  induction r with
  | nothing => simp [nullable]
  | empty => simp [nullable]
  | one s => simp [nullable]
  | seq a b iha ihb => simp [nullable, matches_seq_iff, iha, ihb]
  | alt a b iha ihb => simp [nullable, iha, ihb]
  | many a _ => simp [nullable, Matches.manyNil]

theorem matches_consSeq_iff {a b : Regex} {w : List Char} :
    Matches (consSeq a b) w ↔ Matches (.seq a b) w := by
  unfold consSeq; split <;> simp [matches_seq_iff]

theorem matches_consAlt_iff {a b : Regex} {w : List Char} :
    Matches (consAlt a b) w ↔ Matches (.alt a b) w := by
  unfold consAlt; split <;> simp

/-- The derivative by `c` holds exactly the words that complete `c` to a word of the language. -/
theorem matches_derive_iff {c : Char} {r : Regex} {w : List Char} :
    Matches (r.derive c) w ↔ Matches r (c :: w) := by
  induction r generalizing w with
  | nothing => simp [derive]
  | empty => simp [derive]
  | one s =>
    by_cases hs : s.contains c = true <;>
      grind [derive, matches_one_iff, matches_empty_iff, not_matches_nothing]
  | alt a b iha ihb => simp [derive, matches_consAlt_iff, iha, ihb]
  | many a ih =>
    simp only [derive, matches_consSeq_iff, matches_seq_iff, ih]
    constructor
    · rintro ⟨u, v, hu, hv, rfl⟩
      exact .manyAppend hu hv
    · intro h
      obtain ⟨u, v, hu, hv, rfl⟩ := matches_many_cons h
      exact ⟨u, v, hu, hv, rfl⟩
  | seq a b iha ihb =>
    have first : (∃ u v, Matches a (c :: u) ∧ Matches b v ∧ w = u ++ v) ∨ (Matches a [] ∧ Matches b (c :: w)) ↔
        Matches (.seq a b) (c :: w) := by
      rw [matches_seq_iff]
      constructor
      · rintro (⟨u, v, hu, hv, rfl⟩ | ⟨hu, hv⟩)
        · exact ⟨c :: u, v, hu, hv, rfl⟩
        · exact ⟨[], _, hu, hv, rfl⟩
      · rintro ⟨u, v, hu, hv, h⟩
        cases u with
        | nil => exact .inr ⟨hu, by simpa [h] using hv⟩
        | cons d u =>
          simp only [List.cons_append, List.cons.injEq] at h
          obtain ⟨rfl, rfl⟩ := h
          exact .inl ⟨u, v, hu, hv, rfl⟩
    rw [← first]
    by_cases hn : a.nullable = true
    · simp [derive, hn, matches_consAlt_iff, matches_consSeq_iff, matches_seq_iff, iha, ihb, ← nullable_iff]
    · simp [derive, hn, matches_consSeq_iff, matches_seq_iff, iha, ← nullable_iff]

/-! ## Longest match -/

/-- The derivatives of labelled expressions, without those that have no word left. -/
def advance {α : Type} (c : Char) (live : List (α × Regex)) : List (α × Regex) :=
  live.filterMap fun (a, r) =>
    match r.derive c with
    | .nothing => none
    | r => some (a, r)

/-- The length of the longest prefix that one of the expressions matches, with the label of the first
    expression that matches it. -/
def longest {α : Type} (live : List (α × Regex)) : List Char → Option (α × Nat)
  | [] => here
  | c :: cs =>
    match advance c live with
    | [] => here
    | next =>
      match longest next cs with
      | some (a, n) => some (a, n + 1)
      | none => here
where
  here : Option (α × Nat) := (live.find? (·.2.nullable)).map fun (a, _) => (a, 0)

end Regex

end StructPadding
