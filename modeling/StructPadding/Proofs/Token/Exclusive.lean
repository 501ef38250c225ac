-- SUMMARY: A text has one class, but that a keyword is an identifier too.
import Mathlib.Data.List.Nodup
import StructPadding.Proofs.Text.Apart
import StructPadding.Proofs.Token.Comment

/-!
# Exclusive classes

No two patterns have a text in common, but for those of keywords and of identifiers. Keywords, symbols and newlines are
single texts, which can be tried with the other patterns. These are told apart by characters, but for those of comments,
and for what is closed and what is left open.
-/

namespace StructPadding.Token

open Regex (Matches)

/-! ## Open and closed texts -/

namespace Pattern

/-- What is closed is not left open. -/
theorem not_matches_open {mark : String} {c : Char} (hmark : mark.toList = [c]) {a : Regex}
    (ha : Regex.IsPrefixCode a) (hc : ∀ u, ¬ Matches a (c :: u)) {w : List Char}
    (hclosed : Matches (.word mark ++ .many a ++ .word mark) w) : ¬ Matches (.word mark ++ .many a) w := by
  simp only [Regex.matches_append_iff, Regex.matches_word_iff, hmark] at hclosed ⊢
  obtain ⟨_, _, ⟨_, body, rfl, hbody, rfl⟩, rfl, rfl⟩ := hclosed
  rintro ⟨_, longer, rfl, hlonger, h⟩
  have hsame : body ++ [c] = longer := by simpa using h
  exact Regex.not_matches_many_append ha hc hbody (hsame ▸ hlonger)

theorem not_matches_openRune {w : List Char} (h : Matches rune w) : ¬ Matches openRune w := by
  have hmark : "'".toList = ['\''] := rfl
  exact not_matches_open hmark (isPrefixCode_quotedChar "'") (not_matches_quotedChar_mark hmark (by decide)) h

theorem not_matches_openString {w : List Char} (h : Matches (openString ++ .word "\"") w) :
    ¬ Matches openString w := by
  have hmark : "\"".toList = ['"'] := rfl
  exact not_matches_open hmark (isPrefixCode_quotedChar "\"") (not_matches_quotedChar_mark hmark (by decide)) h

theorem not_matches_openRawString {w : List Char} (h : Matches (openRawString ++ .word "`") w) :
    ¬ Matches openRawString w := by
  have hmark : "`".toList = ['`'] := rfl
  exact not_matches_open hmark (isPrefixCode_noneOf "`") (fun u hu => by grind [Regex.matches_noneOf_iff]) h

/-! ## Comments -/

/-- A text without a closing mark that does not end in a star. -/
structure IsInner (w : List Char) : Prop where
  hasNoClose : HasNoClose w
  last : '*' ∉ w.getLast?

theorem IsInner.append {u v : List Char} (hu : IsInner u) (hv : HasNoClose v) : HasNoClose (u ++ v) :=
  List.isChain_append.2 ⟨hu.hasNoClose, hv, fun _ hc _ _ h => hu.last (h.1 ▸ hc)⟩

/-- A character other than a star, with stars before it where it is no slash. -/
theorem isInner_of_matches {w : List Char} (h : Matches (.noneOf "*" ||| (.plus (.word "*") ++ .noneOf "*/")) w) :
    IsInner w := by
  rcases Regex.matches_or_iff.1 h with h | h
  · obtain ⟨c, hc, rfl⟩ := Regex.matches_noneOf_iff.1 h
    exact ⟨List.isChain_singleton c, fun hlast => hc (by simpa using hlast)⟩
  · obtain ⟨stars, _, hstars, hend, rfl⟩ := Regex.matches_append_iff.1 h
    obtain ⟨c, hc, rfl⟩ := Regex.matches_noneOf_iff.1 hend
    have hstretch : IsStretch stars := isStretch_of_matches (u := []) .manyNil hstars
    constructor
    · refine List.isChain_append.2 ⟨hstretch.hasNoClose, List.isChain_singleton c, fun _ _ d hd h => hc ?_⟩
      have hsame : c = d := by simpa using hd
      simp [hsame, h.2]
    · intro hlast
      obtain rfl : c = '*' := by simpa [List.getLast?_append] using hlast
      exact hc (by decide)

theorem isInner_of_matches_many {w : List Char}
    (h : Matches (.many (.noneOf "*" ||| (.plus (.word "*") ++ .noneOf "*/"))) w) : IsInner w := by
  induction h using Matches.many_induction with
  | nil => exact ⟨.nil, by simp⟩
  | @append u v hu _ ih =>
    have hfirst := isInner_of_matches hu
    refine ⟨hfirst.append ih.hasNoClose, fun hlast => ?_⟩
    rw [List.getLast?_append] at hlast
    cases hv : v.getLast? with
    | none => exact hfirst.last (by simpa [hv] using hlast)
    | some c => exact ih.last (by simpa [hv] using hlast)

/-- No closing mark stands behind the opening mark of a comment that is left open. -/
theorem hasNoClose_of_openBlockComment {w : List Char} (h : Matches openBlockComment w) :
    ∃ body, w = '/' :: '*' :: body ∧ HasNoClose body := by
  obtain ⟨_, stars, hbegin, hstars, rfl⟩ := Regex.matches_append_iff.1 h
  obtain ⟨_, inner, hopen, hinner, rfl⟩ := Regex.matches_append_iff.1 hbegin
  obtain rfl := Regex.matches_word_iff.1 hopen
  have hplain : ∀ c ∈ stars, c ≠ '/' :=
    Regex.forall_mem_of_matches_many (fun _ hw => by grind [Regex.matches_word_iff]) hstars
  exact ⟨inner ++ stars, rfl, (isInner_of_matches_many hinner).append (hasNoClose_of_forall (.inr hplain))⟩

theorem not_matches_openBlockComment {w : List Char} (h : Matches blockComment w) :
    ¬ Matches openBlockComment w := by
  intro hopen
  obtain ⟨body, rfl, -⟩ := isBlockComment_of_matches h
  obtain ⟨_, heq, hnoClose⟩ := hasNoClose_of_openBlockComment hopen
  obtain rfl := List.tail_eq_of_cons_eq (List.tail_eq_of_cons_eq heq)
  have hlast : HasNoClose ['*', '/'] := hnoClose.right_of_append
  exact (List.isChain_cons_cons.1 hlast).1 ⟨rfl, rfl⟩

/-- The second character tells comments of the two kinds apart. -/
theorem not_matches_of_lineComment {w : List Char} (h : Matches lineComment w) :
    ¬ Matches blockComment w ∧ ¬ Matches openBlockComment w := by
  have hmarks : ¬ ['/', '*'] <+: w := by
    intro hblock
    exact absurd (List.prefix_of_prefix_length_le (begins_lineComment w h) hblock (Nat.le_refl 2)) (by decide)
  exact ⟨fun h => hmarks (begins_blockComment w h), fun h => hmarks (begins_openBlockComment w h)⟩

/-! ## Patterns told apart -/

/-- The characters that some numbers have and others have not. -/
def numberMarks : List (List Char) := ["xX".toList, "bB".toList, "oO".toList, ".eE".toList, "i".toList]

/-- Expressions that no single character tells apart. -/
def rivals : List (Regex × Regex) :=
  [(rune, openRune), (openString ++ .word "\"", openString), (openRawString ++ .word "`", openRawString),
   (blockComment, openBlockComment), (lineComment, blockComment), (lineComment, openBlockComment)]

theorem not_matches_rival {a b : Regex} (h : (a, b) ∈ rivals) {w : List Char} (ha : Matches a w) : ¬ Matches b w := by
  simp only [rivals, List.mem_cons, List.not_mem_nil, or_false, Prod.mk.injEq] at h
  rcases h with ⟨rfl, rfl⟩ | ⟨rfl, rfl⟩ | ⟨rfl, rfl⟩ | ⟨rfl, rfl⟩ | ⟨rfl, rfl⟩ | ⟨rfl, rfl⟩
  · exact not_matches_openRune ha
  · exact not_matches_openString ha
  · exact not_matches_openRawString ha
  · exact not_matches_openBlockComment ha
  · exact (not_matches_of_lineComment ha).1
  · exact (not_matches_of_lineComment ha).2

end Pattern

/-! ## Classes -/

namespace Category

/-- The classes with a single text, and their texts. -/
def fixed : List (Category × String) :=
  Keyword.all.map (fun k => (.keyword k, k.spelling)) ++ Symbol.all.map (fun s => (.symbol s, s.spelling)) ++
    [(.newline, "\n")]

/-- The classes with more than one text. -/
def varied : List Category :=
  [.identifier, .literal .int, .literal .float, .literal .imaginary, .literal .rune, .literal .string, .blockComment,
   .blank, .unclosed]

theorem fixed_or_varied {category : Category} {w : List Char} (h : Matches category.pattern w) :
    (∃ s, (category, s) ∈ fixed ∧ w = s.toList) ∨ category ∈ varied := by
  have hkeyword (k : Keyword) : k ∈ Keyword.all := by cases k <;> decide
  have hsymbol (s : Symbol) : s ∈ Symbol.all := by cases s <;> decide
  rcases category with k | s | _ | form | _ | _ | _ | _ | _
  case keyword => exact .inl ⟨_, by simp [fixed, hkeyword], Regex.matches_word_iff.1 h⟩
  case symbol => exact .inl ⟨_, by simp [fixed, hsymbol], Regex.matches_word_iff.1 h⟩
  case newline => exact .inl ⟨_, by simp [fixed], Regex.matches_word_iff.1 h⟩
  case literal => exact .inr (by cases form <;> decide)
  case stray => exact absurd h Regex.not_matches_nothing
  all_goals exact .inr (by decide)

theorem nodup_fixed : (fixed.map (·.2)).Nodup := by decide +kernel

/-- Whether a class takes precedence over another one that has the same text. -/
def Overrides (a b : Category) : Prop := b = .identifier ∧ ∃ k, a = .keyword k

/-- Keywords are the only fixed texts that another pattern has too. -/
theorem fixed_rejected : ∀ p ∈ fixed, ∀ b ∈ varied,
    b.pattern.accepts p.2.toList = true → b = .identifier ∧ ∃ k ∈ Keyword.all, p.1 = .keyword k := by
  decide +kernel

/-- Alternatives of two classes are told apart by characters or are known rivals. -/
theorem apart_of_varied : ∀ a ∈ varied, ∀ b ∈ varied, a ≠ b →
    ∀ x ∈ a.pattern.alternatives, ∀ y ∈ b.pattern.alternatives,
      x.toldApart Pattern.numberMarks y = true ∨ (x, y) ∈ Pattern.rivals ∨ (y, x) ∈ Pattern.rivals := by
  decide +kernel

theorem eq_of_varied {a b : Category} (ha : a ∈ varied) (hb : b ∈ varied) {w : List Char} (hw : w ≠ [])
    (haw : Matches a.pattern w) (hbw : Matches b.pattern w) : a = b := by
  by_contra hne
  obtain ⟨x, hx, y, hy, hshared, hxw, hyw⟩ :=
    Regex.exists_alternatives_of_matches Pattern.numberMarks hw haw hbw
  rcases apart_of_varied a ha b hb hne x hx y hy with happart | hrival | hrival
  · exact Bool.false_ne_true (hshared.symm.trans happart)
  · exact Pattern.not_matches_rival hrival hxw hyw
  · exact Pattern.not_matches_rival hrival hyw hxw

theorem overrides_of_fixed {a b : Category} {s : String} (ha : (a, s) ∈ fixed) (hb : b ∈ varied)
    (h : Matches b.pattern s.toList) : a.Overrides b := by
  obtain ⟨hidentifier, k, -, hk⟩ := fixed_rejected (a, s) ha b hb (Regex.accepts_iff.2 h)
  exact ⟨hidentifier, k, hk⟩

/-- Two classes of a text are the same, or they are a keyword and the identifiers. -/
theorem eq_or_overrides {a b : Category} {w : List Char} (hw : w ≠ []) (ha : Matches a.pattern w)
    (hb : Matches b.pattern w) : a = b ∨ a.Overrides b ∨ b.Overrides a := by
  rcases fixed_or_varied ha with ⟨s, hs, rfl⟩ | ha'
  · rcases fixed_or_varied hb with ⟨t, ht, hst⟩ | hb'
    · have hsame := List.inj_on_of_nodup_map nodup_fixed hs ht (String.toList_inj.1 hst)
      exact .inl (congrArg Prod.fst hsame)
    · exact .inr (.inl (overrides_of_fixed hs hb' hb))
  · rcases fixed_or_varied hb with ⟨t, ht, rfl⟩ | hb'
    · exact .inr (.inr (overrides_of_fixed ht ha' ha))
    · exact .inl (eq_of_varied ha' hb' hw ha hb)

end Category

/-- A text that is a keyword has the class of one: the patterns of keywords come first. -/
theorem exists_keyword_of_classify {k : Keyword} {w : List Char} {category : Category} (h : classify w = some category)
    (hk : Matches (Category.keyword k).pattern w) : ∃ k', category = .keyword k' := by
  obtain ⟨keywords, more, hall, hkeywords⟩ : ∃ keywords more, Pattern.all = keywords ++ more ∧
      ∀ c r, (c, r) ∈ keywords ↔ ∃ k ∈ Keyword.all, (Category.keyword k, Regex.word k.spelling) = (c, r) :=
    ⟨_, _, by simp only [Pattern.all, List.append_assoc]; rfl, fun _ _ => List.mem_map⟩
  have hmem : (Category.keyword k, Regex.word k.spelling) ∈ keywords :=
    (hkeywords _ _).2 ⟨k, by cases k <;> decide, rfl⟩
  cases hlabel : Regex.label keywords w with
  | none => exact absurd hk (Regex.label_eq_none_iff.1 hlabel _ _ hmem)
  | some found =>
    obtain ⟨r, hr, -⟩ := Regex.exists_of_label hlabel
    obtain ⟨k', -, heq⟩ := (hkeywords _ _).1 hr
    have hfound : classify w = some found := by
      rw [classify, hall]
      exact Regex.label_append_of_some hlabel more
    exact ⟨k', (Option.some.inj (h.symm.trans hfound)).trans (congrArg Prod.fst heq).symm⟩

/-- A class of a text is the one that the text is given exactly if no other class takes precedence over it. -/
theorem classify_eq_some_iff {category : Category} {w : List Char} (hw : w ≠ []) :
    classify w = some category ↔
      Matches category.pattern w ∧ ∀ other : Category, Matches other.pattern w →
        other = category ∨ category.Overrides other := by
  constructor
  · intro h
    have hcategory := matches_of_classify h
    refine ⟨hcategory, fun other hother => ?_⟩
    rcases Category.eq_or_overrides hw hcategory hother with heq | hover | ⟨rfl, k, rfl⟩
    · exact .inl heq.symm
    · exact .inr hover
    · obtain ⟨k', hk'⟩ := exists_keyword_of_classify h hother
      cases hk'
  · rintro ⟨hcategory, honly⟩
    cases h : classify w with
    | none => exact absurd hcategory (classify_eq_none_iff.1 h category)
    | some other =>
      rcases honly other (matches_of_classify h) with rfl | ⟨rfl, k, rfl⟩
      · rfl
      · obtain ⟨k', hk'⟩ := exists_keyword_of_classify h hcategory
        cases hk'

end StructPadding.Token
