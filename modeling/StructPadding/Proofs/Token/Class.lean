-- SUMMARY: What the texts of each class of lexemes look like, and where the text of a token ends.
import StructPadding.Proofs.Text.Matching
import StructPadding.Token.Lexeme

/-!
# Classes

The class of a text is that of the first pattern that matches it. A lexeme is the longest prefix of the text in front
of it that has a class, so what stands behind a lexeme matters only where a pattern can go on over it. No pattern goes
on from the text of a token over a space.
-/

namespace StructPadding.Token

open Regex (Matches IsPrefixCode)

/-! ## Classes -/

/-- The expression for the texts of a class. -/
def Category.pattern : Category → Regex
  | .keyword k => .word k.spelling
  | .symbol s => .word s.spelling
  | .identifier => Pattern.identifier
  | .literal .int => Pattern.int
  | .literal .float => Pattern.float
  | .literal .imaginary => Pattern.imaginary
  | .literal .rune => Pattern.rune
  | .literal .string => Pattern.string
  | .newline => .word "\n"
  | .blockComment => Pattern.blockComment
  | .blank => Pattern.blanks ||| Pattern.lineComment
  | .unclosed => Pattern.openString ||| Pattern.openRawString ||| Pattern.openRune ||| Pattern.openBlockComment
  | .stray => .nothing

/-- The class of a text: that of the first pattern that matches it. -/
def classify (w : List Char) : Option Category := Regex.label Pattern.all w

theorem matches_pattern_iff {category : Category} {w : List Char} :
    Matches category.pattern w ↔ ∃ r, (category, r) ∈ Pattern.all ∧ Matches r w := by
  have hkeyword (k : Keyword) : k ∈ Keyword.all := by cases k <;> decide
  have hsymbol (s : Symbol) : s ∈ Symbol.all := by cases s <;> decide
  rcases category with k | s | _ | c | _ | _ | _ | _ | _
  case literal => cases c <;> simp [Pattern.all, Category.pattern]
  all_goals simp [Pattern.all, Category.pattern, hkeyword, hsymbol, or_and_right, exists_or]

theorem matches_of_classify {category : Category} {w : List Char} (h : classify w = some category) :
    Matches category.pattern w :=
  matches_pattern_iff.2 (Regex.exists_of_label h)

theorem classify_eq_none_iff {w : List Char} :
    classify w = none ↔ ∀ category : Category, ¬ Matches category.pattern w := by
  simp only [classify, Regex.label_eq_none_iff, matches_pattern_iff, not_exists, not_and]

/-- A lexeme is the longest prefix of a text that has a class. -/
theorem Lexeme.first_eq_iff {category : Category} (hstray : category ≠ .stray) {u v : List Char} (hu : u ≠ []) :
    first (u ++ v) = (category, u.length) ↔
      classify u = some category ∧ ∀ w, w ≠ [] → w <+: v → classify (u ++ w) = none := by
  refine Iff.trans ?_ Regex.longest_eq_some_iff
  obtain ⟨n, hn⟩ : ∃ n, u.length = n + 1 := Nat.exists_eq_succ_of_ne_zero (mt List.length_eq_zero_iff.1 hu)
  unfold first
  rw [hn]
  split
  · next hlongest => simp [hlongest]
  · next hnone =>
    constructor
    · intro h
      exact absurd (congrArg Prod.fst h).symm hstray
    · intro h
      exact absurd h (hnone category n)

/-- A nonempty text begins with a lexeme. -/
theorem Lexeme.exists_append_of_ne_nil {cs : List Char} (h : cs ≠ []) :
    ∃ u v, cs = u ++ v ∧ u ≠ [] ∧ u.length = (first cs).2 := by
  have hle : (first cs).2 ≤ cs.length := by
    unfold first
    split
    · next hlongest =>
      obtain ⟨u, v, rfl, hn⟩ := Regex.exists_append_of_longest hlongest
      simp only [List.length_append]
      omega
    · exact List.length_pos_iff.2 h
  have hlength : (cs.take (first cs).2).length = (first cs).2 := List.length_take_of_le hle
  refine ⟨cs.take (first cs).2, cs.drop (first cs).2, (List.take_append_drop ..).symm, ?_, hlength⟩
  exact List.ne_nil_of_length_pos (hlength.symm ▸ first_pos cs)

/-! ## Literals -/

namespace Pattern

theorem matches_quotedChar_iff {quote : String} {w : List Char} :
    Matches (quotedChar quote) w ↔
      (∃ c, c ∉ quote.toList ∧ c ≠ '\\' ∧ c ≠ '\n' ∧ w = [c]) ∨ ∃ c, c ≠ '\n' ∧ w = ['\\', c] := by
  refine Regex.matches_or_iff.trans (or_congr ?_ ?_)
  · simp [and_assoc]
  · rw [Regex.matches_append_iff]
    constructor
    · rintro ⟨u, v, hu, hv, rfl⟩
      obtain ⟨c, hc, rfl⟩ := Regex.matches_noneOf_iff.1 hv
      exact ⟨c, by simpa using hc, congrArg (· ++ [c]) (Regex.matches_word_iff.1 hu)⟩
    · rintro ⟨c, hc, rfl⟩
      exact ⟨['\\'], [c], Regex.matches_word_iff.2 rfl, Regex.matches_noneOf_iff.2 ⟨c, by simpa using hc, rfl⟩, rfl⟩

theorem isPrefixCode_quotedChar (quote : String) : IsPrefixCode (quotedChar quote) := by
  intro u v x y hu hv h
  rcases matches_quotedChar_iff.1 hu with ⟨c, -, hc, -, rfl⟩ | ⟨c, -, rfl⟩ <;>
    rcases matches_quotedChar_iff.1 hv with ⟨d, -, hd, -, rfl⟩ | ⟨d, -, rfl⟩
  · exact congrArg (fun e => [e]) (List.head_eq_of_cons_eq h)
  · exact absurd (List.head_eq_of_cons_eq h) hc
  · exact absurd (List.head_eq_of_cons_eq h).symm hd
  · exact congrArg (fun e => ['\\', e]) (List.head_eq_of_cons_eq (List.tail_eq_of_cons_eq h))

theorem isPrefixCode_noneOf (s : String) : IsPrefixCode (Regex.noneOf s) := by
  intro u v x y hu hv h
  obtain ⟨c, -, rfl⟩ := Regex.matches_noneOf_iff.1 hu
  obtain ⟨d, -, rfl⟩ := Regex.matches_noneOf_iff.1 hv
  simp_all

/-- A literal that has been closed does not go on, and is not the beginning of one that is left open. -/
theorem not_matches_delimited {mark : String} {c : Char} (hmark : mark.toList = [c]) {a : Regex} (ha : IsPrefixCode a)
    (hc : ∀ u, ¬ Matches a (c :: u)) {u v : List Char} (hu : Matches (.word mark ++ .many a ++ .word mark) u)
    (hv : v ≠ []) :
    ¬ Matches (.word mark ++ .many a) (u ++ v) ∧ ¬ Matches (.word mark ++ .many a ++ .word mark) (u ++ v) := by
  simp only [Regex.matches_append_iff, Regex.matches_word_iff, hmark] at hu ⊢
  obtain ⟨_, _, ⟨_, body, rfl, hbody, rfl⟩, rfl, rfl⟩ := hu
  constructor
  · rintro ⟨_, longer, rfl, hlonger, h⟩
    have hsame : body ++ c :: v = longer := by simpa using h
    exact Regex.not_matches_many_append ha hc hbody (hsame ▸ hlonger)
  · rintro ⟨_, _, ⟨_, longer, rfl, hlonger, rfl⟩, rfl, h⟩
    have hsame : body ++ c :: v = longer ++ [c] := by simpa using h
    have hinit : body ++ c :: v.dropLast = longer := by
      simpa [List.dropLast_append_of_ne_nil, List.dropLast_cons_of_ne_nil hv] using congrArg List.dropLast hsame
    exact Regex.not_matches_many_append ha hc hbody (hinit ▸ hlonger)

theorem not_matches_quotedChar_mark {mark : String} {c : Char} (hmark : mark.toList = [c]) (hc : c ≠ '\\')
    (u : List Char) : ¬ Matches (quotedChar mark) (c :: u) := by
  rw [matches_quotedChar_iff]
  rintro (⟨d, hd, -, -, h⟩ | ⟨d, -, h⟩)
  · exact hd (by simp [hmark, List.head_eq_of_cons_eq h])
  · exact hc (List.head_eq_of_cons_eq h)

theorem begins_openRune : openRune.Begins ['\''] := (Regex.begins_word "'").append _
theorem begins_rune : rune.Begins ['\''] := begins_openRune.append _
theorem begins_openString : openString.Begins ['"'] := (Regex.begins_word "\"").append _
theorem begins_openRawString : openRawString.Begins ['`'] := (Regex.begins_word "`").append _

theorem begins_blockComment : blockComment.Begins ['/', '*'] :=
  ((((Regex.begins_word "/*").append _).append _).append _).append _

theorem begins_openBlockComment : openBlockComment.Begins ['/', '*'] := ((Regex.begins_word "/*").append _).append _

theorem begins_lineComment : lineComment.Begins ['/', '/'] := (Regex.begins_word "//").append _

/-- Two characters that begin a text are the same. -/
theorem eq_of_begins {a : Regex} {c d : Char} {x w : List Char} (ha : a.Begins (c :: x)) (h : Matches a (d :: w)) :
    d = c ∧ x <+: w := (List.cons_prefix_cons.1 (ha _ h)).imp_left Eq.symm

theorem mark_of_string {c : Char} {w : List Char} (h : Matches string (c :: w)) : c = '"' ∨ c = '`' :=
  (Regex.matches_or_iff.1 h).imp (fun h => (eq_of_begins (begins_openString.append _) h).1)
    fun h => (eq_of_begins (begins_openRawString.append _) h).1

/-- A rune goes on to no literal, closed or open. -/
theorem not_matches_rune_append {u v : List Char} (hu : Matches rune u) (hv : v ≠ []) :
    ¬ Matches openRune (u ++ v) ∧ ¬ Matches rune (u ++ v) := by
  have hmark : "'".toList = ['\''] := rfl
  exact not_matches_delimited hmark (isPrefixCode_quotedChar "'") (not_matches_quotedChar_mark hmark (by decide)) hu hv

/-- A string goes on to no literal, closed or open. -/
theorem not_matches_string_append {u v : List Char} (hu : Matches string u) (hv : v ≠ []) :
    ¬ Matches openString (u ++ v) ∧ ¬ Matches openRawString (u ++ v) ∧ ¬ Matches string (u ++ v) := by
  have hmark : "\"".toList = ['"'] := rfl
  have hrawMark : "`".toList = ['`'] := rfl
  -- The two marks tell the two kinds of strings apart.
  have hmarks : ¬ (['"'] <+: u ++ v ∧ ['`'] <+: u ++ v) := by
    rintro ⟨hquote, hraw⟩
    exact absurd (List.prefix_of_prefix_length_le hquote hraw (Nat.le_refl 1)) (by decide)
  rcases Regex.matches_or_iff.1 hu with hu | hu
  · obtain ⟨hopen, hclosed⟩ := not_matches_delimited hmark (isPrefixCode_quotedChar "\"")
      (not_matches_quotedChar_mark hmark (by decide)) hu hv
    have hhead : ['"'] <+: u ++ v := (begins_openString.append _ u hu).trans (List.prefix_append u v)
    refine ⟨hopen, fun h => hmarks ⟨hhead, begins_openRawString _ h⟩, fun h => ?_⟩
    exact (Regex.matches_or_iff.1 h).elim hclosed fun h => hmarks ⟨hhead, begins_openRawString.append _ _ h⟩
  · obtain ⟨hopen, hclosed⟩ := not_matches_delimited hrawMark (isPrefixCode_noneOf "`")
      (fun w hw => by grind [Regex.matches_noneOf_iff]) hu hv
    have hhead : ['`'] <+: u ++ v := (begins_openRawString.append _ u hu).trans (List.prefix_append u v)
    refine ⟨fun h => hmarks ⟨begins_openString _ h, hhead⟩, hopen, fun h => ?_⟩
    exact (Regex.matches_or_iff.1 h).elim (fun h => hmarks ⟨begins_openString.append _ _ h, hhead⟩) hclosed

/-! ## Spaces -/

theorem forall_mem_of_matches_blanks {w : List Char} (h : Matches blanks w) : ∀ c ∈ w, c ∈ " \t\r\x0c".toList := by
  have hone : ∀ u, Matches (Regex.anyOf " \t\r\x0c") u → ∀ c ∈ u, c ∈ " \t\r\x0c".toList := by
    intro u hu c hc
    obtain ⟨d, hd, rfl⟩ := Regex.matches_anyOf_iff.1 hu
    exact List.mem_singleton.1 hc ▸ hd
  obtain ⟨u, v, hu, hv, rfl⟩ := Regex.matches_append_iff.1 h
  exact fun c hc => (List.mem_append.1 hc).elim (hone u hu c) (Regex.forall_mem_of_matches_many hone hv c)

/-- The texts with a space in them are runes, strings, comments and blanks. -/
theorem spaced_cases {category : Category} {c : Char} {w : List Char} (h : Matches category.pattern (c :: w))
    (hspace : ' ' ∈ c :: w) :
    (c = '\'' ∧ (Matches rune (c :: w) ∨ Matches openRune (c :: w))) ∨
      ((c = '"' ∨ c = '`') ∧
        (Matches string (c :: w) ∨ Matches openString (c :: w) ∨ Matches openRawString (c :: w))) ∨
      (c = '/' ∧ (['/'] <+: w ∨ ['*'] <+: w)) ∨ Matches blanks (c :: w) := by
  have havoids : ¬ category.pattern.avoids ' ' = true := fun hc => Regex.not_mem_of_avoids hc h hspace
  rcases category with k | s | _ | form | _ | _ | _ | _ | _
  case keyword => exact absurd (by cases k <;> decide +kernel) havoids
  case symbol => exact absurd (by cases s <;> decide +kernel) havoids
  case identifier => exact absurd (by decide +kernel) havoids
  case newline => exact absurd (by decide +kernel) havoids
  case literal =>
    cases form with
    | int => exact absurd (by decide +kernel) havoids
    | float => exact absurd (by decide +kernel) havoids
    | imaginary => exact absurd (by decide +kernel) havoids
    | rune => exact .inl ⟨(eq_of_begins begins_rune h).1, .inl h⟩
    | string => exact .inr (.inl ⟨mark_of_string h, .inl h⟩)
  case blockComment => exact .inr (.inr (.inl ((eq_of_begins begins_blockComment h).imp_right .inr)))
  case blank =>
    rcases Regex.matches_or_iff.1 h with h | h
    · exact .inr (.inr (.inr h))
    · exact .inr (.inr (.inl ((eq_of_begins begins_lineComment h).imp_right .inl)))
  case unclosed =>
    simp only [Category.pattern, Regex.matches_or_iff] at h
    rcases h with ((h | h) | h) | h
    · exact .inr (.inl ⟨.inl (eq_of_begins begins_openString h).1, .inr (.inl h)⟩)
    · exact .inr (.inl ⟨.inr (eq_of_begins begins_openRawString h).1, .inr (.inr h)⟩)
    · exact .inl ⟨(eq_of_begins begins_openRune h).1, .inr h⟩
    · exact .inr (.inr (.inl ((eq_of_begins begins_openBlockComment h).imp_right .inr)))
  case stray => exact absurd h Regex.not_matches_nothing

/-- The texts of tokens are runes, strings, slashes, and texts that no blank, quote or slash begins. -/
theorem token_cases {category : Category} {text : String} {kind : Kind} (hkind : category.kind? text = some kind)
    {c : Char} {w : List Char} (h : Matches category.pattern (c :: w)) :
    (c = '\'' ∧ Matches rune (c :: w)) ∨ ((c = '"' ∨ c = '`') ∧ Matches string (c :: w)) ∨
      (c = '/' ∧ (w = [] ∨ w = ['='])) ∨ c ∉ " \t\r\x0c/\"'`".toList := by
  have hplain (havoids : (" \t\r\x0c/\"'`".toList.all fun c => category.pattern.avoids c) = true) :
      c ∉ " \t\r\x0c/\"'`".toList :=
    fun hc => Regex.not_mem_of_avoids (List.all_eq_true.1 havoids c hc) h (List.mem_cons_self ..)
  rcases category with k | s | _ | form | _ | _ | _ | _ | _
  case keyword => exact .inr (.inr (.inr (hplain (by cases k <;> decide +kernel))))
  case identifier => exact .inr (.inr (.inr (hplain (by decide +kernel))))
  case symbol =>
    have hw : c :: w = s.spelling.toList := Regex.matches_word_iff.1 h
    cases s
    case slash => exact .inr (.inr (.inl ((List.cons_eq_cons.1 hw).imp_right .inl)))
    case slashEq => exact .inr (.inr (.inl ((List.cons_eq_cons.1 hw).imp_right .inr)))
    all_goals exact .inr (.inr (.inr (hplain (by decide +kernel))))
  case literal =>
    cases form with
    | int => exact .inr (.inr (.inr (hplain (by decide +kernel))))
    | float => exact .inr (.inr (.inr (hplain (by decide +kernel))))
    | imaginary => exact .inr (.inr (.inr (hplain (by decide +kernel))))
    | rune => exact .inl ⟨(eq_of_begins begins_rune h).1, h⟩
    | string => exact .inr (.inl ⟨mark_of_string h, h⟩)
  all_goals cases hkind

end Pattern

/-! ## Texts of tokens -/

/-- How a token is written: as the text that it carries, or in the spelling of its kind. -/
def Kind.text? : Kind → Option String
  | .keyword k => some k.spelling
  | .symbol s => some s.spelling
  | .identifier text | .literal _ text => some text
  | .newline | .blockComment | .eof => none

theorem Kind.text?_of_payload? {kind : Kind} {text : String} (h : kind.payload? = some text) :
    kind.text? = some text := by
  cases kind <;> simp_all [Kind.payload?, Kind.text?]

variable {category : Category} {text : String} {kind : Kind}

theorem ne_stray_of_kind? (hkind : category.kind? text = some kind) : category ≠ .stray := by
  rintro rfl
  cases hkind

theorem text?_of_classify {w : List Char} (h : classify w = some category)
    (hkind : category.kind? (.ofList w) = some kind) : kind.text? = some (.ofList w) := by
  have hw := matches_of_classify h
  cases category <;> simp only [Category.kind?, Option.some.injEq, reduceCtorEq] at hkind <;> subst hkind
  case keyword k => simp [Kind.text?, Regex.matches_word_iff.1 hw]
  case symbol s => simp [Kind.text?, Regex.matches_word_iff.1 hw]
  all_goals rfl

/-- No blank begins the text of a token. -/
theorem not_blank_of_classify (hkind : category.kind? text = some kind) {c : Char} {w : List Char}
    (h : classify (c :: w) = some category) : c ∉ " \t\r\x0c".toList := by
  rcases Pattern.token_cases hkind (matches_of_classify h) with ⟨rfl, -⟩ | ⟨rfl | rfl, -⟩ | ⟨rfl, -⟩ | hc
  · decide
  · decide
  · decide
  · decide
  · exact fun hblank => hc (List.mem_append_left "/\"'`".toList hblank)

/-- The text of a token does not go on over a space. -/
theorem classify_append_space (hkind : category.kind? text = some kind) {u : List Char} (hu : u ≠ [])
    (h : classify u = some category) (v : List Char) : classify (u ++ ' ' :: v) = none := by
  rw [classify_eq_none_iff]
  intro other hother
  have hv : ' ' :: v ≠ [] := List.cons_ne_nil ' ' v
  obtain ⟨c, u, rfl⟩ := List.exists_cons_of_ne_nil hu
  have htoken := Pattern.token_cases hkind (matches_of_classify h)
  rcases Pattern.spaced_cases hother (by simp) with ⟨rfl, hrune⟩ | ⟨hmark, hstring⟩ | ⟨rfl, hcomment⟩ | hblanks
  · have hu : Regex.Matches Pattern.rune ('\'' :: u) := by simpa using htoken
    exact hrune.elim (Pattern.not_matches_rune_append hu hv).2 (Pattern.not_matches_rune_append hu hv).1
  · have hu : Regex.Matches Pattern.string (c :: u) := by rcases hmark with rfl | rfl <;> simpa using htoken
    obtain ⟨hopen, hopenRaw, hclosed⟩ := Pattern.not_matches_string_append hu hv
    exact hstring.elim hclosed fun h => h.elim hopen hopenRaw
  · have hu : u = [] ∨ u = ['='] := by simpa using htoken
    rcases hu with rfl | rfl <;> simp at hcomment
  · exact not_blank_of_classify hkind h (Pattern.forall_mem_of_matches_blanks hblanks c (List.mem_cons_self ..))

/-- A space in front of what is no blank stands alone. -/
theorem classify_space_cons {c : Char} (hc : c ∉ " \t\r\x0c".toList) (w : List Char) :
    classify (' ' :: c :: w) = none := by
  rw [classify_eq_none_iff]
  intro category hw
  rcases Pattern.spaced_cases hw (List.mem_cons_self ..) with ⟨hquote, -⟩ | ⟨hquote, -⟩ | ⟨hslash, -⟩ | hblanks
  · exact absurd hquote (by decide)
  · exact absurd hquote (by decide)
  · exact absurd hslash (by decide)
  · exact hc (Pattern.forall_mem_of_matches_blanks hblanks c (by simp))

end StructPadding.Token
