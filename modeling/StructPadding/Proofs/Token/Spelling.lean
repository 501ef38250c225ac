-- SUMMARY: Lexemes are spelled as the source has them, one behind the other, and keywords as the language spells them.
import StructPadding.Proofs.Text.Matching
import StructPadding.Token.Stream

/-!
# Spelling

What the longest match takes is a word of an expression, so a lexeme that is a keyword has the text of the keyword. A
lexeme covers its text in the source, and lexemes follow one another without overlap.
-/

namespace StructPadding

namespace Token

theorem Pattern.eq_word_of_mem_all {k : Keyword} {r : Regex} (h : (Category.keyword k, r) ∈ all) :
    r = .word k.spelling := by
  simp [all] at h
  obtain ⟨_, -, rfl, rfl⟩ := h
  rfl

namespace Lexeme

theorem take_of_first {cs : List Char} {k : Keyword} (h : (first cs).1 = .keyword k) :
    cs.take (first cs).2 = k.spelling.toList := by
  unfold first at h ⊢
  split
  · next c n hlongest =>
    rw [hlongest] at h
    obtain rfl : c = .keyword k := h
    obtain ⟨r, hmem, hr⟩ := Regex.matches_of_longest hlongest
    exact Regex.matches_word_iff.1 (Pattern.eq_word_of_mem_all hmem ▸ hr)
  · next hnone =>
    exfalso
    split at h
    · exact hnone _ _ ‹_›
    · cases h

theorem scanFrom_zero_cons (offset : Nat) (c : Char) (cs : List Char) :
    scanFrom offset 0 (c :: cs) =
      let text := String.ofList ((c :: cs).take (first (c :: cs)).2)
      ⟨(first (c :: cs)).1, text, ⟨offset, offset + text.utf8ByteSize⟩⟩ ::
        scanFrom (offset + c.utf8Size) ((first (c :: cs)).2 - 1) cs := rfl

theorem text_of_mem_scanFrom {cs : List Char} {offset skip : Nat} {l : Lexeme} {k : Keyword}
    (hl : l ∈ scanFrom offset skip cs) (hk : l.category = .keyword k) : l.text = k.spelling := by
  induction cs generalizing offset skip with
  | nil => simp [scanFrom_nil] at hl
  | cons c cs ih =>
    cases skip with
    | succ skip => exact ih hl
    | zero =>
      rw [scanFrom_zero_cons] at hl
      rcases List.mem_cons.1 hl with rfl | hl
      · simp only [take_of_first hk, String.ofList_toList]
      · exact ih hl

/-- Lexemes are scanned behind what has been scanned. -/
theorem le_start_of_mem_scanFrom {cs : List Char} {offset skip : Nat} {l : Lexeme} (hl : l ∈ scanFrom offset skip cs) :
    offset ≤ l.span.start := by
  induction cs generalizing offset skip with
  | nil => simp [scanFrom_nil] at hl
  | cons c cs ih =>
    cases skip with
    | succ skip => exact Nat.le_trans (Nat.le_add_right ..) (ih hl)
    | zero =>
      rw [scanFrom_zero_cons] at hl
      rcases List.mem_cons.1 hl with rfl | hl
      · exact Nat.le_refl _
      · exact Nat.le_trans (Nat.le_add_right ..) (ih hl)

/-- Every lexeme begins behind the ones before it. -/
theorem pairwise_scanFrom (offset skip : Nat) (cs : List Char) :
    (scanFrom offset skip cs).Pairwise fun l m => l.span.start < m.span.start := by
  induction cs generalizing offset skip with
  | nil => simp [scanFrom_nil]
  | cons c cs ih =>
    cases skip with
    | succ skip => exact ih _ _
    | zero =>
      rw [scanFrom_zero_cons]
      refine .cons (fun m hm => ?_) (ih _ _)
      exact Nat.lt_of_lt_of_le (Nat.lt_add_of_pos_right c.utf8Size_pos) (le_start_of_mem_scanFrom hm)

end Lexeme

end Token

/-- Whether a source has a text at a span. -/
def Span.Spells (span : Span) (source text : String) : Prop :=
  ∃ before after, source = before ++ text ++ after ∧
    span = ⟨before.utf8ByteSize, before.utf8ByteSize + text.utf8ByteSize⟩

namespace Token

theorem Lexeme.spells_of_mem_scanFrom {cs : List Char} {before : String} {skip : Nat} {l : Lexeme}
    (hl : l ∈ scanFrom before.utf8ByteSize skip cs) : l.span.Spells (before ++ String.ofList cs) l.text := by
  induction cs generalizing before skip with
  | nil => simp [scanFrom_nil] at hl
  | cons c cs ih =>
    have hsplit : before ++ String.ofList (c :: cs) = (before ++ String.singleton c) ++ String.ofList cs := by
      rw [String.append_assoc, String.singleton_eq_ofList, ← String.ofList_append]
      rfl
    have hsize : before.utf8ByteSize + c.utf8Size = (before ++ String.singleton c).utf8ByteSize := by
      rw [String.utf8ByteSize_append, String.utf8ByteSize_singleton]
    cases skip with
    | succ skip =>
      rw [scanFrom, hsize] at hl
      exact hsplit ▸ ih hl
    | zero =>
      rw [scanFrom_zero_cons, hsize] at hl
      rcases List.mem_cons.1 hl with rfl | hl
      · refine ⟨before, String.ofList ((c :: cs).drop (first (c :: cs)).2), ?_, rfl⟩
        rw [String.append_assoc, ← String.ofList_append, List.take_append_drop]
      · exact hsplit ▸ ih hl

theorem Lexeme.spells_of_mem_scan {source : String} {l : Lexeme} (hl : l ∈ scan source) :
    l.span.Spells source l.text := by
  have h : l.span.Spells ("" ++ String.ofList source.toList) l.text := spells_of_mem_scanFrom hl
  simpa using h

/-! ## Tokens -/

/-- The span of a keyword, if the event is one. -/
def Event.keyword? (k : Keyword) : Event → Option Span
  | .ok t => if t.kind = .keyword k then some t.span else none
  | .error _ => none

namespace Event

theorem kind_ne_eof_of_mem_ofLexemes {length : Nat} {ends : Bool} {ls : List Lexeme} {t : Token}
    (h : .ok t ∈ ofLexemes length ends ls) : t.kind ≠ .eof := by
  induction ls generalizing ends with
  | nil => grind [ofLexemes]
  | cons l rest ih =>
    have hkind (category : Category) (text : String) : category.kind? text ≠ some .eof := by
      cases category <;> simp [Category.kind?]
    grind [ofLexemes]

/-- The keywords among the tokens are those among the lexemes. -/
theorem keywords_ofLexemes (k : Keyword) (length : Nat) (ends : Bool) (ls : List Lexeme) :
    (ofLexemes length ends ls).filterMap (keyword? k) =
      (ls.filter fun l => l.category = .keyword k).map (·.span) := by
  induction ls generalizing ends with
  | nil =>
    simp only [ofLexemes]
    split <;> rfl
  | cons l rest ih =>
    obtain ⟨category, text, span⟩ := l
    cases category <;> grind [ofLexemes, Category.kind?, keyword?]

/-- Every keyword of a source begins behind the ones before it. -/
theorem pairwise_keywords (k : Keyword) (source : String) :
    ((Stream.ofSource source).events.filterMap (keyword? k)).Pairwise fun a b => a.start < b.start := by
  simp only [Stream.ofSource, keywords_ofLexemes, List.pairwise_map]
  exact (Lexeme.pairwise_scanFrom _ _ _).filter _

theorem spells_of_mem_keywords {k : Keyword} {source : String} {span : Span}
    (h : span ∈ (Stream.ofSource source).events.filterMap (keyword? k)) : span.Spells source k.spelling := by
  simp only [Stream.ofSource, keywords_ofLexemes, List.mem_map, List.mem_filter, decide_eq_true_eq] at h
  obtain ⟨l, ⟨hl, hk⟩, rfl⟩ := h
  exact Lexeme.text_of_mem_scanFrom hl hk ▸ Lexeme.spells_of_mem_scan hl

end Event

end Token

end StructPadding
