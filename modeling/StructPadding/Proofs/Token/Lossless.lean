-- SUMMARY: The tokens of a source lie in it one behind the other, with blanks, newlines and comments between them.
import StructPadding.Proofs.Source.Place
import StructPadding.Proofs.Token.Comment
import StructPadding.Proofs.Token.Spelling
import StructPadding.Proofs.Token.Tiling

/-!
# Nothing is lost

A source is laid out as its tokens and the filler between them, byte by byte: a token covers its text, an inserted
semicolon covers the line break that it stands for, and everything else is blanks, newlines and complete comments.
-/

namespace StructPadding

theorem utf8ByteSize_append_ofList (before : String) (cs : List Char) :
    (before ++ .ofList cs).utf8ByteSize = before.utf8ByteSize + Line.byteLength cs := by
  rw [String.utf8ByteSize_append, utf8ByteSize_ofList]

theorem Span.Spells.within {span : Span} {source text : String} (h : span.Spells source text) :
    span.Within (IsBoundary source) := by
  obtain ⟨before, after, rfl, rfl⟩ := h
  refine ⟨Nat.le_add_right .., ?_, ?_⟩
  · rw [String.append_assoc]
    exact isBoundary_append ..
  · rw [← String.utf8ByteSize_append]
    exact isBoundary_append ..

namespace Token

open Regex (Matches)

/-! ## Layouts -/

/-- Whether a text in front of another one is filler: blanks, a newline or a complete comment. -/
inductive IsFiller (next : List Char) : List Char → Prop
  | blanks {w : List Char} (h : ∀ c ∈ w, c ∈ " \t\r\x0c".toList) : IsFiller next w
  | newline : IsFiller next ['\n']
  /-- A line comment goes on to the end of its line. -/
  | lineComment {w : List Char} (h : '\n' ∉ w) (hnext : ∀ c ∈ next.head?, c = '\n') : IsFiller next ('/' :: '/' :: w)
  | blockComment {w : List Char} (h : IsBlockComment w) : IsFiller next w

/-- Whether a text breaks the line: a newline, or a comment that holds one. -/
def IsLineBreak (w : List Char) : Prop := w = ['\n'] ∨ (IsBlockComment w ∧ '\n' ∈ w)

/-- Whether a token of a kind covers a text: its own, or the line break that a semicolon is inserted for. -/
def Kind.Covers (kind : Kind) (w : List Char) : Prop :=
  kind.text? = some (.ofList w) ∨ (kind = .symbol .semi ∧ IsLineBreak w)

/-- Whether a text from a byte on is laid out as tokens, with filler between them. -/
inductive Laid : Nat → List Char → List Token → Prop
  | eof {offset : Nat} : Laid offset [] [⟨.eof, .point offset⟩]
  /-- The semicolon at the end of the source. -/
  | atEnd {offset : Nat} : Laid offset [] [⟨.symbol .semi, .point offset⟩, ⟨.eof, .point offset⟩]
  | token {offset : Nat} {u v : List Char} {kind : Kind} {ts : List Token} (hcovers : kind.Covers u)
      (hrest : Laid (offset + Line.byteLength u) v ts) :
      Laid offset (u ++ v) (⟨kind, ⟨offset, offset + Line.byteLength u⟩⟩ :: ts)
  | filler {offset : Nat} {u v : List Char} {ts : List Token} (hfiller : IsFiller v u)
      (hrest : Laid (offset + Line.byteLength u) v ts) : Laid offset (u ++ v) ts

/-- Whether a token stands in a source as it is written, or at its end. -/
inductive IsWritten (source : String) (t : Token) : Prop
  | covers {text : String} (hspells : t.span.Spells source text) (hcovers : t.kind.Covers text.toList)
  | atEnd (hkind : t.kind = .symbol .semi ∨ t.kind = .eof) (hspan : t.span = .point source.utf8ByteSize)

/-- Whether tokens are all there is in a source but for filler. -/
structure IsLossless (source : String) (ts : List Token) : Prop where
  within : ∀ t ∈ ts, t.span.Within (IsBoundary source)
  ordered : ts.Pairwise fun t u => t.span.stop ≤ u.span.start
  payload : ∀ t ∈ ts, ∀ text, t.kind.payload? = some text → t.span.Spells source text
  written : ∀ t ∈ ts, IsWritten source t
  laid : Laid 0 source.toList ts

/-! ## Lexemes -/

variable {category : Category} {u v : List Char}

/-- A line comment that does not go on over the next character ends the line. -/
theorem head_of_lineComment (hu : Matches Pattern.lineComment u)
    (hlonger : ∀ w, w ≠ [] → w <+: v → classify (u ++ w) = none) : ∀ c ∈ v.head?, c = '\n' := by
  intro c hc
  by_contra hne
  have hprefix : [c] <+: v := by
    obtain ⟨w, rfl⟩ := List.head?_eq_some_iff.1 hc
    exact List.prefix_append [c] w
  have hcomment : Matches Pattern.lineComment (u ++ [c]) := by
    obtain ⟨mark, w, hmark, hw, rfl⟩ := Regex.matches_append_iff.1 hu
    have hone : Matches (.noneOf "\n") [c] := Regex.matches_noneOf_iff.2 ⟨c, by simpa using hne, rfl⟩
    have hmany := Regex.matches_many_append hw (.manyAppend hone .manyNil)
    exact Regex.matches_append_iff.2 ⟨mark, w ++ [c], hmark, hmany, List.append_assoc ..⟩
  exact classify_eq_none_iff.1 (hlonger [c] (List.cons_ne_nil c []) hprefix) .blank (.altRight hcomment)

theorem isFiller_of_first (hu : u ≠ []) (hfirst : Lexeme.first (u ++ v) = (category, u.length))
    (hfiller : category.isFiller = true) : IsFiller v u := by
  have hstray : category ≠ .stray := by
    rintro rfl
    cases hfiller
  obtain ⟨hclassify, hlonger⟩ := (Lexeme.first_eq_iff hstray hu).1 hfirst
  have hmatches := matches_of_classify hclassify
  cases category
  case newline =>
    obtain rfl : u = ['\n'] := Regex.matches_word_iff.1 hmatches
    exact .newline
  case blockComment => exact .blockComment (isBlockComment_of_matches hmatches)
  case blank =>
    rcases Regex.matches_or_iff.1 hmatches with hblanks | hcomment
    · exact .blanks (Pattern.forall_mem_of_matches_blanks hblanks)
    · have hnext := head_of_lineComment hcomment hlonger
      obtain ⟨mark, w, hmark, hw, rfl⟩ := Regex.matches_append_iff.1 hcomment
      obtain rfl : mark = ['/', '/'] := Regex.matches_word_iff.1 hmark
      exact .lineComment (Regex.not_mem_of_avoids (by decide +kernel) hw) hnext
  all_goals cases hfiller

theorem isLineBreak_of_first (hu : u ≠ []) (hfirst : Lexeme.first (u ++ v) = (category, u.length)) {span : Span}
    (hbreak : Lexeme.breaksLine ⟨category, .ofList u, span⟩ = true) : IsLineBreak u := by
  have hstray : category ≠ .stray := by
    rintro rfl
    cases hbreak
  have hmatches := matches_of_classify ((Lexeme.first_eq_iff hstray hu).1 hfirst).1
  cases category
  case newline => exact .inl (Regex.matches_word_iff.1 hmatches)
  case blockComment =>
    exact .inr ⟨isBlockComment_of_matches hmatches, by simpa [Lexeme.breaksLine] using hbreak⟩
  all_goals cases hbreak

theorem covers_of_first (hu : u ≠ []) (hfirst : Lexeme.first (u ++ v) = (category, u.length)) {kind : Kind}
    (hkind : category.kind? (.ofList u) = some kind) : kind.Covers u := by
  have hclassify := ((Lexeme.first_eq_iff (ne_stray_of_kind? hkind) hu).1 hfirst).1
  exact .inl (text?_of_classify hclassify hkind)

/-- What the lexemes of a text become is laid out in the text. -/
theorem Emits.laid {length offset : Nat} {ends : Bool} {cs : List Char} {ls : List Lexeme} {ts : List Token}
    (h : Emits length ends ls ts) (htiles : Tiles offset cs ls) (hlength : offset + Line.byteLength cs = length) :
    Laid offset cs (ts ++ [⟨.eof, .point length⟩]) := by
  -- The induction is on what the lexemes become; the tiling gives the text that each of them has.
  induction h generalizing offset cs with
  | done =>
    cases htiles
    exact hlength ▸ .eof
  | atEnd =>
    cases htiles
    exact hlength ▸ .atEnd
  | token hkind _ ih =>
    obtain _ | ⟨hu, hfirst, hrest⟩ := htiles
    exact .token (covers_of_first hu hfirst hkind) (ih hrest (by simpa [Nat.add_assoc] using hlength))
  | lineBreak _ hbreak _ ih =>
    obtain _ | ⟨hu, hfirst, hrest⟩ := htiles
    have hcovers : (Kind.symbol .semi).Covers _ := .inr ⟨rfl, isLineBreak_of_first hu hfirst hbreak⟩
    exact .token hcovers (ih hrest (by simpa [Nat.add_assoc] using hlength))
  | skip hfiller _ _ ih =>
    obtain _ | ⟨hu, hfirst, hrest⟩ := htiles
    exact .filler (isFiller_of_first hu hfirst hfiller) (ih hrest (by simpa [Nat.add_assoc] using hlength))

/-! ## Laid out tokens -/

namespace Laid

/-- Laid out tokens begin no sooner than the text. -/
theorem le_start {offset : Nat} {cs : List Char} {ts : List Token} (h : Laid offset cs ts) :
    ∀ t ∈ ts, offset ≤ t.span.start := by
  induction h with
  | eof => simp [Span.point]
  | atEnd => simp [Span.point]
  | token _ _ ih =>
    exact List.forall_mem_cons.2 ⟨Nat.le_refl _, fun t ht => Nat.le_trans (Nat.le_add_right ..) (ih t ht)⟩
  | filler _ _ ih => exact fun t ht => Nat.le_trans (Nat.le_add_right ..) (ih t ht)

theorem ordered {offset : Nat} {cs : List Char} {ts : List Token} (h : Laid offset cs ts) :
    ts.Pairwise fun t u => t.span.stop ≤ u.span.start := by
  induction h with
  | eof => exact List.pairwise_singleton ..
  | atEnd => simp [Span.point]
  | token _ hrest ih => exact .cons hrest.le_start ih
  | filler _ _ ih => exact ih

/-- Tokens that are laid out behind a text stand in the text with what they are laid out in. -/
theorem isWritten {offset : Nat} {cs : List Char} {ts : List Token} (h : Laid offset cs ts) {before : String}
    (hbefore : before.utf8ByteSize = offset) : ∀ t ∈ ts, IsWritten (before ++ .ofList cs) t := by
  induction h generalizing before with
  | eof =>
    have hend : IsWritten before ⟨.eof, .point before.utf8ByteSize⟩ := .atEnd (.inr rfl) rfl
    simpa [hbefore] using hend
  | atEnd =>
    have hsemi : IsWritten before ⟨.symbol .semi, .point before.utf8ByteSize⟩ := .atEnd (.inl rfl) rfl
    have hend : IsWritten before ⟨.eof, .point before.utf8ByteSize⟩ := .atEnd (.inr rfl) rfl
    simpa [hbefore] using And.intro hsemi hend
  | @token offset u v kind ts hcovers _ ih =>
    subst hbefore
    have hrest := ih (utf8ByteSize_append_ofList before u)
    rw [String.ofList_append, ← String.append_assoc]
    refine List.forall_mem_cons.2 ⟨.covers ⟨before, .ofList v, rfl, ?_⟩ (by simpa using hcovers), hrest⟩
    rw [utf8ByteSize_ofList]
  | @filler offset u v ts _ _ ih =>
    subst hbefore
    rw [String.ofList_append, ← String.append_assoc]
    exact ih (utf8ByteSize_append_ofList before u)

end Laid

namespace IsWritten

variable {source : String} {t : Token}

theorem within (h : IsWritten source t) : t.span.Within (IsBoundary source) := by
  cases h with
  | covers hspells _ => exact hspells.within
  | atEnd _ hspan => exact hspan ▸ Span.within_point (isBoundary_utf8ByteSize source)

theorem spells_payload (h : IsWritten source t) {text : String} (htext : t.kind.payload? = some text) :
    t.span.Spells source text := by
  have hmark : t.kind ≠ .symbol .semi ∧ t.kind ≠ .eof := by
    constructor <;> intro hkind <;> simp [hkind, Kind.payload?] at htext
  cases h with
  | @covers written hspells hcovers =>
    rcases hcovers with hown | ⟨hsemi, -⟩
    · have hsame : some text = some written := by
        simpa using (Kind.text?_of_payload? htext).symm.trans hown
      exact Option.some.inj hsame ▸ hspells
    · exact absurd hsemi hmark.1
  | atEnd hkind _ => exact absurd hkind (not_or.2 hmark)

end IsWritten

/-! ## The tokens of a source -/

/-- The tokens of a source cover their texts one behind the other, and the rest of the source is filler. -/
theorem tokens_lossless {source : String} {ts : List Token} (h : tokenize source = .ok ts) : IsLossless source ts := by
  obtain ⟨body, hemits, rfl⟩ := tokenize_eq_ok_iff.1 h
  have hlength : 0 + Line.byteLength source.toList = source.utf8ByteSize := by
    rw [Nat.zero_add, ← utf8ByteSize_ofList, String.ofList_toList]
  have hlaid := hemits.laid (tiles_scan source) hlength
  have hwritten : ∀ t ∈ body ++ [⟨.eof, .point source.utf8ByteSize⟩], IsWritten source t := by
    have hbehind := hlaid.isWritten String.utf8ByteSize_empty
    simpa using hbehind
  exact {
    within := fun t ht => (hwritten t ht).within
    ordered := hlaid.ordered
    payload := fun t ht _ => (hwritten t ht).spells_payload
    written := hwritten
    laid := hlaid }

theorem tokens_lossless_mixedSource : tokenize mixedSource = .ok mixedTokens ∧ IsLossless mixedSource mixedTokens :=
  ⟨tokenize_mixedSource, tokens_lossless tokenize_mixedSource⟩

end Token

end StructPadding
