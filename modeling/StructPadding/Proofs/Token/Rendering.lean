-- SUMMARY: Tokens written out with spaces between them are read again as the same tokens.
import Mathlib.Data.String.Basic
import StructPadding.Proofs.Token.Spelling
import StructPadding.Proofs.Token.Tiling

/-!
# Rendering

A token is rendered as its text in the source, and every semicolon, typed or inserted, in its spelling. No text of a
token goes on over a space, so the rendered tokens with spaces between them are the lexemes of the rendering. The
rendering has no line breaks of its own, and its last token does not end a statement, so no semicolon is inserted again.
-/

namespace StructPadding

/-- The text of a source at a span. -/
def Span.slice (source : String) (s : Span) : String := String.Pos.Raw.extract source ⟨s.start⟩ ⟨s.stop⟩

theorem Span.Spells.slice_eq {span : Span} {source text : String} (h : span.Spells source text) :
    span.slice source = text := by
  obtain ⟨before, after, rfl, rfl⟩ := h
  simpa [Span.slice, String.append_assoc] using String.extract_of_valid before.toList text.toList after.toList

namespace Token

/-- How a token of a source is rendered. -/
def render (source : String) (t : Token) : String := if t.kind = .symbol .semi then ";" else t.span.slice source

/-- All tokens but the end of the file, with spaces between them. -/
def rendering (source : String) (ts : List Token) : String :=
  " ".intercalate ((ts.filter (·.kind ≠ .eof)).map (render source))

/-! ## Texts of tokens -/

/-- Whether a text on its own is read as a token of a kind. -/
structure Kind.IsReadFrom (kind : Kind) (w : List Char) : Prop where
  ne_nil : w ≠ []
  exists_category : ∃ category : Category, classify w = some category ∧ category.kind? (.ofList w) = some kind

theorem isReadFrom_semi : (Kind.symbol .semi).IsReadFrom ";".toList :=
  ⟨by decide, .symbol .semi, by decide +kernel, rfl⟩

theorem Kind.IsReadFrom.kind_ne_eof {kind : Kind} {w : List Char} (h : kind.IsReadFrom w) : kind ≠ .eof := by
  obtain ⟨category, -, hkind⟩ := h.exists_category
  rintro rfl
  cases category <;> cases hkind

theorem Tiles.isReadFrom {offset : Nat} {cs : List Char} {ls : List Lexeme} (h : Tiles offset cs ls) :
    ∀ l ∈ ls, ∀ kind, l.category.kind? l.text = some kind → kind.IsReadFrom l.text.toList := by
  induction h with
  | nil => exact nofun
  | @cons offset u v category ls hu hfirst _ ih =>
    refine List.forall_mem_cons.2 ⟨fun kind hkind => ?_, ih⟩
    rw [String.toList_ofList]
    exact ⟨hu, category, ((Lexeme.first_eq_iff (ne_stray_of_kind? hkind) hu).1 hfirst).1, hkind⟩

/-- A token is a lexeme, or a semicolon. -/
theorem Emits.exists_lexeme {length : Nat} {ends : Bool} {ls : List Lexeme} {ts : List Token}
    (h : Emits length ends ls ts) :
    ∀ t ∈ ts, t.kind = .symbol .semi ∨ ∃ l ∈ ls, t.span = l.span ∧ l.category.kind? l.text = some t.kind := by
  induction h with
  | done => exact nofun
  | atEnd => simp
  | @token ends l kind ls ts hkind _ ih =>
    refine List.forall_mem_cons.2 ⟨.inr ⟨l, List.mem_cons_self .., rfl, hkind⟩, fun t ht => (ih t ht).imp_right ?_⟩
    exact fun ⟨m, hm, hmt⟩ => ⟨m, List.mem_cons_of_mem _ hm, hmt⟩
  | lineBreak _ _ _ ih =>
    refine List.forall_mem_cons.2 ⟨.inl rfl, fun t ht => (ih t ht).imp_right ?_⟩
    exact fun ⟨m, hm, hmt⟩ => ⟨m, List.mem_cons_of_mem _ hm, hmt⟩
  | skip _ _ _ ih =>
    refine fun t ht => (ih t ht).imp_right ?_
    exact fun ⟨m, hm, hmt⟩ => ⟨m, List.mem_cons_of_mem _ hm, hmt⟩

/-- A rendered token is read as a token of its kind. -/
theorem isReadFrom_render {source : String} {ts : List Token} {length : Nat} {ends : Bool}
    (h : Emits length ends (Lexeme.scan source) ts) {t : Token} (ht : t ∈ ts) :
    t.kind.IsReadFrom (render source t).toList := by
  unfold render
  split
  · next hsemi => exact hsemi ▸ isReadFrom_semi
  · next hsemi =>
    obtain ⟨l, hl, hspan, hkind⟩ := (h.exists_lexeme t ht).resolve_left hsemi
    rw [hspan, (Lexeme.spells_of_mem_scan hl).slice_eq]
    exact (tiles_scan source).isReadFrom l hl t.kind hkind

/-- What follows the end of a statement ends with a semicolon. -/
theorem Emits.endsStatement_getLast? {length : Nat} {ends : Bool} {ls : List Lexeme} {ts : List Token}
    (h : Emits length ends ls ts) : ts.getLast?.elim ends (·.kind.endsStatement) = false := by
  induction h with
  | done => rfl
  | atEnd => rfl
  | @token ends l kind ls ts _ _ ih =>
    rw [List.getLast?_cons]
    cases hlast : ts.getLast? <;> simpa [hlast] using ih
  | @lineBreak l ls ts _ _ _ ih =>
    rw [List.getLast?_cons]
    cases hlast : ts.getLast? with
    | none => rfl
    | some t => simpa [hlast] using ih
  | skip _ _ _ ih => exact ih

/-! ## Renderings -/

theorem Lexeme.first_of_isReadFrom {kind : Kind} {u v : List Char} (h : kind.IsReadFrom u)
    (hv : ∀ c ∈ v.head?, c = ' ') :
    ∃ category : Category, first (u ++ v) = (category, u.length) ∧ category.kind? (.ofList u) = some kind := by
  obtain ⟨category, hclassify, hkind⟩ := h.exists_category
  refine ⟨category, (first_eq_iff (ne_stray_of_kind? hkind) h.ne_nil).2 ⟨hclassify, fun w hw hprefix => ?_⟩, hkind⟩
  obtain ⟨c, w, rfl⟩ := List.exists_cons_of_ne_nil hw
  obtain ⟨rest, rfl⟩ := hprefix
  obtain rfl := hv c rfl
  exact classify_append_space hkind h.ne_nil hclassify w

theorem Lexeme.first_space {kind : Kind} {u : List Char} (h : kind.IsReadFrom u) (v : List Char) :
    first ([' '] ++ (u ++ v)) = (.blank, [' '].length) := by
  obtain ⟨category, hclassify, hkind⟩ := h.exists_category
  obtain ⟨c, u, rfl⟩ := List.exists_cons_of_ne_nil h.ne_nil
  have hspace : classify [' '] = some .blank := by decide +kernel
  refine (first_eq_iff (by decide) (by decide)).2 ⟨hspace, fun w hw hprefix => ?_⟩
  obtain ⟨d, w, rfl⟩ := List.exists_cons_of_ne_nil hw
  obtain ⟨rfl, -⟩ := List.cons_prefix_cons.1 hprefix
  exact classify_space_cons (not_blank_of_classify hkind hclassify) w

theorem exists_intercalate_cons {α : Type} (sep xs : List α) (xss : List (List α)) :
    ∃ ys, sep.intercalate (xs :: xss) = xs ++ ys := by
  cases xss with
  | nil => exact ⟨[], by simp⟩
  | cons zs zss => exact ⟨sep ++ sep.intercalate (zs :: zss), by simp⟩

/-- Texts of tokens with spaces between them become tokens of the same kinds, where the last one ends no statement. -/
theorem exists_emits_intercalate {text : Token → List Char} {ts : List Token}
    (hts : ∀ t ∈ ts, t.kind.IsReadFrom (text t)) {ends : Bool}
    (hends : ts.getLast?.elim ends (·.kind.endsStatement) = false) (length offset : Nat) :
    ∃ ls us, Tiles offset ([' '].intercalate (ts.map text)) ls ∧ Emits length ends ls us ∧
      us.map (·.kind) = ts.map (·.kind) := by
  induction ts generalizing ends offset with
  | nil =>
    obtain rfl : ends = false := hends
    exact ⟨[], [], .nil, .done, rfl⟩
  | cons t ts ih =>
    have ht := hts t (List.mem_cons_self ..)
    have hrest : ∀ u ∈ ts, u.kind.IsReadFrom (text u) := fun u hu => hts u (List.mem_cons_of_mem t hu)
    have hlast : ts.getLast?.elim t.kind.endsStatement (·.kind.endsStatement) = false := by
      rw [List.getLast?_cons] at hends
      cases htail : ts.getLast? <;> simpa [htail] using hends
    cases ts with
    | nil =>
      have hdone : Emits length t.kind.endsStatement [] [] := by
        rw [show t.kind.endsStatement = false from hlast]
        exact .done
      obtain ⟨category, hfirst, hkind⟩ := Lexeme.first_of_isReadFrom ht (v := []) nofun
      have htiles : Tiles offset (text t ++ []) _ := .cons ht.ne_nil hfirst .nil
      have hcs : [' '].intercalate ([t].map text) = text t ++ [] := by simp
      rw [hcs]
      exact ⟨_, _, htiles, .token hkind hdone, rfl⟩
    | cons t' ts =>
      -- A token with another one behind it: its lexeme ends at the space, and the space ends at the other token.
      obtain ⟨v, hv⟩ := exists_intercalate_cons [' '] (text t') (ts.map text)
      obtain ⟨ls, us, htiles, hemits, hkinds⟩ :=
        ih hrest hlast (offset + Line.byteLength (text t) + Line.byteLength [' '])
      rw [List.map_cons, hv] at htiles
      have hspace := Lexeme.first_space (hrest t' (List.mem_cons_self ..)) v
      obtain ⟨category, hfirst, hkind⟩ := Lexeme.first_of_isReadFrom ht (v := [' '] ++ (text t' ++ v)) (by simp)
      have hall := Tiles.cons ht.ne_nil hfirst (.cons (List.cons_ne_nil ' ' []) hspace htiles)
      have hcs : [' '].intercalate ((t :: t' :: ts).map text) = text t ++ ([' '] ++ (text t' ++ v)) := by simp [hv]
      rw [hcs]
      exact ⟨_, _, hall, .token hkind (.skip rfl (Bool.and_false _) hemits), congrArg (t.kind :: ·) hkinds⟩

/-- Tokens that are rendered are read as the same tokens. -/
theorem tokenize_rendering {source : String} {ts : List Token} (h : tokenize source = .ok ts) :
    ∃ us, tokenize (rendering source ts) = .ok us ∧ us.map (·.kind) = ts.map (·.kind) := by
  obtain ⟨body, hemits, rfl⟩ := tokenize_eq_ok_iff.1 h
  have hread : ∀ t ∈ body, t.kind.IsReadFrom (render source t).toList := fun t ht => isReadFrom_render hemits ht
  have hbody : (body ++ [Token.mk .eof (.point source.utf8ByteSize)]).filter (·.kind ≠ .eof) = body := by
    simpa using fun t ht => (hread t ht).kind_ne_eof
  let text : String := " ".intercalate (body.map (render source))
  have htext : text.toList = [' '].intercalate (body.map fun t => (render source t).toList) := by
    simp [text, String.toList_intercalate, Function.comp_def]
  obtain ⟨ls, us, htiles, hus, hkinds⟩ :=
    exists_emits_intercalate hread hemits.endsStatement_getLast? text.utf8ByteSize 0
  have hscan : Lexeme.scan text = ls := by
    rw [Lexeme.scan, htext]
    exact htiles.scanFrom_eq
  refine ⟨us ++ [⟨.eof, .point text.utf8ByteSize⟩], ?_, by simp [hkinds]⟩
  rw [rendering, hbody]
  exact tokenize_eq_ok_iff.2 ⟨us, hscan ▸ hus, rfl⟩

theorem tokenize_rendering_mixedSource : tokenize mixedSource = .ok mixedTokens ∧
    ∃ us, tokenize (rendering mixedSource mixedTokens) = .ok us ∧ us.map (·.kind) = mixedTokens.map (·.kind) :=
  ⟨tokenize_mixedSource, tokenize_rendering tokenize_mixedSource⟩

example : rendering mixedSource mixedTokens = "a ; + `\n` /= .5e1 ; return ;" := by decide +kernel

end Token

end StructPadding
