-- SUMMARY: No struct literal of a source is lost but those passed over, and none becomes two sites.
import StructPadding.Package.Site
import StructPadding.Proofs.Parse.Soundness
import StructPadding.Proofs.Token.Tiling

/-!
# Struct literals of a source

Parsing takes account of every struct literal among the tokens: it becomes part of a type, or is kept, or is passed over.
A derivation keeps the account balanced, so the sites of a file are the struct literals of its source without those that
have been passed over.
-/

namespace StructPadding

/-! ## Tokens -/

namespace Token

/-- The keyword of the struct literal that a list of events begins with, if it begins with one. -/
def Event.literal? : List Event → Option Span
  | .ok ⟨.keyword .struct, span⟩ :: .ok ⟨.symbol .lBrace, _⟩ :: _ => some span
  | _ => none

/-- The keywords of the struct literals in a list of events. -/
def Event.literals : List Event → List Span
  | [] => []
  | e :: rest => (literal? (e :: rest)).toList ++ literals rest

/-- The keywords of the struct literals among tokens: each `struct` with a `{` directly behind it. -/
def literals (ts : List Token) : List Span := Event.literals (ts.map .ok)

theorem Event.literals_sublist (es : List Event) : (literals es).Sublist (es.filterMap (keyword? .struct)) := by
  induction es with
  | nil => exact .refl _
  | cons e rest ih =>
    unfold literals literal?
    split
    · next heq =>
      obtain ⟨rfl, -⟩ := by simpa using heq
      simpa [keyword?] using ih
    · exact ih.trans ((List.sublist_cons_self e rest).filterMap _)

end Token

/-! ## Accounts -/

namespace Parser

open Token (Kind Event)

namespace Cursor

/-- How often a span is the keyword of a struct literal that is still to come, has been kept, or has been passed over. -/
def count (c : Cursor) (keyword : Span) : Nat :=
  (Event.literals c.events).count keyword +
    ((c.kept.flatMap LocalStruct.structs).map (·.keyword)).count keyword + c.passed.count keyword

variable {c d : Cursor} {t : Token} {k : Kind}

theorem Takes.kindAt_zero (h : c.Takes t d) : c.kindAt 0 = t.kind := by simp [kindAt, h.events]

theorem Takes.kindAt_one (h : c.Takes t d) : c.kindAt 1 = d.kindAt 0 := by simp [kindAt, h.events]

theorem Reads.kindAt_zero (h : c.Reads k d) : c.kindAt 0 = k := by
  obtain ⟨_, h⟩ := h
  exact h.kindAt_zero

/-- The account changes only where a struct literal begins. -/
theorem Takes.count_of_not_atLiteral (h : c.Takes t d) (hc : ¬ c.AtLiteral) (keyword : Span) :
    c.count keyword = d.count keyword := by
  have hnone : Event.literal? (.ok t :: d.events) = none := by
    unfold Event.literal?
    split
    · next heq =>
      obtain ⟨rfl, hd⟩ := by simpa using heq
      exact absurd ⟨h.kindAt_zero, h.kindAt_one.trans (by simp [kindAt, hd])⟩ hc
    · rfl
  simp [count, h.events, h.kept, h.passed, Event.literals, hnone]

theorem Takes.count_of_literal {span : Span} (h : c.Takes ⟨.keyword .struct, span⟩ d)
    (hd : d.kindAt 0 = .symbol .lBrace) (keyword : Span) :
    c.count keyword = (if span = keyword then 1 else 0) + d.count keyword := by
  have hsome : Event.literal? (.ok ⟨.keyword .struct, span⟩ :: d.events) = some span := by
    unfold kindAt at hd
    split at hd
    · next brace hbrace =>
      obtain ⟨rest, hrest⟩ : ∃ rest, d.events = .ok brace :: rest := by
        cases hevents : d.events with
        | nil => simp [hevents] at hbrace
        | cons e rest => exact ⟨rest, by simpa [hevents] using hbrace⟩
      obtain ⟨kind, _⟩ := brace
      obtain rfl : kind = _ := hd
      rw [hrest]
      rfl
    · cases hd
  simp only [count, h.events, h.kept, h.passed, Event.literals, hsome, Option.toList_some, List.cons_append,
    List.nil_append, List.count_cons, beq_iff_eq]
  omega

/-- No token but `struct` changes the account. -/
theorem Reads.count (h : c.Reads k d) : k = .keyword .struct ∨ ∀ keyword, c.count keyword = d.count keyword := by
  obtain ⟨span, h⟩ := h
  by_cases hk : k = .keyword .struct
  · exact .inl hk
  · exact .inr (h.count_of_not_atLiteral fun hc => hk (h.kindAt_zero.symm.trans hc.1))

theorem MayRead.count (h : c.MayRead k d) : k = .keyword .struct ∨ ∀ keyword, c.count keyword = d.count keyword := by
  obtain rfl | h := h
  · exact .inr fun _ => rfl
  · exact h.count

theorem Skips.count (h : c.Skips d) (keyword : Span) : c.count keyword = d.count keyword := by
  obtain ⟨_, ⟨_, h⟩, -, -, hc⟩ := h
  exact h.count_of_not_atLiteral hc keyword

theorem count_keep (c : Cursor) (ls : List LocalStruct) (keyword : Span) :
    (c.keep ls).count keyword = ((ls.flatMap LocalStruct.structs).map (·.keyword)).count keyword + c.count keyword := by
  simp only [count, keep, List.flatMap_append, List.map_append, List.count_append]
  omega

theorem count_pass (c : Cursor) (span keyword : Span) :
    (c.pass span).count keyword = (if span = keyword then 1 else 0) + c.count keyword := by
  simp only [count, pass, List.count_append, List.count_singleton, beq_iff_eq]
  omega

end Cursor

/-- The struct literals that tokens make which become part of types. -/
def Form.structs : Form → List StructType
  | .type t => t.structs
  | .typeArgs ts | .types ts => structsOfAll ts
  | .struct st => st :: st.inner
  | .fields fs => structsOfFields fs
  | .field f => f.structs
  | .entry _ ds | .entries _ ds | .declaration ds | .file ds => ds.flatMap (·.type.structs)
  | _ => []

/-- How often a span is the keyword of a struct literal that becomes part of a type. -/
def Form.count (f : Form) (keyword : Span) : Nat := (f.structs.map (·.keyword)).count keyword

theorem structsOfAll_append (ts us : List TypeExpr) : structsOfAll (ts ++ us) = structsOfAll ts ++ structsOfAll us := by
  induction ts with
  | nil => rfl
  | cons t ts ih => simp [structsOfAll, ih]

theorem structsOfFields_append (fs gs : List FieldDecl) :
    structsOfFields (fs ++ gs) = structsOfFields fs ++ structsOfFields gs := by
  induction fs with
  | nil => rfl
  | cons f fs ih => simp [structsOfFields, ih]

mutual

/-- The outermost struct literals of a type have among them all that are in it. -/
theorem structs_of_outerStructs : ∀ t : TypeExpr, t.outerStructs.flatMap (fun st => st :: st.inner) = t.structs
  | .struct st => by simp [TypeExpr.outerStructs, TypeExpr.structs]
  | .named _ _ args _ => structs_of_outerStructsOfAll args
  | .pointer e _ | .slice e _ | .array _ e _ | .chan _ e _ => structs_of_outerStructs e
  | .map k v _ => by
    rw [TypeExpr.outerStructs, TypeExpr.structs, List.flatMap_append, structs_of_outerStructs k,
      structs_of_outerStructs v]
  | .func _ | .interface _ => rfl

theorem structs_of_outerStructsOfAll :
    ∀ ts : List TypeExpr, (outerStructsOfAll ts).flatMap (fun st => st :: st.inner) = structsOfAll ts
  | [] => rfl
  | t :: rest => by
    rw [outerStructsOfAll, structsOfAll, List.flatMap_append, structs_of_outerStructs t,
      structs_of_outerStructsOfAll rest]

end

theorem ne_struct_of_isOpen {k : Kind} (h : k.isOpen = true) : k ≠ .keyword .struct := by
  rintro rfl
  cases h

theorem ne_struct_of_isClose {k : Kind} (h : k.isClose = true) : k ≠ .keyword .struct := by
  rintro rfl
  cases h

theorem ne_struct_of_unaryOp {k : Kind} (h : (UnaryOp.ofKind? k).isSome) : k ≠ .keyword .struct := by
  rintro rfl
  cases h

theorem ne_struct_of_binaryOp {k : Kind} (h : (BinaryOp.ofKind? k).isSome) : k ≠ .keyword .struct := by
  rintro rfl
  cases h

theorem ne_struct_of_entry {k : Token.Keyword} {ds : List TypeDecl} {c d : Cursor} (h : Derives (.entry k ds) c d) :
    Kind.keyword k ≠ .keyword .struct := by
  rintro heq
  cases heq
  cases h

/-- A derivation keeps the account: of the struct literals in its tokens some become part of types, and the others are
    kept or passed over. -/
theorem Derives.balanced {f : Form} {c d : Cursor} (h : Derives f c d) (keyword : Span) :
    c.count keyword = f.count keyword + d.count keyword := by
  induction h with
  | braces hkeyword hopen _ hclose ih =>
    have hkeyword := hkeyword.count_of_literal hopen.kindAt_zero keyword
    have hopen := hopen.count.resolve_left nofun keyword
    have hclose := hclose.count.resolve_left nofun keyword
    simp only [Form.count, Form.structs, StructType.inner, List.map_cons, List.count_cons, beq_iff_eq] at ih ⊢
    omega
  | passing _ hliteral htakes ih =>
    rw [ih, htakes.count_of_literal (htakes.kindAt_one.symm.trans hliteral.2), Cursor.count_pass]
  | anonymous _ ih =>
    rw [ih, Cursor.count_keep]
    simp [Form.count, Form.structs, LocalStruct.structs]
  | «local» htype hn _ ih =>
    rw [htype.count.resolve_left nofun, hn.count.resolve_left nofun, ih, Cursor.count_keep]
    simp [Form.count, Form.structs, LocalStruct.structs]
  | givesUp _ ih =>
    rw [ih, Cursor.count_keep, List.flatMap_map]
    simp [Form.count, Form.structs, LocalStruct.structs, structs_of_outerStructs]
  | single hkeyword hentry hsemi ih =>
    rw [hkeyword.count.resolve_left (ne_struct_of_entry hentry), ih, hsemi.count.resolve_left nofun]
    rfl
  | @grouped c d e f g h k ds hkeyword hopen _ hclose hsemi ih =>
    obtain ⟨_, hkeyword⟩ := hkeyword
    -- Whatever its keyword, a group without entries does not begin as a struct literal does.
    have hc : ¬ c.AtLiteral := fun hc => nomatch hc.2.symm.trans (hkeyword.kindAt_one.trans hopen.kindAt_zero)
    rw [hkeyword.count_of_not_atLiteral hc, hopen.count.resolve_left nofun, ih, hclose.count.resolve_left nofun,
      hsemi.count.resolve_left nofun]
    rfl
  | _ =>
    simp only [Form.count, Form.structs, TypeExpr.structs, FieldDecl.structs, structsOfAll_append,
      structsOfFields_append, List.flatMap_append, List.map_append, List.count_append, structsOfAll, structsOfFields,
      List.map_nil, List.count_nil, List.flatMap_nil, List.flatMap_cons, List.append_nil] at *
    grind [→ Cursor.Reads.count, → Cursor.MayRead.count, Cursor.Skips.count, → ne_struct_of_isOpen,
      → ne_struct_of_isClose, → ne_struct_of_unaryOp, → ne_struct_of_binaryOp]

end Parser

/-! ## Sites -/

/-- The keywords of the struct literals in a file, those of its type declarations and those kept beside them. -/
def SourceFile.keywords (file : SourceFile) : List Span :=
  (file.types.flatMap (·.type.structs) ++ file.locals.flatMap LocalStruct.structs).map (·.keyword)

namespace Site

theorem types_ofTypeDecl (i : Nat) (d : TypeDecl) : (ofTypeDecl i d).map (·.type) = d.type.structs := by
  unfold ofTypeDecl
  split
  · next st h => simp [h, TypeExpr.structs, List.map_map, Function.comp_def]
  · simp [List.map_map, Function.comp_def]

theorem types_ofLocal (i : Nat) (l : LocalStruct) : (ofLocal i l).map (·.type) = l.structs := by
  simp [ofLocal, LocalStruct.structs, List.map_map, Function.comp_def]

/-- The sites of a file are its struct literals, each once. -/
theorem keywords_ofFile_perm (i : Nat) (file : SourceFile) :
    ((ofFile i file).map (·.type.keyword)).Perm file.keywords := by
  have hsites : (file.types.flatMap (ofTypeDecl i) ++ file.locals.flatMap (ofLocal i)).map (·.type.keyword) =
      file.keywords := by
    have hmap (sites : List Site) : sites.map (·.type.keyword) = (sites.map (·.type)).map (·.keyword) := by simp
    simp only [hmap, SourceFile.keywords, List.map_append, List.map_flatMap, types_ofTypeDecl, types_ofLocal]
  exact hsites ▸ (List.mergeSort_perm _ _).map _

end Site

/-- A source file has the struct literals of its source, each once, without those that have been passed over. -/
theorem literals_of_parse {source : String} {file : SourceFile} (h : SourceFile.parse source = .ok file) :
    ∃ (ts : List Token) (passed : List Span), (Token.Stream.ofSource source).events = ts.map .ok ∧
      Parser.Derives (.file file.types) (.ofSource source) ⟨[], file.locals, passed⟩ ∧
      (Token.literals ts).Perm (file.keywords ++ passed) := by
  obtain ⟨ts, passed, hts, hderives⟩ := Parser.derives_of_parse h
  refine ⟨ts, passed, hts, hderives, List.perm_iff_count.2 fun keyword => ?_⟩
  have hbalanced := hderives.balanced keyword
  simp only [Parser.Cursor.count, Parser.Cursor.ofSource, Parser.Form.count, Parser.Form.structs, hts,
    Token.Event.literals, List.flatMap_nil, List.map_nil, List.count_nil, Nat.add_zero, Nat.zero_add] at hbalanced
  simp only [Token.literals, SourceFile.keywords, List.map_append, List.count_append]
  omega

theorem starts_of_literals_nodup {source : String} {ts : List Token}
    (h : (Token.Stream.ofSource source).events = ts.map .ok) : ((Token.literals ts).map (·.start)).Nodup := by
  have hkeywords := Token.Event.pairwise_keywords .struct source
  exact List.pairwise_map.2 (((h ▸ hkeywords).sublist (Token.Event.literals_sublist (ts.map .ok))).imp Nat.ne_of_lt)

namespace Site

variable {source : String} {file : SourceFile}

/-- The sites of a parsed file stand in order, no two at the same place. -/
theorem pairwise_ofFile (h : SourceFile.parse source = .ok file) (i : Nat) :
    (ofFile i file).Pairwise fun a b => a.type.keyword.start < b.type.keyword.start := by
  obtain ⟨ts, passed, hts, -, hperm⟩ := literals_of_parse h
  have hnodup : ((ofFile i file).map (·.type.keyword.start)).Nodup := by
    have hstarts := (hperm.map (·.start)).nodup_iff.1 (starts_of_literals_nodup hts)
    rw [List.map_append] at hstarts
    have hsites := ((keywords_ofFile_perm i file).map (·.start)).nodup_iff.2 (List.nodup_append.1 hstarts).1
    rwa [List.map_map] at hsites
  have hsorted : (ofFile i file).Pairwise fun a b => a.type.keyword.start ≤ b.type.keyword.start := by
    refine (List.pairwise_mergeSort ?_ ?_ _).imp of_decide_eq_true
    · intro a b c hab hbc
      exact decide_eq_true (Nat.le_trans (of_decide_eq_true hab) (of_decide_eq_true hbc))
    · intro a b
      simpa using Nat.le_total ..
  exact (hsorted.and (List.pairwise_map.1 hnodup)).imp fun ⟨hle, hne⟩ => Nat.lt_of_le_of_ne hle hne

/-- The sites of a parsed file have their keywords where the source has the word. -/
theorem spells_of_mem_ofFile (h : SourceFile.parse source = .ok file) {i : Nat} {s : Site} (hs : s ∈ ofFile i file) :
    s.type.keyword.Spells source "struct" := by
  obtain ⟨ts, passed, hts, -, hperm⟩ := literals_of_parse h
  have hkeyword : s.type.keyword ∈ Token.literals ts :=
    hperm.mem_iff.2 (List.mem_append_left _ ((keywords_ofFile_perm i file).mem_iff.1 (List.mem_map_of_mem hs)))
  have hspells : s.type.keyword.Spells source (Token.Keyword.spelling .struct) :=
    Token.Event.spells_of_mem_keywords (hts ▸ (Token.Event.literals_sublist _).subset hkeyword)
  exact hspells

end Site

/-- The end of the file is part of no struct literal. -/
theorem Token.literals_append_eof (ts : List Token) (span : Span) : literals (ts ++ [⟨.eof, span⟩]) = literals ts := by
  induction ts with
  | nil => rfl
  | cons t rest ih =>
    have hfirst : Event.literal? (.ok t :: (rest ++ [(⟨.eof, span⟩ : Token)]).map .ok) =
        Event.literal? (.ok t :: rest.map .ok) := by
      unfold Event.literal?
      cases rest <;> split <;> split <;> simp_all
    simp only [literals] at ih ⊢
    simp only [List.cons_append, List.map_cons, Event.literals, hfirst, ih]

/-- The struct literals among the tokens of a source that is parsed are the sites of the file, each once, and those that
    are passed over: those that stand in the constraints of type parameters, or in the arguments of calls, outside of
    all brackets there. -/
theorem literals_perm_sites {source : String} {file : SourceFile} (h : SourceFile.parse source = .ok file) :
    ∃ (ts : List Token) (passed : List Span), Token.tokenize source = .ok ts ∧
      Parser.Derives (.file file.types) (.ofSource source) ⟨[], file.locals, passed⟩ ∧
      (Token.literals ts).Perm ((Site.collect [file]).map (·.type.keyword) ++ passed) ∧ (Token.literals ts).Nodup := by
  obtain ⟨ts, passed, hts, hderives, hperm⟩ := literals_of_parse h
  refine ⟨ts ++ [(Token.Stream.ofSource source).eof], passed, Token.tokenize_of_events hts, hderives, ?_, ?_⟩
  · have hsites := Site.keywords_ofFile_perm 0 file
    rw [Token.Stream.eof, Token.literals_append_eof]
    simpa [Site.collect] using hperm.trans (hsites.symm.append_right passed)
  · rw [Token.Stream.eof, Token.literals_append_eof]
    exact (List.pairwise_map.1 (starts_of_literals_nodup hts)).imp fun hne heq => hne (congrArg _ heq)

/-- Struct literals in types, in skipped code, and directly in the constraint of a type parameter. -/
def placesSource : String := "package p\ntype G[T struct{}] struct{ v []struct{} }\nvar w func(struct{})\n"

theorem package_placesSource :
    (SourceFile.parse placesSource).toOption.map (·.package) = some "p" := by decide +kernel

theorem literals_perm_sites_places : ∃ file, SourceFile.parse placesSource = .ok file ∧
    ∃ (ts : List Token) (passed : List Span), Token.tokenize placesSource = .ok ts ∧
      Parser.Derives (.file file.types) (.ofSource placesSource) ⟨[], file.locals, passed⟩ ∧
      (Token.literals ts).Perm ((Site.collect [file]).map (·.type.keyword) ++ passed) ∧ (Token.literals ts).Nodup := by
  obtain ⟨file, hparse, -⟩ := exists_of_toOption_map package_placesSource
  exact ⟨file, hparse, literals_perm_sites hparse⟩

/-- A constant expression with a struct literal directly in the argument of a call. -/
def passedSource : String := "package p\nconst A = unsafe.Sizeof(struct{ a bool; b int64 }{})\n"

theorem sites_passedSource :
    (SourceFile.parse passedSource).toOption.map (fun file => (Site.collect [file]).map (·.type.keyword)) = some [] := by
  decide +kernel

theorem literals_passedSource :
    (Token.tokenize passedSource).toOption.map Token.literals = some [⟨34, 40⟩] := by decide +kernel

theorem not_all_literals_sites :
    ¬ ∀ (source : String) (file : SourceFile) (ts : List Token), SourceFile.parse source = .ok file →
      Token.tokenize source = .ok ts →
        ∀ keyword ∈ Token.literals ts, ∃ s ∈ Site.collect [file], s.type.keyword = keyword := by
  intro hall
  obtain ⟨file, hparse, hsites⟩ := exists_of_toOption_map sites_passedSource
  obtain ⟨ts, htokens, hliterals⟩ := exists_of_toOption_map literals_passedSource
  obtain ⟨s, hs, -⟩ := hall passedSource file ts hparse htokens ⟨34, 40⟩ (by simp [hliterals])
  simp [List.map_eq_nil_iff.1 hsites] at hs

end StructPadding
