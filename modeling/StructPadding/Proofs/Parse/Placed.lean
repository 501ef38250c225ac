-- SUMMARY: Everything the parser builds from a source lies between character boundaries of the source.
import StructPadding.Parse.File
import StructPadding.Proofs.Parse.Reading

/-!
# Placed files

The laws of reading carry over to all parsers, provided that they hold of the grammar the parsers recur through;
by induction on its depth they do. So every construct of a parsed file has a span within the source.
-/

namespace StructPadding.Parser

open Construct

/-- Whether the parsers of a grammar have well-placed results. -/
structure Grammar.Within (good : Nat → Prop) (g : Grammar) : Prop where
  type : Yields good g.type fun t => Construct.Within good (.type t)
  expr : ∀ p, Yields good (g.expr p) fun e => Construct.Within good (.expr e)
  unary : Yields good g.unary fun e => Construct.Within good (.expr e)

variable {good : Nat → Prop} {α : Type}

/-! ## Looking ahead -/

theorem yields_atLocalStruct : Yields good atLocalStruct fun _ => True := by
  apply yields_peekKind.bind
  intro _ _
  split
  · exact (yields_peekKindAt 1).bind fun _ _ => Keeps.pure trivial
  · refine (yields_peekKindAt 1).bind fun _ _ => Keeps.ite (fun _ => ?_) fun _ => Keeps.pure trivial
    refine (yields_peekKindAt 2).bind fun _ _ => Keeps.ite (fun _ => ?_) fun _ => Keeps.pure trivial
    exact (yields_peekKindAt 3).bind fun _ _ => Keeps.pure trivial
  · exact Keeps.pure trivial

theorem yields_atTypeParams : Yields good atTypeParams fun _ => True := by
  refine (yields_check _).bind fun _ _ => Keeps.ite (fun _ => ?_) fun _ => Keeps.pure trivial
  refine (yields_peekKindAt 1).bind fun _ _ => Keeps.ite (fun _ => ?_) fun _ => Keeps.pure trivial
  exact (yields_peekKindAt 2).bind fun _ _ => Keeps.pure trivial

theorem yields_atEnd : Yields good callArgs.atEnd fun _ => True :=
  (yields_check _).bind fun _ _ => Keeps.ite (fun _ => Keeps.pure trivial) fun _ => yields_check _

section

variable {g : Grammar} (hg : g.Within good)
include hg

/-! ## Names and struct literals -/

theorem yields_typeArgs : Yields good (typeArgs g) fun args => ∀ a ∈ args, Construct.Within good (.type a) := by
  have hnil : ∀ a ∈ ([] : List TypeExpr), Construct.Within good (.type a) := fun a ha => absurd ha List.not_mem_nil
  refine (yields_accept _).bind fun _ _ => Keeps.ite (fun _ => ?_) fun _ => Keeps.pure hnil
  refine Keeps.bind (yields_repeating hnil fun args hargs => ?_) fun args hargs =>
    (yields_expect _).bind fun _ _ => Keeps.pure hargs
  apply (yields_check _).bind
  intro _ _
  refine Keeps.ite (fun _ => Keeps.pure hargs) fun _ => ?_
  apply hg.type.bind
  intro t ht
  apply (yields_accept _).bind
  intro _ _
  exact Keeps.ite (fun _ => Keeps.pure (forall_mem_concat hargs ht)) fun _ => Keeps.pure (forall_mem_concat hargs ht)

theorem yields_typeName : Yields good (typeName g) fun t => Construct.Within good (.type t) := by
  apply yields_name.bind
  intro n hn
  apply (yields_accept _).bind
  intro _ _
  refine Keeps.ite (fun _ => ?_) fun _ => ?_
  · apply yields_identifier.bind
    intro _ _
    apply (yields_typeArgs hg).bind
    intro args hargs
    exact (yields_spanFrom hn).bind fun s hs => Keeps.pure (within_named hs hargs)
  · apply (yields_typeArgs hg).bind
    intro args hargs
    exact (yields_spanFrom hn).bind fun s hs => Keeps.pure (within_named hs hargs)

theorem yields_fieldBody : Yields good (fieldBody g) fun body => Construct.Within good (.type body.2) := by
  apply yields_peek.bind
  intro start hstart
  split
  · exact hg.type.bind fun t ht => Keeps.pure ht
  · apply (yields_peekKindAt 1).bind
    intro _ _
    refine Keeps.ite (fun _ => ?_) fun _ => ?_
    · exact (yields_typeName hg).bind fun t ht => Keeps.pure ht
    · apply (yields_commaSeparated (yields_identifier.mono fun _ _ => trivial)).bind
      intro names _
      exact hg.type.bind fun t ht => Keeps.pure ht
  · exact yields_fail hstart

theorem yields_field : Yields good (field g) fun d => Construct.Within good (.type d.type) := by
  apply yields_peek.bind
  intro start hstart
  apply (yields_fieldBody hg).bind
  intro body hbody
  apply yields_peekKind.bind
  intro kind _
  split
  · apply yields_advance.bind
    intro _ _
    exact (yields_spanFrom hstart).bind fun _ _ => Keeps.pure hbody
  · exact (yields_spanFrom hstart).bind fun _ _ => Keeps.pure hbody

theorem yields_structType : Yields good (structType g) fun st => Construct.Within good (.type (.struct st)) := by
  apply (yields_expect _).bind
  intro keyword hkeyword
  apply (yields_expect _).bind
  intro _ _
  apply (yields_entries fun _ _ => yields_field hg).bind
  intro fields hfields
  apply (yields_expect _).bind
  intro close hclose
  exact Keeps.pure (within_struct hkeyword (hkeyword.merge hclose) hfields)

/-! ## Skipping -/

theorem yields_localStruct : Yields good (localStruct g) fun _ => True := by
  apply (yields_accept _).bind
  intro _ _
  refine Keeps.ite (fun _ => ?_) fun _ => ?_
  · apply yields_identifier.bind
    intro _ _
    apply (yields_structType hg).bind
    intro st hst
    exact yields_keep (hst.part (.literal .self))
  · apply (yields_structType hg).bind
    intro st hst
    exact yields_keep (hst.part (.literal .self))

theorem yields_skipGroup : Yields good (skipGroup g) fun _ => True := by
  refine yields_advance.bind fun opening hopening => Keeps.ite (fun _ => ?_) fun _ => yields_fail_bind hopening
  refine Keeps.bind (yields_repeating (Q := fun _ => True) trivial fun depth _ => ?_) fun _ _ => Keeps.pure trivial
  apply yields_atLocalStruct.bind
  intro _ _
  refine Keeps.ite (fun _ => ?_) fun _ => ?_
  · exact (yields_localStruct hg).bind fun _ _ => Keeps.pure trivial
  · apply yields_advance.bind
    intro t ht
    refine Keeps.ite (fun _ => Keeps.pure trivial) fun _ => ?_
    refine Keeps.ite (fun _ => ?_) fun _ => ?_
    · exact Keeps.ite (fun _ => Keeps.pure trivial) fun _ => Keeps.pure trivial
    · exact Keeps.ite (fun _ => yields_fail_bind ht) fun _ => Keeps.pure trivial

theorem yields_skipUntil (stop : Token.Kind → Bool) : Yields good (skipUntil g stop) fun _ => True := by
  refine yields_repeating trivial fun _ _ => yields_peek.bind fun t ht => ?_
  refine Keeps.ite (fun _ => Keeps.pure trivial) fun _ => Keeps.ite (fun _ => ?_) fun _ => ?_
  · exact (yields_skipGroup hg).bind fun _ _ => Keeps.pure trivial
  · refine Keeps.ite (fun _ => ?_) fun _ => yields_advance.bind fun _ _ => Keeps.pure trivial
    exact yields_fail_bind ht

theorem yields_skipDeclaration : Yields good (skipDeclaration g) fun _ => True := by
  refine yields_repeating trivial fun _ _ => yields_atLocalStruct.bind fun _ _ => ?_
  refine Keeps.ite (fun _ => (yields_localStruct hg).bind fun _ _ => Keeps.pure trivial) fun _ => ?_
  apply yields_peek.bind
  intro t ht
  refine Keeps.ite (fun _ => yields_advance.bind fun _ _ => Keeps.pure trivial) fun _ => ?_
  refine Keeps.ite (fun _ => Keeps.pure trivial) fun _ => Keeps.ite (fun _ => ?_) fun _ => ?_
  · exact (yields_skipGroup hg).bind fun _ _ => Keeps.pure trivial
  · refine Keeps.ite (fun _ => ?_) fun _ => yields_advance.bind fun _ _ => Keeps.pure trivial
    exact yields_fail_bind ht

/-! ## Expressions -/

/-- Whether what is known of the arguments of a call is well placed. -/
def ArgsWithin (good : Nat → Prop) (args : Option (List Expr)) : Prop :=
  ∀ e ∈ args.getD [], Construct.Within good (.expr e)

omit hg in
theorem ArgsWithin.concat {args : Option (List Expr)} {e : Expr} (hargs : ArgsWithin good args)
    (he : Construct.Within good (.expr e)) : ArgsWithin good (args.map (· ++ [e])) := by
  cases args with
  | none => exact hargs
  | some es => exact forall_mem_concat hargs he

theorem yields_callArgs : Yields good (callArgs g) (ArgsWithin good) := by
  have hnil : ArgsWithin good (some []) := fun e he => absurd he List.not_mem_nil
  have hnone : ArgsWithin good none := fun e he => absurd he List.not_mem_nil
  refine (yields_expect _).bind fun _ _ => Keeps.bind (yields_repeating hnil fun args hargs => ?_) fun args hargs =>
    (yields_expect _).bind fun _ _ => Keeps.pure hargs
  apply (yields_check _).bind
  intro _ _
  refine Keeps.ite (fun _ => Keeps.pure hargs) fun _ => ?_
  apply yields_peekKind.bind
  intro _ _
  -- what follows an argument, and what follows it up to its end
  extract_lets comma rest
  have hcomma : ∀ args, ArgsWithin good args → Yields good (comma args) fun step => ArgsWithin good step.value :=
    fun args hargs => (yields_accept _).bind fun _ _ =>
      Keeps.ite (fun _ => Keeps.pure hargs) fun _ => Keeps.pure hargs
  have hrest : ∀ args, ArgsWithin good args → Yields good (rest args) fun step => ArgsWithin good step.value := by
    refine fun args hargs => yields_atEnd.bind fun _ _ => Keeps.ite (fun _ => ?_) fun _ => ?_
    · exact (Keeps.pure hargs).bind hcomma
    · exact (yields_skipUntil hg _).bind fun _ _ => (Keeps.pure hnone).bind hcomma
  refine Keeps.ite (fun _ => ?_) fun _ => (Keeps.pure hargs).bind hrest
  exact (hg.expr 1).bind fun e he => (Keeps.pure (hargs.concat he)).bind hrest

omit hg in
theorem within_applied {callee : Expr} {args : Option (List Expr)} {span : Span} (hs : span.Within good)
    (hargs : ArgsWithin good args) : Construct.Within good (.expr (applied callee args span)) := by
  unfold applied
  split
  · next x =>
    split
    · exact within_convert hs (hargs x (List.mem_singleton_self x))
    · exact within_other hs
  · exact within_other hs

theorem yields_operand : Yields good (operand g) fun e => Construct.Within good (.expr e) := by
  apply yields_advance.bind
  intro t ht
  split
  · split
    · exact Keeps.pure (within_int ht)
    · exact yields_fail ht
  · split
    · exact Keeps.pure (within_int ht)
    · exact Keeps.pure (within_other ht)
  · exact Keeps.pure (within_other ht)
  · exact Keeps.pure (within_iota ht)
  · refine (yields_accept _).bind fun _ _ => Keeps.ite (fun _ => ?_) fun _ => Keeps.pure (within_name ht)
    apply yields_identifier.bind
    intro _ _
    exact (yields_spanFrom ht).bind fun s hs => Keeps.pure (within_name hs)
  · apply (hg.expr 1).bind
    intro inner hinner
    apply (yields_expect _).bind
    intro close hclose
    exact Keeps.pure (within_withSpan (ht.merge hclose) hinner)
  · exact yields_fail ht

theorem yields_primaryExpr : Yields good (primaryExpr g) fun e => Construct.Within good (.expr e) := by
  apply yields_peek.bind
  intro start hstart
  apply (yields_operand hg).bind
  intro e he
  refine yields_repeating he fun e he => (yields_check _).bind fun _ _ => ?_
  refine Keeps.ite (fun _ => ?_) fun _ => Keeps.pure he
  apply (yields_callArgs hg).bind
  intro args hargs
  exact (yields_spanFrom hstart).bind fun s hs => Keeps.pure (within_applied hs hargs)

theorem yields_unaryExpr : Yields good (unaryExpr g) fun e => Construct.Within good (.expr e) := by
  apply yields_peekKind.bind
  intro kind _
  split
  · exact yields_primaryExpr hg
  · apply yields_advance.bind
    intro t ht
    apply hg.unary.bind
    intro x hx
    exact Keeps.pure (within_unary (ht.merge hx.span) hx)

theorem yields_binaryExpr (precedence : Nat) :
    Yields good (binaryExpr g precedence) fun e => Construct.Within good (.expr e) := by
  apply (yields_unaryExpr hg).bind
  intro first hfirst
  refine yields_repeating hfirst fun l hl => ?_
  apply yields_peekKind.bind
  intro kind _
  split
  · exact Keeps.pure hl
  · refine Keeps.ite (fun _ => Keeps.pure hl) fun _ => yields_advance.bind fun _ _ => ?_
    exact (hg.expr _).bind fun r hr => Keeps.pure (within_binary (hl.span.merge hr.span) hl hr)

/-! ## Types -/

theorem yields_skipSignature : Yields good (skipSignature g) fun _ => True := by
  apply (yields_require _).bind
  intro _ _
  apply (yields_skipGroup hg).bind
  intro _ _
  apply (yields_check _).bind
  intro _ _
  refine Keeps.ite (fun _ => yields_skipGroup hg) fun _ => ?_
  refine yields_peekKind.bind fun _ _ => Keeps.ite (fun _ => ?_) fun _ => Keeps.pure trivial
  exact hg.type.bind fun t ht => yields_keepStructs ht

theorem yields_bracketType {start : Span} (hstart : start.Within good) :
    Yields good (bracketType g start) fun t => Construct.Within good (.type t) := by
  apply (yields_accept _).bind
  intro _ _
  refine Keeps.ite (fun _ => ?_) fun _ => ?_
  · apply hg.type.bind
    intro e he
    exact (yields_spanFrom hstart).bind fun s hs => Keeps.pure (within_slice hs he)
  · apply (yields_check _).bind
    intro _ _
    refine Keeps.ite (fun _ => yields_fail_bind hstart) fun _ => ?_
    apply (hg.expr 1).bind
    intro n hn
    apply (yields_expect _).bind
    intro _ _
    apply hg.type.bind
    intro e he
    exact (yields_spanFrom hstart).bind fun s hs => Keeps.pure (within_array hs hn he)

theorem yields_typeExpr : Yields good (typeExpr g) fun t => Construct.Within good (.type t) := by
  apply yields_peek.bind
  intro t ht
  have hspan := yields_spanFrom ht
  split
  · exact yields_typeName hg
  · apply yields_advance.bind
    intro _ _
    apply hg.type.bind
    intro e he
    exact hspan.bind fun s hs => Keeps.pure (within_pointer hs he)
  · exact yields_advance.bind fun _ _ => yields_bracketType hg ht
  · apply yields_advance.bind
    intro _ _
    apply (yields_expect _).bind
    intro _ _
    apply hg.type.bind
    intro k hk
    apply (yields_expect _).bind
    intro _ _
    apply hg.type.bind
    intro v hv
    exact hspan.bind fun s hs => Keeps.pure (within_map hs hk hv)
  · apply yields_advance.bind
    intro _ _
    apply (yields_accept _).bind
    intro _ _
    extract_lets rest
    have hrest : ∀ d, True → Yields good (rest d) fun t => Construct.Within good (.type t) :=
      fun d _ => hg.type.bind fun e he => hspan.bind fun s hs => Keeps.pure (within_chan hs he)
    exact Keeps.ite (fun _ => (Keeps.pure trivial).bind hrest) fun _ => (Keeps.pure trivial).bind hrest
  · apply yields_advance.bind
    intro _ _
    apply (yields_expect _).bind
    intro _ _
    apply hg.type.bind
    intro e he
    exact hspan.bind fun s hs => Keeps.pure (within_chan hs he)
  · apply yields_advance.bind
    intro _ _
    apply (yields_skipSignature hg).bind
    intro _ _
    exact hspan.bind fun s hs => Keeps.pure (within_func hs)
  · apply yields_advance.bind
    intro _ _
    apply (yields_require _).bind
    intro _ _
    apply (yields_skipGroup hg).bind
    intro _ _
    exact hspan.bind fun s hs => Keeps.pure (within_interface hs)
  · exact (yields_structType hg).bind fun st hst => Keeps.pure hst
  · apply yields_advance.bind
    intro _ _
    apply hg.type.bind
    intro t ht
    exact (yields_expect _).bind fun _ _ => Keeps.pure ht
  · exact yields_fail ht

/-! ## Declarations -/

theorem yields_typeParams : Yields good (typeParams g) fun _ => True := by
  refine (yields_expect _).bind fun _ _ => Keeps.bind (yields_repeating (Q := fun _ => True) trivial fun _ _ => ?_)
    fun _ _ => (yields_expect _).bind fun _ _ => Keeps.pure trivial
  apply (yields_check _).bind
  intro _ _
  refine Keeps.ite (fun _ => Keeps.pure trivial) fun _ => ?_
  apply yields_identifier.bind
  intro _ _
  apply (yields_accept _).bind
  intro _ _
  refine Keeps.ite (fun _ => Keeps.pure trivial) fun _ => (yields_skipUntil hg _).bind fun _ _ => ?_
  exact (yields_accept _).bind fun _ _ => Keeps.ite (fun _ => Keeps.pure trivial) fun _ => Keeps.pure trivial

theorem yields_typeDecl : Yields good (typeDecl g) fun d => Construct.Within good (.typeDecl d) := by
  apply yields_peek.bind
  intro start hstart
  apply yields_identifier.bind
  intro n _
  apply yields_atTypeParams.bind
  intro _ _
  extract_lets rest
  have hrest : ∀ params, True → Yields good (rest params) fun d => Construct.Within good (.typeDecl d) := by
    refine fun params _ => (yields_accept _).bind fun _ _ => (yields_typeExpr hg).bind fun t ht => ?_
    exact (yields_spanFrom hstart).bind fun s hs => Keeps.pure (within_typeDecl hs ht)
  exact Keeps.ite (fun _ => (yields_typeParams hg).bind hrest) fun _ => (Keeps.pure trivial).bind hrest

theorem yields_constDecl {before : List ConstDecl} (hbefore : ∀ d ∈ before, Construct.Within good (.constDecl d)) :
    Yields good (constDecl g before) fun d => Construct.Within good (.constDecl d) := by
  have hprevious : ∀ e ∈ (before.getLast?.map (·.values)).getD [], Construct.Within good (.expr e) := by
    cases hlast : before.getLast? with
    | none => exact fun e he => absurd he List.not_mem_nil
    | some d => exact fun e he => (hbefore d (List.mem_of_getLast? hlast)).part (.initial he .self)
  apply yields_peek.bind
  intro start hstart
  apply (yields_commaSeparated yields_name).bind
  intro names hnames
  apply yields_peekKind.bind
  intro _ _
  extract_lets typed previous ending rest
  have hending : ∀ values, (∀ e ∈ values, Construct.Within good (.expr e)) →
      Yields good (ending values) fun d => Construct.Within good (.constDecl d) := fun values hvalues =>
    (yields_spanFrom hstart).bind fun s hs => Keeps.pure (within_constDecl hs hnames hvalues)
  have hrest : ∀ u, True → Yields good (rest u) fun d => Construct.Within good (.constDecl d) := by
    refine fun _ _ => (yields_accept _).bind fun _ _ => Keeps.ite (fun _ => ?_) fun _ => ?_
    · exact (yields_commaSeparated (yields_binaryExpr hg 1)).bind hending
    · refine Keeps.ite (fun _ => ?_) fun _ => (Keeps.pure hprevious).bind hending
      exact (yields_spanFrom hstart).bind fun s hs => yields_fail_bind hs
  refine Keeps.ite (fun _ => ?_) fun _ => hrest () trivial
  exact (yields_typeExpr hg).bind fun t ht => (yields_keepStructs ht).bind hrest

end

/-! ## Files -/

/-- Whether the declarations of a file are well placed. -/
structure DeclarationsWithin (good : Nat → Prop) (f : SourceFile) : Prop where
  types : ∀ d ∈ f.types, Construct.Within good (.typeDecl d)
  consts : ∀ d ∈ f.consts, Construct.Within good (.constDecl d)

theorem yields_importAlias : Yields good importAlias fun _ => True := by
  apply yields_peekKind.bind
  intro _ _
  split
  · exact yields_advance.bind fun _ _ => Keeps.pure trivial
  · exact yields_advance.bind fun _ _ => Keeps.pure trivial
  · exact Keeps.pure trivial

theorem yields_importSpec : Yields good importSpec fun _ => True := by
  apply yields_peek.bind
  intro start hstart
  apply yields_importAlias.bind
  intro _ _
  apply yields_advance.bind
  intro t ht
  split
  · exact (yields_spanFrom hstart).bind fun _ _ => Keeps.pure trivial
  · exact yields_fail ht

theorem yields_declaration {keyword : Token.Keyword} {entry : List α → Parser α} {P : α → Prop}
    (h : ∀ done, (∀ a ∈ done, P a) → Yields good (entry done) P) :
    Yields good (declaration keyword entry) fun as => ∀ a ∈ as, P a :=
  (yields_expect _).bind fun _ _ => (yields_group h).bind fun _ has =>
    yields_declarationEnd.bind fun _ _ => Keeps.pure has

theorem yields_declarations {g : Grammar} (hg : g.Within good) {file : SourceFile}
    (hfile : DeclarationsWithin good file) : Yields good (declarations g file) (DeclarationsWithin good) := by
  refine yields_repeating hfile fun f hf => yields_peek.bind fun t ht => ?_
  split
  · exact Keeps.pure hf
  · exact yields_advance.bind fun _ _ => Keeps.pure hf
  · apply (yields_declaration (P := fun _ => True) fun _ _ => yields_importSpec).bind
    intro _ _
    exact Keeps.pure ⟨hf.types, hf.consts⟩
  · refine (yields_declaration fun _ _ => yields_typeDecl hg).bind fun ds hds => Keeps.pure ⟨?_, hf.consts⟩
    exact fun d hd => (List.mem_append.1 hd).elim (hf.types d) (hds d)
  · refine (yields_declaration fun _ hdone => yields_constDecl hg hdone).bind fun ds hds =>
      Keeps.pure ⟨hf.types, ?_⟩
    exact fun d hd => (List.mem_append.1 hd).elim (hf.consts d) (hds d)
  · exact (yields_skipDeclaration hg).bind fun _ _ => Keeps.pure hf
  · exact (yields_skipDeclaration hg).bind fun _ _ => Keeps.pure hf
  · exact yields_fail ht

theorem yields_takeLocals :
    Yields good takeLocals fun ls => ∀ l ∈ ls, Construct.Within good (.struct l.type) :=
  fun _ hs => ⟨⟨hs.stream, hs.lastStop, fun _ hl => absurd hl List.not_mem_nil⟩, hs.locals⟩

/-- All grammars are well placed, whatever their depth. -/
theorem Grammar.within_ofDepth (n : Nat) : (Grammar.ofDepth n).Within good := by
  induction n with
  -- at depth zero every parser fails at the end of the source
  | zero => exact ⟨yields_exhausted, fun _ => yields_exhausted, yields_exhausted⟩
  | succ n ih => exact ⟨yields_typeExpr ih, yields_binaryExpr ih, yields_unaryExpr ih⟩

theorem yields_withGrammar {p : Grammar → Parser α} {Q : α → Prop}
    (h : ∀ g : Grammar, g.Within good → Yields good (p g) Q) : Yields good (withGrammar p) Q :=
  fun s hs => h _ (Grammar.within_ofDepth _) s hs

theorem yields_packageClause : Yields good packageClause (DeclarationsWithin good) := by
  refine yields_peek.bind fun start _ => ?_
  apply (yields_expect _).bind
  intro _ _
  apply yields_identifier.bind
  intro package _
  apply yields_declarationEnd.bind
  intro _ _
  refine Keeps.pure ⟨?_, ?_⟩
  · exact fun d hd => absurd hd List.not_mem_nil
  · exact fun d hd => absurd hd List.not_mem_nil

theorem yields_sourceFile : Yields good sourceFile fun f => ∀ root, f.Root root → root.Within good := by
  refine yields_withGrammar fun g hg => yields_packageClause.bind fun start hstart => ?_
  refine Keeps.bind (yields_declarations hg hstart) fun f hf => ?_
  apply yields_takeLocals.bind
  intro ls hls
  apply Keeps.get.bind
  intro s _
  refine Keeps.pure ?_
  intro root hroot
  cases hroot with
  | type hd => exact hf.types _ hd
  | const hd => exact hf.consts _ hd
  | literal hl => exact hls _ hl

end StructPadding.Parser

namespace StructPadding

/-- Every construct of a parsed file stands between character boundaries of the source. -/
theorem SourceFile.Has.within_of_parse {source : String} {f : SourceFile} {c : Construct} (h : f.Has c)
    (hparse : parse source = .ok f) : c.span.Within (IsBoundary source) := by
  have hstate : (Parser.State.ofSource source).Within (IsBoundary source) :=
    ⟨Token.Stream.within_ofSource source, isBoundary_zero source, fun _ hl => absurd hl List.not_mem_nil⟩
  obtain ⟨t, hres⟩ := parse_eq_ok_iff.1 hparse
  have hfile := Parser.yields_sourceFile _ hstate
  rw [hres] at hfile
  obtain ⟨root, hroot, hpart⟩ := h
  exact hfile.2 root hroot c hpart

end StructPadding
