-- SUMMARY: Types and expressions stand between the tokens taken for them, with the spans inside them nested.
import StructPadding.Proofs.Parse.Forward

/-!
# Nested types and expressions

A parser of a type, a field or an expression closes its span when everything inside has been taken, so the spans nest.
There is one statement for each parser. Types and expressions recur through the grammar, and are nested by induction on
its depth.
-/

namespace StructPadding.Parser

open Token (Kind)
open State (between_later makes_of_inner makes_of_token merge_next)

variable {good : Nat → Prop} {base : Nat} {g : Grammar} {s t : State}

/-- Whether the parsers of a grammar make nested types and expressions. -/
structure Grammar.Nests (good : Nat → Prop) (base : Nat) (g : Grammar) : Prop where
  type : ∀ s, Goes good base g.type s fun t u => s.Makes good (.type t) u
  expr : ∀ p s, Goes good base (g.expr p) s fun e u => s.Makes good (.expr e) u
  unary : ∀ s, Goes good base g.unary s fun e u => s.Makes good (.expr e) u

theorem goes_identifiers : Goes good base (commaSeparated identifier) s fun _ u => s.Past u :=
  goes_commaSeparated (fun _ _ _ htu h => h.later htu) goes_identifier fun _ _ _ _ has =>
    goes_identifier.mono fun _ _ _ htu _ => has.later htu

section

variable (hg : g.Nests good base)
include hg

/-! ## Struct literals -/

theorem goes_typeArgs : Goes good base (typeArgs g) s fun ts u => s.MakesAll good .type ts u := by
  refine .ifAccept (isFixed_symbol .lBracket) (fun t _ hst _ => ?_) (.pure .nil)
  apply Goes.bind (P := fun ts u => s.MakesAll good .type ts u)
  · refine goes_repeating .nil fun ts u _ htu hts => ?_
    refine .ifCheck (.pure hts) ?_
    apply (hg.type u).bind
    intro a v _ huv ha
    have hmore : s.MakesAll good .type (ts ++ [a]) v := (hts.later huv).concat (ha.after (hst.trans htu))
    exact .ifAccept (isFixed_symbol .comma) (fun _ _ hvw _ => .pure (hmore.later hvw)) (.pure hmore)
  · intro ts u _ _ hts
    exact (goes_expect (isFixed_symbol .rBracket)).bind fun _ _ _ huv _ => .pure (hts.later huv)

theorem goes_typeName : Goes good base (typeName g) s fun t u => s.Makes good (.type t) u := by
  refine .intro fun hs => goes_name.bind fun first t _ hst ⟨hname, _, hfirst⟩ => ?_
  refine .ifAccept (isFixed_symbol .dot) (fun u _ htu _ => ?_) ?_
  · apply goes_identifier.bind
    intro member v _ huv _
    apply (goes_typeArgs hg).bind
    intro args w _ hvw hargs
    have hpast := hfirst.past.later ((htu.trans huv).trans hvw)
    exact goes_closed hname hs hpast (fun _ => rfl) fun _ => (hargs.after ((hst.trans htu).trans huv)).map
  · apply (goes_typeArgs hg).bind
    intro args u _ htu hargs
    exact goes_closed hname hs (hfirst.past.later htu) (fun _ => rfl) fun _ => (hargs.after hst).map

theorem goes_fieldBody : Goes good base (fieldBody g) s fun f u => s.Makes good (.type f.2) u := by
  refine looks_peek.bind fun start _ _ => ?_
  split
  · exact (hg.type s).bind fun _ _ _ _ h => .pure h
  · refine (looks_peekKindAt 1).bind fun _ _ _ => .ite (fun _ => ?_) fun _ => ?_
    · exact (goes_typeName hg).bind fun _ _ _ _ h => .pure h
    · apply goes_identifiers.bind
      intro names t _ hst hnames
      exact (hg.type t).bind fun _ _ _ htu h => .pure ⟨hnames.later htu, h.after hst⟩
  · exact goes_fail

theorem goes_field : Goes good base (field g) s fun f u => s.Makes good (.field f) u := by
  refine looks_peek.bind fun start hs hstart => ?_
  apply (goes_fieldBody hg).bind
  rintro ⟨names, type⟩ t _ hst hbody
  have hclosed (tag : Option String) {u : State} (htu : t.Before u) :
      Goes good base (do return (⟨names, type, tag, ← spanFrom start.span⟩ : FieldDecl)) u
        fun f v => s.Makes good (.field f) v := by
    refine goes_closed hstart.2 hs (hbody.past.later htu) (fun _ => rfl) fun _ => ?_
    exact List.forall_mem_singleton.2 (between_later hbody.between htu)
  refine looks_peekKind.bind fun k _ _ => ?_
  split
  · exact goes_advance.bind fun _ _ _ htu _ => hclosed _ htu
  · exact hclosed _ (.refl t)

theorem goes_structType : Goes good base (structType g) s fun st u => s.Makes good (.struct st) u := by
  refine .intro fun hs => (goes_expect (isFixed_keyword .struct)).bind fun keyword t ht hst hkeyword => ?_
  apply (goes_expect (isFixed_symbol .lBrace)).bind
  intro _ u _ htu _
  apply (goes_entries_all (N := .field) fun _ _ => goes_field hg).bind
  intro fields v hv huv hfields
  apply (goes_expect (isFixed_symbol .rBrace)).bind
  intro close w hw hvw hclose
  have hsv : s.Before v := (hst.trans htu).trans huv
  have hword : s.Makes good (.word keyword.span) t := makes_of_token hs ht hkeyword.2 hkeyword.1 rfl
  have hpast : s.Past v := hword.past.later (htu.trans huv)
  refine .pure (makes_of_inner hs hw (hpast.later hvw) ?_ (List.forall_mem_cons.2 ⟨?_, ?_⟩))
  · rw [hclose.2, ← merge_next hpast hsv hv, ← hkeyword.1, ← hclose.1]
    rfl
  · exact between_later hword.between ((htu.trans huv).trans hvw)
  · exact ((hfields.after (hst.trans htu)).later hvw).map

/-! ## Skipped code -/

omit hg in
theorem looks_atLocalStruct : Looks good base atLocalStruct s fun _ => True := by
  refine looks_peekKind.bind fun k _ _ => ?_
  split
  · exact (looks_peekKindAt 1).bind fun _ _ _ => Looks.pure trivial
  · refine (looks_peekKindAt 1).bind fun _ _ _ => .ite (fun _ => ?_) fun _ => Looks.pure trivial
    refine (looks_peekKindAt 2).bind fun _ _ _ => .ite (fun _ => ?_) fun _ => Looks.pure trivial
    exact (looks_peekKindAt 3).bind fun _ _ _ => Looks.pure trivial
  · exact Looks.pure trivial

theorem goes_localStruct : Goes good base (localStruct g) s fun _ _ => True := by
  have hliteral (name : Option String) (t : State) :
      Goes good base (do keep ⟨name, ← structType g⟩) t fun _ _ => True := by
    refine .intro fun ht => (goes_structType hg).bind fun st u _ _ hst => ?_
    exact (goes_keep (l := ⟨name, st⟩) (hst.kept ht)).mono fun _ _ _ _ _ => trivial
  refine .ifAccept (isFixed_keyword .type) (fun t _ _ _ => ?_) (hliteral none s)
  exact goes_identifier.bind fun n u _ _ _ => hliteral (some n) u

theorem goes_skipGroup : Goes good base (skipGroup g) s fun _ _ => True := by
  apply goes_advance.bind
  intro opening t _ _ _
  refine .ite (fun _ => ?_) fun _ => goes_fail_bind
  refine Goes.bind (P := fun _ _ => True) (goes_repeating trivial fun depth u _ _ _ => ?_) fun _ _ _ _ _ =>
    .pure trivial
  refine looks_atLocalStruct.bind fun _ _ _ => .ite (fun _ => ?_) fun _ => ?_
  · exact (goes_localStruct hg).bind fun _ _ _ _ _ => .pure trivial
  apply goes_advance.bind
  intro _ _ _ _ _
  refine .ite (fun _ => .pure trivial) fun _ => .ite (fun _ => ?_) fun _ => ?_
  · exact .ite (fun _ => .pure trivial) fun _ => .pure trivial
  · exact .ite (fun _ => goes_fail_bind) fun _ => .pure trivial

theorem goes_skipUntil (stop : Kind → Bool) : Goes good base (skipUntil g stop) s fun _ _ => True := by
  refine goes_repeating trivial fun _ t _ _ _ => looks_peek.bind fun _ _ _ => ?_
  refine .ite (fun _ => .pure trivial) fun _ => .ite (fun _ => ?_) fun _ => .ite (fun _ => goes_fail_bind) fun _ => ?_
  · exact (goes_skipGroup hg).bind fun _ _ _ _ _ => .pure trivial
  · exact goes_advance.bind fun _ _ _ _ _ => .pure trivial

theorem goes_skipDeclaration : Goes good base (skipDeclaration g) s fun _ _ => True := by
  refine goes_repeating trivial fun _ t _ _ _ => looks_atLocalStruct.bind fun _ _ _ => .ite (fun _ => ?_) fun _ => ?_
  · exact (goes_localStruct hg).bind fun _ _ _ _ _ => .pure trivial
  refine looks_peek.bind fun _ _ _ => .ite (fun _ => ?_) fun _ => .ite (fun _ => .pure trivial) fun _ => ?_
  · exact goes_advance.bind fun _ _ _ _ _ => .pure trivial
  refine .ite (fun _ => ?_) fun _ => .ite (fun _ => goes_fail_bind) fun _ => ?_
  · exact (goes_skipGroup hg).bind fun _ _ _ _ _ => .pure trivial
  · exact goes_advance.bind fun _ _ _ _ _ => .pure trivial

/-! ## Expressions -/

omit hg in
theorem looks_atEnd : Looks good base callArgs.atEnd s fun _ => True :=
  .ifCheck (Looks.pure trivial) ((looks_check _).mono fun _ _ _ _ h => ⟨h.1, trivial⟩)

theorem goes_callArgs :
    Goes good base (callArgs g) s fun args u => s.MakesAll good .expr (args.getD []) u := by
  apply (goes_expect (isFixed_symbol .lParen)).bind
  intro _ t _ hst _
  apply Goes.bind (P := fun args u => s.MakesAll good .expr (args.getD []) u)
  · refine goes_repeating .nil fun args u _ htu hargs => ?_
    refine .ifCheck (.pure hargs) (looks_peekKind.bind fun k _ _ => ?_)
    -- What follows an argument, and what follows it up to its end.
    extract_lets comma rest
    have hcomma (args : Option (List Expr)) (v : State) (hargs : s.MakesAll good .expr (args.getD []) v) :
        Goes good base (comma args) v fun step w => s.MakesAll good .expr (step.value.getD []) w :=
      .ifAccept (isFixed_symbol .comma) (fun _ _ hvw _ => .pure (hargs.later hvw)) (.pure hargs)
    have hrest (args : Option (List Expr)) (v : State) (hargs : s.MakesAll good .expr (args.getD []) v) :
        Goes good base (rest args) v fun step w => s.MakesAll good .expr (step.value.getD []) w := by
      refine looks_atEnd.bind fun _ _ _ => .ite (fun _ => hcomma args v hargs) fun _ => ?_
      exact (goes_skipUntil hg _).bind fun _ w _ _ _ => hcomma none w .nil
    refine .ite (fun _ => ?_) fun _ => hrest args u hargs
    apply (hg.expr 1 u).bind
    intro e v _ huv he
    refine hrest _ v ?_
    cases args with
    | none => exact .nil
    | some es => exact (hargs.later huv).concat (he.after (hst.trans htu))
  · intro args u _ _ hargs
    exact (goes_expect (isFixed_symbol .rParen)).bind fun _ _ _ huv _ => .pure (hargs.later huv)

omit hg in
@[simp] theorem span_applied (callee : Expr) (args : Option (List Expr)) (span : Span) :
    (applied callee args span).span = span := by
  unfold applied
  split
  · split <;> rfl
  · rfl

omit hg in
/-- Of a call nothing is kept but arguments. -/
theorem inner_applied {callee : Expr} {args : Option (List Expr)} {span : Span} {c : SyntaxNode}
    (hc : c ∈ (SyntaxNode.expr (applied callee args span)).inner) : c ∈ (args.getD []).map .expr := by
  unfold applied at hc
  split at hc
  · split at hc
    · exact hc
    · exact absurd hc List.not_mem_nil
  · exact absurd hc List.not_mem_nil

theorem goes_operand : Goes good base (operand g) s fun e u => s.Makes good (.expr e) u := by
  refine .intro fun hs => goes_advance.bind fun t u hu hsu ht => ?_
  obtain ⟨-, hspan, hstop⟩ := ht
  have hleaf {e : Expr} (hkind : t.kind ≠ .eof) (he : e.span = t.span) (hinner : (SyntaxNode.expr e).inner = []) :
      s.Makes good (.expr e) u := makes_of_token hs hu (hstop hkind) (he.trans hspan) hinner
  split
  · next hkind =>
    split
    · exact .pure (hleaf (by simp [hkind]) rfl rfl)
    · exact goes_fail
  · next hkind =>
    split
    · exact .pure (hleaf (by simp [hkind]) rfl rfl)
    · exact .pure (hleaf (by simp [hkind]) rfl rfl)
  · next hkind => exact .pure (hleaf (by simp [hkind]) rfl rfl)
  · next hkind => exact .pure (hleaf (by simp [hkind]) rfl rfl)
  · next hkind =>
    have hpast : s.Past u := .of_eq (hstop (by simp [hkind]))
    refine .ifAccept (isFixed_symbol .dot) (fun v _ huv _ => ?_) (.pure (hleaf (by simp [hkind]) rfl rfl))
    apply goes_identifier.bind
    intro member w _ hvw _
    exact goes_closed hspan hs (hpast.later (huv.trans hvw)) (fun _ => rfl) nofun
  · next hkind =>
    have hpast : s.Past u := .of_eq (hstop (by simp [hkind]))
    apply (hg.expr 1 u).bind
    intro inner v hv huv hinner
    apply (goes_expect (isFixed_symbol .rParen)).bind
    intro close w hw hvw hclose
    have hpast : s.Past v := hpast.later huv
    have hmerge : t.span.merge close.span = ⟨s.next.start, w.lastStop⟩ := by
      rw [hspan, hclose.1, hclose.2, merge_next hpast (hsu.trans huv) hv]
    have hbetween := between_later (hinner.after hsu) hvw
    refine .pure ?_
    rw [hmerge]
    refine ⟨hpast.later hvw, SyntaxNode.nested_withSpan ((hpast.later hvw).within hs hw) hbetween, ?_, ?_⟩
    · simp [SyntaxNode.span]
    · simp [SyntaxNode.span]
  · exact goes_fail

theorem goes_primaryExpr : Goes good base (primaryExpr g) s fun e u => s.Makes good (.expr e) u := by
  refine looks_peek.bind fun start hs hstart => ?_
  apply (goes_operand hg).bind
  intro first t _ hst hfirst
  refine goes_repeating (I := fun e u => s.Makes good (.expr e) u) hfirst fun e u _ htu he => ?_
  refine .ifCheck ?_ (.pure he)
  apply (goes_callArgs hg).bind
  intro args v _ huv hargs
  refine goes_closed (N := fun step : ForInStep Expr => .expr step.value) hstart.2 hs (he.past.later huv)
    (fun span => span_applied e args span) fun span c hc => ?_
  exact (hargs.after (hst.trans htu)).map c (inner_applied hc)

theorem goes_unaryExpr : Goes good base (unaryExpr g) s fun e u => s.Makes good (.expr e) u := by
  refine looks_peekKind.bind fun k hs hk => ?_
  split
  · exact goes_primaryExpr hg
  · next op hop =>
    have hne : k ≠ .eof := by
      rintro rfl
      cases hop
    apply (goes_advance_of hk.symm hne).bind
    intro start t ht hst hstart
    have hword : s.Makes good (.word start.span) t := makes_of_token hs ht hstart.2 hstart.1 rfl
    apply (hg.unary t).bind
    intro x u _ htu hx
    refine .pure ⟨hword.past.later htu, ?_⟩
    exact SyntaxNode.between_merge (between_later hword.between htu) (hx.after hst) rfl
      (List.forall_mem_singleton.2 (.inr rfl))

theorem goes_binaryExpr (precedence : Nat) :
    Goes good base (binaryExpr g precedence) s fun e u => s.Makes good (.expr e) u := by
  apply (goes_unaryExpr hg).bind
  intro first t _ hst hfirst
  refine goes_repeating (I := fun e u => s.Makes good (.expr e) u) hfirst fun lhs u _ htu hlhs => ?_
  refine looks_peekKind.bind fun k _ _ => ?_
  split
  · exact .pure hlhs
  · refine .ite (fun _ => .pure hlhs) fun _ => goes_advance.bind fun _ v _ huv _ => ?_
    apply (hg.expr _ v).bind
    intro rhs w _ hvw hrhs
    have huw := huv.trans hvw
    refine .pure ⟨hlhs.past.later huw, ?_⟩
    refine SyntaxNode.between_merge (between_later hlhs.between huw) (hrhs.after ((hst.trans htu).trans huv)) rfl ?_
    exact List.forall_mem_cons.2 ⟨.inl rfl, List.forall_mem_singleton.2 (.inr rfl)⟩

/-! ## Types -/

theorem goes_skipSignature : Goes good base (skipSignature g) s fun _ _ => True := by
  refine (looks_require (isFixed_symbol .lParen)).bind fun _ _ _ => (goes_skipGroup hg).bind fun _ t _ _ _ => ?_
  refine .ifCheck (goes_skipGroup hg) (looks_peekKind.bind fun _ _ _ => .ite (fun _ => ?_) fun _ => .pure trivial)
  exact .intro fun ht => (hg.type t).bind fun _ _ _ _ hresult => goes_keepStructs (hresult.kept ht)

/-- The rest of a type of which the bracket has been taken. -/
theorem goes_bracketType {b : State} {start : Span} (hstart : start = b.next) (hb : b.Ordered good base)
    (hbs : b.Before s) (hpast : b.Past s) :
    Goes good base (bracketType g start) s fun t u => b.Makes good (.type t) u := by
  refine .ifAccept (isFixed_symbol .rBracket) (fun t _ hst _ => ?_) ?_
  · apply (hg.type t).bind
    intro e u _ htu he
    refine goes_closed hstart hb (hpast.later (hst.trans htu)) (fun _ => rfl) fun _ => ?_
    exact List.forall_mem_singleton.2 (he.after (hbs.trans hst))
  refine .ifCheck goes_fail_bind ?_
  apply (hg.expr 1 s).bind
  intro length t _ hst hlength
  apply (goes_expect (isFixed_symbol .rBracket)).bind
  intro _ u _ htu _
  apply (hg.type u).bind
  intro e v _ huv he
  have htv := htu.trans huv
  refine goes_closed hstart hb (hpast.later (hst.trans htv)) (fun _ => rfl) fun _ => ?_
  refine List.forall_mem_cons.2 ⟨between_later (hlength.after hbs) htv, List.forall_mem_singleton.2 ?_⟩
  exact he.after ((hbs.trans hst).trans htu)

theorem goes_typeExpr : Goes good base (typeExpr g) s fun t u => s.Makes good (.type t) u := by
  refine looks_peek.bind fun start hs hstart => ?_
  obtain ⟨hkind, hstart⟩ := hstart
  -- All forms but a name and a struct literal begin with a token that is taken first.
  have hfirst {k : Kind} (hk : start.kind = k) (hne : k ≠ .eof) :
      Goes good base advance s fun _ t => s.Past t :=
    (goes_advance_of (hkind.symm.trans hk) hne).mono fun _ _ _ _ h => .of_eq h.2
  -- A type of one element is closed behind it.
  have helement {t : State} (hst : s.Before t) (hpast : s.Past t) {mk : TypeExpr → Span → TypeExpr}
      (hspan : ∀ e span, (mk e span).span = span)
      (hinner : ∀ e span, (SyntaxNode.type (mk e span)).inner = [.type e]) :
      Goes good base (do let e ← g.type; return mk e (← spanFrom start.span)) t
        fun u v => s.Makes good (.type u) v := by
    apply (hg.type t).bind
    intro e u _ htu he
    refine goes_closed hstart hs (hpast.later htu) (hspan e) fun span => ?_
    rw [hinner]
    exact List.forall_mem_singleton.2 (he.after hst)
  split
  · exact goes_typeName hg
  · next hk => exact (hfirst hk nofun).bind fun _ _ _ hst hpast => helement hst hpast (fun _ _ => rfl) fun _ _ => rfl
  · next hk => exact (hfirst hk nofun).bind fun _ _ _ hst hpast => goes_bracketType hg hstart hs hst hpast
  · next hk =>
    apply (hfirst hk nofun).bind
    intro _ t _ hst hpast
    apply (goes_expect (isFixed_symbol .lBracket)).bind
    intro _ u _ htu _
    apply (hg.type u).bind
    intro key v _ huv hkey
    apply (goes_expect (isFixed_symbol .rBracket)).bind
    intro _ w _ hvw _
    apply (hg.type w).bind
    intro value x _ hwx hvalue
    have hsu := hst.trans htu
    have hvx := hvw.trans hwx
    refine goes_closed hstart hs (hpast.later (htu.trans (huv.trans hvx))) (fun _ => rfl) fun _ => ?_
    refine List.forall_mem_cons.2 ⟨between_later (hkey.after hsu) hvx, List.forall_mem_singleton.2 ?_⟩
    exact hvalue.after ((hsu.trans huv).trans hvw)
  · next hk =>
    refine (hfirst hk nofun).bind fun _ t _ hst hpast => .ifAccept (isFixed_symbol .arrow) (fun u _ htu _ => ?_) ?_
    · exact helement (hst.trans htu) (hpast.later htu) (fun _ _ => rfl) fun _ _ => rfl
    · exact helement hst hpast (fun _ _ => rfl) fun _ _ => rfl
  · next hk =>
    apply (hfirst hk nofun).bind
    intro _ t _ hst hpast
    apply (goes_expect (isFixed_keyword .chan)).bind
    intro _ u _ htu _
    exact helement (hst.trans htu) (hpast.later htu) (fun _ _ => rfl) fun _ _ => rfl
  · next hk =>
    refine (hfirst hk nofun).bind fun _ t _ _ hpast => (goes_skipSignature hg).bind fun _ u _ htu _ => ?_
    exact goes_closed hstart hs (hpast.later htu) (fun _ => rfl) nofun
  · next hk =>
    refine (hfirst hk nofun).bind fun _ t _ _ hpast => (looks_require (isFixed_symbol .lBrace)).bind fun _ _ _ => ?_
    refine (goes_skipGroup hg).bind fun _ u _ htu _ => ?_
    exact goes_closed hstart hs (hpast.later htu) (fun _ => rfl) nofun
  · refine (goes_structType hg).bind fun st t _ _ hst => .pure ⟨hst.past, ?_⟩
    exact SyntaxNode.between_literal hst.between
  · next hk =>
    apply (hfirst hk nofun).bind
    intro _ t _ hst hpast
    apply (hg.type t).bind
    intro inner u _ htu hinner
    refine (goes_expect (isFixed_symbol .rParen)).bind fun _ v _ huv _ => .pure ⟨hpast.later (htu.trans huv), ?_⟩
    exact between_later (hinner.after hst) huv
  · exact goes_fail

end

/-- The grammar makes nested types and expressions to any depth. -/
theorem Grammar.nests_ofDepth (n : Nat) : (Grammar.ofDepth n).Nests good base := by
  induction n with
  | zero => exact ⟨fun _ => goes_exhausted, fun _ _ => goes_exhausted, fun _ => goes_exhausted⟩
  | succ n ih => exact ⟨fun _ => goes_typeExpr ih, fun p _ => goes_binaryExpr ih p, fun _ => goes_unaryExpr ih⟩

theorem goes_withGrammar {α : Type} {p : Grammar → Parser α} {Q : α → State → Prop}
    (hp : ∀ g : Grammar, g.Nests good base → Goes good base (p g) s Q) : Goes good base (withGrammar p) s Q :=
  hp _ (Grammar.nests_ofDepth (s.remaining + 1))

end StructPadding.Parser
