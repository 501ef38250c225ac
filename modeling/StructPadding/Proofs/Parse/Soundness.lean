-- SUMMARY: Parsers follow the rules of the grammar: what they take from a source makes what they return.
import StructPadding.Proofs.Parse.Steps
import StructPadding.Proofs.Token.Spelling

/-!
# Soundness of the parsers

Where a parser succeeds, the tokens that it took make its result by the rules of the grammar. There is one statement for
each parser. Types and expressions recur through the grammar, and are sound by induction on its depth.
-/

namespace StructPadding.Parser

open Token (Kind Event Stream)

/-- Whether the parsers of a grammar follow the rules. -/
structure Grammar.Sound (g : Grammar) : Prop where
  type : ∀ c, Gives g.type c fun t d => Derives (.type t) c d
  expr : ∀ p c, Gives (g.expr p) c fun _ d => Derives .expr c d
  unary : ∀ c, Gives g.unary c fun _ d => Derives .expr c d

variable {g : Grammar} {c : Cursor}

theorem ne_eof_of_isOpen {k : Kind} (h : k.isOpen = true) : k ≠ .eof := by
  rintro rfl
  cases h

theorem ne_eof_of_isClose {k : Kind} (h : k.isClose = true) : k ≠ .eof := by
  rintro rfl
  cases h

theorem gives_names : Gives (commaSeparated identifier) c fun _ d => Derives .names c d :=
  gives_commaSeparated (gives_identifier.mono fun _ _ h => .name h) fun _ _ _ hnames hcomma =>
    gives_identifier.mono fun _ _ h => .nextName hnames hcomma h

section

variable (hg : g.Sound)
include hg

/-! ## Struct literals -/

theorem gives_typeArgs : Gives (typeArgs g) c fun ts d => Derives (.typeArgs ts) c d := by
  refine .ifAccept (isFixed_symbol .lBracket) (fun d hopen => ?_) fun _ => .pure .noTypeArgs
  apply Gives.bind (P := fun ts e => Derives (.types ts) d e)
  · refine gives_repeating_value .noTypes fun ts e hts => ?_
    refine .ifCheck (isFixed_symbol .rBracket) (fun _ => .pure hts) fun _ => ?_
    apply (hg.type e).bind
    intro t f ht
    refine .ifAccept (isFixed_symbol .comma) (fun h hcomma => ?_) fun _ => ?_
    · exact .pure (.nextType hts ht (.inr hcomma))
    · exact .pure (.nextType hts ht (.inl rfl))
  · intro ts e hts
    exact (gives_expect (isFixed_symbol .rBracket)).bind fun _ _ hclose => .pure (.someTypeArgs hopen hts hclose.reads)

theorem gives_typeName : Gives (typeName g) c fun t d => Derives (.type t) c d := by
  apply gives_name.bind
  intro first d hfirst
  refine .ifAccept (isFixed_symbol .dot) (fun e hdot => ?_) fun _ => ?_
  · apply gives_identifier.bind
    intro member f hmember
    apply (gives_typeArgs hg).bind
    intro ts h hts
    exact .spanned fun _ => .pure (.qualified hfirst hdot hmember hts)
  · apply (gives_typeArgs hg).bind
    intro ts e hts
    exact .spanned fun _ => .pure (.named hfirst hts)

/-- A field up to its tag. -/
theorem gives_fieldBody : Gives (fieldBody g) c fun nt d =>
    ∀ tag span e, Derives .tag d e → Derives (.field ⟨nt.1, nt.2, tag, span⟩) c e := by
  apply gives_peek.bind
  rintro t _ ⟨rfl, -⟩
  split
  · exact (hg.type _).bind fun _ _ ht => .pure fun _ _ _ htag => .embedded ht htag
  · apply (gives_peekKindAt 1).bind
    rintro k _ ⟨rfl, -⟩
    refine .ite (fun _ => ?_) fun _ => ?_
    · exact (gives_typeName hg).bind fun _ _ ht => .pure fun _ _ _ htag => .embedded ht htag
    · apply gives_names.bind
      intro ns d hns
      exact (hg.type d).bind fun _ _ ht => .pure fun _ _ _ htag => .declared hns ht htag
  · exact gives_fail

theorem gives_field : Gives (field g) c fun f d => Derives (.field f) c d := by
  apply gives_peek.bind
  rintro start _ ⟨rfl, -⟩
  apply (gives_fieldBody hg).bind
  rintro ⟨ns, t⟩ d hbody
  apply gives_peekKind.bind
  rintro k _ ⟨rfl, hk⟩
  split
  · apply (gives_advance_of hk.symm nofun).bind
    intro tag e htag
    exact .spanned fun _ => .pure (hbody _ _ _ (.someTag htag.reads))
  · exact .spanned fun _ => .pure (hbody _ _ _ .noTag)

theorem gives_structType : Gives (structType g) c fun st d => Derives (.struct st) c d := by
  apply (gives_expect (isFixed_keyword .struct)).bind
  intro keyword d hkeyword
  apply (gives_expect (isFixed_symbol .lBrace)).bind
  intro _ e hopen
  apply Gives.bind (P := fun fs f => Derives (.fields fs) e f)
  · refine gives_entries (isFixed_symbol .rBrace) .noFields (fun _ _ _ hfs hsemi => .fieldSeparator hfs hsemi) ?_
    exact fun fs f hfs => (gives_field hg).mono fun fd h hfd i hsemi => .nextField hfs hfd hsemi
  · intro fs f hfs
    exact (gives_expect (isFixed_symbol .rBrace)).bind fun _ _ hclose =>
      .pure (.braces hkeyword hopen.reads hfs hclose.reads)

/-! ## Skipped code -/

omit hg in
theorem gives_atLocalStruct : Gives atLocalStruct c fun b d => d = c ∧ (b = false → ¬ c.AtLiteral) := by
  apply gives_peekKind.bind
  rintro k d ⟨rfl, hk⟩
  split
  · apply (gives_peekKindAt 1).bind
    rintro k' _ ⟨rfl, hk'⟩
    exact .pure ⟨rfl, fun hb hd => by simp [hk', hd.2] at hb⟩
  · have hnot : ¬ d.AtLiteral := fun hd => by simp [hd.1] at hk
    apply (gives_peekKindAt 1).bind
    rintro _ _ ⟨rfl, -⟩
    refine .ite (fun _ => ?_) fun _ => .pure ⟨rfl, fun _ => hnot⟩
    apply (gives_peekKindAt 2).bind
    rintro _ _ ⟨rfl, -⟩
    refine .ite (fun _ => ?_) fun _ => .pure ⟨rfl, fun _ => hnot⟩
    apply (gives_peekKindAt 3).bind
    rintro _ _ ⟨rfl, -⟩
    exact .pure ⟨rfl, fun _ => hnot⟩
  · next hne _ => exact .pure ⟨rfl, fun _ hd => hne (hk.trans hd.1)⟩

theorem gives_localStruct : Gives (localStruct g) c fun _ d => Derives .literal c d := by
  refine .ifAccept (isFixed_keyword .type) (fun d htype => ?_) fun _ => ?_
  · apply gives_identifier.bind
    intro n e hn
    apply (gives_structType hg).bind
    intro st f hst
    apply (gives_keep _).mono
    rintro _ _ rfl
    exact .local htype hn hst
  · apply (gives_structType hg).bind
    intro st d hst
    apply (gives_keep _).mono
    rintro _ _ rfl
    exact .anonymous hst

theorem gives_skipGroup : Gives (skipGroup g) c fun _ d => Derives .group c d := by
  apply gives_advance.bind
  intro opening d hopening
  refine .ite (fun hopen => ?_) fun _ => gives_fail.bind fun _ _ h => h
  have hreads : c.Reads opening.kind d := (hopening.2.resolve_right fun h => ne_eof_of_isOpen hopen h.1).reads
  apply Gives.bind (P := fun _ e => Derives .group c e)
  · refine gives_repeating (I := fun depth e => ∃ n, depth = n + 1 ∧ Derives (.inside depth) c e)
      ⟨0, rfl, .opening hreads hopen⟩ ?_
    rintro _ e ⟨n, rfl, hinside⟩
    apply gives_atLocalStruct.bind
    rintro here _ ⟨rfl, hhere⟩
    refine .ite (fun _ => ?_) fun hnot => ?_
    · exact (gives_localStruct hg).bind fun _ _ hl => .pure ⟨n, rfl, .insideLiteral hinside hl⟩
    apply gives_advance.bind
    intro t f ht
    refine .ite (fun hopen => ?_) fun hopen => ?_
    · have htakes := ht.2.resolve_right fun h => ne_eof_of_isOpen hopen h.1
      exact .pure ⟨n + 1, rfl, .insideOpening hinside htakes.reads hopen⟩
    refine .ite (fun hclose => ?_) fun hclose => ?_
    · have htakes := ht.2.resolve_right fun h => ne_eof_of_isClose hclose h.1
      refine .ite (fun hlast => .pure ?_) fun hmore => .pure ?_
      · obtain rfl : n = 0 := by omega
        exact .closing hinside htakes.reads hclose
      · obtain ⟨m, rfl⟩ : ∃ m, n = m + 1 := ⟨n - 1, by omega⟩
        exact ⟨m, rfl, .insideClosing hinside htakes.reads hclose⟩
    refine .ite (fun _ => gives_fail.bind fun _ _ h => h) fun hend => .pure ?_
    have htakes := ht.2.resolve_right fun h => hend h.1
    exact ⟨n, rfl, .insideToken hinside
      ⟨t.kind, htakes.reads, by simpa using hopen, by simpa using hclose, hhere (by simpa using hnot)⟩⟩
  · exact fun _ _ h => .pure h

omit hg in
/-- A token in code up to a stop, which may begin a struct literal that is passed over. -/
theorem gives_stretchToken {b : Cursor} (hb : Derives .stretch b c) (hopen : (c.kindAt 0).isOpen = false)
    (hclose : (c.kindAt 0).isClose = false) (hend : c.kindAt 0 ≠ .eof) :
    Gives advance c fun _ d => Derives .stretch b d := by
  by_cases hc : c.AtLiteral
  · have hpass : Gives advance c fun t d => Derives .stretch b (d.pass t.span) :=
      (gives_advance_of hc.1 nofun).mono fun t d ht => .passing hb hc ht
    intro s t u hs hres
    obtain ⟨d, hd, hcd, hderives⟩ := hpass s t u hs hres
    exact ⟨d.pass t.span, ⟨hd.events, hd.locals⟩, hcd, hderives⟩
  · exact (gives_advance_of rfl hend).mono fun _ _ ht => .stretchToken hb ⟨_, ht.reads, hopen, hclose, hc⟩

theorem gives_skipUntil (stop : Kind → Bool) : Gives (skipUntil g stop) c fun _ d => Derives .stretch c d := by
  refine gives_repeating_value .noStretch fun _ d hd => ?_
  apply gives_peek.bind
  rintro t _ ⟨rfl, ht⟩
  refine .ite (fun _ => .pure hd) fun _ => ?_
  refine .ite (fun _ => ?_) fun hopen => ?_
  · exact (gives_skipGroup hg).bind fun _ _ hgroup => .pure (.stretchGroup hd hgroup)
  refine .ite (fun _ => gives_fail.bind fun _ _ h => h) fun hmore => ?_
  rw [ht] at hopen hmore
  simp only [Bool.or_eq_true, decide_eq_true_eq, not_or, Bool.not_eq_true] at hopen hmore
  exact (gives_stretchToken hd hopen hmore.1 hmore.2).bind fun _ _ h => .pure h

theorem gives_skipDeclaration : Gives (skipDeclaration g) c fun _ e =>
    ∃ d, Derives .skipped c d ∧ d.MayRead (.symbol .semi) e := by
  refine gives_repeating (I := fun _ d => Derives .skipped c d) .noCode fun _ d hd => ?_
  apply gives_atLocalStruct.bind
  rintro here _ ⟨rfl, hhere⟩
  refine .ite (fun _ => ?_) fun hnot => ?_
  · exact (gives_localStruct hg).bind fun _ _ hl => .pure (.codeLiteral hd hl)
  apply gives_peek.bind
  rintro t _ ⟨rfl, ht⟩
  refine .ite (fun hsemi => ?_) fun _ => ?_
  · have hkind := ht.symm.trans (((isFixed_symbol .semi).isLike_iff _).1 hsemi)
    exact (gives_advance_of hkind nofun).bind fun _ _ h => .pure ⟨_, hd, .inr h.reads⟩
  refine .ite (fun _ => .pure ⟨_, hd, .inl rfl⟩) fun hend => ?_
  refine .ite (fun _ => ?_) fun hopen => ?_
  · exact (gives_skipGroup hg).bind fun _ _ hgroup => .pure (.codeGroup hd hgroup)
  refine .ite (fun _ => gives_fail.bind fun _ _ h => h) fun hclose => ?_
  rw [ht] at hopen hclose hend
  have hskips {u e} (hu : Cursor.Takes _ u e) (hkind : u.kind = _) : Cursor.Skips _ e :=
    ⟨_, hkind ▸ hu.reads, by simpa using hopen, by simpa using hclose, hhere (by simpa using hnot)⟩
  exact (gives_advance_of rfl hend).bind fun _ _ h => .pure (.codeToken hd (hskips h rfl))

/-! ## Expressions -/

omit hg in
theorem gives_atEnd : Gives callArgs.atEnd c fun _ d => d = c := by
  refine .ifCheck (isFixed_symbol .comma) (fun _ => .pure rfl) fun _ => ?_
  exact (gives_check _).mono fun _ _ h => h.1

theorem gives_callArgs : Gives (callArgs g) c fun _ d => Derives .call c d := by
  apply (gives_expect (isFixed_symbol .lParen)).bind
  intro _ d hopen
  apply Gives.bind (P := fun _ e => Derives .arguments d e)
  · refine gives_repeating_value .noArguments fun args e he => ?_
    refine .ifCheck (isFixed_symbol .rParen) (fun _ => .pure he) fun _ => ?_
    apply gives_peekKind.bind
    rintro k e ⟨rfl, -⟩
    have hcomma (args : Option (List Expr)) {f} (hf : Derives .argument e f) :
        Gives (do if ← accept (.symbol .comma) then return .yield args else return .done args) f
          fun (_ : ForInStep (Option (List Expr))) h => Derives .arguments d h :=
      .ifAccept (isFixed_symbol .comma) (fun _ hcomma => .pure (.nextArgument he hf (.inr hcomma)))
        fun _ => .pure (.nextArgument he hf (.inl rfl))
    -- What follows a constant expression in an argument, and what stands there in place of one, is skipped.
    have hrest (args : Option (List Expr)) {f} (hf : ∀ {h}, Derives .stretch f h → Derives .argument e h) :
        Gives (do
            let args ←
              if ← callArgs.atEnd then pure args
              else do
                skipUntil g fun k => k.isLike (.symbol .comma) || k.isLike (.symbol .rParen)
                pure none
            if ← accept (.symbol .comma) then return .yield args
            return .done args) f
          fun (_ : ForInStep (Option (List Expr))) h => Derives .arguments d h := by
      apply gives_atEnd.bind
      rintro _ _ rfl
      refine .ite (fun _ => hcomma _ (hf .noStretch)) fun _ => ?_
      exact (gives_skipUntil hg _).bind fun _ _ hstretch => hcomma _ (hf hstretch)
    refine .ite (fun _ => ?_) fun _ => hrest _ .noExpr
    exact (hg.expr 1 _).bind fun _ _ hexpr => hrest _ (.someExpr hexpr)
  · intro _ e hargs
    exact (gives_expect (isFixed_symbol .rParen)).bind fun _ _ hclose => .pure (.callArgs hopen.reads hargs hclose.reads)

theorem gives_operand : Gives (operand g) c fun _ d => Derives .expr c d := by
  apply gives_advance.bind
  intro t d ht
  have htakes (h : t.kind ≠ .eof) : c.Reads t.kind d := (ht.2.resolve_right fun h' => h h'.1).reads
  split
  · next hkind =>
    split
    · exact .pure (.leaf (hkind ▸ htakes (by simp [hkind])))
    · exact gives_fail
  · next hkind =>
    split
    · exact .pure (.leaf (hkind ▸ htakes (by simp [hkind])))
    · exact .pure (.leaf (hkind ▸ htakes (by simp [hkind])))
  · next hkind => exact .pure (.leaf (hkind ▸ htakes (by simp [hkind])))
  · next hkind => exact .pure (.constant (hkind ▸ htakes (by simp [hkind])))
  · next hkind =>
    have hname := hkind ▸ htakes (by simp [hkind])
    refine .ifAccept (isFixed_symbol .dot) (fun e hdot => ?_) fun _ => .pure (.constant hname)
    apply gives_identifier.bind
    intro member f hmember
    exact .spanned fun _ => .pure (.member hname hdot hmember)
  · next hkind =>
    apply (hg.expr 1 d).bind
    intro x e hx
    apply (gives_expect (isFixed_symbol .rParen)).bind
    intro close f hclose
    exact .pure (.inner (hkind ▸ htakes (by simp [hkind])) hx hclose.reads)
  · exact gives_fail

theorem gives_primaryExpr : Gives (primaryExpr g) c fun _ d => Derives .expr c d := by
  apply gives_peek.bind
  rintro start c ⟨rfl, -⟩
  apply (gives_operand hg).bind
  intro x d hx
  refine gives_repeating_value hx fun y e hy => ?_
  refine .ifCheck (isFixed_symbol .lParen) (fun _ => ?_) fun _ => .pure hy
  apply (gives_callArgs hg).bind
  intro args f hargs
  exact .spanned fun _ => .pure (.applied hy hargs)

theorem gives_unaryExpr : Gives (unaryExpr g) c fun _ d => Derives .expr c d := by
  apply gives_peekKind.bind
  rintro k c ⟨rfl, hk⟩
  split
  · exact gives_primaryExpr hg
  · next op hop =>
    have hne : k ≠ .eof := by
      rintro rfl
      cases hop
    apply (gives_advance_of hk.symm hne).bind
    intro t d ht
    exact (hg.unary d).bind fun _ _ hx => .pure (.unary ht.reads (by simp [hop]) hx)

theorem gives_binaryExpr (precedence : Nat) : Gives (binaryExpr g precedence) c fun _ d => Derives .expr c d := by
  apply (gives_unaryExpr hg).bind
  intro x d hx
  refine gives_repeating_value hx fun y e hy => ?_
  apply gives_peekKind.bind
  rintro k e ⟨rfl, hk⟩
  split
  · exact .pure hy
  · next op hop =>
    refine .ite (fun _ => .pure hy) fun _ => ?_
    have hne : k ≠ .eof := by
      rintro rfl
      cases hop
    apply (gives_advance_of hk.symm hne).bind
    intro t f ht
    exact (hg.expr _ f).bind fun _ _ hz => .pure (.binary hy ht.reads (by simp [hop]) hz)

/-! ## Types -/

omit hg in
/-- A type of which the struct literals are kept. -/
theorem gives_givenUp {p : Parser TypeExpr} (hp : Gives p c fun t d => Derives (.type t) c d) :
    Gives (p >>= keepStructs) c fun _ d => Derives .givenUp c d := by
  apply hp.bind
  intro t d ht
  apply (gives_keepStructs t).mono
  rintro _ _ rfl
  exact .givesUp ht

theorem gives_skipSignature : Gives (skipSignature g) c fun _ d => Derives .signature c d := by
  apply (gives_require (isFixed_symbol .lParen)).bind
  rintro _ _ ⟨rfl, -⟩
  apply (gives_skipGroup hg).bind
  intro _ d hparams
  refine .ifCheck (isFixed_symbol .lParen) (fun _ => ?_) fun _ => ?_
  · exact (gives_skipGroup hg).mono fun _ _ h => .params hparams (.results h)
  apply gives_peekKind.bind
  rintro k _ ⟨rfl, -⟩
  refine .ite (fun _ => ?_) fun _ => .pure (.params hparams .noResult)
  exact (gives_givenUp (hg.type _)).mono fun _ _ h => .params hparams (.oneResult h)

theorem gives_bracketType (start : Span) {b : Cursor} (hb : b.Reads (.symbol .lBracket) c) :
    Gives (bracketType g start) c fun t d => Derives (.type t) b d := by
  refine .ifAccept (isFixed_symbol .rBracket) (fun d hclose => ?_) fun _ => ?_
  · apply (hg.type d).bind
    intro t e ht
    exact .spanned fun _ => .pure (.slice hb hclose ht)
  refine .ifCheck (isFixed_symbol .ellipsis) (fun _ => gives_fail.bind fun _ _ h => h) fun _ => ?_
  apply (hg.expr 1 c).bind
  intro n d hn
  apply (gives_expect (isFixed_symbol .rBracket)).bind
  intro _ e hclose
  apply (hg.type e).bind
  intro t f ht
  exact .spanned fun _ => .pure (.array hb hn hclose.reads ht)

theorem gives_typeExpr : Gives (typeExpr g) c fun t d => Derives (.type t) c d := by
  apply gives_peek.bind
  rintro t c ⟨rfl, ht⟩
  split
  · exact gives_typeName hg
  · next hkind =>
    apply (gives_advance_of (ht.symm.trans hkind) nofun).bind
    intro _ d hstar
    apply (hg.type d).bind
    intro e f he
    exact .spanned fun _ => .pure (.pointer hstar.reads he)
  · next hkind =>
    apply (gives_advance_of (ht.symm.trans hkind) nofun).bind
    intro _ d hopen
    exact gives_bracketType hg _ hopen.reads
  · next hkind =>
    apply (gives_advance_of (ht.symm.trans hkind) nofun).bind
    intro _ d hmap
    apply (gives_expect (isFixed_symbol .lBracket)).bind
    intro _ e hopen
    apply (hg.type e).bind
    intro k f hk
    apply (gives_expect (isFixed_symbol .rBracket)).bind
    intro _ h hclose
    apply (hg.type h).bind
    intro v i hv
    exact .spanned fun _ => .pure (.map hmap.reads hopen.reads hk hclose.reads hv)
  · next hkind =>
    apply (gives_advance_of (ht.symm.trans hkind) nofun).bind
    intro _ d hchan
    have helement (r : Direction) {e} (harrow : d.MayRead (.symbol .arrow) e) :
        Gives (do
            let u ← g.type
            return .chan r u (← spanFrom t.span)) e
          fun u f => Derives (.type u) c f := by
      apply (hg.type e).bind
      intro u f hu
      exact .spanned fun _ => .pure (.chan hchan.reads harrow hu)
    exact .ifAccept (isFixed_symbol .arrow) (fun _ harrow => helement _ (.inr harrow)) fun _ => helement _ (.inl rfl)
  · next hkind =>
    apply (gives_advance_of (ht.symm.trans hkind) nofun).bind
    intro _ d harrow
    apply (gives_expect (isFixed_keyword .chan)).bind
    intro _ e hchan
    apply (hg.type e).bind
    intro t f ht
    exact .spanned fun _ => .pure (.receive harrow.reads hchan.reads ht)
  · next hkind =>
    apply (gives_advance_of (ht.symm.trans hkind) nofun).bind
    intro _ d hfunc
    apply (gives_skipSignature hg).bind
    intro _ e hsignature
    exact .spanned fun _ => .pure (.func hfunc.reads hsignature)
  · next hkind =>
    apply (gives_advance_of (ht.symm.trans hkind) nofun).bind
    intro _ d hinterface
    apply (gives_require (isFixed_symbol .lBrace)).bind
    rintro _ _ ⟨rfl, -⟩
    apply (gives_skipGroup hg).bind
    intro _ e hgroup
    exact .spanned fun _ => .pure (.interface hinterface.reads hgroup)
  · exact (gives_structType hg).bind fun _ _ hst => .pure (.structType hst)
  · next hkind =>
    apply (gives_advance_of (ht.symm.trans hkind) nofun).bind
    intro _ d hopen
    apply (hg.type d).bind
    intro e f he
    apply (gives_expect (isFixed_symbol .rParen)).bind
    intro _ h hclose
    exact .pure (.parentheses hopen.reads he hclose.reads)
  · exact gives_fail

/-! ## Declarations -/

theorem gives_typeParams : Gives (typeParams g) c fun _ d => Derives .typeParams c d := by
  apply (gives_expect (isFixed_symbol .lBracket)).bind
  intro _ d hopen
  apply Gives.bind (P := fun _ e => Derives .params d e)
  · refine gives_repeating_value .noParams fun ns e he => ?_
    refine .ifCheck (isFixed_symbol .rBracket) (fun _ => .pure he) fun _ => ?_
    apply gives_identifier.bind
    intro n f hn
    refine .ifAccept (isFixed_symbol .comma) (fun h hcomma => ?_) fun _ => ?_
    · exact .pure (.nextParam he hn .noStretch (.inr hcomma))
    apply (gives_skipUntil hg _).bind
    intro _ h hstretch
    refine .ifAccept (isFixed_symbol .comma) (fun i hcomma => ?_) fun _ => ?_
    · exact .pure (.nextParam he hn hstretch (.inr hcomma))
    · exact .pure (.nextParam he hn hstretch (.inl rfl))
  · intro _ e hparams
    exact (gives_expect (isFixed_symbol .rBracket)).bind fun _ _ hclose =>
      .pure (.someTypeParams hopen.reads hparams hclose.reads)

omit hg in
theorem gives_atTypeParams : Gives atTypeParams c fun _ d => d = c := by
  refine .ifCheck (isFixed_symbol .lBracket) (fun _ => ?_) fun _ => .pure rfl
  apply (gives_peekKindAt 1).bind
  rintro _ _ ⟨rfl, -⟩
  refine .ite (fun _ => ?_) fun _ => .pure rfl
  exact (gives_peekKindAt 2).bind fun _ _ h => .pure h.1

theorem gives_typeDecl : Gives (typeDecl g) c fun decl d => Derives (.entry .type [decl]) c d := by
  apply gives_peek.bind
  rintro start c ⟨rfl, -⟩
  apply gives_identifier.bind
  intro n d hn
  have hdecl (params : List String) {e} (hparams : Derives .typeParams d e) :
      Gives (do
          let isAlias ← accept (.symbol .eq)
          let type ← typeExpr g
          return ⟨n, params, isAlias, type, ← spanFrom start.span⟩) e
        fun decl f => Derives (.entry .type [decl]) c f := by
    apply (gives_acceptIfAny (isFixed_symbol .eq)).bind
    intro isAlias f heq
    apply (gives_typeExpr hg).bind
    intro t h ht
    exact .spanned fun _ => .pure (.typeEntry hn hparams heq ht)
  apply gives_atTypeParams.bind
  rintro _ _ rfl
  refine .ite (fun _ => ?_) fun _ => hdecl _ .noTypeParams
  exact (gives_typeParams hg).bind fun _ _ hparams => hdecl _ hparams

theorem gives_exprs : Gives (commaSeparated (binaryExpr g 1)) c fun _ d => Derives .exprs c d :=
  gives_commaSeparated ((gives_binaryExpr hg 1).mono fun _ _ h => .oneExpr h) fun _ _ _ hexprs hcomma =>
    (gives_binaryExpr hg 1).mono fun _ _ h => .nextExpr hexprs hcomma h

omit hg in
theorem gives_constNames : Gives (commaSeparated name) c fun _ d => Derives .names c d :=
  gives_commaSeparated (gives_name.mono fun _ _ h => .name h) fun _ _ _ hnames hcomma =>
    gives_name.mono fun _ _ h => .nextName hnames hcomma h

theorem gives_constDecl (before : List ConstDecl) :
    Gives (constDecl g before) c fun _ d => Derives (.entry .const []) c d := by
  apply gives_peek.bind
  rintro start c ⟨rfl, -⟩
  apply gives_constNames.bind
  intro ns d hns
  apply gives_peekKind.bind
  rintro k d ⟨rfl, -⟩
  have hdecl (values : List Expr) {e} (h : Derives (.entry .const []) c e) :
      Gives (do return (⟨ns, values, before.length, ← spanFrom start.span⟩ : ConstDecl)) e
        fun _ f => Derives (.entry .const []) c f := by
    exact .spanned fun _ => .pure h
  -- Behind the names and the type there may be values; a line without a type may have none.
  have hvalues (typed : Bool) {e} (hnone : typed = false → Derives (.entry .const []) c e)
      (hsome : ∀ {f h}, e.Reads (.symbol .eq) f → Derives .exprs f h → Derives (.entry .const []) c h) :
      Gives (do
          let previous := (before.getLast?.map (·.values)).getD []
          let values ←
            if ← accept (.symbol .eq) then commaSeparated (binaryExpr g 1)
            else if typed || previous.isEmpty then fail .missingValue (← spanFrom start.span)
            else pure previous
          return (⟨ns, values, before.length, ← spanFrom start.span⟩ : ConstDecl)) e
        fun _ f => Derives (.entry .const []) c f := by
    refine .ifAccept (isFixed_symbol .eq) (fun f heq => ?_) fun _ => ?_
    · exact (gives_exprs hg).bind fun values _ hexprs => hdecl values (hsome heq hexprs)
    refine .ite (fun _ => ?_) fun htyped => hdecl _ (hnone (by simp_all))
    exact .spanned fun _ => gives_fail.bind fun _ _ h => h
  refine .ite (fun htyped => ?_) fun _ => ?_
  · apply (gives_typeExpr hg).bind
    intro t e ht
    apply (gives_keepStructs t).bind
    rintro _ _ rfl
    exact hvalues _ (fun h => absurd htyped (by simp [h])) fun heq hexprs => .typedConst hns (.givesUp ht) heq hexprs
  · exact hvalues _ (fun _ => .repeatedConst hns) fun heq hexprs => .untypedConst hns heq hexprs

omit hg in
theorem gives_importSpec : Gives importSpec c fun _ d => Derives (.entry .import_ []) c d := by
  apply gives_peek.bind
  rintro start c ⟨rfl, -⟩
  apply Gives.bind (P := fun _ d => ∀ {e text}, d.Reads (.literal .string text) e → Derives (.entry .import_ []) c e)
  · apply gives_peekKind.bind
    rintro k c ⟨rfl, hk⟩
    split
    · apply (gives_advance_of hk.symm nofun).bind
      intro t d ht
      exact .pure fun h => .namedImport ht.reads h
    · apply (gives_advance_of hk.symm nofun).bind
      intro t d ht
      exact .pure fun h => .dotImport ht.reads h
    · exact .pure .unnamedImport
  intro _ d hpath
  apply gives_advance.bind
  intro t e ht
  split
  · next hkind =>
    refine .spanned fun _ => ?_
    have htakes := ht.2.resolve_right fun h => nomatch hkind.symm.trans h.1
    exact .pure (hpath (hkind ▸ htakes.reads))
  · exact gives_fail

omit hg in
/-- A declaration makes what its entries make. -/
theorem gives_declaration {α : Type} {keyword : Token.Keyword} {entry : List α → Parser α} (types : α → List TypeDecl)
    (hentry : ∀ as c, Gives (entry as) c fun a d => Derives (.entry keyword (types a)) c d) :
    Gives (declaration keyword entry) c fun as d => Derives (.declaration (as.flatMap types)) c d := by
  apply (gives_expect (isFixed_keyword keyword)).bind
  intro _ d hkeyword
  apply Gives.bind (P := fun as e => ∀ f, e.MayRead (.symbol .semi) f → Derives (.declaration (as.flatMap types)) c f)
  · refine .ifAccept (isFixed_symbol .lParen) (fun e hopen => ?_) fun _ => ?_
    · apply Gives.bind (P := fun as f => Derives (.entries keyword (as.flatMap types)) e f)
      · refine gives_entries (isFixed_symbol .rParen) .noEntries (fun _ _ _ has hsemi => .entrySeparator has hsemi) ?_
        intro as f has
        apply (hentry as f).mono
        intro a h ha i hsemi
        simpa using has.nextEntry ha hsemi
      intro as f has
      apply (gives_expect (isFixed_symbol .rParen)).bind
      intro _ h hclose
      exact .pure fun i hsemi => .grouped hkeyword.reads hopen has hclose.reads hsemi
    · apply (hentry [] d).bind
      intro a e ha
      refine .pure fun f hsemi => ?_
      simpa using Derives.single hkeyword.reads ha hsemi
  intro as e has
  exact gives_declarationEnd.bind fun _ f hsemi => .pure (has f hsemi)

/-- Declarations go on to the end of the file. -/
theorem gives_declarations {b : Cursor} (file : SourceFile) (hfile : Derives (.file file.types) b c) :
    Gives (declarations g file) c fun file d =>
      Derives (.file file.types) b d ∧ d.kindAt 0 = .eof ∧ ∀ p, d.events[0]? ≠ some (.error p) := by
  have hnone {α : Type} (as : List α) : as.flatMap (fun _ => ([] : List TypeDecl)) = [] :=
    List.flatMap_eq_nil_iff.2 fun _ _ => rfl
  refine gives_repeating (I := fun file d => Derives (.file file.types) b d) hfile fun file d hd => ?_
  apply (gives_peekAt 0).bind
  rintro t d ⟨rfl, ht, hok⟩
  split
  · next hkind => exact .pure ⟨hd, ht.symm.trans hkind, hok⟩
  · next hkind =>
    apply (gives_advance_of (ht.symm.trans hkind) nofun).bind
    intro _ e hsemi
    exact .pure (hd.fileSeparator hsemi.reads)
  · apply (gives_declaration (fun _ => []) fun _ _ => gives_importSpec).bind
    intro more e hmore
    refine .pure ?_
    simpa [hnone] using hd.nextDeclaration hmore
  · apply (gives_declaration (fun decl => [decl]) fun _ _ => gives_typeDecl hg).bind
    intro more e hmore
    refine .pure ?_
    simpa using hd.nextDeclaration hmore
  · apply (gives_declaration (fun _ => []) fun before _ => gives_constDecl hg before).bind
    intro more e hmore
    refine .pure ?_
    simpa [hnone] using hd.nextDeclaration hmore
  · apply (gives_skipDeclaration hg).bind
    rintro _ e ⟨f, hf, hsemi⟩
    exact .pure (hd.nextSkipped hf hsemi)
  · apply (gives_skipDeclaration hg).bind
    rintro _ e ⟨f, hf, hsemi⟩
    exact .pure (hd.nextSkipped hf hsemi)
  · exact gives_fail

end

/-- The grammar follows the rules to any depth. -/
theorem Grammar.sound_ofDepth (n : Nat) : (Grammar.ofDepth n).Sound := by
  induction n with
  | zero => exact ⟨fun _ => gives_exhausted, fun _ _ => gives_exhausted, fun _ => gives_exhausted⟩
  | succ n ih => exact ⟨fun _ => gives_typeExpr ih, fun p _ => gives_binaryExpr ih p, fun _ => gives_unaryExpr ih⟩

theorem gives_takeLocals : Gives takeLocals c fun ls d => ls = c.kept ∧ d = { c with kept := [] } := by
  intro s ls t hs hres
  cases hres
  exact ⟨{ c with kept := [] }, ⟨hs.events, rfl⟩, ⟨[], rfl⟩, hs.locals, rfl⟩

theorem gives_withGrammar {α : Type} {p : Grammar → Parser α} {Q : α → Cursor → Prop}
    (hp : ∀ g : Grammar, g.Sound → Gives (p g) c Q) : Gives (withGrammar p) c Q :=
  fun s => hp _ (Grammar.sound_ofDepth (s.remaining + 1)) s

theorem gives_packageClause : Gives packageClause c fun file d => Derives (.file file.types) c d := by
  apply gives_peek.bind
  rintro start c ⟨rfl, -⟩
  apply (gives_expect (isFixed_keyword .package)).bind
  intro _ d hpackage
  apply gives_identifier.bind
  intro n e hn
  apply gives_declarationEnd.bind
  intro _ f hsemi
  exact .pure (.package hpackage.reads hn hsemi)

/-- A file has the struct literals that were kept when its end was reached. -/
theorem gives_sourceFile : Gives sourceFile c fun file d => ∃ e, Derives (.file file.types) c e ∧ e.kept = file.locals ∧
    e.kindAt 0 = .eof ∧ (∀ p, e.events[0]? ≠ some (.error p)) ∧ d.events = e.events := by
  refine gives_withGrammar fun g hg => ?_
  apply gives_packageClause.bind
  intro start f hstart
  apply (gives_declarations hg start hstart).bind
  intro file h hfile
  apply gives_takeLocals.bind
  rintro locals _ ⟨rfl, rfl⟩
  have hget : Gives get { h with kept := [] } fun _ d => d = { h with kept := [] } := by
    intro s a t hs hres
    cases hres
    exact ⟨_, hs, .refl _, rfl⟩
  apply hget.bind
  rintro s _ rfl
  exact .pure ⟨h, hfile.1, rfl, hfile.2.1, hfile.2.2, rfl⟩

/-! ## Source files -/

/-- A source that is parsed is read to its end and has no lexical problem, and its tokens make the declarations of the
    file. The struct literals that are not in them have been kept, or passed over. -/
theorem derives_of_sourceFile {source : String} {file : SourceFile} {t : State}
    (h : sourceFile (.ofSource source) = .ok file t) :
    t.stream.events = [] ∧ ∃ (ts : List Token) (passed : List Span), (Stream.ofSource source).events = ts.map .ok ∧
      Derives (.file file.types) (.ofSource source) ⟨[], file.locals, passed⟩ := by
  obtain ⟨d, hd, ⟨ts, hts⟩, e, he, hkept, hend, hok, hde⟩ :=
    gives_sourceFile (c := .ofSource source) _ _ _ ⟨rfl, rfl⟩ h
  have hts : (Stream.ofSource source).events = ts.map .ok ++ e.events := hde ▸ hts
  -- There is no token for the end of the file, so where the parser sees it nothing is left.
  have hnil : e.events = [] := by
    cases hevents : e.events with
    | nil => rfl
    | cons event rest =>
      cases event with
      | error p => simp [hevents] at hok
      | ok t =>
        have hmem : .ok t ∈ (Stream.ofSource source).events := by simp [hts, hevents]
        exact absurd (by simpa [Cursor.kindAt, hevents] using hend) (Event.kind_ne_eof_of_mem_ofLexemes hmem)
  refine ⟨by rw [hd.events, hde, hnil], ts, e.passed, by simpa [hnil] using hts, ?_⟩
  rwa [← hkept, ← hnil]

theorem derives_of_parse {source : String} {file : SourceFile} (h : SourceFile.parse source = .ok file) :
    ∃ (ts : List Token) (passed : List Span), (Stream.ofSource source).events = ts.map .ok ∧
      Derives (.file file.types) (.ofSource source) ⟨[], file.locals, passed⟩ := by
  obtain ⟨t, hres⟩ := SourceFile.parse_eq_ok_iff.1 h
  exact (derives_of_sourceFile hres).2

end StructPadding.Parser
