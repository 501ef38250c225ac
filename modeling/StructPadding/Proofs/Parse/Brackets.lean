-- SUMMARY: The bracket behind the name of a declared type holds a length or type parameters, told by one token.
import StructPadding.Proofs.Parse.Alone
import StructPadding.Proofs.Parse.RenderedType

/-!
# Brackets behind declared names

The bracket behind the name of a declared type holds the length of an array, or type parameters with their constraints.
The token behind the first name in it tells which. No expression goes on with a token that shows a type parameter, so
that all arrays are found. Some constraints begin with a token that goes on with an expression, or that is not looked
for, and type parameters of which the first has such a constraint are taken for a length. All others are found.
-/

namespace StructPadding.Parser

open Token (Kind Event)

variable {g : Grammar} {depth n : Nat} {ts us : List Token} {es mid rest : List Event} {s t : State} {e : Expr}
  {type : TypeExpr} {α : Type} {k : Kind}

/-! ## Lengths -/

theorem startsExpr_of_unaryOp {op : UnaryOp} (h : UnaryOp.ofKind? k = some op) : k.startsExpr = true := by
  unfold UnaryOp.ofKind? at h
  split at h
  all_goals first
    | rfl
    | cases h

theorem ends_operand_startsExpr (s : State) :
    Ends (operand g) s (fun _ _ => (s.kinds 0).startsExpr = true) fun _ _ => True := by
  refine (ends_advance_takes s).bind ?_ fun _ _ _ => trivial
  rintro b _ ⟨-, hb, -⟩
  rw [← hb]
  split
  all_goals first
    | exact .throw trivial
    | next hkind => exact Ends.trivial.mono (fun _ _ _ => by rw [hkind]; rfl) fun _ _ h => h

theorem startsExpr_of_binaryExpr {precedence : Nat} (h : binaryExpr g precedence s = .ok e t) :
    (s.kinds 0).startsExpr = true := by
  have hprimary : Ends (primaryExpr g) s (fun _ _ => (s.kinds 0).startsExpr = true) fun _ _ => True := by
    refine (ends_peekAt_takes 0 s).bind ?_ fun _ _ _ => trivial
    rintro start _ ⟨rfl, -⟩
    exact (ends_operand_startsExpr _).bind (fun _ _ h => Ends.trivial.mono (fun _ _ _ => h) fun _ _ h => h)
      fun _ _ _ => trivial
  suffices hunary : Ends (unaryExpr g) s (fun _ _ => (s.kinds 0).startsExpr = true) fun _ _ => True by
    obtain ⟨first, u, hfirst, -⟩ := bind_eq_ok_iff.1 h
    exact hunary.of_ok hfirst
  have hkind : Ends peekKind s (fun kind u => u = s ∧ kind = s.kinds 0) fun _ _ => True :=
    (ends_peekAt_takes 0 s).bind (fun _ _ h => .pure h) fun _ _ _ => trivial
  refine hkind.bind ?_ fun _ _ h => h
  rintro kind _ ⟨rfl, rfl⟩
  split
  · exact hprimary
  · next hop => exact Ends.trivial.mono (fun _ _ _ => startsExpr_of_unaryOp hop) fun _ _ h => h

theorem ReadsAlone.exists_startsExpr {precedence : Nat} (h : ReadsAlone (binaryExpr · precedence) ts e) :
    ∃ b us, ts = b :: us ∧ b.kind.startsExpr = true := by
  obtain ⟨length, t, hres, -⟩ := h
  have hstart := startsExpr_of_binaryExpr hres
  cases ts with
  | nil => cases hstart
  | cons b us => exact ⟨b, us, rfl, hstart⟩

/-- A name is a whole expression in front of a token that none goes on with. -/
theorem parses_binaryExpr_name (name : String) (span : Span) (hrest : EndsExpr rest) :
    Parses (binaryExpr g 1) (.ok ⟨.identifier name, span⟩ :: rest) fun _ es' => es' = rest := by
  obtain ⟨e, hoperand⟩ : ∃ e, Parses (operand g) (.ok ⟨.identifier name, span⟩ :: rest) (Finds e rest) := by
    by_cases hname : name = "iota"
    · exact ⟨.iota span, hname ▸ parses_operand_iota span rest⟩
    · obtain ⟨k, hk, hdot, -⟩ := hrest.operand
      refine ⟨.name none name span, parses_operand_identifier hname span ?_⟩
      exact .ifAcceptNot hk (isLike_symbol_of_ne hdot) (.pure ⟨rfl, rfl⟩)
  have hprimary := (readsPrimary_of_operand rfl hoperand).parses hrest.operand
  exact ((ReadsExpr.of_primary rfl rfl hprimary).parses (hrest.operation 1)).mono fun _ _ h => h.2

theorem endsExpr_of_followsParam {b : Token} (h : followsParam b.kind = true) (es : List Event) :
    EndsExpr (.ok b :: es) := by
  refine ⟨b.kind, rfl, ?_⟩
  unfold followsParam at h
  split at h
  all_goals first
    | next hkind => exact ⟨by rw [hkind]; nofun, by rw [hkind]; nofun, by rw [hkind]; rfl⟩
    | cases h

/-- Where a length begins with a name, no token follows it that shows a type parameter. -/
theorem ReadsAlone.not_followsParam {name : String} {span : Span}
    (h : ReadsAlone (binaryExpr · 1) (⟨.identifier name, span⟩ :: ts) e) (closeSpan : Span) (rest : List Event) :
    ∃ kind, nextKind? (ts.map .ok ++ .ok ⟨.symbol .rBracket, closeSpan⟩ :: rest) = some kind ∧
      followsParam kind = false := by
  cases ts with
  | nil => exact ⟨_, rfl, rfl⟩
  | cons b us =>
    refine ⟨b.kind, rfl, Bool.eq_false_iff.2 fun hfollows => ?_⟩
    obtain ⟨length, t, hres, ht⟩ := h
    obtain ⟨_, u, hname, hu⟩ := parses_binaryExpr_name name span
      (endsExpr_of_followsParam hfollows (us.map .ok)) (.ofTokens length (⟨.identifier name, span⟩ :: b :: us)) rfl
    obtain ⟨rfl, rfl⟩ := EStateM.Result.ok.inj (hname.symm.trans hres)
    cases ht.symm.trans hu

/-! ## Constraints -/

/-- Whether a token stands for itself in skipped code: it is no bracket, and no struct literal begins with it. -/
def IsPlain (kind : Kind) : Prop :=
  kind.isOpen = false ∧ kind.isClose = false ∧ kind ≠ .eof ∧ kind ≠ .keyword .struct ∧ kind ≠ .keyword .type

/-- Whether tokens can be what is in brackets in skipped code: brackets come in pairs, and struct literals parse on
    their own. -/
inductive WritesInside : List Token → Prop
  | nil : WritesInside []
  | token {b ts} : IsPlain b.kind → WritesInside ts → WritesInside (b :: ts)
  | group {o c ts us} : o.kind.isOpen = true → c.kind.isClose = true → WritesInside ts → WritesInside us →
      WritesInside (o :: (ts ++ c :: us))
  | struct {st ts us} : ReadsAlone structType ts st → WritesInside us → WritesInside (ts ++ us)

/-- Whether tokens can be the constraint of a type parameter: brackets come in pairs, and commas stand in brackets only.
    A parameter has none of its own where it shares the one of the next. -/
inductive WritesConstraint : List Token → Prop
  | nil : WritesConstraint []
  | token {b ts} : b.kind.isOpen = false → b.kind.isClose = false → b.kind ≠ .eof → b.kind ≠ .symbol .comma →
      WritesConstraint ts → WritesConstraint (b :: ts)
  | group {o c ts us} : o.kind.isOpen = true → c.kind.isClose = true → WritesInside ts → WritesConstraint us →
      WritesConstraint (o :: (ts ++ c :: us))

/-- Whether tokens can be type parameters with their constraints. There may be a comma behind the last. -/
inductive WritesParams : List String → List Token → Prop
  | last {name span ts} : WritesConstraint ts → WritesParams [name] (⟨.identifier name, span⟩ :: ts)
  | trailing {name span comma ts} : WritesConstraint ts →
      WritesParams [name] (⟨.identifier name, span⟩ :: (ts ++ [⟨.symbol .comma, comma⟩]))
  | next {name names span comma ts us} : WritesConstraint ts → WritesParams names us →
      WritesParams (name :: names) (⟨.identifier name, span⟩ :: (ts ++ ⟨.symbol .comma, comma⟩ :: us))

theorem not_isOpen_of_isClose (h : k.isClose = true) : k.isOpen = false :=
  Bool.eq_false_iff.2 fun hopen => Bool.false_ne_true ((Kind.not_isClose_of_isOpen hopen).symm.trans h)

/-- Tokens that are parsed as a struct literal begin like one. -/
theorem exists_struct_of_readsAlone {st : StructType} (h : ReadsAlone structType ts st) :
    ∃ word brace us, ts = ⟨.keyword .struct, word⟩ :: ⟨.symbol .lBrace, brace⟩ :: us := by
  obtain ⟨length, t, hres, -⟩ := h
  obtain ⟨_, -, -, hderives⟩ := gives_withGrammar (c := ⟨ts.map .ok, [], []⟩) (fun g hg => gives_structType hg)
    (.ofTokens length ts) st t ⟨rfl, rfl⟩ hres
  cases hderives with
  | braces hword hbrace =>
    obtain ⟨_, us, rfl, hfirst, hus⟩ := List.map_eq_cons_iff.1 hword.events
    obtain ⟨brace, hbrace⟩ := hbrace
    obtain ⟨_, vs, rfl, hsecond, -⟩ := List.map_eq_cons_iff.1 (hus.trans hbrace.events)
    exact ⟨_, _, vs, by rw [Except.ok.inj hfirst, Except.ok.inj hsecond]⟩

theorem parses_keep (l : LocalStruct) {Q : Unit → List Event → Prop} (h : Q () es) : Parses (keep l) es Q := by
  rintro s rfl
  exact ⟨(), _, rfl, h⟩

theorem parses_atLocalStruct_struct {word : Span} (h : nextKind? es = some (.symbol .lBrace)) :
    Parses atLocalStruct (.ok ⟨.keyword .struct, word⟩ :: es) fun b es' =>
      b = true ∧ es' = .ok ⟨.keyword .struct, word⟩ :: es := by
  refine (parses_peekKind rfl).step ((parses_peekKindAt [⟨.keyword .struct, word⟩] h).step ?_)
  exact .pure ⟨rfl, rfl⟩

theorem ReadsAlone.localStruct {st : StructType} (h : ReadsAlone Parser.structType ts st) (hdepth : ts.length ≤ depth)
    (rest : List Event) : Parses (localStruct (.ofDepth depth)) (ts.map .ok ++ rest) fun _ es' => es' = rest := by
  have hliteral := h.structType hdepth rest
  obtain ⟨word, brace, us, rfl⟩ := exists_struct_of_readsAlone h
  refine .ifAcceptNot rfl rfl (hliteral.bind ?_)
  rintro _ _ ⟨rfl, rfl⟩
  exact parses_keep _ rfl

/-- The loop over what is in brackets passes over tokens, brackets in pairs, and struct literals. -/
theorem WritesInside.repeats (h : WritesInside ts) (hdepth : ts.length ≤ depth) {R : Nat → List Event → Prop}
    (hrest : Repeats (skipGroup.turn (.ofDepth depth)) (n + 1) rest R) :
    Repeats (skipGroup.turn (.ofDepth depth)) (n + 1) (ts.map .ok ++ rest) R := by
  induction h generalizing n rest with
  | nil => exact hrest
  | token hb _ ih =>
    obtain ⟨hopen, hclose, hmore, hstruct, htype⟩ := hb
    refine .next ((parses_atLocalStruct_not rfl hstruct htype).step ((parses_advance _ _).step ?_))
    rw [hopen, hclose, if_neg nofun, if_neg nofun, if_neg hmore]
    exact .pure ⟨n + 1, rfl, Nat.lt_succ_self _, ih (Nat.le_of_succ_le hdepth) hrest⟩
  | @group o c ts us hopen hclose _ _ hin hout =>
    simp only [List.length_cons, List.length_append] at hdepth
    rw [List.map_cons, List.cons_append, List.map_append, List.append_assoc]
    refine .next ((parses_atLocalStruct_bracket rfl (.inl hopen)).step ((parses_advance _ _).step ?_))
    rw [hopen]
    refine .pure ⟨n + 2, rfl, Nat.lt_succ_self _, hin (by omega) ?_⟩
    refine .next ((parses_atLocalStruct_bracket rfl (.inr hclose)).step ((parses_advance _ _).step ?_))
    rw [not_isOpen_of_isClose hclose, hclose]
    exact .pure ⟨n + 1, rfl, Nat.lt_succ_self _, hout (by omega) hrest⟩
  | @struct st ts us hst _ ih =>
    rw [List.length_append] at hdepth
    rw [List.map_append, List.append_assoc]
    have hliteral := hst.localStruct (by omega : ts.length ≤ depth) (us.map .ok ++ rest)
    obtain ⟨word, brace, vs, rfl⟩ := exists_struct_of_readsAlone hst
    refine .next ((parses_atLocalStruct_struct rfl).step (hliteral.bind ?_))
    rintro _ _ rfl
    refine .pure ⟨n + 1, rfl, ?_, ih (by omega) hrest⟩
    simp only [List.map_cons, List.cons_append, List.length_cons, List.length_append]
    omega

/-- A bracket is passed over together with what is in it and the one that closes it. -/
theorem WritesInside.skipGroup (h : WritesInside ts) (hdepth : ts.length ≤ depth) {o c : Token}
    (hopen : o.kind.isOpen = true) (hclose : c.kind.isClose = true) :
    Parses (skipGroup (.ofDepth depth)) (.ok o :: (ts.map .ok ++ .ok c :: rest)) fun _ es' => es' = rest := by
  refine (parses_advance _ _).step ?_
  rw [if_pos hopen]
  refine (Parses.repeating (h.repeats (R := fun _ es' => es' = rest) hdepth (.done ?_))).bind fun _ _ h => .pure h
  refine (parses_atLocalStruct_bracket rfl (.inr hclose)).step ((parses_advance _ _).step ?_)
  rw [not_isOpen_of_isClose hclose, hclose]
  exact .pure ⟨_, rfl, rfl⟩

/-- Whether a token ends a constraint where it stands outside of brackets. -/
def endsConstraint (kind : Kind) : Bool := kind.isLike (.symbol .comma) || kind.isLike (.symbol .rBracket)

theorem WritesConstraint.skipUntil (h : WritesConstraint ts) (hdepth : ts.length ≤ depth)
    (hnext : nextKind? rest = some k) (hend : endsConstraint k = true) :
    Parses (skipUntil (.ofDepth depth) endsConstraint) (ts.map .ok ++ rest) fun _ es' => es' = rest := by
  refine .repeating ?_
  induction h with
  | nil =>
    refine .done ((parses_peek hnext).bind ?_)
    rintro b _ ⟨rfl, rfl⟩
    rw [hend]
    exact .pure ⟨(), rfl, rfl⟩
  | @token b ts hopen hclose hmore hcomma _ ih =>
    have hgoes : endsConstraint b.kind = false := by
      rw [endsConstraint, isLike_symbol_of_ne hcomma, isLike_symbol_of_test hclose rfl]
      rfl
    refine .next ((parses_peek_token _ _).step ?_)
    rw [hgoes, hopen, hclose, if_neg nofun, if_neg nofun, if_neg (by simpa using hmore)]
    refine (parses_advance _ _).step (.pure ⟨(), rfl, Nat.lt_succ_self _, ih (Nat.le_of_succ_le hdepth)⟩)
  | @group o c ts us hopen hclose hin _ ih =>
    have hgoes : endsConstraint o.kind = false := by
      rw [endsConstraint, isLike_symbol_of_test hopen rfl, isLike_symbol_of_test hopen rfl]
      rfl
    simp only [List.length_cons, List.length_append] at hdepth
    rw [List.map_cons, List.cons_append, List.map_append, List.append_assoc]
    refine .next ((parses_peek_token _ _).step ?_)
    rw [hgoes, hopen, if_neg nofun, if_pos rfl]
    refine (hin.skipGroup (by omega) hopen hclose).bind ?_
    rintro _ _ rfl
    refine .pure ⟨(), rfl, ?_, ih (by omega)⟩
    simp only [List.append_eq, List.map_cons, List.length_cons, List.length_append]
    omega

/-! ## Type parameters -/

theorem WritesConstraint.ne_comma {b : Token} (h : WritesConstraint (b :: ts)) : b.kind ≠ .symbol .comma := by
  cases h with
  | token _ _ _ hcomma => exact hcomma
  | group hopen =>
    intro hcomma
    rw [hcomma] at hopen
    cases hopen

/-- A parameter with a comma behind its constraint. -/
theorem WritesConstraint.paramTurn_comma (h : WritesConstraint ts) (hdepth : ts.length ≤ depth) {name : String}
    {span comma : Span} (found : List String) (es : List Event) :
    Parses (typeParams.turn (.ofDepth depth) found)
      (.ok ⟨.identifier name, span⟩ :: (ts.map .ok ++ .ok ⟨.symbol .comma, comma⟩ :: es)) fun step es' =>
        step = .yield (found ++ [name]) ∧ es' = es := by
  refine .ifCheckNot rfl rfl ((parses_identifier span _).step ?_)
  rcases ts with _ | ⟨b, ts⟩
  · exact .ifAccept rfl (.pure ⟨rfl, rfl⟩)
  · refine .ifAcceptNot rfl (isLike_symbol_of_ne h.ne_comma) ((h.skipUntil hdepth rfl rfl).bind ?_)
    rintro _ _ rfl
    exact .ifAccept rfl (.pure ⟨rfl, rfl⟩)

/-- The last parameter, without a comma behind its constraint. -/
theorem WritesConstraint.paramTurn_last (h : WritesConstraint ts) (hdepth : ts.length ≤ depth) {name : String}
    {span closeSpan : Span} (found : List String) (es : List Event) :
    Parses (typeParams.turn (.ofDepth depth) found)
      (.ok ⟨.identifier name, span⟩ :: (ts.map .ok ++ .ok ⟨.symbol .rBracket, closeSpan⟩ :: es)) fun step es' =>
        step = .done (found ++ [name]) ∧ es' = .ok ⟨.symbol .rBracket, closeSpan⟩ :: es := by
  refine .ifCheckNot rfl rfl ((parses_identifier span _).step ?_)
  obtain ⟨k, hnext, hcomma⟩ : ∃ k, nextKind? (ts.map .ok ++ .ok ⟨.symbol .rBracket, closeSpan⟩ :: es) = some k ∧
      k ≠ .symbol .comma := by
    rcases ts with _ | ⟨b, ts⟩
    · exact ⟨_, rfl, nofun⟩
    · exact ⟨_, rfl, h.ne_comma⟩
  refine .ifAcceptNot hnext (isLike_symbol_of_ne hcomma) ((h.skipUntil hdepth rfl rfl).bind ?_)
  rintro _ _ rfl
  exact .ifAcceptNot rfl rfl (.pure ⟨rfl, rfl⟩)

theorem WritesParams.repeats {names : List String} (h : WritesParams names ts) (hdepth : ts.length ≤ depth)
    (found : List String) (closeSpan : Span) (rest : List Event) :
    Repeats (typeParams.turn (.ofDepth depth)) found (ts.map .ok ++ .ok ⟨.symbol .rBracket, closeSpan⟩ :: rest)
      fun names' es' => names' = found ++ names ∧ es' = .ok ⟨.symbol .rBracket, closeSpan⟩ :: rest := by
  induction h generalizing found with
  | last hts =>
    refine .done ((hts.paramTurn_last (Nat.le_of_succ_le hdepth) found rest).mono ?_)
    rintro _ _ ⟨rfl, rfl⟩
    exact ⟨_, rfl, rfl, rfl⟩
  | @trailing name span comma ts hts =>
    simp only [List.length_cons, List.length_append, List.length_nil] at hdepth
    rw [List.map_cons, List.cons_append, List.map_append, List.append_assoc]
    refine .next ((hts.paramTurn_comma (by omega) found _).mono ?_)
    rintro _ _ ⟨rfl, rfl⟩
    refine ⟨_, rfl, ?_, .done (.ifCheck rfl rfl (.pure ⟨_, rfl, rfl, rfl⟩))⟩
    simp only [List.append_eq, List.nil_append, List.map_cons, List.map_nil, List.length_cons, List.length_append]
    omega
  | @next name names span comma ts us hts _ ih =>
    simp only [List.length_cons, List.length_append] at hdepth
    rw [List.map_cons, List.cons_append, List.map_append, List.append_assoc]
    refine .next ((hts.paramTurn_comma (by omega) found _).mono ?_)
    rintro _ _ ⟨rfl, rfl⟩
    refine ⟨_, rfl, ?_, (ih (by omega) _).mono ?_⟩
    · simp only [List.append_eq, List.map_cons, List.length_cons, List.length_append]
      omega
    · rintro _ _ ⟨rfl, rfl⟩
      exact ⟨by simp, rfl⟩

theorem WritesParams.typeParams {names : List String} (h : WritesParams names ts) (hdepth : ts.length ≤ depth)
    (openSpan closeSpan : Span) (rest : List Event) :
    Parses (typeParams (.ofDepth depth)) (.ok ⟨.symbol .lBracket, openSpan⟩ ::
      (ts.map .ok ++ .ok ⟨.symbol .rBracket, closeSpan⟩ :: rest)) fun names' es' => names' = names ∧ es' = rest := by
  refine (parses_expect rfl _).step ((Parses.repeating (h.repeats hdepth [] closeSpan rest)).bind ?_)
  rintro _ _ ⟨rfl, rfl⟩
  exact (parses_expect rfl rest).step (.pure ⟨List.nil_append _, rfl⟩)

/-! ## Declarations -/

theorem parses_atTypeParams {name openSpan : Span} {n : String} (hsecond : nextKind? es = some k) :
    Parses atTypeParams (.ok ⟨.symbol .lBracket, openSpan⟩ :: .ok ⟨.identifier n, name⟩ :: es) fun b es' =>
      b = followsParam k ∧ es' = .ok ⟨.symbol .lBracket, openSpan⟩ :: .ok ⟨.identifier n, name⟩ :: es := by
  refine .ifCheck rfl rfl ((parses_peekKindAt [⟨.symbol .lBracket, openSpan⟩] rfl).step ?_)
  refine (parses_peekKindAt [⟨.symbol .lBracket, openSpan⟩, ⟨.identifier n, name⟩] hsecond).step ?_
  exact .pure ⟨rfl, rfl⟩

/-- The declaration of a type that is no alias, with type parameters or without. -/
theorem parses_typeDecl {told : Bool} {params : List String} {name : String} {span : Span} {P : TypeExpr → Prop}
    (hat : Parses atTypeParams es fun b es' => b = told ∧ es' = es)
    (hparams : Parses (if told = true then typeParams g else pure []) es fun names es' => names = params ∧ es' = mid)
    (hfirst : nextKind? mid = some k) (hk : k.startsType = true)
    (htype : Parses (typeExpr g) mid fun e es' => P e ∧ es' = rest) :
    Parses (typeDecl g) (.ok ⟨.identifier name, span⟩ :: es) fun decl es' =>
      (decl.name = name ∧ decl.params = params ∧ decl.isAlias = false ∧ P decl.type) ∧ es' = rest := by
  have hbody : Parses (do
      let isAlias ← accept (.symbol .eq)
      let type ← typeExpr g
      return ⟨name, params, isAlias, type, ← spanFrom span⟩) mid fun (decl : TypeDecl) es' =>
        (decl.name = name ∧ decl.params = params ∧ decl.isAlias = false ∧ P decl.type) ∧ es' = rest := by
    refine (parses_acceptNot hfirst (isLike_symbol_of_test hk rfl)).step (htype.bind ?_)
    rintro _ _ ⟨hfound, rfl⟩
    exact .spanned fun _ => .pure ⟨⟨rfl, rfl, rfl, hfound⟩, rfl⟩
  refine (parses_peek_token _ _).step ((parses_identifier span _).step (hat.step ?_))
  cases told with
  | true => exact hparams.step hbody
  | false => exact hparams.step hbody

/-- Nothing shows type parameters in front of a length. -/
theorem ReadsAlone.atTypeParams {length : Expr} (h : ReadsAlone (binaryExpr · 1) ts length) (openSpan closeSpan : Span)
    (rest : List Event) :
    Parses atTypeParams
      (.ok ⟨.symbol .lBracket, openSpan⟩ :: (ts.map .ok ++ .ok ⟨.symbol .rBracket, closeSpan⟩ :: rest)) fun b es' =>
        b = false ∧ es' = .ok ⟨.symbol .lBracket, openSpan⟩ ::
          (ts.map .ok ++ .ok ⟨.symbol .rBracket, closeSpan⟩ :: rest) := by
  obtain ⟨⟨kind, span⟩, us, rfl, -⟩ := h.exists_startsExpr
  by_cases hname : kind.isLike (.identifier "") = true
  · obtain ⟨name, rfl⟩ : ∃ name, kind = .identifier name := by
      cases kind with
      | identifier name => exact ⟨name, rfl⟩
      | _ => cases hname
    obtain ⟨kind, hnext, hnot⟩ := h.not_followsParam closeSpan rest
    refine (parses_atTypeParams hnext).mono ?_
    rintro _ _ ⟨rfl, rfl⟩
    exact ⟨hnot, rfl⟩
  · refine .ifCheck rfl rfl ((parses_peekKindAt [⟨.symbol .lBracket, openSpan⟩] rfl).step ?_)
    rw [if_neg hname]
    exact .pure ⟨rfl, rfl⟩

section

variable (htype : ReadsAlone typeExpr us type) (hrest : IsEnd rest) (hdepth : ts.length ≤ depth ∧ us.length ≤ depth)
  (name : String) (span openSpan closeSpan : Span)
include htype hrest hdepth

theorem ReadsAlone.typeDecl {length : Expr} (h : ReadsAlone (binaryExpr · 1) ts length) :
    Parses (typeDecl (.ofDepth (depth + 1))) (.ok ⟨.identifier name, span⟩ :: .ok ⟨.symbol .lBracket, openSpan⟩ ::
        (ts.map .ok ++ .ok ⟨.symbol .rBracket, closeSpan⟩ :: (us.map .ok ++ rest))) fun decl es' =>
      (decl.name = name ∧ decl.params = [] ∧ decl.isAlias = false ∧ ∃ place, decl.type = .array length type place) ∧
        es' = rest := by
  have hend : IsEnd (.ok ⟨.symbol .rBracket, closeSpan⟩ :: (us.map .ok ++ rest)) := ⟨_, rfl, nofun, rfl, rfl⟩
  obtain ⟨first, vs, rfl, hfirst⟩ := h.exists_startsExpr
  refine parses_typeDecl (P := fun t => ∃ place, t = .array length type place) (h.atTypeParams openSpan closeSpan _)
    (.pure ⟨rfl, rfl⟩) rfl rfl ?_
  refine (parses_typeExpr_arrayOf (P := (· = length)) (Q := (· = type)) rfl hfirst (h.expr hdepth.1 hend)
    (htype.type hdepth.2 hrest)).mono ?_
  rintro _ _ ⟨⟨_, _, place, rfl, rfl, rfl⟩, rfl⟩
  exact ⟨⟨place, rfl⟩, rfl⟩

theorem WritesParams.typeDecl {params : List String} (h : WritesParams params ts) {first b : Token} {vs : List Token}
    (hts : ts = first :: b :: vs) (hfollows : followsParam b.kind = true) :
    Parses (typeDecl (.ofDepth (depth + 1))) (.ok ⟨.identifier name, span⟩ :: .ok ⟨.symbol .lBracket, openSpan⟩ ::
        (ts.map .ok ++ .ok ⟨.symbol .rBracket, closeSpan⟩ :: (us.map .ok ++ rest))) fun decl es' =>
      (decl.name = name ∧ decl.params = params ∧ decl.isAlias = false ∧ decl.type = type) ∧ es' = rest := by
  obtain ⟨k, hnext, hstart⟩ := htype.exists_startsType rest
  obtain ⟨n, place, rfl⟩ : ∃ n place, first = ⟨.identifier n, place⟩ := by
    cases h with
    | last => exact ⟨_, _, (List.cons.inj hts).1.symm⟩
    | trailing => exact ⟨_, _, (List.cons.inj hts).1.symm⟩
    | next => exact ⟨_, _, (List.cons.inj hts).1.symm⟩
  have hparams := h.typeParams (Nat.le_succ_of_le hdepth.1) openSpan closeSpan (us.map .ok ++ rest)
  subst hts
  refine parses_typeDecl (P := (· = type)) (parses_atTypeParams rfl) ?_ hnext hstart
    (htype.type (Nat.le_succ_of_le hdepth.2) hrest)
  rw [if_pos hfollows]
  exact hparams

end

/-- The type parameters are told from a length by the token behind the first name in the brackets. An array with any
    length and element that parse on their own is found to be one, without type parameters. Where a token that shows one
    stands behind the first of some type parameters, with whatever constraints they have, all their names are found. -/
theorem typeDecl_brackets (htype : ReadsAlone typeExpr us type) (hrest : IsEnd rest) {name : String}
    {span openSpan closeSpan : Span} (hs : s.stream.events = .ok ⟨.identifier name, span⟩ ::
      .ok ⟨.symbol .lBracket, openSpan⟩ :: (ts.map .ok ++ .ok ⟨.symbol .rBracket, closeSpan⟩ :: (us.map .ok ++ rest))) :
    (∀ length, ReadsAlone (binaryExpr · 1) ts length →
      ∃ decl t, withGrammar typeDecl s = .ok decl t ∧ t.stream.events = rest ∧ decl.name = name ∧ decl.params = [] ∧
        decl.isAlias = false ∧ ∃ place, decl.type = .array length type place) ∧
    (∀ params, WritesParams params ts → (∃ first b vs, ts = first :: b :: vs ∧ followsParam b.kind = true) →
      ∃ decl t, withGrammar typeDecl s = .ok decl t ∧ t.stream.events = rest ∧ decl.name = name ∧
        decl.params = params ∧ decl.isAlias = false ∧ decl.type = type) := by
  have hdepth : ts.length ≤ s.remaining ∧ us.length ≤ s.remaining := by
    simp only [State.remaining, hs, List.length_cons, List.length_append, List.length_map]
    omega
  refine ⟨fun length hts => ?_, ?_⟩
  · obtain ⟨decl, t, hres, ⟨hname, hparams, halias, hdecl⟩, ht⟩ :=
      ReadsAlone.typeDecl htype hrest hdepth name span openSpan closeSpan hts s hs
    exact ⟨decl, t, hres, ht, hname, hparams, halias, hdecl⟩
  · rintro params hts ⟨first, b, vs, hfirst, hfollows⟩
    obtain ⟨decl, t, hres, ⟨hname, hparams, halias, hdecl⟩, ht⟩ :=
      WritesParams.typeDecl htype hrest hdepth name span openSpan closeSpan hts hfirst hfollows s hs
    exact ⟨decl, t, hres, ht, hname, hparams, halias, hdecl⟩

/-- The tokens of `A [N + 2]int`. -/
def sumArray : List Token :=
  tokensAt 0 [.identifier "A", .symbol .lBracket, .identifier "N", .symbol .plus, .literal .int "2", .symbol .rBracket,
    .identifier "int"]

/-- The tokens of `A[P, Q interface{ struct{ x int } }] int`. -/
def sharedParams : List Token :=
  tokensAt 0 [.identifier "A", .symbol .lBracket, .identifier "P", .symbol .comma, .identifier "Q", .keyword .interface,
    .symbol .lBrace, .keyword .struct, .symbol .lBrace, .identifier "x", .identifier "int", .symbol .rBrace,
    .symbol .rBrace, .symbol .rBracket, .identifier "int"]

theorem readsAlone_sum :
    ReadsAlone (binaryExpr · 1) (tokensAt 2 [.identifier "N", .symbol .plus, .literal .int "2"])
      (.binary .add (.name none "N" ⟨2, 3⟩) (.int 2 ⟨4, 5⟩) ⟨2, 5⟩) := by
  have hseen : seen? (fun e t => (id e, t.stream.events.isEmpty)) (withGrammar (binaryExpr · 1)
      (.ofTokens 0 (tokensAt 2 [.identifier "N", .symbol .plus, .literal .int "2"]))) =
      some (.binary .add (.name none "N" ⟨2, 3⟩) (.int 2 ⟨4, 5⟩) ⟨2, 5⟩, true) := by decide +kernel
  obtain ⟨e, rfl, hreads⟩ := exists_readsAlone hseen
  exact hreads

theorem writesParams_shared : WritesParams ["P", "Q"] (tokensAt 2 [.identifier "P", .symbol .comma, .identifier "Q",
    .keyword .interface, .symbol .lBrace, .keyword .struct, .symbol .lBrace, .identifier "x", .identifier "int",
    .symbol .rBrace, .symbol .rBrace]) := by
  have hseen : seen? (fun _ t => ((), t.stream.events.isEmpty)) (withGrammar structType
      (.ofTokens 0 (tokensAt 7 [.keyword .struct, .symbol .lBrace, .identifier "x", .identifier "int",
        .symbol .rBrace]))) = some ((), true) := by decide +kernel
  obtain ⟨st, -, hstruct⟩ := exists_readsAlone hseen
  exact .next .nil (.last (.token rfl rfl nofun nofun (.group rfl rfl (.struct hstruct .nil) .nil)))

theorem typeDecl_brackets_told :
    (∃ decl t, withGrammar typeDecl (.ofTokens 7 sumArray) = .ok decl t ∧ t.stream.events = [] ∧ decl.name = "A" ∧
      decl.params = [] ∧ decl.isAlias = false ∧ ∃ place, decl.type =
        .array (.binary .add (.name none "N" ⟨2, 3⟩) (.int 2 ⟨4, 5⟩) ⟨2, 5⟩) (.named none "int" [] ⟨6, 7⟩) place) ∧
    (∃ decl t, withGrammar typeDecl (.ofTokens 15 sharedParams) = .ok decl t ∧ t.stream.events = [] ∧ decl.name = "A" ∧
      decl.params = ["P", "Q"] ∧ decl.isAlias = false ∧ decl.type = .named none "int" [] ⟨14, 15⟩) := by
  have hrest : IsEnd [] := ⟨.eof, rfl, nofun, rfl, rfl⟩
  refine ⟨(typeDecl_brackets (readsAlone_name "int" ⟨6, 7⟩) hrest rfl).1 _ readsAlone_sum, ?_⟩
  exact (typeDecl_brackets (readsAlone_name "int" ⟨14, 15⟩) hrest rfl).2 _ writesParams_shared ⟨_, _, _, rfl, rfl⟩

/-- In `A[P <-chan int, Q any] int` the brackets are taken for a length, as no arrow is looked for behind the first
    name. -/
theorem not_all_typeDecl_params :
    ¬ ∀ (params : List String) (ts us : List Token) (type : TypeExpr) (name : String) (span openSpan closeSpan : Span)
      (s : State), WritesParams params ts → 2 ≤ params.length → ReadsAlone typeExpr us type →
      s.stream.events = .ok ⟨.identifier name, span⟩ :: .ok ⟨.symbol .lBracket, openSpan⟩ ::
        (ts.map .ok ++ .ok ⟨.symbol .rBracket, closeSpan⟩ :: us.map .ok) →
      ∃ decl t, withGrammar typeDecl s = .ok decl t ∧ decl.params = params ∧ decl.type = type := by
  intro hall
  let s : State := .ofTokens 11 (tokensAt 0 [.identifier "A", .symbol .lBracket, .identifier "P", .symbol .arrow,
    .keyword .chan, .identifier "int", .symbol .comma, .identifier "Q", .identifier "any", .symbol .rBracket,
    .identifier "int"])
  have harrow : WritesConstraint [⟨.symbol .arrow, ⟨3, 4⟩⟩, ⟨.keyword .chan, ⟨4, 5⟩⟩, ⟨.identifier "int", ⟨5, 6⟩⟩] :=
    .token rfl rfl nofun nofun (.token rfl rfl nofun nofun (.token rfl rfl nofun nofun .nil))
  have hany : WritesConstraint [⟨.identifier "any", ⟨8, 9⟩⟩] := .token rfl rfl nofun nofun .nil
  have hparams : WritesParams ["P", "Q"] (tokensAt 2 [.identifier "P", .symbol .arrow, .keyword .chan,
    .identifier "int", .symbol .comma, .identifier "Q", .identifier "any"]) := .next harrow (.last hany)
  obtain ⟨decl, t, hres, -⟩ := hall _ _ _ _ "A" ⟨0, 1⟩ ⟨1, 2⟩ ⟨9, 10⟩ s hparams (Nat.le_refl 2)
    (readsAlone_name "int" ⟨10, 11⟩) rfl
  have hnone : seen? (fun _ _ => ()) (withGrammar typeDecl s) = none := by
    unfold s
    decide +kernel
  rw [hres] at hnone
  cases hnone

end StructPadding.Parser
