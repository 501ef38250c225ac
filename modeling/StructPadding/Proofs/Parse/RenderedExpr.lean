-- SUMMARY: A constant expression that is written by precedence is parsed back.
import StructPadding.Parse.Type
import StructPadding.Proofs.Parse.Parses
import StructPadding.Proofs.Syntax.Rendering
import StructPadding.Proofs.Syntax.Unplaced
import StructPadding.Proofs.Text.Decimal

/-!
# Expressions read back

The parser finds the expression that tokens were written for, and takes all of them but no more. What a loop over
operators has found so far is the left operand of the next operator; so it is said of an expression what the loop comes
to that has found it, and not that the loop ends there.
-/

namespace StructPadding.Parser

open Token (Kind Event)

/-- Whether a name, possibly qualified, does not begin with the word that is reserved for the line of a constant. -/
def IsReference (package : Option String) (name : String) : Prop := package.getD name ≠ "iota"

instance (package : Option String) (name : String) : Decidable (IsReference package name) :=
  inferInstanceAs (Decidable (package.getD name ≠ "iota"))

/-- Whether a result is an expression up to its places, and given events are left. -/
def Finds (e : Expr) : List Event → Expr → List Event → Prop := FindsUpTo Expr.unplaced e

/-- Whether a token comes next that does not continue an operand. -/
def EndsOperand (rest : List Event) : Prop :=
  ∃ k, nextKind? rest = some k ∧ k ≠ .symbol .dot ∧ k ≠ .symbol .lParen

/-- Whether a token comes next that is no operator of at least some precedence. -/
def EndsOperation (p : Nat) (rest : List Event) : Prop :=
  ∃ k, nextKind? rest = some k ∧ ∀ op, BinaryOp.ofKind? k = some op → op.precedence < p

/-- Whether a token comes next that does not continue an expression. -/
def EndsExpr (rest : List Event) : Prop :=
  ∃ k, nextKind? rest = some k ∧ k ≠ .symbol .dot ∧ k ≠ .symbol .lParen ∧ BinaryOp.ofKind? k = none

theorem EndsExpr.operand {rest : List Event} (h : EndsExpr rest) : EndsOperand rest := by
  obtain ⟨k, hk, hdot, hparen, -⟩ := h
  exact ⟨k, hk, hdot, hparen⟩

theorem EndsExpr.operation {rest : List Event} (h : EndsExpr rest) (p : Nat) : EndsOperation p rest := by
  obtain ⟨k, hk, -, -, hnone⟩ := h
  exact ⟨k, hk, fun op hop => absurd (hop.symm.trans hnone) nofun⟩

theorem endsExpr_rParen (span : Span) (es : List Event) : EndsExpr (.ok ⟨.symbol .rParen, span⟩ :: es) :=
  ⟨_, rfl, nofun, nofun, rfl⟩

theorem endsOperand_operator (op : BinaryOp) (span : Span) (es : List Event) :
    EndsOperand (.ok ⟨op.kind, span⟩ :: es) :=
  ⟨_, rfl, by cases op <;> nofun, by cases op <;> nofun⟩

theorem endsOperation_operator (op : BinaryOp) (span : Span) (es : List Event) :
    EndsOperation (op.precedence + 1) (.ok ⟨op.kind, span⟩ :: es) := by
  refine ⟨_, rfl, fun op' hop' => ?_⟩
  obtain rfl := Option.some.inj (hop'.symm.trans op.ofKind?_kind)
  exact Nat.lt_succ_self _

variable {g : Grammar} {e : Expr} {es rest : List Event}

/-! ## Operands -/

theorem parses_operand_identifier {n : String} (hn : n ≠ "iota") (span : Span) {Q : Expr → List Event → Prop}
    (h : Parses (do
      if ← accept (.symbol .dot) then
        let member ← identifier
        return .name (some n) member (← spanFrom span)
      return .name none n span) es Q) : Parses (operand g) (.ok ⟨.identifier n, span⟩ :: es) Q := by
  refine (parses_advance _ _).step ?_
  split
  case h_4 heq => exact absurd (Kind.identifier.inj heq) hn
  case h_5 heq =>
    cases heq
    exact h
  case h_7 hother _ => exact absurd rfl (hother n)
  all_goals contradiction

theorem exists_nextKind?_of_name {package : Option String} {name : String}
    (hes : Writes (nameKinds package name) es rest) : ∃ n, nextKind? es = some (.identifier n) := by
  obtain ⟨n, ks, heq⟩ := exists_nameKinds_eq package name
  exact ⟨n, nextKind?_of_writes (heq ▸ hes)⟩

theorem parses_operand_name {package : Option String} {name : String} (hname : IsReference package name)
    (hes : Writes (nameKinds package name) es rest) {k : Kind} (hk : nextKind? rest = some k) (hdot : k ≠ .symbol .dot)
    (span : Span) : Parses (operand g) es (Finds (.name package name span) rest) := by
  cases package with
  | none =>
    obtain ⟨s, rfl⟩ := writes_singleton_iff.1 hes
    refine parses_operand_identifier hname s (.ifAcceptNot hk (isLike_symbol_of_ne hdot) ?_)
    exact .pure ⟨rfl, rfl⟩
  | some package =>
    obtain ⟨s, _, rfl, hmember⟩ := writes_cons_iff.1 hes
    obtain ⟨_, _, rfl, hname'⟩ := writes_cons_iff.1 hmember
    obtain ⟨s', rfl⟩ := writes_singleton_iff.1 hname'
    refine parses_operand_identifier hname s (.ifAccept rfl ?_)
    exact (parses_identifier s' _).step (.spanned fun _ => .pure ⟨rfl, rfl⟩)

theorem parses_operand_iota (span : Span) (rest : List Event) :
    Parses (operand g) (.ok ⟨.identifier "iota", span⟩ :: rest) (Finds (.iota span) rest) :=
  (parses_advance _ _).step (.pure ⟨rfl, rfl⟩)

theorem parses_operand_int {text : String} {v : Int} (hv : Literal.int? text = some v) (span : Span)
    (rest : List Event) : Parses (operand g) (.ok ⟨.literal .int text, span⟩ :: rest) (Finds (.int v span) rest) := by
  refine (parses_advance _ _).step ?_
  simp only [hv]
  exact .pure ⟨rfl, rfl⟩

/-- The expression that a literal between single quotes is taken for. -/
def runeOperand (text : String) (span : Span) : Expr :=
  match Literal.rune? (unquote text).toList with
  | some v => .int v span
  | none => .other span

theorem parses_operand_rune (text : String) (span span' : Span) (rest : List Event) :
    Parses (operand g) (.ok ⟨.literal .rune text, span⟩ :: rest) (Finds (runeOperand text span') rest) := by
  refine (parses_advance _ _).step ?_
  cases hv : Literal.rune? (unquote text).toList <;> simp only [hv, runeOperand] <;> exact .pure ⟨rfl, rfl⟩

theorem parses_operand_other {form : Token.Literal} (hform : form.isOpaque = true) (text : String) (span : Span)
    (rest : List Event) : Parses (operand g) (.ok ⟨.literal form text, span⟩ :: rest) (Finds (.other span) rest) := by
  refine (parses_advance _ _).step ?_
  cases form with
  | float | imaginary | string => exact .pure ⟨rfl, rfl⟩
  | int | rune => cases hform

theorem parses_operand_parentheses {span span' : Span}
    (he : Parses (g.expr 1) es (Finds e (.ok ⟨.symbol .rParen, span'⟩ :: rest))) :
    Parses (operand g) (.ok ⟨.symbol .lParen, span⟩ :: es) (Finds e rest) := by
  refine (parses_advance _ _).step (he.bind ?_)
  rintro e' _ ⟨hsame, rfl⟩
  exact (parses_expect rfl rest).step (.pure ⟨(Expr.unplaced_withSpan ..).trans hsame, rfl⟩)

/-! ## Calls -/

/-- Whether the arguments found are given expressions up to their places, and given events are left. -/
def FindsArgs (args : List Expr) : List Event → Option (List Expr) → List Event → Prop :=
  FindsUpTo (Option.map (List.map Expr.unplaced)) (some args)

/-- The turn of the loop over arguments. -/
def argumentTurn (g : Grammar) (args : Option (List Expr)) : Parser (ForInStep (Option (List Expr))) := do
  if ← check (.symbol .rParen) then return .done args
  let args ←
    if (← peekKind).startsExpr then
      let e ← g.expr 1
      pure (args.map (· ++ [e]))
    else pure args
  let args ←
    if ← callArgs.atEnd then pure args
    else do
      skipUntil g (fun k => k.isLike (.symbol .comma) || k.isLike (.symbol .rParen))
      pure none
  if ← accept (.symbol .comma) then return .yield args
  return .done args

theorem parses_callArgs {args : List Expr} {openSpan closeSpan : Span}
    (h : Repeats (argumentTurn g) (some []) es (FindsArgs args (.ok ⟨.symbol .rParen, closeSpan⟩ :: rest))) :
    Parses (callArgs g) (.ok ⟨.symbol .lParen, openSpan⟩ :: es) (FindsArgs args rest) := by
  refine (parses_expect rfl es).step ?_
  refine (Parses.repeating h).bind ?_
  rintro found _ ⟨hfound, rfl⟩
  exact (parses_expect rfl rest).step (.pure ⟨hfound, rfl⟩)

theorem parses_atEnd_rParen (span : Span) (es : List Event) :
    Parses callArgs.atEnd (.ok ⟨.symbol .rParen, span⟩ :: es) fun b es' =>
      b = true ∧ es' = .ok ⟨.symbol .rParen, span⟩ :: es := by
  refine .ifCheckNot rfl rfl ?_
  exact parses_check (k := .symbol .rParen) rfl _

theorem parses_atEnd_comma (span : Span) (es : List Event) :
    Parses callArgs.atEnd (.ok ⟨.symbol .comma, span⟩ :: es) fun b es' =>
      b = true ∧ es' = .ok ⟨.symbol .comma, span⟩ :: es := by
  exact .ifCheck rfl rfl (.pure ⟨rfl, rfl⟩)

theorem repeats_argumentTurn_close (args : List Expr) (closeSpan : Span) (rest : List Event) :
    Repeats (argumentTurn g) (some args) (.ok ⟨.symbol .rParen, closeSpan⟩ :: rest)
      (FindsArgs args (.ok ⟨.symbol .rParen, closeSpan⟩ :: rest)) :=
  .done (.ifCheck rfl rfl (.pure ⟨_, rfl, rfl, rfl⟩))

section

variable {x : Expr} {k : Kind} (hfirst : nextKind? es = some k) (hk : k.startsExpr = true)
include hfirst hk

theorem repeats_argumentTurn_last {closeSpan : Span}
    (hx : Parses (g.expr 1) es (Finds x (.ok ⟨.symbol .rParen, closeSpan⟩ :: rest))) (args : List Expr) :
    Repeats (argumentTurn g) (some args) es (FindsArgs (args ++ [x]) (.ok ⟨.symbol .rParen, closeSpan⟩ :: rest)) := by
  refine .done (.ifCheckNot hfirst (isLike_symbol_of_test hk rfl) ?_)
  refine (parses_peekKind hfirst).step ?_
  rw [if_pos hk]
  refine hx.bind ?_
  rintro x' _ ⟨hsame, rfl⟩
  refine Parses.step (.pure ⟨rfl, rfl⟩) ?_
  refine (parses_atEnd_rParen closeSpan rest).step ?_
  refine Parses.step (.pure ⟨rfl, rfl⟩) ?_
  exact .ifAcceptNot rfl rfl (.pure ⟨_, rfl, by simp [hsame], rfl⟩)

theorem repeats_argumentTurn_next {mid : List Event} {comma : Span} (hlength : mid.length < es.length)
    (hx : Parses (g.expr 1) es (Finds x (.ok ⟨.symbol .comma, comma⟩ :: mid))) {xs : List Expr}
    (hxs : ∀ args, Repeats (argumentTurn g) (some args) mid (FindsArgs (args ++ xs) rest)) (args : List Expr) :
    Repeats (argumentTurn g) (some args) es (FindsArgs (args ++ x :: xs) rest) := by
  refine .next (.ifCheckNot hfirst (isLike_symbol_of_test hk rfl) ?_)
  refine (parses_peekKind hfirst).step ?_
  rw [if_pos hk]
  refine hx.bind ?_
  rintro x' _ ⟨hsame, rfl⟩
  refine Parses.step (.pure ⟨rfl, rfl⟩) ?_
  refine (parses_atEnd_comma comma mid).step ?_
  refine Parses.step (.pure ⟨rfl, rfl⟩) ?_
  refine .ifAccept rfl (.pure ⟨_, rfl, hlength, (hxs (args ++ [x'])).mono ?_⟩)
  rintro found es' ⟨hfound, rfl⟩
  exact ⟨hfound.trans (by simp [hsame]), rfl⟩

end

/-- The turn of the loop over calls. -/
def callTurn (g : Grammar) (start : Span) (e : Expr) : Parser (ForInStep Expr) := do
  unless ← check (.symbol .lParen) do return .done e
  let args ← callArgs g
  return .yield (applied e args (← spanFrom start))

/-- What a parser does with the tokens of an operand with calls behind it: the loop over calls comes to what it comes to
    having found the operand. -/
def ReadsPrimary (g : Grammar) (e : Expr) (es rest : List Event) : Prop :=
  ∀ Q : Expr → List Event → Prop,
    (∀ (start : Span) (e' : Expr), e'.unplaced = e.unplaced → Repeats (callTurn g start) e' rest Q) →
      Parses (primaryExpr g) es Q

theorem readsPrimary_of_operand {k : Kind} (hfirst : nextKind? es = some k)
    (he : Parses (operand g) es (Finds e rest)) : ReadsPrimary g e es rest := by
  intro Q h
  refine (parses_peek hfirst).bind ?_
  rintro start _ ⟨-, rfl⟩
  refine he.bind ?_
  rintro e' _ ⟨hsame, rfl⟩
  exact .repeating (h start.span e' hsame)

/-- With no call behind it, an operand is found. -/
theorem ReadsPrimary.parses (h : ReadsPrimary g e es rest) (hrest : EndsOperand rest) :
    Parses (primaryExpr g) es (Finds e rest) := by
  obtain ⟨k, hk, -, hparen⟩ := hrest
  refine h _ fun start e' hsame => .done (.ifCheckNot hk (isLike_symbol_of_ne hparen) ?_)
  exact .pure ⟨e', rfl, hsame, rfl⟩

/-- What a call is taken for does not depend on places. -/
theorem unplaced_applied {callee callee' : Expr} {args : List Expr} {args' : Option (List Expr)} {span span' : Span}
    (hcallee : callee'.unplaced = callee.unplaced)
    (hargs : args'.map (List.map Expr.unplaced) = some (args.map Expr.unplaced)) :
    (applied callee' args' span').unplaced = (applied callee (some args) span).unplaced := by
  obtain ⟨found, rfl, hfound⟩ := Option.map_eq_some_iff.1 hargs
  have hname : callee'.isName = callee.isName := by rw [← Expr.isName_unplaced, hcallee, Expr.isName_unplaced]
  rcases args with _ | ⟨x, _ | ⟨y, ys⟩⟩ <;> rcases found with _ | ⟨x', _ | ⟨y', ys'⟩⟩ <;>
    simp only [List.map_nil, List.map_cons, List.cons.injEq, reduceCtorEq, and_false, and_true] at hfound
  · rfl
  · simp only [applied, hname]
    split <;> simp only [Expr.unplaced, hfound]
  · rfl

theorem ReadsPrimary.call {callee : Expr} {args : List Expr} {ks : List Kind} {inner : List Event}
    {openSpan closeSpan span : Span} (hcallee : ReadsPrimary g callee es (.ok ⟨.symbol .lParen, openSpan⟩ :: inner))
    (hks : Writes ks inner (.ok ⟨.symbol .rParen, closeSpan⟩ :: rest))
    (hargs : Repeats (argumentTurn g) (some []) inner (FindsArgs args (.ok ⟨.symbol .rParen, closeSpan⟩ :: rest))) :
    ReadsPrimary g (applied callee (some args) span) es rest := by
  intro Q h
  have hlength := hks.length_eq
  rw [List.length_cons] at hlength
  refine hcallee Q fun start callee' hsame => .next (.ifCheck rfl rfl ?_)
  refine (parses_callArgs hargs).bind ?_
  rintro found _ ⟨hfound, rfl⟩
  refine .spanned fun callSpan => .pure ⟨_, rfl, ?_, h start _ (unplaced_applied hsame hfound)⟩
  rw [List.length_cons]
  omega

/-! ## Operators -/

theorem parses_unaryExpr_of_primary {k : Kind} (hfirst : nextKind? es = some k) (hk : UnaryOp.ofKind? k = none)
    (h : Parses (primaryExpr g) es (Finds e rest)) : Parses (unaryExpr g) es (Finds e rest) := by
  refine (parses_peekKind hfirst).step ?_
  simp only [hk]
  exact h

theorem parses_unaryExpr_unary {op : UnaryOp} {x : Expr} {span : Span} (hx : Parses g.unary es (Finds x rest)) :
    Parses (unaryExpr g) (.ok ⟨op.kind, span⟩ :: es) (Finds (.unary op x span) rest) := by
  refine (parses_peekKind rfl).step ?_
  simp only [UnaryOp.ofKind?_kind]
  refine (parses_advance _ _).step (hx.bind ?_)
  rintro x' _ ⟨hsame, rfl⟩
  exact .pure ⟨congrArg (fun x => Expr.unary op x default) hsame, rfl⟩

/-- The turn of the loop over operators. -/
def operatorTurn (g : Grammar) (precedence : Nat) (lhs : Expr) : Parser (ForInStep Expr) := do
  match BinaryOp.ofKind? (← peekKind) with
  | none => return .done lhs
  | some op =>
    if op.precedence < precedence then return .done lhs
    let _ ← advance
    let rhs ← g.expr (op.precedence + 1)
    return .yield (.binary op lhs rhs (lhs.span.merge rhs.span))

theorem binaryExpr_eq (g : Grammar) (precedence : Nat) :
    binaryExpr g precedence = unaryExpr g >>= fun first => repeating first (operatorTurn g precedence) := rfl

variable {p : Nat} {lhs : Expr} {Q : Expr → List Event → Prop}

theorem repeats_operatorTurn_done (hrest : EndsOperation p rest) (h : Q lhs rest) :
    Repeats (operatorTurn g p) lhs rest Q := by
  obtain ⟨k, hk, hop⟩ := hrest
  refine .done ((parses_peekKind hk).step ?_)
  split
  · exact .pure ⟨lhs, rfl, h⟩
  · next op heq =>
    rw [if_pos (hop op heq)]
    exact .pure ⟨lhs, rfl, h⟩

/-- An operator is taken with its right operand. -/
theorem repeats_operatorTurn_next {op : BinaryOp} {r : Expr} {ks : List Kind} {span : Span} (hp : p ≤ op.precedence)
    (hes : Writes ks es rest) (hr : Parses (g.expr (op.precedence + 1)) es (Finds r rest))
    (h : ∀ e : Expr, e.unplaced = .binary op lhs.unplaced r.unplaced default → Repeats (operatorTurn g p) e rest Q) :
    Repeats (operatorTurn g p) lhs (.ok ⟨op.kind, span⟩ :: es) Q := by
  have hlength : rest.length < es.length + 1 := by
    rw [hes.length_eq]
    omega
  refine .next ((parses_peekKind rfl).step ?_)
  simp only [BinaryOp.ofKind?_kind]
  rw [if_neg (Nat.not_lt.2 hp)]
  refine (parses_advance _ _).step (hr.bind ?_)
  rintro r' _ ⟨hsame, rfl⟩
  refine .pure ⟨_, rfl, hlength, h _ ?_⟩
  simp only [Expr.unplaced, hsame]

/-- What is found without operators is the first operand. -/
theorem parses_binaryExpr_of_unary (he : Parses (unaryExpr g) es (Finds e rest))
    (h : ∀ e' : Expr, e'.unplaced = e.unplaced → Repeats (operatorTurn g p) e' rest Q) :
    Parses (binaryExpr g p) es Q := by
  rw [binaryExpr_eq]
  refine he.bind ?_
  rintro e' _ ⟨hsame, rfl⟩
  exact .repeating (h e' hsame)

/-! ## Whole expressions -/

/-- What a parser does with the tokens of an expression that are written for operators of at least some precedence. -/
structure ReadsExpr (g : Grammar) (q : Nat) (e : Expr) (es rest : List Event) : Prop where
  /-- No binary operator stands outside of parentheses where none can be tight enough. -/
  unary : 5 < q → Parses (unaryExpr g) es (Finds e rest)
  /-- A loop over operators comes to what it comes to having found the expression. -/
  binary {p : Nat} {Q : Expr → List Event → Prop} : p ≤ q → EndsOperation (q + 1) rest →
    (∀ e' : Expr, e'.unplaced = e.unplaced → Repeats (operatorTurn g p) e' rest Q) → Parses (binaryExpr g p) es Q

theorem ReadsExpr.of_unary {q : Nat} (h : Parses (unaryExpr g) es (Finds e rest)) : ReadsExpr g q e es rest :=
  ⟨fun _ => h, fun _ _ => parses_binaryExpr_of_unary h⟩

theorem ReadsExpr.of_primary {q : Nat} {k : Kind} (hfirst : nextKind? es = some k) (hk : UnaryOp.ofKind? k = none)
    (h : Parses (primaryExpr g) es (Finds e rest)) : ReadsExpr g q e es rest :=
  .of_unary (parses_unaryExpr_of_primary hfirst hk h)

/-- With nothing behind it that belongs to it, an expression is found. -/
theorem ReadsExpr.parses {q : Nat} (h : ReadsExpr g q e es rest) (hrest : EndsOperation q rest) :
    Parses (binaryExpr g q) es (Finds e rest) := by
  refine h.binary (Nat.le_refl q) ?_ fun e' hsame => repeats_operatorTurn_done hrest ⟨hsame, rfl⟩
  obtain ⟨k, hk, hop⟩ := hrest
  exact ⟨k, hk, fun op heq => Nat.lt_succ_of_lt (hop op heq)⟩

/-! ## Written expressions -/

/-- What tokens of an expression can stand for. -/
inductive ExprForm
  /-- An expression at a place for operators of at least some precedence. -/
  | expr (p : Nat) (e : Expr)
  /-- An operand with the calls behind it. -/
  | primary (e : Expr)
  /-- Arguments with commas between them, and possibly behind the last one. -/
  | args (es : List Expr)

/-- Whether tokens are those of a form. Literals are written in any way, parentheses stand around any expression, and
    anything is called that stands in front of arguments; a call is the expression that the parser takes it for. -/
inductive ExprForm.Renders : ExprForm → List Kind → Prop
  | int {text v span} : Literal.int? text = some v → Renders (.primary (.int v span)) [.literal .int text]
  | rune {text span} : Renders (.primary (runeOperand text span)) [.literal .rune text]
  | other {form text span} : form.isOpaque = true → Renders (.primary (.other span)) [.literal form text]
  | name {package name span} : IsReference package name →
      Renders (.primary (.name package name span)) (nameKinds package name)
  | iota {span} : Renders (.primary (.iota span)) [.identifier "iota"]
  | parentheses {e ks} : Renders (.expr 1 e) ks → Renders (.primary e) (.symbol .lParen :: (ks ++ [.symbol .rParen]))
  | call {callee args span ks ls} : Renders (.primary callee) ks → Renders (.args args) ls →
      Renders (.primary (applied callee (some args) span)) (ks ++ .symbol .lParen :: (ls ++ [.symbol .rParen]))
  | primary {p e ks} : Renders (.primary e) ks → Renders (.expr p e) ks
  /-- No binary operator binds as tightly as a unary one. -/
  | unary {p op x span ks} : Renders (.expr 6 x) ks → Renders (.expr p (.unary op x span)) (op.kind :: ks)
  | binary {p op l r span ks ls} : p ≤ op.precedence → Renders (.expr op.precedence l) ks →
      Renders (.expr (op.precedence + 1) r) ls → Renders (.expr p (.binary op l r span)) (ks ++ op.kind :: ls)
  | noArgs : Renders (.args []) []
  | oneArg {x ks} : Renders (.expr 1 x) ks → Renders (.args [x]) ks
  | nextArg {x xs ks ls} : Renders (.expr 1 x) ks → Renders (.args xs) ls →
      Renders (.args (x :: xs)) (ks ++ .symbol .comma :: ls)

/-- What the tokens of a form begin with. -/
def ExprForm.BeginsWith (k : Kind) : ExprForm → Prop
  | .expr _ _ => k.startsExpr = true
  | .primary _ => k.startsExpr = true ∧ UnaryOp.ofKind? k = none
  | .args _ => True

theorem ExprForm.Renders.beginsWith {form : ExprForm} {ks : List Kind} (h : form.Renders ks) :
    (∃ k ls, ks = k :: ls ∧ form.BeginsWith k) ∨ form = .args [] := by
  induction h with
  | int | rune | other | iota => exact .inl ⟨_, _, rfl, rfl, rfl⟩
  | @name package name =>
    obtain ⟨n, ls, heq⟩ := exists_nameKinds_eq package name
    exact .inl ⟨_, ls, heq, rfl, rfl⟩
  | parentheses => exact .inl ⟨_, _, rfl, rfl, rfl⟩
  | call _ _ ih =>
    obtain ⟨k, ls, rfl, hk⟩ | hargs := ih
    · exact .inl ⟨k, _, rfl, hk⟩
    · cases hargs
  | primary _ ih =>
    obtain ⟨k, ls, rfl, hk⟩ | hargs := ih
    · exact .inl ⟨k, ls, rfl, hk.1⟩
    · cases hargs
  | @unary _ op => exact .inl ⟨_, _, rfl, by cases op <;> rfl⟩
  | binary _ _ _ ih =>
    obtain ⟨k, ls, rfl, hk⟩ | hargs := ih
    · exact .inl ⟨k, _, rfl, hk⟩
    · cases hargs
  | noArgs => exact .inr rfl
  | oneArg _ ih =>
    obtain ⟨k, ls, rfl, -⟩ | hargs := ih
    · exact .inl ⟨k, ls, rfl, trivial⟩
    · cases hargs
  | nextArg _ _ ih =>
    obtain ⟨k, ls, rfl, -⟩ | hargs := ih
    · exact .inl ⟨k, _, rfl, trivial⟩
    · cases hargs

/-- What a grammar of some depth does with the tokens of a form. -/
def ReadsExprForm (depth : Nat) (ks : List Kind) : ExprForm → Prop
  | .expr q e => ∀ es rest, ks.length ≤ depth + 1 → Writes ks es rest → EndsOperand rest →
      ReadsExpr (.ofDepth depth) q e es rest
  | .primary e => ∀ es rest k, ks.length ≤ depth + 1 → Writes ks es rest → nextKind? rest = some k →
      k ≠ .symbol .dot → ReadsPrimary (.ofDepth depth) e es rest
  | .args xs => ∀ es rest closeSpan, ks.length ≤ depth → Writes ks es (.ok ⟨.symbol .rParen, closeSpan⟩ :: rest) →
      ∀ found, Repeats (argumentTurn (.ofDepth depth)) (some found) es
        (FindsArgs (found ++ xs) (.ok ⟨.symbol .rParen, closeSpan⟩ :: rest))

/-- Whether all grammars do so that are deep enough. -/
def ReadsExprTokens (ks : List Kind) (form : ExprForm) : Prop := ∀ depth, ReadsExprForm depth ks form

/-- An expression in brackets or in front of a comma is found by the grammar that is one level deeper. -/
theorem parses_expr_of_readsExprForm {ks : List Kind} (hks : ExprForm.Renders (.expr 1 e) ks) (depth : Nat)
    (h : ReadsExprTokens ks (.expr 1 e)) (hdepth : ks.length ≤ depth) (hes : Writes ks es rest)
    (hrest : EndsExpr rest) : Parses ((Grammar.ofDepth depth).expr 1) es (Finds e rest) := by
  obtain ⟨k, ls, rfl, -⟩ | hargs := hks.beginsWith
  · obtain ⟨depth, rfl⟩ : ∃ d, depth = d + 1 := ⟨depth - 1, by rw [List.length_cons] at hdepth; omega⟩
    exact (h depth es rest hdepth hes hrest.operand).parses (hrest.operation 1)
  · cases hargs

theorem exists_startsExpr {q : Nat} {ks : List Kind} (h : ExprForm.Renders (.expr q e) ks) (hes : Writes ks es rest) :
    ∃ k, nextKind? es = some k ∧ k.startsExpr = true := by
  obtain ⟨k, ls, rfl, hk⟩ | hargs := h.beginsWith
  · exact ⟨k, nextKind?_of_writes hes, hk⟩
  · cases hargs

namespace ReadsExprTokens

variable {text : String} {span : Span} {q : Nat} {x l r : Expr} {xs : List Expr} {ks ls : List Kind}

theorem int {v : Int} (hv : Literal.int? text = some v) :
    ReadsExprTokens [.literal .int text] (.primary (.int v span)) := by
  intro depth es rest k _ hes _ _
  obtain ⟨span, rfl⟩ := writes_singleton_iff.1 hes
  exact readsPrimary_of_operand rfl (parses_operand_int hv span _)

theorem rune : ReadsExprTokens [.literal .rune text] (.primary (runeOperand text span)) := by
  intro depth es rest k _ hes _ _
  obtain ⟨span, rfl⟩ := writes_singleton_iff.1 hes
  exact readsPrimary_of_operand rfl (parses_operand_rune text span _ _)

theorem other {form : Token.Literal} (hform : form.isOpaque = true) :
    ReadsExprTokens [.literal form text] (.primary (.other span)) := by
  intro depth es rest k _ hes _ _
  obtain ⟨span, rfl⟩ := writes_singleton_iff.1 hes
  exact readsPrimary_of_operand rfl (parses_operand_other hform _ span _)

theorem name {package : Option String} {name : String} (hname : IsReference package name) :
    ReadsExprTokens (nameKinds package name) (.primary (.name package name span)) := by
  intro depth es rest k _ hes hk hdot
  obtain ⟨n, hfirst⟩ := exists_nextKind?_of_name hes
  exact readsPrimary_of_operand hfirst (parses_operand_name hname hes hk hdot _)

theorem iota : ReadsExprTokens [.identifier "iota"] (.primary (.iota span)) := by
  intro depth es rest k _ hes _ _
  obtain ⟨span, rfl⟩ := writes_singleton_iff.1 hes
  exact readsPrimary_of_operand rfl (parses_operand_iota span _)

theorem parentheses (he : ExprForm.Renders (.expr 1 e) ks) (ih : ReadsExprTokens ks (.expr 1 e)) :
    ReadsExprTokens (.symbol .lParen :: (ks ++ [.symbol .rParen])) (.primary e) := by
  intro depth es rest k hdepth hes _ _
  obtain ⟨openSpan, es', closeSpan, rfl, hks⟩ := writes_enclosed_iff.1 hes
  simp only [List.length_cons, List.length_append, List.length_nil] at hdepth
  have hinner := parses_expr_of_readsExprForm he depth ih (by omega) hks (endsExpr_rParen closeSpan rest)
  exact readsPrimary_of_operand rfl (parses_operand_parentheses hinner)

theorem call (ihcallee : ReadsExprTokens ks (.primary e)) (ihargs : ReadsExprTokens ls (.args xs)) :
    ReadsExprTokens (ks ++ .symbol .lParen :: (ls ++ [.symbol .rParen])) (.primary (applied e (some xs) span)) := by
  intro depth es rest k hdepth hes _ _
  obtain ⟨mid, hcallee, htail⟩ := writes_append_iff.1 hes
  obtain ⟨openSpan, es', closeSpan, rfl, hls⟩ := writes_enclosed_iff.1 htail
  simp only [List.length_cons, List.length_append, List.length_nil] at hdepth
  have hread := ihcallee depth es _ _ (by omega) hcallee rfl nofun
  exact hread.call hls (ihargs depth es' rest closeSpan (by omega) hls [])

theorem primary (he : ExprForm.Renders (.primary e) ks) (ih : ReadsExprTokens ks (.primary e)) :
    ReadsExprTokens ks (.expr q e) := by
  intro depth es rest hdepth hes hrest
  obtain ⟨k, ls, rfl, -, hop⟩ | hargs := he.beginsWith
  · have ⟨k', hk', hdot, _⟩ := hrest
    exact .of_primary (nextKind?_of_writes hes) hop ((ih depth es rest k' hdepth hes hk' hdot).parses hrest)
  · cases hargs

theorem unary {op : UnaryOp} (hx : ExprForm.Renders (.expr 6 x) ks) (ih : ReadsExprTokens ks (.expr 6 x)) :
    ReadsExprTokens (op.kind :: ks) (.expr q (.unary op x span)) := by
  intro depth es rest hdepth hes hrest
  obtain ⟨_, _, rfl, hks⟩ := writes_cons_iff.1 hes
  obtain ⟨k, ls, rfl, -⟩ | hargs := hx.beginsWith
  · obtain ⟨depth, rfl⟩ : ∃ d, depth = d + 1 := ⟨depth - 1, by simp only [List.length_cons] at hdepth; omega⟩
    exact .of_unary (parses_unaryExpr_unary ((ih depth _ _ (by simpa using hdepth) hks hrest).unary (by decide)))
  · cases hargs

/-- The loop that has found the left operand goes on with the operator, and finds the right one as the operand of an
    operator that binds more tightly. -/
theorem binary {op : BinaryOp} (hq : q ≤ op.precedence) (hl : ExprForm.Renders (.expr op.precedence l) ks)
    (ihl : ReadsExprTokens ks (.expr op.precedence l)) (ihr : ReadsExprTokens ls (.expr (op.precedence + 1) r)) :
    ReadsExprTokens (ks ++ op.kind :: ls) (.expr q (.binary op l r span)) := by
  intro depth es rest hdepth hes hrest
  obtain ⟨mid, hks, htail⟩ := writes_append_iff.1 hes
  obtain ⟨opSpan, es', rfl, hls⟩ := writes_cons_iff.1 htail
  simp only [List.length_append, List.length_cons] at hdepth
  refine ⟨fun htight => ?_, fun {p Q} hp hend hloop => ?_⟩
  · exact absurd (Nat.lt_of_lt_of_le htight hq) (Nat.not_lt.2 op.precedence_le)
  obtain ⟨k, ks', rfl, -⟩ | hargs := hl.beginsWith
  · rw [List.length_cons] at hdepth
    obtain ⟨depth, rfl⟩ : ∃ d, depth = d + 1 := ⟨depth - 1, by omega⟩
    have hright : Parses ((Grammar.ofDepth (depth + 1)).expr (op.precedence + 1)) es' (Finds r rest) := by
      refine (ihr depth es' rest (by omega) hls hrest).parses ?_
      obtain ⟨k, hk, hlower⟩ := hend
      exact ⟨k, hk, fun op' hop' => Nat.lt_of_lt_of_le (hlower op' hop') (Nat.succ_le_succ hq)⟩
    refine (ihl (depth + 1) es _ (by rw [List.length_cons]; omega) hks
      (endsOperand_operator op opSpan es')).binary (Nat.le_trans hp hq)
      (endsOperation_operator op opSpan es') fun l' hl' => ?_
    refine repeats_operatorTurn_next (Nat.le_trans hp hq) hls hright fun e' he' => hloop e' ?_
    rw [he', hl', Expr.unplaced]
  · cases hargs

theorem noArgs : ReadsExprTokens [] (.args []) := by
  intro depth es rest closeSpan _ hes found
  obtain rfl := writes_nil_iff.1 hes
  rw [List.append_nil]
  exact repeats_argumentTurn_close found closeSpan rest

theorem oneArg (hx : ExprForm.Renders (.expr 1 x) ks) (ih : ReadsExprTokens ks (.expr 1 x)) :
    ReadsExprTokens ks (.args [x]) := by
  intro depth es rest closeSpan hdepth hes found
  obtain ⟨k, hfirst, hk⟩ := exists_startsExpr hx hes
  have hfinds := parses_expr_of_readsExprForm hx depth ih hdepth hes (endsExpr_rParen closeSpan rest)
  exact repeats_argumentTurn_last hfirst hk hfinds found

theorem nextArg (hx : ExprForm.Renders (.expr 1 x) ks) (ihx : ReadsExprTokens ks (.expr 1 x))
    (ihxs : ReadsExprTokens ls (.args xs)) : ReadsExprTokens (ks ++ .symbol .comma :: ls) (.args (x :: xs)) := by
  intro depth es rest closeSpan hdepth hes found
  obtain ⟨_, hks, htail⟩ := writes_append_iff.1 hes
  obtain ⟨comma, mid, rfl, hls⟩ := writes_cons_iff.1 htail
  obtain ⟨k, hfirst, hk⟩ := exists_startsExpr hx hks
  have hlength := hks.length_eq
  simp only [List.length_append, List.length_cons] at hdepth hlength
  have hend : EndsExpr (.ok ⟨.symbol .comma, comma⟩ :: mid) := ⟨_, rfl, nofun, nofun, rfl⟩
  have hfinds := parses_expr_of_readsExprForm hx depth ihx (by omega) hks hend
  exact repeats_argumentTurn_next hfirst hk (by omega) hfinds (ihxs depth mid rest closeSpan (by omega) hls) found

end ReadsExprTokens

/-- The tokens of a form are read by a grammar that is as deep as they are many. -/
theorem readsExprTokens_of_renders {form : ExprForm} {ks : List Kind} (h : form.Renders ks) :
    ReadsExprTokens ks form := by
  induction h with
  | int hv => exact .int hv
  | rune => exact .rune
  | other hform => exact .other hform
  | name hname => exact .name hname
  | iota => exact .iota
  | parentheses he ih => exact .parentheses he ih
  | call _ _ ihcallee ihargs => exact .call ihcallee ihargs
  | primary he ih => exact .primary he ih
  | unary hx ih => exact .unary hx ih
  | binary hq hl _ ihl ihr => exact .binary hq hl ihl ihr
  | noArgs => exact .noArgs
  | oneArg hx ih => exact .oneArg hx ih
  | nextArg hx _ ihx ihxs => exact .nextArg hx ihx ihxs

/-! ## Expressions as they are rendered -/

/-- What is rendered with parentheses where they are needed is written. -/
theorem exprForm_of_renders {q : Nat} {ks : List Kind} (h : e.Renders IsReference q ks) :
    ExprForm.Renders (.expr q e) ks := by
  induction h with
  | int hn => exact .primary (.int (Literal.int?_repr hn))
  | name hname => exact .primary (.name hname)
  | iota => exact .primary .iota
  | other hform => exact .primary (.other hform)
  | unary _ ih => exact .unary ih
  | binary hq _ _ ihl ihr => exact .binary hq ihl ihr
  | parentheses _ _ ih => exact .primary (.parentheses ih)
  | @convert _ package name x span _ hname _ ih =>
    have hcallee : ExprForm.Renders (.primary (.name package name default)) (nameKinds package name) := .name hname
    have happlied : applied (.name package name default) (some [x]) span = .convert x span := rfl
    rw [← happlied]
    exact .primary (.call hcallee (.oneArg ih))

/-- The tokens of an expression are read by a grammar that is as deep as they are many. -/
theorem readsExpr_of_renders {q : Nat} {ks : List Kind} (h : e.Renders IsReference q ks) {depth : Nat}
    (hdepth : ks.length ≤ depth + 1) (hes : Writes ks es rest) (hrest : EndsOperand rest) :
    ReadsExpr (.ofDepth depth) q e es rest :=
  readsExprTokens_of_renders (exprForm_of_renders h) depth es rest hdepth hes hrest

/-! ## Reading back -/

/-- Whether an expression, in which some names may be written, can be written, and all tokens that it is written with
    are read back as the expression: a grammar that is deep enough for what is still to come takes these tokens and no
    others, in front of any token that does not continue an expression. -/
def ReadsBack (writable : Option String → String → Prop) (e : Expr) : Prop :=
  (∃ ks, e.Renders writable 1 ks) ∧
    ∀ (ts : List Token) (rest : List Event) (s : State) (depth : Nat), e.Renders writable 1 (ts.map (·.kind)) →
      EndsExpr rest → s.stream.events = ts.map .ok ++ rest → s.remaining < depth →
        ∃ e' t, (Grammar.ofDepth depth).expr 1 s = .ok e' t ∧ e'.unplaced = e.unplaced ∧ t.stream.events = rest

/-- Expressions are read back where no name in them begins with the reserved word. -/
theorem expr_readsBack {e : Expr} (he : e.IsWritable IsReference) : ReadsBack IsReference e := by
  refine ⟨Expr.exists_renders ⟨none, "T", by decide⟩ he 1, fun ts rest s depth hts hrest hs hdepth => ?_⟩
  have hes : Writes (ts.map (·.kind)) s.stream.events rest := ⟨ts, hs, rfl⟩
  have hlength := hes.length_eq
  have hremaining : s.remaining = s.stream.events.length := rfl
  obtain ⟨depth, rfl⟩ := Nat.exists_eq_succ_of_ne_zero (Nat.ne_zero_of_lt hdepth)
  have htokens : (ts.map (·.kind)).length ≤ depth + 1 := by omega
  have hreads := (readsExpr_of_renders hts htokens hes hrest.operand).parses (hrest.operation 1)
  obtain ⟨e', t, hres, hsame, hleft⟩ := hreads s rfl
  exact ⟨e', t, hres, hsame, hleft⟩

/-- A negated sum that is shifted by a converted number. -/
def shiftedSum : Expr :=
  .binary .shl (.unary .neg (.binary .add (.int 1 default) (.name (some "a") "b" default) default) default)
    (.convert (.int 2 default) default) default

def shiftedSumTokens : List Token :=
  [⟨.symbol .minus, ⟨0, 1⟩⟩, ⟨.symbol .lParen, ⟨1, 2⟩⟩, ⟨.literal .int "1", ⟨2, 3⟩⟩, ⟨.symbol .plus, ⟨4, 5⟩⟩,
   ⟨.identifier "a", ⟨6, 7⟩⟩, ⟨.symbol .dot, ⟨7, 8⟩⟩, ⟨.identifier "b", ⟨8, 9⟩⟩, ⟨.symbol .rParen, ⟨9, 10⟩⟩,
   ⟨.symbol .ltLt, ⟨11, 13⟩⟩, ⟨.identifier "T", ⟨14, 15⟩⟩, ⟨.symbol .lParen, ⟨15, 16⟩⟩, ⟨.literal .int "2", ⟨16, 17⟩⟩,
   ⟨.symbol .rParen, ⟨17, 18⟩⟩]

theorem expr_readsBack_shiftedSum : shiftedSum.IsWritable IsReference ∧
    ∃ e t, (Grammar.ofDepth 20).expr 1 (.ofSource "-(1 + a.b) << T(2);") = .ok e t ∧
      e.unplaced = shiftedSum ∧ t.stream.events = [.ok ⟨.symbol .semi, ⟨18, 19⟩⟩] := by
  have hwritable : shiftedSum.IsWritable IsReference := by
    simp [shiftedSum, Expr.IsWritable, IsReference]
  have hsum : Expr.Renders IsReference 6 (.binary .add (.int 1 default) (.name (some "a") "b" default) default) _ :=
    .parentheses (by decide) (.binary (by decide) (.int (n := 1) (by decide)) (.name (by decide)))
  have hrenders : shiftedSum.Renders IsReference 1 _ :=
    .binary (by decide) (.unary hsum) (.convert (by decide : IsReference none "T") (.int (n := 2) (by decide)))
  have hevents : (State.ofSource "-(1 + a.b) << T(2);").stream.events =
      shiftedSumTokens.map .ok ++ [.ok ⟨.symbol .semi, ⟨18, 19⟩⟩] := rfl
  have hdepth : (State.ofSource "-(1 + a.b) << T(2);").remaining < 20 := by
    rw [State.remaining, hevents]
    decide
  refine ⟨hwritable, ?_⟩
  exact (expr_readsBack hwritable).2 shiftedSumTokens _ _ _ hrenders ⟨_, rfl, nofun, nofun, rfl⟩ hevents hdepth

/-- A qualifier that is the reserved word is taken for the line of a constant, and the member behind it is left. -/
theorem not_readsBack_reservedQualifier :
    ¬ ∀ e : Expr, e.IsWritable (fun package name => package = none → name ≠ "iota") →
      ReadsBack (fun package name => package = none → name ≠ "iota") e := by
  intro h
  have hsource : State.ofSource "iota.X;" = ⟨⟨[.ok ⟨.identifier "iota", ⟨0, 4⟩⟩, .ok ⟨.symbol .dot, ⟨4, 5⟩⟩,
    .ok ⟨.identifier "X", ⟨5, 6⟩⟩, .ok ⟨.symbol .semi, ⟨6, 7⟩⟩], 7⟩, 0, []⟩ := rfl
  have hback := (h (.name (some "iota") "X" default) nofun).2
    [⟨.identifier "iota", ⟨0, 4⟩⟩, ⟨.symbol .dot, ⟨4, 5⟩⟩, ⟨.identifier "X", ⟨5, 6⟩⟩] [.ok ⟨.symbol .semi, ⟨6, 7⟩⟩] _ 5
    (.name nofun) ⟨_, rfl, nofun, nofun, rfl⟩ (congrArg (fun s => s.stream.events) hsource) (by rw [hsource]; decide)
  rw [hsource] at hback
  obtain ⟨e', t, hres, hsame, -⟩ := hback
  have hfound : e' = .iota ⟨0, 4⟩ := by
    cases hres
    rfl
  rw [hfound] at hsame
  cases hsame

end StructPadding.Parser
