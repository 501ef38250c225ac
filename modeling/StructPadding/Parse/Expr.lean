-- SUMMARY: Parsing constant expressions by precedence.
import StructPadding.Parse.Literal
import StructPadding.Parse.Skip

/-!
# Constant expressions

Binary operators are parsed by precedence and associate to the left. A call of a name with one argument is
taken for a conversion; every other call is opaque.
-/

namespace StructPadding.Parser

open Token (Kind)

variable (g : Grammar)

/-- The arguments of a call, or nothing where one of them is no constant expression. -/
def callArgs : Parser (Option (List Expr)) := do
  let _ ← expect (.symbol .lParen)
  let args ← repeating (some []) turn
  let _ ← expect (.symbol .rParen)
  return args
where
  turn (args : Option (List Expr)) : Parser (ForInStep (Option (List Expr))) := do
    if ← check (.symbol .rParen) then return .done args
    let args ←
      if (← peekKind).startsExpr then
        let e ← g.expr 1
        pure (args.map (· ++ [e]))
      else pure args
    let args ←
      if ← atEnd then pure args
      else do
        skipUntil g (fun k => k.isLike (.symbol .comma) || k.isLike (.symbol .rParen))
        pure none
    if ← accept (.symbol .comma) then return .yield args
    return .done args
  /-- Whether an argument ends here. -/
  atEnd : Parser Bool := do
    if ← check (.symbol .comma) then return true
    check (.symbol .rParen)

/-- The value of a call, as far as it is known. -/
def applied (callee : Expr) (args : Option (List Expr)) (span : Span) : Expr :=
  match args with
  | some [x] => if callee.isName then .convert x span else .other span
  | _ => .other span

/-- An operand without the calls behind it. -/
def operand : Parser Expr := do
  let t ← advance
  match t.kind with
  | .literal .int text =>
    match Literal.int? text with
    | some v => return .int v t.span
    | none => fail (.invalidInteger text) t.span
  | .literal .rune text =>
    match Literal.rune? (unquote text).toList with
    | some v => return .int v t.span
    | none => return .other t.span
  | .literal .. => return .other t.span
  | .identifier "iota" => return .iota t.span
  | .identifier n =>
    if ← accept (.symbol .dot) then
      let member ← identifier
      return .name (some n) member (← spanFrom t.span)
    return .name none n t.span
  | .symbol .lParen =>
    let inner ← g.expr 1
    let close ← expect (.symbol .rParen)
    return inner.withSpan (t.span.merge close.span)
  | other => fail (.expected .constant other) t.span

/-- An operand with the calls behind it. -/
def primaryExpr : Parser Expr := do
  let start := (← peek).span
  let e ← operand g
  repeating e (turn start)
where
  turn (start : Span) (e : Expr) : Parser (ForInStep Expr) := do
    unless ← check (.symbol .lParen) do return .done e
    let args ← callArgs g
    return .yield (applied e args (← spanFrom start))

def unaryExpr : Parser Expr := do
  match UnaryOp.ofKind? (← peekKind) with
  | none => primaryExpr g
  | some op =>
    let start := (← advance).span
    let x ← g.unary
    return .unary op x (start.merge x.span)

/-- An expression of operators that bind at least as tightly as `precedence`. -/
def binaryExpr (precedence : Nat) : Parser Expr := do
  let first ← unaryExpr g
  repeating first turn
where
  turn (lhs : Expr) : Parser (ForInStep Expr) := do
    match BinaryOp.ofKind? (← peekKind) with
    | none => return .done lhs
    | some op =>
      if op.precedence < precedence then return .done lhs
      let _ ← advance
      let rhs ← g.expr (op.precedence + 1)
      return .yield (.binary op lhs rhs (lhs.span.merge rhs.span))

end StructPadding.Parser
