-- SUMMARY: Parsing types, and the grammar that ties types and expressions together.
import StructPadding.Parse.Expr

/-!
# Types

The first token of a type tells its form. `Grammar.ofDepth` closes the recursion between types and
expressions.
-/

namespace StructPadding.Parser

open Token (Kind)

variable (g : Grammar)

/-- The parameters and results of a function type, of which only the struct literals are kept. -/
def skipSignature : Parser Unit := do
  require (.symbol .lParen)
  skipGroup g
  if ← check (.symbol .lParen) then skipGroup g
  else if (← peekKind).startsType then keepStructs (← g.type)

/-- The rest of a type that begins with a bracket: a slice, or an array with its length. -/
def bracketType (start : Span) : Parser TypeExpr := do
  if ← accept (.symbol .rBracket) then
    let e ← g.type
    return .slice e (← spanFrom start)
  if ← check (.symbol .ellipsis) then fail .inferredLength start
  let length ← g.expr 1
  let _ ← expect (.symbol .rBracket)
  let e ← g.type
  return .array length e (← spanFrom start)

def typeExpr : Parser TypeExpr := do
  let t ← peek
  let start := t.span
  match t.kind with
  | .identifier _ => typeName g
  | .symbol .star =>
    let _ ← advance
    let e ← g.type
    return .pointer e (← spanFrom start)
  | .symbol .lBracket =>
    let _ ← advance
    bracketType g start
  | .keyword .map =>
    let _ ← advance
    let _ ← expect (.symbol .lBracket)
    let key ← g.type
    let _ ← expect (.symbol .rBracket)
    let value ← g.type
    return .map key value (← spanFrom start)
  | .keyword .chan =>
    let _ ← advance
    let direction ← if ← accept (.symbol .arrow) then pure Direction.send else pure Direction.both
    let e ← g.type
    return .chan direction e (← spanFrom start)
  | .symbol .arrow =>
    let _ ← advance
    let _ ← expect (.keyword .chan)
    let e ← g.type
    return .chan .receive e (← spanFrom start)
  | .keyword .func =>
    let _ ← advance
    skipSignature g
    return .func (← spanFrom start)
  | .keyword .interface =>
    let _ ← advance
    require (.symbol .lBrace)
    skipGroup g
    return .interface (← spanFrom start)
  | .keyword .struct => return .struct (← structType g)
  | .symbol .lParen =>
    let _ ← advance
    let inner ← g.type
    let _ ← expect (.symbol .rParen)
    return inner
  | other => fail (.expected .type other) start

/-- The grammar down to a depth of nesting. -/
def Grammar.ofDepth : Nat → Grammar
  | 0 => .empty
  | n + 1 =>
    ⟨fun s => typeExpr (ofDepth n) s, fun p s => binaryExpr (ofDepth n) p s, fun s => unaryExpr (ofDepth n) s⟩

/-- Run a parser with a grammar deep enough for all events left. -/
def withGrammar {α : Type} (p : Grammar → Parser α) : Parser α := fun s =>
  p (Grammar.ofDepth (s.remaining + 1)) s

end StructPadding.Parser
