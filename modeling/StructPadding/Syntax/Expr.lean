-- SUMMARY: Constant expressions as written in a source.
import StructPadding.Source.Span
import StructPadding.Token.Kind

/-!
# Constant expressions

Array lengths and the values of constants. What is no whole number (strings, floats, most calls) is kept as
an opaque leaf.
-/

namespace StructPadding

inductive UnaryOp
  | neg | plus | complement | not
  deriving DecidableEq, Repr

namespace UnaryOp

def name : UnaryOp → String
  | .neg => "Neg" | .plus => "Plus" | .complement => "Complement" | .not => "Not"

def ofKind? : Token.Kind → Option UnaryOp
  | .symbol .minus => some .neg
  | .symbol .plus => some .plus
  | .symbol .caret => some .complement
  | .symbol .bang => some .not
  | _ => none

end UnaryOp

inductive BinaryOp
  | add | sub | mul | div | rem | shl | shr | and | or | xor | andNot
  /-- Comparisons and logical connectives, which give no number. -/
  | logical
  deriving DecidableEq, Repr

namespace BinaryOp

def name : BinaryOp → String
  | .add => "Add" | .sub => "Sub" | .mul => "Mul" | .div => "Div" | .rem => "Rem" | .shl => "Shl" | .shr => "Shr"
  | .and => "And" | .or => "Or" | .xor => "Xor" | .andNot => "AndNot" | .logical => "Logical"

/-- How tightly the operator binds; a higher number binds tighter. -/
def precedence : BinaryOp → Nat
  | .mul | .div | .rem | .shl | .shr | .and | .andNot => 5
  | .add | .sub | .or | .xor => 4
  | .logical => 1

def ofKind? : Token.Kind → Option BinaryOp
  | .symbol .plus => some .add
  | .symbol .minus => some .sub
  | .symbol .star => some .mul
  | .symbol .slash => some .div
  | .symbol .percent => some .rem
  | .symbol .ltLt => some .shl
  | .symbol .gtGt => some .shr
  | .symbol .amp => some .and
  | .symbol .pipe => some .or
  | .symbol .caret => some .xor
  | .symbol .ampCaret => some .andNot
  | .symbol .eqEq | .symbol .notEq | .symbol .lt | .symbol .ltEq | .symbol .gt | .symbol .gtEq | .symbol .ampAmp
  | .symbol .pipePipe => some .logical
  | _ => none

end BinaryOp

inductive Expr
  | int (value : Int) (span : Span)
  /-- Another constant, possibly of another package. -/
  | name (package : Option String) (name : String) (span : Span)
  | iota (span : Span)
  | unary (op : UnaryOp) (x : Expr) (span : Span)
  | binary (op : BinaryOp) (lhs rhs : Expr) (span : Span)
  /-- A conversion, which keeps the value of its operand. -/
  | convert (x : Expr) (span : Span)
  /-- Anything that is no whole number. -/
  | other (span : Span)
  deriving DecidableEq, Repr, Inhabited

namespace Expr

def span : Expr → Span
  | .int _ s | .name _ _ s | .iota s | .unary _ _ s | .binary _ _ _ s | .convert _ s | .other s => s

/-- The same expression at another place, as when parentheses are put around it. -/
def withSpan (e : Expr) (s : Span) : Expr :=
  match e with
  | .int v _ => .int v s
  | .name p n _ => .name p n s
  | .iota _ => .iota s
  | .unary op x _ => .unary op x s
  | .binary op l r _ => .binary op l r s
  | .convert x _ => .convert x s
  | .other _ => .other s

/-- Whether the expression is a name, and so may be the type of a conversion. -/
def isName : Expr → Bool
  | .name .. => true
  | _ => false

@[simp] theorem span_withSpan (e : Expr) (s : Span) : (e.withSpan s).span = s := by cases e <;> rfl

end Expr

end StructPadding
