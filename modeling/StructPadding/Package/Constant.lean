-- SUMMARY: The values of constant expressions in the scope of a package.
import StructPadding.Wide
import StructPadding.Package.Scope
import StructPadding.Package.Library

/-!
# Constants

A constant expression has an exact value within the wide range, or a reason why it has none. The names in
it are looked up in the package, and evaluated with the line number of their own declaration. `valueWith`
follows the expression; `valueOfName` follows names, and stops at one that is already being evaluated. Both are given
for failures of any kind: a failure arises in the file that is being looked at.
-/

namespace StructPadding

namespace Constant

/-- The result of evaluating an expression. -/
abbrev Result := Except Unresolved Int

def invalid {α : Type} (cause : Cause) (span : Span) : Except Unresolved α := .error (.invalid ⟨cause, span⟩)

/-- A value in range, or an overflow at a place. -/
def inRange (span : Span) (v : Option Int) : Result :=
  match v with
  | some v => .ok v
  | none => invalid .constantOverflow span

/-! ## Operators -/

/-- The bits of a value as a two's complement word. -/
def bits (v : Int) : BitVec 128 := BitVec.ofInt 128 v

/-- A left shift by less than the width of a value without its sign. -/
def shiftLeft? (v count : Int) : Option Int :=
  if 0 ≤ count ∧ count < 127 then Wide.fits? (v <<< count.toNat) else none

/-- A right shift, which rounds down; the count has to fit thirty-two bits. -/
def shiftRight? (v count : Int) : Option Int :=
  if 0 ≤ count ∧ count < 0x100000000 then some (v >>> min count.toNat 127) else none

/-- The value of a unary operation at a place. -/
def unary (op : UnaryOp) (v : Int) (span : Span) : Result :=
  match op with
  | .plus => .ok v
  | .neg => inRange span (Wide.fits? (-v))
  | .complement => .ok (-v - 1)
  | .not => invalid .notInteger span

/-- The value of a binary operation at a place. Division truncates toward zero, and the remainder exists
    where the quotient does. -/
def binary (op : BinaryOp) (a b : Int) (span : Span) : Result :=
  match op with
  | .add => inRange span (Wide.fits? (a + b))
  | .sub => inRange span (Wide.fits? (a - b))
  | .mul => inRange span (Wide.fits? (a * b))
  | .div => if b = 0 then invalid .divisionByZero span else inRange span (Wide.fits? (a.tdiv b))
  | .rem =>
    if b = 0 then invalid .divisionByZero span
    else inRange span ((Wide.fits? (a.tdiv b)).map fun _ => a.tmod b)
  | .shl => inRange span (shiftLeft? a b)
  | .shr => inRange span (shiftRight? a b)
  | .and => .ok (bits a &&& bits b).toInt
  | .or => .ok (bits a ||| bits b).toInt
  | .xor => .ok (bits a ^^^ bits b).toInt
  | .andNot => .ok (bits a &&& ~~~bits b).toInt
  | .logical => invalid .notInteger span

/-! ## Expressions -/

/-- The value of a constant of another package, as seen from a file. -/
def qualified (scope : Scope) (file : Nat) (package name : String) (span : Span) : Result :=
  match scope.importPath? file package with
  | none => invalid (.undefined package) span
  | some path =>
    match Library.const? path name with
    | some v => .ok v
    | none => .error (.unknown s!"{package}.{name}" span)

section

variable {ε : Type} [Failing ε]

/-- A result whose failure arises in a file. -/
def inFile {α : Type} (file : Nat) (r : Except Unresolved α) : Except ε α := r.mapError (Failing.failure file)

/-- The value of an expression in a file, given the values of the names of the package. -/
def valueWith (scope : Scope) (names : String → Span → Except ε Int) (file : Nat) (iota : Option Nat) :
    Expr → Except ε Int
  | .int v _ => .ok v
  | .iota span =>
    match iota with
    | some i => .ok i
    | none => inFile file (invalid .iotaOutsideConst span)
  | .name none name span => names name span
  | .name (some package) name span => inFile file (qualified scope file package name span)
  | .convert x _ => valueWith scope names file iota x
  | .unary op x span => do inFile file (unary op (← valueWith scope names file iota x) span)
  | .binary .logical _ _ span => inFile file (invalid .notInteger span)
  | .binary op l r span => do
    let a ← valueWith scope names file iota l
    let b ← valueWith scope names file iota r
    inFile file (binary op a b span)
  | .other span => inFile file (invalid .notInteger span)

/-- The value of a name of the package as it is used in a file, while the names in `evaluating` are being evaluated.
    Every level adds a name, so that `depth` need not be larger than the number of constants. A missing value is
    missed where the name is declared. -/
def valueOfName (scope : Scope) (depth : Nat) (evaluating : List String) (file : Nat) (name : String) (span : Span) :
    Except ε Int :=
  match scope.const? name with
  | none =>
    inFile file (invalid (if (scope.type? name).isSome then .typeAsExpression name else .undefined name) span)
  | some symbol =>
    match symbol.value with
    | none => inFile symbol.file (invalid (.missingInitializer name) symbol.span)
    | some value =>
      if name ∈ evaluating then inFile file (invalid (.initializationCycle name) span)
      else
        match depth with
        | 0 => inFile file (invalid (.initializationCycle name) span)
        | depth + 1 =>
          valueWith scope (valueOfName scope depth (name :: evaluating) symbol.file) symbol.file (some symbol.iota)
            value

/-- The value of an expression as written in a file of the package; within a constant declaration `iota` is
    the number of its line. -/
def value (scope : Scope) (e : Expr) (file : Nat) (iota : Option Nat) : Except ε Int :=
  valueWith scope (valueOfName scope scope.consts.length [] file) file iota e

end

@[simp] theorem inFile_plain {α : Type} (file : Nat) (r : Except Unresolved α) : inFile file r = r := by
  cases r <;> rfl

end Constant

/-- The value of an expression, or the reason why it has none. -/
def Scope.value (scope : Scope) (e : Expr) (file : Nat) (iota : Option Nat) : Constant.Result :=
  Constant.value scope e file iota

end StructPadding
