-- SUMMARY: Resolving the types of a package to shapes.
import StructPadding.Layout.Checked
import StructPadding.Package.Constant
import StructPadding.Package.Site

/-!
# Resolution

A type is resolved in an environment, which says where it is written and what its type parameters stand
for. Type arguments are resolved where they were written, and only when they are needed. The recursion has
three layers: `shapeWith` follows the type, `shapeIn` leaves an environment for the one around it, and
`declared` enters the declaration of a named type. A named type that is met again while it is being
resolved contains itself.

Declared types without parameters are resolved once; a resolver keeps their shapes. As with constants, failures are of
any kind: one arises in the file of the environment, or of the declaration, that is being looked at.
-/

namespace StructPadding

/-- Where a type is written. -/
inductive Env
  /-- In a struct literal, whose type parameters stand for themselves. -/
  | site (file : Nat) (params : List String) (isLocal : Bool)
  /-- In the declaration of a type whose parameters stand for arguments written in another environment. -/
  | instantiated (file : Nat) (params : List String) (args : List TypeExpr) (caller : Env)

namespace Env

def file : Env → Nat
  | .site file .. | .instantiated file .. => file

/-- Whether names that are declared nowhere may belong to the function around the type. -/
def isLocal : Env → Bool
  | .site _ _ l => l
  | .instantiated .. => false

/-- The argument that a parameter stands for; of two parameters of one name the later one counts. -/
def argument? (params : List String) (args : List TypeExpr) (name : String) : Option TypeExpr :=
  (params.zip args).reverse.lookup name

end Env

/-- What a resolver remembers. -/
structure Resolver where
  /-- The shapes of the declared types without parameters, in the order in which they were resolved. -/
  known : List (String × Shape)
  /-- The named types being resolved, the innermost first. -/
  resolving : List String

namespace Resolver

def fresh : Resolver := ⟨[], []⟩

/-- Resolution changes the resolver, also when it fails. -/
abbrev ResolveOr (ε : Type) := EStateM ε Resolver

/-- Resolution that fails with the reason alone. -/
abbrev Resolve := ResolveOr Unresolved

def invalid {α : Type} (cause : Cause) (span : Span) : Resolve α := throw (.invalid ⟨cause, span⟩)

/-- A name that is declared nowhere. -/
def undefined {α : Type} (name : String) (isLocal : Bool) (span : Span) : Resolve α :=
  if isLocal then throw (.unknown name span) else invalid (.undefined name) span

/-- A type of another package. -/
def qualified (scope : Scope) (m : Machine) (env : Env) (package name : String) (args : List TypeExpr) (span : Span) :
    Resolve Shape :=
  match scope.importPath? env.file package with
  | none => undefined package env.isLocal span
  | some path =>
    match (if args.isEmpty then Library.type? m path name else none) with
    | some shape => pure shape
    | none => throw (.unknown s!"{package}.{name}" span)

/-- Check the number of type arguments given to a declared type. -/
def checkArguments (d : TypeDecl) (args : List TypeExpr) (span : Span) : Resolve Unit := do
  if d.params.isEmpty && !args.isEmpty then invalid (.notGeneric d.name) span
  if !d.params.isEmpty && args.isEmpty then invalid (.notInstantiated d.name) span
  if args.length ≠ d.params.length then
    invalid (.wrongArgumentCount d.name args.length d.params.length) span

section

variable {ε : Type}

/-- Resolve while a named type is in progress. -/
def within {α : Type} (name : String) (r : ResolveOr ε α) : ResolveOr ε α := fun s =>
  match r { s with resolving := name :: s.resolving } with
  | .ok a t => .ok a { t with resolving := t.resolving.tail }
  | .error e t => .error e { t with resolving := t.resolving.tail }

def remember (name : String) (shape : Shape) : ResolveOr ε Unit :=
  modify fun s => { s with known := s.known ++ [(name, shape)] }

/-- Resolution whose failure arises in a file. -/
def inFile {α : Type} [Failing ε] (file : Nat) (r : Resolve α) : ResolveOr ε α := r.adaptExcept (Failing.failure file)

end

@[simp] theorem inFile_plain {α : Type} (file : Nat) (r : Resolve α) : inFile file r = r := by
  funext s
  simp only [inFile, EStateM.adaptExcept]
  cases r s <;> rfl

section

variable {ε δ : Type} (f : ε → δ)

@[simp] theorem adaptExcept_within {α : Type} (name : String) (r : ResolveOr ε α) :
    (within name r).adaptExcept f = within name (r.adaptExcept f) := by
  funext s
  simp only [within, EStateM.adaptExcept]
  cases r { s with resolving := name :: s.resolving } <;> rfl

@[simp] theorem adaptExcept_remember (name : String) (shape : Shape) :
    (remember name shape : ResolveOr ε Unit).adaptExcept f = remember name shape := rfl

end

section

variable {ε : Type} [Failing ε] (scope : Scope) (m : Machine)

/-! ## Following a type -/

/-- The length of an array. -/
def arrayLength (file : Nat) (length : Expr) : ResolveOr ε Nat :=
  match Constant.value scope length file none with
  | .error e => throw e
  | .ok v => inFile file (if 0 ≤ v ∧ v ≤ Word.limit then pure v.toNat else invalid (.invalidLength v) length.span)

/-- How the plain names of an environment are resolved, with their arguments. -/
abbrev NamesOr (ε : Type) := String → List TypeExpr → Span → ResolveOr ε Shape

abbrev Names := NamesOr Unresolved

mutual

/-- The shape of a type, given the shapes of the names in it. -/
def shapeWith (env : Env) (names : NamesOr ε) : TypeExpr → ResolveOr ε Shape
  | .named none name args span => names name args span
  | .named (some package) name args span => inFile env.file (qualified scope m env package name args span)
  | .pointer .. => pure Scalar.pointer
  | .slice .. => pure Scalar.slice
  | .map .. => pure Scalar.map
  | .chan .. => pure Scalar.chan
  | .func _ => pure Scalar.func
  | .interface _ => pure Scalar.interface
  | .array length element span => do
    let n ← arrayLength scope env.file length
    let e ← shapeWith env names element
    let shape := Shape.array e n
    if (shape.checkedSize m).isNone then inFile env.file (invalid (.typeTooLarge shape.describe) span)
    return shape
  | .struct st => return .struct (← structWith env names st)

/-- The fields of a struct literal, which has to fit the address space. -/
def structWith (env : Env) (names : NamesOr ε) : StructType → ResolveOr ε (List Field)
  | ⟨decls, keyword, _⟩ => do
    let fields ← fieldsWith env names decls
    if (checkedActualSize m fields).isNone then inFile env.file (invalid .structTooLarge keyword)
    return fields

def fieldsWith (env : Env) (names : NamesOr ε) : List FieldDecl → ResolveOr ε (List Field)
  | [] => return []
  | d :: rest => do
    let shape ← typeOfField env names d
    let fields ← fieldsWith env names rest
    return d.fieldNames.map (⟨·, shape⟩) ++ fields

def typeOfField (env : Env) (names : NamesOr ε) : FieldDecl → ResolveOr ε Shape
  | ⟨_, type, _, _⟩ => shapeWith env names type

end

/-! ## Names and environments -/

/-- How the name of a declared type is resolved, with its arguments and their environment. -/
abbrev DeclaredOr (ε : Type) := TypeSymbol → List TypeExpr → Env → Span → ResolveOr ε Shape

abbrev Declared := DeclaredOr Unresolved

/-- A name that is no type parameter: declared in the package, or known beforehand. What is declared nowhere is missed
    where the name is used. -/
def global (declared : DeclaredOr ε) (env : Env) : NamesOr ε := fun name args span =>
  match scope.type? name with
  | some symbol => declared symbol args env span
  | none =>
    inFile env.file <|
      match Library.predeclared? m name with
      | none => undefined name env.isLocal span
      | some shape => if args.isEmpty then pure shape else invalid (.notGeneric name) span

/-- The meaning of plain names in an environment. A parameter that stands for itself has the shape of an
    interface; any other one has that of its argument, where the argument was written. -/
def namesIn (declared : DeclaredOr ε) : Env → NamesOr ε
  | .site file params isLocal => fun name args span =>
    if name ∈ params then pure Scalar.interface
    else global scope m declared (.site file params isLocal) name args span
  | .instantiated file params types caller => fun name args span =>
    match Env.argument? params types name with
    | some type => shapeWith scope m caller (namesIn declared caller) type
    | none => global scope m declared (.instantiated file params types caller) name args span

/-- The shape of a type in an environment. -/
def shapeIn (declared : DeclaredOr ε) (env : Env) (t : TypeExpr) : ResolveOr ε Shape :=
  shapeWith scope m env (namesIn scope m declared env) t

/-- The shape of a declared type. What is wrong with the use of its name is wrong in the file of the use. Every level
    enters the declaration of another type, so that `depth` need not be larger than the number of declared types. -/
def declared (depth : Nat) : DeclaredOr ε := fun symbol args env span => do
  let d := symbol.decl
  inFile env.file (checkArguments d args span)
  if let some shape := (← get).known.lookup d.name then return shape
  if d.name ∈ (← get).resolving then inFile env.file (invalid (.recursiveType d.name) span)
  match depth with
  | 0 => inFile env.file (invalid (.recursiveType d.name) span)
  | depth + 1 =>
    let inner := Env.instantiated symbol.file d.params args env
    let shape ← within d.name (shapeIn scope m (declared depth) inner d.type)
    if d.params.isEmpty then remember d.name shape
    return shape

/-! ## Struct literals -/

/-- The fields of a struct literal in an environment. -/
def structIn (env : Env) (st : StructType) : ResolveOr ε (List Field) :=
  structWith scope m env (namesIn scope m (declared scope m scope.types.length) env) st

/-- The fields of a struct literal written in a file, with its declared name, the type parameters around it,
    and whether it stands in a function. -/
def structOr (s : Site) : ResolveOr ε (List Field) :=
  let fields := structIn scope m (.site s.file s.params s.isLocal) s.type
  match s.name with
  | some name => within name fields
  | none => fields

end

/-- Without files of failures, a type of another package is resolved as it is. -/
theorem shapeWith_qualified {scope : Scope} {m : Machine} {env : Env} {names : Names} {package name : String}
    {args : List TypeExpr} {span : Span} :
    shapeWith scope m env names (.named (some package) name args span) =
      qualified scope m env package name args span := inFile_plain ..

/-- The fields of a struct literal, or the reason why it has none. -/
def struct (scope : Scope) (m : Machine) (s : Site) : Resolve (List Field) := structOr scope m s

end Resolver

end StructPadding
