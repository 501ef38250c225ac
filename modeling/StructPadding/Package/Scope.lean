-- SUMMARY: The names declared by the files of a package.
import StructPadding.Problem
import StructPadding.Syntax.File

/-!
# Scope

All files of a package share one scope of types and constants, in which a name is declared once; the first
declaration wins, and later ones are problems. Imports belong to their file.
-/

namespace StructPadding

/-- A declared type and the file that declares it. -/
structure TypeSymbol where
  file : Nat
  decl : TypeDecl

/-- A declared constant and the file that declares it. -/
structure ConstSymbol where
  file : Nat
  /-- Missing where the declaration has fewer values than names. -/
  value : Option Expr
  iota : Nat
  span : Span

/-- The names of a constant declaration with what they declare. -/
def ConstDecl.symbols (d : ConstDecl) (file : Nat) : List (String × ConstSymbol) :=
  d.names.zipIdx.map fun ((name, span), i) => (name, ⟨file, d.values[i]?, d.iota, span⟩)

/-- Types and constants of a package, and the imports of each file with their paths. -/
structure Scope where
  types : List (String × TypeSymbol)
  consts : List (String × ConstSymbol)
  imports : List (List (String × String))

namespace Scope

def empty : Scope := ⟨[], [], []⟩

def type? (s : Scope) (name : String) : Option TypeSymbol := s.types.lookup name

def const? (s : Scope) (name : String) : Option ConstSymbol := s.consts.lookup name

/-- The path of the package that a file imports under a name. -/
def importPath? (s : Scope) (file : Nat) (name : String) : Option String :=
  s.imports[file]?.bind (·.lookup name)

def isDeclared (s : Scope) (name : String) : Bool := (s.type? name).isSome || (s.const? name).isSome

/-- Declare a type, unless its name is taken. -/
def defineType (s : Scope) (symbol : TypeSymbol) : Except Cause Scope :=
  let name := symbol.decl.name
  if s.isDeclared name then .error (.redeclared name)
  else .ok { s with types := (name, symbol) :: s.types }

/-- Declare a constant, unless its name is taken. -/
def defineConst (s : Scope) (name : String) (symbol : ConstSymbol) : Except Cause Scope :=
  if s.isDeclared name then .error (.redeclared name)
  else .ok { s with consts := (name, symbol) :: s.consts }

/-! ## The scope of a list of files -/

/-- The names that a file's imports are referred to by, the last one first. -/
def importsOf (f : SourceFile) : List (String × String) :=
  (f.imports.filterMap fun i =>
    let name := i.localName
    if name = "_" ∨ name = "." then none else some (name, i.path)).reverse

/-- A scope under construction, with the problems met so far and their files. -/
structure Building where
  scope : Scope
  problems : List (Nat × Problem)

namespace Building

/-- Take over the outcome of a declaration that stands at `span` in `file`. -/
def declare (b : Building) (file : Nat) (name : String) (span : Span) (define : Scope → Except Cause Scope) :
    Building :=
  if name = "_" then b
  else
    match define b.scope with
    | .ok scope => { b with scope }
    | .error cause => { b with problems := b.problems ++ [(file, ⟨cause, span⟩)] }

def addType (file : Nat) (b : Building) (d : TypeDecl) : Building :=
  b.declare file d.name d.span (·.defineType ⟨file, d⟩)

def addConst (file : Nat) (b : Building) (entry : String × ConstSymbol) : Building :=
  b.declare file entry.1 entry.2.span (·.defineConst entry.1 entry.2)

/-- Add the declarations of a file: its imports, then its types, then its constants. -/
def addFile (b : Building) (entry : SourceFile × Nat) : Building :=
  let (f, file) := entry
  let b := { b with scope := { b.scope with imports := b.scope.imports ++ [importsOf f] } }
  let b := f.types.foldl (addType file) b
  (f.consts.flatMap (·.symbols file)).foldl (addConst file) b

end Building

/-- The scope of the files of a package, with the redeclarations in it. -/
def build (files : List SourceFile) : Building := files.zipIdx.foldl Building.addFile ⟨empty, []⟩

end Scope

end StructPadding
