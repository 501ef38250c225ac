-- SUMMARY: The declarations of one source file.
import StructPadding.Syntax.Type

/-!
# Source files

Of a file the package clause, the imports and the declarations of types and constants are kept, and of all
other code the struct literals in it.
-/

namespace StructPadding

/-- One imported package. -/
structure Import where
  alias? : Option String
  path : String
  span : Span

namespace Import

/-- Whether a path element is a major version such as `v2`. -/
def isVersion (element : List Char) : Bool :=
  match element with
  | 'v' :: digits => !digits.isEmpty && digits.all Char.isDigit
  | _ => false

/-- The elements of an import path, last one first. -/
def elements (path : String) : List (List Char) := (path.toList.splitOn '/').reverse

/-- The name by which the file refers to the package. Without an alias that is the last element of the path,
    or the one before a major version. -/
def localName (i : Import) : String :=
  match i.alias? with
  | some name => name
  | none =>
    match elements i.path with
    | [] => i.path
    | last :: rest => String.ofList (if isVersion last then rest.head?.getD last else last)

end Import

/-- One declared type. -/
structure TypeDecl where
  name : String
  params : List String
  isAlias : Bool
  type : TypeExpr
  span : Span

/-- One line of a constant declaration. A line that leaves out its values repeats those of the line before,
    and that is already done here. -/
structure ConstDecl where
  names : List (String × Span)
  values : List Expr
  /-- The number of the line within its group. -/
  iota : Nat
  span : Span

/-- A struct literal outside of type declarations: in function bodies, signatures and variable types. -/
structure LocalStruct where
  /-- The name, for a type declared inside a function. -/
  name : Option String
  type : StructType

structure SourceFile where
  package : String
  imports : List Import
  types : List TypeDecl
  consts : List ConstDecl
  locals : List LocalStruct
  span : Span

end StructPadding
