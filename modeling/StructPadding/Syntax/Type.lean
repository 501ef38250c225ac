-- SUMMARY: Types as written in a source.
import StructPadding.Syntax.Expr

/-!
# Type expressions

The types of a source, with their places. The parameters of a function type and the methods of an interface
play no part in layout and are not kept.
-/

namespace StructPadding

inductive Direction
  | both | send | receive
  deriving DecidableEq, Repr

def Direction.name : Direction → String
  | .both => "Both" | .send => "Send" | .receive => "Recv"

mutual

inductive TypeExpr
  /-- A name, possibly of another package, possibly with type arguments. -/
  | named (package : Option String) (name : String) (args : List TypeExpr) (span : Span)
  | pointer (element : TypeExpr) (span : Span)
  | slice (element : TypeExpr) (span : Span)
  | array (length : Expr) (element : TypeExpr) (span : Span)
  | map (key value : TypeExpr) (span : Span)
  | chan (direction : Direction) (element : TypeExpr) (span : Span)
  | func (span : Span)
  | interface (span : Span)
  | struct (literal : StructType)

/-- A struct type literal. -/
structure StructType where
  fields : List FieldDecl
  /-- Where the word `struct` stands, which is where findings are reported. -/
  keyword : Span
  span : Span

/-- One line of a struct body: names with their type, or an embedded type without a name of its own. -/
structure FieldDecl where
  names : List String
  type : TypeExpr
  tag : Option String
  span : Span

end

instance : Inhabited TypeExpr := ⟨.func default⟩

namespace TypeExpr

def span : TypeExpr → Span
  | .named _ _ _ s | .pointer _ s | .slice _ s | .array _ _ s | .map _ _ s | .chan _ _ s | .func s
  | .interface s => s
  | .struct st => st.span

end TypeExpr

namespace FieldDecl

/-- Whether the field is an embedded type. -/
def isEmbedded (f : FieldDecl) : Bool := f.names.isEmpty

/-- The field names in order; an embedded field is named after its type. -/
def fieldNames (f : FieldDecl) : List String :=
  if f.isEmbedded then
    match f.type with
    | .named _ name _ _ | .pointer (.named _ name _ _) _ => [name]
    | _ => ["_"]
  else f.names

end FieldDecl

/-! ## Struct literals inside a type -/

mutual

/-- The outermost struct literals of a type, in order. -/
def TypeExpr.outerStructs : TypeExpr → List StructType
  | .struct st => [st]
  | .named _ _ args _ => outerStructsOfAll args
  | .pointer e _ | .slice e _ | .array _ e _ | .chan _ e _ => e.outerStructs
  | .map k v _ => k.outerStructs ++ v.outerStructs
  | .func _ | .interface _ => []

def outerStructsOfAll : List TypeExpr → List StructType
  | [] => []
  | t :: rest => t.outerStructs ++ outerStructsOfAll rest

end

mutual

/-- All struct literals of a type, each before the ones inside it. -/
def TypeExpr.structs : TypeExpr → List StructType
  | .struct st => st :: st.inner
  | .named _ _ args _ => structsOfAll args
  | .pointer e _ | .slice e _ | .array _ e _ | .chan _ e _ => e.structs
  | .map k v _ => k.structs ++ v.structs
  | .func _ | .interface _ => []

def structsOfAll : List TypeExpr → List StructType
  | [] => []
  | t :: rest => t.structs ++ structsOfAll rest

/-- The struct literals inside a struct literal. -/
def StructType.inner : StructType → List StructType
  | ⟨fields, _, _⟩ => structsOfFields fields

def structsOfFields : List FieldDecl → List StructType
  | [] => []
  | f :: rest => f.structs ++ structsOfFields rest

def FieldDecl.structs : FieldDecl → List StructType
  | ⟨_, type, _, _⟩ => type.structs

end

end StructPadding
