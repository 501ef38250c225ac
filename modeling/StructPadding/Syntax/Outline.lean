-- SUMMARY: Outlines of tokens and source files, as the dumps show them.
import StructPadding.Text.Outline
import StructPadding.Text.Quoted
import StructPadding.Token.Stream
import StructPadding.Syntax.File

/-!
# Outlines of sources

Every node of a source file with its place, and every token with its text.
-/

namespace StructPadding

def textOutline (s : String) : Outline := .atom (quoted s)

def Span.outline (s : Span) : Outline :=
  .record "Span" [("start", .number s.start), ("end", .number s.stop)]

/-! ## Tokens -/

def Token.Kind.outline (k : Token.Kind) : Outline :=
  match k.payload? with
  | some text => .variant k.name [textOutline text]
  | none => .atom k.name

def Token.outline (t : Token) : Outline :=
  .record "Token" [("kind", t.kind.outline), ("span", t.span.outline)]

/-- The tokens of a source, one on each line. -/
def Token.dump (source : String) : Except Problem String := do
  let tokens ← Token.tokenize source
  return String.join (tokens.map fun t => t.outline.line ++ "\n")

/-! ## Source files -/

/-- A node of the given form at a place. -/
def nodeOutline (name : String) (form : Outline) (span : Span) : Outline :=
  .record name [("kind", form), ("span", span.outline)]

/-- A name that may be qualified by a package. -/
def qualified (package : Option String) (name : String) : List (String × Outline) :=
  [("package", .option (package.map textOutline)), ("name", textOutline name)]

def Expr.outline : Expr → Outline
  | .int v s => node (.variant "Int" [.number v]) s
  | .name p n s => node (.record "Name" (qualified p n)) s
  | .iota s => node (.atom "Iota") s
  | .unary op x s => node (.record "Unary" [("op", .atom op.name), ("operand", x.outline)]) s
  | .binary op l r s =>
    node (.record "Binary" [("op", .atom op.name), ("lhs", l.outline), ("rhs", r.outline)]) s
  | .convert x s => node (.variant "Convert" [x.outline]) s
  | .other s => node (.atom "Other") s
where
  node (form : Outline) (span : Span) : Outline := nodeOutline "ConstExpr" form span

mutual

def TypeExpr.outline : TypeExpr → Outline
  | .named p n args s => node (.record "Named" (qualified p n ++ [("args", .list (typeOutlines args))])) s
  | .pointer e s => node (.variant "Pointer" [e.outline]) s
  | .slice e s => node (.variant "Slice" [e.outline]) s
  | .array n e s => node (.record "Array" [("len", n.outline), ("element", e.outline)]) s
  | .map k v s => node (.record "Map" [("key", k.outline), ("value", v.outline)]) s
  | .chan d e s => node (.record "Chan" [("dir", .atom d.name), ("element", e.outline)]) s
  | .func s => node (.atom "Func") s
  | .interface s => node (.atom "Interface") s
  | .struct st => node (.variant "Struct" [st.outline]) st.span
where
  node (form : Outline) (span : Span) : Outline := nodeOutline "GoType" form span

def typeOutlines : List TypeExpr → List Outline
  | [] => []
  | t :: rest => t.outline :: typeOutlines rest

def StructType.outline : StructType → Outline
  | ⟨fields, keyword, span⟩ =>
    .record "StructType"
      [("fields", .list (fieldOutlines fields)), ("keyword", keyword.outline), ("span", span.outline)]

def fieldOutlines : List FieldDecl → List Outline
  | [] => []
  | f :: rest => f.outline :: fieldOutlines rest

def FieldDecl.outline : FieldDecl → Outline
  | ⟨names, type, tag, span⟩ =>
    .record "FieldDecl"
      [("names", .list (names.map textOutline)), ("ty", type.outline), ("embedded", .bool names.isEmpty),
       ("tag", .option (tag.map textOutline)), ("span", span.outline)]

end

def Import.outline (i : Import) : Outline :=
  .record "ImportSpec"
    [("alias", .option (i.alias?.map textOutline)), ("path", textOutline i.path), ("span", i.span.outline)]

def TypeDecl.outline (d : TypeDecl) : Outline :=
  .record "TypeSpec"
    [("name", textOutline d.name), ("params", .list (d.params.map textOutline)), ("alias", .bool d.isAlias),
     ("ty", d.type.outline), ("span", d.span.outline)]

def ConstDecl.outline (d : ConstDecl) : Outline :=
  .record "ConstSpec"
    [("names", .list (d.names.map fun (n, s) => .tuple [textOutline n, s.outline])),
     ("values", .list (d.values.map Expr.outline)), ("iota", .number d.iota), ("span", d.span.outline)]

def LocalStruct.outline (l : LocalStruct) : Outline :=
  .record "LocalStruct" [("name", .option (l.name.map textOutline)), ("ty", l.type.outline)]

def SourceFile.outline (f : SourceFile) : Outline :=
  .record "SourceFile"
    [("package", textOutline f.package), ("imports", .list (f.imports.map Import.outline)),
     ("types", .list (f.types.map TypeDecl.outline)), ("consts", .list (f.consts.map ConstDecl.outline)),
     ("local_structs", .list (f.locals.map LocalStruct.outline)), ("span", f.span.outline)]

/-- The outline of a source file, one item on each line. -/
def SourceFile.dump (f : SourceFile) : String := f.outline.page

end StructPadding
