-- SUMMARY: Struct literals, and skipping over code that is not kept but for the struct literals in it.
import StructPadding.Parse.Basic
import StructPadding.Text.Quoted

/-!
# Structs and skipped code

Function bodies, signatures, variables and type constraints are skipped by matching brackets. Inside
brackets a struct literal is parsed and kept.
-/

namespace StructPadding.Parser

open Token (Kind)

variable (g : Grammar)

/-! ## Struct literals -/

/-- The types in brackets behind a name, if there are any. -/
def typeArgs : Parser (List TypeExpr) := do
  unless ← accept (.symbol .lBracket) do return []
  let args ← repeating [] turn
  let _ ← expect (.symbol .rBracket)
  return args
where
  turn (args : List TypeExpr) : Parser (ForInStep (List TypeExpr)) := do
    if ← check (.symbol .rBracket) then return .done args
    let t ← g.type
    if ← accept (.symbol .comma) then return .yield (args ++ [t])
    return .done (args ++ [t])

/-- A type name, possibly qualified, possibly with type arguments. -/
def typeName : Parser TypeExpr := do
  let (first, start) ← name
  if ← accept (.symbol .dot) then
    let member ← identifier
    let args ← typeArgs g
    return .named (some first) member args (← spanFrom start)
  let args ← typeArgs g
  return .named none first args (← spanFrom start)

/-- Whether a token behind the first name of a field shows that the name is an embedded type. -/
def endsEmbedded : Kind → Bool
  | .symbol .dot | .symbol .semi | .symbol .rBrace | .literal .string _ => true
  | _ => false

/-- The names and the type of a field; without names where the type is embedded. -/
def fieldBody : Parser (List String × TypeExpr) := do
  let start ← peek
  match start.kind with
  | .symbol .star => return ([], ← g.type)
  | .identifier _ =>
    if endsEmbedded (← peekKindAt 1) then return ([], ← typeName g)
    let names ← commaSeparated identifier
    return (names, ← g.type)
  | other => fail (.expected .field other) start.span

/-- One line of a struct body. -/
def field : Parser FieldDecl := do
  let start := (← peek).span
  let (names, type) ← fieldBody g
  match ← peekKind with
  | .literal .string text =>
    let _ ← advance
    return ⟨names, type, some (unquote text), ← spanFrom start⟩
  | _ => return ⟨names, type, none, ← spanFrom start⟩

def structType : Parser StructType := do
  let keyword := (← expect (.keyword .struct)).span
  let _ ← expect (.symbol .lBrace)
  let fields ← entries (.symbol .rBrace) fun _ => field g
  let close ← expect (.symbol .rBrace)
  return ⟨fields, keyword, keyword.merge close.span⟩

/-! ## Skipping -/

/-- Whether a struct literal begins here, alone or as the type of a declaration. -/
def atLocalStruct : Parser Bool := do
  match ← peekKind with
  | .keyword .struct => return (← peekKindAt 1).isLike (.symbol .lBrace)
  | .keyword .type =>
    unless (← peekKindAt 1).isLike (.identifier "") do return false
    unless (← peekKindAt 2).isLike (.keyword .struct) do return false
    return (← peekKindAt 3).isLike (.symbol .lBrace)
  | _ => return false

/-- A struct literal in skipped code, which is kept. -/
def localStruct : Parser Unit := do
  if ← accept (.keyword .type) then
    let n ← identifier
    keep ⟨some n, ← structType g⟩
  else
    keep ⟨none, ← structType g⟩

/-- Skip a bracketed group, which begins at the next token. -/
def skipGroup : Parser Unit := do
  let opening ← advance
  unless opening.kind.isOpen do
    fail (.expected .group opening.kind) opening.span
  let _ ← repeating 1 turn
where
  turn (depth : Nat) : Parser (ForInStep Nat) := do
    if ← atLocalStruct then
      localStruct g
      return .yield depth
    let t ← advance
    if t.kind.isOpen then return .yield (depth + 1)
    if t.kind.isClose then
      if depth = 1 then return .done 0
      return .yield (depth - 1)
    if t.kind = .eof then fail .unexpectedEnd t.span
    return .yield depth

/-- Skip up to a token outside of brackets at which `stop` holds. -/
def skipUntil (stop : Kind → Bool) : Parser Unit :=
  repeating () turn
where
  turn (_ : Unit) : Parser (ForInStep Unit) := do
    let t ← peek
    if stop t.kind then return .done ()
    if t.kind.isOpen then skipGroup g
    else if t.kind.isClose || t.kind = .eof then fail (.unexpected t.kind) t.span
    else let _ ← advance
    return .yield ()

/-- Skip a declaration of functions or variables with the semicolon behind it. -/
def skipDeclaration : Parser Unit :=
  repeating () turn
where
  turn (_ : Unit) : Parser (ForInStep Unit) := do
    if ← atLocalStruct then
      localStruct g
      return .yield ()
    let t ← peek
    if t.kind.isLike (.symbol .semi) then
      let _ ← advance
      return .done ()
    if t.kind = .eof then return .done ()
    if t.kind.isOpen then skipGroup g
    else if t.kind.isClose then fail (.unexpected t.kind) t.span
    else let _ ← advance
    return .yield ()

end StructPadding.Parser
