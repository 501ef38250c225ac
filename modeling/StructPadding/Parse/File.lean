-- SUMMARY: Parsing the declarations of a source file.
import StructPadding.Parse.Type

/-!
# Declarations

A file is a package clause followed by declarations. Imports, types and constants are kept; functions and
variables are skipped.
-/

namespace StructPadding.Parser

open Token (Kind)

variable (g : Grammar)

/-! ## Imports -/

/-- The name in front of an import path, if there is one. -/
def importAlias : Parser (Option String) := do
  match ← peekKind with
  | .identifier n =>
    let _ ← advance
    return some n
  | .symbol .dot =>
    let _ ← advance
    return some "."
  | _ => return none

def importSpec : Parser Import := do
  let start := (← peek).span
  let alias? ← importAlias
  let t ← advance
  match t.kind with
  | .literal .string text => return ⟨alias?, unquote text, ← spanFrom start⟩
  | other => fail (.expected .importPath other) t.span

/-! ## Types -/

/-- Whether a token behind the first name in brackets shows that the name is a type parameter. -/
def followsParam : Kind → Bool
  | .identifier _ | .symbol .comma | .keyword .interface | .symbol .tilde | .keyword .func | .keyword .map
  | .keyword .chan | .symbol .lBracket | .keyword .struct => true
  | _ => false

/-- Whether the bracket behind the name of a declared type opens a list of type parameters, rather than the
    length of an array. -/
def atTypeParams : Parser Bool := do
  unless ← check (.symbol .lBracket) do return false
  unless (← peekKindAt 1).isLike (.identifier "") do return false
  return followsParam (← peekKindAt 2)

/-- The names of type parameters; their constraints are skipped. -/
def typeParams : Parser (List String) := do
  let _ ← expect (.symbol .lBracket)
  let names ← repeating [] turn
  let _ ← expect (.symbol .rBracket)
  return names
where
  turn (names : List String) : Parser (ForInStep (List String)) := do
    if ← check (.symbol .rBracket) then return .done names
    let names := names ++ [← identifier]
    if ← accept (.symbol .comma) then return .yield names
    skipUntil g (fun k => k.isLike (.symbol .comma) || k.isLike (.symbol .rBracket))
    if ← accept (.symbol .comma) then return .yield names
    return .done names

def typeDecl : Parser TypeDecl := do
  let start := (← peek).span
  let n ← identifier
  let params ← if ← atTypeParams then typeParams g else pure []
  let isAlias ← accept (.symbol .eq)
  let type ← typeExpr g
  return ⟨n, params, isAlias, type, ← spanFrom start⟩

/-! ## Constants -/

/-- Whether a token behind the names of a constant shows that no type follows. -/
def endsConstNames : Kind → Bool
  | .symbol .eq | .symbol .semi | .symbol .rParen | .eof => true
  | _ => false

/-- One line of constants behind the lines `before` it in its group. A line without values repeats those of
    the line before, unless it names a type or there are none. -/
def constDecl (before : List ConstDecl) : Parser ConstDecl := do
  let start := (← peek).span
  let names ← commaSeparated name
  let typed := !endsConstNames (← peekKind)
  if typed then keepStructs (← typeExpr g)
  let previous := (before.getLast?.map (·.values)).getD []
  let values ←
    if ← accept (.symbol .eq) then commaSeparated (binaryExpr g 1)
    else if typed || previous.isEmpty then fail .missingValue (← spanFrom start)
    else pure previous
  return ⟨names, values, before.length, ← spanFrom start⟩

/-! ## Files -/

/-- A declaration after its keyword: one entry or a group of them. -/
def declaration {α : Type} (keyword : Token.Keyword) (entry : List α → Parser α) : Parser (List α) := do
  let _ ← expect (.keyword keyword)
  let es ← group entry
  declarationEnd
  return es

/-- The struct literals met so far, which are then forgotten. -/
def takeLocals : Parser (List LocalStruct) :=
  modifyGet fun s => (s.locals, { s with locals := [] })

/-- All declarations up to the end of the file, behind those in `file`. -/
def declarations (file : SourceFile) : Parser SourceFile :=
  repeating file turn
where
  turn (file : SourceFile) : Parser (ForInStep SourceFile) := do
    let t ← peek
    match t.kind with
    | .eof => return .done file
    | .symbol .semi =>
      let _ ← advance
      return .yield file
    | .keyword .import_ =>
      let more ← declaration .import_ fun _ => importSpec
      return .yield { file with imports := file.imports ++ more }
    | .keyword .type =>
      let more ← declaration .type fun _ => typeDecl g
      return .yield { file with types := file.types ++ more }
    | .keyword .const =>
      let more ← declaration .const (constDecl g)
      return .yield { file with consts := file.consts ++ more }
    | .keyword .func | .keyword .var =>
      skipDeclaration g
      return .yield file
    | other => fail (.expected .declaration other) t.span

/-- The file that begins with a package clause, before its declarations. -/
def packageClause : Parser SourceFile := do
  let start := (← peek).span.start
  let _ ← expect (.keyword .package)
  let package ← identifier
  declarationEnd
  return ⟨package, [], [], [], [], ⟨start, start⟩⟩

/-- A file with all its declarations. -/
def wholeFile : Parser SourceFile := do
  let clause ← packageClause
  let file ← declarations g clause
  let locals ← takeLocals
  return { file with locals, span := ⟨clause.span.start, (← get).lastStop⟩ }

/-- A complete source file. -/
def sourceFile : Parser SourceFile := withGrammar wholeFile

end StructPadding.Parser

namespace StructPadding

/-- Parse a source text. -/
def SourceFile.parse (source : String) : Except Problem SourceFile :=
  match Parser.sourceFile (.ofSource source) with
  | .ok file _ => .ok file
  | .error e _ => .error e

variable {source : String}

theorem SourceFile.parse_eq_ok_iff {file : SourceFile} :
    parse source = .ok file ↔ ∃ t, Parser.sourceFile (.ofSource source) = .ok file t := by
  unfold parse
  cases Parser.sourceFile (.ofSource source) <;> simp

theorem SourceFile.parse_eq_error_iff {e : Problem} :
    parse source = .error e ↔ ∃ t, Parser.sourceFile (.ofSource source) = .error e t := by
  unfold parse
  cases Parser.sourceFile (.ofSource source) <;> simp

end StructPadding
