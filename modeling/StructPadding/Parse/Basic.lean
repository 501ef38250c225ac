-- SUMMARY: Parsers over token streams: reading, expecting, repeating, and the grammar they recur through.
import StructPadding.Token.Stream
import StructPadding.Syntax.File

/-!
# Parsers

A parser reads tokens from a stream, and remembers the end of the last one it took and the struct literals
it has met outside of type declarations. It keeps its state when it fails.

Loops and recursion are bounded by the number of events left. Each turn of a loop and each level of
recursion takes at least one token, so the bounds are never what ends them; a parser that did reach one
would report an unexpected end of the file.
-/

namespace StructPadding

structure Parser.State where
  stream : Token.Stream
  /-- The end of the last token taken. -/
  lastStop : Nat
  /-- The struct literals met outside of type declarations. -/
  locals : List LocalStruct

abbrev Parser := EStateM Problem Parser.State

namespace Parser

open Token (Kind Stream)

def State.ofSource (source : String) : State := ⟨.ofSource source, 0, []⟩

/-- Events still to come. -/
def State.remaining (s : State) : Nat := s.stream.events.length

/-! ## Reading -/

/-- Read from the stream alone. -/
def read {α : Type} (r : Stream.Reader α) : Parser α := fun s =>
  match r s.stream with
  | .ok a stream => .ok a { s with stream }
  | .error e stream => .error e { s with stream }

def fail {α : Type} (cause : Cause) (span : Span) : Parser α := throw ⟨cause, span⟩

def peek : Parser Token := read Stream.peek

def peekKind : Parser Kind := return (← peek).kind

def peekKindAt (n : Nat) : Parser Kind := return (← read (Stream.peekAt n)).kind

def check (k : Kind) : Parser Bool := read (Stream.check k)

/-- Take the next token. -/
def advance : Parser Token := do
  let t ← read Stream.next
  unless t.kind = .eof do
    modify fun s => { s with lastStop := t.span.stop }
  return t

/-- Take the next token if it is like the given kind. -/
def accept (k : Kind) : Parser Bool := do
  if ← check k then
    let _ ← advance
    return true
  return false

/-- Fail unless the next token is like the given kind. -/
def require (k : Kind) : Parser Unit := do
  unless ← check k do
    let found ← peek
    fail (.expected (.kind k) found.kind) found.span

/-- Take the next token, which has to be like the given kind. -/
def expect (k : Kind) : Parser Token := do
  require k
  advance

/-- Take a token, which has to be an identifier. -/
def name : Parser (String × Span) := do
  let t ← advance
  match t.kind with
  | .identifier n => return (n, t.span)
  | other => fail (.expected .identifier other) t.span

def identifier : Parser String := return (← name).1

/-- The span from the start of `first` to the end of the last token taken. -/
def spanFrom (first : Span) : Parser Span := return ⟨first.start, max (← get).lastStop first.stop⟩

/-- The end of a declaration: a semicolon, or the end of the file. -/
def declarationEnd : Parser Unit := do
  unless ← accept (.symbol .semi) do
    unless ← check .eof do
      require (.symbol .semi)

/-- Keep a struct literal met outside of type declarations. -/
def keep (l : LocalStruct) : Parser Unit :=
  modify fun s => { s with locals := s.locals ++ [l] }

/-- Keep the outermost struct literals of a type that is not kept itself. -/
def keepStructs (t : TypeExpr) : Parser Unit :=
  t.outerStructs.forM fun st => keep ⟨none, st⟩

/-! ## Repeating -/

/-- The failure where a bound is reached. -/
def exhausted {α : Type} : Parser α := fun s => .error ⟨.unexpectedEnd, .point s.stream.length⟩ s

/-- Take up to `n` turns. -/
def turns {β : Type} (turn : β → Parser (ForInStep β)) : Nat → β → Parser β
  | 0, _ => exhausted
  | n + 1, b => do
    match ← turn b with
    | .yield b => turns turn n b
    | .done b => return b

/-- Repeat a turn, each of which takes a token or is the last. -/
def repeating {β : Type} (init : β) (turn : β → Parser (ForInStep β)) : Parser β := fun s =>
  turns turn (s.remaining + 1) init s

/-- The entries of a bracketed list up to its closing token, separated by semicolons. Each entry is parsed
    knowing the ones before it. -/
def entries {α : Type} (close : Kind) (entry : List α → Parser α) : Parser (List α) :=
  repeating [] turn
where
  turn (done : List α) : Parser (ForInStep (List α)) := do
    if ← check close then return .done done
    if ← accept (.symbol .semi) then return .yield done
    let e ← entry done
    unless ← check close do
      let _ ← expect (.symbol .semi)
    return .yield (done ++ [e])

/-- One entry, or several in parentheses. -/
def group {α : Type} (entry : List α → Parser α) : Parser (List α) := do
  if ← accept (.symbol .lParen) then
    let es ← entries (.symbol .rParen) entry
    let _ ← expect (.symbol .rParen)
    return es
  return [← entry []]

/-- What follows, as many times as commas do. -/
def commaSeparated {α : Type} (item : Parser α) : Parser (List α) := do
  let first ← item
  repeating [first] turn
where
  turn (items : List α) : Parser (ForInStep (List α)) := do
    if ← accept (.symbol .comma) then return .yield (items ++ [← item])
    return .done items

/-! ## Grammar -/

/-- The parsers that recur through one another. -/
structure Grammar where
  type : Parser TypeExpr
  /-- An expression of operators that bind at least as tightly as the given precedence. -/
  expr : Nat → Parser Expr
  /-- An operand with its unary operators. -/
  unary : Parser Expr

/-- The grammar in which nothing can be parsed. -/
def Grammar.empty : Grammar := ⟨exhausted, fun _ => exhausted, exhausted⟩

end Parser

end StructPadding
