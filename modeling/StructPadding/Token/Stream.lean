-- SUMMARY: The tokens of a source with semicolons inserted, and reading them with lookahead.
import StructPadding.Problem
import StructPadding.Token.Lexeme

/-!
# Token streams

The lexemes of a source become a list of events: tokens, and problems where a lexeme is none. A line break
behind a token that ends a statement becomes a semicolon, and so does the end of the source. A stream is
read from the front; behind its last event the end of the file can be read again and again.

Looking ahead never removes a token. A problem is removed when it is met, by whichever operation looks
that far, so it is reported once.
-/

namespace StructPadding

/-- A token and where it stands. -/
structure Token where
  kind : Token.Kind
  span : Span
  deriving DecidableEq, Repr

namespace Token

/-- What reading a source meets. -/
abbrev Event := Except Problem Token

namespace Event

/-- The events of a list of lexemes; `ends` says whether the token before them ends a statement, and
    `length` is the length of the source. -/
def ofLexemes (length : Nat) (ends : Bool) : List Lexeme → List Event
  | [] => if ends then [.ok ⟨.symbol .semi, .point length⟩] else []
  | l :: rest =>
    match l.category.kind? l.text with
    | some kind => .ok ⟨kind, l.span⟩ :: ofLexemes length kind.endsStatement rest
    | none =>
      match l.category with
      | .unclosed | .stray => .error ⟨.unexpectedText l.text, l.span⟩ :: ofLexemes length ends rest
      | _ =>
        if ends && l.breaksLine then .ok ⟨.symbol .semi, l.span⟩ :: ofLexemes length false rest
        else ofLexemes length ends rest

end Event

/-- A source being read: the events still to come, and the length of the source. -/
structure Stream where
  events : List Event
  length : Nat

namespace Stream

def ofSource (source : String) : Stream where
  events := Event.ofLexemes source.utf8ByteSize false (Lexeme.scan source)
  length := source.utf8ByteSize

/-- The token behind the last event. -/
def eof (s : Stream) : Token := ⟨.eof, .point s.length⟩

/-- Reading a stream, which goes on behind a problem. -/
abbrev Reader := EStateM Problem Stream

/-- Take the next token. -/
def next : Reader Token := fun s =>
  match s.events with
  | [] => .ok s.eof s
  | .ok t :: rest => .ok t { s with events := rest }
  | .error e :: rest => .error e { s with events := rest }

/-- The first problem within the next `n` events, with the events that are left without it. -/
def firstProblem : Nat → List Event → Option (Problem × List Event)
  | _, [] => none
  | 0, _ => none
  | _ + 1, .error e :: rest => some (e, rest)
  | n + 1, .ok t :: rest => (firstProblem n rest).map fun (e, es) => (e, .ok t :: es)

/-- The token `n` places behind the next one, which stays in the stream. -/
def peekAt (n : Nat) : Reader Token := fun s =>
  match firstProblem (n + 1) s.events with
  | some (e, rest) => .error e { s with events := rest }
  | none =>
    match s.events[n]? with
    | some (.ok t) => .ok t s
    | _ => .ok s.eof s

def peek : Reader Token := peekAt 0

/-- Whether the next token is like the given kind. -/
def check (k : Kind) : Reader Bool := return (← peek).kind.isLike k

/-- Whether the token behind the next one is like the given kind. -/
def checkSecond (k : Kind) : Reader Bool := return (← peekAt 1).kind.isLike k

/-- Take the next token if it is like the given kind. -/
def accept (k : Kind) : Reader Bool := do
  if ← check k then
    let _ ← next
    return true
  return false

/-- Take the next token, which has to be like the given kind. -/
def expect (k : Kind) : Reader Token := do
  let t ← next
  if t.kind.isLike k then return t
  throw ⟨.expected (.kind k) t.kind, t.span⟩

/-- All tokens up to the end of the file, or the first problem. -/
def tokens (s : Stream) : Except Problem (List Token) := do
  let ts ← s.events.mapM id
  return ts ++ [s.eof]

end Stream

/-- All tokens of a source, or the first lexical problem. -/
def tokenize (source : String) : Except Problem (List Token) := (Stream.ofSource source).tokens

end Token

end StructPadding
