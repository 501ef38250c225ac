-- SUMMARY: What can be wrong with a source text: causes with their stage and message, and where they arise.
import StructPadding.Source.Span
import StructPadding.Token.Kind

/-!
# Problems

A problem is a cause at a span. The cause decides in which stage the problem is found and how it is worded.
-/

namespace StructPadding

/-- The part of the analysis that finds a problem. -/
inductive Stage
  | lexer | parser | semantic | type
  deriving DecidableEq, Repr

def Stage.name : Stage → String
  | .lexer => "Lexer" | .parser => "Parser" | .semantic => "Semantic" | .type => "Type"

/-- What the parser was looking for. -/
inductive Expected
  | kind (k : Token.Kind)
  | identifier
  | declaration
  | importPath
  | type
  | field
  | constant
  | group
  deriving DecidableEq, Repr

def Expected.describe : Expected → String
  | .kind k => k.describe
  | .identifier => "identifier"
  | .declaration => "declaration"
  | .importPath => "import path"
  | .type => "type"
  | .field => "field name or embedded type"
  | .constant => "constant expression"
  | .group => "'(', '[' or '\x7b'"

inductive Cause
  -- Lexer
  | unexpectedText (text : String)
  -- Parser
  | expected (what : Expected) (found : Token.Kind)
  | unexpected (found : Token.Kind)
  | unexpectedEnd
  | inferredLength
  | missingValue
  | invalidInteger (text : String)
  -- Semantic
  | redeclared (name : String)
  | undefined (name : String)
  | typeAsExpression (name : String)
  | missingInitializer (name : String)
  | iotaOutsideConst
  -- Type
  | initializationCycle (name : String)
  | divisionByZero
  | constantOverflow
  | notInteger
  | invalidLength (value : Int)
  | notGeneric (name : String)
  | notInstantiated (name : String)
  | wrongArgumentCount (name : String) (given wanted : Nat)
  | recursiveType (name : String)
  | typeTooLarge (type : String)
  | structTooLarge
  deriving DecidableEq, Repr

namespace Cause

def stage : Cause → Stage
  | .unexpectedText _ => .lexer
  | .expected .. | .unexpected _ | .unexpectedEnd | .inferredLength | .missingValue | .invalidInteger _ => .parser
  | .redeclared _ | .undefined _ | .typeAsExpression _ | .missingInitializer _ | .iotaOutsideConst => .semantic
  | .initializationCycle _ | .divisionByZero | .constantOverflow | .notInteger | .invalidLength _ | .notGeneric _
  | .notInstantiated _ | .wrongArgumentCount .. | .recursiveType _ | .typeTooLarge _ | .structTooLarge => .type

def message : Cause → String
  | .unexpectedText text => s!"unexpected character '{text}'"
  | .expected what found => s!"expected {what.describe}, found {found.describe}"
  | .unexpected found => s!"unexpected {found.describe}"
  | .unexpectedEnd => "unexpected end of file"
  | .inferredLength => "array length [...] is only allowed in composite literals"
  | .missingValue => "missing constant value"
  | .invalidInteger text => s!"invalid integer literal '{text}'"
  | .redeclared name => s!"{name} redeclared in this package"
  | .undefined name => s!"undefined: {name}"
  | .typeAsExpression name => s!"{name} (type) is not an expression"
  | .missingInitializer name => s!"missing init expr for {name}"
  | .iotaOutsideConst => "cannot use iota outside constant declaration"
  | .initializationCycle name => s!"initialization cycle: {name} refers to itself"
  | .divisionByZero => "division by zero"
  | .constantOverflow => "constant overflow"
  | .notInteger => "not an integer constant"
  | .invalidLength value => s!"invalid array length {value}"
  | .notGeneric name => s!"{name} is not a generic type"
  | .notInstantiated name => s!"cannot use generic type {name} without instantiation"
  | .wrongArgumentCount name n m => s!"wrong number of type arguments for {name}: have {n}, want {m}"
  | .recursiveType name => s!"invalid recursive type {name}"
  | .typeTooLarge type => s!"type {type} larger than address space"
  | .structTooLarge => "struct type larger than address space"

end Cause

/-- Something wrong at a place of a source text. -/
structure Problem where
  cause : Cause
  span : Span
  deriving DecidableEq, Repr

namespace Problem

def stage (p : Problem) : Stage := p.cause.stage

def message (p : Problem) : String := p.cause.message

/-- The problem on one line, with its place. -/
def text (p : Problem) : String := s!"{p.stage.name} error at {p.span.text}: {p.message}"

end Problem

/-- Why a type or a constant has no value. -/
inductive Unresolved
  /-- It depends on a name from outside of the package that nothing is known of. -/
  | unknown (name : String) (span : Span)
  /-- The source itself is wrong. -/
  | invalid (p : Problem)
  deriving DecidableEq, Repr

/-- A kind of failures. Each is made of the file that it arises in and of the reason for it. -/
class Failing (ε : Type) where
  failure (file : Nat) (reason : Unresolved) : ε

/-- A reason alone, which does not tell the file. This is meant where nothing else is said. -/
@[default_instance]
instance : Failing Unresolved := ⟨fun _ reason => reason⟩

end StructPadding
