-- SUMMARY: Token kinds: keywords, symbols, literals, their spellings and how messages name them.

/-!
# Token kinds

A token is a keyword or a symbol with a fixed spelling, an identifier or a literal that keeps its text, or a
mark of the line structure.
-/

namespace StructPadding.Token

/-! ## Keywords -/

inductive Keyword
  | break_ | case | chan | const | continue_ | default | defer | else_ | fallthrough | for_ | func | go | goto
  | if_ | import_ | interface | map | package | range | return_ | select | struct | switch | type | var
  deriving DecidableEq, Repr

namespace Keyword

def spelling : Keyword → String
  | .break_ => "break" | .case => "case" | .chan => "chan" | .const => "const" | .continue_ => "continue"
  | .default => "default" | .defer => "defer" | .else_ => "else" | .fallthrough => "fallthrough"
  | .for_ => "for" | .func => "func" | .go => "go" | .goto => "goto" | .if_ => "if" | .import_ => "import"
  | .interface => "interface" | .map => "map" | .package => "package" | .range => "range"
  | .return_ => "return" | .select => "select" | .struct => "struct" | .switch => "switch" | .type => "type"
  | .var => "var"

def all : List Keyword :=
  [.break_, .case, .chan, .const, .continue_, .default, .defer, .else_, .fallthrough, .for_, .func, .go, .goto,
   .if_, .import_, .interface, .map, .package, .range, .return_, .select, .struct, .switch, .type, .var]

/-- The name of the kind: the spelling with a capital first letter. -/
def name (k : Keyword) : String := k.spelling.capitalize

/-- Whether messages show the spelling; the other keywords appear by name. -/
def isQuoted : Keyword → Bool
  | .break_ | .case | .chan | .const | .func | .import_ | .interface | .map | .package | .struct | .type
  | .var => true
  | _ => false

end Keyword

/-! ## Symbols -/

inductive Symbol
  | plus | minus | star | slash | percent | amp | pipe | caret | ltLt | gtGt | ampCaret
  | plusEq | minusEq | starEq | slashEq | percentEq | ampEq | pipeEq | caretEq | ltLtEq | gtGtEq | ampCaretEq
  | ampAmp | pipePipe | arrow | plusPlus | minusMinus | eqEq | lt | gt | eq | bang | tilde | notEq | ltEq | gtEq
  | colonEq | ellipsis
  | lParen | rParen | lBracket | rBracket | lBrace | rBrace | comma | dot | semi | colon
  deriving DecidableEq, Repr

namespace Symbol

def spelling : Symbol → String
  | .plus => "+" | .minus => "-" | .star => "*" | .slash => "/" | .percent => "%" | .amp => "&" | .pipe => "|"
  | .caret => "^" | .ltLt => "<<" | .gtGt => ">>" | .ampCaret => "&^"
  | .plusEq => "+=" | .minusEq => "-=" | .starEq => "*=" | .slashEq => "/=" | .percentEq => "%="
  | .ampEq => "&=" | .pipeEq => "|=" | .caretEq => "^=" | .ltLtEq => "<<=" | .gtGtEq => ">>="
  | .ampCaretEq => "&^="
  | .ampAmp => "&&" | .pipePipe => "||" | .arrow => "<-" | .plusPlus => "++" | .minusMinus => "--"
  | .eqEq => "==" | .lt => "<" | .gt => ">" | .eq => "=" | .bang => "!" | .tilde => "~" | .notEq => "!="
  | .ltEq => "<=" | .gtEq => ">=" | .colonEq => ":=" | .ellipsis => "..."
  | .lParen => "(" | .rParen => ")" | .lBracket => "[" | .rBracket => "]" | .lBrace => "\x7b"
  | .rBrace => "\x7d" | .comma => "," | .dot => "." | .semi => ";" | .colon => ":"

def all : List Symbol :=
  [.plus, .minus, .star, .slash, .percent, .amp, .pipe, .caret, .ltLt, .gtGt, .ampCaret, .plusEq, .minusEq, .starEq,
   .slashEq, .percentEq, .ampEq, .pipeEq, .caretEq, .ltLtEq, .gtGtEq, .ampCaretEq, .ampAmp, .pipePipe, .arrow,
   .plusPlus, .minusMinus, .eqEq, .lt, .gt, .eq, .bang, .tilde, .notEq, .ltEq, .gtEq, .colonEq, .ellipsis, .lParen,
   .rParen, .lBracket, .rBracket, .lBrace, .rBrace, .comma, .dot, .semi, .colon]

def name : Symbol → String
  | .plus => "Plus" | .minus => "Minus" | .star => "Star" | .slash => "Slash" | .percent => "Percent"
  | .amp => "Amp" | .pipe => "Pipe" | .caret => "Caret" | .ltLt => "LtLt" | .gtGt => "GtGt"
  | .ampCaret => "AmpCaret"
  | .plusEq => "PlusEq" | .minusEq => "MinusEq" | .starEq => "StarEq" | .slashEq => "SlashEq"
  | .percentEq => "PercentEq" | .ampEq => "AmpEq" | .pipeEq => "PipeEq" | .caretEq => "CaretEq"
  | .ltLtEq => "LtLtEq" | .gtGtEq => "GtGtEq" | .ampCaretEq => "AmpCaretEq"
  | .ampAmp => "AmpAmp" | .pipePipe => "PipePipe" | .arrow => "Arrow" | .plusPlus => "PlusPlus"
  | .minusMinus => "MinusMinus" | .eqEq => "EqEq" | .lt => "Lt" | .gt => "Gt" | .eq => "Eq" | .bang => "Bang"
  | .tilde => "Tilde" | .notEq => "NotEq" | .ltEq => "LtEq" | .gtEq => "GtEq" | .colonEq => "ColonEq"
  | .ellipsis => "Ellipsis"
  | .lParen => "LParen" | .rParen => "RParen" | .lBracket => "LBracket" | .rBracket => "RBracket"
  | .lBrace => "LBrace" | .rBrace => "RBrace" | .comma => "Comma" | .dot => "Dot" | .semi => "Semi"
  | .colon => "Colon"

/-- Whether messages show the spelling; the other symbols appear by name. -/
def isQuoted : Symbol → Bool
  | .plus | .minus | .star | .slash | .percent | .amp | .pipe | .caret | .ltLt | .gtGt | .ampCaret | .arrow | .eq
  | .tilde | .ellipsis | .lParen | .rParen | .lBracket | .rBracket | .lBrace | .rBrace | .comma | .dot
  | .colon => true
  | _ => false

end Symbol

/-! ## Kinds -/

inductive Literal
  | int | float | imaginary | rune | string
  deriving DecidableEq, Repr

namespace Literal

def all : List Literal := [.int, .float, .imaginary, .rune, .string]

def name : Literal → String
  | .int => "IntLiteral" | .float => "FloatLiteral" | .imaginary => "ImaginaryLiteral"
  | .rune => "RuneLiteral" | .string => "StringLiteral"

/-- How messages show a literal with its text. -/
def describe (text : String) : Literal → String
  | .int => s!"integer '{text}'"
  | .float => s!"float '{text}'"
  | .imaginary => s!"imaginary '{text}'"
  | .rune => s!"rune {text}"
  | .string => s!"string {text}"

end Literal

inductive Kind
  | keyword (k : Keyword)
  | symbol (s : Symbol)
  | identifier (name : String)
  | literal (form : Literal) (text : String)
  | newline
  | blockComment
  | eof
  deriving DecidableEq, Repr

namespace Kind

/-- Whether two kinds are the same but for the text they carry. -/
def isLike : Kind → Kind → Bool
  | .identifier _, .identifier _ => true
  | .literal c _, .literal d _ => c == d
  | a, b => a == b

/-- The text that the kind carries. -/
def payload? : Kind → Option String
  | .identifier s | .literal _ s => some s
  | _ => none

/-- The name of the kind, without its text. -/
def name : Kind → String
  | .keyword k => k.name
  | .symbol s => s.name
  | .identifier _ => "Identifier"
  | .literal c _ => c.name
  | .newline => "Newline"
  | .blockComment => "BlockComment"
  | .eof => "Eof"

/-- How messages name a token. -/
def describe : Kind → String
  | .keyword k => if k.isQuoted then s!"'{k.spelling}'" else k.name
  | .symbol .semi => "';' or newline"
  | .symbol s => if s.isQuoted then s!"'{s.spelling}'" else s.name
  | .identifier name => s!"identifier '{name}'"
  | .literal c text => c.describe text
  | .newline => "newline"
  | .blockComment => "BlockComment"
  | .eof => "end of file"

/-- The kind with the given name and text, where there is one. -/
def ofName? (name text : String) : Option Kind :=
  let kinds : List Kind :=
    Keyword.all.map .keyword ++ Symbol.all.map .symbol ++ Literal.all.map (.literal · text) ++
      [.identifier text, .newline, .blockComment, .eof]
  kinds.find? (·.name == name)

/-- Whether a line break behind the token ends the statement. -/
def endsStatement : Kind → Bool
  | .identifier _ | .literal .. => true
  | .keyword k =>
    match k with
    | .break_ | .continue_ | .fallthrough | .return_ => true
    | _ => false
  | .symbol s =>
    match s with
    | .plusPlus | .minusMinus | .rParen | .rBracket | .rBrace => true
    | _ => false
  | _ => false

/-- Whether a type can begin with the token. -/
def startsType : Kind → Bool
  | .identifier _ => true
  | .keyword k =>
    match k with
    | .func | .map | .chan | .struct | .interface => true
    | _ => false
  | .symbol s =>
    match s with
    | .star | .lBracket | .lParen | .arrow => true
    | _ => false
  | _ => false

/-- Whether a constant expression can begin with the token. -/
def startsExpr : Kind → Bool
  | .identifier _ | .literal .. => true
  | .symbol s =>
    match s with
    | .lParen | .minus | .plus | .caret | .bang => true
    | _ => false
  | _ => false

/-- Whether the token opens a bracketed group. -/
def isOpen : Kind → Bool
  | .symbol .lParen | .symbol .lBracket | .symbol .lBrace => true
  | _ => false

/-- Whether the token closes a bracketed group. -/
def isClose : Kind → Bool
  | .symbol .rParen | .symbol .rBracket | .symbol .rBrace => true
  | _ => false

@[simp] theorem isLike_refl (k : Kind) : k.isLike k = true := by
  cases k <;> simp [isLike]

theorem not_isClose_of_isOpen {k : Kind} (h : k.isOpen = true) : k.isClose = false := by
  unfold isOpen at h; split at h <;> simp_all [isClose]

end Kind

end StructPadding.Token
