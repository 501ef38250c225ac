-- SUMMARY: The grammar of source files as a relation between places in a source, with what becomes of struct literals.
import StructPadding.Parse.File

/-!
# Derivations

The tokens of a source file make its declarations by the rules of a grammar. A rule relates the place in front of the
tokens that it is about to the place behind them, and says what the tokens make. Places keep an account of the struct
literals that become no part of a type: those that are kept aside, and those that are passed over. The grammar has one
rule by which a literal is passed over. It applies to code up to a stop, which stands in two places only: in the
constraints of type parameters, and in the arguments of calls in constant expressions.
-/

namespace StructPadding

/-- The struct literals of one that is kept: itself, and those inside it. -/
def LocalStruct.structs (l : LocalStruct) : List StructType := l.type :: l.type.inner

namespace Parser

open Token (Kind Event)

/-! ## Places -/

/-- A place in a source. -/
structure Cursor where
  /-- What is still to come. -/
  events : List Event
  /-- The struct literals kept so far that are no part of a type declaration. -/
  kept : List LocalStruct
  /-- The keywords of the struct literals passed over so far. -/
  passed : List Span

namespace Cursor

/-- The place in front of a source. -/
def ofSource (source : String) : Cursor := ⟨(Token.Stream.ofSource source).events, [], []⟩

/-- The kind of the token `n` places behind the next one; behind all tokens there is the end of the file. -/
def kindAt (c : Cursor) (n : Nat) : Kind :=
  match c.events[n]? with
  | some (.ok t) => t.kind
  | _ => .eof

/-- Whether the next tokens are those that a struct literal begins with. -/
def AtLiteral (c : Cursor) : Prop := c.kindAt 0 = .keyword .struct ∧ c.kindAt 1 = .symbol .lBrace

/-- Whether a token is the next one, and leads from one place to the other. -/
structure Takes (c : Cursor) (t : Token) (d : Cursor) : Prop where
  events : c.events = .ok t :: d.events
  kept : d.kept = c.kept
  passed : d.passed = c.passed

/-- Whether a token of a kind leads from one place to the other. -/
def Reads (c : Cursor) (k : Kind) (d : Cursor) : Prop := ∃ span, c.Takes ⟨k, span⟩ d

/-- Whether the places are the same, or a token of a kind leads from one to the other. -/
def MayRead (c : Cursor) (k : Kind) (d : Cursor) : Prop := d = c ∨ c.Reads k d

/-- Whether a token leads from one place to the other that begins no group, ends none, and begins no struct literal. -/
def Skips (c d : Cursor) : Prop := ∃ k, c.Reads k d ∧ k.isOpen = false ∧ k.isClose = false ∧ ¬ c.AtLiteral

/-- The place with some more struct literals kept. -/
def keep (c : Cursor) (ls : List LocalStruct) : Cursor := { c with kept := c.kept ++ ls }

/-- The place with one more struct literal passed over. -/
def pass (c : Cursor) (keyword : Span) : Cursor := { c with passed := c.passed ++ [keyword] }

end Cursor

/-! ## Rules -/

/-- What tokens can make. -/
inductive Form
  /-- Names with commas between them. -/
  | names
  | type (t : TypeExpr)
  /-- The arguments behind the name of a type, if it has any. -/
  | typeArgs (ts : List TypeExpr)
  /-- The beginning of a list of types. -/
  | types (ts : List TypeExpr)
  | struct (st : StructType)
  /-- The beginning of the body of a struct literal. -/
  | fields (fs : List FieldDecl)
  | field (f : FieldDecl)
  | tag
  /-- A type that is given up, and the struct literals in it kept. -/
  | givenUp
  | signature
  | result
  /-- A struct literal in skipped code, possibly with the name that it declares. -/
  | literal
  /-- The beginning of a bracketed group of skipped code, up to a place in that many brackets. -/
  | inside (depth : Nat)
  | group
  /-- Code up to a stop, which may pass over struct literals. -/
  | stretch
  | expr
  /-- The beginning of a list of expressions. -/
  | exprs
  | argument
  /-- The beginning of the arguments of a call. -/
  | arguments
  | call
  /-- The beginning of a list of type parameters. -/
  | params
  /-- The type parameters of a declaration, if it has any. -/
  | typeParams
  /-- The struct literals of one entry of a declaration with a keyword are those of the given types. -/
  | entry (keyword : Token.Keyword) (ds : List TypeDecl)
  /-- The beginning of a list of entries. -/
  | entries (keyword : Token.Keyword) (ds : List TypeDecl)
  | declaration (ds : List TypeDecl)
  /-- The beginning of a skipped declaration. -/
  | skipped
  /-- The beginning of a file, with the types it declares. -/
  | file (ds : List TypeDecl)

/-- Whether the tokens from one place to another make what the form says. -/
inductive Derives : Form → Cursor → Cursor → Prop
  -- Names
  | name {c d n} : c.Reads (.identifier n) d → Derives .names c d
  | nextName {c d e f n} :
      Derives .names c d → d.Reads (.symbol .comma) e → e.Reads (.identifier n) f → Derives .names c f
  -- Types
  | named {c d e n ts s} :
      c.Reads (.identifier n) d → Derives (.typeArgs ts) d e → Derives (.type (.named none n ts s)) c e
  | qualified {c d e f g p n ts s} :
      c.Reads (.identifier p) d → d.Reads (.symbol .dot) e → e.Reads (.identifier n) f →
        Derives (.typeArgs ts) f g → Derives (.type (.named (some p) n ts s)) c g
  | pointer {c d e t s} : c.Reads (.symbol .star) d → Derives (.type t) d e → Derives (.type (.pointer t s)) c e
  | slice {c d e f t s} :
      c.Reads (.symbol .lBracket) d → d.Reads (.symbol .rBracket) e → Derives (.type t) e f →
        Derives (.type (.slice t s)) c f
  | array {c d e f g n t s} :
      c.Reads (.symbol .lBracket) d → Derives .expr d e → e.Reads (.symbol .rBracket) f →
        Derives (.type t) f g → Derives (.type (.array n t s)) c g
  | map {c d e f g h k v s} :
      c.Reads (.keyword .map) d → d.Reads (.symbol .lBracket) e → Derives (.type k) e f →
        f.Reads (.symbol .rBracket) g → Derives (.type v) g h → Derives (.type (.map k v s)) c h
  | chan {c d e f r t s} :
      c.Reads (.keyword .chan) d → d.MayRead (.symbol .arrow) e → Derives (.type t) e f →
        Derives (.type (.chan r t s)) c f
  | receive {c d e f r t s} :
      c.Reads (.symbol .arrow) d → d.Reads (.keyword .chan) e → Derives (.type t) e f →
        Derives (.type (.chan r t s)) c f
  | func {c d e s} : c.Reads (.keyword .func) d → Derives .signature d e → Derives (.type (.func s)) c e
  | interface {c d e s} : c.Reads (.keyword .interface) d → Derives .group d e → Derives (.type (.interface s)) c e
  | structType {c d st} : Derives (.struct st) c d → Derives (.type (.struct st)) c d
  | parentheses {c d e f t} :
      c.Reads (.symbol .lParen) d → Derives (.type t) d e → e.Reads (.symbol .rParen) f → Derives (.type t) c f
  | noTypeArgs {c} : Derives (.typeArgs []) c c
  | someTypeArgs {c d e f ts} :
      c.Reads (.symbol .lBracket) d → Derives (.types ts) d e → e.Reads (.symbol .rBracket) f →
        Derives (.typeArgs ts) c f
  | noTypes {c} : Derives (.types []) c c
  | nextType {c d e f t ts} :
      Derives (.types ts) c d → Derives (.type t) d e → e.MayRead (.symbol .comma) f →
        Derives (.types (ts ++ [t])) c f
  -- Struct literals
  | braces {c d e f g keyword fs s} :
      c.Takes ⟨.keyword .struct, keyword⟩ d → d.Reads (.symbol .lBrace) e → Derives (.fields fs) e f →
        f.Reads (.symbol .rBrace) g → Derives (.struct ⟨fs, keyword, s⟩) c g
  | noFields {c} : Derives (.fields []) c c
  | fieldSeparator {c d e fs} : Derives (.fields fs) c d → d.Reads (.symbol .semi) e → Derives (.fields fs) c e
  | nextField {c d e f fs fd} :
      Derives (.fields fs) c d → Derives (.field fd) d e → e.MayRead (.symbol .semi) f →
        Derives (.fields (fs ++ [fd])) c f
  | embedded {c d e t g s} : Derives (.type t) c d → Derives .tag d e → Derives (.field ⟨[], t, g, s⟩) c e
  | declared {c d e f ns t g s} :
      Derives .names c d → Derives (.type t) d e → Derives .tag e f → Derives (.field ⟨ns, t, g, s⟩) c f
  | noTag {c} : Derives .tag c c
  | someTag {c d text} : c.Reads (.literal .string text) d → Derives .tag c d
  -- Signatures
  | givesUp {c d t} :
      Derives (.type t) c d → Derives .givenUp c (d.keep (t.outerStructs.map fun st => ⟨none, st⟩))
  | params {c d e} : Derives .group c d → Derives .result d e → Derives .signature c e
  | noResult {c} : Derives .result c c
  | results {c d} : Derives .group c d → Derives .result c d
  | oneResult {c d} : Derives .givenUp c d → Derives .result c d
  -- Skipped code
  | anonymous {c d st} : Derives (.struct st) c d → Derives .literal c (d.keep [⟨none, st⟩])
  | local {c d e f n st} :
      c.Reads (.keyword .type) d → d.Reads (.identifier n) e → Derives (.struct st) e f →
        Derives .literal c (f.keep [⟨some n, st⟩])
  | opening {c d k} : c.Reads k d → k.isOpen = true → Derives (.inside 1) c d
  | insideLiteral {c d e n} : Derives (.inside n) c d → Derives .literal d e → Derives (.inside n) c e
  | insideOpening {c d e n k} :
      Derives (.inside n) c d → d.Reads k e → k.isOpen = true → Derives (.inside (n + 1)) c e
  | insideClosing {c d e n k} :
      Derives (.inside (n + 2)) c d → d.Reads k e → k.isClose = true → Derives (.inside (n + 1)) c e
  | insideToken {c d e n} : Derives (.inside n) c d → d.Skips e → Derives (.inside n) c e
  | closing {c d e k} : Derives (.inside 1) c d → d.Reads k e → k.isClose = true → Derives .group c e
  -- Code up to a stop
  | noStretch {c} : Derives .stretch c c
  | stretchGroup {c d e} : Derives .stretch c d → Derives .group d e → Derives .stretch c e
  | stretchToken {c d e} : Derives .stretch c d → d.Skips e → Derives .stretch c e
  | passing {c d e keyword} :
      Derives .stretch c d → d.AtLiteral → d.Takes ⟨.keyword .struct, keyword⟩ e →
        Derives .stretch c (e.pass keyword)
  -- Expressions
  | leaf {c d f text} : c.Reads (.literal f text) d → Derives .expr c d
  | constant {c d n} : c.Reads (.identifier n) d → Derives .expr c d
  | member {c d e f p n} :
      c.Reads (.identifier p) d → d.Reads (.symbol .dot) e → e.Reads (.identifier n) f → Derives .expr c f
  | inner {c d e f} :
      c.Reads (.symbol .lParen) d → Derives .expr d e → e.Reads (.symbol .rParen) f → Derives .expr c f
  | applied {c d e} : Derives .expr c d → Derives .call d e → Derives .expr c e
  | unary {c d e k} : c.Reads k d → (UnaryOp.ofKind? k).isSome → Derives .expr d e → Derives .expr c e
  | binary {c d e f k} :
      Derives .expr c d → d.Reads k e → (BinaryOp.ofKind? k).isSome → Derives .expr e f → Derives .expr c f
  | oneExpr {c d} : Derives .expr c d → Derives .exprs c d
  | nextExpr {c d e f} : Derives .exprs c d → d.Reads (.symbol .comma) e → Derives .expr e f → Derives .exprs c f
  | noExpr {c d} : Derives .stretch c d → Derives .argument c d
  | someExpr {c d e} : Derives .expr c d → Derives .stretch d e → Derives .argument c e
  | noArguments {c} : Derives .arguments c c
  | nextArgument {c d e f} :
      Derives .arguments c d → Derives .argument d e → e.MayRead (.symbol .comma) f → Derives .arguments c f
  | callArgs {c d e f} :
      c.Reads (.symbol .lParen) d → Derives .arguments d e → e.Reads (.symbol .rParen) f → Derives .call c f
  -- Entries
  | noParams {c} : Derives .params c c
  | nextParam {c d e f g n} :
      Derives .params c d → d.Reads (.identifier n) e → Derives .stretch e f → f.MayRead (.symbol .comma) g →
        Derives .params c g
  | noTypeParams {c} : Derives .typeParams c c
  | someTypeParams {c d e f} :
      c.Reads (.symbol .lBracket) d → Derives .params d e → e.Reads (.symbol .rBracket) f →
        Derives .typeParams c f
  | typeEntry {c d e f g} {decl : TypeDecl} :
      c.Reads (.identifier decl.name) d → Derives .typeParams d e → e.MayRead (.symbol .eq) f →
        Derives (.type decl.type) f g → Derives (.entry .type [decl]) c g
  | typedConst {c d e f g} :
      Derives .names c d → Derives .givenUp d e → e.Reads (.symbol .eq) f → Derives .exprs f g →
        Derives (.entry .const []) c g
  | untypedConst {c d e f} :
      Derives .names c d → d.Reads (.symbol .eq) e → Derives .exprs e f → Derives (.entry .const []) c f
  | repeatedConst {c d} : Derives .names c d → Derives (.entry .const []) c d
  | unnamedImport {c d text} : c.Reads (.literal .string text) d → Derives (.entry .import_ []) c d
  | namedImport {c d e n text} :
      c.Reads (.identifier n) d → d.Reads (.literal .string text) e → Derives (.entry .import_ []) c e
  | dotImport {c d e text} :
      c.Reads (.symbol .dot) d → d.Reads (.literal .string text) e → Derives (.entry .import_ []) c e
  | noEntries {c k} : Derives (.entries k []) c c
  | entrySeparator {c d e k ds} :
      Derives (.entries k ds) c d → d.Reads (.symbol .semi) e → Derives (.entries k ds) c e
  | nextEntry {c d e f k ds ds'} :
      Derives (.entries k ds) c d → Derives (.entry k ds') d e → e.MayRead (.symbol .semi) f →
        Derives (.entries k (ds ++ ds')) c f
  -- Files
  | single {c d e f k ds} :
      c.Reads (.keyword k) d → Derives (.entry k ds) d e → e.MayRead (.symbol .semi) f →
        Derives (.declaration ds) c f
  | grouped {c d e f g h k ds} :
      c.Reads (.keyword k) d → d.Reads (.symbol .lParen) e → Derives (.entries k ds) e f →
        f.Reads (.symbol .rParen) g → g.MayRead (.symbol .semi) h → Derives (.declaration ds) c h
  | noCode {c} : Derives .skipped c c
  | codeLiteral {c d e} : Derives .skipped c d → Derives .literal d e → Derives .skipped c e
  | codeGroup {c d e} : Derives .skipped c d → Derives .group d e → Derives .skipped c e
  | codeToken {c d e} : Derives .skipped c d → d.Skips e → Derives .skipped c e
  | package {c d e f n} :
      c.Reads (.keyword .package) d → d.Reads (.identifier n) e → e.MayRead (.symbol .semi) f →
        Derives (.file []) c f
  | fileSeparator {c d e ds} : Derives (.file ds) c d → d.Reads (.symbol .semi) e → Derives (.file ds) c e
  | nextDeclaration {c d e ds ds'} :
      Derives (.file ds) c d → Derives (.declaration ds') d e → Derives (.file (ds ++ ds')) c e
  | nextSkipped {c d e f ds} :
      Derives (.file ds) c d → Derives .skipped d e → e.MayRead (.symbol .semi) f → Derives (.file ds) c f

end Parser

end StructPadding
