-- SUMMARY: The lexical grammar: one regular expression for each class of lexeme.
import StructPadding.Text.Regex
import StructPadding.Token.Kind

/-!
# Patterns

The declared patterns of the language, in order of precedence: keywords stand before identifiers, so that
they win where both match the same text. Beside the tokens there are patterns for blanks and line comments,
which are skipped, and for literals and comments that are opened and never closed.
-/

namespace StructPadding.Token

/-- What a piece of source text is. -/
inductive Category
  | keyword (k : Keyword)
  | symbol (s : Symbol)
  | identifier
  | literal (c : Literal)
  | newline
  | blockComment
  /-- Blanks and line comments. -/
  | blank
  /-- A literal or comment without its end. -/
  | unclosed
  /-- A character that begins nothing. -/
  | stray
  deriving DecidableEq, Repr

/-- The token kind of a lexeme with the given text, for the classes that make a token. -/
def Category.kind? (text : String) : Category → Option Kind
  | .keyword k => some (.keyword k)
  | .symbol s => some (.symbol s)
  | .identifier => some (.identifier text)
  | .literal c => some (.literal c text)
  | _ => none

namespace Pattern

open Regex

def decimal : Regex := range '0' '9'

/-- A digit or the separator of digits. -/
def digitOrBar : Regex := .one ⟨[('0', '9'), ('_', '_')], false⟩

/-- A run of decimal digits and separators that begins with a digit. -/
def digits : Regex := decimal ++ many digitOrBar

def identifier : Regex :=
  .one ⟨[('a', 'z'), ('A', 'Z'), ('_', '_')], false⟩ ++
    many (.one ⟨[('a', 'z'), ('A', 'Z'), ('0', '9'), ('_', '_')], false⟩)

def int : Regex :=
  (word "0" ++ anyOf "xX" ++ plus (.one ⟨[('0', '9'), ('a', 'f'), ('A', 'F'), ('_', '_')], false⟩)) |||
  (word "0" ++ anyOf "bB" ++ plus (anyOf "01_")) |||
  (word "0" ++ anyOf "oO" ++ plus (.one ⟨[('0', '7'), ('_', '_')], false⟩)) |||
  digits

def exponent : Regex := anyOf "eE" ++ opt (anyOf "+-") ++ plus digitOrBar

def float : Regex :=
  (digits ++ word "." ++ many digitOrBar ++ opt exponent) |||
  (word "." ++ digits ++ opt exponent) |||
  (digits ++ exponent)

def imaginary : Regex := digits ++ opt (word "." ++ many digitOrBar) ++ opt exponent ++ word "i"

/-- A character other than line breaks and the quote, or a backslash with the character it escapes. -/
def quotedChar (quote : String) : Regex := noneOf (quote ++ "\\\n") ||| (word "\\" ++ noneOf "\n")

def openRune : Regex := word "'" ++ many (quotedChar "'")

def rune : Regex := openRune ++ word "'"

def openString : Regex := word "\"" ++ many (quotedChar "\"")

def openRawString : Regex := word "`" ++ many (noneOf "`")

def string : Regex := (openString ++ word "\"") ||| (openRawString ++ word "`")

/-- Anything between the marks `/*` and `*/` that does not hold the closing mark. -/
def blockComment : Regex :=
  word "/*" ++ many (noneOf "*") ++ plus (word "*") ++
    many (noneOf "/*" ++ many (noneOf "*") ++ plus (word "*")) ++ word "/"

def openBlockComment : Regex :=
  word "/*" ++ many (noneOf "*" ||| (plus (word "*") ++ noneOf "*/")) ++ many (word "*")

def blanks : Regex := plus (anyOf " \t\r\x0c")

def lineComment : Regex := word "//" ++ many (noneOf "\n")

/-- All patterns in order of precedence. -/
def all : List (Category × Regex) :=
  Keyword.all.map (fun k => (.keyword k, word k.spelling)) ++
  [(.identifier, identifier), (.literal .int, int), (.literal .float, float), (.literal .imaginary, imaginary),
   (.literal .rune, rune), (.literal .string, string)] ++
  Symbol.all.map (fun s => (.symbol s, word s.spelling)) ++
  [(.newline, word "\n"), (.blockComment, blockComment), (.blank, blanks), (.blank, lineComment),
   (.unclosed, openString ||| openRawString ||| openRune ||| openBlockComment)]

end Pattern

end StructPadding.Token
