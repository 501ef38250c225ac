-- SUMMARY: Text with styles, written with or without terminal colours.

/-!
# Ink

Coloured output is a list of texts and changes of style. Without colours only the texts are written.
-/

namespace StructPadding

inductive Severity
  | error | warning
  deriving DecidableEq, Repr

def Severity.name : Severity → String
  | .error => "error" | .warning => "warning"

inductive Style
  /-- The severity at the head of a diagnostic. -/
  | head (s : Severity)
  /-- The message at the head of a diagnostic. -/
  | title
  /-- Line numbers and borders. -/
  | border
  /-- The marked part of a source. -/
  | mark (s : Severity)
  deriving DecidableEq, Repr

inductive Ink
  | text (s : String)
  | style (s : Style)
  /-- Back to no style. -/
  | plain
  deriving DecidableEq, Repr

namespace Ink

/-- The control sequence with the given parameters. -/
def control (parameters : String) : String := "\x1b[" ++ parameters ++ "m"

/-- The control sequences that set a style from any other. -/
def codes : Style → List String
  | .head .error => ["0", "1", "38;5;9"]
  | .head .warning => ["0", "1", "38;5;11"]
  | .title => ["0", "1"]
  | .border => ["0", "34"]
  | .mark .error => ["0", "31"]
  | .mark .warning => ["0", "33"]

def write (coloured : Bool) : Ink → String
  | .text s => s
  | .style s => if coloured then String.join ((codes s).map control) else ""
  | .plain => if coloured then control "0" else ""

/-- A text in a style of its own. -/
def styled (s : Style) (t : String) : List Ink := [.style s, .text t, .plain]

def newline : Ink := .text "\n"

/-- Texts of which some are in a style, which is set and left where that changes. -/
def strokes (s : Style) (inside : Bool) : List (Bool × String) → List Ink
  | [] => if inside then [.plain] else []
  | (marked, t) :: rest =>
    let change := if marked = inside then [] else if marked then [.style s] else [.plain]
    change ++ .text t :: strokes s marked rest

end Ink

/-- Write inked text. -/
def writeInk (coloured : Bool) (inks : List Ink) : String := String.join (inks.map (Ink.write coloured))

end StructPadding
