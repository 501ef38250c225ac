-- SUMMARY: Diagnostics: a message with the source it is about, drawn with line numbers and marks.
import StructPadding.Run.Ink
import StructPadding.Source.Lines
import StructPadding.Source.Span
import StructPadding.Text.Columns

/-!
# Diagnostics

A diagnostic has a head line, and may point at a span of a source. A span within a line is underlined with
carets. A span over several lines is drawn with a bar on the left that leads from its first character to its
last; of a long span only the first four lines and the last two are shown.
-/

namespace StructPadding

/-- What a diagnostic points at. -/
structure Label where
  file : String
  lines : List Line
  span : Span
  message : String

structure Diagnostic where
  severity : Severity
  message : String
  label : Option Label
  notes : List String

namespace Diagnostic

open Ink

/-- How a line takes part in the label; places are bytes of the line. -/
inductive Mark
  | within (start stop : Nat)
  | top (start : Nat)
  | middle
  | bottom (stop : Nat)
  deriving DecidableEq, Repr

def Mark.isMulti : Mark → Bool
  | .within .. => false
  | _ => true

/-- A line shown in the diagnostic. -/
structure Row where
  number : Nat
  /-- The characters without the line end. -/
  chars : List Char
  mark : Mark

namespace Row

/-- Bytes of blank space at the beginning of the line. -/
def indent (r : Row) : Nat := Line.byteLength (r.chars.takeWhile isBlank)

/-- Whether the label begins in front of the line's text, so that its bar can begin on the line. -/
def opensInFront (r : Row) : Bool :=
  match r.mark with
  | .top start => start ≤ r.indent
  | _ => false

/-- Whether a cell of the line is marked. -/
def isMarked (r : Row) (c : Cell) : Bool :=
  match r.mark with
  | .within start stop => max start c.offset < min stop c.stop
  | .top start => start ≤ c.offset
  | .middle => true
  | .bottom stop => c.stop ≤ stop

end Row

/-- The line without newlines, returns and null characters at its end. -/
def trimEnd (cs : List Char) : List Char :=
  (cs.reverse.dropWhile fun c => c == '\n' || c == '\r' || c == '\x00').reverse

/-- The rows of a label: the lines it covers with their marks. -/
def rowsOf (label : Label) : List Row :=
  let first := Line.containing label.lines label.span.start
  let last := Line.containing label.lines label.span.stop
  let row (l : Line) (mark : Mark) : Row := ⟨l.number, trimEnd l.chars, mark⟩
  if last.number ≤ first.number then
    let start := label.span.start - first.start
    [row first (.within start (max (label.span.stop - first.start) (start + 1)))]
  else
    let between := label.lines.filter fun l => first.number < l.number && l.number < last.number
    row first (.top (label.span.start - first.start)) ::
      (between.map (row · .middle) ++ [row last (.bottom (label.span.stop - last.start))])

/-! ## Gutters -/

section

variable (severity : Severity) (pad : Nat)

def spaces (n : Nat) : String := String.ofList (List.replicate n ' ')

/-- The bar between the gutter and the source. -/
def bar : List Ink := styled .border "│"

/-- The gutter of a line without a number. -/
def blankGutter : List Ink := [.text (spaces pad ++ " ")]

def numberGutter (n : Nat) : List Ink :=
  let digits := toString n
  styled .border (spaces (pad - digits.length) ++ digits) ++ [.text " "]

/-- A piece of the bar of a label over several lines. -/
def stem (piece : String) : List Ink := .text " " :: styled (.mark severity) piece

/-- The column of a label over several lines, beside a line that it covers. -/
def stemOf (r : Row) : List Ink :=
  match r.mark with
  | .within .. => []
  | .top _ => if r.opensInFront then stem severity "╭" else [.text "  "]
  | .middle | .bottom _ => stem severity "│"

/-- A line with nothing but borders. -/
def emptyLine (multi : Bool) : List Ink :=
  blankGutter pad ++ bar ++ (if multi then [.text "  "] else []) ++ [newline]

/-! ## Lines -/

/-- The source of a row. -/
def sourceLine (r : Row) : List Ink :=
  numberGutter pad r.number ++ bar ++ stemOf severity r ++ [.text " "] ++
    strokes (.mark severity) false ((Cell.ofChars r.chars).map fun c => (r.isMarked c, String.ofList c.shown)) ++
    [newline]

/-- The carets below a row whose label ends at `stop`, with the label's message. One place behind the end of
    the line can be marked as well. -/
def caretLine (r : Row) (stop : Nat) (message : String) : List Ink :=
  let cells := Cell.ofChars r.chars ++ [⟨Line.byteLength r.chars, 1, '\x00'⟩]
  let stroke (c : Cell) : Bool × String :=
    let fill (char : Char) : String := String.ofList (List.replicate c.width char)
    if r.isMarked c then (true, fill '^')
    else if c.offset < stop then (false, fill ' ')
    else (false, "")
  blankGutter pad ++ bar ++ [.text " "] ++ strokes (.mark severity) false (cells.map stroke) ++ [.text " "] ++
    styled (.mark severity) message ++ [newline]

/-- A line from the bar of a label to a caret under or over the cells up to a byte of the row. -/
def hookLine (r : Row) (corner : String) (bytes : Nat) (message : String) : List Ink :=
  let cells := (Cell.ofChars r.chars).takeWhile (·.offset < bytes)
  let width := cells.foldl (fun n c => n + c.width) 0
  blankGutter pad ++ bar ++ stem severity corner ++
    styled (.mark severity) (String.ofList (List.replicate width '─') ++ "^" ++ message) ++ [newline]

/-- A row with what is drawn below it. -/
def rowLines (message : String) (r : Row) : List Ink :=
  sourceLine severity pad r ++
    match r.mark with
    | .within _ stop => caretLine severity pad r stop message
    | .top start => if r.opensInFront then [] else hookLine severity pad r "╭" (start + 1) ""
    | .middle => []
    | .bottom stop => hookLine severity pad r "╰" stop (" " ++ message)

/-- The mark of lines that are left out. -/
def breakLine : List Ink := blankGutter pad ++ styled .border "·" ++ stem severity "│" ++ [newline]

/-- All rows; of more than seven the first four and the last two. -/
def rowsLines (message : String) (rows : List Row) : List Ink :=
  let draw (rs : List Row) : List Ink := rs.flatMap (rowLines severity pad message)
  if rows.length ≤ 7 then draw rows
  else draw (rows.take 4) ++ breakLine severity pad ++ draw (rows.drop (rows.length - 2))

/-- A note; its further lines are set below the first. -/
def noteLines (note : String) : List Ink :=
  match note.splitOn "\n" with
  | [] => []
  | first :: rest =>
    blankGutter pad ++ styled .border "=" ++ [.text (" " ++ first), newline] ++
      rest.flatMap fun l => blankGutter pad ++ [.text ("  " ++ l), newline]

end

/-! ## Whole diagnostics -/

def headLine (d : Diagnostic) : List Ink :=
  [.style (.head d.severity), .text d.severity.name, .style .title, .text (": " ++ d.message), .plain, newline]

/-- The source that a diagnostic points at, with its notes. -/
def snippet (d : Diagnostic) (label : Label) : List Ink :=
  let rows := rowsOf label
  let pad := rows.foldl (fun n r => max n (toString r.number).length) 0
  let multi := rows.any (·.mark.isMulti)
  let place := Location.ofOffset label.lines label.span.start
  blankGutter pad ++ styled .border "┌─" ++
    [.text s!" {label.file}:{place.line}:{place.column}", newline] ++
    emptyLine pad multi ++
    rowsLines d.severity pad label.message rows ++
    (if d.notes.isEmpty then [] else emptyLine pad multi ++ d.notes.flatMap (noteLines pad))

/-- The diagnostic as it is printed, with an empty line behind it. -/
def inks (d : Diagnostic) : List Ink :=
  d.headLine ++ (d.label.map d.snippet).getD [] ++ [newline]

def write (coloured : Bool) (d : Diagnostic) : String := writeInk coloured d.inks

end Diagnostic

end StructPadding
