-- SUMMARY: What a run prints: its errors, and its findings as diagnostics or as JSON.
import StructPadding.Run.Diagnostic
import StructPadding.Run.Lint
import StructPadding.Text.Json

/-!
# Output

Errors are printed as diagnostics. Findings are printed as diagnostics on the word `struct`, or as a JSON
list with the line and column of it.
-/

namespace StructPadding

/-- The head line of a problem's diagnostic. -/
def Stage.title : Stage → String
  | .lexer => "Lexer error"
  | .parser => "Syntax error"
  | .semantic => "Semantic error"
  | .type => "Type error"

/-- A label on a span of a file. -/
def SourceText.label (f : SourceText) (span : Span) (message : String) : Label :=
  ⟨f.path.text, Line.ofSource f.text, span, message⟩

def Failure.diagnostic (f : Failure) : Diagnostic := ⟨.error, f.message, none, []⟩

namespace Run

/-- The diagnostic of a problem in a file. -/
def problemDiagnostic (files : List SourceText) (entry : Nat × Problem) : Diagnostic :=
  let (file, p) := entry
  ⟨.error, p.stage.title, (files[file]?).map fun f => f.label p.span p.message, []⟩

def findingLabel (r : Report) : String :=
  match r.name with
  | some name => s!"struct `{name}` is padded"
  | none => "anonymous struct is padded"

def suggestionNote (s : Suggestion) : String :=
  let names := ", ".intercalate s.order
  s!"ordering fields as [{names}] gives {s.size} bytes"

def findingDiagnostic (files : List SourceText) (r : Report) : Diagnostic :=
  ⟨.warning, r.message, (files[r.file]?).map fun f => f.label r.span (findingLabel r),
    r.paddingNotes ++ (r.suggestion.map suggestionNote).toList⟩

/-- The diagnostics of all errors, failures first. -/
def errorDiagnostics (r : Run) : List Diagnostic :=
  r.failures.map Failure.diagnostic ++ r.problems.map (problemDiagnostic r.files)

def findingDiagnostics (r : Run) : List Diagnostic := r.reports.map (findingDiagnostic r.files)

/-- The line and the column of a byte of a file, if there is such a file. -/
def location? (files : List SourceText) (file offset : Nat) : Option Location :=
  (files[file]?).map fun f => .ofOffset (Line.ofSource f.text) offset

/-- A finding as JSON; without a suggestion its fields are left out. -/
def findingJson (files : List SourceText) (r : Report) : JsonValue :=
  let path := ((files[r.file]?).map (·.path.text)).getD ""
  let place := (location? files r.file r.span.start).getD ⟨0, 0⟩
  .object <|
    [("file", .text path), ("line", .number place.line), ("column", .number place.column),
     ("struct", (r.name.map JsonValue.text).getD .null), ("actual_size", .number r.finding.actual),
     ("reference_size", .number r.finding.reference), ("padding", .number r.finding.padding)] ++
    match r.suggestion with
    | none => []
    | some s => [("suggested_order", .list (s.order.map .text)), ("suggested_size", .number s.size)]

def jsonFindings (r : Run) : List JsonValue := r.reports.map (findingJson r.files)

/-- All findings as a JSON text. -/
def json (r : Run) : String := (JsonValue.list r.jsonFindings).write

def summaryLine (r : Run) : LogLine :=
  ⟨.debug, .run,
    s!"{r.reports.length} findings, {r.errorCount} errors in {r.files.length} files"⟩

end Run

end StructPadding
