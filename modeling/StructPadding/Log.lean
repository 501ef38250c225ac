-- SUMMARY: Log lines: what a run tells about its progress.
import StructPadding.Text.Terminal

/-!
# Log

A log line has a level and the part of the program that it comes from. Warnings are always shown, debug
lines on demand. Names in a log line cannot change what the terminal does: what it would not show is left out.
-/

namespace StructPadding

inductive LogLevel
  | debug | warn
  deriving DecidableEq, Repr

/-- The level in capitals, five characters wide. -/
def LogLevel.label : LogLevel → String
  | .debug => "DEBUG"
  | .warn => "WARN "

/-- The part of the program that a log line comes from. -/
inductive LogTopic
  | program | discovery | run | parsing | resolution | analysis
  deriving DecidableEq, Repr

def LogTopic.label : LogTopic → String
  | .program => "nopad"
  | .discovery => "nopad::driver::discover"
  | .run => "nopad::driver"
  | .parsing => "nopad::frontend::go"
  | .resolution => "nopad::frontend::go::sema::resolver"
  | .analysis => "nopad::analysis::padding"

structure LogLine where
  level : LogLevel
  topic : LogTopic
  message : String
  deriving DecidableEq, Repr

namespace LogLine

/-- The message with its lines after the first set in. -/
def indented (l : LogLine) : String := "\n    ".intercalate ((l.message.toList.splitOn '\n').map String.ofList)

/-- The line as it is written. -/
def written (l : LogLine) : String :=
  Terminal.visible s!"[{l.level.label} {l.topic.label}] {l.indented}\n"

end LogLine

end StructPadding
