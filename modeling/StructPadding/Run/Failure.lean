-- SUMMARY: What can fail a run, apart from problems in its sources.
import StructPadding.FileTree.Tree
import StructPadding.Machine

/-!
# Failures

A failure is not about the text of a source: a path cannot be read, nothing is found, or the target is not
known. A run with a failure cannot be trusted.
-/

namespace StructPadding

inductive Failure
  | unreadable (path : Path) (reason : AccessError)
  | noFiles (patterns : List String)
  | unknownArch (name : String)
  | invalidMachine (reason : Machine.Invalid)
  deriving DecidableEq, Repr

namespace Failure

def message : Failure → String
  | .unreadable path reason => s!"cannot read {path.text}: {reason.message}"
  | .noFiles patterns => "no Go files matched " ++ " ".intercalate patterns
  | .unknownArch name =>
    let known := ", ".intercalate Machine.knownNames
    s!"unknown architecture '{name}' (known: {known})"
  | .invalidMachine reason => s!"invalid machine model: {reason.message}"

/-- The message of what lies behind the failure, where there is something. -/
def reason? : Failure → Option String
  | .unreadable _ reason => some reason.message
  | .invalidMachine reason => some reason.message
  | .noFiles _ | .unknownArch _ => none

/-- The message, followed by that of the reason. -/
def report (f : Failure) : String := f.message ++ ((f.reason?.map (": " ++ ·)).getD "")

end Failure

end StructPadding
