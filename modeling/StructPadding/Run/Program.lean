-- SUMMARY: The program: from a command line and a file tree to the printed output and the exit code.
import StructPadding.Run.Arguments
import StructPadding.Run.Output

/-!
# Program

The whole program as a function. Messages go to the error output as they come, debug lines only on demand;
then follow the errors, and the findings where they are printed as text.
-/

namespace StructPadding

/-- What is left of a program that has ended. -/
structure Ended where
  exitCode : Nat
  output : String
  errorOutput : String
  deriving DecidableEq, Repr

namespace Program

def versionText : String := "nopad 0.1.0\n"

def usageText : String := "usage: nopad [OPTIONS] [PATTERNS]...\n"

/-- A message as it is printed. -/
def shown (verbose : Bool) : Message → String
  | .text s => s
  | .log l => if l.level = .warn ∨ verbose then l.written else ""

/-- The machine that the arguments and the environment name. -/
def machine (a : Arguments) (environment : Option String) : Except Failure Machine :=
  let name := (a.arch <|> environment.filter (· ≠ "")).getD "amd64"
  match Machine.ofArch? name with
  | none => .error (.unknownArch name)
  | some base =>
    match Machine.ofSizes (a.wordSize.getD ⟨base.wordSize, Nat.lt_succ_of_le base.wordSize_le⟩)
        (a.maxAlign.getD ⟨base.maxAlign, Nat.lt_succ_of_le base.maxAlign_le⟩) with
    | .error e => .error (.invalidMachine e)
    | .ok m => .ok m

/-- The end of a program that cannot do its work. -/
def failed (before : String) (reason : String) : Ended := ⟨1, "", before ++ "error: " ++ reason ++ "\n"⟩

def targetLine (m : Machine) : LogLine := ⟨.debug, .program, s!"target: {m.text}"⟩

/-- Print a finished run. -/
def finish (a : Arguments) (before : String) (r : Run) : Ended :=
  let write (ds : List Diagnostic) : String := String.join (ds.map (·.write (a.colour = some .always)))
  let summary := shown a.verbose (.log r.summaryLine)
  match a.format.getD .text with
  | .text => ⟨r.exitCode, "", before ++ write r.errorDiagnostics ++ write r.findingDiagnostics ++ summary⟩
  | .json => ⟨r.exitCode, r.json ++ "\n", before ++ write r.errorDiagnostics ++ summary⟩

/-- Check what the arguments name. -/
def check (t : FileTree) (a : Arguments) (environment : Option String) : Ended :=
  match machine a environment with
  | .error f => failed "" ("invalid target: " ++ f.report)
  | .ok m =>
    let options : LintOptions :=
      { machine := m, suggest := a.suggest, dumpTokens := a.dumpTokens, dumpFiles := a.dumpFiles }
    let (messages, result) := lint options t a.patterns
    let before := String.join ((.log (targetLine m) :: messages).map (shown a.verbose))
    match result with
    | .error f => failed before f.report
    | .ok run => finish a before run

/-- Run the program in a file tree, with the architecture that the environment names. -/
def run (t : FileTree) (args : List String) (environment : Option String) : Ended :=
  match Arguments.ofList args with
  | .usage => ⟨2, "", usageText⟩
  | .version => ⟨0, versionText, ""⟩
  | .check a => check t a environment

end Program

end StructPadding
