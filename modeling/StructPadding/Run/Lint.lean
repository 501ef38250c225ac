-- SUMMARY: A run over the files that patterns name: reading, parsing, and analyzing them by package.
import StructPadding.Analysis.Analysis
import StructPadding.FileTree.Discover
import StructPadding.Parse.File
import StructPadding.Run.Failure
import StructPadding.Source.Lines
import StructPadding.Syntax.Outline

/-!
# Runs

A run finds files, reads and parses them, and analyzes the files of each package together: those of one
folder with the same package clause. Files that cannot be read or parsed are left out of their packages. A
run also tells what it is doing, as messages in order.
-/

namespace StructPadding

/-- What is checked, and what is shown on the way. -/
structure LintOptions where
  machine : Machine
  suggest : Bool := false
  dumpTokens : Bool := false
  dumpFiles : Bool := false

/-- What a run tells while it works. -/
inductive Message
  | log (l : LogLine)
  | text (s : String)
  deriving DecidableEq, Repr

structure SourceText where
  path : Path
  text : String
  deriving DecidableEq, Repr

structure Run where
  /-- The files that could be read, in path order; reports and problems count in these. -/
  files : List SourceText
  /-- Failures to read a file. -/
  failures : List Failure
  reports : List Report
  problems : List (Nat × Problem)

namespace Run

/-- The number of failures and problems. -/
def errorCount (r : Run) : Nat := r.failures.length + r.problems.length

/-- One for a run that cannot be trusted, three for one that reports structs, zero otherwise. -/
def exitCode (r : Run) : Nat :=
  if !r.failures.isEmpty then 1 else if !r.reports.isEmpty then 3 else 0

/-! ## Files -/

/-- Read the files at the given paths: those that can be read, and the failures of the others. -/
def readFiles (t : FileTree) : List Path → List SourceText × List Failure
  | [] => ([], [])
  | p :: rest =>
    let (files, failures) := readFiles t rest
    match t.read p with
    | .ok text => (⟨p, text⟩ :: files, failures)
    | .error e => (files, .unreadable p e :: failures)

def parsingLine (f : SourceText) : LogLine := ⟨.debug, .parsing, s!"parsing {f.path.text}"⟩

/-- The dump of the tokens of a file: its head, and the rest where the file has no lexical problem. -/
def tokenDump (f : SourceText) : List Message × Except Problem (List Message) :=
  ([.text s!"=== Go Tokens: {f.path.text} ===\n"],
    (Token.dump f.text).map fun dump => [.text dump, .text "=== End Tokens ===\n\n"])

def fileDump (f : SourceText) (parsed : SourceFile) : List Message :=
  [.text s!"=== Go AST: {f.path.text} ===\n", .text (parsed.dump ++ "\n"), .text "=== End AST ===\n\n"]

/-- Parse a file, after its tokens have been dumped if that is asked for. -/
def parseFile (o : LintOptions) (f : SourceText) : List Message × Except Problem SourceFile :=
  let (head, dump) := if o.dumpTokens then tokenDump f else ([], .ok [])
  match dump with
  | .error p => (head, .error p)
  | .ok dump =>
    let before := head ++ dump ++ [.log (parsingLine f)]
    match SourceFile.parse f.text with
    | .error p => (before, .error p)
    | .ok file => (before ++ (if o.dumpFiles then fileDump f file else []), .ok file)

/-! ## Packages -/

/-- A parsed file with its number in the run. -/
structure Member where
  index : Nat
  path : Path
  file : SourceFile

/-- The order of packages: by folder, then by name. -/
def Member.compare (a b : Member) : Ordering :=
  (Ord.compare a.path.directory b.path.directory).then (Ord.compare a.file.package b.file.package)

/-- The files of each package, packages in order and files in that of the run. -/
def packages (members : List Member) : List (List Member) :=
  (members.mergeSort fun a b => (a.compare b).isLE).splitBy fun a b => a.compare b == .eq

/-- The analysis of a package, with files counted as in the run. -/
def analyzePackage (o : LintOptions) (members : List Member) : Analysis :=
  let a := Analysis.ofPackage o.machine o.suggest (members.map (·.file))
  let index (file : Nat) : Nat := ((members[file]?).map (·.index)).getD file
  { a with
    reports := a.reports.map fun r => { r with file := index r.file }
    problems := a.problems.map fun (file, p) => (index file, p) }

/-- Whether two reports say the same of the same place. -/
def sameReport (a b : Report) : Bool := a.file == b.file && a.span == b.span && a.message == b.message

/-- A list of reports without those that say the same as the one before. -/
def dedupReports : List Report → List Report
  | [] => []
  | [r] => [r]
  | r :: s :: rest => if sameReport r s then dedupReports (r :: rest) else r :: dedupReports (s :: rest)

/-- Reports by file and place. -/
def sortReports (rs : List Report) : List Report :=
  dedupReports <| rs.mergeSort fun a b =>
    ((compare a.file b.file).then (compare a.span.start b.span.start)).isLE

/-- Problems by file and place. -/
def sortProblems (ps : List (Nat × Problem)) : List (Nat × Problem) :=
  ps.mergeSort fun a b =>
    ((compare a.1 b.1).then (compare a.2.span.start b.2.span.start)).isLE

/-! ## Whole runs -/

/-- The extensions of source files. -/
def extensions : List String := [".go"]

def discoveredLine (paths : List Path) (patterns : List String) : LogLine :=
  ⟨.debug, .discovery,
    s!"{paths.length} source files matched " ++ " ".intercalate patterns⟩

def packagesLine (files : List SourceText) (packages : List (List Member)) : LogLine :=
  ⟨.debug, .run, s!"{files.length} files in {packages.length} packages"⟩

/-- A run over the files at the given paths. -/
def ofPaths (o : LintOptions) (t : FileTree) (paths : List Path) : List Message × Run :=
  let (files, failures) := readFiles t paths
  let parsed := files.map (parseFile o)
  let outcomes := (files.zip parsed).zipIdx
  let members := outcomes.filterMap fun ((f, _, r), i) =>
    match r with
    | .ok file => some ⟨i, f.path, file⟩
    | .error _ => none
  let unparsed := outcomes.filterMap fun ((_, _, r), i) =>
    match r with
    | .ok _ => none
    | .error p => some (i, p)
  let groups := packages members
  let analyses := groups.map (analyzePackage o)
  (parsed.flatMap (·.1) ++ .log (packagesLine files groups) :: analyses.flatMap (·.log.map .log),
    { files
      failures
      reports := sortReports (analyses.flatMap (·.reports))
      problems := sortProblems (unparsed ++ analyses.flatMap (·.problems)) })

end Run

/-- Check the packages that the patterns name; without patterns the current folder. The run fails if a
    pattern names nothing, or nothing is found. -/
def lint (o : LintOptions) (t : FileTree) (patterns : List String) : List Message × Except Failure Run :=
  let patterns := if patterns.isEmpty then ["."] else patterns
  match discover Run.extensions t patterns with
  | .error (path, reason) => ([], .error (.unreadable path reason))
  | .ok paths =>
    let found := Message.log (Run.discoveredLine paths patterns)
    if paths.isEmpty then ([found], .error (.noFiles patterns))
    else
      let (messages, run) := Run.ofPaths o t paths
      (found :: messages, .ok run)

end StructPadding
