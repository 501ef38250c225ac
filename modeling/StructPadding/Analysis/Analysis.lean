-- SUMMARY: The analysis of one package: its reports and its problems.
import StructPadding.Log
import StructPadding.Analysis.Report
import StructPadding.Package.Resolve

/-!
# Analysis

All struct literals of a package are resolved in order and judged. A struct that depends on unknown names is
skipped with a warning; one whose source is wrong becomes a problem.
-/

namespace StructPadding

structure Analysis where
  reports : List Report
  /-- Problems with the number of the file they are found in. -/
  problems : List (Nat × Problem)
  log : List LogLine

namespace Analysis

def resolvedLine (entry : String × Shape) : LogLine :=
  ⟨.debug, .resolution, s!"resolved {entry.1} to {entry.2.describe}"⟩

def skippedLine (site : Site) (name : String) : LogLine :=
  ⟨.warn, .analysis, s!"skipping {site.describe}: cannot resolve type {name}"⟩

def packageLine (files : List SourceFile) (sites : List Site) : List LogLine :=
  match files.head? with
  | none => []
  | some f =>
    [⟨.debug, .analysis,
      s!"package {f.package}: {files.length} files, {sites.length} struct types"⟩]

/-- Add the outcome of a site. -/
def addSite (scope : Scope) (m : Machine) (suggest : Bool) (state : Resolver × Analysis) (site : Site) :
    Resolver × Analysis :=
  let (r, a) := state
  match Resolver.struct scope m site r with
  | .ok fields next =>
    (next, { a with
      reports := a.reports ++ (Report.ofSite? m suggest site fields).toList
      log := a.log ++ news r next })
  | .error (.unknown name _) next => (next, { a with log := a.log ++ news r next ++ [skippedLine site name] })
  | .error (.invalid p) next =>
    (next, { a with problems := a.problems ++ [(site.file, p)], log := a.log ++ news r next })
where
  /-- What has been resolved between two states. -/
  news (before after : Resolver) : List LogLine := (after.known.drop before.known.length).map resolvedLine

/-- Analyze the files of one package. -/
def ofPackage (m : Machine) (suggest : Bool) (files : List SourceFile) : Analysis :=
  let built := Scope.build files
  let sites := Site.collect files
  let start : Analysis := ⟨[], built.problems, packageLine files sites⟩
  (sites.foldl (addSite built.scope m suggest) (.fresh, start)).2

end Analysis

end StructPadding
