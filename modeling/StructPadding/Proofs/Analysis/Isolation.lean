-- SUMMARY: Each struct literal of a package is judged on its own, unless a type is taken for recursive by mistake.
import StructPadding.Proofs.Analysis.Rearranged
import StructPadding.Proofs.Package.Lockstep

/-!
# Isolation

The struct literals of a package are resolved one after the other by one resolver. Each of them has the outcome that it
has on its own, except where a fresh resolver calls a type recursive that is not: there it depends on what has been
resolved before. The reports and problems of a package without such false alarms are those of its struct literals, and
so they stay the same, but for their places, if the declarations of the package are rearranged.
-/

namespace StructPadding

/-- The report without its place. -/
def Report.unplaced (r : Report) : Report := { r with span := default }

namespace Analysis

/-! ## The outcome of a site -/

/-- The report on a site that has been resolved. -/
def reportOf (m : Machine) (suggest : Bool) (s : Site) : Except Unresolved (List Field) → Option Report
  | .ok fields => Report.ofSite? m suggest s fields
  | .error _ => none

/-- The problem of a site that has not been resolved because its source is wrong. -/
def problemOf (s : Site) : Except Unresolved (List Field) → Option (Nat × Problem)
  | .error (.invalid p) => some (s.file, p)
  | _ => none

section

variable {scope : Scope} {m : Machine} {suggest : Bool}

theorem addSite_fst (r : Resolver) (a : Analysis) (s : Site) :
    (addSite scope m suggest (r, a) s).1 = r.next scope m s := by
  simp only [addSite, Resolver.next]
  split <;> simp_all

theorem reports_addSite (r : Resolver) (a : Analysis) (s : Site) :
    (addSite scope m suggest (r, a) s).2.reports =
      a.reports ++ (reportOf m suggest s (r.outcome scope m s)).toList := by
  simp only [addSite, Resolver.outcome]
  split <;> simp_all [reportOf]

theorem problems_addSite (r : Resolver) (a : Analysis) (s : Site) :
    (addSite scope m suggest (r, a) s).2.problems = a.problems ++ (problemOf s (r.outcome scope m s)).toList := by
  simp only [addSite, Resolver.outcome]
  split <;> simp_all [problemOf]

/-- Every site adds to an analysis what is seen of its outcome, where that does not depend on the calls before. -/
theorem foldl_addSite {β γ : Type} (seen : Report → β) (told : Nat × Problem → γ) {reports : Site → Option β}
    {problems : Site → Option γ} {sites : List Site}
    (h : ∀ calls, ∀ s ∈ sites,
      (reportOf m suggest s ((Resolver.after scope m calls).outcome scope m s)).map seen = reports s ∧
        (problemOf s ((Resolver.after scope m calls).outcome scope m s)).map told = problems s)
    (calls : List Site) (a : Analysis) :
    (sites.foldl (addSite scope m suggest) (.after scope m calls, a)).2.reports.map seen =
        a.reports.map seen ++ sites.filterMap reports ∧
      (sites.foldl (addSite scope m suggest) (.after scope m calls, a)).2.problems.map told =
        a.problems.map told ++ sites.filterMap problems := by
  induction sites generalizing calls a with
  | nil => simp
  | cons s rest ih =>
    obtain ⟨hreport, hproblem⟩ := h calls s (List.mem_cons_self ..)
    have hafter : (Resolver.after scope m calls).next scope m s = .after scope m (calls ++ [s]) := by
      simp [Resolver.after]
    have hrest := ih (fun calls s hs => h calls s (List.mem_cons_of_mem _ hs)) (calls ++ [s])
      (addSite scope m suggest (.after scope m calls, a) s).2
    have hfst : (addSite scope m suggest (.after scope m calls, a) s).1 = .after scope m (calls ++ [s]) :=
      (addSite_fst ..).trans hafter
    rw [reports_addSite, problems_addSite, ← hfst] at hrest
    have hcons {δ : Type} (f : Site → Option δ) : (s :: rest).filterMap f = (f s).toList ++ rest.filterMap f := by
      rw [List.filterMap_cons]
      cases f s <;> rfl
    simp only [List.foldl_cons, hrest, hcons, List.map_append, List.append_assoc, ← hreport, ← hproblem,
      Option.toList_map, and_self]

section

variable {files : List SourceFile}

/-- An analysis lists what each site has on its own, where that does not depend on the calls before. -/
theorem ofPackage_eq
    (h : ∀ calls, ∀ s ∈ Site.collect files,
      (Resolver.after (Scope.build files).scope m calls).outcome (Scope.build files).scope m s =
        Resolver.fresh.outcome (Scope.build files).scope m s) :
    (ofPackage m suggest files).reports = (Site.collect files).filterMap
        (fun s => reportOf m suggest s (Resolver.fresh.outcome (Scope.build files).scope m s)) ∧
      (ofPackage m suggest files).problems = (Scope.build files).problems ++ (Site.collect files).filterMap
        (fun s => problemOf s (Resolver.fresh.outcome (Scope.build files).scope m s)) := by
  have hfold := foldl_addSite id id
    (fun calls s hs => ⟨congrArg _ (congrArg (reportOf m suggest s) (h calls s hs)),
      congrArg _ (congrArg (problemOf s) (h calls s hs))⟩) []
    ⟨[], (Scope.build files).problems, packageLine files (Site.collect files)⟩
  simp only [List.map_id, List.nil_append, Option.map_id] at hfold
  exact hfold

/-! ## Places -/

theorem reportOf_unplaced (s : Site) (outcome : Except Unresolved (List Field)) :
    reportOf m suggest s.unplaced (outcome.mapError Unresolved.unplaced) =
      (reportOf m suggest s outcome).map Report.unplaced := by
  obtain ⟨file, name, params, isLocal, ⟨fields, keyword, span⟩⟩ := s
  cases outcome with
  | error e => rfl
  | ok resolved =>
    simp only [Except.mapError, reportOf, Report.ofSite?, Option.map_map]
    rfl

theorem problemOf_unplaced (s : Site) (outcome : Except Unresolved (List Field)) :
    problemOf s.unplaced (outcome.mapError Unresolved.unplaced) =
      (problemOf s outcome).map (Prod.map id Problem.unplaced) := by
  rcases outcome with (⟨name, span⟩ | p) | fields <;> rfl

/-- Without places, an analysis lists what its sites have without places. -/
theorem ofPackage_unplaced {bare : Scope} (hbare : bare.IsUnplacedOf (Scope.build files).scope)
    (h : ∀ calls : List Site, ∀ s ∈ (Site.collect files).map Site.unplaced,
      (Resolver.after bare m (calls.map Site.unplaced)).outcome bare m s = Resolver.fresh.outcome bare m s) :
    (ofPackage m suggest files).reports.map Report.unplaced =
        ((Site.collect files).map Site.unplaced).filterMap
          (fun s => reportOf m suggest s (Resolver.fresh.outcome bare m s)) ∧
      (ofPackage m suggest files).problems.map (Prod.map id Problem.unplaced) =
        (Scope.build files).problems.map (Prod.map id Problem.unplaced) ++
          ((Site.collect files).map Site.unplaced).filterMap
            (fun s => problemOf s (Resolver.fresh.outcome bare m s)) := by
  rw [List.filterMap_map, List.filterMap_map]
  refine foldl_addSite Report.unplaced (Prod.map id Problem.unplaced) (fun calls s hs => ?_) []
    ⟨[], (Scope.build files).problems, packageLine files (Site.collect files)⟩
  have houtcome := h calls s.unplaced (List.mem_map_of_mem hs)
  rw [Resolver.after_unplaced hbare, Resolver.outcome_unplaced hbare] at houtcome
  rw [← reportOf_unplaced, ← problemOf_unplaced, houtcome]
  exact ⟨rfl, rfl⟩

/-- Two arrangements of a package are compared without places, by the scope and the sites that both have then. -/
theorem ofPackage_perm {files' : List SourceFile} (hfiles : List.Forall₂ SourceFile.Rearranged files files')
    (hnames : Scope.Unambiguous files)
    (h : ∀ calls, ∀ s ∈ Site.collect files,
      (Resolver.after (Scope.build files).scope m calls).outcome (Scope.build files).scope m s =
        Resolver.fresh.outcome (Scope.build files).scope m s) :
    ((ofPackage m suggest files').reports.map Report.unplaced).Perm
        ((ofPackage m suggest files).reports.map Report.unplaced) ∧
      ((ofPackage m suggest files').problems.map (Prod.map id Problem.unplaced)).Perm
        ((ofPackage m suggest files).problems.map (Prod.map id Problem.unplaced)) := by
  have hbare := (Scope.build files).scope.isUnplacedOf_unplaced
  have hsites := Site.collect_perm hfiles
  have hfresh : ∀ calls : List Site, ∀ s ∈ (Site.collect files).map Site.unplaced,
      (Resolver.after (Scope.build files).scope.unplaced m (calls.map Site.unplaced)).outcome
          (Scope.build files).scope.unplaced m s =
        Resolver.fresh.outcome (Scope.build files).scope.unplaced m s := by
    intro calls _ hmem
    obtain ⟨s, hs, rfl⟩ := List.mem_map.1 hmem
    rw [Resolver.after_unplaced hbare, Resolver.outcome_unplaced hbare, Resolver.outcome_unplaced hbare, h calls s hs]
  obtain ⟨hreports, hproblems⟩ := ofPackage_unplaced hbare hfresh
  obtain ⟨hreports', hproblems'⟩ := ofPackage_unplaced (Scope.isUnplacedOf_rearranged hfiles hnames)
    fun calls s hs => hfresh calls s (hsites.subset hs)
  obtain ⟨hnone, hnone'⟩ := Scope.problems_rearranged hfiles hnames
  rw [hreports, hreports', hproblems, hproblems', hnone, hnone']
  exact ⟨hsites.filterMap _, hsites.filterMap _⟩

end

end

end Analysis

/-- A struct literal has the outcome that it has on its own, whatever was resolved before, unless that is a false alarm.
    Without false alarms, the reports and problems of a package are those that its struct literals have on their own.
    If its declarations have names of their own, they can be put at other places and into another order: a struct
    literal keeps its outcome, and without false alarms the package keeps its reports and problems. -/
theorem outcome_isolated (files : List SourceFile) (m : Machine) :
    (∀ (calls : List Site) (s : Site),
      (Resolver.after (Scope.build files).scope m calls).outcome (Scope.build files).scope m s =
          Resolver.fresh.outcome (Scope.build files).scope m s ∨
        ∃ e, Resolver.fresh.outcome (Scope.build files).scope m s = .error e ∧
          Resolver.FalseAlarm (Scope.build files).scope (s.Namesake (Scope.build files).scope) e) ∧
    (∀ files', List.Forall₂ SourceFile.Rearranged files files' → Scope.Unambiguous files →
      ∀ s s' : Site, s'.unplaced = s.unplaced →
        (Resolver.fresh.outcome (Scope.build files').scope m s').mapError Unresolved.unplaced =
          (Resolver.fresh.outcome (Scope.build files).scope m s).mapError Unresolved.unplaced) ∧
    ∀ suggest, (∀ s ∈ Site.collect files, ∀ e, Resolver.fresh.outcome (Scope.build files).scope m s = .error e →
        ¬ Resolver.FalseAlarm (Scope.build files).scope (s.Namesake (Scope.build files).scope) e) →
      (Analysis.ofPackage m suggest files).reports = (Site.collect files).filterMap (fun s =>
          Analysis.reportOf m suggest s (Resolver.fresh.outcome (Scope.build files).scope m s)) ∧
        (Analysis.ofPackage m suggest files).problems = (Scope.build files).problems ++
          (Site.collect files).filterMap (fun s =>
            Analysis.problemOf s (Resolver.fresh.outcome (Scope.build files).scope m s)) ∧
        ∀ files', List.Forall₂ SourceFile.Rearranged files files' → Scope.Unambiguous files →
          ((Analysis.ofPackage m suggest files').reports.map Report.unplaced).Perm
              ((Analysis.ofPackage m suggest files).reports.map Report.unplaced) ∧
            ((Analysis.ofPackage m suggest files').problems.map (Prod.map id Problem.unplaced)).Perm
              ((Analysis.ofPackage m suggest files).problems.map (Prod.map id Problem.unplaced)) := by
  have hscope := (Scope.build_declaredIn files).scope
  refine ⟨fun calls s => Resolver.outcome_after_eq hscope calls s, ?_, fun suggest hcalm => ?_⟩
  · intro files' hfiles hnames s s' hsame
    rw [← Resolver.outcome_unplaced (Scope.isUnplacedOf_rearranged hfiles hnames),
      ← Resolver.outcome_unplaced (Scope.build files).scope.isUnplacedOf_unplaced, hsame]
  · have hfresh : ∀ calls, ∀ s ∈ Site.collect files,
        (Resolver.after (Scope.build files).scope m calls).outcome (Scope.build files).scope m s =
          Resolver.fresh.outcome (Scope.build files).scope m s := fun calls s hs =>
      (Resolver.outcome_after_eq hscope calls s).resolve_right fun ⟨e, he, halarm⟩ => hcalm s hs e he halarm
    obtain ⟨hreports, hproblems⟩ := Analysis.ofPackage_eq hfresh
    exact ⟨hreports, hproblems, fun files' hfiles hnames => Analysis.ofPackage_perm hfiles hnames hfresh⟩

/-- A type with a parameter, declared at a place. -/
def cellAt (n : Nat) : TypeDecl :=
  ⟨"G", ["T"], false,
    .struct ⟨[⟨["v"], .named none "T" [] ⟨n + 20, n + 21⟩, none, ⟨n + 18, n + 21⟩⟩,
        ⟨["f"], .named none "bool" [] ⟨n + 25, n + 29⟩, none, ⟨n + 23, n + 29⟩⟩],
      ⟨n + 9, n + 15⟩, ⟨n + 9, n + 31⟩⟩,
    ⟨n, n + 31⟩⟩

/-- A struct that uses it. -/
def userAt (n : Nat) : TypeDecl :=
  ⟨"A", [], false,
    .struct ⟨[⟨["b"], .named none "bool" [] ⟨n + 13, n + 17⟩, none, ⟨n + 11, n + 17⟩⟩,
        ⟨["x"], .named none "G" [.named none "int64" [] ⟨n + 23, n + 28⟩] ⟨n + 21, n + 29⟩, none, ⟨n + 19, n + 29⟩⟩],
      ⟨n + 2, n + 8⟩, ⟨n + 2, n + 31⟩⟩,
    ⟨n, n + 31⟩⟩

/-- A struct that uses that one. -/
def outerAt (n : Nat) : TypeDecl :=
  ⟨"S", [], false,
    .struct ⟨[⟨["y"], .named none "A" [] ⟨n + 13, n + 14⟩, none, ⟨n + 11, n + 14⟩⟩,
        ⟨["b"], .named none "bool" [] ⟨n + 18, n + 22⟩, none, ⟨n + 16, n + 22⟩⟩],
      ⟨n + 2, n + 8⟩, ⟨n + 2, n + 24⟩⟩,
    ⟨n, n + 24⟩⟩

/-- A file that declares each type in front of its uses. -/
def risingFile : SourceFile where
  package := "p"
  imports := []
  types := [cellAt 15, userAt 52, outerAt 89]
  consts := []
  locals := []
  span := ⟨0, 114⟩

/-- The same types, the other way round. -/
def fallingFile : SourceFile := { risingFile with types := [outerAt 15, userAt 45, cellAt 82] }

theorem outcome_isolated_rearranged :
    List.Forall₂ SourceFile.Rearranged [risingFile] [fallingFile] ∧ Scope.Unambiguous [risingFile] ∧
      (∀ s ∈ Site.collect [risingFile], ∀ e,
        Resolver.fresh.outcome (Scope.build [risingFile]).scope .amd64 s = .error e →
          ¬ Resolver.FalseAlarm (Scope.build [risingFile]).scope (s.Namesake (Scope.build [risingFile]).scope) e) ∧
      (Analysis.ofPackage .amd64 true [risingFile]).reports.map (·.name) = [some "G", some "A", some "S"] ∧
      ((Analysis.ofPackage .amd64 true [fallingFile]).reports.map Report.unplaced).Perm
        ((Analysis.ofPackage .amd64 true [risingFile]).reports.map Report.unplaced) := by
  have hfiles : List.Forall₂ SourceFile.Rearranged [risingFile] [fallingFile] :=
    .cons ⟨rfl, List.reverse_perm (risingFile.types.map TypeDecl.unplaced), .refl _, .refl _⟩ .nil
  have hnames : Scope.Unambiguous [risingFile] := by decide
  have hsites : Site.collect [risingFile] = Site.declared 0 risingFile := by
    simp only [Site.collect, List.zipIdx_cons, List.zipIdx_nil, List.flatMap_cons, List.flatMap_nil, List.append_nil]
    exact Site.ofFile_eq_declared (by decide)
  have hok : ∀ s ∈ Site.declared 0 risingFile,
      (Resolver.fresh.outcome (Scope.build [risingFile]).scope .amd64 s).isOk := by decide +kernel
  have hcalm : ∀ s ∈ Site.collect [risingFile], ∀ e,
      Resolver.fresh.outcome (Scope.build [risingFile]).scope .amd64 s = .error e →
        ¬ Resolver.FalseAlarm (Scope.build [risingFile]).scope (s.Namesake (Scope.build [risingFile]).scope) e := by
    intro s hs e herror
    have hs := hok s (hsites ▸ hs)
    rw [herror] at hs
    cases hs
  obtain ⟨hreports, -, hperm⟩ := (outcome_isolated [risingFile] .amd64).2.2 true hcalm
  refine ⟨hfiles, hnames, hcalm, ?_, (hperm [fallingFile] hfiles hnames).1⟩
  rw [hreports, hsites]
  decide +kernel

/-- A struct that uses a type with a parameter for a struct that uses it, too. -/
def chainedSite : Site :=
  ⟨0, some "S", [], false,
    ⟨[⟨["y"], .named none "G" [.named none "A" [] ⟨83, 84⟩] ⟨81, 85⟩, none, ⟨79, 85⟩⟩], ⟨71, 77⟩, ⟨71, 87⟩⟩⟩

/-- A struct that holds the other user of the type. -/
def holderSite : Site :=
  ⟨0, some "B", [], false, ⟨[⟨["a"], .named none "A" [] ⟨105, 106⟩, none, ⟨103, 106⟩⟩], ⟨95, 101⟩, ⟨95, 108⟩⟩⟩

/-- A file that declares all of them. -/
def chainedFile : SourceFile where
  package := "p"
  imports := []
  types := [
    boxDecl,
    ⟨"A", [], false,
      .struct ⟨[⟨["x"], .named none "G" [.named none "int" [] ⟨57, 60⟩] ⟨55, 61⟩, none, ⟨53, 61⟩⟩], ⟨45, 51⟩,
        ⟨45, 63⟩⟩, ⟨43, 63⟩⟩,
    ⟨"S", [], false, .struct chainedSite.type, ⟨69, 87⟩⟩,
    ⟨"B", [], false, .struct holderSite.type, ⟨93, 108⟩⟩]
  consts := []
  locals := []
  span := ⟨0, 109⟩

/-- The outcome of a struct literal may depend on what was resolved before. -/
theorem not_all_outcome_isolated :
    ¬ ∀ (files : List SourceFile) (m : Machine) (calls : List Site) (s : Site), s ∈ Site.collect files →
      (∀ c ∈ calls, c ∈ Site.collect files) →
      (Resolver.after (Scope.build files).scope m calls).outcome (Scope.build files).scope m s =
        Resolver.fresh.outcome (Scope.build files).scope m s := by
  intro hall
  have hsites : chainedSite ∈ Site.collect [chainedFile] ∧ holderSite ∈ Site.collect [chainedFile] := by
    simp [Site.collect, Site.ofFile, Site.ofTypeDecl, chainedFile, chainedSite, holderSite]
  have hfresh : Resolver.fresh.outcome (Scope.build [chainedFile]).scope .amd64 chainedSite =
      .error (.invalid ⟨.recursiveType "G", ⟨55, 61⟩⟩) := by decide +kernel
  have hafter : ((Resolver.after (Scope.build [chainedFile]).scope .amd64 [holderSite]).outcome
      (Scope.build [chainedFile]).scope .amd64 chainedSite).isOk := by decide +kernel
  have heq := hall [chainedFile] .amd64 [holderSite] chainedSite hsites.1 (by simpa using hsites.2)
  rw [heq, hfresh] at hafter
  cases hafter

end StructPadding
