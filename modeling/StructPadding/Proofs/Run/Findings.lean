-- SUMMARY: The reports of a run are at distinct keywords of its files, in order, and none is removed as a repetition.
import StructPadding.Proofs.Analysis.Ordered
import StructPadding.Proofs.Run.Grouping

/-!
# Findings

The reports of a package go up in file and place, and so they do when its files are counted as in the run. Packages share
no files, so no two reports of a run are at the same place. Sorting puts them in order, and there is nothing to remove.
-/

namespace StructPadding

open Std

namespace Run

variable {o : LintOptions} {files : List SourceText}

/-! ## Reports of packages -/

section

variable {g : List Member} (hg : g.Sublist (members o files))
include hg

theorem parsed_of_mem_files {f : SourceFile} (h : f ∈ g.map (·.file)) : ∃ source, SourceFile.parse source = .ok f := by
  obtain ⟨m, hm, rfl⟩ := List.mem_map.1 h
  obtain ⟨f, -, -, hparse⟩ := source_of_mem_members (hg.subset hm)
  exact ⟨f.text, parse_of_parseFile hparse⟩

omit hg in
/-- A report of a package is of one of its files, which has its number in the run. -/
theorem member_of_mem_reports {r : Report} (h : r ∈ (Analysis.ofPackage o.machine o.suggest (g.map (·.file))).reports) :
    ∃ m s, g[r.file]? = some m ∧ s ∈ Site.ofFile r.file m.file ∧ r.span = s.type.keyword := by
  obtain ⟨f, s, hf, hs, hspan⟩ := Analysis.site_of_mem_reports h
  rw [List.getElem?_map, Option.map_eq_some_iff] at hf
  obtain ⟨m, hm, rfl⟩ := hf
  exact ⟨m, s, hm, hs, hspan⟩

/-- The reports of a package are in order where its files are counted as in the run. -/
theorem pairwise_analyzePackage : (analyzePackage o g).reports.Pairwise Report.Before := by
  have hparsed : ∀ f ∈ g.map (·.file), ∃ source, SourceFile.parse source = .ok f := fun _ => parsed_of_mem_files hg
  have hindex := (pairwise_members o files).sublist hg
  refine List.pairwise_map.2 ((Analysis.pairwise_reports hparsed).imp_of_mem fun {a b} ha hb hlt => ?_)
  obtain ⟨m, -, hm, -, -⟩ := member_of_mem_reports ha
  obtain ⟨n, -, hn, -, -⟩ := member_of_mem_reports hb
  rcases hlt with hlt | ⟨hfile, hstart⟩
  · obtain ⟨hma, rfl⟩ := List.getElem?_eq_some_iff.1 hm
    obtain ⟨hnb, rfl⟩ := List.getElem?_eq_some_iff.1 hn
    refine .inl ?_
    simpa [hm, hn] using List.pairwise_iff_getElem.1 hindex _ _ hma hnb hlt
  · exact .inr ⟨by simp only [hfile], hstart⟩

/-- A report of a package is at the keyword of a struct literal of a file of the package. -/
theorem spells_of_mem_analyzePackage {r : Report} (h : r ∈ (analyzePackage o g).reports) :
    ∃ m ∈ g, m.index = r.file ∧ ∃ f, files[r.file]? = some f ∧ r.span.Spells f.text "struct" := by
  obtain ⟨r, hr, rfl⟩ := List.mem_map.1 h
  obtain ⟨m, s, hm, hs, hspan⟩ := member_of_mem_reports hr
  have hmg := List.mem_of_getElem? hm
  obtain ⟨f, hf, -, hparse⟩ := source_of_mem_members (hg.subset hmg)
  refine ⟨m, hmg, by simp [hm], f, by simpa [hm] using hf, ?_⟩
  exact hspan ▸ Site.spells_of_mem_ofFile (parse_of_parseFile hparse) hs

end

/-- The reports of all packages. -/
def packageReports (o : LintOptions) (files : List SourceText) : List Report :=
  (packages (members o files)).flatMap fun g => (analyzePackage o g).reports

theorem spells_of_mem_packageReports {r : Report} (h : r ∈ packageReports o files) :
    ∃ f, files[r.file]? = some f ∧ r.span.Spells f.text "struct" := by
  obtain ⟨ks, -, -, heq⟩ := packages_members o files
  obtain ⟨g, hg, hr⟩ := List.mem_flatMap.1 h
  rw [heq] at hg
  obtain ⟨k, -, rfl⟩ := List.mem_map.1 hg
  obtain ⟨-, -, -, hspells⟩ := spells_of_mem_analyzePackage (package_sublist o files k) hr
  exact hspells

/-- No two reports are at the same place of the same file. -/
theorem packageReports_distinct (o : LintOptions) (files : List SourceText) :
    (packageReports o files).Pairwise fun a b => (a.file, a.span.start) ≠ (b.file, b.span.start) := by
  obtain ⟨ks, hnodup, -, heq⟩ := packages_members o files
  rw [packageReports, heq, List.flatMap_map]
  refine List.pairwise_flatMap.2 ⟨fun k _ => ?_, hnodup.imp fun {k k'} hne a ha b hb hplace => hne ?_⟩
  · refine (pairwise_analyzePackage (package_sublist o files k)).imp fun h hplace => ?_
    obtain ⟨hfile, hstart⟩ := Prod.mk.inj hplace
    rcases h with h | h
    · omega
    · omega
  · obtain ⟨m, hm, hma, -⟩ := spells_of_mem_analyzePackage (package_sublist o files k) ha
    obtain ⟨n, hn, hnb, -⟩ := spells_of_mem_analyzePackage (package_sublist o files k') hb
    obtain rfl : m = n := eq_of_index_eq ((package_sublist ..).subset hm) ((package_sublist ..).subset hn)
      (hma.trans ((Prod.mk.inj hplace).1.trans hnb.symm))
    exact (key_of_mem_package hm).symm.trans (key_of_mem_package hn)

/-! ## Reports in order -/

/-- Reports are ordered by file and place. -/
def placeOrder (a b : Report) : Ordering := (compare a.file b.file).then (compare a.span.start b.span.start)

instance : TransCmp placeOrder :=
  inferInstanceAs (TransCmp (compareLex (compareOn Report.file) (compareOn (·.span.start))))

theorem before_or_eq_of_isLE {a b : Report} (h : (placeOrder a b).isLE) :
    a.Before b ∨ (a.file, a.span.start) = (b.file, b.span.start) := by
  rw [placeOrder, Ordering.isLE_then_iff_or, Nat.compare_eq_lt, Nat.compare_eq_eq, Nat.isLE_compare] at h
  simp only [Report.Before, Prod.mk.injEq]
  omega

/-- Where no two reports are at the same place, there is none to remove. -/
theorem dedupReports_eq_self {rs : List Report} (h : rs.Pairwise Report.Before) : dedupReports rs = rs := by
  fun_induction dedupReports rs with
  | case1 => rfl
  | case2 => rfl
  | case3 r s rest hsame =>
    have hrs := (List.pairwise_cons.1 h).1 s (List.mem_cons_self ..)
    simp only [sameReport, Bool.and_eq_true, beq_iff_eq] at hsame
    simp [Report.Before, hsame.1.1, hsame.1.2] at hrs
  | case4 r s rest hne ih => rw [ih (List.pairwise_cons.1 h).2]

theorem sortReports_packageReports (o : LintOptions) (files : List SourceText) :
    (sortReports (packageReports o files)).Pairwise Report.Before ∧
      (sortReports (packageReports o files)).Perm (packageReports o files) := by
  have hperm := List.mergeSort_perm (packageReports o files) fun a b => (placeOrder a b).isLE
  have hdistinct := (hperm.pairwise_iff fun h => h.symm).2 (packageReports_distinct o files)
  have hsorted : ((packageReports o files).mergeSort fun a b => (placeOrder a b).isLE).Pairwise fun a b =>
      (placeOrder a b).isLE := pairwise_mergeSort_isLE _
  have hbefore := (hsorted.and hdistinct).imp fun h => (before_or_eq_of_isLE h.1).resolve_right h.2
  have hsort : sortReports (packageReports o files) =
      (packageReports o files).mergeSort fun a b => (placeOrder a b).isLE := dedupReports_eq_self hbefore
  rw [hsort]
  exact ⟨hbefore, hperm⟩

theorem reports_ofPaths (o : LintOptions) (t : FileTree) (paths : List Path) :
    let run := (ofPaths o t paths).2
    run.reports.Pairwise Report.Before ∧ run.reports.Perm (packageReports o run.files) := by
  have hreports (files : List SourceText) :
      ((packages (members o files)).map (analyzePackage o)).flatMap (·.reports) = packageReports o files :=
    List.flatMap_map ..
  simp only [ofPaths_snd, hreports]
  exact sortReports_packageReports o (paths.filterMap (source? t))

end Run

/-- The reports of a run are at keywords of its files, in strict order, and are all that its packages have. -/
theorem lint_reports {o : LintOptions} {t : FileTree} {patterns : List String} {run : Run}
    (h : (lint o t patterns).2 = .ok run) :
    (∀ r ∈ run.reports, ∃ f, run.files[r.file]? = some f ∧ r.span.Spells f.text "struct") ∧
      run.reports.Pairwise Report.Before ∧ run.reports.Perm (Run.packageReports o run.files) := by
  obtain ⟨paths, -, rfl⟩ := lint_eq_ok h
  obtain ⟨hbefore, hperm⟩ := Run.reports_ofPaths o t paths
  exact ⟨fun r hr => Run.spells_of_mem_packageReports (hperm.mem_iff.1 hr), hbefore, hperm⟩

/-- A file with two padded structs. -/
def paddedText : String := "package p\ntype S struct{ a bool; b int64 }\nvar x struct{ c bool; d int64 }\n"

/-- A folder with this file, and with one that is not looked at. -/
def paddedFolder : Folder :=
  ⟨none, [.named "go.mod" (.file (.ok "module p\n")), .named "a.go" (.file (.ok paddedText))]⟩

def paddedTree : FileTree := .ofWorking paddedFolder (by decide +kernel)

theorem discover_paddedTree : discover Run.extensions paddedTree ["."] = .ok [⟨"./a.go"⟩] :=
  discover_eq_ok [[⟨"./a.go"⟩]] (by decide +kernel) (by decide +kernel)

theorem lint_paddedTree (o : LintOptions) :
    (lint o paddedTree []).2 = .ok (Run.ofPaths o paddedTree [⟨"./a.go"⟩]).2 := by
  simp [lint, discover_paddedTree]

/-- The analysis of a file whose sites are declared in order. -/
def declaredAnalysis (m : Machine) (suggest : Bool) (f : SourceFile) : Analysis :=
  let built := Scope.build [f]
  let sites := Site.declared 0 f
  (sites.foldl (Analysis.addSite built.scope m suggest)
    (.fresh, ⟨[], built.problems, Analysis.packageLine [f] sites⟩)).2

theorem ofPackage_eq_declaredAnalysis {f : SourceFile} (m : Machine) (suggest : Bool)
    (h : ((Site.declared 0 f).map (·.type.keyword.start)).Pairwise (· ≤ ·)) :
    Analysis.ofPackage m suggest [f] = declaredAnalysis m suggest f := by
  simp [Analysis.ofPackage, declaredAnalysis, Site.collect, Site.ofFile_eq_declared h]

theorem paddedText_parses : ∃ f, SourceFile.parse paddedText = .ok f ∧
    (Site.declared 0 f).map (·.type.keyword.start) = [17, 49] ∧
      (declaredAnalysis .amd64 true f).reports.map (fun r => (r.file, r.span.start)) = [(0, 17), (0, 49)] := by
  have hread : (SourceFile.parse paddedText).toOption.map (fun f =>
      ((Site.declared 0 f).map (·.type.keyword.start),
        (declaredAnalysis .amd64 true f).reports.map fun r => (r.file, r.span.start))) =
      some ([17, 49], [(0, 17), (0, 49)]) := by decide +kernel
  obtain ⟨f, hf, heval⟩ := Option.map_eq_some_iff.1 hread
  have hparse : SourceFile.parse paddedText = .ok f := by
    cases h : SourceFile.parse paddedText <;> simp_all [Except.toOption]
  exact ⟨f, hparse, Prod.mk.inj heval⟩

/-- The reports on a file that is the only one of a run. -/
theorem Run.packageReports_singleton {o : LintOptions} (hdump : o.dumpTokens = false) {path : Path} {text : String}
    {f : SourceFile} (hparse : SourceFile.parse text = .ok f) :
    packageReports o [⟨path, text⟩] =
      (Analysis.ofPackage o.machine o.suggest [f]).reports := by
  have hmembers : members o [⟨path, text⟩] = [⟨0, path, f⟩] := by
    simp [members, member?, parseFile, hdump, hparse]
  have hpackages : packages [⟨0, path, f⟩] = [[⟨0, path, f⟩]] := by
    simp [packages, List.splitBy, List.splitBy.loop]
  have hindex (i : Nat) : ((([⟨0, path, f⟩] : List Member)[i]?).map (·.index)).getD i = i := by
    cases i <;> rfl
  rw [packageReports, hmembers, hpackages]
  simp [analyzePackage, hindex]

theorem files_padded (o : LintOptions) :
    (Run.ofPaths o paddedTree [⟨"./a.go"⟩]).2.files = [⟨⟨"./a.go"⟩, paddedText⟩] := by
  have hread : paddedTree.read ⟨"./a.go"⟩ = .ok paddedText := by decide +kernel
  simp [Run.ofPaths_snd, Run.source?, hread]

/-- Both structs are reported. -/
theorem packageReports_padded :
    (Run.packageReports ⟨.amd64, true, false, false⟩ [⟨⟨"./a.go"⟩, paddedText⟩]).map (fun r => (r.file, r.span.start)) =
      [(0, 17), (0, 49)] := by
  obtain ⟨f, hparse, hstarts, hreports⟩ := paddedText_parses
  have hanalysis := ofPackage_eq_declaredAnalysis .amd64 true (by
    rw [hstarts]
    decide)
  rw [Run.packageReports_singleton rfl hparse, hanalysis]
  exact hreports

theorem lint_reports_padded :
    let o : LintOptions := ⟨.amd64, true, false, false⟩
    let run := (Run.ofPaths o paddedTree [⟨"./a.go"⟩]).2
    (lint o paddedTree []).2 = .ok run ∧
      (Run.packageReports o run.files).map (fun r => (r.file, r.span.start)) = [(0, 17), (0, 49)] ∧
      (∀ r ∈ run.reports, ∃ f, run.files[r.file]? = some f ∧ r.span.Spells f.text "struct") ∧
      run.reports.Pairwise Report.Before ∧ run.reports.Perm (Run.packageReports o run.files) :=
  ⟨lint_paddedTree _, files_padded _ ▸ packageReports_padded, lint_reports (lint_paddedTree _)⟩

end StructPadding
