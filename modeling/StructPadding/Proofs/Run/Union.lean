-- SUMMARY: A run has what the analyses of its packages have, under the right paths, and nothing else.
import StructPadding.Proofs.Analysis.Attribution
import StructPadding.Proofs.Run.Findings

/-!
# Union

The reports of a run are those of its packages, and its problems are those of the files that cannot be parsed and those of
its packages. A report is the same whether its file is counted among the files of the package or among those of the run,
if the path of the file stands in place of its number. So what a run reports on a package depends on the files of that
package alone.
-/

namespace StructPadding

/-! ## Paths for numbers -/

/-- A report with the path of its file in place of its number. -/
def Report.located (paths : List Path) (r : Report) : Option Path × Report := (paths[r.file]?, { r with file := 0 })

namespace Run

/-- The reports of a run, with paths. -/
def located (run : Run) : List (Option Path × Report) := run.reports.map (·.located (run.files.map (·.path)))

/-- The reports of a run on some of its files. -/
def reportsOn (run : Run) (paths : List Path) : List (Option Path × Report) :=
  run.located.filter fun e => e.1 ∈ paths.map some

/-- What is found in a package, with files counted as in the package. -/
def analysis (o : LintOptions) (g : List Member) : Analysis :=
  Analysis.ofPackage o.machine o.suggest (g.map (·.file))

variable {o : LintOptions} {files : List SourceText}

/-! ## One package -/

section

variable {g : List Member} (hg : g.Sublist (members o files))
include hg

/-- A report has the same path among the files of the package as among those of the run. -/
theorem located_analyzePackage :
    (analyzePackage o g).reports.map (·.located (files.map (·.path))) =
      (analysis o g).reports.map (·.located (g.map (·.path))) := by
  simp only [analyzePackage, List.map_map]
  refine List.map_congr_left fun r hr => ?_
  obtain ⟨m, -, hm, -⟩ := member_of_mem_reports hr
  obtain ⟨f, hf, hpath, -⟩ := source_of_mem_members (hg.subset (List.mem_of_getElem? hm))
  simp [Report.located, hm, hf, hpath]

omit hg in
/-- A problem of a package is listed under the number that its file has in the run. -/
theorem problems_analyzePackage :
    (analyzePackage o g).problems.map (fun e => (some e.1, e.2)) =
      (analysis o g).problems.map fun e => (g[e.1]?.map (·.index), e.2) := by
  simp only [analyzePackage, List.map_map]
  refine List.map_congr_left fun e he => ?_
  have hlt : e.1 < g.length := by
    rw [Analysis.problems_ofPackage] at he
    obtain ⟨b, hb, rfl⟩ := List.mem_map.1 he
    simpa [Blame.entry] using (Analysis.blames_ariseIn _ _ b hb).2
  simp [hlt]

end

/-! ## All packages -/

/-- Of lists that are told apart by a test, it picks out the one that passes. -/
theorem filter_flatMap_of_nodup {α κ : Type} {ks : List κ} (hnodup : ks.Nodup) {f : κ → List α} {p : α → Bool} {k : κ}
    (hp : ∀ k' ∈ ks, ∀ a ∈ f k', p a = true ↔ k' = k) (hk : k ∉ ks → f k = []) : (ks.flatMap f).filter p = f k := by
  induction ks with
  | nil => simpa using (hk List.not_mem_nil).symm
  | cons k' ks ih =>
    obtain ⟨hmem, hnodup⟩ := List.nodup_cons.1 hnodup
    rw [List.flatMap_cons, List.filter_append]
    by_cases heq : k' = k
    · subst heq
      have hfirst : (f k').filter p = f k' :=
        List.filter_eq_self.2 fun a ha => (hp k' (List.mem_cons_self ..) a ha).2 rfl
      have hrest : (ks.flatMap f).filter p = [] := List.filter_eq_nil_iff.2 fun a ha htrue => by
        obtain ⟨k, hk, hak⟩ := List.mem_flatMap.1 ha
        exact hmem ((hp k (List.mem_cons_of_mem _ hk) a hak).1 htrue ▸ hk)
      rw [hfirst, hrest, List.append_nil]
    · have hfirst : (f k').filter p = [] :=
        List.filter_eq_nil_iff.2 fun a ha htrue => heq ((hp k' (List.mem_cons_self ..) a ha).1 htrue)
      rw [hfirst, List.nil_append]
      refine ih hnodup (fun k hk => hp k (List.mem_cons_of_mem _ hk)) fun hk' => hk fun h => ?_
      rcases List.mem_cons.1 h with h | h
      · exact heq h.symm
      · exact hk' h

/-- The reports of a run on the files of a package are those of the package. -/
theorem reportsOn_package (hpaths : (files.map (·.path)).Nodup) {rs : List Report} (hrs : rs.Pairwise Report.Before)
    (hperm : rs.Perm (packageReports o files)) (k : List Component × String) :
    (rs.map (·.located (files.map (·.path)))).filter (fun e => e.1 ∈ ((package o files k).map (·.path)).map some) =
      (analysis o (package o files k)).reports.map (·.located ((package o files k).map (·.path))) := by
  obtain ⟨ks, hnodup, hmem, heq⟩ := packages_members o files
  have hpick : (packageReports o files).filter
      (fun r => (r.located (files.map (·.path))).1 ∈ ((package o files k).map (·.path)).map some) =
        (analyzePackage o (package o files k)).reports := by
    rw [packageReports, heq, List.flatMap_map]
    refine filter_flatMap_of_nodup (f := fun k => (analyzePackage o (package o files k)).reports) hnodup
      (fun k' _ r hr => ?_) fun hk => List.eq_nil_iff_forall_not_mem.2 fun r hr => hk ?_
    · obtain ⟨m, hm, hindex, -⟩ := spells_of_mem_analyzePackage (package_sublist o files k') hr
      have hmembers := (package_sublist o files k').subset hm
      obtain ⟨f, hf, hpath, -⟩ := source_of_mem_members hmembers
      have hlocated : (r.located (files.map (·.path))).1 = some m.path := by
        simp [Report.located, ← hindex, hf, hpath]
      simp only [hlocated, decide_eq_true_eq, List.mem_map, Option.some.injEq, exists_eq_right]
      constructor
      · rintro ⟨n, hn, hsame⟩
        obtain rfl := eq_of_path_eq hpaths ((package_sublist o files k).subset hn) hmembers hsame
        exact (key_of_mem_package hm).symm.trans (key_of_mem_package hn)
      · rintro rfl
        exact ⟨m, hm, rfl⟩
    · obtain ⟨m, hm, -⟩ := spells_of_mem_analyzePackage (package_sublist o files k) hr
      exact (hmem k).2 ⟨m, (package_sublist o files k).subset hm, key_of_mem_package hm⟩
  have hbefore : ∀ a b : Report, a.Before b → b.Before a → a = b := fun a b hab hba => by
    simp only [Report.Before] at hab hba
    omega
  rw [List.filter_map, ← located_analyzePackage (package_sublist o files k)]
  congr 1
  refine List.Perm.eq_of_pairwise (fun a b _ _ => hbefore a b) (hrs.filter _)
    (pairwise_analyzePackage (package_sublist o files k)) ?_
  exact hpick ▸ hperm.filter _

/-- Whether a run over paths has exactly what its files and the packages of the given keys have. -/
structure IsUnion (run : Run) (o : LintOptions) (t : FileTree) (paths : List Path)
    (ks : List (List Component × String)) : Prop where
  files : run.files = paths.filterMap (source? t)
  failures : run.failures = paths.filterMap (failure? t)
  keys_nodup : ks.Nodup
  mem_keys : ∀ k, k ∈ ks ↔ ∃ m ∈ members o run.files, m.key = k
  reports : run.located.Perm (ks.flatMap fun k =>
    let g := package o run.files k
    (analysis o g).reports.map (·.located (g.map (·.path))))
  located : ∀ e ∈ run.located, e.1.isSome
  problems : (run.problems.map fun e => (some e.1, e.2)).Perm
    ((parseProblems o run.files).map (fun e => (some e.1, e.2)) ++ ks.flatMap fun k =>
      let g := package o run.files k
      (analysis o g).problems.map fun e => (g[e.1]?.map (·.index), e.2))

theorem isUnion_ofPaths (o : LintOptions) (t : FileTree) (paths : List Path) :
    ∃ ks, (ofPaths o t paths).2.IsUnion o t paths ks := by
  obtain ⟨ks, hnodup, hmem, heq⟩ := packages_members o (paths.filterMap (source? t))
  obtain ⟨-, hperm⟩ := reports_ofPaths o t paths
  have hfiles : (ofPaths o t paths).2.files = paths.filterMap (source? t) := by rw [ofPaths_snd]
  refine ⟨ks, hfiles, by rw [ofPaths_snd], hnodup, hfiles ▸ hmem, ?_, ?_, ?_⟩
  · refine (hperm.map _).trans (.of_eq ?_)
    rw [packageReports, hfiles, heq, List.flatMap_map, List.map_flatMap]
    exact List.flatMap_congr fun k _ => located_analyzePackage (package_sublist ..)
  · intro e he
    obtain ⟨r, hr, rfl⟩ := List.mem_map.1 he
    obtain ⟨f, hf, -⟩ := spells_of_mem_packageReports (hperm.mem_iff.1 hr)
    simp [Report.located, hf]
  · have hproblems : (ofPaths o t paths).2.problems.Perm (parseProblems o (paths.filterMap (source? t)) ++
        ((packages (members o (paths.filterMap (source? t)))).map (analyzePackage o)).flatMap (·.problems)) := by
      rw [ofPaths_snd]
      exact List.mergeSort_perm ..
    refine (hproblems.map _).trans (.of_eq ?_)
    rw [List.map_append, hfiles, heq, List.map_map, List.flatMap_map, List.map_flatMap]
    exact congrArg _ (List.flatMap_congr fun k _ => problems_analyzePackage)

/-- What a run reports on a package is what is found in the package. -/
theorem reportsOn_of_lint {o : LintOptions} {t : FileTree} {patterns : List String} {run : Run}
    (h : (lint o t patterns).2 = .ok run) (k : List Component × String) :
    run.reportsOn ((package o run.files k).map (·.path)) =
      (analysis o (package o run.files k)).reports.map (·.located ((package o run.files k).map (·.path))) := by
  obtain ⟨paths, hpaths, rfl⟩ := lint_eq_ok h
  obtain ⟨hbefore, hperm⟩ := reports_ofPaths o t paths
  have hfiles : (ofPaths o t paths).2.files = paths.filterMap (source? t) := by rw [ofPaths_snd]
  have hnodup : ((ofPaths o t paths).2.files.map (·.path)).Nodup := hfiles ▸ paths_nodup (pairwise_discover hpaths)
  exact reportsOn_package hnodup hbefore hperm k

end Run

/-- What a run finds is what is found in its packages: for each folder and package clause the files that have them, in
    path order. Two runs report the same on a package that they have in common. -/
theorem lint_union {o : LintOptions} {t : FileTree} {patterns : List String} {run : Run}
    (h : (lint o t patterns).2 = .ok run) :
    (∃ paths ks, discover Run.extensions t (if patterns.isEmpty then ["."] else patterns) = .ok paths ∧
      run.IsUnion o t paths ks) ∧
    ∀ (t' : FileTree) (patterns' : List String) (run' : Run), (lint o t' patterns').2 = .ok run' →
      ∀ k, (Run.package o run'.files k).map (fun m => (m.path, m.file)) =
          (Run.package o run.files k).map (fun m => (m.path, m.file)) →
        run'.reportsOn ((Run.package o run.files k).map (·.path)) =
          run.reportsOn ((Run.package o run.files k).map (·.path)) := by
  refine ⟨?_, fun t' patterns' run' h' k hk => ?_⟩
  · obtain ⟨paths, hpaths, rfl⟩ := lint_eq_ok h
    obtain ⟨ks, hunion⟩ := Run.isUnion_ofPaths o t paths
    exact ⟨paths, ks, hpaths, hunion⟩
  · have hpath : (Run.package o run'.files k).map (·.path) = (Run.package o run.files k).map (·.path) := by
      simpa [Function.comp_def] using congrArg (List.map Prod.fst) hk
    have hfile : (Run.package o run'.files k).map (·.file) = (Run.package o run.files k).map (·.file) := by
      simpa [Function.comp_def] using congrArg (List.map Prod.snd) hk
    rw [← hpath, Run.reportsOn_of_lint h' k, hpath, Run.reportsOn_of_lint h k]
    simp only [Run.analysis, hfile]

/-- The folder with another file in it, which cannot be parsed. -/
def brokenTree : FileTree :=
  .ofWorking (paddedFolder.put "b.go" (.file (.ok "package q type"))) (by decide +kernel)

theorem discover_brokenTree : discover Run.extensions brokenTree ["."] = .ok [⟨"./a.go"⟩, ⟨"./b.go"⟩] :=
  discover_eq_ok [[⟨"./a.go"⟩, ⟨"./b.go"⟩]] (by decide +kernel) (by decide +kernel)

theorem lint_brokenTree (o : LintOptions) :
    (lint o brokenTree []).2 = .ok (Run.ofPaths o brokenTree [⟨"./a.go"⟩, ⟨"./b.go"⟩]).2 := by
  simp [lint, discover_brokenTree]

/-- The broken file leaves the package of the other one as it is. -/
theorem lint_union_broken :
    let o : LintOptions := ⟨.amd64, true, false, false⟩
    let run := (Run.ofPaths o paddedTree [⟨"./a.go"⟩]).2
    let run' := (Run.ofPaths o brokenTree [⟨"./a.go"⟩, ⟨"./b.go"⟩]).2
    (lint o paddedTree []).2 = .ok run ∧ (lint o brokenTree []).2 = .ok run' ∧
      (∃ paths ks, discover Run.extensions paddedTree ["."] = .ok paths ∧ run.IsUnion o paddedTree paths ks) ∧
      ∀ k, (Run.package o run'.files k).map (fun m => (m.path, m.file)) =
          (Run.package o run.files k).map (fun m => (m.path, m.file)) ∧
        run'.reportsOn ((Run.package o run.files k).map (·.path)) =
          run.reportsOn ((Run.package o run.files k).map (·.path)) := by
  intro o run run'
  have hunion := lint_union (lint_paddedTree o)
  refine ⟨lint_paddedTree o, lint_brokenTree o, hunion.1, fun k => ?_⟩
  have hfiles : run.files = [⟨⟨"./a.go"⟩, paddedText⟩] := files_padded o
  have hfiles' : run'.files = run.files ++ [⟨⟨"./b.go"⟩, "package q type"⟩] := by decide +kernel
  have hnone : Run.member? o (⟨⟨"./b.go"⟩, "package q type"⟩, 1) = none :=
    Option.isNone_iff_eq_none.1 (by decide +kernel)
  have hpackage : Run.package o run'.files k = Run.package o run.files k := by
    rw [Run.package, Run.package, hfiles', hfiles, Run.members, Run.members]
    simp [List.zipIdx_cons, List.filterMap_cons, hnone]
  exact ⟨by rw [hpackage], hunion.2 brokenTree [] run' (lint_brokenTree o) k (by rw [hpackage])⟩

end StructPadding
