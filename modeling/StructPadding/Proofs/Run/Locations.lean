-- SUMMARY: The lines and columns of the findings that a run writes point at the structs they are about.
import StructPadding.Proofs.Run.Findings
import StructPadding.Proofs.Source.Lines
import StructPadding.Run.Output

/-!
# Locations of findings

A finding is written with the path of a file, a line and a column. Every report of a run is at a keyword of one of its
files, so there always are a line and a column, and they point at the keyword. Different reports on one file are at
different places, and so they have different lines or columns.
-/

namespace StructPadding

/-- A word that a span spells is pointed at by the line and the column of its first byte. -/
theorem Span.Spells.pointsAt {span : Span} {source word : String} (h : span.Spells source word) :
    (Location.ofOffset (Line.ofSource source) span.start).PointsAt source span.start word := by
  obtain ⟨before, after, rfl, rfl⟩ := h
  exact Location.pointsAt_ofOffset before word after

namespace Run

theorem location?_of_getElem? {files : List SourceText} {file : Nat} {f : SourceText} (h : files[file]? = some f)
    (offset : Nat) : location? files file offset = some (.ofOffset (Line.ofSource f.text) offset) := by
  rw [location?, h]
  rfl

/-- A finding begins with the path of its file and with its line and column. -/
theorem exists_findingJson {files : List SourceText} {r : Report} {f : SourceText} {place : Location}
    (hfile : files[r.file]? = some f) (hplace : location? files r.file r.span.start = some place) :
    ∃ more, findingJson files r = .object (("file", .text f.path.text) :: ("line", .number place.line) ::
      ("column", .number place.column) :: more) := by
  simp only [findingJson, hfile, hplace]
  exact ⟨_, rfl⟩

end Run

/-- A run writes one finding for each report, in their order, and each of them has a line and a column that point at the
    keyword of its struct. No two reports on a file have the same line and column. -/
theorem lint_locations {o : LintOptions} {t : FileTree} {patterns : List String} {run : Run}
    (h : (lint o t patterns).2 = .ok run) :
    run.jsonFindings.length = run.reports.length ∧
      (∀ (i : Nat) (r : Report), run.reports[i]? = some r →
        ∃ (f : SourceText) (place : Location) (more : List (String × JsonValue)), run.files[r.file]? = some f ∧
          Run.location? run.files r.file r.span.start = some place ∧
          run.jsonFindings[i]? = some (.object (("file", .text f.path.text) :: ("line", .number place.line) ::
            ("column", .number place.column) :: more)) ∧
          1 ≤ place.line ∧ 1 ≤ place.column ∧ place.PointsAt f.text r.span.start "struct") ∧
      run.reports.Pairwise fun r s => r.file = s.file →
        Run.location? run.files r.file r.span.start ≠ Run.location? run.files s.file s.span.start := by
  obtain ⟨paths, -, rfl⟩ := lint_eq_ok h
  obtain ⟨hbefore, hperm⟩ := Run.reports_ofPaths o t paths
  generalize (Run.ofPaths o t paths).2 = run at hbefore hperm
  have hspells : ∀ r ∈ run.reports, ∃ f, run.files[r.file]? = some f ∧ r.span.Spells f.text "struct" := fun r hr =>
    Run.spells_of_mem_packageReports (hperm.mem_iff.1 hr)
  refine ⟨List.length_map .., fun i r hr => ?_, hbefore.imp_of_mem fun {r s} hr hs hlt hfile => ?_⟩
  · obtain ⟨f, hf, hstruct⟩ := hspells r (List.mem_of_getElem? hr)
    have hplace := Run.location?_of_getElem? hf r.span.start
    obtain ⟨more, hjson⟩ := Run.exists_findingJson hf hplace
    refine ⟨f, _, more, hf, hplace, ?_, ?_, ?_, hstruct.pointsAt⟩
    · rw [Run.jsonFindings, List.getElem?_map, hr, Option.map_some, hjson]
    all_goals
      obtain ⟨above, indent, rest, -, -, hline, -, hcolumn, -⟩ := hstruct.pointsAt
      omega
  · obtain ⟨f, hf, hr⟩ := hspells r hr
    obtain ⟨f', hf', hs⟩ := hspells s hs
    rw [hfile] at hf
    obtain rfl : f = f' := Option.some.inj (hf.symm.trans hf')
    intro hsame
    rw [hfile, Run.location?_of_getElem? hf, Run.location?_of_getElem? hf] at hsame
    have hstart := hr.pointsAt.offset_unique (Option.some.inj hsame ▸ hs.pointsAt)
    rcases hlt with hlt | ⟨-, hlt⟩ <;> omega

theorem lint_locations_padded :
    let o : LintOptions := ⟨.amd64, true, false, false⟩
    let run := (Run.ofPaths o paddedTree [⟨"./a.go"⟩]).2
    let location (r : Report) := Run.location? run.files r.file r.span.start
    (lint o paddedTree []).2 = .ok run ∧ (run.reports.map location).Perm [some ⟨2, 8⟩, some ⟨3, 7⟩] ∧
      (∀ r ∈ run.reports, ∃ f place, run.files[r.file]? = some f ∧
        location r = some place ∧ place.PointsAt f.text r.span.start "struct") ∧
      run.reports.Pairwise fun r s => r.file = s.file → location r ≠ location s := by
  intro o run location
  have hplaces : (Run.packageReports o run.files).map location = [some ⟨2, 8⟩, some ⟨3, 7⟩] := by
    have hfiles : run.files = [⟨⟨"./a.go"⟩, paddedText⟩] := files_padded o
    have hlocations := congrArg (List.map fun e : Nat × Nat => Run.location? run.files e.1 e.2) packageReports_padded
    have htwo : [(0, 17), (0, 49)].map (fun e : Nat × Nat => Run.location? run.files e.1 e.2) =
        [some ⟨2, 8⟩, some ⟨3, 7⟩] := by
      rw [hfiles]
      decide +kernel
    rw [htwo, List.map_map, ← hfiles] at hlocations
    exact hlocations
  obtain ⟨-, hfindings, hdistinct⟩ := lint_locations (lint_paddedTree o)
  refine ⟨lint_paddedTree o, hplaces ▸ (Run.reports_ofPaths o paddedTree _).2.map location, fun r hr => ?_, hdistinct⟩
  obtain ⟨i, hi⟩ := List.getElem?_of_mem hr
  obtain ⟨f, place, -, hf, hplace, -, -, -, hpoints⟩ := hfindings i r hi
  exact ⟨f, place, hf, hplace, hpoints⟩

end StructPadding
