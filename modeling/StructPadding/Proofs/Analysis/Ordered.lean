-- SUMMARY: The reports of a package go up in file and place, and each is at the keyword of a struct literal.
import StructPadding.Proofs.Analysis.Isolation
import StructPadding.Proofs.Package.Declared
import StructPadding.Proofs.Parse.Literals

/-!
# Order of reports

An analysis goes through the struct literals of a package file by file, in the order of their places, and reports on some
of them. So its reports are in order as well, and no two of them are at the same place.
-/

namespace StructPadding

/-! ## Sites -/

namespace Site

theorem file_of_mem_ofFile {i : Nat} {f : SourceFile} {s : Site} (h : s ∈ ofFile i f) : s.file = i := by
  rcases List.mem_append.1 (List.mem_mergeSort.1 h) with h | h
  · obtain ⟨d, -, h⟩ := List.mem_flatMap.1 h
    exact (part_of_mem_ofTypeDecl h).1
  · obtain ⟨l, -, h⟩ := List.mem_flatMap.1 h
    rcases List.mem_cons.1 h with rfl | h
    · rfl
    · obtain ⟨st, -, rfl⟩ := List.mem_map.1 h
      rfl

theorem mem_ofFile_of_mem_collect {files : List SourceFile} {s : Site} (h : s ∈ collect files) :
    ∃ f, files[s.file]? = some f ∧ s ∈ ofFile s.file f := by
  obtain ⟨⟨f, i⟩, hf, hs⟩ := List.mem_flatMap.1 h
  obtain rfl : s.file = i := file_of_mem_ofFile hs
  exact ⟨f, List.mem_zipIdx_iff_getElem?.1 hf, hs⟩

/-- The sites of parsed files go up in file and place. -/
theorem pairwise_collect {files : List SourceFile} (h : ∀ f ∈ files, ∃ source, SourceFile.parse source = .ok f) :
    (collect files).Pairwise fun a b =>
      a.file < b.file ∨ a.file = b.file ∧ a.type.keyword.start < b.type.keyword.start := by
  refine List.pairwise_flatMap.2 ⟨fun ⟨f, i⟩ hf => ?_, ?_⟩
  · obtain ⟨source, hsource⟩ := h f (List.fst_mem_of_mem_zipIdx hf)
    refine (pairwise_ofFile hsource i).imp_of_mem fun ha hb hlt => .inr ⟨?_, hlt⟩
    rw [file_of_mem_ofFile ha, file_of_mem_ofFile hb]
  · have hnumbers : files.zipIdx.Pairwise fun a b => a.2 < b.2 :=
      List.pairwise_map.1 (List.zipIdx_map_snd 0 files ▸ List.pairwise_lt_range')
    refine hnumbers.imp fun hlt a ha b hb => .inl ?_
    rwa [file_of_mem_ofFile ha, file_of_mem_ofFile hb]

end Site

/-! ## Reports -/

/-- Whether a report is of an earlier file than another one, or of an earlier place in the same file. -/
def Report.Before (a b : Report) : Prop := a.file < b.file ∨ a.file = b.file ∧ a.span.start < b.span.start

namespace Analysis

/-- Each report is on a struct literal of its own, in order. -/
theorem reports_sublist_collect (m : Machine) (suggest : Bool) (files : List SourceFile) :
    ((ofPackage m suggest files).reports.map fun r => (r.file, r.span)).Sublist
      ((Site.collect files).map fun s => (s.file, s.type.keyword)) := by
  have hsites (scope : Scope) (sites : List Site) (r : Resolver) (a : Analysis) :
      ∃ rs, (sites.foldl (addSite scope m suggest) (r, a)).2.reports = a.reports ++ rs ∧
        (rs.map fun r => (r.file, r.span)).Sublist (sites.map fun s => (s.file, s.type.keyword)) := by
    induction sites generalizing r a with
    | nil => exact ⟨[], by simp, .refl _⟩
    | cons s rest ih =>
      obtain ⟨rs, hrs, hsublist⟩ := ih (addSite scope m suggest (r, a) s).1 (addSite scope m suggest (r, a) s).2
      refine ⟨(reportOf m suggest s (r.outcome scope m s)).toList ++ rs, ?_, ?_⟩
      · rw [List.foldl_cons, hrs, reports_addSite, List.append_assoc]
      · have hreport : ((reportOf m suggest s (r.outcome scope m s)).toList.map fun r => (r.file, r.span)).Sublist
            [(s.file, s.type.keyword)] := by
          cases r.outcome scope m s with
          | error e => exact List.nil_sublist _
          | ok fields => cases h : Finding.ofFields? m fields <;> simp [reportOf, Report.ofSite?, h]
        rw [List.map_append]
        exact hreport.append hsublist
  obtain ⟨rs, hrs, hsublist⟩ := hsites (Scope.build files).scope (Site.collect files) .fresh
    ⟨[], (Scope.build files).problems, packageLine files (Site.collect files)⟩
  rw [ofPackage, hrs]
  exact hsublist

variable {m : Machine} {suggest : Bool} {files : List SourceFile}

theorem pairwise_reports (h : ∀ f ∈ files, ∃ source, SourceFile.parse source = .ok f) :
    (ofPackage m suggest files).reports.Pairwise Report.Before := by
  have hplaces := (List.pairwise_map (f := fun s : Site => (s.file, s.type.keyword))
    (R := fun a b => a.1 < b.1 ∨ a.1 = b.1 ∧ a.2.start < b.2.start)).2 (Site.pairwise_collect h)
  have hreports := hplaces.sublist (reports_sublist_collect m suggest files)
  rw [List.pairwise_map] at hreports
  exact hreports

/-- A report is on a struct literal of its file. -/
theorem site_of_mem_reports {r : Report} (h : r ∈ (ofPackage m suggest files).reports) :
    ∃ f s, files[r.file]? = some f ∧ s ∈ Site.ofFile r.file f ∧ r.span = s.type.keyword := by
  have hplace := (reports_sublist_collect m suggest files).subset (List.mem_map_of_mem h)
  obtain ⟨s, hs, heq⟩ := List.mem_map.1 hplace
  obtain ⟨hfile, hspan⟩ := Prod.mk.inj heq
  obtain ⟨f, hf, hsf⟩ := Site.mem_ofFile_of_mem_collect hs
  exact ⟨f, s, hfile ▸ hf, hfile ▸ hsf, hspan.symm⟩

end Analysis

end StructPadding
