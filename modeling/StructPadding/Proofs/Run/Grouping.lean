-- SUMMARY: The packages of a run: for each folder and package clause the files that have them, in path order.
import Mathlib.Data.List.SplitBy
import StructPadding.Proofs.FileTree.Order
import StructPadding.Run.Lint

/-!
# Grouping

Files are grouped by sorting them and cutting the sorted list wherever the folder or the package clause changes. Sorting
keeps the order of files that agree in both, so each group is the files that have the folder and the package clause of
the group, in the order in which they came.
-/

namespace StructPadding

open Std

namespace Run

/-! ## Groups -/

section

variable {α κ : Type} [DecidableEq κ] {key : α → κ}

/-- Lists whose members have a key in common, another one for each list, are the members of their keys. -/
theorem exists_keys_of_pairwise {gs : List (List α)} (hne : ∀ g ∈ gs, g ≠ [])
    (hsame : ∀ g ∈ gs, ∀ a ∈ g, ∀ b ∈ g, key a = key b)
    (hother : gs.Pairwise fun g h => ∀ a ∈ g, ∀ b ∈ h, key a ≠ key b) :
    ∃ ks : List κ, ks.Nodup ∧ (∀ k ∈ ks, ∃ a ∈ gs.flatten, key a = k) ∧
      gs = ks.map fun k => gs.flatten.filter (key · = k) := by
  induction gs with
  | nil => exact ⟨[], .nil, by simp, rfl⟩
  | cons g gs ih =>
    obtain ⟨hg, hgs⟩ := List.pairwise_cons.1 hother
    obtain ⟨ks, hnodup, hmem, heq⟩ := ih (fun h hh => hne h (List.mem_cons_of_mem _ hh))
      (fun h hh => hsame h (List.mem_cons_of_mem _ hh)) hgs
    obtain ⟨a, ha⟩ := List.exists_mem_of_ne_nil g (hne g (List.mem_cons_self ..))
    have hag : ∀ b ∈ g, key b = key a := fun b hb => hsame g (List.mem_cons_self ..) b hb a ha
    have hrest : ∀ b ∈ gs.flatten, key b ≠ key a := fun b hb => by
      obtain ⟨h, hh, hbh⟩ := List.mem_flatten.1 hb
      exact (hg h hh a ha b hbh).symm
    refine ⟨key a :: ks, List.nodup_cons.2 ⟨fun hk => ?_, hnodup⟩, ?_, ?_⟩
    · obtain ⟨b, hb, hkey⟩ := hmem _ hk
      exact hrest b hb hkey
    · intro k hk
      rcases List.mem_cons.1 hk with rfl | hk
      · exact ⟨a, by simp [ha], rfl⟩
      · obtain ⟨b, hb, hkey⟩ := hmem k hk
        exact ⟨b, by simpa using .inr (by simpa using hb), hkey⟩
    · have hfirst : (g ++ gs.flatten).filter (key · = key a) = g := by
        rw [List.filter_append, List.filter_eq_self.2 (by simpa using hag),
          List.filter_eq_nil_iff.2 (by simpa using hrest), List.append_nil]
      have hothers : ∀ k ∈ ks, (g ++ gs.flatten).filter (key · = k) = gs.flatten.filter (key · = k) := fun k hk => by
        obtain ⟨b, hb, rfl⟩ := hmem k hk
        rw [List.filter_append, List.filter_eq_nil_iff.2, List.nil_append]
        intro c hc
        simpa [hag c hc] using (hrest b hb).symm
      rw [List.flatten_cons, List.map_cons, hfirst, List.map_congr_left hothers, ← heq]

variable {cmp : α → α → Ordering} [TransCmp cmp]

/-- Sorting keeps the order of what has the same key. -/
theorem filter_mergeSort (hkey : ∀ a b, cmp a b = .eq ↔ key a = key b) (l : List α) (k : κ) :
    (l.mergeSort fun a b => (cmp a b).isLE).filter (key · = k) = l.filter (key · = k) := by
  have hsorted : (l.filter (key · = k)).Pairwise fun a b => (cmp a b).isLE := by
    refine List.pairwise_of_forall_mem_list fun a ha b hb => ?_
    have heq : cmp a b = .eq :=
      (hkey a b).2 ((of_decide_eq_true (List.mem_filter.1 ha).2).trans (of_decide_eq_true (List.mem_filter.1 hb).2).symm)
    rw [heq]
    rfl
  have hsublist := List.sublist_mergeSort (fun _ _ _ => TransCmp.isLE_trans) isLE_or_isLE hsorted List.filter_sublist
  have hfilter := hsublist.filter (key · = k)
  simp only [List.filter_filter, Bool.and_self] at hfilter
  exact (hfilter.eq_of_length ((List.mergeSort_perm _ _).filter _).length_eq.symm).symm

/-- A list in order, cut wherever the key changes. -/
theorem splitBy_of_pairwise (hkey : ∀ a b, cmp a b = .eq ↔ key a = key b) {l : List α}
    (hl : l.Pairwise fun a b => (cmp a b).isLE) :
    ∃ ks : List κ, ks.Nodup ∧ (∀ k ∈ ks, ∃ a ∈ l, key a = k) ∧
      (l.splitBy fun a b => cmp a b == .eq) = ks.map fun k => l.filter (key · = k) := by
  have hflatten := List.flatten_splitBy (fun a b => cmp a b == .eq) l
  have hne : ∀ g ∈ l.splitBy fun a b => cmp a b == .eq, g ≠ [] := fun _ => List.ne_nil_of_mem_splitBy
  have hsame : ∀ g ∈ l.splitBy fun a b => cmp a b == .eq, ∀ a ∈ g, ∀ b ∈ g, key a = key b := by
    intro g hg
    have hchain : g.IsChain fun a b => key a = key b :=
      (List.isChain_of_mem_splitBy hg).imp fun a b h => (hkey a b).1 (by simpa using h)
    have : Trans (fun a b => key a = key b) (fun a b => key a = key b) fun a b => key a = key b := ⟨Eq.trans⟩
    have : Std.Symm fun a b => key a = key b := ⟨fun _ _ => Eq.symm⟩
    exact List.Pairwise.forall_of_forall (fun _ _ => rfl) (List.isChain_iff_pairwise.1 hchain)
  -- Two lists with a cut between them go up from the one to the other, and then so do all lists.
  have hother : (l.splitBy fun a b => cmp a b == .eq).Pairwise fun g h => ∀ a ∈ g, ∀ b ∈ h, key a ≠ key b := by
    have : Trans (fun g h => g ≠ [] ∧ h ≠ [] ∧ ∀ a ∈ g, ∀ b ∈ h, cmp a b = .lt)
        (fun g h => g ≠ [] ∧ h ≠ [] ∧ ∀ a ∈ g, ∀ b ∈ h, cmp a b = .lt)
        (fun g h : List α => g ≠ [] ∧ h ≠ [] ∧ ∀ a ∈ g, ∀ b ∈ h, cmp a b = .lt) := by
      refine ⟨fun {g h i} hgh hhi => ⟨hgh.1, hhi.2.1, fun a ha c hc => ?_⟩⟩
      obtain ⟨b, hb⟩ := List.exists_mem_of_ne_nil h hgh.2.1
      exact TransCmp.lt_trans (hgh.2.2 a ha b hb) (hhi.2.2 b hb c hc)
    have hle := (List.pairwise_flatten.1 (hflatten.symm ▸ hl)).2.isChain
    have hcut := List.isChain_getLast_head_splitBy (fun a b => cmp a b == .eq) l
    have hlt : (l.splitBy fun a b => cmp a b == .eq).IsChain fun g h =>
        g ≠ [] ∧ h ≠ [] ∧ ∀ a ∈ g, ∀ b ∈ h, cmp a b = .lt := by
      rw [List.isChain_iff_getElem] at hle hcut ⊢
      intro i hi
      obtain ⟨hg, hh, hne⟩ := hcut i hi
      refine ⟨hg, hh, fun a ha b hb => ?_⟩
      refine (Ordering.isLE_iff_eq_lt_or_eq_eq.1 (hle i hi a ha b hb)).resolve_right fun heq => ?_
      have hlast := hsame _ (List.getElem_mem ..) a ha _ (List.getLast_mem hg)
      have hhead := hsame _ (List.getElem_mem ..) b hb _ (List.head_mem hh)
      have hends := (hkey _ _).2 (hlast.symm.trans (((hkey a b).1 heq).trans hhead))
      simp [hends] at hne
    refine (List.isChain_iff_pairwise.1 hlt).imp fun h a ha b hb heq => ?_
    exact absurd ((h.2.2 a ha b hb).symm.trans ((hkey a b).2 heq)) nofun
  obtain ⟨ks, hnodup, hmem, heq⟩ := exists_keys_of_pairwise hne hsame hother
  rw [hflatten] at hmem heq
  exact ⟨ks, hnodup, hmem, heq⟩

end

/-! ## Packages -/

/-- The folder that a file is in, and the name in its package clause. -/
def Member.key (m : Member) : List Component × String := (m.path.directory, m.file.package)

instance : TransCmp Member.compare :=
  inferInstanceAs (TransCmp (compareLex (compareOn fun m : Member => m.path.directory) (compareOn (·.file.package))))

theorem Member.compare_eq_iff (a b : Member) : a.compare b = .eq ↔ a.key = b.key := by
  simp [Member.compare, Member.key, Ordering.then_eq_eq]

/-- The packages of a run are the files of each folder that have a package clause in common, in path order. -/
theorem packages_eq (members : List Member) :
    ∃ ks : List (List Component × String), ks.Nodup ∧ (∀ k, k ∈ ks ↔ ∃ m ∈ members, m.key = k) ∧
      packages members = ks.map fun k => members.filter (·.key = k) := by
  obtain ⟨ks, hnodup, hmem, heq⟩ := splitBy_of_pairwise Member.compare_eq_iff (pairwise_mergeSort_isLE members)
  have hfilter (k : List Component × String) := filter_mergeSort Member.compare_eq_iff members k
  simp only [hfilter] at heq
  refine ⟨ks, hnodup, fun k => ⟨fun hk => ?_, fun ⟨m, hm, hkey⟩ => ?_⟩, heq⟩
  · obtain ⟨m, hm, hkey⟩ := hmem k hk
    exact ⟨m, List.mem_mergeSort.1 hm, hkey⟩
  · have hflatten : m ∈ (packages members).flatten := by
      rw [packages, List.flatten_splitBy]
      exact List.mem_mergeSort.2 hm
    obtain ⟨g, hg, hmg⟩ := List.mem_flatten.1 hflatten
    rw [packages, heq] at hg
    obtain ⟨k', hk', rfl⟩ := List.mem_map.1 hg
    have hkey' := of_decide_eq_true (List.mem_filter.1 hmg).2
    rwa [← hkey, hkey']

/-! ## Files -/

/-- The file at a path, if it can be read. -/
def source? (t : FileTree) (p : Path) : Option SourceText :=
  match t.read p with
  | .ok text => some ⟨p, text⟩
  | .error _ => none

theorem path_of_source? {t : FileTree} {p : Path} {f : SourceText} (h : source? t p = some f) : f.path = p := by
  unfold source? at h
  split at h <;> cases h
  rfl

/-- The failure to read the file at a path, if it cannot be read. -/
def failure? (t : FileTree) (p : Path) : Option Failure :=
  match t.read p with
  | .ok _ => none
  | .error e => some (.unreadable p e)

theorem readFiles_eq (t : FileTree) (paths : List Path) :
    readFiles t paths = (paths.filterMap (source? t), paths.filterMap (failure? t)) := by
  induction paths with
  | nil => rfl
  | cons p rest ih =>
    rw [readFiles, ih]
    cases h : t.read p <;> simp [source?, failure?, h]

/-- A numbered file with what it declares, if it can be parsed. -/
def member? (o : LintOptions) (entry : SourceText × Nat) : Option Member :=
  match (parseFile o entry.1).2 with
  | .ok file => some ⟨entry.2, entry.1.path, file⟩
  | .error _ => none

theorem of_member?_eq_some {o : LintOptions} {e : SourceText × Nat} {m : Member} (h : member? o e = some m) :
    m.index = e.2 ∧ m.path = e.1.path ∧ (parseFile o e.1).2 = .ok m.file := by
  unfold member? at h
  split at h
  · next file hparse =>
    cases h
    exact ⟨rfl, rfl, hparse⟩
  · cases h

/-- The problem of a numbered file, if it cannot be parsed. -/
def problem? (o : LintOptions) (entry : SourceText × Nat) : Option (Nat × Problem) :=
  match (parseFile o entry.1).2 with
  | .ok _ => none
  | .error p => some (entry.2, p)

/-- The files that can be parsed, with their numbers in the run. -/
def members (o : LintOptions) (files : List SourceText) : List Member := files.zipIdx.filterMap (member? o)

/-- The problems of the files that cannot be parsed. -/
def parseProblems (o : LintOptions) (files : List SourceText) : List (Nat × Problem) :=
  files.zipIdx.filterMap (problem? o)

/-- What a run finds: the files are read, those that can be parsed make packages, and what the packages have is
    put in order. -/
theorem ofPaths_snd (o : LintOptions) (t : FileTree) (paths : List Path) :
    (ofPaths o t paths).2 =
      let files := paths.filterMap (source? t)
      let analyses := (packages (members o files)).map (analyzePackage o)
      { files
        failures := paths.filterMap (failure? t)
        reports := sortReports (analyses.flatMap (·.reports))
        problems := sortProblems (parseProblems o files ++ analyses.flatMap (·.problems)) } := by
  have hzip (files : List SourceText) :
      (files.zip (files.map (parseFile o))).zipIdx = files.zipIdx.map fun e => ((e.1, parseFile o e.1), e.2) := by
    have hmap : files.zip (files.map (parseFile o)) = files.map fun f => (f, parseFile o f) := by
      induction files <;> simp_all
    rw [hmap, List.zipIdx_map]
    rfl
  simp only [ofPaths, readFiles_eq, hzip, List.filterMap_map]
  rfl

end Run

/-- A run that succeeds goes over the paths that its patterns name. -/
theorem lint_eq_ok {o : LintOptions} {t : FileTree} {patterns : List String} {run : Run}
    (h : (lint o t patterns).2 = .ok run) :
    ∃ paths, discover Run.extensions t (if patterns.isEmpty then ["."] else patterns) = .ok paths ∧
      run = (Run.ofPaths o t paths).2 := by
  unfold lint at h
  extract_lets patterns at h
  split at h
  · cases h
  · next paths hpaths =>
    extract_lets found at h
    split at h
    · cases h
    · exact ⟨paths, hpaths, (Except.ok.inj h).symm⟩

namespace Run

/-! ## Numbers -/

/-- The numbers of the files that can be parsed go up. -/
theorem pairwise_members (o : LintOptions) (files : List SourceText) :
    (members o files).Pairwise fun a b => a.index < b.index := by
  have hnumbers : files.zipIdx.Pairwise fun a b => a.2 < b.2 :=
    List.pairwise_map.1 (List.zipIdx_map_snd 0 files ▸ List.pairwise_lt_range')
  refine List.pairwise_filterMap.2 (hnumbers.imp fun h a ha b hb => ?_)
  rwa [(of_member?_eq_some ha).1, (of_member?_eq_some hb).1]

/-- A file that can be parsed is found under its number. -/
theorem source_of_mem_members {o : LintOptions} {files : List SourceText} {m : Member} (h : m ∈ members o files) :
    ∃ f, files[m.index]? = some f ∧ f.path = m.path ∧ (parseFile o f).2 = .ok m.file := by
  obtain ⟨⟨f, i⟩, he, hm⟩ := List.mem_filterMap.1 h
  obtain ⟨hindex, hpath, hparse⟩ := of_member?_eq_some hm
  exact ⟨f, hindex ▸ List.mem_zipIdx_iff_getElem?.1 he, hpath.symm, hparse⟩

/-- No two files have the same number. -/
theorem eq_of_index_eq {o : LintOptions} {files : List SourceText} {m n : Member} (hm : m ∈ members o files)
    (hn : n ∈ members o files) (h : m.index = n.index) : m = n := by
  obtain ⟨f, hf, hpath, hparse⟩ := source_of_mem_members hm
  obtain ⟨f', hf', hpath', hparse'⟩ := source_of_mem_members hn
  obtain rfl : f = f' := Option.some.inj (hf.symm.trans (h ▸ hf'))
  obtain ⟨i, p, file⟩ := m
  obtain ⟨j, q, file'⟩ := n
  obtain rfl : i = j := h
  obtain rfl : p = q := hpath.symm.trans hpath'
  obtain rfl : file = file' := Except.ok.inj (hparse.symm.trans hparse')
  rfl

theorem parse_of_parseFile {o : LintOptions} {f : SourceText} {file : SourceFile} (h : (parseFile o f).2 = .ok file) :
    SourceFile.parse f.text = .ok file := by
  simp only [parseFile] at h
  split at h
  · cases h
  · split at h
    · cases h
    · next hparse =>
      cases h
      exact hparse

/-- If no two files have the same path, then no two that can be parsed. -/
theorem eq_of_path_eq {o : LintOptions} {files : List SourceText} (hpaths : (files.map (·.path)).Nodup) {m n : Member}
    (hm : m ∈ members o files) (hn : n ∈ members o files) (h : m.path = n.path) : m = n := by
  obtain ⟨f, hf, hpath, -⟩ := source_of_mem_members hm
  obtain ⟨f', hf', hpath', -⟩ := source_of_mem_members hn
  have hmi : (files.map (·.path))[m.index]? = some m.path := by simp [hf, hpath]
  have hni : (files.map (·.path))[n.index]? = some m.path := by simp [hf', hpath', h]
  refine eq_of_index_eq hm hn ?_
  obtain ⟨hlt, hmi⟩ := List.getElem?_eq_some_iff.1 hmi
  obtain ⟨hlt', hni⟩ := List.getElem?_eq_some_iff.1 hni
  exact (List.getElem_inj hpaths).1 (hmi.trans hni.symm)

/-! ## Packages of a run -/

/-- The files of a run that are in a folder and have a name in their package clause. -/
def package (o : LintOptions) (files : List SourceText) (k : List Component × String) : List Member :=
  (members o files).filter (·.key = k)

theorem package_sublist (o : LintOptions) (files : List SourceText) (k : List Component × String) :
    (package o files k).Sublist (members o files) := List.filter_sublist

theorem key_of_mem_package {o : LintOptions} {files : List SourceText} {k : List Component × String} {m : Member}
    (h : m ∈ package o files k) : m.key = k := of_decide_eq_true (List.mem_filter.1 h).2

/-- The packages of a run are those of the folders and package clauses that its files have. -/
theorem packages_members (o : LintOptions) (files : List SourceText) :
    ∃ ks : List (List Component × String), ks.Nodup ∧ (∀ k, k ∈ ks ↔ ∃ m ∈ members o files, m.key = k) ∧
      packages (members o files) = ks.map (package o files) := packages_eq (members o files)

end Run

/-! ## Discovery -/

section

variable {extensions : List String} {t : FileTree} {patterns : List String} {paths : List Path}

/-- What the patterns find one by one is discovered in normal form. -/
theorem discover_eq_ok_iff : discover extensions t patterns = .ok paths ↔
    ∃ found, (patterns.mapM fun text => Discovery.ofPattern extensions t (.ofText text)) = .ok found ∧
      Path.normalize found.flatten = paths := by
  rw [discover]
  cases patterns.mapM fun text => Discovery.ofPattern extensions t (.ofText text) <;>
    simp [bind, Except.bind, pure, Except.pure]

/-- Paths that are discovered go up. -/
theorem pairwise_discover (h : discover extensions t patterns = .ok paths) :
    paths.Pairwise fun p q => p.compare q = .lt := by
  obtain ⟨found, -, rfl⟩ := discover_eq_ok_iff.1 h
  exact Path.pairwise_normalize _

/-- Paths that go up are discovered as the patterns name them. -/
theorem discover_eq_ok (found : List (List Path))
    (h : (patterns.mapM fun text => Discovery.ofPattern extensions t (.ofText text)) = .ok found)
    (hup : found.flatten.Pairwise fun p q => p.compare q = .lt) : discover extensions t patterns = .ok found.flatten :=
  discover_eq_ok_iff.2 ⟨found, h, Path.normalize_eq_self hup⟩

end

/-- The files of a run have different paths. -/
theorem Run.paths_nodup {t : FileTree} {paths : List Path} (h : paths.Pairwise fun p q => p.compare q = .lt) :
    ((paths.filterMap (source? t)).map (·.path)).Nodup := by
  refine List.pairwise_map.2 (List.pairwise_filterMap.2 (h.imp fun hlt f hf g hg heq => ?_))
  rw [← path_of_source? hf, ← path_of_source? hg, heq, Path.compare_eq_iff.2 rfl] at hlt
  cases hlt

end StructPadding
