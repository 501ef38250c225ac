-- SUMMARY: Runs over the same files find the same, however paths are spelled, if each spells its folders in one way.
import StructPadding.Proofs.FileTree.Discovered
import StructPadding.Proofs.Run.Union

/-!
# Respelling

The paths of a run are compared as they are spelled, and so are the folders that make its packages. Where each folder is
spelled in one way, paths are told apart by their places, and the packages are the files of the same folder and package
clause. They are in the order of their names, whatever the spelling of the folder is. So two runs over the same files
have the same packages, and find the same in them.
-/

namespace StructPadding

open Std

/-! ## Spelling -/

namespace Path

variable {t : FileTree} {p q : Path} {folder folder' : Place} {s s' : String}

theorem Names.place_eq (h : p.Names t folder s) : t.place p = s :: folder := by
  rw [FileTree.place, h.components, Component.follow_append, show Component.follow t.working p.directory = folder from
    h.stands]
  rfl

theorem Names.folder_eq (h : p.Names t folder s) : t.folder p = (t.place p).tail := by
  rw [h.stands, h.place_eq]
  rfl

/-- Paths in the same directory are in the order of their names. -/
theorem Names.compare_eq (hp : p.Names t folder s) (hq : q.Names t folder' s') (h : p.directory = q.directory) :
    p.compare q = Ord.compare s s' := by
  have hcompare (d : List Component) : Ord.compare (d ++ [.name s]) (d ++ [.name s']) = Ord.compare s s' := by
    induction d with
    | nil => simp [List.compare_cons_cons, Component.compare_name]
    | cons c d ih => simpa [List.compare_cons_cons] using ih
  rw [Path.compare, hp.components, hq.components, h, hcompare]

/-- Whether no two of the paths spell the same folder in different ways. -/
def SpelledOnce (t : FileTree) (paths : List Path) : Prop :=
  ∀ p ∈ paths, ∀ q ∈ paths, t.folder p = t.folder q → p.directory = q.directory

end Path

/-- The text of a node, if it is a file with one. -/
def Node.source : Node → Except AccessError String
  | .file text => text
  | .folder _ => .error .isFolder
  | .lost e => .error e

namespace FileTree

theorem read_eq (t : FileTree) (p : Path) : t.read p = t.lookup p >>= Node.source := by
  unfold read
  cases t.lookup p with
  | error => rfl
  | ok node => cases node <;> rfl

/-- The text of the file at a place. -/
def readAt (t : FileTree) : Place → Except AccessError String
  | [] => .error .isFolder
  | s :: folder => t.walkFrom folder [s] >>= Node.source

end FileTree

theorem Path.Names.read_eq {t : FileTree} {p : Path} {folder : Place} {s : String} (h : p.Names t folder s)
    (hsize : p.text.utf8ByteSize ≤ FileTree.pathLimit) : t.read p = t.readAt (s :: folder) := by
  rw [FileTree.read_eq, h.lookup hsize]
  rfl

/-! ## Places for paths -/

/-- A file with its place instead of its path. -/
def SourceText.placed (t : FileTree) (f : SourceText) : Place × String := (t.place f.path, f.text)

/-- What cannot be read, with its place instead of its path, and why. -/
def Failure.placed? (t : FileTree) : Failure → Option (Place × AccessError)
  | .unreadable p e => some (t.place p, e)
  | _ => none

namespace Run

/-- The reports of a run, with the places of their files. -/
def placedReports (t : FileTree) (run : Run) : List (Option Place × Report) :=
  run.located.map fun e => (e.1.map t.place, e.2)

/-- The problems of a run, with the places of their files. -/
def placedProblems (t : FileTree) (run : Run) : List (Option Place × Problem) :=
  run.problems.map fun e => (run.files[e.1]?.map (t.place ·.path), e.2)

/-- Whether two runs in a tree have the same files, and find the same, up to the spelling of paths and the order. -/
structure Respells (t : FileTree) (run run' : Run) : Prop where
  files : (run.files.map (·.placed t)).Perm (run'.files.map (·.placed t))
  failures : (run.failures.map (·.placed? t)).Perm (run'.failures.map (·.placed? t))
  reports : (run.placedReports t).Perm (run'.placedReports t)
  problems : (run.placedProblems t).Perm (run'.placedProblems t)

/-- Whether paths name entries of a tree, are not too long, go up, and spell each folder in one way. -/
structure Spells (t : FileTree) (paths : List Path) : Prop where
  names : ∀ p ∈ paths, ∃ folder s, p.Names t folder s
  short : ∀ p ∈ paths, p.text.utf8ByteSize ≤ FileTree.pathLimit
  up : paths.Pairwise fun p q => p.compare q = .lt
  once : Path.SpelledOnce t paths

variable {o : LintOptions} {t : FileTree} {paths : List Path}

/-- The paths lead to different places. -/
theorem Spells.nodup_places (h : Spells t paths) : (paths.map t.place).Nodup := by
  refine List.pairwise_map.2 (h.up.imp_of_mem fun {p q} hp hq hlt hplace => ?_)
  obtain ⟨folder, s, hps⟩ := h.names p hp
  obtain ⟨folder', s', hqs⟩ := h.names q hq
  have hdirectory : p.directory = q.directory :=
    h.once p hp q hq (by rw [hps.folder_eq, hqs.folder_eq, hplace])
  rw [hps.place_eq, hqs.place_eq] at hplace
  obtain ⟨rfl, -⟩ := List.cons.inj hplace
  rw [hps.compare_eq hqs hdirectory, Std.compare_self] at hlt
  cases hlt

/-! ## Files -/

/-- The files at paths that can be read. -/
def sources (t : FileTree) (paths : List Path) : List SourceText := paths.filterMap (source? t)

theorem files_ofPaths (o : LintOptions) (t : FileTree) (paths : List Path) :
    (ofPaths o t paths).2.files = sources t paths := by rw [ofPaths_snd, sources]

/-- The file at a place, if it can be read. -/
def sourceAt? (t : FileTree) (place : Place) : Option (Place × String) :=
  match t.readAt place with
  | .ok text => some (place, text)
  | .error _ => none

/-- The failure to read the file at a place, if it cannot be read. -/
def failureAt? (t : FileTree) (place : Place) : Option (Option (Place × AccessError)) :=
  match t.readAt place with
  | .ok _ => none
  | .error e => some (some (place, e))

/-- The files that are read are those at the places of the paths. -/
theorem Spells.placed_sources (h : Spells t paths) :
    (sources t paths).map (·.placed t) = (paths.map t.place).filterMap (sourceAt? t) := by
  rw [sources, List.map_filterMap, List.filterMap_map]
  refine List.filterMap_congr fun p hp => ?_
  obtain ⟨folder, s, hps⟩ := h.names p hp
  simp only [Function.comp_apply, sourceAt?, source?, hps.place_eq, hps.read_eq (h.short p hp)]
  cases t.readAt (s :: folder) <;> simp [SourceText.placed, hps.place_eq]

theorem Spells.placed_failures (h : Spells t paths) :
    (paths.filterMap (failure? t)).map (·.placed? t) = (paths.map t.place).filterMap (failureAt? t) := by
  rw [List.map_filterMap, List.filterMap_map]
  refine List.filterMap_congr fun p hp => ?_
  obtain ⟨folder, s, hps⟩ := h.names p hp
  simp only [Function.comp_apply, failureAt?, failure?, hps.place_eq, hps.read_eq (h.short p hp)]
  cases t.readAt (s :: folder) <;> simp [Failure.placed?, hps.place_eq]

/-- No file is read twice. -/
theorem Spells.nodup_sources (h : Spells t paths) : ((sources t paths).map (t.place ·.path)).Nodup := by
  have hplaces := List.pairwise_map.1 h.nodup_places
  refine List.pairwise_map.2 (List.pairwise_filterMap.2 (hplaces.imp fun hne f hf g hg => ?_))
  rwa [path_of_source? hf, path_of_source? hg]

/-! ## Parts

Which parts a run has is decided by the places and texts of its files, and so is what is wrong with the files that have
no part. -/

/-- A parsed file with its place. -/
structure Part where
  place : Place
  file : SourceFile

/-- The place of its folder, and the name in its package clause. -/
def Part.key (p : Part) : Place × String := (p.place.tail, p.file.package)

/-- The outcome of parsing a text. -/
def parseText (o : LintOptions) (text : String) : Except Problem SourceFile := (parseFile o ⟨⟨""⟩, text⟩).2

theorem parseFile_snd (o : LintOptions) (f : SourceText) : (parseFile o f).2 = parseText o f.text := by
  simp only [parseText, parseFile, tokenDump]
  cases o.dumpTokens <;> cases Token.dump f.text <;> cases SourceFile.parse f.text <;> rfl

/-- The part of a file with a place, if the file can be parsed. -/
def part? (o : LintOptions) (f : Place × String) : Option Part :=
  match parseText o f.2 with
  | .ok file => some ⟨f.1, file⟩
  | .error _ => none

/-- The problem of a file with a place, if the file cannot be parsed. -/
def problemAt? (o : LintOptions) (f : Place × String) : Option (Option Place × Problem) :=
  match parseText o f.2 with
  | .ok _ => none
  | .error p => some (some f.1, p)

/-- The parts of the files that can be parsed. -/
def parts (o : LintOptions) (t : FileTree) (files : List SourceText) : List Part :=
  (files.map (·.placed t)).filterMap (part? o)

def Member.part (t : FileTree) (m : Member) : Part := ⟨t.place m.path, m.file⟩

variable {files : List SourceText}

theorem map_part_members (o : LintOptions) (t : FileTree) (files : List SourceText) :
    (members o files).map (Member.part t) = parts o t files := by
  have hpart (e : SourceText × Nat) : (member? o e).map (Member.part t) = part? o (e.1.placed t) := by
    simp only [member?, part?, parseFile_snd, SourceText.placed]
    cases parseText o e.1.text <;> rfl
  rw [members, List.map_filterMap, parts, List.filterMap_map]
  simp only [hpart]
  conv_rhs => rw [← List.zipIdx_map_fst 0 files, List.filterMap_map]
  rfl

/-- The problems of the files that cannot be parsed, with their places. -/
theorem placed_parseProblems (o : LintOptions) (t : FileTree) (files : List SourceText) :
    (parseProblems o files).map (fun e => (files[e.1]?.map (t.place ·.path), e.2)) =
      (files.map (·.placed t)).filterMap (problemAt? o) := by
  have hproblem (e : SourceText × Nat) (he : e ∈ files.zipIdx) :
      (problem? o e).map (fun e => (files[e.1]?.map (t.place ·.path), e.2)) = problemAt? o (e.1.placed t) := by
    have hfile := List.mem_zipIdx_iff_getElem?.1 he
    simp only [problem?, problemAt?, parseFile_snd, SourceText.placed]
    cases parseText o e.1.text <;> simp [hfile]
  rw [parseProblems, List.map_filterMap, List.filterMap_congr hproblem, List.filterMap_map]
  conv_rhs => rw [← List.zipIdx_map_fst 0 files, List.filterMap_map]
  rfl

/-! ## Packages -/

/-- What is found in a package, from its parts. -/
def partsAnalysis (o : LintOptions) (ps : List Part) : Analysis :=
  Analysis.ofPackage o.machine o.suggest (ps.map (·.file))

def partsReports (o : LintOptions) (ps : List Part) :
    List (Option Place × Report) :=
  (partsAnalysis o ps).reports.map fun r => (ps[r.file]?.map (·.place), { r with file := 0 })

def partsProblems (o : LintOptions) (ps : List Part) :
    List (Option Place × Problem) :=
  (partsAnalysis o ps).problems.map fun e => (ps[e.1]?.map (·.place), e.2)

/-- The reports of a package are those of its parts. -/
theorem placed_reports (o : LintOptions) (t : FileTree) (g : List Member) :
    ((analysis o g).reports.map (·.located (g.map (·.path)))).map (fun e => (e.1.map t.place, e.2)) =
      partsReports o (g.map (Member.part t)) := by
  simp [partsReports, partsAnalysis, analysis, Report.located, Member.part, Function.comp_def]

theorem placed_problems (o : LintOptions) (t : FileTree) {g : List Member} (hg : g.Sublist (members o files)) :
    ((analysis o g).problems.map fun e => (g[e.1]?.map (·.index), e.2)).map
        (fun e => (e.1.bind fun i => files[i]?.map (t.place ·.path), e.2)) =
      partsProblems o (g.map (Member.part t)) := by
  have hplace (i : Nat) : (g[i]?.map (·.index)).bind (fun i => files[i]?.map (t.place ·.path)) =
      (g.map (Member.part t))[i]?.map (·.place) := by
    rw [List.getElem?_map]
    cases hm : g[i]? with
    | none => rfl
    | some m =>
      obtain ⟨f, hf, hpath, -⟩ := source_of_mem_members (hg.subset (List.mem_of_getElem? hm))
      simp [hf, hpath, Member.part]
  simp only [List.map_map, Function.comp_def, hplace, partsProblems, partsAnalysis, analysis]
  simp [Member.part]

/-- The folder and package clause that a package goes by, with the folder as a place. -/
def placedKey (t : FileTree) (k : List Component × String) : Place × String := (Component.follow t.working k.1, k.2)

/-- The order of the parts of one package: by their names. -/
def Part.Before (a b : Part) : Prop :=
  ∃ folder s s', a.place = s :: folder ∧ b.place = s' :: folder ∧ Ord.compare s s' = .lt

theorem Part.Before.asymm {a b : Part} (h : Part.Before a b) : ¬ Part.Before b a := by
  rintro ⟨folder', u, u', hb, ha, hlt'⟩
  obtain ⟨folder, s, s', ha', hb', hlt⟩ := h
  obtain ⟨rfl, -⟩ := List.cons.inj (ha'.symm.trans ha)
  obtain ⟨rfl, -⟩ := List.cons.inj (hb'.symm.trans hb)
  exact absurd (hlt'.symm.trans (OrientedOrd.eq_swap.trans (congrArg Ordering.swap hlt))) nofun

/-! ## Packages of a run -/

theorem path_mem_of_mem_members {m : Member} (hm : m ∈ members o (sources t paths)) : m.path ∈ paths := by
  obtain ⟨f, hf, hpath, -⟩ := source_of_mem_members hm
  obtain ⟨p, hp, hsource⟩ := List.mem_filterMap.1 (List.mem_of_getElem? hf)
  exact hpath ▸ path_of_source? hsource ▸ hp

section

variable (h : Spells t paths)
include h

theorem Spells.names_member {m : Member} (hm : m ∈ members o (sources t paths)) : ∃ folder s, m.path.Names t folder s :=
  h.names _ (path_mem_of_mem_members hm)

theorem Spells.key_part {m : Member} (hm : m ∈ members o (sources t paths)) : (m.part t).key = placedKey t m.key := by
  obtain ⟨folder, s, hs⟩ := h.names_member hm
  rw [Part.key, Member.part, ← hs.folder_eq]
  rfl

/-- Files of one folder and package clause are in one package. -/
theorem Spells.key_eq_iff {m n : Member} (hm : m ∈ members o (sources t paths)) (hn : n ∈ members o (sources t paths)) :
    m.key = n.key ↔ (m.part t).key = (n.part t).key := by
  rw [h.key_part hm, h.key_part hn]
  refine ⟨congrArg (placedKey t), fun hkey => ?_⟩
  obtain ⟨hfolder, hpackage⟩ := Prod.mk.inj hkey
  exact Prod.ext (h.once _ (path_mem_of_mem_members hm) _ (path_mem_of_mem_members hn) hfolder) hpackage

/-- The parts of a package are those of its folder and package clause. -/
theorem Spells.map_part_package {k : List Component × String} (hk : ∃ m ∈ members o (sources t paths), m.key = k) :
    (package o (sources t paths) k).map (Member.part t) =
      (parts o t (sources t paths)).filter (·.key = placedKey t k) := by
  obtain ⟨n, hn, rfl⟩ := hk
  rw [package, ← map_part_members, List.filter_map]
  refine congrArg _ (List.filter_congr fun m hm => ?_)
  simp only [Function.comp_apply, h.key_eq_iff hm hn, h.key_part hn]

/-- The members of a run are in path order. -/
theorem Spells.pairwise_members : (members o (sources t paths)).Pairwise fun m n => m.path.compare n.path = .lt := by
  have hfiles : (sources t paths).Pairwise fun f g => f.path.compare g.path = .lt :=
    List.pairwise_filterMap.2 (h.up.imp fun hlt f hf g hg => by rwa [path_of_source? hf, path_of_source? hg])
  have hentries : (sources t paths).zipIdx.Pairwise fun e e' => e.1.path.compare e'.1.path = .lt :=
    List.pairwise_map.1 ((List.zipIdx_map_fst 0 (sources t paths)).symm ▸ hfiles)
  refine List.pairwise_filterMap.2 (hentries.imp fun hlt m hm n hn => ?_)
  rwa [(of_member?_eq_some hm).2.1, (of_member?_eq_some hn).2.1]

/-- The parts of a package are in the order of their names. -/
theorem Spells.pairwise_parts (o : LintOptions) (k : Place × String) :
    ((parts o t (sources t paths)).filter (·.key = k)).Pairwise Part.Before := by
  rw [← map_part_members, List.filter_map]
  refine List.pairwise_map.2 ((h.pairwise_members.sublist List.filter_sublist).imp_of_mem fun {m n} hm hn hlt => ?_)
  obtain ⟨hm, hmk⟩ := List.mem_filter.1 hm
  obtain ⟨hn, hnk⟩ := List.mem_filter.1 hn
  have hkey : m.key = n.key :=
    (h.key_eq_iff hm hn).2 ((of_decide_eq_true hmk).trans (of_decide_eq_true hnk).symm)
  have hdirectory : m.path.directory = n.path.directory := congrArg Prod.fst hkey
  obtain ⟨folder, s, hs⟩ := h.names_member hm
  obtain ⟨folder', s', hs'⟩ := h.names_member hn
  obtain rfl : folder = folder' :=
    hs.stands.symm.trans ((congrArg (Component.follow t.working) hdirectory).trans hs'.stands)
  exact ⟨folder, s, s', hs.place_eq, hs'.place_eq, hs.compare_eq hs' hdirectory ▸ hlt⟩

/-- What a run finds is what is found in the parts of each folder and package clause. -/
theorem Spells.placed_union (o : LintOptions) :
    ∃ ks : List (Place × String), ks.Nodup ∧
      (∀ k, k ∈ ks ↔ ∃ part ∈ parts o t (sources t paths), part.key = k) ∧
      ((ofPaths o t paths).2.placedReports t).Perm
        (ks.flatMap fun k => partsReports o ((parts o t (sources t paths)).filter (·.key = k))) ∧
      ((ofPaths o t paths).2.placedProblems t).Perm (((sources t paths).map (·.placed t)).filterMap (problemAt? o) ++
        ks.flatMap fun k => partsProblems o ((parts o t (sources t paths)).filter (·.key = k))) := by
  obtain ⟨ks, hunion⟩ := isUnion_ofPaths o t paths
  have hmem := hunion.mem_keys
  have hreports := hunion.reports
  have hproblems := hunion.problems
  rw [files_ofPaths] at hmem hreports hproblems
  refine ⟨ks.map (placedKey t), ?_, fun k => ?_, ?_, ?_⟩
  · refine List.pairwise_map.2 (hunion.keys_nodup.imp_of_mem fun {k k'} hk hk' hne heq => hne ?_)
    obtain ⟨m, hm, rfl⟩ := (hmem k).1 hk
    obtain ⟨n, hn, rfl⟩ := (hmem k').1 hk'
    exact (h.key_eq_iff hm hn).2 (by rwa [h.key_part hm, h.key_part hn])
  · rw [← map_part_members]
    simp only [List.mem_map, hmem, exists_exists_and_eq_and]
    exact exists_congr fun m => and_congr_right fun hm => by rw [h.key_part hm]
  · refine (hreports.map _).trans (.of_eq ?_)
    rw [List.map_flatMap, List.flatMap_map]
    exact List.flatMap_congr fun k hk => by rw [placed_reports, h.map_part_package ((hmem k).1 hk)]
  · have hplaced : (ofPaths o t paths).2.placedProblems t =
        ((ofPaths o t paths).2.problems.map fun e => (some e.1, e.2)).map
          fun e => (e.1.bind fun i => (sources t paths)[i]?.map (t.place ·.path), e.2) := by
      simp [placedProblems, Function.comp_def, files_ofPaths]
    rw [hplaced]
    refine (hproblems.map _).trans (.of_eq ?_)
    rw [List.map_append, List.map_flatMap, List.flatMap_map, List.map_map, ← placed_parseProblems]
    refine congrArg₂ _ rfl (List.flatMap_congr fun k hk => ?_)
    rw [← h.map_part_package ((hmem k).1 hk)]
    exact placed_problems o t (package_sublist o (sources t paths) k)

end

/-- Runs over paths that lead to the same places find the same. -/
theorem Spells.respells {paths' : List Path} (h : Spells t paths) (h' : Spells t paths')
    (hsame : ∀ place, place ∈ paths.map t.place ↔ place ∈ paths'.map t.place) (o : LintOptions) :
    (ofPaths o t paths).2.Respells t (ofPaths o t paths').2 := by
  have hplaces : (paths.map t.place).Perm (paths'.map t.place) :=
    (List.perm_ext_iff_of_nodup h.nodup_places h'.nodup_places).2 hsame
  have hfiles : ((sources t paths).map (·.placed t)).Perm ((sources t paths').map (·.placed t)) := by
    rw [h.placed_sources, h'.placed_sources]
    exact hplaces.filterMap _
  have hparts : (parts o t (sources t paths)).Perm (parts o t (sources t paths')) := hfiles.filterMap _
  obtain ⟨ks, hnodup, hks, hreports, hproblems⟩ := h.placed_union o
  obtain ⟨ks', hnodup', hks', hreports', hproblems'⟩ := h'.placed_union o
  have hkeys : ks.Perm ks' := (List.perm_ext_iff_of_nodup hnodup hnodup').2 fun k => by
    simp only [hks, hks', hparts.mem_iff]
  -- Both have their parts in the order of names, so the packages are equal, and not only up to order.
  have hpackage (k : Place × String) :
      (parts o t (sources t paths)).filter (·.key = k) = (parts o t (sources t paths')).filter (·.key = k) :=
    List.Perm.eq_of_pairwise (fun _ _ _ _ hab hba => absurd hba hab.asymm) (h.pairwise_parts o k)
      (h'.pairwise_parts o k) (hparts.filter _)
  simp only [hpackage] at hreports hproblems
  constructor
  · rwa [files_ofPaths, files_ofPaths]
  · simp only [ofPaths_snd, h.placed_failures, h'.placed_failures]
    exact hplaces.filterMap _
  · exact hreports.trans ((hkeys.flatMap_right _).trans hreports'.symm)
  · exact hproblems.trans (((hfiles.filterMap _).append (hkeys.flatMap_right _)).trans hproblems'.symm)

/-- The paths that the patterns of a run name. -/
def found (t : FileTree) (patterns : List String) : Except (Path × AccessError) (List Path) :=
  discover extensions t (if patterns.isEmpty then ["."] else patterns)

/-- Every path that is found names an entry. -/
theorem names_of_mem_found {patterns : List String} (h : found t patterns = .ok paths) {p : Path}
    (hp : p ∈ paths) : ∃ folder s, p.Names t folder s := by
  unfold Run.found at h
  generalize (if patterns.isEmpty then ["."] else patterns) = patterns at h
  obtain ⟨found, hfound, rfl⟩ := discover_eq_ok_iff.1 h
  obtain ⟨ps, hps, hp⟩ := List.mem_flatten.1 (Path.mem_of_mem_normalize hp)
  obtain ⟨i, hi⟩ := List.getElem?_of_mem hps
  obtain ⟨text, -, hpattern⟩ := getElem?_of_mapM_eq_ok hfound hi
  exact Discovery.names_of_mem_ofPattern hpattern hp

theorem spells_of_found {patterns : List String} (h : found t patterns = .ok paths)
    (hshort : ∀ p ∈ paths, p.text.utf8ByteSize ≤ FileTree.pathLimit) (honce : Path.SpelledOnce t paths) :
    Spells t paths :=
  ⟨fun _ hp => names_of_mem_found h hp, hshort, pairwise_discover h, honce⟩

end Run

/-- A run over patterns succeeds if they name something, and goes over what they name. -/
theorem lint_eq_ok_iff {o : LintOptions} {t : FileTree} {patterns : List String} {paths : List Path} {run : Run}
    (h : Run.found t patterns = .ok paths) :
    (lint o t patterns).2 = .ok run ↔ paths ≠ [] ∧ run = (Run.ofPaths o t paths).2 := by
  unfold Run.found at h
  simp only [lint, h]
  cases paths with
  | nil => simp
  | cons p rest => exact ⟨fun h => ⟨List.cons_ne_nil p rest, (Except.ok.inj h).symm⟩, fun h => h.2 ▸ rfl⟩

/-- Two runs over the same files of a tree find the same, however their paths are spelled, as long as neither spells
    a folder in two ways: then no file is looked at twice, and the files of a folder with one package clause are one
    package. -/
theorem lint_respelled {o : LintOptions} {t : FileTree} {patterns patterns' : List String}
    {paths paths' : List Path} {run : Run} (h : (lint o t patterns).2 = .ok run)
    (hpaths : Run.found t patterns = .ok paths) (hpaths' : Run.found t patterns' = .ok paths')
    (hshort : ∀ p ∈ paths ++ paths', p.text.utf8ByteSize ≤ FileTree.pathLimit)
    (honce : Path.SpelledOnce t paths) (honce' : Path.SpelledOnce t paths')
    (hsame : ∀ place, place ∈ paths.map t.place ↔ place ∈ paths'.map t.place) :
    (∃ run', (lint o t patterns').2 = .ok run' ∧ run.Respells t run') ∧
      (run.files.map (t.place ·.path)).Nodup ∧
      ∀ m ∈ Run.members o run.files, ∀ n ∈ Run.members o run.files,
        t.folder m.path = t.folder n.path → m.file.package = n.file.package → m.key = n.key := by
  obtain ⟨hne, rfl⟩ := (lint_eq_ok_iff hpaths).1 h
  have hspells := Run.spells_of_found hpaths (fun p hp => hshort p (List.mem_append_left _ hp)) honce
  have hspells' := Run.spells_of_found hpaths' (fun p hp => hshort p (List.mem_append_right _ hp)) honce'
  have hne' : paths' ≠ [] := by
    obtain ⟨p, hp⟩ := List.exists_mem_of_ne_nil _ hne
    obtain ⟨p', hp', -⟩ := List.mem_map.1 ((hsame _).1 (List.mem_map_of_mem hp))
    exact List.ne_nil_of_mem hp'
  refine ⟨⟨_, (lint_eq_ok_iff hpaths').2 ⟨hne', rfl⟩, hspells.respells hspells' hsame o⟩, ?_, ?_⟩
  · rw [Run.files_ofPaths]
    exact hspells.nodup_sources
  · rw [Run.files_ofPaths]
    intro m hm n hn hfolder hpackage
    have hpaths := hspells.once _ (Run.path_mem_of_mem_members hm) _ (Run.path_mem_of_mem_members hn) hfolder
    exact Prod.ext hpaths hpackage

/-- The broken folder is the same with its paths from the root and with those from the folder itself. -/
theorem lint_respelled_broken :
    let o : LintOptions := ⟨.amd64, true, false, false⟩
    let run := (Run.ofPaths o brokenTree [⟨"./a.go"⟩, ⟨"./b.go"⟩]).2
    (lint o brokenTree []).2 = .ok run ∧
      ∃ run', (lint o brokenTree ["/.tree/a.go", "/.tree/b.go"]).2 = .ok run' ∧ run.Respells brokenTree run' := by
  intro o run
  have hpaths' : Run.found brokenTree ["/.tree/a.go", "/.tree/b.go"] = .ok [⟨"/.tree/a.go"⟩, ⟨"/.tree/b.go"⟩] :=
    discover_eq_ok [[⟨"/.tree/a.go"⟩], [⟨"/.tree/b.go"⟩]] (by decide +kernel) (by decide +kernel)
  have hplaces : ([⟨"./a.go"⟩, ⟨"./b.go"⟩] : List Path).map brokenTree.place =
      ([⟨"/.tree/a.go"⟩, ⟨"/.tree/b.go"⟩] : List Path).map brokenTree.place := by decide +kernel
  refine ⟨lint_brokenTree o,
    (lint_respelled (lint_brokenTree o) discover_brokenTree hpaths' ?_ ?_ ?_ ?_).1⟩
  · decide +kernel
  · unfold Path.SpelledOnce; decide +kernel
  · unfold Path.SpelledOnce; decide +kernel
  · intro place
    rw [hplaces]

/-- A file that is spelled in two ways is looked at twice. -/
theorem not_all_lint_respelled :
    ¬ ∀ (o : LintOptions) (t : FileTree) (patterns patterns' : List String) (paths paths' : List Path) (run : Run),
      (lint o t patterns).2 = .ok run → Run.found t patterns = .ok paths →
        Run.found t patterns' = .ok paths' →
        (∀ p ∈ paths ++ paths', p.text.utf8ByteSize ≤ FileTree.pathLimit) →
        (∀ place, place ∈ paths.map t.place ↔ place ∈ paths'.map t.place) →
        ∃ run', (lint o t patterns').2 = .ok run' ∧ run.Respells t run' := by
  intro hall
  let o : LintOptions := ⟨.amd64, false, false, false⟩
  have htwo : Run.found paddedTree ["./a.go", "a.go"] = .ok [⟨"./a.go"⟩, ⟨"a.go"⟩] :=
    discover_eq_ok [[⟨"./a.go"⟩], [⟨"a.go"⟩]] (by decide +kernel) (by decide +kernel)
  have hone : Run.found paddedTree ["a.go"] = .ok [⟨"a.go"⟩] :=
    discover_eq_ok [[⟨"a.go"⟩]] (by decide +kernel) (by decide +kernel)
  have hplaces : ([⟨"./a.go"⟩, ⟨"a.go"⟩] : List Path).map paddedTree.place =
      [["a.go", ".tree"], ["a.go", ".tree"]] := by
    decide +kernel
  have hplace : ([⟨"a.go"⟩] : List Path).map paddedTree.place = [["a.go", ".tree"]] := by decide +kernel
  obtain ⟨run', hrun', hrespells⟩ := hall o paddedTree ["./a.go", "a.go"] ["a.go"] _ _ _
    ((lint_eq_ok_iff htwo).2 ⟨nofun, rfl⟩) htwo hone (by decide +kernel) (by simp [hplaces, hplace])
  obtain ⟨-, rfl⟩ := (lint_eq_ok_iff hone).1 hrun'
  have hlength := hrespells.files.length_eq
  have htwice : ((Run.ofPaths o paddedTree [⟨"./a.go"⟩, ⟨"a.go"⟩]).2.files).length = 2 := by decide +kernel
  have honce : ((Run.ofPaths o paddedTree [⟨"a.go"⟩]).2.files).length = 1 := by decide +kernel
  rw [List.length_map, List.length_map, htwice, honce] at hlength
  cases hlength

end StructPadding
