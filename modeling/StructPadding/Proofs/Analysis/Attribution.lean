-- SUMMARY: Where the problems of a package arise, and when they are listed under that file.
import StructPadding.Analysis.Analysis
import StructPadding.Proofs.Package.Faults
import StructPadding.Proofs.Parse.Placed

/-!
# Attribution

A problem is listed under the file of the struct literal that is resolved, and arises in the file of the construct
that resolution fails at. The two differ where the literal depends on a declaration of another file that is
wrong. The span of a problem is a place in the file it arises in.
-/

namespace StructPadding

/-- A problem with the file it is listed under and the file it arises in. -/
structure Blame where
  listed : Nat
  origin : Nat
  problem : Problem
  deriving DecidableEq, Repr

/-- The problem as the analysis lists it. -/
def Blame.entry (b : Blame) : Nat × Problem := (b.listed, b.problem)

namespace Analysis

/-- Add the problem of a site, with the file that located resolution names. -/
def addBlame (scope : Scope) (m : Machine) (state : Resolver × List Blame) (site : Site) : Resolver × List Blame :=
  match Resolver.Located.struct scope m site state.1 with
  | .ok _ next => (next, state.2)
  | .error ⟨_, .unknown ..⟩ next => (next, state.2)
  | .error ⟨origin, .invalid p⟩ next => (next, state.2 ++ [⟨site.file, origin, p⟩])

/-- The problems of a package. A redeclaration is listed under the file it stands in. -/
def blames (m : Machine) (files : List SourceFile) : List Blame :=
  let built := Scope.build files
  let redeclared : List Blame := built.problems.map fun e => ⟨e.1, e.1, e.2⟩
  ((Site.collect files).foldl (addBlame built.scope m) (.fresh, redeclared)).2

/-! ## The problems of an analysis -/

section

variable (scope : Scope) (m : Machine) (suggest : Bool) (r : Resolver)

/-- A site adds the same problem to both lists, and leaves the same resolver. -/
theorem addBlame_addSite {a : Analysis} {bs : List Blame} (h : a.problems = bs.map Blame.entry) (site : Site) :
    (addSite scope m suggest (r, a) site).1 = (addBlame scope m (r, bs) site).1 ∧
      (addSite scope m suggest (r, a) site).2.problems = (addBlame scope m (r, bs) site).2.map Blame.entry := by
  have hforget : Resolver.Located.forget (Resolver.Located.struct scope m site) r = Resolver.struct scope m site r :=
    congrFun (Resolver.Located.forget_struct scope m site) r
  simp only [Resolver.Located.forget, EStateM.adaptExcept] at hforget
  cases hres : Resolver.Located.struct scope m site r with
  | ok fields next =>
    rw [hres] at hforget
    simp only [addSite, ← hforget, addBlame, hres, true_and]
    exact h
  | error fault next =>
    rw [hres] at hforget
    obtain ⟨origin, reason⟩ := fault
    cases reason with
    | unknown name span =>
      simp only [addSite, ← hforget, addBlame, hres, true_and]
      exact h
    | invalid p =>
      simp only [addSite, ← hforget, addBlame, hres, h, Blame.entry, List.map_append, List.map_cons, List.map_nil,
        true_and]

theorem problems_foldl_addSite {a : Analysis} {bs : List Blame} (h : a.problems = bs.map Blame.entry)
    (sites : List Site) :
    (sites.foldl (addSite scope m suggest) (r, a)).2.problems =
      (sites.foldl (addBlame scope m) (r, bs)).2.map Blame.entry := by
  induction sites generalizing r a bs with
  | nil => exact h
  | cons site rest ih =>
    obtain ⟨hresolver, hproblems⟩ := addBlame_addSite scope m suggest r h site
    simp only [List.foldl_cons]
    rw [← Prod.eta (addSite scope m suggest (r, a) site), ← Prod.eta (addBlame scope m (r, bs) site), hresolver]
    exact ih _ hproblems

end

/-- The problems of an analysis are those found with their origins, without the origins. -/
theorem problems_ofPackage (m : Machine) (suggest : Bool) (files : List SourceFile) :
    (ofPackage m suggest files).problems = (blames m files).map Blame.entry := by
  refine problems_foldl_addSite _ _ _ _ ?_ _
  simp [Blame.entry, Function.comp_def]

/-! ## Origins -/

/-- Every problem arises in the file that is its origin, and is listed under a file of the package. -/
theorem blames_ariseIn (m : Machine) (files : List SourceFile) :
    ∀ b ∈ blames m files, b.problem.ArisesIn files b.origin ∧ b.listed < files.length := by
  have hscope := Scope.build_declaredIn files
  refine List.foldlRecOn (motive := fun state : Resolver × List Blame =>
    ∀ b ∈ state.2, b.problem.ArisesIn files b.origin ∧ b.listed < files.length) _ _ ?_ ?_
  · intro b hb
    obtain ⟨e, he, rfl⟩ := List.mem_map.1 hb
    have harises := hscope.problems e he
    exact ⟨harises, harises.lt_length⟩
  · rintro ⟨r, bs⟩ hbs site hsite b hb
    have hfile := Site.inFile_of_mem_collect hsite
    have htraced := Resolver.Located.traced_struct (m := m) hscope.scope hfile r trivial
    simp only [addBlame] at hb
    cases hres : Resolver.Located.struct (Scope.build files).scope m site r with
    | ok fields next =>
      rw [hres] at hb
      exact hbs b hb
    | error fault next =>
      rw [hres] at hb htraced
      obtain ⟨origin, reason⟩ := fault
      cases reason with
      | unknown name span => exact hbs b hb
      | invalid p =>
        rcases List.mem_append.1 hb with hb | hb
        · exact hbs b hb
        · obtain rfl := List.mem_singleton.1 hb
          exact ⟨htraced p rfl, hfile.lt_length⟩

end Analysis

/-! ## Sources -/

/-- Whether a problem can be shown in a file: its span is a range of the source, and a construct of the file that
    the problem is about stands there. -/
def Problem.ShownIn (sources : List String) (files : List SourceFile) (file : Nat) (p : Problem) : Prop :=
  ∃ source, sources[file]? = some source ∧ p.span.start ≤ p.span.stop ∧ p.span.stop ≤ source.utf8ByteSize ∧
    p.ArisesIn files file

theorem Problem.ArisesIn.shownIn {sources : List String} {files : List SourceFile}
    (hparse : sources.mapM SourceFile.parse = .ok files) {file : Nat} {p : Problem} (h : p.ArisesIn files file) :
    p.ShownIn sources files file := by
  obtain ⟨c, ⟨f, hf, hc⟩, hexplains, hspan⟩ := h
  obtain ⟨source, hsource, hsourceFile⟩ := getElem?_of_mapM_eq_ok hparse hf
  have hplace := hc.within_of_parse hsourceFile
  rw [← hspan] at hplace
  exact ⟨source, hsource, hplace.start_le_stop, hplace.stop.le_utf8ByteSize, c, ⟨f, hf, hc⟩, hexplains, hspan⟩

/-- Whether a problem is listed under the file it arises in, and can be shown there. -/
def Blame.IsRight (sources : List String) (files : List SourceFile) (b : Blame) : Prop :=
  b.listed = b.origin ∧ b.problem.ShownIn sources files b.listed

/-- Problems can be shown in the file they arise in, and are listed right exactly where that is the file of the
    struct literal. In a package of one file all of them are. -/
theorem problems_shown {sources : List String} {files : List SourceFile}
    (h : sources.mapM SourceFile.parse = .ok files) (m : Machine) (suggest : Bool) :
    (Analysis.ofPackage m suggest files).problems = (Analysis.blames m files).map Blame.entry ∧
      (∀ b ∈ Analysis.blames m files,
        b.problem.ShownIn sources files b.origin ∧ (b.IsRight sources files ↔ b.listed = b.origin)) ∧
      (files.length = 1 →
        ∀ e ∈ (Analysis.ofPackage m suggest files).problems, e.2.ShownIn sources files e.1) := by
  have hentries := Analysis.problems_ofPackage m suggest files
  have horigin : ∀ b ∈ Analysis.blames m files, b.problem.ShownIn sources files b.origin := fun b hb =>
    (Analysis.blames_ariseIn m files b hb).1.shownIn h
  refine ⟨hentries, fun b hb => ⟨horigin b hb, fun hright => hright.1, fun heq => ⟨heq, ?_⟩⟩, ?_⟩
  · rw [heq]
    exact horigin b hb
  · intro hone e he
    rw [hentries] at he
    obtain ⟨b, hb, rfl⟩ := List.mem_map.1 he
    obtain ⟨harises, hlisted⟩ := Analysis.blames_ariseIn m files b hb
    -- both are the number of the only file
    have heq : b.listed = b.origin := by
      have := harises.lt_length
      omega
    simp only [Blame.entry, heq]
    exact horigin b hb

/-- A struct of the first file holds an array of the second file, whose length is declared nowhere. -/
def splitSources : List String :=
  ["package p\ntype A struct{ b B }\n", "package p\n\n// B holds a byte for every X.\ntype B [X]byte\n"]

theorem problems_splitSources :
    (splitSources.mapM SourceFile.parse).toOption.map (fun files =>
      ((Analysis.ofPackage .amd64 false files).problems, Analysis.blames .amd64 files)) =
    some ([(0, ⟨.undefined "X", ⟨50, 51⟩⟩)], [⟨0, 1, ⟨.undefined "X", ⟨50, 51⟩⟩⟩]) := by
  decide +kernel

theorem problems_shown_splitSources : ∃ files, splitSources.mapM SourceFile.parse = .ok files ∧
    Problem.ShownIn splitSources files 1 ⟨.undefined "X", ⟨50, 51⟩⟩ := by
  have heval := problems_splitSources
  cases hfiles : splitSources.mapM SourceFile.parse with
  | error e =>
    rw [hfiles] at heval
    cases heval
  | ok files =>
    rw [hfiles] at heval
    obtain ⟨-, hblames⟩ := Prod.mk.inj (Option.some.inj heval)
    obtain ⟨-, hshown, -⟩ := problems_shown hfiles .amd64 false
    exact ⟨files, rfl, (hshown ⟨0, 1, ⟨.undefined "X", ⟨50, 51⟩⟩⟩ (by simp [hblames])).1⟩

/-- The span of a problem may lie behind the end of the file it is listed under. -/
theorem not_all_problems_shown :
    ¬ ∀ (sources : List String) (files : List SourceFile), sources.mapM SourceFile.parse = .ok files →
      ∀ (m : Machine) (suggest : Bool), ∀ e ∈ (Analysis.ofPackage m suggest files).problems,
        e.2.ShownIn sources files e.1 := by
  intro hall
  have heval := problems_splitSources
  cases hfiles : splitSources.mapM SourceFile.parse with
  | error e =>
    rw [hfiles] at heval
    cases heval
  | ok files =>
    rw [hfiles] at heval
    obtain ⟨hproblems, -⟩ := Prod.mk.inj (Option.some.inj heval)
    obtain ⟨source, hsource, -, hstop, -⟩ := hall splitSources files hfiles .amd64 false
      (0, ⟨.undefined "X", ⟨50, 51⟩⟩) (by simp [hproblems])
    -- the first file has 31 bytes
    obtain rfl := Option.some.inj hsource
    revert hstop
    decide

end StructPadding
