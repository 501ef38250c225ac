-- SUMMARY: Packages that declare the same in another order and at other places have the same scope and sites.
import StructPadding.Analysis.Analysis
import StructPadding.Proofs.Package.Definitions
import StructPadding.Proofs.Package.Unplaced

/-!
# Rearranged packages

The declarations of a file can be put into another order, which puts them at other places. Where no name is declared
twice, the scope of the package has the same under each name as before, and the struct literals are the same ones, but
for their places.
-/

namespace StructPadding

/-- Whether a file has the declarations of another one and the same struct literals in functions, at any places and in
    any order, with the same packages imported. -/
structure SourceFile.Rearranged (f f' : SourceFile) : Prop where
  imports : Scope.importsOf f' = Scope.importsOf f
  types : (f'.types.map TypeDecl.unplaced).Perm (f.types.map TypeDecl.unplaced)
  consts : (f'.consts.map ConstDecl.unplaced).Perm (f.consts.map ConstDecl.unplaced)
  locals : (f'.locals.map LocalStruct.unplaced).Perm (f.locals.map LocalStruct.unplaced)

/-- What all files of a package have is permuted if what each of them has is. -/
theorem flatMap_zipIdx_perm {β : Type} {files files' : List SourceFile} {g : SourceFile × Nat → List β}
    (h : List.Forall₂ SourceFile.Rearranged files files')
    (hg : ∀ {f f' : SourceFile} (file : Nat), f.Rearranged f' → (g (f', file)).Perm (g (f, file))) (first : Nat) :
    ((files'.zipIdx first).flatMap g).Perm ((files.zipIdx first).flatMap g) := by
  induction h generalizing first with
  | nil => exact .refl _
  | cons hf _ ih =>
    rw [List.zipIdx_cons, List.zipIdx_cons, List.flatMap_cons, List.flatMap_cons]
    exact (hg first hf).append (ih (first + 1))

/-! ## Declarations -/

def Declaration.unplaced : Declaration → Declaration
  | .type symbol => .type symbol.unplaced
  | .const name symbol => .const name symbol.unplaced

@[simp] theorem Declaration.name_unplaced (x : Declaration) : x.unplaced.name = x.name := by cases x <;> rfl

theorem Declaration.type?_unplaced (x : Declaration) : x.unplaced.type? = x.type?.map TypeSymbol.unplaced := by
  cases x <;> rfl

theorem Declaration.const?_unplaced (x : Declaration) : x.unplaced.const? = x.const?.map ConstSymbol.unplaced := by
  cases x <;> rfl

theorem ConstDecl.symbols_unplaced (d : ConstDecl) (file : Nat) :
    d.unplaced.symbols file = (d.symbols file).map fun e => (e.1, e.2.unplaced) := by
  rw [symbols, symbols, unplaced, List.zipIdx_map, List.map_map, List.map_map]
  refine List.map_congr_left fun e _ => ?_
  simp [ConstSymbol.unplaced]

theorem SourceFile.map_unplaced_entered (f : SourceFile) (file : Nat) :
    (f.entered file).map Declaration.unplaced =
      (f.types.map TypeDecl.unplaced).map (fun d => .type ⟨file, d⟩) ++
        ((f.consts.map ConstDecl.unplaced).flatMap (·.symbols file)).map fun e => .const e.1 e.2 := by
  rw [entered, List.map_append, List.map_map, List.map_map, List.map_map, List.flatMap_map]
  simp only [ConstDecl.symbols_unplaced, ← List.map_flatMap, List.map_map]
  rfl

namespace Scope

/-- Whether no two of some declarations have one name, the blank one aside. -/
def Distinct (xs : List Declaration) : Prop := xs.Pairwise fun x y => x.name = y.name → x.name = "_"

theorem Distinct.of_perm_unplaced {xs ys : List Declaration} (h : Distinct xs)
    (hperm : (ys.map Declaration.unplaced).Perm (xs.map Declaration.unplaced)) : Distinct ys := by
  have hiff (zs : List Declaration) : Distinct zs ↔ Distinct (zs.map Declaration.unplaced) := by
    simp [Distinct, List.pairwise_map]
  rw [hiff] at h ⊢
  exact (hperm.pairwise_iff fun {x y} hxy heq => heq.trans (hxy heq.symm)).2 h

/-- Of distinct declarations, the one with a name does not depend on their order. -/
theorem Distinct.first?_of_perm {xs ys : List Declaration} (h : Distinct xs) (hperm : ys.Perm xs) (name : String) :
    first? ys name = first? xs name := by
  by_cases hname : name = "_"
  · simp [first?, hname]
  rw [first?, first?, if_neg hname, if_neg hname, ← List.head?_filter, ← List.head?_filter]
  have hfilter := hperm.filter fun x => decide (x.name = name)
  -- no two declarations have the name
  cases hxs : xs.filter fun x => decide (x.name = name) with
  | nil => rw [hxs] at hfilter; rw [hfilter.eq_nil]
  | cons x rest =>
    cases rest with
    | nil => rw [hxs] at hfilter; rw [hfilter.eq_singleton]
    | cons y rest =>
      have hpair := h.filter fun x => decide (x.name = name)
      have hmem : x ∈ xs.filter (fun x => decide (x.name = name)) ∧ y ∈ xs.filter fun x => decide (x.name = name) := by
        simp [hxs]
      simp only [List.mem_filter, decide_eq_true_eq] at hmem
      rw [hxs] at hpair
      have hblank := (List.pairwise_cons.1 hpair).1 y (List.mem_cons_self ..) (hmem.1.2.trans hmem.2.2.symm)
      exact absurd (hmem.1.2.symm.trans hblank) hname

theorem first?_map_unplaced (xs : List Declaration) (name : String) :
    first? (xs.map Declaration.unplaced) name = (first? xs name).map Declaration.unplaced := by
  simp only [first?, List.find?_map, Function.comp_def, Declaration.name_unplaced]
  split <;> rfl

theorem map_bind_type? (x : Option Declaration) :
    (x.bind Declaration.type?).map TypeSymbol.unplaced = (x.map Declaration.unplaced).bind Declaration.type? := by
  cases x with
  | none => rfl
  | some x => exact x.type?_unplaced.symm

theorem map_bind_const? (x : Option Declaration) :
    (x.bind Declaration.const?).map ConstSymbol.unplaced = (x.map Declaration.unplaced).bind Declaration.const? := by
  cases x with
  | none => rfl
  | some x => exact x.const?_unplaced.symm

/-- Declarations with names of their own give no problems. -/
theorem problems_foldl_of_distinct {xs : List Declaration} (h : Distinct xs) :
    (xs.foldl Building.add ⟨empty, []⟩).problems = [] := by
  induction xs using List.reverseRecOn with
  | nil => rfl
  | append_singleton xs x ih =>
    obtain ⟨hxs, -, hlast⟩ := List.pairwise_append.1 h
    have hnew : ¬ (first? xs x.name).isSome := by
      rw [first?_isSome_iff]
      rintro ⟨hne, y, hy, hname⟩
      exact hne (hname ▸ hlast y hy x (List.mem_singleton_self x) hname)
    rw [List.foldl_append, List.foldl_cons, List.foldl_nil, (finds_foldl xs).problems_add x, ih hxs, if_neg hnew]
    rfl

/-- Two scopes with the same names and distinct ones have equally many of them. -/
theorem length_eq_of_lookup {α β : Type} {xs : List (String × α)} {ys : List (String × β)}
    (hxs : (xs.map Prod.fst).Nodup) (hys : (ys.map Prod.fst).Nodup)
    (h : ∀ name, (xs.lookup name).isSome = (ys.lookup name).isSome) : xs.length = ys.length := by
  have hmem {γ : Type} (zs : List (String × γ)) (name : String) :
      name ∈ zs.map Prod.fst ↔ (zs.lookup name).isSome = true := by
    rw [← not_iff_not, Bool.not_eq_true, Option.isSome_eq_false_iff, Option.isNone_iff_eq_none, List.lookup_eq_none_iff]
    constructor
    · intro hnone p hp
      exact bne_iff_ne.2 fun heq => hnone (heq ▸ List.mem_map_of_mem hp)
    · intro hnone hmem
      obtain ⟨p, hp, rfl⟩ := List.mem_map.1 hmem
      exact bne_iff_ne.1 (hnone p hp) rfl
  have hperm : (xs.map Prod.fst).Perm (ys.map Prod.fst) :=
    (List.perm_ext_iff_of_nodup hxs hys).2 fun name => by rw [hmem, hmem, h]
  simpa using hperm.length_eq

theorem nodup_names_build (files : List SourceFile) : (build files).scope.names.Nodup := by
  rw [← Definitions.building_package]
  exact ((Definitions.tracks_package files).names.nodup_iff).2 (Definitions.tracks_package files).nodup

theorem imports_build (files : List SourceFile) : (build files).scope.imports = files.map importsOf := by
  rw [build_eq]
  rfl

variable {files files' : List SourceFile} (h : List.Forall₂ SourceFile.Rearranged files files')
include h

theorem entered_perm :
    ((entered files').map Declaration.unplaced).Perm ((entered files).map Declaration.unplaced) := by
  rw [entered, entered, List.map_flatMap, List.map_flatMap]
  refine flatMap_zipIdx_perm h (fun {f f'} file hf => ?_) 0
  rw [SourceFile.map_unplaced_entered, SourceFile.map_unplaced_entered]
  exact (hf.types.map _).append ((hf.consts.flatMap_right _).map _)

variable (hnames : Unambiguous files)
include hnames

/-- Without places, a rearranged package has the same under each name. -/
theorem isUnplacedOf_rearranged : (build files).scope.unplaced.IsUnplacedOf (build files').scope := by
  have hbare := isUnplacedOf_unplaced (build files).scope
  have hfirst (name : String) : (first? (entered files) name).map Declaration.unplaced =
      (first? (entered files') name).map Declaration.unplaced := by
    rw [← first?_map_unplaced, ← first?_map_unplaced]
    refine (Distinct.first?_of_perm ?_ (entered_perm h) name).symm
    simpa [Distinct, List.pairwise_map] using hnames.pairwise
  have htype (name : String) : ((build files).scope.type? name).map TypeSymbol.unplaced =
      ((build files').scope.type? name).map TypeSymbol.unplaced := by
    rw [(finds_build files name).1, (finds_build files' name).1, map_bind_type?, map_bind_type?, hfirst]
  have hconst (name : String) : ((build files).scope.const? name).map ConstSymbol.unplaced =
      ((build files').scope.const? name).map ConstSymbol.unplaced := by
    rw [(finds_build files name).2, (finds_build files' name).2, map_bind_const?, map_bind_const?, hfirst]
  have himports : (build files').scope.imports = (build files).scope.imports := by
    rw [imports_build, imports_build]
    clear hbare hfirst htype hconst hnames
    induction h with
    | nil => rfl
    | cons hf _ ih => rw [List.map_cons, List.map_cons, ih, hf.imports]
  have hnodup (files : List SourceFile) := List.nodup_append.1 (nodup_names_build files)
  refine ⟨fun name => (hbare.type? name).trans (htype name), fun name => (hbare.const? name).trans (hconst name),
    fun file name => ?_, ?_, ?_⟩
  · rw [hbare.importPath?, importPath?, importPath?, himports]
  · rw [hbare.types]
    refine length_eq_of_lookup (hnodup files).1 (hnodup files').1 fun name => ?_
    have hsome := congrArg Option.isSome (htype name)
    rwa [Option.isSome_map, Option.isSome_map] at hsome
  · rw [hbare.consts]
    refine length_eq_of_lookup (hnodup files).2.1 (hnodup files').2.1 fun name => ?_
    have hsome := congrArg Option.isSome (hconst name)
    rwa [Option.isSome_map, Option.isSome_map] at hsome

/-- Both packages have no problems with their declarations. -/
theorem problems_rearranged : (build files).problems = [] ∧ (build files').problems = [] := by
  have hdistinct : Distinct (entered files) := hnames.pairwise
  rw [build_eq, build_eq]
  exact ⟨problems_foldl_of_distinct hdistinct,
    problems_foldl_of_distinct (hdistinct.of_perm_unplaced (entered_perm h))⟩

end Scope

/-! ## Sites -/

namespace Site

/-- The sites of a file as they are declared: those of types first. -/
def declared (file : Nat) (f : SourceFile) : List Site :=
  f.types.flatMap (ofTypeDecl file) ++ f.locals.flatMap (ofLocal file)

theorem ofFile_perm (file : Nat) (f : SourceFile) : (ofFile file f).Perm (declared file f) :=
  List.mergeSort_perm ..

/-- Sites that are declared in the order of their places are listed so. -/
theorem ofFile_eq_declared {file : Nat} {f : SourceFile}
    (h : ((declared file f).map (·.type.keyword.start)).Pairwise (· ≤ ·)) : ofFile file f = declared file f :=
  List.mergeSort_of_pairwise (by simpa [declared] using List.pairwise_map.1 h)

theorem map_unplaced_ofTypeDecl (file : Nat) (d : TypeDecl) :
    (ofTypeDecl file d).map unplaced = ofTypeDecl file d.unplaced := by
  obtain ⟨name, params, isAlias, type, span⟩ := d
  have hstructs := TypeExpr.structs_unplaced type
  cases type with
  | struct st =>
    simp [ofTypeDecl, TypeDecl.unplaced, TypeExpr.unplaced, StructType.inner_unplaced, unplaced, Function.comp_def]
  | _ =>
    simp only [TypeExpr.unplaced] at hstructs
    simp [ofTypeDecl, TypeDecl.unplaced, TypeExpr.unplaced, unplaced, hstructs, Function.comp_def]

theorem map_unplaced_ofLocal (file : Nat) (l : LocalStruct) :
    (ofLocal file l).map unplaced = ofLocal file l.unplaced := by
  rw [ofLocal, ofLocal, LocalStruct.unplaced, StructType.inner_unplaced]
  simp [unplaced, Function.comp_def]

theorem map_unplaced_declared (file : Nat) (f : SourceFile) :
    (declared file f).map unplaced =
      (f.types.map TypeDecl.unplaced).flatMap (ofTypeDecl file) ++
        (f.locals.map LocalStruct.unplaced).flatMap (ofLocal file) := by
  simp only [declared, List.map_append, List.map_flatMap, List.flatMap_map, map_unplaced_ofTypeDecl,
    map_unplaced_ofLocal]

/-- Without places, a rearranged package has the same sites. -/
theorem collect_perm {files files' : List SourceFile} (h : List.Forall₂ SourceFile.Rearranged files files') :
    ((collect files').map unplaced).Perm ((collect files).map unplaced) := by
  rw [collect, collect, List.map_flatMap, List.map_flatMap]
  refine flatMap_zipIdx_perm h (fun {f f'} file hf => ?_) 0
  refine ((ofFile_perm file f').map unplaced).trans (.trans ?_ ((ofFile_perm file f).map unplaced).symm)
  rw [map_unplaced_declared, map_unplaced_declared]
  exact (hf.types.flatMap_right _).append (hf.locals.flatMap_right _)

end Site

end StructPadding
