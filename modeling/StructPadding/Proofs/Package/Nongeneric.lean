-- SUMMARY: Without type parameters, and with every name declared once, resolution is the unfolding of types.
import StructPadding.Proofs.Package.Calls
import StructPadding.Proofs.Package.Entered

/-!
# Packages without generics

Where every name is declared once, a declared type is found under its name, and no site is mistaken for another type.
Where no type has parameters, a recursive type is one that is held by itself. Resolution then has exactly the outcome
that the unfolding of a site has, whatever was resolved or failed before.
-/

namespace StructPadding

/-! ## Names that are declared once -/

/-- The names that a file declares for the package, in the order in which they are declared. -/
def SourceFile.declares (f : SourceFile) : List String :=
  f.types.map (·.name) ++ f.consts.flatMap fun d => d.names.map Prod.fst

theorem SourceFile.map_name_entered (f : SourceFile) (file : Nat) :
    (f.entered file).map Declaration.name = f.declares := by
  have hconsts : (f.consts.flatMap fun d => d.names.map Prod.fst) =
      (f.consts.flatMap (·.symbols file)).map Prod.fst := by
    rw [← List.map_flatMap, ← f.map_symbols file, List.map_map]
    rfl
  rw [SourceFile.declares, hconsts, SourceFile.entered, List.map_append, List.map_map, List.map_map]
  rfl

namespace Scope

/-- Whether no name is declared twice, the blank one aside. -/
def Unambiguous (files : List SourceFile) : Prop :=
  (files.flatMap SourceFile.declares).Pairwise fun a b => a = b → a = "_"

instance (files : List SourceFile) : Decidable (Unambiguous files) := inferInstanceAs (Decidable (List.Pairwise ..))

theorem Unambiguous.pairwise {files : List SourceFile} (h : Unambiguous files) :
    (entered files).Pairwise fun x y => x.name = y.name → x.name = "_" := by
  refine (List.pairwise_map (f := Declaration.name) (R := fun a b => a = b → a = "_")).1 ?_
  rw [entered, List.map_flatMap]
  simpa [Unambiguous, SourceFile.map_name_entered, ← List.flatMap_map, List.zipIdx_map_fst] using h

theorem type?_build_blank (files : List SourceFile) : (build files).scope.type? "_" = none := (finds_build files "_").1

/-- A type whose name is declared once is found under it. -/
theorem Unambiguous.type?_build {files : List SourceFile} (h : Unambiguous files) {f : SourceFile} {file : Nat}
    (hf : files[file]? = some f) {d : TypeDecl} (hd : d ∈ f.types) (hne : d.name ≠ "_") :
    (build files).scope.type? d.name = some ⟨file, d⟩ := by
  have hmem : Declaration.type ⟨file, d⟩ ∈ entered files :=
    List.mem_flatMap.2 ⟨(f, file), List.mem_zipIdx_iff_getElem?.2 hf, List.mem_append_left _ (List.mem_map_of_mem hd)⟩
  obtain ⟨x, as, bs, hx, hname, hsplit, has⟩ := exists_first? hmem hne
  have hpairs := h.pairwise
  rw [hsplit] at hmem hpairs
  have hsame : x = .type ⟨file, d⟩ := by
    rcases List.mem_append.1 hmem with hmem | hmem
    · exact absurd rfl (has _ hmem)
    · rcases List.mem_cons.1 hmem with hmem | hmem
      · exact hmem.symm
      · have hblank := (List.pairwise_cons.1 (List.pairwise_append.1 hpairs).2.1).1 _ hmem hname
        exact absurd (hname.symm.trans hblank) hne
  have hfound := (finds_build files (Declaration.type ⟨file, d⟩).name).1
  rw [hx, hsame] at hfound
  exact hfound

/-! ## Types without parameters -/

/-- Whether no declared type has parameters. -/
def Nongeneric (scope : Scope) : Prop := ∀ name symbol, scope.type? name = some symbol → symbol.decl.params = []

end Scope

theorem Construct.eq_of_typeDecl_part {d : TypeDecl} {c : Construct} (h : (Construct.typeDecl d).Part c) :
    c = .typeDecl d := by
  induction h with
  | self => rfl
  | argument _ _ ih | field _ _ ih | name _ _ ih | initial _ _ ih => cases ih
  | pointer _ ih | slice _ ih | length _ ih | element _ ih | key _ ih | value _ ih | chan _ ih | literal _ ih
  | lengthExpr _ ih | operand _ ih | left _ ih | right _ ih | converted _ ih | declared _ ih => cases ih

theorem mem_types_of_inFile {files : List SourceFile} {file : Nat} {d : TypeDecl}
    (h : InFile files file (.typeDecl d)) : ∃ f, files[file]? = some f ∧ d ∈ f.types := by
  obtain ⟨f, hf, root, hroot, hpart⟩ := h
  obtain rfl := Construct.eq_of_typeDecl_part hpart
  cases hroot with
  | type hd => exact ⟨f, hf, hd⟩

namespace Scope

theorem build_nongeneric {files : List SourceFile} (h : ∀ f ∈ files, ∀ d ∈ f.types, d.params = []) :
    (build files).scope.Nongeneric := by
  intro name symbol htype
  obtain ⟨f, hf, hd⟩ := mem_types_of_inFile ((build_declaredIn files).scope.of_type? htype).2
  exact h f (List.mem_of_getElem? hf) _ hd

section

variable {scope : Scope} (h : scope.Nongeneric)
include h

/-- Where no type has parameters, no name is one. -/
theorem Nongeneric.binding_of_meets {p q : Part} (hq : scope.Meets p q) (hp : ∀ name, p.env.binding name = .free) :
    ∀ name, q.env.binding name = .free := by
  induction hq with
  | refl => exact hp
  | tail _ hstep ih =>
    cases hstep with
    | element | field => exact ih
    | argument hbinding => cases (ih _).symm.trans hbinding
    | declared _ htype =>
      intro name
      simp [Env.enter_eq_site (h _ _ htype), h _ _ htype]

theorem Nongeneric.not_holdsParameter {name : String} {symbol : TypeSymbol} (htype : scope.type? name = some symbol) :
    ¬ scope.HoldsParameter symbol := by
  rintro ⟨env, name', args, span, hmeets, hself⟩
  have hfree := h.binding_of_meets hmeets (fun name => by simp [TypeSymbol.part, h _ _ htype]) name'
  cases hfree.symm.trans hself

end

end Scope

/-! ## Sites -/

namespace Site

/-- A site outside of functions belongs to a declared type, and is that type where it has its name. -/
theorem exists_typeDecl {files : List SourceFile} {s : Site} (h : s ∈ collect files) (hlocal : s.isLocal = false) :
    ∃ f d, files[s.file]? = some f ∧ d ∈ f.types ∧ s.params = d.params ∧
      ∀ name, s.name = some name → d.name = name ∧ d.type = .struct s.type := by
  obtain ⟨⟨f, file⟩, hfile, hs⟩ := List.mem_flatMap.1 h
  have hf := List.mem_zipIdx_iff_getElem?.1 hfile
  rcases List.mem_append.1 (List.mem_mergeSort.1 hs) with hs | hs
  · obtain ⟨d, hd, hs⟩ := List.mem_flatMap.1 hs
    unfold ofTypeDecl at hs
    split at hs
    · next st htype =>
      rcases List.mem_cons.1 hs with rfl | hs
      · refine ⟨f, d, hf, hd, rfl, ?_⟩
        rintro name ⟨⟩
        exact ⟨rfl, htype⟩
      · obtain ⟨inner, -, rfl⟩ := List.mem_map.1 hs
        exact ⟨f, d, hf, hd, rfl, nofun⟩
    · obtain ⟨inner, -, rfl⟩ := List.mem_map.1 hs
      exact ⟨f, d, hf, hd, rfl, nofun⟩
  · obtain ⟨l, -, hs⟩ := List.mem_flatMap.1 hs
    rcases List.mem_cons.1 hs with rfl | hs
    · cases hlocal
    · obtain ⟨st, -, rfl⟩ := List.mem_map.1 hs
      cases hlocal

theorem not_namesake {files : List SourceFile} (hnames : Scope.Unambiguous files) {s : Site} (h : s ∈ collect files)
    (hlocal : s.isLocal = false) {name : String} {symbol : TypeSymbol}
    (htype : (Scope.build files).scope.type? name = some symbol) : ¬ s.Namesake (Scope.build files).scope name := by
  rintro ⟨hname, hother⟩
  obtain ⟨f, d, hf, hd, hparams, hsame⟩ := exists_typeDecl h hlocal
  obtain ⟨rfl, hstruct⟩ := hsame name hname
  have hne : d.name ≠ "_" := by
    intro heq
    rw [heq, Scope.type?_build_blank] at htype
    cases htype
  exact hother ⟨_, hnames.type?_build hf hd hne, by simp [TypeSymbol.part, part, hparams, hstruct]⟩

end Site

/-! ## Resolution -/

/-- Without type parameters and redeclared names, a site outside of functions is resolved, after any calls, exactly where
    its unfolding is finite, all names and lengths in it mean something, and all of it fits the target. The fields are
    those it unfolds to, and a type that is called recursive is reached by value, and holds itself. -/
theorem outcome_iff_unfolds {files : List SourceFile} (hgeneric : ∀ f ∈ files, ∀ d ∈ f.types, d.params = [])
    (hnames : Scope.Unambiguous files) (m : Machine) (calls : List Site) {s : Site} (hs : s ∈ Site.collect files)
    (hlocal : s.isLocal = false) :
    ((∃ fields, (Resolver.after (Scope.build files).scope m calls).outcome (Scope.build files).scope m s = .ok fields) ↔
      (Scope.build files).scope.Finite s.part ∧
        (∀ q, (Scope.build files).scope.Meets s.part q →
          (Scope.build files).scope.NameResolves m q ∧ (Scope.build files).scope.LengthEvaluates q) ∧
        (Scope.build files).scope.Sized m s.part) ∧
    (∀ fields, (Resolver.after (Scope.build files).scope m calls).outcome (Scope.build files).scope m s = .ok fields →
      (Scope.build files).scope.Unfolds m s.part (.struct fields)) ∧
    ∀ name span, (Resolver.after (Scope.build files).scope m calls).outcome (Scope.build files).scope m s =
        .error (.invalid ⟨.recursiveType name, span⟩) →
      ∃ symbol, (Scope.build files).scope.type? name = some symbol ∧
        (Scope.build files).scope.Meets s.part symbol.part ∧
        Relation.TransGen (Scope.build files).scope.Holds symbol.part symbol.part := by
  have hscope := (Scope.build_declaredIn files).scope
  have hbare := Scope.build_nongeneric hgeneric
  -- there is no reason for an alarm but a type that holds itself
  have halarm : ∀ {e}, Resolver.Alarm (Scope.build files).scope (s.Namesake (Scope.build files).scope) s.part e →
      ∃ symbol span, e = .invalid ⟨.recursiveType symbol.decl.name, span⟩ ∧
        (Scope.build files).scope.type? symbol.decl.name = some symbol ∧ (Scope.build files).scope.Uses s.part symbol ∧
        (Scope.build files).scope.Recursive symbol := by
    rintro e ⟨symbol, span, hcause, htype, huse, hnamesake | hrecursive | hparam⟩
    · exact absurd hnamesake (Site.not_namesake hnames hs hlocal htype)
    · exact ⟨symbol, span, hcause, htype, huse, hrecursive⟩
    · exact absurd hparam (hbare.not_holdsParameter htype)
  refine ⟨⟨?_, ?_⟩, ?_, ?_⟩
  · rintro ⟨fields, hfields⟩
    have hsettles := Resolver.settles_of_outcome hscope hfields
    obtain ⟨hfinite, hall⟩ := Scope.exists_unfolds_iff.1 ⟨_, hsettles.unfolds⟩
    exact ⟨hfinite, hall, hsettles.sized⟩
  · rintro ⟨hfinite, hall, hsized⟩
    obtain ⟨shape, hshape⟩ := Scope.exists_unfolds_iff.2 ⟨hfinite, hall⟩
    cases hres : (Resolver.after (Scope.build files).scope m calls).outcome (Scope.build files).scope m s with
    | ok fields => exact ⟨fields, rfl⟩
    | error e =>
      exfalso
      rcases Resolver.fails_of_outcome hscope hres with hfails | ⟨-, hstuck⟩
      · obtain ⟨symbol, span, -, -, huse, hrecursive⟩ := halarm hfails
        exact hfinite.not_recursive huse hrecursive
      · exact hstuck ⟨shape, hshape, hsized⟩
  · intro fields hfields
    exact (Resolver.settles_of_outcome hscope hfields).unfolds
  · intro name span herror
    rcases Resolver.fails_of_outcome hscope herror with hfails | ⟨hcalm, -⟩
    · obtain ⟨symbol, span', hcause, htype, huse, hrecursive⟩ := halarm hfails
      cases hcause
      obtain ⟨env, args, -, hpath⟩ := huse.exists_enter
      rw [Env.enter_eq_site (hbare _ _ htype)] at hpath
      exact ⟨symbol, htype, hpath.to_reflTransGen, hrecursive.transGen (hbare _ _ htype)⟩
    · cases hcalm

theorem outcome_iff_unfolds_renamed : Scope.Unambiguous [entwinedFile] ∧
    ((∃ fields, (Resolver.after (Scope.build [entwinedFile]).scope .amd64 [entwinedSite]).outcome
        (Scope.build [entwinedFile]).scope .amd64 renamedSite = .ok fields) ↔
      (Scope.build [entwinedFile]).scope.Finite renamedSite.part ∧
        (∀ q, (Scope.build [entwinedFile]).scope.Meets renamedSite.part q →
          (Scope.build [entwinedFile]).scope.NameResolves .amd64 q ∧
            (Scope.build [entwinedFile]).scope.LengthEvaluates q) ∧
        (Scope.build [entwinedFile]).scope.Sized .amd64 renamedSite.part) := by
  have hnames : Scope.Unambiguous [entwinedFile] := by decide
  have hgeneric : ∀ f ∈ [entwinedFile], ∀ d ∈ f.types, d.params = [] := by decide
  have hsite : renamedSite ∈ Site.collect [entwinedFile] := by
    simp [Site.collect, Site.ofFile, Site.ofTypeDecl, entwinedFile, renamedSite]
  exact ⟨hnames, (outcome_iff_unfolds hgeneric hnames .amd64 [entwinedSite] hsite rfl).1⟩

end StructPadding
