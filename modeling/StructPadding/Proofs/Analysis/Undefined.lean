-- SUMMARY: Where names that are declared nowhere are undefined, and where they are unknown.
import StructPadding.Proofs.Analysis.Attribution
import StructPadding.Proofs.Package.Lenient

/-!
# Undefined names

In a function, names may belong to declarations that are not looked at. A struct literal there is skipped where a type
or a package of it is declared nowhere, as its name is unknown. An array length is evaluated as it is everywhere else,
so that a constant of a function in it is undefined.
-/

namespace StructPadding

/-! ## Declarations -/

/-- A file without the struct literals of its functions. -/
def SourceFile.declarations (f : SourceFile) : SourceFile := { f with locals := [] }

variable {files : List SourceFile}

/-- What is declared in a package does not depend on its functions. -/
theorem Scope.build_declarations (files : List SourceFile) :
    Scope.build (files.map SourceFile.declarations) = Scope.build files := by
  simp only [Scope.build, List.zipIdx_map, List.foldl_map]
  rfl

/-- A struct literal outside of functions is part of a declaration. -/
theorem Site.inFile_declarations {site : Site} (h : site ∈ Site.collect files) (hlocal : ¬ site.isLocal) :
    InFile (files.map SourceFile.declarations) site.file (.struct site.type) := by
  obtain ⟨⟨f, file⟩, hfile, hsite⟩ := List.mem_flatMap.1 h
  have hf : files[file]? = some f := List.mem_zipIdx_iff_getElem?.1 hfile
  rcases List.mem_append.1 (List.mem_mergeSort.1 hsite) with htypes | hlocals
  · obtain ⟨d, hd, hof⟩ := List.mem_flatMap.1 htypes
    obtain ⟨heq, hpart⟩ := part_of_mem_ofTypeDecl hof
    rw [heq]
    exact ⟨f.declarations, by simp [hf], _, .type hd, .declared hpart⟩
  · obtain ⟨l, -, hof⟩ := List.mem_flatMap.1 hlocals
    rcases List.mem_cons.1 hof with rfl | hinner
    · exact absurd rfl hlocal
    · obtain ⟨st, -, rfl⟩ := List.mem_map.1 hinner
      exact absurd rfl hlocal

/-! ## Struct literals -/

/-- Whether an array length of a struct literal has a name, of a constant or of a package, at a span. -/
def StructType.LengthNames (st : StructType) (name : String) (span : Span) : Prop :=
  ∃ (length x : Expr), (Construct.length length).Part (.struct st) ∧ (Construct.expr x).Part (.length length) ∧
    (Construct.expr x).Explains (.undefined name) ∧ x.span = span

/-- Whether a name may be undefined for a struct literal, at a span of a file: in an array length of a literal that
    stands in a function, and in a declaration. -/
def Site.MayLack (files : List SourceFile) (site : Site) (file : Nat) (name : String) (span : Span) : Prop :=
  (site.isLocal ∧ file = site.file ∧ site.type.LengthNames name span) ∨
    Problem.ArisesIn (files.map SourceFile.declarations) file ⟨.undefined name, span⟩

/-- Whether a fault is about a name that may be undefined for a struct literal, if it is about an undefined name. -/
def Site.Excuses (files : List SourceFile) (site : Site) (f : Fault) : Prop :=
  ∀ name span, f.reason = .invalid ⟨.undefined name, span⟩ → site.MayLack files f.file name span

theorem Fault.ArisesIn.excused {f : Fault} (h : f.ArisesIn (files.map SourceFile.declarations)) (site : Site) :
    site.Excuses files f := fun _ _ hreason => .inr (h _ hreason)

/-- In a function, the types of a struct literal are not blamed for names, but its lengths are. -/
theorem Site.admits_excuses {site : Site} (h : site ∈ Site.collect files) :
    (Env.site site.file site.params site.isLocal).Admits (site.Excuses files) (.struct site.type) := by
  by_cases hlocal : site.isLocal
  · intro d cause hd hcause hexempt name span hreason
    cases hreason
    cases hcause with
    | undefinedType | undefinedPackage => exact absurd ⟨hlocal, _, _, rfl, rfl⟩ hexempt
    | undefinedConst =>
      obtain ⟨length, hlength, hx⟩ := hd.exists_length trivial
      exact .inl ⟨hlocal, rfl, length, _, hlength, hx, .undefinedConst, rfl⟩
    | undefinedQualifier =>
      obtain ⟨length, hlength, hx⟩ := hd.exists_length trivial
      exact .inl ⟨hlocal, rfl, length, _, hlength, hx, .undefinedQualifier, rfl⟩
  · have hdeclared := (Site.inFile_declarations h hlocal).admits.mono fun _ hf => hf.excused site
    exact Env.admits_of_construct hdeclared

/-- The faults of a struct literal that are about undefined names are about those that may be undefined for it. -/
theorem Site.failsWith_excuses {site : Site} (h : site ∈ Site.collect files) (m : Machine) :
    Resolver.Located.FailsWith (site.Excuses files)
      (Resolver.Located.struct (Scope.build files).scope m site) := by
  have hscope : (Scope.build files).scope.Admits (site.Excuses files) := by
    rw [← Scope.build_declarations]
    exact (Scope.build_declaredIn _).scope.admits.mono fun _ hf => hf.excused site
  exact Resolver.Located.failsWith_struct hscope (Site.admits_excuses h)

/-- A name that is undefined for resolution is one that may be undefined for the struct literal. -/
theorem Site.mayLack_of_struct {site : Site} (hsite : site ∈ Site.collect files) {m : Machine} {r next : Resolver}
    {name : String} {span : Span}
    (h : Resolver.struct (Scope.build files).scope m site r = .error (.invalid ⟨.undefined name, span⟩) next) :
    ∃ file, Resolver.Located.struct (Scope.build files).scope m site r =
        .error ⟨file, .invalid ⟨.undefined name, span⟩⟩ next ∧
      site.MayLack files file name span := by
  have hexcuses := Site.failsWith_excuses hsite m r trivial
  rw [← Resolver.Located.forget_struct] at h
  simp only [Resolver.Located.forget, EStateM.adaptExcept] at h
  cases hres : Resolver.Located.struct (Scope.build files).scope m site r with
  | ok fields t =>
    rw [hres] at h
    cases h
  | error f t =>
    rw [hres] at h hexcuses
    obtain ⟨file, reason⟩ := f
    cases h
    exact ⟨file, rfl, hexcuses name span rfl⟩

/-! ## Problems -/

/-- The undefined names of a package are found in array lengths in functions, and in declarations. -/
theorem Analysis.blames_undefined (m : Machine) (files : List SourceFile) :
    ∀ b ∈ blames m files, ∀ name, b.problem.cause = .undefined name →
      (∃ site ∈ Site.collect files, b.listed = site.file ∧ site.MayLack files b.origin name b.problem.span) ∨
        b.problem.ArisesIn (files.map SourceFile.declarations) b.origin := by
  refine List.foldlRecOn (motive := fun state : Resolver × List Blame => ∀ b ∈ state.2, ∀ name,
    b.problem.cause = .undefined name →
      (∃ site ∈ Site.collect files, b.listed = site.file ∧ site.MayLack files b.origin name b.problem.span) ∨
        b.problem.ArisesIn (files.map SourceFile.declarations) b.origin) _ _ ?_ ?_
  · intro b hb name _
    rw [← Scope.build_declarations] at hb
    obtain ⟨e, he, rfl⟩ := List.mem_map.1 hb
    exact .inr ((Scope.build_declaredIn _).problems e he)
  · rintro ⟨r, bs⟩ hbs site hsite b hb name hcause
    have hexcuses := Site.failsWith_excuses hsite m r trivial
    simp only [addBlame] at hb
    cases hres : Resolver.Located.struct (Scope.build files).scope m site r with
    | ok fields next =>
      rw [hres] at hb
      exact hbs b hb name hcause
    | error fault next =>
      rw [hres] at hb hexcuses
      obtain ⟨origin, reason⟩ := fault
      cases reason with
      | unknown missing span => exact hbs b hb name hcause
      | invalid p =>
        rcases List.mem_append.1 hb with hold | hnew
        · exact hbs b hold name hcause
        · obtain rfl := List.mem_singleton.1 hnew
          obtain ⟨cause, span⟩ := p
          obtain rfl : cause = .undefined name := hcause
          exact .inl ⟨site, hsite, rfl, hexcuses name span rfl⟩

/-- How names that are declared nowhere are treated in functions. A struct literal there is resolved as it is outside
    of functions, except that what is undefined may be unknown, and is skipped then. Undefined are only names in array
    lengths of the literal and in declarations. The problems of a package with undefined names are no others. -/
theorem undefined_inFunctions (m : Machine) (files : List SourceFile) :
    (∀ site ∈ Site.collect files, site.isLocal →
      Resolver.Lenient (Resolver.struct (Scope.build files).scope m { site with isLocal := false })
          (Resolver.struct (Scope.build files).scope m site) ∧
        ∀ (r next : Resolver) (name : String) (span : Span),
          Resolver.struct (Scope.build files).scope m site r = .error (.invalid ⟨.undefined name, span⟩) next →
            ∃ file, Resolver.Located.struct (Scope.build files).scope m site r =
                .error ⟨file, .invalid ⟨.undefined name, span⟩⟩ next ∧
              site.MayLack files file name span) ∧
      ∀ suggest, ∀ e ∈ (Analysis.ofPackage m suggest files).problems, ∀ name, e.2.cause = .undefined name →
        ∃ file, Problem.ArisesIn (files.map SourceFile.declarations) file e.2 ∨
          ∃ site ∈ Site.collect files, e.1 = site.file ∧ site.MayLack files file name e.2.span := by
  refine ⟨fun site hsite hlocal => ⟨?_, fun r next name span => Site.mayLack_of_struct hsite⟩, ?_⟩
  · obtain ⟨file, name, params, isLocal, st⟩ := site
    obtain rfl : isLocal = true := hlocal
    exact Resolver.lenient_struct ⟨file, name, params, false, st⟩
  · intro suggest e he name hcause
    rw [Analysis.problems_ofPackage] at he
    obtain ⟨b, hb, rfl⟩ := List.mem_map.1 he
    exact ⟨b.origin, (Analysis.blames_undefined m files b hb name hcause).symm⟩

/-- A struct literal with a type of the function around it. -/
def typedSite : Site :=
  ⟨0, none, [], true, ⟨[⟨["a"], .named none "T" [] ⟨64, 65⟩, none, ⟨62, 65⟩⟩], ⟨54, 60⟩, ⟨54, 67⟩⟩⟩

/-- A struct literal with an array whose length is a constant of the function around it. -/
def sizedSite : Site :=
  ⟨0, none, [], true,
    ⟨[⟨["a"], .array (.name none "N" ⟨86, 87⟩) (.named none "T" [] ⟨88, 89⟩) ⟨85, 89⟩, none, ⟨83, 89⟩⟩], ⟨75, 81⟩,
      ⟨75, 91⟩⟩⟩

/-- A file with a function that declares the type `T` and the constant `N`, and has both literals. -/
def bodyFile : SourceFile where
  package := "p"
  imports := []
  types := []
  consts := []
  locals := [⟨none, typedSite.type⟩, ⟨none, sizedSite.type⟩]
  span := ⟨0, 94⟩

theorem mem_collect_bodyFile {s : Site} : s ∈ Site.collect [bodyFile] ↔ s = typedSite ∨ s = sizedSite := by
  simp [Site.collect, Site.ofFile, Site.ofLocal, StructType.inner, structsOfFields, FieldDecl.structs,
    TypeExpr.structs, structsOfAll, bodyFile, typedSite, sizedSite]

theorem struct_sizedSite : Resolver.struct (Scope.build [bodyFile]).scope .amd64 sizedSite .fresh =
    .error (.invalid ⟨.undefined "N", ⟨86, 87⟩⟩) .fresh := rfl

theorem undefined_inFunctions_body :
    Resolver.struct (Scope.build [bodyFile]).scope .amd64 typedSite .fresh = .error (.unknown "T" ⟨64, 65⟩) .fresh ∧
      ∃ file, Resolver.Located.struct (Scope.build [bodyFile]).scope .amd64 sizedSite .fresh =
          .error ⟨file, .invalid ⟨.undefined "N", ⟨86, 87⟩⟩⟩ .fresh ∧
        sizedSite.MayLack [bodyFile] file "N" ⟨86, 87⟩ := by
  obtain ⟨hlocal, -⟩ := undefined_inFunctions .amd64 [bodyFile]
  obtain ⟨hlenient, -⟩ := hlocal typedSite (mem_collect_bodyFile.2 (.inl rfl)) rfl
  refine ⟨?_, (hlocal sizedSite (mem_collect_bodyFile.2 (.inr rfl)) rfl).2 _ _ _ _ struct_sizedSite⟩
  -- outside of a function the type is undefined
  rcases hlenient .fresh with hsame | ⟨name, span, next, hstrict, hunknown⟩
  · cases hsame
  · cases hstrict
    exact hunknown

/-- A constant of a function is undefined in an array length of a struct literal there. -/
theorem not_all_undefined_unknown :
    ¬ ∀ (files : List SourceFile) (m : Machine), ∀ site ∈ Site.collect files, site.isLocal →
      ∀ (c : Construct) (name : String), c.Part (.struct site.type) → c.Explains (.undefined name) →
        ∀ next, Resolver.struct (Scope.build files).scope m site .fresh ≠
          .error (.invalid ⟨.undefined name, c.span⟩) next := by
  intro hall
  refine hall [bodyFile] .amd64 sizedSite (mem_collect_bodyFile.2 (.inr rfl)) rfl (.expr (.name none "N" ⟨86, 87⟩)) "N"
    ?_ .undefinedConst .fresh struct_sizedSite
  exact .field (List.mem_singleton_self _) (.length (.lengthExpr .self))

end StructPadding
