-- SUMMARY: Types of other packages are known without type arguments only: a struct that has one with them is skipped.
import StructPadding.Proofs.Analysis.Isolation
import StructPadding.Proofs.Package.Entered

/-!
# Instantiated types of other packages

What is known of the types of other packages is looked up by their names, and only for types without type arguments. A
type that is written with arguments is unknown, whatever is known of it, and so is every struct that has it by value.
That includes the atomic pointer, which cannot be written without its argument.
-/

namespace StructPadding

namespace Library

/-- What is known of the atomic pointer. -/
def atomicPointer : Shape := .struct [⟨"_", .array Scalar.pointer 0⟩, marker, ⟨"v", Scalar.pointer⟩]

theorem type?_atomicPointer (m : Machine) : type? m "sync/atomic" "Pointer" = some atomicPointer := rfl

end Library

/-- Whether a file imports a package, and no other one, under a name. -/
def SourceFile.Imports (f : SourceFile) (path name : String) : Prop :=
  (∃ i ∈ f.imports, i.path = path ∧ i.localName = name) ∧ ∀ i ∈ f.imports, i.localName = name → i.path = path

/-- A name that a file imports a package under leads to that package. -/
theorem Scope.importPath?_build {files : List SourceFile} {file : Nat} {f : SourceFile} {path name : String}
    (hfile : files[file]? = some f) (himports : f.Imports path name) (hblank : name ≠ "_") (hdot : name ≠ ".") :
    (build files).scope.importPath? file name = some path := by
  have hscope : (build files).scope.imports = files.map importsOf := by rw [build_eq]; rfl
  have hlookup : (importsOf f).lookup name = some path := by
    obtain ⟨⟨i, hi, hpath, hname⟩, hall⟩ := himports
    cases hfound : (importsOf f).lookup name with
    | none =>
      have hmem : (name, path) ∈ importsOf f := by
        simp only [importsOf, List.mem_reverse, List.mem_filterMap]
        exact ⟨i, hi, by simp [hname, hpath, hblank, hdot]⟩
      exact absurd rfl (bne_iff_ne.1 (List.lookup_eq_none_iff.1 hfound _ hmem))
    | some other =>
      obtain ⟨before, after, hsplit, -⟩ := List.lookup_eq_some_iff.1 hfound
      have hmem : (name, other) ∈ importsOf f := hsplit ▸ List.mem_append_right _ (List.mem_cons_self ..)
      simp only [importsOf, List.mem_reverse, List.mem_filterMap] at hmem
      obtain ⟨j, hj, hentry⟩ := hmem
      split at hentry
      · cases hentry
      · cases hentry
        rw [hall j hj rfl]
  rw [importPath?, hscope, List.getElem?_map, hfile]
  exact hlookup

namespace Resolver

variable {scope : Scope} {m : Machine} {env : Env} {names : Names} {package name path : String} {args : List TypeExpr}
  {span : Span}

/-! ## Fields -/

theorem qualified_of_args (himport : scope.importPath? env.file package = some path) (hargs : args ≠ []) :
    qualified scope m env package name args span = throw (.unknown s!"{package}.{name}" span) := by
  simp [qualified, himport, hargs]

theorem qualified_nil {shape : Shape} (himport : scope.importPath? env.file package = some path)
    (htype : Library.type? m path name = some shape) : qualified scope m env package name [] span = pure shape := by
  simp [qualified, himport, htype]

theorem fieldsWith_cons (d : FieldDecl) (rest : List FieldDecl) :
    fieldsWith scope m env names (d :: rest) = do
      let shape ← shapeWith scope m env names d.type
      let fields ← fieldsWith scope m env names rest
      return d.fieldNames.map (⟨·, shape⟩) ++ fields := by
  cases d
  rfl

/-- Fields fail as one of them does, unless one in front of it fails. -/
theorem fieldsWith_of_throw {d : FieldDecl} {e : Unresolved} (hthrow : shapeWith scope m env names d.type = throw e)
    (before after : List FieldDecl) (r : Resolver) :
    fieldsWith scope m env names (before ++ d :: after) r =
      match fieldsWith scope m env names before r with
      | .ok _ t => .error e t
      | .error e' t => .error e' t := by
  induction before generalizing r with
  | nil =>
    rw [List.nil_append, fieldsWith_cons, hthrow]
    rfl
  | cons first rest ih =>
    rw [List.cons_append, fieldsWith_cons, fieldsWith_cons]
    simp only [bind, EStateM.bind]
    cases shapeWith scope m env names first.type r with
    | error e' t => rfl
    | ok shape t =>
      simp only [ih]
      cases fieldsWith scope m env names rest t <;> rfl

/-- A struct literal fails as its fields do. -/
theorem structWith_of_error (st : StructType) {r t : Resolver} {e : Unresolved}
    (h : fieldsWith scope m env names st.fields r = .error e t) : structWith scope m env names st r = .error e t := by
  obtain ⟨fields, keyword, span⟩ := st
  simp only [structWith, bind, EStateM.bind, h]

/-- Every name of a field is a field of the shape that its type has. -/
theorem mem_fieldsWith {decls : List FieldDecl} {d : FieldDecl} {shape : Shape} {r t : Resolver} {fields : List Field}
    (hshape : shapeWith scope m env names d.type = pure shape) (hd : d ∈ decls)
    (h : fieldsWith scope m env names decls r = .ok fields t) : ∀ name ∈ d.fieldNames, ⟨name, shape⟩ ∈ fields := by
  induction decls generalizing r t fields with
  | nil => cases hd
  | cons first rest ih =>
    rw [fieldsWith_cons] at h
    obtain ⟨own, u, hfirst, h⟩ := bind_eq_ok_iff.1 h
    obtain ⟨others, v, hrest, h⟩ := bind_eq_ok_iff.1 h
    obtain ⟨rfl, -⟩ := pure_eq_ok_iff.1 h
    intro name hname
    rcases List.mem_cons.1 hd with rfl | hd
    · rw [hshape] at hfirst
      cases hfirst
      exact List.mem_append_left _ (List.mem_map_of_mem hname)
    · exact List.mem_append_right _ (ih hd hrest name hname)

/-- A struct literal has the fields that are written in it. -/
theorem fieldsWith_of_structWith {st : StructType} {r t : Resolver} {fields : List Field}
    (h : structWith scope m env names st r = .ok fields t) :
    ∃ u, fieldsWith scope m env names st.fields r = .ok fields u := by
  obtain ⟨decls, keyword, span⟩ := st
  obtain ⟨own, u, hfields, h⟩ := bind_eq_ok_iff.1 h
  refine ⟨u, hfields.trans (congrArg (EStateM.Result.ok · u) ?_)⟩
  split at h <;> cases h
  rfl

/-! ## Sites -/

/-- The resolver with a site in progress, under its name if it has one. -/
def entering (r : Resolver) (s : Site) : Resolver :=
  match s.name with
  | some name => { r with resolving := name :: r.resolving }
  | none => r

theorem outcome_eq (r : Resolver) (s : Site) :
    r.outcome scope m s =
      match structIn scope m (.site s.file s.params s.isLocal) s.type (r.entering s) with
      | .ok fields _ => .ok fields
      | .error e _ => .error e := by
  simp only [outcome, struct, structOr, entering]
  cases s.name with
  | none => rfl
  | some name =>
    simp only [within]
    cases structIn scope m (.site s.file s.params s.isLocal) s.type { r with resolving := name :: r.resolving } <;> rfl

/-- The site with some other fields. -/
def withFields (s : Site) (fields : List FieldDecl) : Site := { s with type := { s.type with fields } }

/-- A struct fails as a field of it does, unless a field in front of that one fails. -/
theorem outcome_of_throw {s : Site} {before after : List FieldDecl} {d : FieldDecl} {e : Unresolved}
    (hfields : s.type.fields = before ++ d :: after)
    (hthrow : shapeIn scope m (declared scope m scope.types.length) (.site s.file s.params s.isLocal) d.type = throw e)
    (r : Resolver) :
    r.outcome scope m s = .error e ∨
      ∃ e', r.outcome scope m (withFields s before) = .error e' ∧ r.outcome scope m s = .error e' := by
  have hwhole := fieldsWith_of_throw hthrow before after (r.entering s)
  rw [← hfields] at hwhole
  rw [outcome_eq, outcome_eq, structIn, structIn]
  cases hbefore : fieldsWith scope m (.site s.file s.params s.isLocal)
      (namesIn scope m (declared scope m scope.types.length) (.site s.file s.params s.isLocal)) before
      (r.entering s) with
  | ok fields t =>
    rw [hbefore] at hwhole
    exact .inl (by rw [structWith_of_error s.type hwhole])
  | error e' t =>
    rw [hbefore] at hwhole
    refine .inr ⟨e', ?_, by rw [structWith_of_error s.type hwhole]⟩
    have hcut := structWith_of_error (withFields s before).type hbefore
    simp only [withFields, entering] at hcut ⊢
    rw [hcut]

/-- A struct that is resolved has its fields with the shapes of their types. -/
theorem mem_fields_of_outcome {s : Site} {d : FieldDecl} {shape : Shape} {fields : List Field} {r : Resolver}
    (hshape : shapeIn scope m (declared scope m scope.types.length) (.site s.file s.params s.isLocal) d.type =
      pure shape)
    (hd : d ∈ s.type.fields) (hok : r.outcome scope m s = .ok fields) :
    ∀ name ∈ d.fieldNames, ⟨name, shape⟩ ∈ fields := by
  rw [outcome_eq] at hok
  split at hok
  · next fields' t hfields =>
    cases hok
    obtain ⟨u, hu⟩ := fieldsWith_of_structWith hfields
    exact mem_fieldsWith hshape hd hu
  · cases hok

end Resolver

/-- A struct that has an instantiated type of another package by value has no fields, and there is no report on it. -/
theorem Scope.Meets.not_resolved {files : List SourceFile} {m : Machine} {s : Site} {env : Env}
    {package name : String} {args : List TypeExpr} {span : Span}
    (hmeets : (Scope.build files).scope.Meets s.part ⟨env, .named (some package) name args span⟩) (hargs : args ≠ [])
    (calls : List Site) (suggest : Bool) :
    let outcome := (Resolver.after (Scope.build files).scope m calls).outcome (Scope.build files).scope m s
    (∀ fields, outcome ≠ .ok fields) ∧ Analysis.reportOf m suggest s outcome = none := by
  intro outcome
  have hfails : ∀ fields, outcome ≠ .ok fields := fun fields hok => by
    have hsettles := Resolver.settles_of_outcome (Scope.build_declaredIn files).scope hok
    obtain ⟨shape, hshape⟩ := hsettles.unfolds.of_meets hmeets
    exact hargs hshape.nameResolves.1.1
  refine ⟨hfails, ?_⟩
  cases houtcome : outcome with
  | ok fields => exact absurd houtcome (hfails fields)
  | error e => rfl

/-- Under whatever name a file imports the package of the atomic pointer, the type without an argument has the layout
    that is known of it. With arguments it is unknown: the fields of a struct are not known beyond it, and a struct that
    has it by value, directly or in other types, has no fields and is passed over. -/
theorem atomicPointer_shape (files : List SourceFile) (m : Machine) {file : Nat} {f : SourceFile} {p : String}
    (hfile : files[file]? = some f) (himports : f.Imports "sync/atomic" p) (hblank : p ≠ "_") (hdot : p ≠ ".")
    (args : List TypeExpr) (span : Span) :
    let scope := (Scope.build files).scope
    let type := TypeExpr.named (some p) "Pointer" args span
    let unknown := Unresolved.unknown s!"{p}.Pointer" span
    let outcome (calls : List Site) (s : Site) := (Resolver.after scope m calls).outcome scope m s
    (∀ (declared : Resolver.Declared) (env : Env), env.file = file →
        Resolver.shapeIn scope m declared env type = if args = [] then pure Library.atomicPointer else throw unknown) ∧
      (args = [] → ∀ (calls : List Site) (s : Site) (d : FieldDecl) (fields : List Field), s.file = file →
        d ∈ s.type.fields → d.type = type → outcome calls s = .ok fields →
          ∀ name ∈ d.fieldNames, ⟨name, Library.atomicPointer⟩ ∈ fields) ∧
      (args ≠ [] →
        (∀ (calls : List Site) (s : Site) (before after : List FieldDecl) (d : FieldDecl), s.file = file →
          s.type.fields = before ++ d :: after → d.type = type →
            outcome calls s = .error unknown ∨
              ∃ e, outcome calls (Resolver.withFields s before) = .error e ∧ outcome calls s = .error e) ∧
        ∀ (calls : List Site) (s : Site) (env : Env) (suggest : Bool), scope.Meets s.part ⟨env, type⟩ →
          (∀ fields, outcome calls s ≠ .ok fields) ∧ Analysis.reportOf m suggest s (outcome calls s) = none) := by
  intro scope type unknown outcome
  have himport := Scope.importPath?_build hfile himports hblank hdot
  have hplain (declared : Resolver.Declared) (env : Env) (henv : env.file = file) (hargs : args = []) :
      Resolver.shapeIn scope m declared env type = pure Library.atomicPointer := by
    subst henv hargs
    exact Resolver.shapeWith_qualified.trans (Resolver.qualified_nil himport (Library.type?_atomicPointer m))
  have hinstance (declared : Resolver.Declared) (env : Env) (henv : env.file = file) (hargs : args ≠ []) :
      Resolver.shapeIn scope m declared env type = throw unknown := by
    subst henv
    have hname : p ++ "." ++ "Pointer" = p ++ ".Pointer" := String.append_assoc ..
    rw [show unknown = .unknown (p ++ "." ++ "Pointer") span from congrArg (Unresolved.unknown · span) hname.symm]
    exact Resolver.shapeWith_qualified.trans (Resolver.qualified_of_args himport hargs)
  refine ⟨fun declared env henv => ?_, fun hargs calls s d fields hfile hd htype hok => ?_, fun hargs => ⟨?_, ?_⟩⟩
  · split
    · next hargs => exact hplain declared env henv hargs
    · next hargs => exact hinstance declared env henv hargs
  · exact Resolver.mem_fields_of_outcome (by rw [htype]; exact hplain _ _ hfile hargs) hd hok
  · intro calls s before after d hfile hfields htype
    exact Resolver.outcome_of_throw hfields (by rw [htype]; exact hinstance _ _ hfile hargs) _
  · exact fun calls s env suggest hmeets => hmeets.not_resolved hargs calls suggest

/-- A struct with an atomic pointer and a flag. -/
def guardedSite : Site :=
  ⟨0, some "T", [], false,
    ⟨[⟨["p"], .named (some "atomic") "Pointer" [.named none "int" [] ⟨63, 66⟩] ⟨48, 67⟩, none, ⟨46, 67⟩⟩,
      ⟨["b"], .named none "bool" [] ⟨71, 75⟩, none, ⟨69, 75⟩⟩], ⟨38, 44⟩, ⟨38, 77⟩⟩⟩

/-- A file that declares it. -/
def guardedFile : SourceFile where
  package := "p"
  imports := [⟨none, "sync/atomic", ⟨17, 30⟩⟩]
  types := [⟨"T", [], false, .struct guardedSite.type, ⟨36, 77⟩⟩]
  consts := []
  locals := []
  span := ⟨0, 78⟩

theorem imports_guardedFile : guardedFile.Imports "sync/atomic" "atomic" := by
  have hname : (Import.mk none "sync/atomic" ⟨17, 30⟩).localName = "atomic" := by decide +kernel
  simp [SourceFile.Imports, guardedFile, hname]

theorem atomicPointer_shape_guarded : guardedFile.Imports "sync/atomic" "atomic" ∧
    Resolver.fresh.outcome (Scope.build [guardedFile]).scope .amd64 guardedSite =
      .error (.unknown "atomic.Pointer" ⟨48, 67⟩) := by
  have hfile : [guardedFile][0]? = some guardedFile := rfl
  obtain ⟨-, -, hunknown⟩ := atomicPointer_shape [guardedFile] .amd64 hfile imports_guardedFile (by decide)
    (by decide) [.named none "int" [] ⟨63, 66⟩] ⟨48, 67⟩
  refine ⟨imports_guardedFile, ?_⟩
  -- no field stands in front of the pointer
  rcases (hunknown (by simp)).1 [] guardedSite [] _ _ rfl rfl rfl with herror | ⟨e, hbefore, -⟩
  · exact herror
  · cases hbefore

/-- An instantiated atomic pointer need not have the layout that is known of it. -/
theorem not_all_atomicPointer_shape :
    ¬ ∀ (files : List SourceFile) (m : Machine), ∀ s ∈ Site.collect files, ∀ d ∈ s.type.fields,
      ∀ (f : SourceFile) (p : String) (arg : TypeExpr) (span : Span), files[s.file]? = some f →
        f.Imports "sync/atomic" p → d.type = .named (some p) "Pointer" [arg] span →
          ∃ r, Resolver.shapeIn (Scope.build files).scope m
            (Resolver.declared (Scope.build files).scope m (Scope.build files).scope.types.length)
            (.site s.file s.params s.isLocal) d.type .fresh = .ok Library.atomicPointer r := by
  intro hall
  have hsite : guardedSite ∈ Site.collect [guardedFile] := by
    simp [Site.collect, Site.ofFile, Site.ofTypeDecl, guardedFile, guardedSite]
  obtain ⟨r, hr⟩ := hall [guardedFile] .amd64 guardedSite hsite _ (List.mem_cons_self ..) guardedFile "atomic" _ _ rfl
    imports_guardedFile rfl
  cases hr

end StructPadding
