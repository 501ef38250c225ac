-- SUMMARY: Types and constants defined one after another: the first definition of a name stands alone and stays.
import StructPadding.Proofs.Package.Nongeneric

/-!
# Sequences of definitions

Types and constants can be defined in a scope one after another, in any order. What has been defined is always found,
by one name each, and a definition is refused exactly if its name has been defined before. The scope of a package comes
about in the same way, from the declarations of its files that are not blank.
-/

namespace StructPadding.Scope

/-! ## One definition -/

/-- Define a type or a constant, unless its name is taken. -/
def define (s : Scope) : Declaration → Except Cause Scope
  | .type symbol => s.defineType symbol
  | .const name symbol => s.defineConst name symbol

theorem define_eq (s : Scope) (x : Declaration) :
    s.define x = if s.isDeclared x.name then .error (.redeclared x.name) else .ok (s.enter x) := by
  cases x <;> rfl

theorem define_eq_error_iff {s : Scope} {x : Declaration} {cause : Cause} :
    s.define x = .error cause ↔ s.isDeclared x.name = true ∧ .redeclared x.name = cause := by
  rw [define_eq]
  split <;> simp_all

theorem define_eq_ok_iff {s t : Scope} {x : Declaration} :
    s.define x = .ok t ↔ s.isDeclared x.name = false ∧ s.enter x = t := by
  rw [define_eq]
  split <;> simp_all

/-- The names of the symbols of a scope. -/
def names (s : Scope) : List String := s.types.map Prod.fst ++ s.consts.map Prod.fst

theorem names_enter_perm (s : Scope) (x : Declaration) : (s.enter x).names.Perm (x.name :: s.names) := by
  cases x with
  | type symbol => exact .refl _
  | const name symbol => exact List.perm_middle

@[simp] theorem imports_enter (s : Scope) (x : Declaration) : (s.enter x).imports = s.imports := by
  cases x <;> rfl

/-! ## Many definitions -/

/-- A scope in which definitions are made, those that have succeeded, and those that have been refused. -/
structure Definitions where
  scope : Scope
  defined : List Declaration
  refused : List Declaration

namespace Definitions

/-- Make a definition. -/
def define (s : Definitions) (x : Declaration) : Definitions :=
  match s.scope.define x with
  | .ok scope => { s with scope, defined := s.defined ++ [x] }
  | .error _ => { s with refused := s.refused ++ [x] }

/-- Make definitions one after another. -/
def run (s : Definitions) (xs : List Declaration) : Definitions := xs.foldl define s

theorem run_cons (s : Definitions) (x : Declaration) (xs : List Declaration) :
    s.run (x :: xs) = (s.define x).run xs := rfl

theorem define_of_isDeclared {s : Definitions} {x : Declaration} (h : s.scope.isDeclared x.name = true) :
    s.define x = { s with refused := s.refused ++ [x] } := by
  rw [define, define_eq, if_pos h]

theorem define_of_not_isDeclared {s : Definitions} {x : Declaration} (h : s.scope.isDeclared x.name = false) :
    s.define x = { s with scope := s.scope.enter x, defined := s.defined ++ [x] } := by
  rw [define, define_eq, if_neg (by simp [h])]

/-! ## What definitions keep -/

/-- Whether a scope has exactly the symbols of the declarations defined in it, under names that are all different. -/
structure Tracks (s : Definitions) : Prop where
  nodup : (s.defined.map Declaration.name).Nodup
  names : s.scope.names.Perm (s.defined.map Declaration.name)
  found : ∀ name, s.scope.type? name = (s.defined.find? (·.name = name)).bind Declaration.type? ∧
    s.scope.const? name = (s.defined.find? (·.name = name)).bind Declaration.const?

section

variable {s : Definitions} (h : s.Tracks)
include h

theorem Tracks.isDeclared_iff {name : String} : s.scope.isDeclared name = true ↔ ∃ x ∈ s.defined, x.name = name := by
  rw [isDeclared, (h.found name).1, (h.found name).2]
  cases hfind : s.defined.find? (·.name = name) with
  | none => simpa using hfind
  | some x =>
    have hname : x.name = name := by simpa using List.find?_some hfind
    refine iff_of_true ?_ ⟨x, List.mem_of_find?_eq_some hfind, hname⟩
    cases x <;> rfl

/-- What has been defined is found. -/
theorem Tracks.found_of_mem {x : Declaration} (hx : x ∈ s.defined) :
    s.scope.type? x.name = x.type? ∧ s.scope.const? x.name = x.const? := by
  have hfind : s.defined.find? (·.name = x.name) = some x := by
    obtain ⟨as, bs, hsplit⟩ := List.append_of_mem hx
    have hnodup := h.nodup
    rw [hsplit, List.map_append, List.map_cons] at hnodup
    have has : ∀ a ∈ as, a.name ≠ x.name := fun a ha =>
      (List.nodup_append.1 hnodup).2.2 _ (List.mem_map_of_mem ha) _ (List.mem_cons_self ..)
    exact List.find?_eq_some_iff_append.2 ⟨by simp, as, bs, hsplit, by simpa using has⟩
  have hfound := h.found x.name
  rwa [hfind] at hfound

theorem Tracks.type?_eq_none_or (name : String) : s.scope.type? name = none ∨ s.scope.const? name = none := by
  rw [(h.found name).1, (h.found name).2]
  generalize s.defined.find? (·.name = name) = first
  rcases first with _ | ⟨symbol⟩ | ⟨_, symbol⟩
  · exact .inl rfl
  · exact .inr rfl
  · exact .inl rfl

/-- One more definition keeps what is known of the others. -/
theorem Tracks.define (x : Declaration) : (s.define x).Tracks := by
  cases hdeclared : s.scope.isDeclared x.name with
  | true =>
    rw [define_of_isDeclared hdeclared]
    exact ⟨h.nodup, h.names, h.found⟩
  | false =>
    have hnew : ∀ y ∈ s.defined, y.name ≠ x.name := fun y hy hname => by
      simp [h.isDeclared_iff.2 ⟨y, hy, hname⟩] at hdeclared
    have hfind : s.defined.find? (·.name = x.name) = none := by simpa using hnew
    rw [define_of_not_isDeclared hdeclared]
    refine ⟨?_, ?_, fun name => ?_⟩
    · rw [List.map_append, List.nodup_append]
      refine ⟨h.nodup, List.pairwise_singleton .., fun a ha b hb => ?_⟩
      obtain ⟨y, hy, rfl⟩ := List.mem_map.1 ha
      obtain rfl := List.mem_singleton.1 hb
      exact hnew y hy
    · rw [List.map_append]
      exact (names_enter_perm s.scope x).trans ((h.names.cons _).trans (List.perm_append_singleton _ _).symm)
    · rw [type?_enter, const?_enter, (h.found name).1, (h.found name).2, List.find?_append, List.find?_singleton]
      by_cases hname : x.name = name
      · subst hname
        simp [hfind]
      · simp [hname]

/-- So do all definitions. -/
theorem Tracks.run (xs : List Declaration) : (s.run xs).Tracks := by
  induction xs generalizing s with
  | nil => exact h
  | cons x xs ih => exact ih (h.define x)

end

/-- Definitions that have succeeded are kept. -/
theorem defined_run (s : Definitions) (xs : List Declaration) : s.defined <+: (s.run xs).defined := by
  induction xs generalizing s with
  | nil => exact List.prefix_rfl
  | cons x xs ih =>
    refine List.IsPrefix.trans ?_ (ih (s.define x))
    cases hdeclared : s.scope.isDeclared x.name with
    | true =>
      have hsame : s.defined = (s.define x).defined := by rw [define_of_isDeclared hdeclared]
      exact hsame ▸ List.prefix_rfl
    | false =>
      rw [define_of_not_isDeclared hdeclared]
      exact List.prefix_append ..

/-- Every definition succeeds or is refused. -/
theorem length_run (s : Definitions) (xs : List Declaration) :
    (s.run xs).defined.length + (s.run xs).refused.length = s.defined.length + s.refused.length + xs.length := by
  induction xs generalizing s with
  | nil => rfl
  | cons x xs ih =>
    have hx : (s.define x).defined.length + (s.define x).refused.length = s.defined.length + s.refused.length + 1 := by
      cases hdeclared : s.scope.isDeclared x.name with
      | true => simp [define_of_isDeclared hdeclared, Nat.add_assoc]
      | false => simp [define_of_not_isDeclared hdeclared, Nat.add_right_comm]
    rw [run_cons, ih, hx, List.length_cons, Nat.add_assoc, Nat.add_comm 1]

end Definitions

/-! ## The scope of a package -/

/-- The declarations of the files of a package that are not blank, in the order in which they are entered. -/
def declarations (files : List SourceFile) : List Declaration := (entered files).filter (·.name ≠ "_")

theorem map_name_declarations (files : List SourceFile) :
    (declarations files).map Declaration.name = (files.flatMap SourceFile.declares).filter (· ≠ "_") := by
  have hentered : (entered files).map Declaration.name = files.flatMap SourceFile.declares := by
    rw [entered, List.map_flatMap]
    simp [SourceFile.map_name_entered, ← List.flatMap_map, List.zipIdx_map_fst]
  rw [← hentered, List.filter_map]
  rfl

namespace Definitions

/-- Definitions as the outcome of building a scope: what has been refused is a problem. -/
def building (s : Definitions) : Building := ⟨s.scope, s.refused.map Declaration.redeclared⟩

/-- To enter a declaration is to define it, unless it is blank. -/
theorem add_building (s : Definitions) (x : Declaration) :
    s.building.add x = if x.name = "_" then s.building else (s.define x).building := by
  rw [Building.add_eq]
  refine if_congr .rfl rfl ?_
  cases hdeclared : s.scope.isDeclared x.name with
  | true => simp [building, define_of_isDeclared hdeclared, hdeclared]
  | false => simp [building, define_of_not_isDeclared hdeclared, hdeclared]

theorem foldl_add_building (s : Definitions) (xs : List Declaration) :
    xs.foldl Building.add s.building = (s.run (xs.filter (·.name ≠ "_"))).building := by
  induction xs generalizing s with
  | nil => rfl
  | cons x xs ih =>
    rw [List.foldl_cons, add_building]
    by_cases hblank : x.name = "_"
    · rw [if_pos hblank, ih, List.filter_cons_of_neg (by simpa using hblank)]
    · rw [if_neg hblank, ih, List.filter_cons_of_pos (by simpa using hblank), run_cons]

/-- A new scope. -/
def empty : Definitions := ⟨.empty, [], []⟩

/-- The scope of a package, made by defining what its files declare. -/
def package (files : List SourceFile) : Definitions :=
  let s := empty.run (declarations files)
  { s with scope := { s.scope with imports := files.map importsOf } }

theorem tracks_empty : empty.Tracks where
  nodup := .nil
  names := .refl _
  found _ := ⟨rfl, rfl⟩

theorem tracks_package (files : List SourceFile) : (package files).Tracks :=
  have h := tracks_empty.run (declarations files)
  ⟨h.nodup, h.names, h.found⟩

/-- Building the scope of a package comes to the same. -/
theorem building_package (files : List SourceFile) : (package files).building = build files := by
  rw [build_eq, show (⟨.empty, []⟩ : Building) = empty.building from rfl, foldl_add_building]
  rfl

theorem length_package (files : List SourceFile) :
    (package files).defined.length + (package files).refused.length = (declarations files).length :=
  (length_run empty (declarations files)).trans (Nat.zero_add _)

end Definitions

/-! ## Consistent scopes -/

/-- Whether a scope is consistent with what has been defined in it. -/
structure Definitions.Consistent (s : Definitions) : Prop where
  /-- No name is a type and a constant, and none has two symbols. -/
  apart : ∀ name, s.scope.type? name = none ∨ s.scope.const? name = none
  nodup : s.scope.names.Nodup
  fails_iff : ∀ x, (∃ cause, s.scope.define x = .error cause) ↔ ∃ y ∈ s.defined, y.name = x.name
  /-- A definition that fails changes nothing that can be looked up. -/
  unchanged : ∀ x cause, s.scope.define x = .error cause → cause = .redeclared x.name ∧
    ∀ file name, (s.define x).scope.type? name = s.scope.type? name ∧
      (s.define x).scope.const? name = s.scope.const? name ∧
      (s.define x).scope.importPath? file name = s.scope.importPath? file name
  /-- One that succeeds adds its own symbol and nothing else. -/
  added : ∀ x scope, s.scope.define x = .ok scope → (s.define x).scope = scope ∧
    ∀ file name, scope.type? name = (if x.name = name then x.type? else s.scope.type? name) ∧
      scope.const? name = (if x.name = name then x.const? else s.scope.const? name) ∧
      scope.importPath? file name = s.scope.importPath? file name
  /-- What has been defined is found, also after further definitions. -/
  kept : ∀ x ∈ s.defined, ∀ more, (s.run more).scope.type? x.name = x.type? ∧
    (s.run more).scope.const? x.name = x.const?

theorem Definitions.Tracks.consistent {s : Definitions} (h : s.Tracks) : s.Consistent where
  apart := h.type?_eq_none_or
  nodup := h.names.nodup_iff.2 h.nodup
  fails_iff x := by simp [define_eq_error_iff, h.isDeclared_iff]
  unchanged x cause hfail := by
    obtain ⟨hdeclared, hcause⟩ := define_eq_error_iff.1 hfail
    rw [Definitions.define_of_isDeclared hdeclared]
    exact ⟨hcause.symm, fun _ _ => ⟨rfl, rfl, rfl⟩⟩
  added x scope hok := by
    obtain ⟨hdeclared, rfl⟩ := define_eq_ok_iff.1 hok
    have hnone : s.scope.type? x.name = none ∧ s.scope.const? x.name = none := by
      simpa [isDeclared] using hdeclared
    refine ⟨by rw [Definitions.define_of_not_isDeclared hdeclared], fun file name => ⟨?_, ?_, ?_⟩⟩
    · rw [type?_enter]
      by_cases hname : x.name = name
      · simp [hname, hname ▸ hnone.1]
      · simp [hname]
    · rw [const?_enter]
      by_cases hname : x.name = name
      · simp [hname, hname ▸ hnone.2]
      · simp [hname]
    · rw [importPath?, importPath?, imports_enter]
  kept x hx more := (h.run more).found_of_mem ((Definitions.defined_run s more).subset hx)

/-- However definitions follow one another in a new scope or in that of a package, the scope stays consistent. In the
    scope of a package every declared name that is not blank is a symbol or a problem. -/
theorem definitions_consistent :
    (∀ xs, (Definitions.empty.run xs).Consistent) ∧
    ∀ files : List SourceFile, (Definitions.package files).building = build files ∧
      (∀ xs, ((Definitions.package files).run xs).Consistent) ∧
      ((files.flatMap SourceFile.declares).filter (· ≠ "_")).length =
        (build files).scope.names.length + (build files).problems.length := by
  refine ⟨fun xs => (Definitions.tracks_empty.run xs).consistent, fun files => ?_⟩
  have htracks := Definitions.tracks_package files
  refine ⟨Definitions.building_package files, fun xs => (htracks.run xs).consistent, ?_⟩
  calc ((files.flatMap SourceFile.declares).filter (· ≠ "_")).length
      = (declarations files).length := by rw [← map_name_declarations, List.length_map]
    _ = (Definitions.package files).defined.length + (Definitions.package files).refused.length :=
        (Definitions.length_package files).symm
    _ = (Definitions.package files).building.scope.names.length +
          (Definitions.package files).building.problems.length := by
        rw [Definitions.building, List.length_map, htracks.names.length_eq, List.length_map]
    _ = (build files).scope.names.length + (build files).problems.length := by rw [Definitions.building_package]

end StructPadding.Scope
