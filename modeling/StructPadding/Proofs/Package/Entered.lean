-- SUMMARY: A package enters its declarations one after another, and the first one of a name is found under it.
import Mathlib.Data.List.Basic
import Mathlib.Data.List.Induction
import StructPadding.Package.Scope

/-!
# Entering declarations

A package enters the declarations of its files one after another: file by file, and of a file the types before the
constants. The first one of a name is found under it, and every later one is a problem.
-/

namespace StructPadding

/-! ## Declarations -/

/-- A type or a constant that a file declares. -/
inductive Declaration
  | type (symbol : TypeSymbol)
  | const (name : String) (symbol : ConstSymbol)

namespace Declaration

def name : Declaration → String
  | type symbol => symbol.decl.name
  | const name _ => name

def file : Declaration → Nat
  | type symbol => symbol.file
  | const _ symbol => symbol.file

def span : Declaration → Span
  | type symbol => symbol.decl.span
  | const _ symbol => symbol.span

def type? : Declaration → Option TypeSymbol
  | type symbol => some symbol
  | const .. => none

def const? : Declaration → Option ConstSymbol
  | type _ => none
  | const _ symbol => some symbol

/-- The problem of a declaration whose name is taken, with its file. -/
def redeclared (x : Declaration) : Nat × Problem := (x.file, ⟨.redeclared x.name, x.span⟩)

end Declaration

/-- The declarations of a file, in the order in which they are entered. -/
def SourceFile.entered (f : SourceFile) (file : Nat) : List Declaration :=
  f.types.map (fun d => .type ⟨file, d⟩) ++ (f.consts.flatMap (·.symbols file)).map fun e => .const e.1 e.2

theorem ConstDecl.map_symbols (d : ConstDecl) (file : Nat) :
    (d.symbols file).map (fun e => (e.1, e.2.span)) = d.names := by
  rw [ConstDecl.symbols, List.map_map]
  exact List.zipIdx_map_fst 0 d.names

theorem ConstDecl.file_of_mem_symbols {d : ConstDecl} {file : Nat} {e : String × ConstSymbol} (h : e ∈ d.symbols file) :
    e.2.file = file := by
  obtain ⟨n, -, rfl⟩ := List.mem_map.1 h
  rfl

/-- The constants of a file with their places. -/
theorem SourceFile.map_symbols (f : SourceFile) (file : Nat) :
    (f.consts.flatMap (·.symbols file)).map (fun e => (e.1, e.2.span)) = f.consts.flatMap (·.names) := by
  rw [List.map_flatMap]
  exact congrArg (f.consts.flatMap ·) (funext fun d => d.map_symbols file)

namespace Scope

/-- The declarations of the files of a package, in the order in which they are entered. -/
def entered (files : List SourceFile) : List Declaration := files.zipIdx.flatMap fun e => e.1.entered e.2

/-! ## Entering -/

/-- The scope with one more declaration. -/
def enter (s : Scope) : Declaration → Scope
  | .type symbol => { s with types := (symbol.decl.name, symbol) :: s.types }
  | .const name symbol => { s with consts := (name, symbol) :: s.consts }

theorem lookup_cons_eq_or {α : Type} (entries : List (String × α)) (n name : String) (a : α) :
    ((n, a) :: entries).lookup name = (if n = name then some a else none).or (entries.lookup name) := by
  rw [List.lookup_cons]
  by_cases hname : n = name
  · simp [hname]
  · simp [hname, beq_eq_false_iff_ne.2 (Ne.symm hname)]

theorem type?_enter (s : Scope) (x : Declaration) (name : String) :
    (s.enter x).type? name = (if x.name = name then x.type? else none).or (s.type? name) := by
  cases x with
  | type symbol => exact lookup_cons_eq_or s.types symbol.decl.name name symbol
  | const n symbol =>
    rw [Declaration.type?, ite_self]
    rfl

theorem const?_enter (s : Scope) (x : Declaration) (name : String) :
    (s.enter x).const? name = (if x.name = name then x.const? else none).or (s.const? name) := by
  cases x with
  | type symbol =>
    rw [Declaration.const?, ite_self]
    rfl
  | const n symbol => exact lookup_cons_eq_or s.consts n name symbol

namespace Building

/-- Enter a type or a constant. -/
def add (b : Building) : Declaration → Building
  | .type symbol => b.addType symbol.file symbol.decl
  | .const name symbol => b.addConst symbol.file (name, symbol)

theorem declare_eq {b : Building} {file : Nat} {name : String} {span : Span} (define : Scope → Except Cause Scope)
    {t : Scope} (h : define b.scope = if b.scope.isDeclared name then .error (.redeclared name) else .ok t) :
    b.declare file name span define =
      if name = "_" then b
      else if b.scope.isDeclared name then { b with problems := b.problems ++ [(file, ⟨.redeclared name, span⟩)] }
      else { b with scope := t } := by
  unfold Building.declare
  by_cases hdeclared : b.scope.isDeclared name
  · simp only [h, if_pos hdeclared]
  · simp only [h, if_neg hdeclared]

/-- A blank name is not entered, and neither is one that is taken. -/
theorem add_eq (b : Building) (x : Declaration) : b.add x =
    if x.name = "_" then b
    else if b.scope.isDeclared x.name then { b with problems := b.problems ++ [x.redeclared] }
    else { b with scope := b.scope.enter x } := by
  cases x with
  | type symbol => exact declare_eq (·.defineType symbol) rfl
  | const name symbol => exact declare_eq (·.defineConst name symbol) rfl

def withImports (b : Building) (imports : List (List (String × String))) : Building :=
  { b with scope := { b.scope with imports } }

theorem add_withImports (b : Building) (imports : List (List (String × String))) (x : Declaration) :
    (b.withImports imports).add x = (b.add x).withImports imports := by
  simp only [add_eq]
  split
  · rfl
  · by_cases hdeclared : b.scope.isDeclared x.name
    · have himports : (b.withImports imports).scope.isDeclared x.name := hdeclared
      simp only [if_pos hdeclared, if_pos himports]
      rfl
    · have himports : ¬ (b.withImports imports).scope.isDeclared x.name := hdeclared
      simp only [if_neg hdeclared, if_neg himports]
      cases x <;> rfl

theorem foldl_add_withImports (b : Building) (imports : List (List (String × String))) (xs : List Declaration) :
    xs.foldl add (b.withImports imports) = (xs.foldl add b).withImports imports := by
  induction xs generalizing b with
  | nil => rfl
  | cons x xs ih => rw [List.foldl_cons, add_withImports, ih, List.foldl_cons]

/-- A file adds its imports and its declarations. -/
theorem addFile_withImports (b : Building) (imports : List (List (String × String))) (f : SourceFile) (file : Nat) :
    (b.withImports imports).addFile (f, file) =
      ((f.entered file).foldl add b).withImports (imports ++ [importsOf f]) := by
  have hconsts (b : Building) : (f.consts.flatMap (·.symbols file)).foldl (addConst file) b =
      (f.consts.flatMap (·.symbols file)).foldl (fun b e => b.add (.const e.1 e.2)) b := by
    refine List.foldl_ext _ _ b fun b e he => ?_
    obtain ⟨d, -, he⟩ := List.mem_flatMap.1 he
    rw [add, ConstDecl.file_of_mem_symbols he]
  rw [← foldl_add_withImports, SourceFile.entered, List.foldl_append, List.foldl_map, List.foldl_map, ← hconsts]
  rfl

end Building

/-- The scope of a package is made by entering the declarations of its files one after another. -/
theorem build_eq (files : List SourceFile) :
    build files = ((entered files).foldl Building.add ⟨empty, []⟩).withImports (files.map importsOf) := by
  have hfiles (entries : List (SourceFile × Nat)) (b : Building) (imports : List (List (String × String))) :
      entries.foldl Building.addFile (b.withImports imports) =
        ((entries.flatMap fun e => e.1.entered e.2).foldl Building.add b).withImports
          (imports ++ entries.map fun e => importsOf e.1) := by
    induction entries generalizing b imports with
    | nil => simp
    | cons e rest ih =>
      rw [List.foldl_cons, Building.addFile_withImports, ih, List.flatMap_cons, List.foldl_append, List.append_assoc]
      rfl
  have hmap : files.map importsOf = files.zipIdx.map fun e => importsOf e.1 :=
    (congrArg (List.map importsOf) (List.zipIdx_map_fst 0 files)).symm.trans List.map_map
  rw [hmap]
  exact hfiles files.zipIdx ⟨empty, []⟩ []

/-! ## The first of a name -/

/-- The first of some declarations that has a name; the blank name is none. -/
def first? (xs : List Declaration) (name : String) : Option Declaration :=
  if name = "_" then none else xs.find? (·.name = name)

theorem first?_isSome_iff {xs : List Declaration} {name : String} :
    (first? xs name).isSome ↔ name ≠ "_" ∧ ∃ x ∈ xs, x.name = name := by
  by_cases hname : name = "_" <;> simp [first?, hname]

/-- The first of a name has none of that name in front of it. -/
theorem exists_first? {xs : List Declaration} {y : Declaration} (hy : y ∈ xs) (hne : y.name ≠ "_") :
    ∃ x as bs, first? xs y.name = some x ∧ x.name = y.name ∧ xs = as ++ x :: bs ∧ ∀ a ∈ as, a.name ≠ y.name := by
  obtain ⟨x, hx⟩ := Option.isSome_iff_exists.1 (first?_isSome_iff.2 ⟨hne, y, hy, rfl⟩)
  have hfind := hx
  rw [first?, if_neg hne] at hfind
  obtain ⟨hname, as, bs, hsplit, has⟩ := List.find?_eq_some_iff_append.1 hfind
  exact ⟨x, as, bs, hx, by simpa using hname, hsplit, fun a ha => by simpa using has a ha⟩

theorem first?_concat (xs : List Declaration) (x : Declaration) (name : String) :
    first? (xs ++ [x]) name = (first? xs name).or (if x.name = name ∧ name ≠ "_" then some x else none) := by
  by_cases hname : name = "_" <;> simp [first?, hname, List.find?_append, List.find?_singleton]

/-- What is blank or has been declared is not the first of its name. -/
theorem first?_concat_of_taken {xs : List Declaration} {x : Declaration}
    (h : x.name ≠ "_" → (first? xs x.name).isSome) (name : String) : first? (xs ++ [x]) name = first? xs name := by
  rw [first?_concat]
  split
  · next hx =>
    obtain ⟨rfl, hne⟩ := hx
    exact Option.or_of_isSome (h hne)
  · exact Option.or_none

theorem first?_concat_of_new {xs : List Declaration} {x : Declaration} (hne : x.name ≠ "_")
    (hnew : first? xs x.name = none) (name : String) :
    first? (xs ++ [x]) name = if x.name = name then some x else first? xs name := by
  rw [first?_concat]
  by_cases hname : x.name = name
  · subst hname
    simp [hne, hnew]
  · simp [hname]

/-- Whether under each name the first of some declarations is found. -/
def Finds (s : Scope) (xs : List Declaration) : Prop :=
  ∀ name, s.type? name = (first? xs name).bind Declaration.type? ∧
    s.const? name = (first? xs name).bind Declaration.const?

section

variable {xs : List Declaration} {b : Building}

theorem Finds.isDeclared {s : Scope} (h : s.Finds xs) (name : String) :
    s.isDeclared name = (first? xs name).isSome := by
  rw [Scope.isDeclared, (h name).1, (h name).2]
  cases first? xs name with
  | none => rfl
  | some x => cases x <;> rfl

theorem Finds.add (h : b.scope.Finds xs) (x : Declaration) : (b.add x).scope.Finds (xs ++ [x]) := by
  intro name
  rw [Building.add_eq, h.isDeclared]
  by_cases hblank : x.name = "_"
  · rw [if_pos hblank, first?_concat_of_taken fun hne => absurd hblank hne]
    exact h name
  by_cases htaken : (first? xs x.name).isSome
  · rw [if_neg hblank, if_pos htaken, first?_concat_of_taken fun _ => htaken]
    exact h name
  · have hnew := Option.not_isSome_iff_eq_none.1 htaken
    rw [if_neg hblank, if_neg htaken, first?_concat_of_new hblank hnew]
    simp only [type?_enter, const?_enter, (h name).1, (h name).2]
    by_cases hname : x.name = name
    · subst hname
      simp [hnew]
    · simp [hname]

/-- A declaration whose name is taken is a problem. -/
theorem Finds.problems_add (h : b.scope.Finds xs) (x : Declaration) :
    (b.add x).problems = b.problems ++ (if (first? xs x.name).isSome then [x] else []).map Declaration.redeclared := by
  rw [Building.add_eq, h.isDeclared]
  by_cases hblank : x.name = "_"
  · simp [hblank, first?]
  by_cases htaken : (first? xs x.name).isSome
  · rw [if_neg hblank, if_pos htaken, if_pos htaken]
    rfl
  · rw [if_neg hblank, if_neg htaken, if_neg htaken]
    simp

theorem finds_foldl (xs : List Declaration) : (xs.foldl Building.add ⟨empty, []⟩).scope.Finds xs := by
  induction xs using List.reverseRecOn with
  | nil => exact fun name => by simp [first?, Scope.type?, Scope.const?, empty]
  | append_singleton xs x ih =>
    rw [List.foldl_append]
    exact ih.add x

theorem finds_build (files : List SourceFile) : (build files).scope.Finds (entered files) := by
  rw [build_eq]
  exact finds_foldl (entered files)

end

end Scope

end StructPadding
