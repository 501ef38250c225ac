-- SUMMARY: Resolution that tells in which file it fails, and is plain resolution once that is forgotten.
import StructPadding.Package.Resolve
import StructPadding.Proofs.Outcome

/-!
# Located resolution

The reason for a failure says where in a file it arises, but not in which file: types and constants are
declared all over the package, and their declarations are followed. Located resolution is the one whose failures
tell their file as well. Forgetting the files gives back the one whose failures are reasons alone.
-/

namespace StructPadding

/-- A reason for a failure, and the number of the file it arises in. -/
structure Fault where
  file : Nat
  reason : Unresolved
  deriving DecidableEq, Repr

instance : Failing Fault := ⟨Fault.mk⟩

/-! ## Constants -/

namespace Constant.Located

abbrev Result := Except Fault Int

/-- The result without the file of the failure. -/
def forget (r : Result) : Constant.Result := r.mapError Fault.reason

@[simp] theorem forget_inFile (file : Nat) (r : Constant.Result) : forget (inFile file r) = r := by
  cases r <;> rfl

theorem forget_bind (r : Result) (f : Int → Result) :
    forget (r >>= f) = forget r >>= fun v => forget (f v) := mapError_bind ..

/-- The files of failures are forgotten where those of the names in an expression are. -/
theorem forget_valueWith (scope : Scope) (names : String → Span → Result) (file : Nat) (iota : Option Nat) (e : Expr) :
    forget (valueWith scope names file iota e) =
      valueWith scope (fun name span => forget (names name span)) file iota e := by
  induction e with
  | int v span => rfl
  | name package name span =>
    cases package with
    | none => rfl
    | some package => simp only [valueWith, forget_inFile, inFile_plain]
  | iota span => cases iota <;> rfl
  | unary op x span ih => simp only [valueWith, forget_bind, ih, forget_inFile, inFile_plain]
  | binary op l r span ihl ihr =>
    cases op <;> simp only [valueWith, forget_bind, ihl, ihr, forget_inFile, inFile_plain]
  | convert x span ih => exact ih
  | other span => rfl

theorem forget_valueOfName (scope : Scope) (depth : Nat) (evaluating : List String) (file : Nat) (name : String)
    (span : Span) :
    forget (valueOfName scope depth evaluating file name span) =
      valueOfName scope depth evaluating file name span := by
  induction depth generalizing evaluating file name span with
  | zero =>
    rw [valueOfName.eq_def, valueOfName.eq_def]
    cases scope.const? name with
    | none => rfl
    | some symbol =>
      cases hvalue : symbol.value with
      | none => simp only [hvalue, forget_inFile, inFile_plain]
      | some value => by_cases hmem : name ∈ evaluating <;> simp only [hvalue, hmem, ↓reduceIte] <;> rfl
  | succ depth ih =>
    rw [valueOfName.eq_def, valueOfName.eq_def]
    cases scope.const? name with
    | none => rfl
    | some symbol =>
      cases hvalue : symbol.value with
      | none => simp only [hvalue, forget_inFile, inFile_plain]
      | some value =>
        by_cases hmem : name ∈ evaluating
        · simp only [hvalue, hmem, ↓reduceIte]
          rfl
        · simp only [hvalue, hmem, ↓reduceIte, forget_valueWith, ih]

theorem forget_value (scope : Scope) (e : Expr) (file : Nat) (iota : Option Nat) :
    forget (value scope e file iota) = scope.value e file iota := by
  simp only [value, forget_valueWith, forget_valueOfName, Scope.value]

end Constant.Located

/-! ## Types -/

namespace Resolver.Located

/-- Resolution whose failures tell their file. -/
abbrev Resolve := ResolveOr Fault

abbrev Names := NamesOr Fault

abbrev Declared := DeclaredOr Fault

/-- The fields of a struct literal, or where and why there are none. -/
def struct (scope : Scope) (m : Machine) (s : Site) : Resolve (List Field) := structOr scope m s

/-- Resolution without the files of its failures. -/
abbrev forget {α : Type} (r : Resolve α) : Resolver.Resolve α := r.adaptExcept Fault.reason

@[simp] theorem forget_inFile {α : Type} (file : Nat) (r : Resolver.Resolve α) : forget (inFile file r) = r := by
  funext s
  simp only [forget, inFile, EStateM.adaptExcept]
  cases r s <;> rfl

variable (scope : Scope) (m : Machine)

theorem forget_arrayLength (file : Nat) (length : Expr) :
    forget (arrayLength scope file length) = arrayLength scope file length := by
  have h := Constant.Located.forget_value scope length file none
  simp only [arrayLength]
  rw [← show scope.value length file none = Constant.value scope length file none from rfl, ← h]
  cases (Constant.value scope length file none : Except Fault Int) with
  | error f => rfl
  | ok v => exact (forget_inFile ..).trans (inFile_plain ..).symm

/-- The meaning of names without the files of failures. -/
def forgetNames (names : Names) : Resolver.Names := fun name args span => forget (names name args span)

mutual

theorem forget_shapeWith (env : Env) (names : Names) :
    ∀ t : TypeExpr, forget (shapeWith scope m env names t) = shapeWith scope m env (forgetNames names) t
  | .named none name args span => rfl
  | .named (some package) name args span => by simp only [shapeWith, forget_inFile, inFile_plain]
  | .pointer .. | .slice .. | .map .. | .chan .. | .func _ | .interface _ => rfl
  | .array length element span => by
    simp only [shapeWith, adaptExcept_bind, forget_arrayLength, forget_shapeWith env names element, adaptExcept_pure,
      adaptExcept_ite, forget_inFile, inFile_plain]
  | .struct st => by simp only [shapeWith, adaptExcept_bind, forget_structWith env names st, adaptExcept_pure]

theorem forget_structWith (env : Env) (names : Names) :
    ∀ st : StructType, forget (structWith scope m env names st) = structWith scope m env (forgetNames names) st
  | ⟨decls, keyword, span⟩ => by
    simp only [structWith, adaptExcept_bind, forget_fieldsWith env names decls, adaptExcept_pure, adaptExcept_ite,
      forget_inFile, inFile_plain]

private theorem forget_fieldsWith (env : Env) (names : Names) :
    ∀ decls : List FieldDecl,
      forget (fieldsWith scope m env names decls) = fieldsWith scope m env (forgetNames names) decls
  | [] => rfl
  | d :: rest => by
    simp only [fieldsWith, adaptExcept_bind, forget_typeOfField env names d, forget_fieldsWith env names rest,
      adaptExcept_pure]

private theorem forget_typeOfField (env : Env) (names : Names) :
    ∀ d : FieldDecl, forget (typeOfField scope m env names d) = typeOfField scope m env (forgetNames names) d
  | ⟨_, type, _, _⟩ => forget_shapeWith env names type

end

/-- The meaning of declared types without the files of failures. -/
def forgetDeclared (declared : Declared) : Resolver.Declared :=
  fun symbol args env span => forget (declared symbol args env span)

theorem forget_global (declared : Declared) (env : Env) :
    forgetNames (global scope m declared env) = global scope m (forgetDeclared declared) env := by
  funext name args span
  simp only [forgetNames, global, inFile_plain]
  cases scope.type? name with
  | some symbol => rfl
  | none => exact forget_inFile ..

theorem forget_namesIn (declared : Declared) (env : Env) :
    forgetNames (namesIn scope m declared env) = namesIn scope m (forgetDeclared declared) env := by
  induction env with
  | site file params isLocal =>
    funext name args span
    simp only [namesIn, ← forget_global, forgetNames, adaptExcept_ite, adaptExcept_pure]
  | instantiated file params types caller ih =>
    funext name args span
    simp only [namesIn, ← ih, ← forget_global]
    cases hargument : Env.argument? params types name with
    | some type => simp only [forgetNames, hargument, forget_shapeWith]
    | none => simp only [forgetNames, hargument]

theorem forget_declared (depth : Nat) :
    forgetDeclared (declared scope m depth) = declared scope m depth := by
  induction depth with
  | zero =>
    funext symbol args env span
    simp only [forgetDeclared, declared, adaptExcept_bind, forget_inFile, inFile_plain, adaptExcept_get]
    refine bind_congr fun _ => bind_congr fun s => ?_
    cases s.known.lookup symbol.decl.name with
    | some shape => rfl
    | none => simp only [adaptExcept_bind, forget_inFile, adaptExcept_get, adaptExcept_ite]
  | succ depth ih =>
    funext symbol args env span
    simp only [forgetDeclared, declared, adaptExcept_bind, forget_inFile, inFile_plain, adaptExcept_get]
    refine bind_congr fun _ => bind_congr fun s => ?_
    cases s.known.lookup symbol.decl.name with
    | some shape => rfl
    | none =>
      simp only [shapeIn, adaptExcept_bind, forget_inFile, adaptExcept_get, adaptExcept_ite, adaptExcept_within,
        forget_shapeWith, forget_namesIn, ih, adaptExcept_remember, adaptExcept_pure]

/-- Located resolution of a struct literal is its resolution. -/
theorem forget_struct (site : Site) : forget (struct scope m site) = Resolver.struct scope m site := by
  have hfields (env : Env) (st : StructType) : forget (structIn scope m env st) = structIn scope m env st := by
    simp only [structIn, forget_structWith, forget_namesIn, forget_declared]
  unfold struct Resolver.struct structOr
  cases site.name with
  | none => exact hfields ..
  | some name => simp only [adaptExcept_within, hfields]

end Resolver.Located

end StructPadding
