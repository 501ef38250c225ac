-- SUMMARY: A struct literal is resolved alike wherever it and the declarations it depends on have their places.
import StructPadding.Proofs.Package.Calls
import StructPadding.Proofs.Syntax.Unplaced

/-!
# Resolution without places

Places are only looked at where a failure is told. If all places are taken away from a struct literal and from the
declarations of a package, the literal has the same fields as before, or fails for the same reason. What counts of a
scope is what is found under each name, and how many types and constants there are, so that the order in which they
are declared has no part in it either.
-/

namespace StructPadding

def Problem.unplaced (p : Problem) : Problem := ⟨p.cause, default⟩

/-- The reason for a failure without its place. -/
def Unresolved.unplaced : Unresolved → Unresolved
  | .unknown name _ => .unknown name default
  | .invalid p => .invalid p.unplaced

def TypeSymbol.unplaced (symbol : TypeSymbol) : TypeSymbol := { symbol with decl := symbol.decl.unplaced }

def ConstSymbol.unplaced (symbol : ConstSymbol) : ConstSymbol :=
  { symbol with value := symbol.value.map Expr.unplaced, span := default }

def Site.unplaced (s : Site) : Site := { s with type := s.type.unplaced }

/-- Arguments of type parameters without their places. -/
def Env.unplaced : Env → Env
  | .site file params isLocal => .site file params isLocal
  | .instantiated file params args caller => .instantiated file params (unplacedTypes args) caller.unplaced

@[simp] theorem Env.file_unplaced (env : Env) : env.unplaced.file = env.file := by cases env <;> rfl

@[simp] theorem Env.isLocal_unplaced (env : Env) : env.unplaced.isLocal = env.isLocal := by cases env <;> rfl

@[simp] theorem isEmpty_unplacedTypes (ts : List TypeExpr) : (unplacedTypes ts).isEmpty = ts.isEmpty := by
  cases ts <;> rfl

@[simp] theorem length_unplacedTypes (ts : List TypeExpr) : (unplacedTypes ts).length = ts.length := by
  rw [unplacedTypes_eq_map, List.length_map]

theorem lookup_map_snd {α β : Type} (f : α → β) (entries : List (String × α)) (name : String) :
    (entries.map fun e => (e.1, f e.2)).lookup name = (entries.lookup name).map f := by
  induction entries with
  | nil => rfl
  | cons e rest ih =>
    rw [List.map_cons, List.lookup_cons, List.lookup_cons, ih]
    split <;> rfl

theorem Env.argument?_unplaced (params : List String) (args : List TypeExpr) (name : String) :
    argument? params (unplacedTypes args) name = (argument? params args name).map TypeExpr.unplaced := by
  rw [argument?, argument?, ← lookup_map_snd, unplacedTypes_eq_map, List.zip_map_right, List.map_reverse]
  rfl

/-! ## Scopes -/

/-- Whether a scope has under each name what another one has there, without places, and no more and no less. -/
structure Scope.IsUnplacedOf (bare scope : Scope) : Prop where
  type? (name : String) : bare.type? name = (scope.type? name).map TypeSymbol.unplaced
  const? (name : String) : bare.const? name = (scope.const? name).map ConstSymbol.unplaced
  importPath? (file : Nat) (name : String) : bare.importPath? file name = scope.importPath? file name
  types : bare.types.length = scope.types.length
  consts : bare.consts.length = scope.consts.length

/-- The scope without places. -/
def Scope.unplaced (scope : Scope) : Scope where
  types := scope.types.map fun e => (e.1, e.2.unplaced)
  consts := scope.consts.map fun e => (e.1, e.2.unplaced)
  imports := scope.imports

theorem Scope.isUnplacedOf_unplaced (scope : Scope) : scope.unplaced.IsUnplacedOf scope where
  type? := lookup_map_snd TypeSymbol.unplaced scope.types
  const? := lookup_map_snd ConstSymbol.unplaced scope.consts
  importPath? _ _ := rfl
  types := List.length_map ..
  consts := List.length_map ..

section

variable {bare scope : Scope} (h : bare.IsUnplacedOf scope)
include h

/-! ## Constants -/

namespace Constant

omit h in
theorem inRange_unplaced (span : Span) (v : Option Int) :
    inRange default v = (inRange span v).mapError Unresolved.unplaced := by
  cases v <;> rfl

omit h in
theorem unary_unplaced (op : UnaryOp) (v : Int) (span : Span) :
    unary op v default = (unary op v span).mapError Unresolved.unplaced := by
  cases op with
  | plus | complement | not => rfl
  | neg => exact inRange_unplaced ..

omit h in
theorem binary_unplaced (op : BinaryOp) (a b : Int) (span : Span) :
    binary op a b default = (binary op a b span).mapError Unresolved.unplaced := by
  cases op with
  | add | sub | mul | shl | shr => exact inRange_unplaced ..
  | div | rem =>
    simp only [binary]
    split
    · rfl
    · exact inRange_unplaced ..
  | and | or | xor | andNot | logical => rfl

theorem qualified_unplaced (file : Nat) (package name : String) (span : Span) :
    qualified bare file package name default =
      (qualified scope file package name span).mapError Unresolved.unplaced := by
  unfold qualified
  rw [h.importPath?]
  cases scope.importPath? file package with
  | none => rfl
  | some path => cases hconst : Library.const? path name <;> simp only [hconst] <;> rfl

/-- An expression has the same value without places, where the names in it have. -/
theorem valueWith_unplaced {names bareNames : String → Span → Result}
    (hnames : ∀ name span, bareNames name default = (names name span).mapError Unresolved.unplaced) (file : Nat)
    (iota : Option Nat) (e : Expr) :
    valueWith bare bareNames file iota e.unplaced =
      (valueWith scope names file iota e).mapError Unresolved.unplaced := by
  induction e with
  | int v span => rfl
  | name package name span =>
    cases package with
    | none => exact hnames name span
    | some package =>
      rw [Expr.unplaced, valueWith_qualified, valueWith_qualified]
      exact qualified_unplaced h file package name span
  | iota span => cases iota <;> rfl
  | unary op x span ih =>
    rw [Expr.unplaced, valueWith_unary, valueWith_unary, mapError_bind, ih]
    exact bind_congr fun a => unary_unplaced op a span
  | binary op l r span ihl ihr =>
    by_cases hop : op = .logical
    · obtain rfl := hop
      rfl
    · rw [Expr.unplaced, valueWith_binary hop, valueWith_binary hop, mapError_bind, ihl]
      refine bind_congr fun a => ?_
      rw [mapError_bind, ihr]
      exact bind_congr fun b => binary_unplaced op a b span
  | convert x span ih => exact ih
  | other span => rfl

theorem valueOfName_unplaced (depth : Nat) (evaluating : List String) (file : Nat) (name : String) (span : Span) :
    valueOfName bare depth evaluating file name default =
      (valueOfName scope depth evaluating file name span).mapError Unresolved.unplaced := by
  induction depth generalizing evaluating file name span with
  | zero =>
    rw [valueOfName.eq_def, valueOfName.eq_def, h.const?, h.type?]
    cases scope.const? name with
    | none => cases scope.type? name <;> rfl
    | some symbol =>
      cases hvalue : symbol.value with
      | none => simp only [Option.map_some, ConstSymbol.unplaced, hvalue, Option.map_none]; rfl
      | some e =>
        simp only [Option.map_some, ConstSymbol.unplaced, hvalue]
        split <;> rfl
  | succ depth ih =>
    rw [valueOfName.eq_def, valueOfName.eq_def, h.const?, h.type?]
    cases scope.const? name with
    | none => cases scope.type? name <;> rfl
    | some symbol =>
      cases hvalue : symbol.value with
      | none => simp only [Option.map_some, ConstSymbol.unplaced, hvalue, Option.map_none]; rfl
      | some e =>
        simp only [Option.map_some, ConstSymbol.unplaced, hvalue]
        split
        · rfl
        · exact valueWith_unplaced h (fun name span => ih ..) symbol.file (some symbol.iota) e

end Constant

theorem Scope.value_unplaced (e : Expr) (file : Nat) (iota : Option Nat) :
    bare.value e.unplaced file iota = (scope.value e file iota).mapError Unresolved.unplaced := by
  rw [Scope.value, Scope.value, Constant.value, Constant.value, h.consts]
  exact Constant.valueWith_unplaced h (Constant.valueOfName_unplaced h _ _ file) file iota e

/-! ## Types -/

namespace Resolver

/-- Resolution without the places of its failures. -/
abbrev unplaced {α : Type} (x : Resolve α) : Resolve α := x.adaptExcept Unresolved.unplaced

omit h in
theorem undefined_unplaced {α : Type} (name : String) (isLocal : Bool) (span : Span) :
    undefined name isLocal default = unplaced (undefined name isLocal span : Resolve α) := by
  cases isLocal <;> rfl

theorem arrayLength_unplaced (file : Nat) (length : Expr) :
    arrayLength bare file length.unplaced = unplaced (arrayLength scope file length) := by
  have hvalue := Scope.value_unplaced h length file none
  simp only [Scope.value] at hvalue
  simp only [arrayLength, hvalue, inFile_plain]
  cases (Constant.value scope length file none : Constant.Result) with
  | error u => rfl
  | ok v =>
    simp only [Except.mapError]
    split
    · rfl
    · cases length <;> rfl

theorem qualified_unplaced (m : Machine) (env : Env) (package name : String) (args : List TypeExpr) (span : Span) :
    qualified bare m env.unplaced package name (unplacedTypes args) default =
      unplaced (qualified scope m env package name args span) := by
  simp only [qualified, h.importPath?, Env.file_unplaced, Env.isLocal_unplaced, isEmpty_unplacedTypes]
  cases scope.importPath? env.file package with
  | none => exact undefined_unplaced ..
  | some path =>
    simp only
    split <;> rfl

/-- Whether names are resolved without places as they are with them. -/
def UnplacedNames (bareNames names : Names) : Prop :=
  ∀ name args span, bareNames name (unplacedTypes args) default = unplaced (names name args span)

end Resolver

end

namespace Resolver

variable {bare scope : Scope} {m : Machine}

mutual

theorem shapeWith_unplaced (h : bare.IsUnplacedOf scope) {env : Env} {names bareNames : Names}
    (hnames : UnplacedNames bareNames names) :
    ∀ t : TypeExpr,
      shapeWith bare m env.unplaced bareNames t.unplaced = unplaced (shapeWith scope m env names t)
  | .named none name args span => hnames name args span
  | .named (some package) name args span => by
    rw [TypeExpr.unplaced, shapeWith_qualified, shapeWith_qualified]
    exact qualified_unplaced h m env package name args span
  | .pointer .. | .slice .. | .map .. | .chan .. | .func _ | .interface _ => rfl
  | .array length element span => by
    simp only [TypeExpr.unplaced, shapeWith, Env.file_unplaced, inFile_plain, adaptExcept_bind,
      arrayLength_unplaced h, shapeWith_unplaced h hnames element, adaptExcept_ite]
    rfl
  | .struct st => by
    simp only [TypeExpr.unplaced, shapeWith, adaptExcept_bind, structWith_unplaced h hnames st, adaptExcept_pure]

theorem structWith_unplaced (h : bare.IsUnplacedOf scope) {env : Env} {names bareNames : Names}
    (hnames : UnplacedNames bareNames names) :
    ∀ st : StructType,
      structWith bare m env.unplaced bareNames st.unplaced = unplaced (structWith scope m env names st)
  | ⟨decls, keyword, _⟩ => by
    simp only [StructType.unplaced, structWith, Env.file_unplaced, inFile_plain, adaptExcept_bind,
      fieldsWith_unplaced h hnames decls, adaptExcept_ite]
    rfl

private theorem fieldsWith_unplaced (h : bare.IsUnplacedOf scope) {env : Env} {names bareNames : Names}
    (hnames : UnplacedNames bareNames names) :
    ∀ decls : List FieldDecl, fieldsWith bare m env.unplaced bareNames (unplacedFields decls) =
      unplaced (fieldsWith scope m env names decls)
  | [] => rfl
  | d :: rest => by
    simp only [unplacedFields, fieldsWith, FieldDecl.fieldNames_unplaced, adaptExcept_bind,
      typeOfField_unplaced h hnames d, fieldsWith_unplaced h hnames rest, adaptExcept_pure]

private theorem typeOfField_unplaced (h : bare.IsUnplacedOf scope) {env : Env} {names bareNames : Names}
    (hnames : UnplacedNames bareNames names) :
    ∀ d : FieldDecl, typeOfField bare m env.unplaced bareNames d.unplaced =
      unplaced (typeOfField scope m env names d)
  | ⟨_, type, _, _⟩ => shapeWith_unplaced h hnames type

end

/-- Whether declared types are resolved without places as they are with them. -/
def UnplacedDeclared (bareDeclared declared : Declared) : Prop :=
  ∀ (symbol : TypeSymbol) args (env : Env) span,
    bareDeclared symbol.unplaced (unplacedTypes args) env.unplaced default = unplaced (declared symbol args env span)

theorem checkArguments_unplaced (d : TypeDecl) (args : List TypeExpr) (span : Span) :
    checkArguments d.unplaced (unplacedTypes args) default = unplaced (checkArguments d args span) := by
  simp only [checkArguments, TypeDecl.unplaced, isEmpty_unplacedTypes, length_unplacedTypes, adaptExcept_ite,
    adaptExcept_bind, adaptExcept_pure]
  rfl

theorem visit_unplaced {symbol : TypeSymbol} {args : List TypeExpr} {span : Span} {enter bareEnter : Resolve Shape}
    (henter : bareEnter = unplaced enter) :
    visit symbol.unplaced (unplacedTypes args) default bareEnter = unplaced (visit symbol args span enter) := by
  simp only [visit, adaptExcept_bind, henter]
  refine congr (congrArg _ (checkArguments_unplaced symbol.decl args span)) (funext fun _ => bind_congr fun r => ?_)
  rw [show symbol.unplaced.decl.name = symbol.decl.name from rfl]
  cases r.known.lookup symbol.decl.name with
  | some shape => rfl
  | none =>
    simp only [adaptExcept_bind, adaptExcept_ite]
    rfl

section

variable (h : bare.IsUnplacedOf scope)
include h

section

variable {declared bareDeclared : Declared} (hdeclared : UnplacedDeclared bareDeclared declared)
include hdeclared

theorem global_unplaced (env : Env) :
    UnplacedNames (global bare m bareDeclared env.unplaced) (global scope m declared env) := by
  intro name args span
  simp only [global, h.type?, inFile_plain, Env.isLocal_unplaced, isEmpty_unplacedTypes]
  cases scope.type? name with
  | some symbol => exact hdeclared symbol args env span
  | none =>
    cases Library.predeclared? m name with
    | none =>
      simp only [Option.map_none]
      exact undefined_unplaced ..
    | some shape =>
      simp only [Option.map_none, adaptExcept_ite]
      rfl

theorem namesIn_unplaced (env : Env) :
    UnplacedNames (namesIn bare m bareDeclared env.unplaced) (namesIn scope m declared env) := by
  induction env with
  | site file params isLocal =>
    intro name args span
    simp only [namesIn, Env.unplaced, adaptExcept_ite, adaptExcept_pure]
    exact if_congr Iff.rfl rfl (global_unplaced h hdeclared (.site file params isLocal) name args span)
  | instantiated file params types caller ih =>
    intro name args span
    simp only [namesIn, Env.unplaced, Env.argument?_unplaced]
    cases Env.argument? params types name with
    | some type => exact shapeWith_unplaced h ih type
    | none => exact global_unplaced h hdeclared (.instantiated file params types caller) name args span

end

/-- The declaration of a type is entered alike. -/
theorem enter_unplaced {declared bareDeclared : Declared} (hdeclared : UnplacedDeclared bareDeclared declared)
    (symbol : TypeSymbol) (args : List TypeExpr) (env : Env) :
    enter bare m bareDeclared symbol.unplaced (unplacedTypes args) env.unplaced =
      unplaced (enter scope m declared symbol args env) := by
  let inner := Env.instantiated symbol.file symbol.decl.params args env
  have hshape : shapeIn bare m bareDeclared inner.unplaced symbol.decl.type.unplaced =
      unplaced (shapeIn scope m declared inner symbol.decl.type) :=
    shapeWith_unplaced h (namesIn_unplaced h hdeclared inner) symbol.decl.type
  simp only [enter, adaptExcept_bind, adaptExcept_within, adaptExcept_ite, adaptExcept_remember, adaptExcept_pure]
  exact congrArg (within symbol.decl.name · >>= _) hshape

theorem declared_unplaced (depth : Nat) : UnplacedDeclared (declared bare m depth) (declared scope m depth) := by
  induction depth with
  | zero =>
    intro symbol args env span
    rw [declared_zero, declared_zero]
    exact visit_unplaced rfl
  | succ depth ih =>
    intro symbol args env span
    rw [declared_succ, declared_succ]
    exact visit_unplaced (enter_unplaced h ih symbol args env)

/-- A struct literal without places is resolved as it is with them. -/
theorem struct_unplaced (s : Site) : struct bare m s.unplaced = unplaced (struct scope m s) := by
  let env := Env.site s.file s.params s.isLocal
  have hfields : structIn bare m env.unplaced s.type.unplaced = unplaced (structIn scope m env s.type) := by
    rw [structIn, structIn, h.types]
    exact structWith_unplaced h (namesIn_unplaced h (declared_unplaced h _) env) s.type
  unfold struct structOr
  cases hname : s.name with
  | none =>
    simp only [Site.unplaced, hname]
    exact hfields
  | some name =>
    simp only [Site.unplaced, hname, adaptExcept_within]
    exact congrArg (within name) hfields

/-! ## Calls -/

theorem outcome_unplaced (r : Resolver) (s : Site) :
    r.outcome bare m s.unplaced = (r.outcome scope m s).mapError Unresolved.unplaced := by
  simp only [outcome, struct_unplaced h, EStateM.adaptExcept]
  cases struct scope m s r <;> rfl

theorem next_unplaced (r : Resolver) (s : Site) : r.next bare m s.unplaced = r.next scope m s := by
  simp only [next, struct_unplaced h, EStateM.adaptExcept]
  cases struct scope m s r <;> rfl

/-- Calls without places leave the same resolver behind. -/
theorem after_unplaced (calls : List Site) : after bare m (calls.map Site.unplaced) = after scope m calls := by
  rw [after, List.foldl_map]
  exact congrArg (List.foldl · fresh calls) (funext fun r => funext fun s => next_unplaced h r s)

end

end Resolver

end StructPadding
