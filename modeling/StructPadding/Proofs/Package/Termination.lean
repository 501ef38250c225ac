-- SUMMARY: Resolution ends for every package, and leaves the types in progress as they were, also when it fails.
import StructPadding.Proofs.Package.Evaluator
import StructPadding.Proofs.Package.Settled

/-!
# Termination

Within one environment resolution follows the type, and a parameter leads to an argument in an environment that is
smaller. Only the declaration of a named type is in an environment that is larger, and it is entered with its name in
progress. A name in progress is not entered again, so that declarations are nested no deeper than there are declared
types. What would be done further down makes no difference.

Lengths of arrays are evaluated in the same manner, with the constants that are in progress.
-/

namespace StructPadding

namespace Resolver

/-! ## Levels -/

section

variable (scope : Scope) (m : Machine)

/-- Resolution of declared types down to a number of levels, and what is done beyond them. -/
def declaredOver (beyond : Declared) : Nat → Declared
  | 0 => beyond
  | depth + 1 => fun symbol args env span =>
    visit symbol args span (enter scope m (declaredOver beyond depth) symbol args env)

/-- The fields of a struct literal, given how declared types are resolved. -/
def structGiven (declared : Declared) (s : Site) : Resolve (List Field) :=
  let fields := structWith scope m (.site s.file s.params s.isLocal)
    (namesIn scope m declared (.site s.file s.params s.isLocal)) s.type
  match s.name with
  | some name => within name fields
  | none => fields

end

section

variable {scope : Scope} {m : Machine}

theorem struct_eq_given (s : Site) :
    struct scope m s = structGiven scope m (declared scope m scope.types.length) s := rfl

/-! ## Two resolutions -/

/-- Whether two computations do the same from every resolver with the given types in progress, and leave it with the
    same types in progress, also where they fail. -/
def Concur {α : Type} (stack : List String) (x y : Resolve α) : Prop :=
  ∀ r, r.resolving = stack →
    x r = y r ∧ Ends x r (fun _ t => t.resolving = stack) fun _ t => t.resolving = stack

namespace Concur

variable {α β : Type} {stack : List String} {x y : Resolve α}

theorem pure {a : α} : Concur stack (Pure.pure a) (Pure.pure a) := fun _ h => ⟨rfl, .pure h⟩

theorem throw {e : Unresolved} : Concur stack (MonadExcept.throw e : Resolve α) (MonadExcept.throw e) :=
  fun _ h => ⟨rfl, .throw h⟩

theorem bind {f g : α → Resolve β} (hx : Concur stack x y) (hf : ∀ a, Concur stack (f a) (g a)) :
    Concur stack (x >>= f) (y >>= g) := by
  intro r hr
  obtain ⟨heq, hends⟩ := hx r hr
  constructor
  · simp only [Ends] at hends
    simp only [Bind.bind, EStateM.bind, ← heq]
    cases hres : x r with
    | error e t => rfl
    | ok a t =>
      rw [hres] at hends
      exact (hf a t hends).1
  · exact hends.bind (fun a t ht => (hf a t ht).2) fun _ _ ht => ht

theorem get_bind {f g : Resolver → Resolve β} (h : ∀ r, r.resolving = stack → Concur stack (f r) (g r)) :
    Concur stack (get >>= f) (get >>= g) :=
  fun r hr => h r hr r hr

/-- A failure that only arises under a condition. -/
theorem guarded {c : Prop} [Decidable c] {e : Unresolved} {f g : Resolve β} (h : ¬ c → Concur stack f g) :
    Concur stack (if c then (MonadExcept.throw e : Resolve α) >>= fun _ => f else f)
      (if c then (MonadExcept.throw e : Resolve α) >>= fun _ => g else g) := by
  split
  · exact throw (e := e)
  · next hc => exact h hc

/-- What is put in progress is taken out again. -/
theorem within {name : String} (h : Concur (name :: stack) x y) :
    Concur stack (Resolver.within name x) (Resolver.within name y) := by
  intro r hr
  obtain ⟨heq, hends⟩ := h { r with resolving := name :: r.resolving } (congrArg _ hr)
  constructor
  · simp only [Resolver.within, heq]
  · exact ends_within (hends.mono (fun _ _ ht => congrArg List.tail ht) fun _ _ ht => congrArg List.tail ht)

end Concur

variable {stack : List String}

/-! ## Types -/

theorem concur_undefined {α : Type} {name : String} {isLocal : Bool} {span : Span} :
    Concur stack (undefined name isLocal span : Resolve α) (undefined name isLocal span) := by
  unfold undefined
  split <;> exact .throw

theorem concur_arrayLength {file : Nat} {length : Expr} :
    Concur stack (arrayLength scope file length) (arrayLength scope file length) := by
  unfold arrayLength
  split
  · exact .throw
  · split
    · exact .pure
    · exact .throw

theorem concur_qualified {env : Env} {package name : String} {args : List TypeExpr} {span : Span} :
    Concur stack (qualified scope m env package name args span) (qualified scope m env package name args span) := by
  unfold qualified
  split
  · exact concur_undefined
  · split
    · exact .pure
    · exact .throw

/-- Whether plain names are resolved in the same way. -/
def ConcurNames (stack : List String) (names names' : Names) : Prop :=
  ∀ name args span, Concur stack (names name args span) (names' name args span)

mutual

/-- The recursion follows the type. -/
theorem concur_shapeWith {env : Env} {names names' : Names} (hnames : ConcurNames stack names names') :
    ∀ t : TypeExpr, Concur stack (shapeWith scope m env names t) (shapeWith scope m env names' t)
  | .named none name args span => hnames name args span
  | .named (some _) .. => by
    rw [shapeWith_qualified, shapeWith_qualified]
    exact concur_qualified
  | .pointer .. | .slice .. | .map .. | .chan .. | .func _ | .interface _ => .pure
  | .array length element span => by
    unfold shapeWith
    exact concur_arrayLength.bind fun n => (concur_shapeWith hnames element).bind fun e => .guarded fun _ => .pure
  | .struct st => (concur_structWith hnames st).bind fun _ => .pure

theorem concur_structWith {env : Env} {names names' : Names} (hnames : ConcurNames stack names names') :
    ∀ st : StructType, Concur stack (structWith scope m env names st) (structWith scope m env names' st)
  | ⟨decls, _, _⟩ => (concur_fieldsWith hnames decls).bind fun _ => .guarded fun _ => .pure

private theorem concur_fieldsWith {env : Env} {names names' : Names} (hnames : ConcurNames stack names names') :
    ∀ decls : List FieldDecl, Concur stack (fieldsWith scope m env names decls) (fieldsWith scope m env names' decls)
  | [] => .pure
  | d :: rest => (concur_typeOfField hnames d).bind fun _ => (concur_fieldsWith hnames rest).bind fun _ => .pure

private theorem concur_typeOfField {env : Env} {names names' : Names} (hnames : ConcurNames stack names names') :
    ∀ d : FieldDecl, Concur stack (typeOfField scope m env names d) (typeOfField scope m env names' d)
  | ⟨_, type, _, _⟩ => concur_shapeWith hnames type

end

/-! ## Names and environments -/

/-- Whether uses of the types that are declared are resolved in the same way. -/
def ConcurDeclared (scope : Scope) (stack : List String) (declared declared' : Declared) : Prop :=
  ∀ (symbol : TypeSymbol) args env span, scope.type? symbol.decl.name = some symbol →
    Concur stack (declared symbol args env span) (declared' symbol args env span)

variable {files : List SourceFile} (hscope : scope.DeclaredIn files)
include hscope

theorem concur_global {declared declared' : Declared} (h : ConcurDeclared scope stack declared declared') (env : Env) :
    ConcurNames stack (global scope m declared env) (global scope m declared' env) := by
  intro name args span
  simp only [global, inFile_plain]
  split
  · next symbol htype =>
    obtain ⟨rfl, -⟩ := hscope.of_type? htype
    exact h symbol args env span htype
  · split
    · exact concur_undefined
    · split
      · exact .pure
      · exact .throw

/-- The recursion follows the environments: an argument is resolved in the one around. -/
theorem concur_namesIn {declared declared' : Declared} (h : ConcurDeclared scope stack declared declared')
    (env : Env) : ConcurNames stack (namesIn scope m declared env) (namesIn scope m declared' env) := by
  induction env with
  | site file params isLocal =>
    intro name args span
    simp only [namesIn]
    split
    · exact .pure
    · exact concur_global hscope h _ name args span
  | instantiated file params types caller ih =>
    intro name args span
    simp only [namesIn]
    split
    · exact concur_shapeWith ih _
    · exact concur_global hscope h _ name args span

/-! ## Declared types -/

omit hscope in
/-- The declaration of a type in progress is not entered. -/
theorem concur_visit {symbol : TypeSymbol} {args : List TypeExpr} {span : Span} {enter enter' : Resolve Shape}
    (h : symbol.decl.name ∉ stack → Concur stack enter enter') :
    Concur stack (visit symbol args span enter) (visit symbol args span enter') := by
  unfold visit
  rcases checkArguments_cases symbol.decl args span with ⟨-, hcheck⟩ | ⟨-, e, -, hcheck⟩
  · rw [hcheck, pure_bind, pure_bind]
    refine .get_bind fun r _ => ?_
    split
    · exact .pure
    · refine .get_bind fun r hr => ?_
      rw [hr]
      exact .guarded h
  · rw [hcheck]
    exact Concur.throw (e := e)

theorem concur_enter {declared declared' : Declared} {symbol : TypeSymbol} {args : List TypeExpr} {env : Env}
    (h : ConcurDeclared scope (symbol.decl.name :: stack) declared declared') :
    Concur stack (enter scope m declared symbol args env) (enter scope m declared' symbol args env) := by
  refine (Concur.within (concur_shapeWith (concur_namesIn hscope h _) _)).bind fun shape => ?_
  split
  · exact fun r hr => ⟨rfl, .modify_bind (.pure hr)⟩
  · exact .pure

/-- Every level takes one of the types that are not in progress, so that none is left at the last one. -/
theorem concur_declaredOver (beyond : Declared) (depth : Nat) (hdepth : idle scope stack ≤ depth) :
    ConcurDeclared scope stack (declared scope m depth) (declaredOver scope m beyond (depth + 1)) := by
  induction depth generalizing stack with
  | zero =>
    intro symbol args env span htype
    rw [declared_zero]
    refine concur_visit fun hname => ?_
    have hlt := idle_cons_lt htype hname
    omega
  | succ depth ih =>
    intro symbol args env span htype
    rw [declared_succ]
    refine concur_visit fun hname => concur_enter hscope (ih ?_)
    have hlt := idle_cons_lt htype hname
    omega

theorem concur_structGiven {declared declared' : Declared}
    (h : ∀ stack, ConcurDeclared scope stack declared declared') (s : Site) :
    Concur stack (structGiven scope m declared s) (structGiven scope m declared' s) := by
  have hfields (stack : List String) : Concur stack
      (structWith scope m (.site s.file s.params s.isLocal) (namesIn scope m declared (.site s.file s.params s.isLocal))
        s.type)
      (structWith scope m (.site s.file s.params s.isLocal) (namesIn scope m declared' (.site s.file s.params s.isLocal))
        s.type) :=
    concur_structWith (concur_namesIn hscope (h stack) _) s.type
  unfold structGiven
  split
  · exact (hfields _).within
  · exact hfields stack

theorem concur_struct (beyond : Declared) (s : Site) :
    Concur stack (struct scope m s) (structGiven scope m (declaredOver scope m beyond (scope.types.length + 1)) s) := by
  rw [struct_eq_given]
  exact concur_structGiven hscope (fun _ => concur_declaredOver hscope beyond scope.types.length idle_le) s

end

/-! ## Every package -/

/-- Resolving a struct literal ends, whatever the package declares and whatever is in progress or remembered before:
    declared types are nested no deeper than there are of them, so that it makes no difference what would be done beyond
    that, and every call of the evaluator for the length of an array ends. Whether it succeeds or fails, the types in
    progress are afterwards what they were before. -/
theorem struct_ends (files : List SourceFile) (m : Machine) (s : Site) (r : Resolver) :
    let scope := (Scope.build files).scope
    (∀ beyond, structGiven scope m (declaredOver scope m beyond (scope.types.length + 1)) s r = struct scope m s r) ∧
      (∀ file length, scope.Evaluates [] file none length (scope.value length file none) []) ∧
      Ends (struct scope m s) r (fun _ t => t.resolving = r.resolving) fun _ t => t.resolving = r.resolving := by
  intro scope
  have hscope := (Scope.build_declaredIn files).scope
  refine ⟨fun beyond => ?_, fun file length => ?_, ?_⟩
  · exact (concur_struct hscope beyond s r rfl).1.symm
  · exact (Scope.Evaluating.start scope length.constants).evaluates
  · exact (concur_struct hscope (declared scope m 0) s r rfl).2

end Resolver

end StructPadding
