-- SUMMARY: A struct literal in a function is resolved as it is outside of one, but for the names that are undefined.
import StructPadding.Proofs.Package.Settled

/-!
# Leniency

A name that is declared nowhere is undefined. In a function it may belong to a declaration there, which is not
looked at, and so it is unknown. Nothing else depends on where a struct literal stands.
-/

namespace StructPadding

/-- The environment, with the struct literal that it begins at put into a function. -/
def Env.inFunction : Env → Env
  | .site file params _ => .site file params true
  | .instantiated file params args caller => .instantiated file params args caller.inFunction

@[simp] theorem Env.file_inFunction (env : Env) : env.inFunction.file = env.file := by
  cases env <;> rfl

namespace Resolver

/-! ## Two computations -/

/-- Whether a computation does what a strict one does, except that it may find a name unknown that is undefined for
    the strict one. -/
def Lenient {α : Type} (strict lenient : Resolve α) : Prop :=
  ∀ r, lenient r = strict r ∨
    ∃ name span next, strict r = .error (.invalid ⟨.undefined name, span⟩) next ∧
      lenient r = .error (.unknown name span) next

namespace Lenient

variable {α β : Type} {x y : Resolve α}

theorem refl (x : Resolve α) : Lenient x x := fun _ => .inl rfl

theorem of_eq (h : x = y) : Lenient x y := fun _ => .inl (by rw [h])

theorem bind {f g : α → Resolve β} (hx : Lenient x y) (hf : ∀ a, Lenient (f a) (g a)) :
    Lenient (x >>= f) (y >>= g) := by
  intro r
  simp only [Bind.bind, EStateM.bind]
  rcases hx r with heq | ⟨name, span, next, hstrict, hlenient⟩
  · rw [heq]
    cases x r with
    | error e t => exact .inl rfl
    | ok a t => exact hf a t
  · exact .inr ⟨name, span, next, by rw [hstrict], by rw [hlenient]⟩

theorem within (hx : Lenient x y) (name : String) : Lenient (Resolver.within name x) (Resolver.within name y) := by
  intro r
  simp only [Resolver.within]
  rcases hx { r with resolving := name :: r.resolving } with heq | ⟨missing, span, next, hstrict, hlenient⟩
  · exact .inl (by rw [heq])
  · exact .inr ⟨missing, span, { next with resolving := next.resolving.tail }, by rw [hstrict], by rw [hlenient]⟩

end Lenient

/-! ## Types -/

theorem lenient_undefined (env : Env) (name : String) (span : Span) :
    Lenient (undefined name env.isLocal span : Resolve Shape) (undefined name env.inFunction.isLocal span) := by
  cases env with
  | instantiated file params args caller => exact .refl _
  | site file params isLocal =>
    cases isLocal with
    | true => exact .refl _
    | false => exact fun r => .inr ⟨name, span, r, rfl, rfl⟩

variable {scope : Scope} {m : Machine}

theorem lenient_qualified {env : Env} {package name : String} {args : List TypeExpr} {span : Span} :
    Lenient (qualified scope m env package name args span)
      (qualified scope m env.inFunction package name args span) := by
  unfold qualified
  rw [Env.file_inFunction]
  split
  · exact lenient_undefined env package span
  · exact .refl _

/-- Whether the names of an environment are resolved as in another one, but for those that are undefined. -/
def LenientNames (strict lenient : Names) : Prop :=
  ∀ name args span, Lenient (strict name args span) (lenient name args span)

mutual

/-- A length is evaluated in the same way in a function, undefined names in it included. -/
theorem lenient_shapeWith {env : Env} {strict lenient : Names} (hnames : LenientNames strict lenient) :
    ∀ t : TypeExpr, Lenient (shapeWith scope m env strict t) (shapeWith scope m env.inFunction lenient t)
  | .named none name args span => hnames name args span
  | .named (some _) .. => by
    rw [shapeWith_qualified, shapeWith_qualified]
    exact lenient_qualified
  | .pointer .. | .slice .. | .map .. | .chan .. | .func _ | .interface _ => .refl _
  | .array length element span => by
    unfold shapeWith
    rw [Env.file_inFunction]
    exact (Lenient.refl _).bind fun n => (lenient_shapeWith hnames element).bind fun e => .refl _
  | .struct st => (lenient_structWith hnames st).bind fun _ => .refl _

theorem lenient_structWith {env : Env} {strict lenient : Names} (hnames : LenientNames strict lenient) :
    ∀ st : StructType, Lenient (structWith scope m env strict st) (structWith scope m env.inFunction lenient st)
  | ⟨decls, _, _⟩ => (lenient_fieldsWith hnames decls).bind fun _ => .refl _

private theorem lenient_fieldsWith {env : Env} {strict lenient : Names} (hnames : LenientNames strict lenient) :
    ∀ decls : List FieldDecl,
      Lenient (fieldsWith scope m env strict decls) (fieldsWith scope m env.inFunction lenient decls)
  | [] => .refl _
  | d :: rest =>
    (lenient_typeOfField hnames d).bind fun _ => (lenient_fieldsWith hnames rest).bind fun _ => .refl _

private theorem lenient_typeOfField {env : Env} {strict lenient : Names} (hnames : LenientNames strict lenient) :
    ∀ d : FieldDecl, Lenient (typeOfField scope m env strict d) (typeOfField scope m env.inFunction lenient d)
  | ⟨_, type, _, _⟩ => lenient_shapeWith hnames type

end

/-! ## Names -/

/-- Whether uses of declared types are resolved in a function as outside of it, but for undefined names. -/
def LenientDeclared (declared : Declared) : Prop :=
  ∀ symbol args (env : Env) span,
    Lenient (declared symbol args env span) (declared symbol args env.inFunction span)

section

variable {declared : Declared} (hdeclared : LenientDeclared declared)
include hdeclared

theorem lenient_global (env : Env) :
    LenientNames (global scope m declared env) (global scope m declared env.inFunction) := by
  intro name args span
  simp only [global, inFile_plain]
  split
  · next symbol _ => exact hdeclared symbol args env span
  · split
    · exact lenient_undefined env name span
    · exact .refl _

theorem lenient_namesIn (env : Env) :
    LenientNames (namesIn scope m declared env) (namesIn scope m declared env.inFunction) := by
  induction env with
  | site file params isLocal =>
    intro name args span
    simp only [namesIn, Env.inFunction]
    split
    · exact .refl _
    · exact lenient_global hdeclared (.site file params isLocal) name args span
  | instantiated file params types caller ih =>
    intro name args span
    simp only [namesIn, Env.inFunction]
    -- an argument is written where the type is used, and that may be in the function
    split
    · next t _ => exact lenient_shapeWith ih t
    · exact lenient_global hdeclared (.instantiated file params types caller) name args span

end

/-! ## Declared types -/

theorem lenient_visit {symbol : TypeSymbol} {args : List TypeExpr} {span : Span} {enter enter' : Resolve Shape}
    (h : Lenient enter enter') : Lenient (visit symbol args span enter) (visit symbol args span enter') := by
  refine (Lenient.refl _).bind fun _ => (Lenient.refl _).bind fun s => ?_
  split
  · exact .refl _
  · refine (Lenient.refl _).bind fun t => ?_
    split
    · exact (Lenient.refl _).bind fun _ => h
    · exact h

theorem lenient_declared (depth : Nat) : LenientDeclared (declared scope m depth) := by
  induction depth with
  | zero => exact fun _ _ _ _ => .of_eq (by rw [declared_zero, declared_zero])
  | succ depth ih =>
    intro symbol args env span
    rw [declared_succ, declared_succ]
    refine lenient_visit (Lenient.bind (Lenient.within ?_ _) fun _ => .refl _)
    exact lenient_shapeWith (lenient_namesIn ih (.instantiated symbol.file symbol.decl.params args env)) _

/-- A struct literal of a function is resolved as it is outside of the function, but for undefined names. -/
theorem lenient_struct (site : Site) :
    Lenient (struct scope m site) (struct scope m { site with isLocal := true }) := by
  obtain ⟨file, name, params, isLocal, st⟩ := site
  have hfields : Lenient (structIn scope m (.site file params isLocal) st)
      (structIn scope m (.site file params true) st) :=
    lenient_structWith (lenient_namesIn (lenient_declared _) (.site file params isLocal)) st
  cases name with
  | none => exact hfields
  | some name => exact hfields.within name

end Resolver

end StructPadding
