-- SUMMARY: Which faults resolution has: those of the struct literal and of the declarations, in the file of each.
import StructPadding.Proofs.Outcome
import StructPadding.Proofs.Package.Declared
import StructPadding.Proofs.Package.Located

/-!
# Faults

Where resolution fails because the source is wrong, it fails at a construct it came across: one of the struct literal
that it began with, or one of a declaration. So a property of faults holds of all of them as soon as it holds of those
that are about parts of the literal and of the declarations. What has to be known of an environment is where the
arguments in it are written.

One such property is that the file named by a fault holds the construct, at the place of the problem: located resolution
names the right file.
-/

namespace StructPadding

/-- Whether a property holds of all faults in a file that are about a construct or a part of it. -/
def Construct.Admits (c : Construct) (E : Fault → Prop) (file : Nat) : Prop :=
  ∀ (d : Construct) (cause : Cause), d.Part c → d.Explains cause → E ⟨file, .invalid ⟨cause, d.span⟩⟩

theorem Construct.Admits.part {c d : Construct} {E : Fault → Prop} {file : Nat} (h : d.Admits E file)
    (hc : c.Part d) : c.Admits E file := fun b cause hb hcause => h b cause (hb.trans hc) hcause

theorem Construct.Admits.mono {c : Construct} {E F : Fault → Prop} {file : Nat} (h : c.Admits E file)
    (hF : ∀ f, E f → F f) : c.Admits F file := fun d cause hd hcause => hF _ (h d cause hd hcause)

/-- Whether a property holds of all faults that are about the declarations of a package, or about unknown names. -/
structure Scope.Admits (scope : Scope) (E : Fault → Prop) : Prop where
  unknown : ∀ file name span, E ⟨file, .unknown name span⟩
  type : ∀ {name symbol}, scope.type? name = some symbol →
    symbol.decl.name = name ∧ (Construct.typeDecl symbol.decl).Admits E symbol.file
  const : ∀ {name symbol}, scope.const? name = some symbol →
    (Construct.constName name symbol.span).Admits E symbol.file ∧
      ∀ e, symbol.value = some e → (Construct.expr e).Admits E symbol.file

theorem Scope.Admits.mono {scope : Scope} {E F : Fault → Prop} (h : scope.Admits E) (hF : ∀ f, E f → F f) :
    scope.Admits F where
  unknown file name span := hF _ (h.unknown file name span)
  type hsymbol := ⟨(h.type hsymbol).1, (h.type hsymbol).2.mono hF⟩
  const hsymbol := ⟨(h.const hsymbol).1.mono hF, fun e he => ((h.const hsymbol).2 e he).mono hF⟩

section

variable {E : Fault → Prop} {scope : Scope} (hscope : scope.Admits E)

/-! ## Constants -/

namespace Constant.Located

/-- Whether a result that is none is a fault with a property. -/
def FailsWith (E : Fault → Prop) (r : Result) : Prop := ∀ f, r = .error f → E f

theorem FailsWith.ok (v : Int) : FailsWith E (.ok v) := by
  intro f hf
  cases hf

theorem FailsWith.bind {r : Result} {f : Int → Result} (hr : FailsWith E r) (hf : ∀ v, FailsWith E (f v)) :
    FailsWith E (r >>= f) := by
  cases r with
  | error e =>
    intro g hg
    cases hg
    exact hr e rfl
  | ok v => exact hf v

theorem FailsWith.invalid {file : Nat} {cause : Cause} {c : Construct} (hc : c.Admits E file) (h : c.Explains cause) :
    FailsWith E (inFile file (Constant.invalid cause c.span)) := by
  intro f hf
  cases hf
  exact hc c cause .self h

theorem FailsWith.inRange {file : Nat} {v : Option Int} {c : Construct} (hc : c.Admits E file)
    (h : c.Explains .constantOverflow) : FailsWith E (inFile file (Constant.inRange c.span v)) := by
  cases v with
  | none => exact FailsWith.invalid hc h
  | some v => exact FailsWith.ok v

theorem FailsWith.unary {file : Nat} {op : UnaryOp} {x : Expr} {span : Span}
    (hc : (Construct.expr (.unary op x span)).Admits E file) (v : Int) :
    FailsWith E (inFile file (Constant.unary op v span)) := by
  cases op with simp only [Constant.unary]
  | plus | complement => exact FailsWith.ok _
  | neg => exact FailsWith.inRange hc .overflow
  | not => exact FailsWith.invalid hc .negation

theorem FailsWith.binary {file : Nat} {op : BinaryOp} {l r : Expr} {span : Span}
    (hc : (Construct.expr (.binary op l r span)).Admits E file) (a b : Int) :
    FailsWith E (inFile file (Constant.binary op a b span)) := by
  cases op with simp only [Constant.binary]
  | add | sub | mul | shl | shr => exact FailsWith.inRange hc .binaryOverflow
  | div | rem =>
    split
    · exact FailsWith.invalid hc (.divisionByZero (by simp))
    · exact FailsWith.inRange hc .binaryOverflow
  | and | or | xor | andNot => exact FailsWith.ok _
  | logical => exact FailsWith.invalid hc .logical

/-- A name that is no constant is missed where it is used. -/
theorem FailsWith.notConst {file : Nat} {name : String} {span : Span}
    (he : (Construct.expr (.name none name span)).Admits E file) :
    FailsWith E (inFile file
      (Constant.invalid (if (scope.type? name).isSome then .typeAsExpression name else .undefined name) span)) := by
  split
  · exact FailsWith.invalid he .typeAsExpression
  · exact FailsWith.invalid he .undefinedConst

include hscope

theorem FailsWith.qualified {file : Nat} {package name : String} {span : Span}
    (hc : (Construct.expr (.name (some package) name span)).Admits E file) :
    FailsWith E (inFile file (Constant.qualified scope file package name span)) := by
  unfold Constant.qualified
  split
  · exact FailsWith.invalid hc .undefinedQualifier
  · split
    · exact FailsWith.ok _
    · intro f hf
      cases hf
      exact hscope.unknown ..

theorem failsWith_valueWith {names : String → Span → Result} {file : Nat}
    (hnames : ∀ name span, (Construct.expr (.name none name span)).Admits E file → FailsWith E (names name span))
    {iota : Option Nat} {e : Expr} (he : (Construct.expr e).Admits E file) :
    FailsWith E (valueWith scope names file iota e) := by
  induction e with
  | int v span => exact FailsWith.ok v
  | name package name span =>
    cases package with
    | none => exact hnames name span he
    | some package => exact FailsWith.qualified hscope he
  | iota span =>
    cases iota with
    | none => exact FailsWith.invalid he .iotaOutsideConst
    | some i => exact FailsWith.ok _
  | unary op x span ih => exact (ih (he.part (.operand .self))).bind fun v => FailsWith.unary he v
  | binary op l r span ihl ihr =>
    have hl := ihl (he.part (.left .self))
    have hr := ihr (he.part (.right .self))
    cases op with
    | logical => exact FailsWith.invalid he .logical
    | _ => exact hl.bind fun a => hr.bind fun b => FailsWith.binary he a b
  | convert x span ih => exact ih (he.part (.converted .self))
  | other span => exact FailsWith.invalid he .notInteger

theorem failsWith_valueOfName {depth : Nat} {evaluating : List String} {file : Nat} {name : String} {span : Span}
    (he : (Construct.expr (.name none name span)).Admits E file) :
    FailsWith E (valueOfName scope depth evaluating file name span) := by
  induction depth generalizing evaluating file name span with
  | zero =>
    unfold valueOfName
    split
    · exact FailsWith.notConst he
    · next symbol hsymbol =>
      obtain ⟨hname, -⟩ := hscope.const hsymbol
      split
      · exact FailsWith.invalid hname .missingInitializer
      · split <;> exact FailsWith.invalid he .initializationCycle
  | succ depth ih =>
    unfold valueOfName
    split
    · exact FailsWith.notConst he
    · next symbol hsymbol =>
      -- the initializer stands in the file of the declaration, and names in it are used from there
      obtain ⟨hname, hvalue⟩ := hscope.const hsymbol
      split
      · exact FailsWith.invalid hname .missingInitializer
      · next value hinit =>
        split
        · exact FailsWith.invalid he .initializationCycle
        · exact failsWith_valueWith hscope (fun _ _ hx => ih hx) (hvalue value hinit)

theorem failsWith_value {file : Nat} {iota : Option Nat} {e : Expr} (he : (Construct.expr e).Admits E file) :
    FailsWith E (value scope e file iota) :=
  failsWith_valueWith hscope (fun _ _ hx => failsWith_valueOfName hscope hx) he

end Constant.Located

/-! ## Types -/

/-- Whether a property holds of all faults that are about a construct, or a part of it, in an environment. Where names
    that are declared nowhere may belong to a function, no type is blamed for them. -/
def Env.Admits (env : Env) (E : Fault → Prop) (c : Construct) : Prop :=
  ∀ (d : Construct) (cause : Cause), d.Part c → d.Explains cause →
    ¬(env.isLocal = true ∧ ∃ t name, d = .type t ∧ cause = .undefined name) →
      E ⟨env.file, .invalid ⟨cause, d.span⟩⟩

/-- Whether a property holds of all faults that are about arguments, where these are written. -/
def Env.AdmitsArgs (E : Fault → Prop) : Env → Prop
  | .site .. => True
  | .instantiated _ _ args caller => (∀ a ∈ args, caller.Admits E (.type a)) ∧ caller.AdmitsArgs E

namespace Env

variable {env : Env} {c d : Construct}

theorem Admits.part (h : env.Admits E d) (hc : c.Part d) : env.Admits E c :=
  fun b cause hb => h b cause (hb.trans hc)

theorem admits_of_construct (h : c.Admits E env.file) : env.Admits E c :=
  fun b cause hb hcause _ => h b cause hb hcause

/-- Expressions are blamed for undefined names in every environment. -/
theorem Admits.expr {e : Expr} (h : env.Admits E (.length e)) : (Construct.expr e).Admits E env.file := by
  intro d cause hd hcause
  refine h d cause (.lengthExpr hd) hcause ?_
  rintro ⟨-, t, name, rfl, -⟩
  obtain ⟨x, hx⟩ := hd.of_expr
  cases hx

theorem mem_of_argument? {params : List String} {args : List TypeExpr} {name : String} {t : TypeExpr}
    (h : argument? params args name = some t) : t ∈ args := by
  obtain ⟨before, after, hsplit, -⟩ := List.lookup_eq_some_iff.1 h
  have hmem : (name, t) ∈ (params.zip args).reverse := by simp [hsplit]
  exact (List.of_mem_zip (List.mem_reverse.1 hmem)).2

end Env

namespace Resolver.Located

/-- Whether a resolution that fails gives a fault with a property. -/
def FailsWith {α : Type} (E : Fault → Prop) (r : Resolve α) : Prop :=
  Keeps (fun _ => True) r (fun _ => True) E

/-- Whether a resolution that fails in a file gives a fault with a property. -/
abbrev FailsWithIn {α : Type} (E : Fault → Prop) (file : Nat) (r : Resolver.Resolve α) : Prop :=
  Keeps (fun _ => True) r (fun _ => True) fun e => E ⟨file, e⟩

section

variable {α β : Type}

theorem FailsWith.pure (a : α) : FailsWith E (pure a) := Keeps.pure trivial

theorem FailsWith.bind {r : Resolve α} {f : α → Resolve β} (hr : FailsWith E r) (hf : ∀ a, FailsWith E (f a)) :
    FailsWith E (r >>= f) := Keeps.bind hr fun a _ => hf a

theorem FailsWith.inFile {file : Nat} {r : Resolver.Resolve α} (h : FailsWithIn E file r) :
    FailsWith E (inFile file r) := Keeps.adaptExcept h

theorem FailsWith.within {r : Resolve α} (hr : FailsWith E r) (name : String) : FailsWith E (within name r) := by
  intro s _
  have h := hr { s with resolving := name :: s.resolving } trivial
  simp only [Resolver.within]
  cases hres : r { s with resolving := name :: s.resolving } with
  | error f t =>
    rw [hres] at h
    exact h
  | ok a t => exact ⟨trivial, trivial⟩

/-- What is wrong with a construct in every environment. -/
theorem failsWithIn_invalid {env : Env} {cause : Cause} {c : Construct} (hc : env.Admits E c) (h : c.Explains cause)
    (hcause : ∀ name, cause ≠ .undefined name) :
    FailsWithIn E env.file (invalid cause c.span : Resolver.Resolve α) := by
  refine Keeps.throw (hc c cause .self h ?_)
  rintro ⟨-, -, name, -, hundefined⟩
  exact hcause name hundefined

end

variable {m : Machine}

theorem failsWithIn_checkArguments {env : Env} {d : TypeDecl} {args : List TypeExpr} {span : Span}
    (hc : env.Admits E (.type (.named none d.name args span))) :
    FailsWithIn E env.file (checkArguments d args span) := by
  refine Keeps.when (fun h => failsWithIn_invalid hc (.notGeneric ?_) nofun) ?_
  · rintro rfl
    simp at h
  · refine Keeps.when (fun h => ?_) (Keeps.ite (fun h => ?_) fun _ => Keeps.pure trivial)
    · obtain rfl : args = [] := by simpa using (Bool.and_eq_true_iff.1 h).2
      exact failsWithIn_invalid hc .notInstantiated nofun
    · exact failsWithIn_invalid hc (.wrongArgumentCount h) nofun

/-- Whether the names of an environment, where they fail, give faults with a property. -/
def NamesFailWith (E : Fault → Prop) (env : Env) (names : Names) : Prop :=
  ∀ name args span, env.Admits E (.type (.named none name args span)) → FailsWith E (names name args span)

/-- Whether declared types, where they fail, give faults with a property. -/
def DeclaredFailWith (E : Fault → Prop) (declared : Declared) : Prop :=
  ∀ symbol args env span, (Construct.typeDecl symbol.decl).Admits E symbol.file → env.AdmitsArgs E →
    env.Admits E (.type (.named none symbol.decl.name args span)) → FailsWith E (declared symbol args env span)

section

include hscope

/-- A name that is declared nowhere is unknown in a function, and wrong elsewhere. -/
theorem failsWithIn_undefined {env : Env} {name : String} {t : TypeExpr} (hc : env.Admits E (.type t))
    (h : (Construct.type t).Explains (.undefined name)) :
    FailsWithIn E env.file (undefined name env.isLocal t.span : Resolver.Resolve Shape) := by
  refine Keeps.ite (fun _ => Keeps.throw (hscope.unknown ..)) fun hlocal => ?_
  exact Keeps.throw (hc _ _ .self h fun hexempt => hlocal hexempt.1)

theorem failsWithIn_qualified {env : Env} {package name : String} {args : List TypeExpr} {span : Span}
    (hc : env.Admits E (.type (.named (some package) name args span))) :
    FailsWithIn E env.file (qualified scope m env package name args span) := by
  unfold qualified
  split
  · exact failsWithIn_undefined hscope hc .undefinedPackage
  · split
    · exact Keeps.pure trivial
    · exact Keeps.throw (hscope.unknown ..)

theorem failsWith_arrayLength {env : Env} {length : Expr} (hc : env.Admits E (.length length)) :
    FailsWith E (arrayLength scope env.file length) := by
  unfold arrayLength
  split
  · next f hf => exact Keeps.throw (Constant.Located.failsWith_value hscope hc.expr f hf)
  · refine FailsWith.inFile (Keeps.ite (fun _ => Keeps.pure trivial) fun _ => ?_)
    exact failsWithIn_invalid hc .invalidLength nofun

end

mutual

theorem failsWith_shapeWith (hscope : scope.Admits E) {env : Env} {names : Names}
    (hnames : NamesFailWith E env names) :
    ∀ t : TypeExpr, env.Admits E (.type t) → FailsWith E (shapeWith scope m env names t)
  | .named none name args span, h => hnames name args span h
  | .named (some package) name args span, h => FailsWith.inFile (failsWithIn_qualified hscope h)
  | .pointer .., _ | .slice .., _ | .map .., _ | .chan .., _ | .func _, _ | .interface _, _ => FailsWith.pure _
  | .array length element span, h => by
    apply (failsWith_arrayLength hscope (h.part (.length .self))).bind
    intro n
    apply (failsWith_shapeWith hscope hnames element (h.part (.element .self))).bind
    intro e
    exact Keeps.when (fun _ => FailsWith.inFile (failsWithIn_invalid h .typeTooLarge nofun)) (FailsWith.pure _)
  | .struct st, h =>
    (failsWith_structWith hscope hnames st (h.part (.literal .self))).bind fun fields => FailsWith.pure _

theorem failsWith_structWith (hscope : scope.Admits E) {env : Env} {names : Names}
    (hnames : NamesFailWith E env names) :
    ∀ st : StructType, env.Admits E (.struct st) → FailsWith E (structWith scope m env names st)
  | ⟨decls, keyword, span⟩, h => by
    apply (failsWith_fieldsWith hscope hnames decls fun d hd => h.part (.field hd .self)).bind
    intro fields
    exact Keeps.when (fun _ => FailsWith.inFile (failsWithIn_invalid h .structTooLarge nofun)) (FailsWith.pure _)

private theorem failsWith_fieldsWith (hscope : scope.Admits E) {env : Env} {names : Names}
    (hnames : NamesFailWith E env names) :
    ∀ decls : List FieldDecl, (∀ d ∈ decls, env.Admits E (.type d.type)) →
      FailsWith E (fieldsWith scope m env names decls)
  | [], _ => FailsWith.pure _
  | d :: rest, h => by
    have hrest := failsWith_fieldsWith hscope hnames rest fun e he => h e (List.mem_cons_of_mem _ he)
    apply (failsWith_typeOfField hscope hnames d (h d (List.mem_cons_self ..))).bind
    intro shape
    exact hrest.bind fun fields => FailsWith.pure _

private theorem failsWith_typeOfField (hscope : scope.Admits E) {env : Env} {names : Names}
    (hnames : NamesFailWith E env names) :
    ∀ d : FieldDecl, env.Admits E (.type d.type) → FailsWith E (typeOfField scope m env names d)
  | ⟨_, type, _, _⟩, h => failsWith_shapeWith hscope hnames type h

end

include hscope

section

variable {declared : Declared} (hdeclared : DeclaredFailWith E declared)
include hdeclared

theorem failsWith_global {env : Env} (henv : env.AdmitsArgs E) : NamesFailWith E env (global scope m declared env) := by
  intro name args span h
  unfold global
  split
  · next symbol hsymbol =>
    obtain ⟨rfl, hdecl⟩ := hscope.type hsymbol
    exact hdeclared symbol args env span hdecl henv h
  · apply FailsWith.inFile
    split
    · exact failsWithIn_undefined hscope h .undefinedType
    · refine Keeps.ite (fun _ => Keeps.pure trivial) fun hargs => failsWithIn_invalid h (.notGeneric ?_) nofun
      rintro rfl
      exact hargs rfl

theorem failsWith_namesIn {env : Env} (henv : env.AdmitsArgs E) :
    NamesFailWith E env (namesIn scope m declared env) := by
  induction env with
  | site file params isLocal =>
    intro name args span h
    exact Keeps.ite (fun _ => FailsWith.pure _) fun _ => failsWith_global hscope hdeclared henv name args span h
  | instantiated file params types caller ih =>
    obtain ⟨hargs, hcaller⟩ := henv
    intro name args span h
    simp only [namesIn]
    split
    · next t ht => exact failsWith_shapeWith hscope (ih hcaller) t (hargs t (Env.mem_of_argument? ht))
    · have hwritten : (Env.instantiated file params types caller).AdmitsArgs E := ⟨hargs, hcaller⟩
      exact failsWith_global hscope hdeclared hwritten name args span h

end

/-- A declared type fails where its name is used, or in its declaration. -/
theorem failsWith_declared (depth : Nat) : DeclaredFailWith E (declared scope m depth) := by
  induction depth with
  | zero =>
    intro symbol args env span hdecl henv h
    unfold declared
    apply (FailsWith.inFile (failsWithIn_checkArguments h)).bind
    intro _
    refine Keeps.bind Keeps.get fun s _ => ?_
    split
    · exact FailsWith.pure _
    -- no declaration is followed any more, so what is wrong is the use of the name
    · refine Keeps.bind Keeps.get fun t _ => Keeps.when (fun _ => ?_) ?_ <;>
        exact FailsWith.inFile (failsWithIn_invalid h .recursiveType nofun)
  | succ depth ih =>
    intro symbol args env span hdecl henv h
    -- the declared type is looked at in the file of its declaration, the arguments in that of the use
    have hinner : (Env.instantiated symbol.file symbol.decl.params args env).AdmitsArgs E :=
      ⟨fun a ha => h.part (.argument ha .self), henv⟩
    have hnames := failsWith_namesIn (m := m) hscope ih hinner
    have hshape := failsWith_shapeWith (m := m) hscope hnames symbol.decl.type
      (Env.admits_of_construct (hdecl.part (.declared .self)))
    unfold declared
    apply (FailsWith.inFile (failsWithIn_checkArguments h)).bind
    intro _
    refine Keeps.bind Keeps.get fun s _ => ?_
    split
    · exact FailsWith.pure _
    · refine Keeps.bind Keeps.get fun t _ =>
        Keeps.when (fun _ => FailsWith.inFile (failsWithIn_invalid h .recursiveType nofun)) ?_
      apply (hshape.within _).bind
      intro shape
      exact Keeps.when (fun _ => Keeps.modify fun _ hs => hs) (FailsWith.pure _)

/-- A struct literal that is not resolved fails at a part of it, or at a part of a declaration. -/
theorem failsWith_structIn {env : Env} {st : StructType} (henv : env.AdmitsArgs E) (h : env.Admits E (.struct st)) :
    FailsWith E (structIn scope m env st) :=
  failsWith_structWith hscope (failsWith_namesIn hscope (failsWith_declared hscope scope.types.length) henv) st h

theorem failsWith_struct {site : Site}
    (h : (Env.site site.file site.params site.isLocal).Admits E (.struct site.type)) :
    FailsWith E (struct scope m site) := by
  have hargs : (Env.site site.file site.params site.isLocal).AdmitsArgs E := trivial
  have hfields := failsWith_structIn (m := m) hscope hargs h
  unfold struct structOr
  split
  · exact hfields.within _
  · exact hfields

end Resolver.Located

end

/-! ## Origins -/

/-- Whether a fault, where the source is wrong, is about a construct of the file it names. -/
def Fault.ArisesIn (files : List SourceFile) (f : Fault) : Prop :=
  ∀ p, f.reason = .invalid p → p.ArisesIn files f.file

variable {files : List SourceFile}

theorem InFile.admits {file : Nat} {c : Construct} (h : InFile files file c) :
    c.Admits (Fault.ArisesIn files) file := by
  intro d cause hd hcause p hp
  cases hp
  exact ⟨d, h.part hd, hcause, rfl⟩

theorem Scope.DeclaredIn.admits {scope : Scope} (h : scope.DeclaredIn files) :
    scope.Admits (Fault.ArisesIn files) where
  unknown _ _ _ := by
    intro p hp
    cases hp
  type hsymbol := ⟨(h.of_type? hsymbol).1, (h.of_type? hsymbol).2.admits⟩
  const hsymbol := ⟨(h.of_const? hsymbol).1.admits, fun e he => ((h.of_const? hsymbol).2 e he).admits⟩

namespace Resolver.Located

/-- Whether a resolution that fails is about the file it names. -/
def Traced {α : Type} (files : List SourceFile) (r : Resolve α) : Prop :=
  Keeps (fun _ => True) r (fun _ => True) (Fault.ArisesIn files)

/-- A struct literal that is not resolved fails at a construct of the file that is named. -/
theorem traced_struct {scope : Scope} {m : Machine} (hscope : scope.DeclaredIn files) {site : Site}
    (h : InFile files site.file (.struct site.type)) : Traced files (struct scope m site) :=
  failsWith_struct hscope.admits (Env.admits_of_construct h.admits)

end Resolver.Located

end StructPadding
