-- SUMMARY: What a type holds by value, and the shape that is left once all names in it are followed.
import Mathlib.Logic.Relation
import Mathlib.Tactic.Choose
import StructPadding.Package.Resolve

/-!
# Unfolding

A type is unfolded by following what it holds by value: the elements of arrays, the fields of structs, and what
names stand for. No resolver is involved, nothing is remembered, and a type that contains itself has no shape. This
is what resolution is measured against.
-/

namespace StructPadding

/-! ## Environments -/

/-- What a plain name stands for in an environment. -/
inductive Env.Binding
  /-- The name is no type parameter. -/
  | free
  /-- A type parameter that stands for itself. -/
  | self
  /-- A type parameter that stands for an argument, which is written in another environment. -/
  | argument (type : TypeExpr) (caller : Env)

namespace Env

def binding : Env → String → Binding
  | .site _ params _, name => if name ∈ params then .self else .free
  | .instantiated _ params args caller, name =>
    match argument? params args name with
    | some t => .argument t caller
    | none => .free

/-- The environment of the declaration of a type that is used with arguments. A declaration without parameters
    is the same wherever it is used. -/
def enter (env : Env) (symbol : TypeSymbol) (args : List TypeExpr) : Env :=
  if symbol.decl.params = [] then .site symbol.file [] false
  else .instantiated symbol.file symbol.decl.params args env

/-- An environment without what has no part in the shapes of types. -/
def essence : Env → Env
  | .site file params _ => .site file params false
  | .instantiated file params args caller =>
    if params = [] then .site file [] false else .instantiated file params args caller.essence

/-- The binding in the essence of an environment. -/
def Binding.essence : Binding → Binding
  | .free => .free
  | .self => .self
  | .argument t caller => .argument t caller.essence

@[simp] theorem binding_site_eq_self_iff {file : Nat} {params : List String} {isLocal : Bool} {name : String} :
    (site file params isLocal).binding name = .self ↔ name ∈ params := by
  simp only [binding]
  split <;> simp_all

@[simp] theorem binding_site_eq_free_iff {file : Nat} {params : List String} {isLocal : Bool} {name : String} :
    (site file params isLocal).binding name = .free ↔ name ∉ params := by
  simp only [binding]
  split <;> simp_all

@[simp] theorem binding_site_ne_argument {file : Nat} {params : List String} {isLocal : Bool} {name : String}
    {t : TypeExpr} {env : Env} : (site file params isLocal).binding name ≠ .argument t env := by
  simp only [binding]
  split <;> nofun

section

variable {file : Nat} {params : List String} {args : List TypeExpr} {caller : Env} {name : String}

@[simp] theorem binding_instantiated_eq_argument_iff {t : TypeExpr} {env : Env} :
    (instantiated file params args caller).binding name = .argument t env ↔
      argument? params args name = some t ∧ caller = env := by
  simp only [binding]
  split <;> simp_all

@[simp] theorem binding_instantiated_eq_free_iff :
    (instantiated file params args caller).binding name = .free ↔ argument? params args name = none := by
  simp only [binding]
  split <;> simp_all

@[simp] theorem binding_instantiated_ne_self : (instantiated file params args caller).binding name ≠ .self := by
  simp only [binding]
  split <;> nofun

end

@[simp] theorem argument?_nil (args : List TypeExpr) (name : String) : argument? [] args name = none := rfl

@[simp] theorem file_essence (env : Env) : env.essence.file = env.file := by
  cases env with
  | site => rfl
  | instantiated file params args caller =>
    simp only [essence]
    split <;> rfl

@[simp] theorem binding_essence (env : Env) (name : String) :
    env.essence.binding name = (env.binding name).essence := by
  cases env with
  | site file params isLocal =>
    simp only [essence, binding]
    split <;> rfl
  | instantiated file params args caller =>
    by_cases hparams : params = []
    · simp [essence, binding, hparams, Binding.essence]
    · simp only [essence, hparams, ↓reduceIte, binding]
      cases argument? params args name <;> rfl

theorem essence_instantiated (env : Env) (symbol : TypeSymbol) (args : List TypeExpr) :
    (instantiated symbol.file symbol.decl.params args env).essence = env.essence.enter symbol args := by
  simp only [essence, enter]

theorem enter_eq_site {env : Env} {symbol : TypeSymbol} {args : List TypeExpr} (h : symbol.decl.params = []) :
    env.enter symbol args = .site symbol.file symbol.decl.params false := by
  simp [enter, h]

theorem argument?_eq_none_iff {params : List String} {args : List TypeExpr} {name : String}
    (h : args.length = params.length) : argument? params args name = none ↔ name ∉ params := by
  simp only [argument?, List.lookup_eq_none_iff, List.mem_reverse]
  constructor
  · intro hnone hmem
    have hzip : name ∈ (params.zip args).map Prod.fst := by rwa [List.map_fst_zip (Nat.le_of_eq h.symm)]
    obtain ⟨p, hp, rfl⟩ := List.mem_map.1 hzip
    simpa using hnone p hp
  · intro hmem p hp
    have hfst := (List.of_mem_zip hp).1
    exact bne_iff_ne.2 fun heq => hmem (heq ▸ hfst)

end Env

/-! ## Containment -/

/-- A type together with the environment it is written in. -/
structure Part where
  env : Env
  type : TypeExpr

/-- A declared type whose parameters stand for themselves. -/
def TypeSymbol.part (symbol : TypeSymbol) : Part := ⟨.site symbol.file symbol.decl.params false, symbol.decl.type⟩

namespace Scope

/-- What a type holds by value, one step deep. Behind pointers, slices, maps, channels, functions and interfaces
    nothing is held by value. -/
inductive Holds (scope : Scope) : Part → Part → Prop
  /-- An array holds its element, whatever its length. -/
  | element {env length e span} : Holds scope ⟨env, .array length e span⟩ ⟨env, e⟩
  | field {env st d} : d ∈ st.fields → Holds scope ⟨env, .struct st⟩ ⟨env, d.type⟩
  | argument {env name args span t caller} : env.binding name = .argument t caller →
      Holds scope ⟨env, .named none name args span⟩ ⟨caller, t⟩
  | declared {env name args span symbol} : env.binding name = .free → scope.type? name = some symbol →
      args.length = symbol.decl.params.length →
      Holds scope ⟨env, .named none name args span⟩ ⟨env.enter symbol args, symbol.decl.type⟩

/-- What is reached by value, in any number of steps. -/
abbrev Meets (scope : Scope) : Part → Part → Prop := Relation.ReflTransGen scope.Holds

/-- Whether no chain of types that hold each other by value goes on forever. -/
def Finite (scope : Scope) (p : Part) : Prop := Acc (fun q p => scope.Holds p q) p

/-- Whether a plain or qualified name, where the part is one, stands for something. -/
def NameResolves (scope : Scope) (m : Machine) : Part → Prop
  | ⟨env, .named none name args _⟩ =>
    match env.binding name, scope.type? name with
    | .free, some symbol => args.length = symbol.decl.params.length
    | .free, none => args = [] ∧ (Library.predeclared? m name).isSome
    | _, _ => True
  | ⟨env, .named (some package) name args _⟩ =>
    args = [] ∧ ∃ path, scope.importPath? env.file package = some path ∧ (Library.type? m path name).isSome
  | _ => True

/-- Whether the length of an array, where the part is one, has a value that is a word. -/
def LengthEvaluates (scope : Scope) : Part → Prop
  | ⟨env, .array length _ _⟩ => ∃ v, scope.value length env.file none = .ok v ∧ 0 ≤ v ∧ v ≤ Word.limit
  | _ => True

end Scope

/-! ## Shapes -/

/-- The scalar of a type that is a reference, whatever is behind it. -/
def TypeExpr.reference? : TypeExpr → Option Scalar
  | .pointer .. => some .pointer
  | .slice .. => some .slice
  | .map .. => some .map
  | .chan .. => some .chan
  | .func _ => some .func
  | .interface _ => some .interface
  | .named .. | .array .. | .struct _ => none

/-- Whether a type is an array or a struct literal. -/
def TypeExpr.IsComposite : TypeExpr → Prop
  | .array .. | .struct _ => True
  | _ => False

/-- The fields of a struct, from the shapes of their types. -/
def fieldsOf (shape : FieldDecl → Shape) (decls : List FieldDecl) : List Field :=
  decls.flatMap fun d => d.fieldNames.map (⟨·, shape d⟩)

@[simp] theorem fieldsOf_nil (shape : FieldDecl → Shape) : fieldsOf shape [] = [] := rfl

@[simp] theorem fieldsOf_cons (shape : FieldDecl → Shape) (d : FieldDecl) (rest : List FieldDecl) :
    fieldsOf shape (d :: rest) = d.fieldNames.map (⟨·, shape d⟩) ++ fieldsOf shape rest := rfl

theorem fieldsOf_congr {shape shape' : FieldDecl → Shape} {decls : List FieldDecl}
    (h : ∀ d ∈ decls, shape d = shape' d) : fieldsOf shape decls = fieldsOf shape' decls := by
  induction decls with
  | nil => rfl
  | cons d rest ih =>
    rw [fieldsOf_cons, fieldsOf_cons, h d (List.mem_cons_self ..), ih fun e he => h e (List.mem_cons_of_mem _ he)]

namespace Scope

/-- The shape that a type unfolds to. -/
inductive Unfolds (scope : Scope) (m : Machine) : Part → Shape → Prop
  | reference {env t} {s : Scalar} : t.reference? = some s → Unfolds scope m ⟨env, t⟩ s
  | library {env package name span path shape} : scope.importPath? env.file package = some path →
      Library.type? m path name = some shape → Unfolds scope m ⟨env, .named (some package) name [] span⟩ shape
  /-- A parameter that stands for itself has the shape of its constraint, which is an interface. -/
  | parameter {env name args span} : env.binding name = .self →
      Unfolds scope m ⟨env, .named none name args span⟩ Scalar.interface
  | argument {env name args span t caller shape} : env.binding name = .argument t caller →
      Unfolds scope m ⟨caller, t⟩ shape → Unfolds scope m ⟨env, .named none name args span⟩ shape
  | declared {env name args span symbol shape} : env.binding name = .free → scope.type? name = some symbol →
      args.length = symbol.decl.params.length → Unfolds scope m ⟨env.enter symbol args, symbol.decl.type⟩ shape →
      Unfolds scope m ⟨env, .named none name args span⟩ shape
  | predeclared {env name span shape} : env.binding name = .free → scope.type? name = none →
      Library.predeclared? m name = some shape → Unfolds scope m ⟨env, .named none name [] span⟩ shape
  | array {env length e span v shape} : scope.value length env.file none = .ok v → 0 ≤ v → v ≤ Word.limit →
      Unfolds scope m ⟨env, e⟩ shape → Unfolds scope m ⟨env, .array length e span⟩ (.array shape v.toNat)
  /-- A struct has its fields in the order of their declarations. -/
  | struct {env st} (shape : FieldDecl → Shape) : (∀ d ∈ st.fields, Unfolds scope m ⟨env, d.type⟩ (shape d)) →
      Unfolds scope m ⟨env, .struct st⟩ (.struct (fieldsOf shape st.fields))

variable {scope : Scope} {m : Machine} {p q : Part} {s t : Shape}

/-- A type unfolds to one shape only. -/
theorem Unfolds.unique (hs : scope.Unfolds m p s) (ht : scope.Unfolds m p t) : s = t := by
  induction hs generalizing t with
  | reference href =>
    cases ht with
    | reference href' => rw [Option.some.inj (href.symm.trans href')]
    | library | parameter | argument | declared | predeclared | array | struct => cases href
  | library hpath htype =>
    cases ht with
    | reference href => cases href
    | library hpath' htype' =>
      obtain rfl := Option.some.inj (hpath.symm.trans hpath')
      exact Option.some.inj (htype.symm.trans htype')
  | parameter hself =>
    cases ht with
    | reference href => cases href
    | parameter => rfl
    | argument hbinding | declared hbinding | predeclared hbinding => cases hself.symm.trans hbinding
  | argument hargument _ ih =>
    cases ht with
    | reference href => cases href
    | argument hbinding ht =>
      cases hargument.symm.trans hbinding
      exact ih ht
    | parameter hbinding | declared hbinding | predeclared hbinding => cases hargument.symm.trans hbinding
  | declared hfree htype _ _ ih =>
    cases ht with
    | reference href => cases href
    | declared _ htype' _ ht =>
      obtain rfl := Option.some.inj (htype.symm.trans htype')
      exact ih ht
    | predeclared _ hnone => cases htype.symm.trans hnone
    | parameter hbinding | argument hbinding => cases hfree.symm.trans hbinding
  | predeclared hfree hnone hshape =>
    cases ht with
    | reference href => cases href
    | predeclared _ _ hshape' => exact Option.some.inj (hshape.symm.trans hshape')
    | declared _ htype => cases hnone.symm.trans htype
    | parameter hbinding | argument hbinding => cases hfree.symm.trans hbinding
  | array hvalue _ _ _ ih =>
    cases ht with
    | reference href => cases href
    | array hvalue' _ _ ht =>
      cases hvalue.symm.trans hvalue'
      rw [ih ht]
  | struct shape _ ih =>
    cases ht with
    | reference href => cases href
    | struct shape' ht => rw [fieldsOf_congr fun d hd => ih d hd (ht d hd)]

/-! ### Declared types -/

section

variable {env : Env} {name : String} {args : List TypeExpr} {span : Span} {symbol : TypeSymbol}
  (hfree : env.binding name = .free) (htype : scope.type? name = some symbol)
include hfree htype

theorem holds_declared_iff : scope.Holds ⟨env, .named none name args span⟩ q ↔
    args.length = symbol.decl.params.length ∧ q = ⟨env.enter symbol args, symbol.decl.type⟩ := by
  constructor
  · intro hq
    cases hq with
    | argument hbinding => cases hfree.symm.trans hbinding
    | declared _ htype' hlength =>
      obtain rfl := Option.some.inj (htype.symm.trans htype')
      exact ⟨hlength, rfl⟩
  · rintro ⟨hlength, rfl⟩
    exact .declared hfree htype hlength

theorem unfolds_declared_iff : scope.Unfolds m ⟨env, .named none name args span⟩ s ↔
    args.length = symbol.decl.params.length ∧ scope.Unfolds m ⟨env.enter symbol args, symbol.decl.type⟩ s := by
  constructor
  · intro hs
    cases hs with
    | reference href => cases href
    | declared _ htype' hlength hs =>
      obtain rfl := Option.some.inj (htype.symm.trans htype')
      exact ⟨hlength, hs⟩
    | predeclared _ hnone => cases htype.symm.trans hnone
    | parameter hbinding | argument hbinding => cases hfree.symm.trans hbinding
  · rintro ⟨hlength, hs⟩
    exact .declared hfree htype hlength hs

end

/-- What a type with a shape holds has a shape, too. -/
theorem Unfolds.of_holds (hs : scope.Unfolds m p s) (hq : scope.Holds p q) : ∃ t, scope.Unfolds m q t := by
  cases hq with
  | element =>
    cases hs with
    | reference href => cases href
    | array _ _ _ he => exact ⟨_, he⟩
  | field hd =>
    cases hs with
    | reference href => cases href
    | struct shape hfields => exact ⟨_, hfields _ hd⟩
  | argument hargument =>
    cases hs with
    | reference href => cases href
    | argument hbinding ht =>
      cases hargument.symm.trans hbinding
      exact ⟨_, ht⟩
    | parameter hbinding | declared hbinding | predeclared hbinding => cases hargument.symm.trans hbinding
  | declared hfree htype _ => exact ⟨s, ((unfolds_declared_iff hfree htype).1 hs).2⟩

theorem Unfolds.of_meets (hs : scope.Unfolds m p s) (hq : scope.Meets p q) : ∃ t, scope.Unfolds m q t := by
  induction hq with
  | refl => exact ⟨s, hs⟩
  | tail _ hstep ih =>
    obtain ⟨t, ht⟩ := ih
    exact ht.of_holds hstep

/-- A type with a shape has a finite unfolding. -/
theorem Unfolds.finite (hs : scope.Unfolds m p s) : scope.Finite p := by
  induction hs with
  | reference href =>
    refine Acc.intro _ fun q hq => ?_
    cases hq <;> cases href
  | library =>
    refine Acc.intro _ fun q hq => ?_
    cases hq
  | parameter hself =>
    refine Acc.intro _ fun q hq => ?_
    cases hq with
    | argument hbinding | declared hbinding => cases hself.symm.trans hbinding
  | argument hargument _ ih =>
    refine Acc.intro _ fun q hq => ?_
    cases hq with
    | argument hbinding =>
      cases hargument.symm.trans hbinding
      exact ih
    | declared hbinding => cases hargument.symm.trans hbinding
  | declared hfree htype _ _ ih =>
    refine Acc.intro _ fun q hq => ?_
    obtain ⟨-, rfl⟩ := (holds_declared_iff hfree htype).1 hq
    exact ih
  | predeclared hfree hnone _ =>
    refine Acc.intro _ fun q hq => ?_
    cases hq with
    | argument hbinding => cases hfree.symm.trans hbinding
    | declared _ htype => cases hnone.symm.trans htype
  | array _ _ _ _ ih =>
    refine Acc.intro _ fun q hq => ?_
    cases hq
    exact ih
  | struct shape _ ih =>
    refine Acc.intro _ fun q hq => ?_
    cases hq with
    | field hd => exact ih _ hd

/-- Nothing with a finite unfolding is reached from itself. -/
theorem Finite.not_transGen (h : scope.Finite p) : ¬ Relation.TransGen scope.Holds p p := by
  induction h with
  | intro p _ ih =>
    intro hcycle
    obtain ⟨q, hpq, hqp⟩ := Relation.TransGen.head'_iff.1 hcycle
    exact ih q hpq (Relation.TransGen.tail' hqp hpq)

theorem Finite.of_meets (h : scope.Finite p) (hq : scope.Meets p q) : scope.Finite q := by
  induction hq with
  | refl => exact h
  | tail _ hstep ih => exact ih.inv hstep

/-- In a type with a shape, all names and lengths mean something. -/
theorem Unfolds.nameResolves (hs : scope.Unfolds m p s) : scope.NameResolves m p ∧ scope.LengthEvaluates p := by
  cases hs with
  | @reference env t s href =>
    cases t with
    | pointer | slice | map | chan | func | interface => exact ⟨trivial, trivial⟩
    | named | array | struct => cases href
  | library hpath htype => exact ⟨⟨rfl, _, hpath, by simp [htype]⟩, trivial⟩
  | parameter hbinding => simp [NameResolves, LengthEvaluates, hbinding]
  | argument hbinding => simp [NameResolves, LengthEvaluates, hbinding]
  | declared hbinding htype hlength => simp [NameResolves, LengthEvaluates, hbinding, htype, hlength]
  | predeclared hbinding hnone hshape => simp [NameResolves, LengthEvaluates, hbinding, hnone, hshape]
  | array hvalue hnonneg hle => exact ⟨trivial, _, hvalue, hnonneg, hle⟩
  | struct => exact ⟨trivial, trivial⟩

/-- A type has a shape exactly where its unfolding is finite, and all names and lengths in it mean something. -/
theorem exists_unfolds_iff : (∃ s, scope.Unfolds m p s) ↔
    scope.Finite p ∧ ∀ q, scope.Meets p q → scope.NameResolves m q ∧ scope.LengthEvaluates q := by
  constructor
  · rintro ⟨s, hs⟩
    refine ⟨hs.finite, fun q hq => ?_⟩
    obtain ⟨t, ht⟩ := hs.of_meets hq
    exact ht.nameResolves
  · rintro ⟨hfinite, hall⟩
    induction hfinite with
    | intro p _ ih =>
      -- what the part holds has a shape, and from there the part has one
      have hheld : ∀ q, scope.Holds p q → ∃ t, scope.Unfolds m q t := fun q hq =>
        ih q hq fun r hr => hall r (.head hq hr)
      obtain ⟨hname, hlength⟩ := hall p .refl
      obtain ⟨env, t⟩ := p
      cases t with
      | named package name args span =>
        cases package with
        | some package =>
          obtain ⟨rfl, path, hpath, htype⟩ := hname
          obtain ⟨shape, hshape⟩ := Option.isSome_iff_exists.1 htype
          exact ⟨shape, .library hpath hshape⟩
        | none =>
          simp only [NameResolves] at hname
          cases hbinding : env.binding name with
          | self => exact ⟨_, .parameter hbinding⟩
          | argument t caller =>
            obtain ⟨s, hs⟩ := hheld _ (.argument hbinding)
            exact ⟨s, .argument hbinding hs⟩
          | free =>
            cases htype : scope.type? name with
            | some symbol =>
              simp only [hbinding, htype] at hname
              obtain ⟨s, hs⟩ := hheld _ (.declared hbinding htype hname)
              exact ⟨s, .declared hbinding htype hname hs⟩
            | none =>
              simp only [hbinding, htype] at hname
              obtain ⟨rfl, hsome⟩ := hname
              obtain ⟨shape, hshape⟩ := Option.isSome_iff_exists.1 hsome
              exact ⟨shape, .predeclared hbinding htype hshape⟩
      | array length e span =>
        obtain ⟨v, hvalue, hnonneg, hle⟩ := hlength
        obtain ⟨s, hs⟩ := hheld _ .element
        exact ⟨_, .array hvalue hnonneg hle hs⟩
      | struct st =>
        have hfields : ∀ d ∈ st.fields, ∃ s, scope.Unfolds m ⟨env, d.type⟩ s := fun d hd => hheld _ (.field hd)
        choose! shape hshape using hfields
        exact ⟨_, .struct shape hshape⟩
      | pointer | slice | map | chan | func | interface => exact ⟨_, .reference rfl⟩

/-! ## Sizes -/

/-- Whether every array and struct that is reached by value fits the target. -/
def Sized (scope : Scope) (m : Machine) (p : Part) : Prop :=
  ∀ q, scope.Meets p q → q.type.IsComposite → ∀ s, scope.Unfolds m q s → (s.checkedSize m).isSome

theorem Sized.of_holds (h : scope.Sized m p) (hq : scope.Holds p q) : scope.Sized m q :=
  fun r hr => h r (.head hq hr)

theorem sized_of_holds (hself : p.type.IsComposite → ∀ s, scope.Unfolds m p s → (s.checkedSize m).isSome)
    (hheld : ∀ q, scope.Holds p q → scope.Sized m q) : scope.Sized m p := by
  intro r hr
  rcases Relation.ReflTransGen.cases_head hr with rfl | ⟨q, hq, hr⟩
  · exact hself
  · exact hheld q hq r hr

/-- Whether a shape is what a type unfolds to, and all of it fits the target. -/
structure Settles (scope : Scope) (m : Machine) (p : Part) (s : Shape) : Prop where
  unfolds : scope.Unfolds m p s
  sized : scope.Sized m p

/-- An array or struct whose parts fit is settled where it fits itself. -/
theorem Unfolds.settles_iff (hs : scope.Unfolds m p s) (hcomposite : p.type.IsComposite)
    (hheld : ∀ q, scope.Holds p q → scope.Sized m q) : scope.Settles m p s ↔ (s.checkedSize m).isSome := by
  constructor
  · intro h
    exact h.sized p .refl hcomposite s hs
  · intro hsome
    refine ⟨hs, sized_of_holds (fun _ t ht => ?_) hheld⟩
    rwa [ht.unique hs]

/-- A use of a declared type is settled to the shape of its declaration. -/
theorem settles_declared_iff {env : Env} {name : String} {args : List TypeExpr} {span : Span} {symbol : TypeSymbol}
    (hfree : env.binding name = .free) (htype : scope.type? name = some symbol) :
    scope.Settles m ⟨env, .named none name args span⟩ s ↔
      args.length = symbol.decl.params.length ∧ scope.Settles m ⟨env.enter symbol args, symbol.decl.type⟩ s := by
  constructor
  · rintro ⟨hs, hsized⟩
    obtain ⟨hlength, hs⟩ := (unfolds_declared_iff hfree htype).1 hs
    exact ⟨hlength, hs, hsized.of_holds (.declared hfree htype hlength)⟩
  · rintro ⟨hlength, hs, hsized⟩
    refine ⟨(unfolds_declared_iff hfree htype).2 ⟨hlength, hs⟩, sized_of_holds (fun h => h.elim) fun q hq => ?_⟩
    obtain ⟨-, rfl⟩ := (holds_declared_iff hfree htype).1 hq
    exact hsized

theorem Settles.unique (hs : scope.Settles m p s) (ht : scope.Settles m p t) : s = t := hs.unfolds.unique ht.unfolds

theorem Settles.of_holds (hs : scope.Settles m p s) (hq : scope.Holds p q) : ∃ t, scope.Settles m q t := by
  obtain ⟨t, ht⟩ := hs.unfolds.of_holds hq
  exact ⟨t, ht, hs.sized.of_holds hq⟩

end Scope

end StructPadding
