-- SUMMARY: Declared types that contain themselves by value, whatever their arguments.
import StructPadding.Proofs.Package.Results
import StructPadding.Proofs.Package.Unfolding

/-!
# Recursion

A declared type is recursive if its declaration reaches a use of the same type by value, with its parameters
standing for themselves. It then contains itself whatever its arguments are, and no use of it has a finite unfolding.
What is reached from a use of a declared type is reached from its declaration already, unless a parameter of the
declaration is met on the way.
-/

namespace StructPadding

/-! ## Instances -/

/-- Whether an environment is another one in which parameters that stand for themselves may have been given
    arguments. -/
inductive Env.Instance : Env → Env → Prop
  | same {env} : Env.Instance env env
  | given {file params args caller} : args.length = params.length →
      Env.Instance (.instantiated file params args caller) (.site file params false)
  | inner {file params args caller caller'} : Env.Instance caller caller' →
      Env.Instance (.instantiated file params args caller) (.instantiated file params args caller')

namespace Env.Instance

variable {env env' : Env} {name : String}

theorem enter (h : Instance env env') (symbol : TypeSymbol) (args : List TypeExpr) :
    Instance (env.enter symbol args) (env'.enter symbol args) := by
  unfold Env.enter
  split
  · exact .same
  · exact .inner h

/-- The declaration of a type, entered with arguments, is an instance of the declaration as it stands. -/
theorem of_enter {symbol : TypeSymbol} {args : List TypeExpr} (h : args.length = symbol.decl.params.length) :
    Instance (env.enter symbol args) symbol.part.env := by
  unfold Env.enter
  split
  · next hparams =>
    simp only [TypeSymbol.part, hparams]
    exact .same
  · exact .given h

theorem binding_of_argument (h : Instance env env') {t : TypeExpr} {caller' : Env}
    (hbinding : env'.binding name = .argument t caller') :
    ∃ caller, env.binding name = .argument t caller ∧ Instance caller caller' := by
  cases h with
  | same => exact ⟨caller', hbinding, .same⟩
  | given => exact absurd hbinding binding_site_ne_argument
  | inner h =>
    obtain ⟨ht, rfl⟩ := binding_instantiated_eq_argument_iff.1 hbinding
    exact ⟨_, binding_instantiated_eq_argument_iff.2 ⟨ht, rfl⟩, h⟩

theorem binding_eq_free_iff (h : Instance env env') : env.binding name = .free ↔ env'.binding name = .free := by
  cases h with
  | same => exact Iff.rfl
  | given hlength => simp [argument?_eq_none_iff hlength]
  | inner h => simp

/-- A parameter that stands for an argument did so before, or stood for itself. -/
theorem binding_argument (h : Instance env env') {t : TypeExpr} {caller : Env}
    (hbinding : env.binding name = .argument t caller) :
    (∃ caller', env'.binding name = .argument t caller' ∧ Instance caller caller') ∨ env'.binding name = .self := by
  cases h with
  | same => exact .inl ⟨caller, hbinding, .same⟩
  | given hlength =>
    right
    obtain ⟨ht, -⟩ := binding_instantiated_eq_argument_iff.1 hbinding
    have hsome := (argument?_eq_none_iff hlength).not.1 (ht ▸ Option.some_ne_none t)
    simpa using hsome
  | inner h =>
    left
    obtain ⟨ht, rfl⟩ := binding_instantiated_eq_argument_iff.1 hbinding
    exact ⟨_, binding_instantiated_eq_argument_iff.2 ⟨ht, rfl⟩, h⟩

end Env.Instance

namespace Scope

variable {scope : Scope} {symbol : TypeSymbol} {p q : Part}

/-- What is held in an environment is held in all its instances. -/
theorem Holds.of_instance {env env' : Env} {t : TypeExpr} (hq : scope.Holds ⟨env', t⟩ q) (h : env.Instance env') :
    ∃ inner, scope.Holds ⟨env, t⟩ ⟨inner, q.type⟩ ∧ inner.Instance q.env := by
  cases hq with
  | element => exact ⟨env, .element, h⟩
  | field hd => exact ⟨env, .field hd, h⟩
  | argument hbinding =>
    obtain ⟨caller, hcaller, hinstance⟩ := h.binding_of_argument hbinding
    exact ⟨caller, .argument hcaller, hinstance⟩
  | declared hfree htype hlength =>
    exact ⟨_, .declared (h.binding_eq_free_iff.2 hfree) htype hlength, h.enter ..⟩

theorem Meets.of_instance {env env' : Env} {t : TypeExpr} (hq : scope.Meets ⟨env', t⟩ q) (h : env.Instance env') :
    ∃ inner, scope.Meets ⟨env, t⟩ ⟨inner, q.type⟩ ∧ inner.Instance q.env := by
  induction hq with
  | refl => exact ⟨env, .refl, h⟩
  | tail _ hstep ih =>
    obtain ⟨inner, hmeets, hinner⟩ := ih
    obtain ⟨next, hholds, hnext⟩ := hstep.of_instance hinner
    exact ⟨next, hmeets.tail hholds, hnext⟩

/-- What is held in an instance of an environment is held in the environment, unless the type is a parameter
    that stands for itself there. -/
theorem Holds.to_instance {env env' : Env} {t : TypeExpr} (hq : scope.Holds ⟨env, t⟩ q) (h : env.Instance env') :
    (∃ outer, scope.Holds ⟨env', t⟩ ⟨outer, q.type⟩ ∧ q.env.Instance outer) ∨
      ∃ name args span, t = .named none name args span ∧ env'.binding name = .self := by
  cases hq with
  | element => exact .inl ⟨env', .element, h⟩
  | field hd => exact .inl ⟨env', .field hd, h⟩
  | argument hbinding =>
    rcases h.binding_argument hbinding with ⟨caller', hcaller, hinstance⟩ | hself
    · exact .inl ⟨caller', .argument hcaller, hinstance⟩
    · exact .inr ⟨_, _, _, rfl, hself⟩
  | declared hfree htype hlength =>
    exact .inl ⟨_, .declared (h.binding_eq_free_iff.1 hfree) htype hlength, h.enter ..⟩

/-! ## Uses -/

/-- Whether a declared type is used by value, with as many arguments as it has parameters. -/
def Uses (scope : Scope) (p : Part) (symbol : TypeSymbol) : Prop :=
  ∃ env name args span, scope.Meets p ⟨env, .named none name args span⟩ ∧ env.binding name = .free ∧
    scope.type? name = some symbol ∧ args.length = symbol.decl.params.length

theorem Uses.of_meets (hq : scope.Meets p q) (h : scope.Uses q symbol) : scope.Uses p symbol := by
  obtain ⟨env, name, args, span, hmeets, hrest⟩ := h
  exact ⟨env, name, args, span, hq.trans hmeets, hrest⟩

/-- A use of a declared type leads to its declaration, with some arguments. -/
theorem Uses.exists_enter (h : scope.Uses p symbol) : ∃ env args, args.length = symbol.decl.params.length ∧
    Relation.TransGen scope.Holds p ⟨Env.enter env symbol args, symbol.decl.type⟩ := by
  obtain ⟨env, name, args, span, hmeets, hfree, htype, hlength⟩ := h
  exact ⟨env, args, hlength, .tail' hmeets (.declared hfree htype hlength)⟩

/-- Whether a declared type contains itself by value, its parameters standing for themselves. -/
def Recursive (scope : Scope) (symbol : TypeSymbol) : Prop := scope.Uses symbol.part symbol

/-- Whether a declared type holds one of its own parameters by value, so that the arguments given for it are
    followed. -/
def HoldsParameter (scope : Scope) (symbol : TypeSymbol) : Prop :=
  ∃ env name args span, scope.Meets symbol.part ⟨env, .named none name args span⟩ ∧ env.binding name = .self

/-- Without parameters, a recursive type is held by itself. -/
theorem Recursive.transGen (h : scope.Recursive symbol) (hparams : symbol.decl.params = []) :
    Relation.TransGen scope.Holds symbol.part symbol.part := by
  obtain ⟨env, args, -, hpath⟩ := h.exists_enter
  rwa [Env.enter_eq_site hparams] at hpath

/-- A recursive type has no finite unfolding, whatever it is given for its parameters. -/
theorem Recursive.not_finite (h : scope.Recursive symbol) {env : Env} (henv : env.Instance symbol.part.env) :
    ¬ scope.Finite ⟨env, symbol.decl.type⟩ := by
  -- the path from the declaration to the use starts again behind the use
  suffices hno : ∀ p, Acc (Relation.TransGen fun q p => scope.Holds p q) p →
      ∀ env, Env.Instance env symbol.part.env → p ≠ ⟨env, symbol.decl.type⟩ from
    fun hfinite => hno _ hfinite.transGen env henv rfl
  intro p hp
  induction hp with
  | intro p _ ih =>
    rintro env henv rfl
    obtain ⟨env', name, args, span, hmeets, hfree, htype, hlength⟩ := h
    obtain ⟨inner, hinner, hinstance⟩ := Meets.of_instance hmeets henv
    have huse := Relation.TransGen.tail' hinner (.declared (hinstance.binding_eq_free_iff.2 hfree) htype hlength)
    exact ih _ (Relation.transGen_swap.1 huse) _ (.of_enter hlength) rfl

/-- What has a finite unfolding uses no recursive type. -/
theorem Finite.not_recursive (hp : scope.Finite p) (h : scope.Uses p symbol) : ¬ scope.Recursive symbol := by
  obtain ⟨env, args, hlength, hpath⟩ := h.exists_enter
  exact fun hrec => hrec.not_finite (.of_enter hlength) (hp.of_meets hpath.to_reflTransGen)

/-! ## Origins -/

/-- Whether a part is what the declaration of a type leads to, if the arguments for its parameters are never
    followed. -/
def Leads (scope : Scope) (symbol : TypeSymbol) (p : Part) : Prop :=
  (∃ env, scope.Meets symbol.part ⟨env, p.type⟩ ∧ p.env.Instance env) ∨ scope.HoldsParameter symbol

theorem leads_enter {args : List TypeExpr} (h : args.length = symbol.decl.params.length) (env : Env) :
    scope.Leads symbol ⟨env.enter symbol args, symbol.decl.type⟩ :=
  .inl ⟨_, .refl, .of_enter h⟩

theorem leads_part : scope.Leads symbol symbol.part := .inl ⟨_, .refl, .same⟩

theorem Leads.of_holds (h : scope.Leads symbol p) (hq : scope.Holds p q) : scope.Leads symbol q := by
  rcases h with ⟨env, hmeets, hinstance⟩ | hparam
  · rcases hq.to_instance hinstance with ⟨outer, hholds, houter⟩ | ⟨name, args, span, htype, hself⟩
    · exact .inl ⟨outer, hmeets.tail hholds, houter⟩
    · exact .inr ⟨env, name, args, span, htype ▸ hmeets, hself⟩
  · exact .inr hparam

/-- A type that is used again where its declaration leads is recursive, or holds a parameter. -/
theorem Leads.recursive {env : Env} {name : String} {args : List TypeExpr} {span : Span}
    (h : scope.Leads symbol ⟨env, .named none name args span⟩) (hfree : env.binding name = .free)
    (htype : scope.type? name = some symbol) (hlength : args.length = symbol.decl.params.length) :
    scope.Recursive symbol ∨ scope.HoldsParameter symbol := by
  rcases h with ⟨env', hmeets, hinstance⟩ | hparam
  · exact .inl ⟨env', name, args, span, hmeets, hinstance.binding_eq_free_iff.1 hfree, htype, hlength⟩
  · exact .inr hparam

end Scope

/-! ## Alarms -/

namespace Constant

/-- Whether no failure of an evaluation is about a recursive type. -/
def Calm (r : Result) : Prop := ∀ e, r = .error e → e.recursion? = none

theorem calm_valueWith {scope : Scope} {names : String → Span → Result} (hnames : ∀ name span, Calm (names name span))
    {file : Nat} {iota : Option Nat} {e : Expr} : Calm (valueWith scope names file iota e) := by
  intro u h
  rcases plain_or_exists_of_valueWith h with hplain | ⟨name, -, span, hname⟩
  · exact hplain.recursion?_eq
  · exact hnames name span u hname

theorem calm_valueOfName {scope : Scope} {depth : Nat} {evaluating : List String} {file : Nat} {name : String}
    {span : Span} : Calm (valueOfName scope depth evaluating file name span) := by
  induction depth using Nat.strongRecOn generalizing evaluating file name span with
  | ind depth ih =>
    intro u h
    rcases valueOfName_eq_error h with hplain | ⟨_, _, -, -, ⟨-, rfl⟩ | ⟨-, depth', rfl, he⟩⟩
    · exact hplain.recursion?_eq
    · rfl
    · exact calm_valueWith (fun _ _ => ih depth' (Nat.lt_succ_self depth')) u he

end Constant

/-- Constants may be missing or wrong, but no constant is a recursive type. -/
theorem Scope.calm_value {scope : Scope} {e : Expr} {file : Nat} {iota : Option Nat} :
    Constant.Calm (scope.value e file iota) :=
  Constant.calm_valueWith fun _ _ => Constant.calm_valueOfName

end StructPadding
