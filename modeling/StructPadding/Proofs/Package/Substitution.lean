-- SUMMARY: Types with types put for names, and when two types stand for the same where they are written.
import StructPadding.Proofs.Package.Recursion

/-!
# Substitution

A type can be put in place of a name. The arguments of a declared type are never put in place: its parameters stand for
them, each where it was written. That two types come to the same, whether by way of environments or by substitution, is
a relation between parts, which follows the types and looks names up on either side.
-/

namespace StructPadding

/-! ## Types for names -/

namespace FieldDecl

/-- A field of another type, with the names that it has. An embedded field that would be named after the other type is
    given its name instead. -/
def retype (d : FieldDecl) (t : TypeExpr) : FieldDecl :=
  if { d with type := t }.fieldNames = d.fieldNames then { d with type := t } else ⟨d.fieldNames, t, d.tag, d.span⟩

@[simp] theorem type_retype (d : FieldDecl) (t : TypeExpr) : (d.retype t).type = t := by
  unfold retype
  split <;> rfl

@[simp] theorem retype_type (d : FieldDecl) : d.retype d.type = d := by
  cases d
  exact if_pos rfl

theorem fieldNames_ne_nil (d : FieldDecl) : d.fieldNames ≠ [] := by
  unfold fieldNames
  by_cases h : d.isEmbedded
  · rw [if_pos h]
    split <;> exact List.cons_ne_nil _ _
  · rw [if_neg h]
    exact fun hnil => h (List.isEmpty_iff.2 hnil)

@[simp] theorem fieldNames_retype (d : FieldDecl) (t : TypeExpr) : (d.retype t).fieldNames = d.fieldNames := by
  unfold retype
  split
  · next h => exact h
  · exact if_neg fun h => fieldNames_ne_nil d (List.isEmpty_iff.1 h)

end FieldDecl

section

variable (σ : String → Option TypeExpr)

mutual

/-- A type with types put for some of its plain names. What is put in is left as it is, and arguments of a name that is
    replaced go with it. -/
def TypeExpr.subst : TypeExpr → TypeExpr
  | .named none name args span => (σ name).getD (.named none name (substAll args) span)
  | .named (some package) name args span => .named (some package) name (substAll args) span
  | .pointer e span => .pointer e.subst span
  | .slice e span => .slice e.subst span
  | .array length e span => .array length e.subst span
  | .map k v span => .map k.subst v.subst span
  | .chan direction e span => .chan direction e.subst span
  | .func span => .func span
  | .interface span => .interface span
  | .struct st => .struct st.subst

def substAll : List TypeExpr → List TypeExpr
  | [] => []
  | t :: rest => t.subst :: substAll rest

def StructType.subst : StructType → StructType
  | ⟨fields, keyword, span⟩ => ⟨substFields fields, keyword, span⟩

def substFields : List FieldDecl → List FieldDecl
  | [] => []
  | d :: rest => d.subst :: substFields rest

def FieldDecl.subst : FieldDecl → FieldDecl
  | ⟨names, type, tag, span⟩ => FieldDecl.retype ⟨names, type, tag, span⟩ type.subst

end

theorem substAll_eq_map (ts : List TypeExpr) : substAll σ ts = ts.map (·.subst σ) := by
  induction ts with
  | nil => rfl
  | cons t rest ih => rw [substAll, ih, List.map_cons]

theorem FieldDecl.subst_eq_retype (d : FieldDecl) : d.subst σ = d.retype (d.type.subst σ) := by
  cases d
  rw [FieldDecl.subst]

theorem substFields_eq_map (ds : List FieldDecl) : substFields σ ds = ds.map fun d => d.retype (d.type.subst σ) := by
  induction ds with
  | nil => rfl
  | cons d rest ih => rw [substFields, ih, List.map_cons, FieldDecl.subst_eq_retype]

end

mutual

/-- Putting nothing for any name. -/
theorem TypeExpr.subst_none : ∀ t : TypeExpr, t.subst (fun _ => none) = t
  | .named none name args span => by rw [TypeExpr.subst, substAll_none args, Option.getD_none]
  | .named (some package) name args span => by rw [TypeExpr.subst, substAll_none args]
  | .pointer e _ | .slice e _ | .array _ e _ | .chan _ e _ => by rw [TypeExpr.subst, TypeExpr.subst_none e]
  | .map k v _ => by rw [TypeExpr.subst, TypeExpr.subst_none k, TypeExpr.subst_none v]
  | .func _ | .interface _ => by rw [TypeExpr.subst]
  | .struct ⟨fields, _, _⟩ => by rw [TypeExpr.subst, StructType.subst, substFields_none fields]

private theorem substAll_none : ∀ ts : List TypeExpr, substAll (fun _ => none) ts = ts
  | [] => rfl
  | t :: rest => by rw [substAll, TypeExpr.subst_none t, substAll_none rest]

private theorem substFields_none : ∀ ds : List FieldDecl, substFields (fun _ => none) ds = ds
  | [] => rfl
  | ⟨names, type, tag, span⟩ :: rest => by
    rw [substFields, FieldDecl.subst, TypeExpr.subst_none type, substFields_none rest]
    exact congrArg (· :: rest) (FieldDecl.retype_type ⟨names, type, tag, span⟩)

end

/-! ## Types for parameters -/

/-- Types for the parameters of a struct that stand for themselves. -/
def interfacesFor (params : List String) (name : String) : Option TypeExpr :=
  if name ∈ params then some (.interface default) else none

/-- Types for the parameters of a declared type. -/
def typesFor (params : List String) (args : List TypeExpr) (name : String) : Option TypeExpr :=
  (params.zip args).lookup name

/-- A type in which the type parameters around it stand for interfaces. -/
def TypeExpr.closed (t : TypeExpr) (around : List String) : TypeExpr :=
  t.subst (interfacesFor around)

/-- What is declared for a type, with types put for its parameters. -/
def TypeDecl.body (d : TypeDecl) (args : List TypeExpr) : TypeExpr := d.type.subst (typesFor d.params args)

namespace Env

theorem argument?_cons {param name : String} {params : List String} {arg : TypeExpr} {args : List TypeExpr} :
    argument? (param :: params) (arg :: args) name =
      (argument? params args name).or (if name = param then some arg else none) := by
  simp only [argument?, List.zip_cons_cons, List.reverse_cons, List.lookup_append, List.lookup_cons, List.lookup_nil]
  by_cases h : name = param
  · simp [h]
  · simp [h, beq_eq_false_iff_ne.2 h]

/-- Two lists of arguments give a parameter types that stand at the same place, or both give it none. -/
theorem argument?_zip (params : List String) {args args' : List TypeExpr} (hlength : args.length = args'.length)
    (name : String) :
    argument? params args name = none ∧ argument? params args' name = none ∨
      ∃ a ∈ args.zip args', argument? params args name = some a.1 ∧ argument? params args' name = some a.2 := by
  induction params generalizing args args' with
  | nil => exact .inl ⟨rfl, rfl⟩
  | cons param params ih =>
    cases args with
    | nil =>
      obtain rfl := List.length_eq_zero_iff.1 hlength.symm
      exact .inl ⟨rfl, rfl⟩
    | cons arg args =>
      cases args' with
      | nil => cases hlength
      | cons arg' args' =>
        rw [argument?_cons, argument?_cons]
        rcases ih (Nat.succ.inj hlength) with ⟨hleft, hright⟩ | ⟨a, ha, hleft, hright⟩
        · by_cases heq : name = param
          · subst heq
            exact .inr ⟨(arg, arg'), List.mem_cons_self .., by simp [hleft], by simp [hright]⟩
          · exact .inl ⟨by simp [hleft, heq], by simp [hright, heq]⟩
        · exact .inr ⟨a, List.mem_cons_of_mem _ ha, by simp [hleft], by simp [hright]⟩

/-- Of parameters with different names, the first one and the last one of a name are the same. -/
theorem argument?_eq_typesFor {params : List String} {args : List TypeExpr} (hparams : params.Nodup) (name : String) :
    argument? params args name = typesFor params args name := by
  induction params generalizing args with
  | nil => rfl
  | cons param params ih =>
    cases args with
    | nil => rfl
    | cons arg args =>
      obtain ⟨hnew, hparams⟩ := List.nodup_cons.1 hparams
      rw [argument?_cons, ih hparams]
      simp only [typesFor, List.zip_cons_cons, List.lookup_cons]
      by_cases heq : name = param
      · have hnone : (params.zip args).lookup param = none := by
          simp only [List.lookup_eq_none_iff]
          rintro ⟨other, arg'⟩ hmem
          exact bne_iff_ne.2 fun heq' => hnew (heq' ▸ (List.of_mem_zip hmem).1)
        simp [heq, hnone]
      · simp [heq, beq_eq_false_iff_ne.2 heq]

end Env

/-! ## Matching parts -/

namespace Scope

/-- Whether two parts come to the same, once names are looked up. A type with parameters may be entered on the left. -/
inductive Matches (scope : Scope) : Part → Part → Prop
  | reference {env t env' t' s} : t.reference? = some s → t'.reference? = some s → Matches scope ⟨env, t⟩ ⟨env', t'⟩
  | qualified {env env' package name args args' span span'} : env.file = env'.file → args.isEmpty = args'.isEmpty →
      Matches scope ⟨env, .named (some package) name args span⟩ ⟨env', .named (some package) name args' span'⟩
  | array {env env' length e e' span span'} : env.file = env'.file → Matches scope ⟨env, e⟩ ⟨env', e'⟩ →
      Matches scope ⟨env, .array length e span⟩ ⟨env', .array length e' span'⟩
  | struct {env env' fields fields' keyword keyword' span span'} :
      fields.map (·.fieldNames) = fields'.map (·.fieldNames) →
      (∀ d ∈ fields.zip fields', Matches scope ⟨env, d.1.type⟩ ⟨env', d.2.type⟩) →
      Matches scope ⟨env, .struct ⟨fields, keyword, span⟩⟩ ⟨env', .struct ⟨fields', keyword', span'⟩⟩
  /-- A parameter that stands for itself has the shape of an interface. -/
  | self {env env' name args span t'} : env.binding name = .self → t'.reference? = some .interface →
      Matches scope ⟨env, .named none name args span⟩ ⟨env', t'⟩
  | left {env name args span t caller p'} : env.binding name = .argument t caller → Matches scope ⟨caller, t⟩ p' →
      Matches scope ⟨env, .named none name args span⟩ p'
  | right {env' name args span t' caller' p} : env'.binding name = .argument t' caller' →
      Matches scope p ⟨caller', t'⟩ → Matches scope p ⟨env', .named none name args span⟩
  | free {env env' name args args' span span'} : env.binding name = .free → env'.binding name = .free →
      args.length = args'.length → (∀ a ∈ args.zip args', Matches scope ⟨env, a.1⟩ ⟨env', a.2⟩) →
      Matches scope ⟨env, .named none name args span⟩ ⟨env', .named none name args' span'⟩
  | entered {env args span p'} {symbol : TypeSymbol} : env.binding symbol.decl.name = .free →
      scope.type? symbol.decl.name = some symbol → symbol.decl.params ≠ [] →
      Matches scope ⟨.instantiated symbol.file symbol.decl.params args env, symbol.decl.type⟩ p' →
      Matches scope ⟨env, .named none symbol.decl.name args span⟩ p'

/-- Whether two environments match up to a substitution: a name that is replaced matches what is put for it, any other
    name is free in both of them, or matches itself. -/
structure MatchesNames (scope : Scope) (σ : String → Option TypeExpr) (env env' : Env) : Prop where
  file : env.file = env'.file
  replaced : ∀ {name t}, σ name = some t → ∀ args span, scope.Matches ⟨env, .named none name args span⟩ ⟨env', t⟩
  kept : ∀ {name}, σ name = none → env.binding name = .free ∧ env'.binding name = .free ∨
    ∀ args args' span, scope.Matches ⟨env, .named none name args span⟩ ⟨env', .named none name args' span⟩

section

variable {scope : Scope} {σ : String → Option TypeExpr} {env env' : Env}

mutual

/-- A type matches itself with types put for its names, where its names match them. -/
theorem matches_subst (hnames : scope.MatchesNames σ env env') :
    ∀ t : TypeExpr, scope.Matches ⟨env, t⟩ ⟨env', t.subst σ⟩
  | .named none name args span => by
    rw [TypeExpr.subst]
    cases hσ : σ name with
    | some t => exact hnames.replaced hσ args span
    | none =>
      rcases hnames.kept hσ with ⟨hfree, hfree'⟩ | hself
      · exact .free hfree hfree' (by simp [substAll_eq_map]) (matches_substAll hnames args)
      · exact hself ..
  | .named (some package) name args span => by
    rw [TypeExpr.subst, substAll_eq_map]
    exact .qualified hnames.file (by simp)
  | .pointer e _ | .slice e _ | .chan _ e _ | .map k v _ | .func _ | .interface _ => by
    rw [TypeExpr.subst]
    exact .reference rfl rfl
  | .array _ e _ => by
    rw [TypeExpr.subst]
    exact .array hnames.file (matches_subst hnames e)
  | .struct ⟨fields, keyword, span⟩ => by
    rw [TypeExpr.subst, StructType.subst]
    refine .struct ?_ (matches_substFields hnames fields)
    simp [substFields_eq_map, Function.comp_def]

private theorem matches_substAll (hnames : scope.MatchesNames σ env env') : ∀ ts : List TypeExpr,
    ∀ a ∈ ts.zip (substAll σ ts), scope.Matches ⟨env, a.1⟩ ⟨env', a.2⟩
  | [] => nofun
  | t :: rest => by
    intro a ha
    rcases List.mem_cons.1 ha with rfl | ha
    · exact matches_subst hnames t
    · exact matches_substAll hnames rest a ha

private theorem matches_substFields (hnames : scope.MatchesNames σ env env') : ∀ ds : List FieldDecl,
    ∀ d ∈ ds.zip (substFields σ ds), scope.Matches ⟨env, d.1.type⟩ ⟨env', d.2.type⟩
  | [] => nofun
  | ⟨names, type, tag, span⟩ :: rest => by
    intro d hd
    rcases List.mem_cons.1 hd with rfl | hd
    · simp only [FieldDecl.subst, FieldDecl.type_retype]
      exact matches_subst hnames type
    · exact matches_substFields hnames rest d hd

end

/-! ### Declarations -/

/-- The declaration of a type matches itself where its parameters stand for matching arguments. -/
theorem matches_instantiated {file : Nat} {params : List String} {args args' : List TypeExpr}
    (hlength : args.length = args'.length)
    (hargs : ∀ a ∈ args.zip args', scope.Matches ⟨env, a.1⟩ ⟨env', a.2⟩) (t : TypeExpr) :
    scope.Matches ⟨.instantiated file params args env, t⟩ ⟨.instantiated file params args' env', t⟩ := by
  have hnames : scope.MatchesNames (fun _ => none) (.instantiated file params args env)
      (.instantiated file params args' env') := by
    refine ⟨rfl, nofun, fun {name} _ => ?_⟩
    rcases Env.argument?_zip params hlength name with hnone | ⟨a, ha, hleft, hright⟩
    · exact .inl (by simpa using hnone)
    · exact .inr fun _ _ _ => .left (by simpa using hleft) (.right (by simpa using hright) (hargs a ha))
  have hself := matches_subst hnames t
  rwa [TypeExpr.subst_none] at hself

theorem matchesNames_interfacesFor {file : Nat} {params : List String} :
    scope.MatchesNames (interfacesFor params) (.site file params false) (.site file [] false) := by
  refine ⟨rfl, ?_, ?_⟩
  · intro name t ht args span
    simp only [interfacesFor] at ht
    split at ht
    · next hmem =>
      cases ht
      exact .self (by simpa using hmem) rfl
    · cases ht
  · intro name hnone
    simp only [interfacesFor, ite_eq_right_iff] at hnone
    exact .inl ⟨by simpa using hnone, by simp⟩

/-- The declaration of a type, entered with arguments, matches it with the arguments put for its parameters. -/
theorem matchesNames_typesFor {file : Nat} {params : List String} {args args' : List TypeExpr}
    (hparams : params.Nodup) (hlength : args.length = args'.length)
    (hargs : ∀ a ∈ args.zip args', scope.Matches ⟨env, a.1⟩ ⟨.site file [] false, a.2⟩) :
    scope.MatchesNames (typesFor params args') (.instantiated file params args env) (.site file [] false) := by
  refine ⟨rfl, ?_, ?_⟩
  · intro name t ht args'' span
    rw [← Env.argument?_eq_typesFor hparams] at ht
    rcases Env.argument?_zip params hlength name with ⟨-, hnone⟩ | ⟨a, ha, hleft, hright⟩
    · cases hnone.symm.trans ht
    · obtain rfl := Option.some.inj (hright.symm.trans ht)
      exact .left (by simpa using hleft) (hargs a ha)
  · intro name hname
    rw [← Env.argument?_eq_typesFor hparams] at hname
    rcases Env.argument?_zip params hlength name with ⟨hnone, -⟩ | ⟨a, ha, -, hright⟩
    · exact .inl ⟨by simpa using hnone, by simp⟩
    · cases hname.symm.trans hright

/-- A type matches itself with the parameters around it closed off. -/
theorem matches_closed {file : Nat} (around : List String) (t : TypeExpr) :
    scope.Matches ⟨.site file around false, t⟩ ⟨.site file [] false, t.closed around⟩ :=
  matches_subst matchesNames_interfacesFor t

/-- A type with arguments matches its declaration with the arguments put for its parameters. -/
theorem matches_body {symbol : TypeSymbol} {around : List String} (args : List TypeExpr) (span : Span)
    (htype : scope.type? symbol.decl.name = some symbol) (hgeneric : symbol.decl.params ≠ [])
    (hdistinct : symbol.decl.params.Nodup) (hfree : symbol.decl.name ∉ around) :
    scope.Matches ⟨.site symbol.file around false, .named none symbol.decl.name args span⟩
      ⟨.site symbol.file [] false, symbol.decl.body (args.map (·.closed around))⟩ := by
  refine .entered (by simpa using hfree) htype hgeneric ?_
  refine matches_subst (matchesNames_typesFor hdistinct (List.length_map _).symm fun a ha => ?_) symbol.decl.type
  rw [← List.map_id args, List.map_map, List.zip_map'] at ha
  obtain ⟨arg, -, rfl⟩ := List.mem_map.1 ha
  exact matches_closed around arg

end

end Scope

end StructPadding
