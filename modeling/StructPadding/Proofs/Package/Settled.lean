-- SUMMARY: Resolution settles a type to the shape it unfolds to, or fails for a reason that the type gives.
import StructPadding.Proofs.Outcome
import StructPadding.Proofs.Package.Declared
import StructPadding.Proofs.Package.Recursion

/-!
# Settled types

A resolver that remembers only what is true stays so, whether resolution succeeds or fails. The shape it finds is the
one that the type unfolds to. Where it finds none there is none, or a declared type has been met within itself. What
is within what is known of the types in progress: each of them leads to the type that is looked at.
-/

namespace StructPadding

namespace Resolver

/-! ## What a resolver remembers -/

/-- Whether something is remembered under a name. -/
def Knows (r : Resolver) (name : String) : Prop := (r.known.lookup name).isSome

/-- Whether a resolver remembers all that another one does, and is resolving the same types. -/
structure Extends (r t : Resolver) : Prop where
  known : ∀ {name s}, r.known.lookup name = some s → t.known.lookup name = some s
  resolving : t.resolving = r.resolving

/-- Whether something is remembered under the names that another resolver knows, under the given ones, and under no
    others. -/
def Learns (r t : Resolver) (names : String → Prop) : Prop := ∀ name, t.Knows name ↔ r.Knows name ∨ names name

section

variable (scope : Scope) (m : Machine)

/-- Whether a name is that of a declared type without parameters that a part uses. -/
def Needs (p : Part) (name : String) : Prop :=
  ∃ symbol, scope.type? name = some symbol ∧ symbol.decl.params = [] ∧ scope.Uses p symbol

/-- Whether a shape is rightly remembered under a name: the name is declared, unfolds to that shape, and all that it
    needs is remembered as well. -/
def Remembers (r : Resolver) (name : String) (s : Shape) : Prop :=
  ∃ symbol, scope.type? name = some symbol ∧ symbol.decl.params = [] ∧ scope.Settles m symbol.part s ∧
    ∀ name, Needs scope symbol.part name → r.Knows name

/-- Whether all that a resolver remembers is right. -/
def Sound (r : Resolver) : Prop := ∀ {name s}, r.known.lookup name = some s → r.Remembers scope m name s

/-- Whether a part is a plain name of a declared type. -/
def IsUse (p : Part) : Prop :=
  ∃ name args span symbol, p.type = .named none name args span ∧ p.env.binding name = .free ∧
    scope.type? name = some symbol

end

section

variable {scope : Scope} {m : Machine} {r t u : Resolver} {p q : Part} {name : String} {P Q : String → Prop}

theorem sound_fresh : fresh.Sound scope m := nofun

theorem Extends.refl : r.Extends r := ⟨id, rfl⟩

theorem Extends.trans (h : r.Extends t) (h' : t.Extends u) : r.Extends u :=
  ⟨fun hname => h'.known (h.known hname), h'.resolving.trans h.resolving⟩

theorem Extends.within (h : Extends { r with resolving := name :: r.resolving } t) :
    r.Extends { t with resolving := t.resolving.tail } :=
  ⟨h.known, congrArg List.tail h.resolving⟩

theorem Extends.knows (h : r.Extends t) (hname : r.Knows name) : t.Knows name := by
  obtain ⟨s, hs⟩ := Option.isSome_iff_exists.1 hname
  exact Option.isSome_iff_exists.2 ⟨s, h.known hs⟩

theorem Learns.of_knows (h : ∀ name, P name → r.Knows name) : r.Learns r P :=
  fun name => (or_iff_left_of_imp (h name)).symm

theorem Learns.trans (h : r.Learns t P) (h' : t.Learns u Q) : r.Learns u fun name => P name ∨ Q name :=
  fun name => (h' name).trans ((or_congr_left (h name)).trans or_assoc)

theorem Learns.congr (h : r.Learns t P) (heq : ∀ name, Q name ↔ P name) : r.Learns t Q :=
  fun name => (h name).trans (or_congr_right (heq name).symm)

theorem Needs.of_holds (h : Needs scope q name) (hq : scope.Holds p q) : Needs scope p name := by
  obtain ⟨symbol, htype, hparams, huse⟩ := h
  exact ⟨symbol, htype, hparams, huse.of_meets (.single hq)⟩

/-- What is no use of a declared type itself needs what the parts need that it holds. -/
theorem needs_iff_holds (h : ¬ IsUse scope p) : Needs scope p name ↔ ∃ q, scope.Holds p q ∧ Needs scope q name := by
  constructor
  · rintro ⟨symbol, htype, hparams, env, name', args, span, hmeets, hfree, htype', hlength⟩
    rcases Relation.ReflTransGen.cases_head hmeets with rfl | ⟨q, hq, hmeets⟩
    · exact absurd ⟨name', args, span, symbol, rfl, hfree, htype'⟩ h
    · exact ⟨q, hq, symbol, htype, hparams, env, name', args, span, hmeets, hfree, htype', hlength⟩
  · rintro ⟨q, hq, hneeds⟩
    exact hneeds.of_holds hq

/-- A use of a declared type needs what its declaration needs, and the type itself where it has no parameters. -/
theorem needs_declared_iff {files : List SourceFile} (hscope : scope.DeclaredIn files) {symbol : TypeSymbol} {env : Env}
    {args : List TypeExpr} {span : Span} (htype : scope.type? symbol.decl.name = some symbol)
    (hfree : env.binding symbol.decl.name = .free) (hlength : args.length = symbol.decl.params.length) :
    Needs scope ⟨env, .named none symbol.decl.name args span⟩ name ↔
      Needs scope ⟨env.enter symbol args, symbol.decl.type⟩ name ∨
        symbol.decl.params = [] ∧ name = symbol.decl.name := by
  constructor
  · rintro ⟨symbol', hname, hparams, env', name', args', span', hmeets, hfree', htype', hlength'⟩
    rcases Relation.ReflTransGen.cases_head hmeets with heq | ⟨q, hq, hmeets⟩
    · cases heq
      obtain rfl := Option.some.inj (htype.symm.trans htype')
      exact .inr ⟨hparams, (hscope.of_type? hname).1.symm⟩
    · obtain ⟨-, rfl⟩ := (Scope.holds_declared_iff hfree htype).1 hq
      exact .inl ⟨symbol', hname, hparams, env', name', args', span', hmeets, hfree', htype', hlength'⟩
  · rintro (hneeds | ⟨hparams, rfl⟩)
    · exact hneeds.of_holds (.declared hfree htype hlength)
    · exact ⟨symbol, htype, hparams, env, _, args, span, .refl, hfree, htype, hlength⟩

/-- A type that is remembered has no parameters, and is entered the same way from everywhere. -/
theorem Sound.use {files : List SourceFile} (h : r.Sound scope m) (hscope : scope.DeclaredIn files)
    {symbol : TypeSymbol} {env : Env} {args : List TypeExpr} {span : Span}
    (htype : scope.type? symbol.decl.name = some symbol) (hfree : env.binding symbol.decl.name = .free)
    (hlength : args.length = symbol.decl.params.length) {s : Shape} (hs : r.known.lookup symbol.decl.name = some s) :
    scope.Settles m ⟨env, .named none symbol.decl.name args span⟩ s ∧
      ∀ name, Needs scope ⟨env, .named none symbol.decl.name args span⟩ name → r.Knows name := by
  obtain ⟨symbol', htype', hparams, hsettles, hneeds⟩ := h hs
  obtain rfl := Option.some.inj (htype.symm.trans htype')
  constructor
  · refine (Scope.settles_declared_iff hfree htype).2 ⟨hlength, ?_⟩
    rwa [Env.enter_eq_site hparams]
  · intro name hname
    rcases (needs_declared_iff hscope htype hfree hlength).1 hname with hname | ⟨-, rfl⟩
    · rw [Env.enter_eq_site hparams] at hname
      exact hneeds name hname
    · exact Option.isSome_iff_exists.2 ⟨s, hs⟩

/-- Remembering a type that is settled, and whose needs are remembered. -/
theorem Sound.remember (h : r.Sound scope m) {s : Shape} (hs : r.Remembers scope m name s) :
    Sound scope m { r with known := r.known ++ [(name, s)] } ∧
      r.Extends { r with known := r.known ++ [(name, s)] } ∧
      r.Learns { r with known := r.known ++ [(name, s)] } (· = name) := by
  have hextends : r.Extends { r with known := r.known ++ [(name, s)] } := by
    refine ⟨fun hname => ?_, rfl⟩
    simp [List.lookup_append, hname]
  refine ⟨?_, hextends, ?_⟩
  · intro name' s' hname'
    have hremembered : r.Remembers scope m name' s' := by
      rw [List.lookup_append] at hname'
      cases hold : r.known.lookup name' with
      | some s'' =>
        rw [hold] at hname'
        obtain rfl := Option.some.inj hname'
        exact h hold
      | none =>
        rw [hold, Option.none_or] at hname'
        obtain ⟨before, after, hsplit, -⟩ := List.lookup_eq_some_iff.1 hname'
        have hmem : (name', s') ∈ [(name, s)] := by simp [hsplit]
        cases List.mem_singleton.1 hmem
        exact hs
    obtain ⟨symbol, htype, hparams, hsettles, hneeds⟩ := hremembered
    exact ⟨symbol, htype, hparams, hsettles, fun name hname => hextends.knows (hneeds name hname)⟩
  · intro name'
    by_cases heq : name' = name
    · simp [Knows, List.lookup_append, heq]
    · simp [Knows, List.lookup_append, heq, List.lookup_cons, beq_eq_false_iff_ne.2 heq]

end

/-! ## Failures -/

section

variable (scope : Scope) (m : Machine) (excused : String → Prop)

/-- Whether a failure says that a declared type contains itself. The type is used by the part, and is recursive or
    holds a parameter of its own, unless its name is excused. -/
def Alarm (p : Part) (e : Unresolved) : Prop :=
  ∃ symbol span, e = .invalid ⟨.recursiveType symbol.decl.name, span⟩ ∧
    scope.type? symbol.decl.name = some symbol ∧ scope.Uses p symbol ∧
    (excused symbol.decl.name ∨ scope.Recursive symbol ∨ scope.HoldsParameter symbol)

/-- Whether a part fails with right: it is alarmed about a type, or there is no shape for it on the target. -/
def Fails (p : Part) (e : Unresolved) : Prop :=
  Alarm scope excused p e ∨ e.recursion? = none ∧ ¬ ∃ s, scope.Settles m p s

/-- Whether each type in progress leads to a part, unless its name is excused. -/
def Accounted (stack : List String) (p : Part) : Prop :=
  ∀ name ∈ stack, excused name ∨ ∃ symbol, scope.type? name = some symbol ∧ scope.Leads symbol p

end

section

variable {scope : Scope} {m : Machine} {excused : String → Prop} {stack : List String} {p q : Part} {e : Unresolved}

theorem Fails.of_holds (h : Fails scope m excused q e) (hq : scope.Holds p q) : Fails scope m excused p e := by
  rcases h with ⟨symbol, span, hcause, htype, huse, hwhy⟩ | ⟨hcalm, hstuck⟩
  · exact .inl ⟨symbol, span, hcause, htype, huse.of_meets (.single hq), hwhy⟩
  · refine .inr ⟨hcalm, ?_⟩
    rintro ⟨s, hs⟩
    exact hstuck (hs.of_holds hq)

theorem Fails.of_unfolds (hcalm : e.recursion? = none) (h : ¬ ∃ s, scope.Unfolds m p s) :
    Fails scope m excused p e := by
  refine .inr ⟨hcalm, ?_⟩
  rintro ⟨s, hs⟩
  exact h ⟨s, hs.unfolds⟩

/-- A part whose shape does not fit the target fails with right. -/
theorem Fails.of_checkedSize {s : Shape} (hcalm : e.recursion? = none) (hs : scope.Unfolds m p s)
    (hsettles : scope.Settles m p s ↔ (s.checkedSize m).isSome) (hnone : (s.checkedSize m).isNone) :
    Fails scope m excused p e := by
  refine .inr ⟨hcalm, ?_⟩
  rintro ⟨t, ht⟩
  obtain rfl := ht.unfolds.unique hs
  have hsome := hsettles.1 ht
  simp [Option.isNone_iff_eq_none.1 hnone] at hsome

theorem Accounted.of_holds (h : Accounted scope excused stack p) (hq : scope.Holds p q) :
    Accounted scope excused stack q := by
  intro name hname
  rcases h name hname with hexcused | ⟨symbol, htype, hleads⟩
  · exact .inl hexcused
  · exact .inr ⟨symbol, htype, hleads.of_holds hq⟩

/-- A type in progress that is used again is recursive or holds a parameter, unless its name is excused. -/
theorem Accounted.recursive {env : Env} {symbol : TypeSymbol} {args : List TypeExpr} {span : Span}
    (h : Accounted scope excused stack ⟨env, .named none symbol.decl.name args span⟩) (hmem : symbol.decl.name ∈ stack)
    (hfree : env.binding symbol.decl.name = .free) (htype : scope.type? symbol.decl.name = some symbol)
    (hlength : args.length = symbol.decl.params.length) :
    excused symbol.decl.name ∨ scope.Recursive symbol ∨ scope.HoldsParameter symbol := by
  rcases h _ hmem with hexcused | ⟨symbol', htype', hleads⟩
  · exact .inl hexcused
  · obtain rfl := Option.some.inj (htype.symm.trans htype')
    exact .inr (hleads.recursive hfree htype hlength)

end

/-! ## Faithful resolution -/

section

variable (scope : Scope) (m : Machine) (excused : String → Prop) (stack : List String)

/-- Whether a resolution that starts from a sound resolver, with the given types in progress, leaves a sound one that
    knows no less, and settles a part or fails with right. -/
def Faithful (p : Part) (x : Resolve Shape) : Prop :=
  ∀ r, r.Sound scope m → r.resolving = stack →
    Ends x r (fun s t => t.Sound scope m ∧ r.Extends t ∧ scope.Settles m p s ∧ r.Learns t (Needs scope p))
      (fun e t => t.Sound scope m ∧ r.Extends t ∧ Fails scope m excused p e)

/-- The same for the fields of a struct, which are settled one after the other. -/
def FaithfulFields (env : Env) (decls : List FieldDecl) (x : Resolve (List Field)) : Prop :=
  ∀ r, r.Sound scope m → r.resolving = stack →
    Ends x r
      (fun fields t => t.Sound scope m ∧ r.Extends t ∧
        (∃ shape, (∀ d ∈ decls, scope.Settles m ⟨env, d.type⟩ (shape d)) ∧ fields = fieldsOf shape decls) ∧
        r.Learns t fun name => ∃ d ∈ decls, Needs scope ⟨env, d.type⟩ name)
      (fun e t => t.Sound scope m ∧ r.Extends t ∧ ∃ d ∈ decls, Fails scope m excused ⟨env, d.type⟩ e)

/-- Whether plain names are resolved faithfully in an environment. -/
def FaithfulNames (env : Env) (names : Names) : Prop :=
  ∀ name args span, Accounted scope excused stack ⟨env.essence, .named none name args span⟩ →
    Faithful scope m excused stack ⟨env.essence, .named none name args span⟩ (names name args span)

end

section

variable {scope : Scope} {m : Machine} {excused : String → Prop} {stack : List String}

/-- A resolution that leaves the resolver as it is, of a part that holds nothing. -/
theorem Faithful.leaf {p : Part} {x : Resolve Shape} (hleaf : ∀ q, ¬ scope.Holds p q) (hsimple : ¬ p.type.IsComposite)
    (huse : ¬ IsUse scope p)
    (hx : ∀ r, Ends x r (fun s t => t = r ∧ scope.Unfolds m p s)
      (fun e t => t = r ∧ e.recursion? = none ∧ ¬ ∃ s, scope.Unfolds m p s)) :
    Faithful scope m excused stack p x := by
  intro r hr _
  refine (hx r).mono ?_ ?_
  · rintro s _ ⟨rfl, hs⟩
    refine ⟨hr, .refl, ⟨hs, ?_⟩, ?_⟩
    · exact Scope.sized_of_holds (fun h => absurd h hsimple) fun q hq => absurd hq (hleaf q)
    · refine .of_knows fun name hneeds => ?_
      obtain ⟨q, hq, -⟩ := (needs_iff_holds huse).1 hneeds
      exact absurd hq (hleaf q)
  · rintro e _ ⟨rfl, hcalm, hnone⟩
    exact ⟨hr, .refl, .of_unfolds hcalm hnone⟩

/-- A part that only holds one other part, which it is settled with. -/
theorem Faithful.step {p q : Part} {x : Resolve Shape} (hx : Faithful scope m excused stack q x)
    (hholds : ∀ q', scope.Holds p q' ↔ q' = q) (hsimple : ¬ p.type.IsComposite)
    (hunfolds : ∀ s, scope.Unfolds m q s → scope.Unfolds m p s) (huse : ¬ IsUse scope p) :
    Faithful scope m excused stack p x := by
  intro r hr hstack
  refine (hx r hr hstack).mono ?_ ?_
  · rintro s t ⟨ht, hextends, hs, hlearns⟩
    refine ⟨ht, hextends, ⟨hunfolds s hs.unfolds, ?_⟩, hlearns.congr fun name => ?_⟩
    · refine Scope.sized_of_holds (fun h => absurd h hsimple) fun q' hq' => ?_
      obtain rfl := (hholds q').1 hq'
      exact hs.sized
    · simp [needs_iff_holds huse, hholds]
  · rintro e t ⟨ht, hextends, hfails⟩
    exact ⟨ht, hextends, hfails.of_holds ((hholds q).2 rfl)⟩

theorem faithful_reference {env : Env} {t : TypeExpr} {s : Scalar} (h : t.reference? = some s) :
    Faithful scope m excused stack ⟨env, t⟩ (pure s) := by
  refine .leaf ?_ ?_ ?_ fun r => .pure ⟨rfl, .reference h⟩
  · intro q hq
    cases hq <;> cases h
  · cases t with
    | pointer | slice | map | chan | func | interface => exact id
    | named | array | struct => cases h
  · rintro ⟨name, args, span, symbol, rfl, -⟩
    cases h

theorem faithful_qualified {env : Env} {package name : String} {args : List TypeExpr} {span : Span} :
    Faithful scope m excused stack ⟨env.essence, .named (some package) name args span⟩
      (qualified scope m env package name args span) := by
  refine .leaf nofun nofun nofun fun r => ?_
  have hinv : ∀ {s}, scope.Unfolds m ⟨env.essence, .named (some package) name args span⟩ s →
      args = [] ∧ ∃ path, scope.importPath? env.file package = some path ∧ Library.type? m path name = some s := by
    intro s hs
    cases hs with
    | reference href => cases href
    | library hpath htype => exact ⟨rfl, _, by simpa using hpath, htype⟩
  unfold qualified
  split
  · next hpath =>
    have hnone : ¬ ∃ s, scope.Unfolds m ⟨env.essence, .named (some package) name args span⟩ s := by
      rintro ⟨s, hs⟩
      obtain ⟨-, path, hpath', -⟩ := hinv hs
      cases hpath.symm.trans hpath'
    unfold undefined
    split <;> exact .throw ⟨rfl, rfl, hnone⟩
  · next path hpath =>
    split
    · next shape hshape =>
      split at hshape
      · next hargs =>
        obtain rfl := List.isEmpty_iff.1 hargs
        exact .pure ⟨rfl, .library (by simpa using hpath) hshape⟩
      · cases hshape
    · next hshape =>
      refine .throw ⟨rfl, rfl, ?_⟩
      rintro ⟨s, hs⟩
      obtain ⟨rfl, path', hpath', htype⟩ := hinv hs
      cases hpath.symm.trans hpath'
      cases hshape.symm.trans htype

theorem ends_arrayLength {file : Nat} {length : Expr} (r : Resolver) :
    Ends (arrayLength scope file length) r
      (fun n t => t = r ∧ ∃ v, scope.value length file none = .ok v ∧ 0 ≤ v ∧ v ≤ Word.limit ∧ n = v.toNat)
      (fun e t => t = r ∧ e.recursion? = none ∧
        ¬ ∃ v, scope.value length file none = .ok v ∧ 0 ≤ v ∧ v ≤ Word.limit) := by
  unfold arrayLength
  split
  · next e he =>
    refine .throw ⟨rfl, scope.calm_value e he, ?_⟩
    rintro ⟨v, hv, -⟩
    cases he.symm.trans hv
  · next v hv =>
    split
    · next hrange => exact .pure ⟨rfl, v, hv, hrange.1, hrange.2, rfl⟩
    · next hrange =>
      refine .throw ⟨rfl, rfl, ?_⟩
      rintro ⟨v', hv', hrange'⟩
      cases hv.symm.trans hv'
      exact hrange hrange'

mutual

/-- A type is resolved faithfully where the names in it are. -/
theorem faithful_shapeWith {env : Env} {names : Names} (hnames : FaithfulNames scope m excused stack env names) :
    ∀ t : TypeExpr, Accounted scope excused stack ⟨env.essence, t⟩ →
      Faithful scope m excused stack ⟨env.essence, t⟩ (shapeWith scope m env names t)
  | .named none name args span, h => hnames name args span h
  | .named (some _) .., _ => shapeWith_qualified ▸ faithful_qualified
  | .pointer .., _ | .slice .., _ | .map .., _ | .chan .., _ | .func _, _ | .interface _, _ => faithful_reference rfl
  | .array length element span, h => by
    intro r hr hstack
    have hnot : (¬ ∃ v, scope.value length env.file none = .ok v ∧ 0 ≤ v ∧ v ≤ Word.limit) →
        ¬ ∃ s, scope.Unfolds m ⟨env.essence, .array length element span⟩ s := by
      rintro hnone ⟨s, hs⟩
      cases hs with
      | reference href => cases href
      | array hvalue hnonneg hle _ => exact hnone ⟨_, by simpa using hvalue, hnonneg, hle⟩
    have huse : ¬ IsUse scope ⟨env.essence, .array length element span⟩ := by
      rintro ⟨_, _, _, _, ⟨⟩, -⟩
    refine (ends_arrayLength r).bind ?_ ?_
    · rintro n _ ⟨rfl, v, hvalue, hnonneg, hle, rfl⟩
      refine (faithful_shapeWith hnames element (h.of_holds .element) _ hr hstack).bind ?_ ?_
      · rintro s t ⟨ht, hextends, hs, hlearns⟩
        have hunfolds : scope.Unfolds m ⟨env.essence, .array length element span⟩ (.array s v.toNat) :=
          .array (by simpa using hvalue) hnonneg hle hs.unfolds
        have hsettles := hunfolds.settles_iff trivial fun q hq => by
          cases hq
          exact hs.sized
        refine Ends.guarded (fun hnone => ?_) fun hsome => ?_
        · exact .throw ⟨ht, hextends, .of_checkedSize rfl hunfolds hsettles hnone⟩
        · refine .pure ⟨ht, hextends, hsettles.2 (by simpa [Option.isSome_iff_ne_none] using hsome), ?_⟩
          refine hlearns.congr fun name => (needs_iff_holds huse).trans ⟨?_, fun h => ⟨_, .element, h⟩⟩
          rintro ⟨_, ⟨⟩, hneeds⟩
          exact hneeds
      · rintro e t ⟨ht, hextends, hfails⟩
        exact ⟨ht, hextends, hfails.of_holds .element⟩
    · rintro e _ ⟨rfl, hcalm, hnone⟩
      exact ⟨hr, .refl, .of_unfolds hcalm (hnot hnone)⟩
  | .struct st, h => by
    intro r hr hstack
    refine (faithful_structWith hnames st h r hr hstack).bind ?_ ?_
    · rintro fields t hfields
      exact .pure hfields
    · rintro e t hfails
      exact hfails

/-- A struct literal is resolved to the fields it unfolds to. -/
theorem faithful_structWith {env : Env} {names : Names} (hnames : FaithfulNames scope m excused stack env names) :
    ∀ st : StructType, Accounted scope excused stack ⟨env.essence, .struct st⟩ →
      ∀ r, r.Sound scope m → r.resolving = stack →
        Ends (structWith scope m env names st) r
          (fun fields t => t.Sound scope m ∧ r.Extends t ∧
            scope.Settles m ⟨env.essence, .struct st⟩ (.struct fields) ∧
            r.Learns t (Needs scope ⟨env.essence, .struct st⟩))
          (fun e t => t.Sound scope m ∧ r.Extends t ∧ Fails scope m excused ⟨env.essence, .struct st⟩ e)
  | ⟨decls, keyword, span⟩, h => by
    intro r hr hstack
    have huse : ¬ IsUse scope ⟨env.essence, .struct ⟨decls, keyword, span⟩⟩ := by
      rintro ⟨_, _, _, _, ⟨⟩, -⟩
    refine (faithful_fieldsWith hnames decls (fun d hd => h.of_holds (.field hd)) r hr hstack).bind ?_ ?_
    · rintro fields t ⟨ht, hextends, ⟨shape, hshape, rfl⟩, hlearns⟩
      have hunfolds : scope.Unfolds m ⟨env.essence, .struct ⟨decls, keyword, span⟩⟩ (.struct (fieldsOf shape decls)) :=
        .struct shape fun d hd => (hshape d hd).unfolds
      have hsettles := hunfolds.settles_iff trivial fun q hq => by
        cases hq with
        | field hd => exact (hshape _ hd).sized
      refine Ends.guarded (fun hnone => ?_) fun hsome => ?_
      · exact .throw ⟨ht, hextends, .of_checkedSize rfl hunfolds hsettles hnone⟩
      · refine .pure ⟨ht, hextends, hsettles.2 ?_, ?_⟩
        · simpa [Option.isSome_iff_ne_none, checkedActualSize] using hsome
        · refine hlearns.congr fun name => (needs_iff_holds huse).trans ⟨?_, ?_⟩
          · rintro ⟨_, ⟨⟩, hneeds⟩
            exact ⟨_, ‹_›, hneeds⟩
          · rintro ⟨d, hd, hneeds⟩
            exact ⟨_, .field hd, hneeds⟩
    · rintro e t ⟨ht, hextends, d, hd, hfails⟩
      exact ⟨ht, hextends, hfails.of_holds (.field hd)⟩

private theorem faithful_fieldsWith {env : Env} {names : Names}
    (hnames : FaithfulNames scope m excused stack env names) :
    ∀ decls : List FieldDecl, (∀ d ∈ decls, Accounted scope excused stack ⟨env.essence, d.type⟩) →
      FaithfulFields scope m excused stack env.essence decls (fieldsWith scope m env names decls)
  | [], _ => by
    intro r hr _
    exact .pure ⟨hr, .refl, ⟨fun _ => default, nofun, rfl⟩, .of_knows fun name hneeds => by simp at hneeds⟩
  | d :: rest, h => by
    intro r hr hstack
    refine (faithful_typeOfField hnames d (h d (List.mem_cons_self ..)) r hr hstack).bind ?_ ?_
    · rintro s t ⟨ht, hextends, hs, hlearns⟩
      have hrest := faithful_fieldsWith hnames rest (fun e he => h e (List.mem_cons_of_mem _ he)) t ht
        (hextends.resolving.trans hstack)
      refine hrest.bind ?_ ?_
      · rintro fields u ⟨hu, hextends', ⟨shape, hshape, rfl⟩, hlearns'⟩
        refine .pure ⟨hu, hextends.trans hextends', ?_, (hlearns.trans hlearns').congr fun name => by simp⟩
        · have hall : ∀ e ∈ d :: rest, ∃ s, scope.Settles m ⟨env.essence, e.type⟩ s := by
            intro e he
            rcases List.mem_cons.1 he with rfl | he
            · exact ⟨s, hs⟩
            · exact ⟨shape e, hshape e he⟩
          choose! shapes hshapes using hall
          refine ⟨shapes, hshapes, ?_⟩
          have hhead := (hshapes d (List.mem_cons_self ..)).unique hs
          have htail := fieldsOf_congr fun e he =>
            (hshapes e (List.mem_cons_of_mem _ he)).unique (hshape e he)
          rw [fieldsOf_cons, hhead, htail]
      · rintro e u ⟨hu, hextends', d', hd', hfails⟩
        exact ⟨hu, hextends.trans hextends', d', List.mem_cons_of_mem _ hd', hfails⟩
    · rintro e t ⟨ht, hextends, hfails⟩
      exact ⟨ht, hextends, d, List.mem_cons_self .., hfails⟩

private theorem faithful_typeOfField {env : Env} {names : Names}
    (hnames : FaithfulNames scope m excused stack env names) :
    ∀ d : FieldDecl, Accounted scope excused stack ⟨env.essence, d.type⟩ →
      Faithful scope m excused stack ⟨env.essence, d.type⟩ (typeOfField scope m env names d)
  | ⟨_, type, _, _⟩, h => faithful_shapeWith hnames type h

end

/-! ## Names -/

/-- Whether uses of declared types are resolved faithfully. -/
def FaithfulDeclared (scope : Scope) (m : Machine) (excused : String → Prop) (stack : List String)
    (declared : Declared) : Prop :=
  ∀ (symbol : TypeSymbol) args env span, scope.type? symbol.decl.name = some symbol →
    env.binding symbol.decl.name = .free →
    Accounted scope excused stack ⟨env.essence, .named none symbol.decl.name args span⟩ →
    Faithful scope m excused stack ⟨env.essence, .named none symbol.decl.name args span⟩
      (declared symbol args env span)

section

variable {files : List SourceFile} (hscope : scope.DeclaredIn files) {declared : Declared}
  (hdeclared : FaithfulDeclared scope m excused stack declared)
include hscope hdeclared

theorem faithful_global {env : Env} {name : String} {args : List TypeExpr} {span : Span}
    (hfree : env.binding name = .free)
    (h : Accounted scope excused stack ⟨env.essence, .named none name args span⟩) :
    Faithful scope m excused stack ⟨env.essence, .named none name args span⟩
      (global scope m declared env name args span) := by
  unfold global
  split
  · next symbol htype =>
    obtain ⟨rfl, -⟩ := hscope.of_type? htype
    exact hdeclared symbol args env span htype hfree h
  · next hnone =>
    have hfree' : env.essence.binding name = .free := by simp [hfree, Env.Binding.essence]
    have hinv : ∀ {s}, scope.Unfolds m ⟨env.essence, .named none name args span⟩ s →
        args = [] ∧ Library.predeclared? m name = some s := by
      intro s hs
      cases hs with
      | reference href => cases href
      | predeclared _ _ hshape => exact ⟨rfl, hshape⟩
      | declared _ htype => cases hnone.symm.trans htype
      | parameter hbinding | argument hbinding => cases hfree'.symm.trans hbinding
    refine .leaf ?_ id ?_ fun r => ?_
    · intro q hq
      cases hq with
      | argument hbinding => cases hfree'.symm.trans hbinding
      | declared _ htype => cases hnone.symm.trans htype
    · rintro ⟨name', args', span', symbol, heq, -, htype⟩
      cases heq
      cases hnone.symm.trans htype
    · split
      · next hpredeclared =>
        have hstuck : ¬ ∃ s, scope.Unfolds m ⟨env.essence, .named none name args span⟩ s := by
          rintro ⟨s, hs⟩
          cases hpredeclared.symm.trans (hinv hs).2
        unfold undefined
        split <;> exact .throw ⟨rfl, rfl, hstuck⟩
      · next shape hshape =>
        split
        · next hargs =>
          obtain rfl := List.isEmpty_iff.1 hargs
          exact .pure ⟨rfl, .predeclared hfree' hnone hshape⟩
        · next hargs =>
          refine .throw ⟨rfl, rfl, ?_⟩
          rintro ⟨s, hs⟩
          exact hargs (List.isEmpty_iff.2 (hinv hs).1)

/-- The names of an environment are resolved faithfully: arguments in the environment around it, all others as names
    of the package. -/
theorem faithful_namesIn (env : Env) : FaithfulNames scope m excused stack env (namesIn scope m declared env) := by
  induction env with
  | site file params isLocal =>
    intro name args span h
    simp only [namesIn]
    split
    · next hmem =>
      have hself : (Env.site file params isLocal).essence.binding name = .self := by simpa [Env.essence] using hmem
      refine .leaf ?_ id ?_ fun r => .pure ⟨rfl, .parameter hself⟩
      · intro q hq
        cases hq with
        | argument hbinding | declared hbinding => cases hself.symm.trans hbinding
      · rintro ⟨name', args', span', symbol, heq, hfree, -⟩
        cases heq
        cases hself.symm.trans hfree
    · next hmem => exact faithful_global hscope hdeclared (by simpa using hmem) h
  | instantiated file params types caller ih =>
    intro name args span h
    simp only [namesIn]
    split
    · next t ht =>
      have hargument : (Env.instantiated file params types caller).essence.binding name =
          .argument t caller.essence := by
        rw [Env.binding_essence]
        simp [Env.binding, ht, Env.Binding.essence]
      refine (faithful_shapeWith ih t (h.of_holds (.argument hargument))).step ?_ id ?_ ?_
      · intro q
        constructor
        · intro hq
          cases hq with
          | argument hbinding =>
            cases hargument.symm.trans hbinding
            rfl
          | declared hbinding => cases hargument.symm.trans hbinding
        · rintro rfl
          exact .argument hargument
      · exact fun s hs => .argument hargument hs
      · rintro ⟨name', args', span', symbol, heq, hfree, -⟩
        cases heq
        cases hargument.symm.trans hfree
    · next hnone => exact faithful_global hscope hdeclared (by simpa using hnone) h

end

/-- Arguments are fine if there is one for each parameter. -/
theorem checkArguments_cases (d : TypeDecl) (args : List TypeExpr) (span : Span) :
    args.length = d.params.length ∧ checkArguments d args span = pure ⟨⟩ ∨
      args.length ≠ d.params.length ∧ ∃ e, e.recursion? = none ∧ checkArguments d args span = throw e := by
  unfold checkArguments
  by_cases hlength : args.length = d.params.length
  · have hempty : args.isEmpty = d.params.isEmpty := by
      rw [Bool.eq_iff_iff, List.isEmpty_iff_length_eq_zero, List.isEmpty_iff_length_eq_zero, hlength]
    rw [if_neg (by simp [hempty]), if_neg (by simp [hempty]), if_neg (not_not_intro hlength)]
    exact .inl ⟨hlength, rfl⟩
  · refine .inr ⟨hlength, ?_⟩
    by_cases hplain : (d.params.isEmpty && !args.isEmpty) = true
    · rw [if_pos hplain]
      exact ⟨_, rfl, rfl⟩
    · rw [if_neg hplain]
      by_cases hgeneric : (!d.params.isEmpty && args.isEmpty) = true
      · rw [if_pos hgeneric]
        exact ⟨_, rfl, rfl⟩
      · rw [if_neg hgeneric, if_pos hlength]
        exact ⟨_, rfl, rfl⟩

theorem ends_within {α : Type} {name : String} {x : Resolve α} {r : Resolver} {Q : α → Resolver → Prop}
    {E : Unresolved → Resolver → Prop}
    (hx : Ends x { r with resolving := name :: r.resolving }
      (fun a t => Q a { t with resolving := t.resolving.tail })
      (fun e t => E e { t with resolving := t.resolving.tail })) : Ends (within name x) r Q E := by
  simp only [Ends, within] at hx ⊢
  cases hres : x { r with resolving := name :: r.resolving } with
  | ok a t =>
    rw [hres] at hx
    exact hx
  | error e t =>
    rw [hres] at hx
    exact hx

theorem inStep_arrayLength {R : Resolver → Resolver → Prop} {F : Unresolved → Prop} {file : Nat} {length : Expr} :
    InStep R F (arrayLength scope file length) (arrayLength scope file length) := by
  unfold arrayLength
  split
  · exact .throw
  · split
    · exact .pure
    · exact .throw

/-- Two runs with one more type in progress, in both of them. -/
theorem inStep_within {α : Type} {R R' : Resolver → Resolver → Prop} {F : Unresolved → Prop} {name : String}
    {x y : Resolve α} (hx : InStep R' F x y)
    (hin : ∀ l r, R l r → R' { l with resolving := name :: l.resolving } { r with resolving := name :: r.resolving })
    (hout : ∀ l r, R' l r → R { l with resolving := l.resolving.tail } { r with resolving := r.resolving.tail }) :
    InStep R F (Resolver.within name x) (Resolver.within name y) := by
  intro l r h
  have hrun := hx _ _ (hin l r h)
  simp only [Alike, Resolver.within] at hrun ⊢
  cases hl : x { l with resolving := name :: l.resolving } <;> cases hr : y { r with resolving := name :: r.resolving }
  all_goals rw [hl, hr] at hrun
  · exact ⟨hrun.1, hout _ _ hrun.2⟩
  · exact hrun
  · exact hrun
  · exact hrun

/-- A part that is resolved with one more type in progress. -/
theorem Faithful.within {name : String} {p : Part} {x : Resolve Shape}
    (hx : Faithful scope m excused (name :: stack) p x) :
    Faithful scope m excused stack p (Resolver.within name x) := by
  intro r hr hstack
  refine ends_within ((hx { r with resolving := name :: r.resolving } hr (congrArg _ hstack)).mono ?_ ?_)
  · rintro s t ⟨ht, hextends, hs⟩
    exact ⟨ht, hextends.within, hs⟩
  · rintro e t ⟨ht, hextends, hfails⟩
    exact ⟨ht, hextends.within, hfails⟩

/-! ## Declared types -/

/-- How many declared types are not in progress. -/
def idle (scope : Scope) (stack : List String) : Nat := ((scope.types.map Prod.fst).filter (· ∉ stack)).length

theorem idle_le : idle scope stack ≤ scope.types.length :=
  Nat.le_trans (List.length_filter_le ..) (Nat.le_of_eq (List.length_map ..))

theorem idle_cons_lt {name : String} {symbol : TypeSymbol} (htype : scope.type? name = some symbol)
    (hname : name ∉ stack) : idle scope (name :: stack) < idle scope stack := by
  obtain ⟨before, after, hsplit, -⟩ := List.lookup_eq_some_iff.1 htype
  have hmem : name ∈ (scope.types.map Prod.fst).filter (· ∉ stack) := by simp [hsplit, hname]
  have hfilter : (scope.types.map Prod.fst).filter (· ∉ name :: stack) =
      ((scope.types.map Prod.fst).filter (· ∉ stack)).filter (· ≠ name) := by
    rw [List.filter_filter]
    refine List.filter_congr fun n _ => ?_
    simp [not_or]
  unfold idle
  rw [hfilter]
  exact List.length_filter_lt_length_iff_exists.2 ⟨name, hmem, by simp⟩

/-- A use of a declared type, which is entered unless it is remembered or in progress. -/
def visit (symbol : TypeSymbol) (args : List TypeExpr) (span : Span) (enter : Resolve Shape) : Resolve Shape := do
  checkArguments symbol.decl args span
  if let some shape := (← get).known.lookup symbol.decl.name then return shape
  if symbol.decl.name ∈ (← get).resolving then invalid (.recursiveType symbol.decl.name) span
  enter

/-- The declaration of a type, which is remembered if it has no parameters. -/
def enter (scope : Scope) (m : Machine) (declared : Declared) (symbol : TypeSymbol) (args : List TypeExpr) (env : Env) :
    Resolve Shape := do
  let inner := Env.instantiated symbol.file symbol.decl.params args env
  let shape ← within symbol.decl.name (shapeIn scope m declared inner symbol.decl.type)
  if symbol.decl.params.isEmpty then remember symbol.decl.name shape
  return shape

section

variable {symbol : TypeSymbol} {args : List TypeExpr} {env : Env} {span : Span}

theorem declared_zero : declared scope m 0 symbol args env span =
    visit symbol args span (invalid (.recursiveType symbol.decl.name) span) := by
  simp only [declared, inFile_plain]
  rfl

theorem declared_succ {depth : Nat} : declared scope m (depth + 1) symbol args env span =
    visit symbol args span (enter scope m (declared scope m depth) symbol args env) := by
  simp only [declared, inFile_plain]
  rfl

variable {files : List SourceFile} (hscope : scope.DeclaredIn files)
  (htype : scope.type? symbol.decl.name = some symbol) (hfree : env.binding symbol.decl.name = .free)
  (h : Accounted scope excused stack ⟨env.essence, .named none symbol.decl.name args span⟩)
include hscope htype hfree h

/-- A use of a declared type is resolved faithfully, if its declaration is where it is not in progress. -/
theorem faithful_visit {enter : Resolve Shape}
    (henter : symbol.decl.name ∉ stack → args.length = symbol.decl.params.length →
      Faithful scope m excused stack ⟨env.essence, .named none symbol.decl.name args span⟩ enter) :
    Faithful scope m excused stack ⟨env.essence, .named none symbol.decl.name args span⟩
      (visit symbol args span enter) := by
  intro r hr hstack
  have hfree' : env.essence.binding symbol.decl.name = .free := by simp [hfree, Env.Binding.essence]
  unfold visit
  rcases checkArguments_cases symbol.decl args span with ⟨hlength, hcheck⟩ | ⟨hlength, e, hcalm, hcheck⟩
  · rw [hcheck, pure_bind]
    refine .get_bind ?_
    split
    · next shape hknown =>
      obtain ⟨hsettles, hneeds⟩ := hr.use hscope htype hfree' hlength hknown
      exact .pure ⟨hr, .refl, hsettles, .of_knows hneeds⟩
    · refine .get_bind (Ends.guarded (fun hmem => ?_) fun hmem => ?_)
      · refine .throw ⟨hr, .refl, .inl ⟨symbol, span, rfl, htype, ?_, ?_⟩⟩
        · exact ⟨_, _, args, span, .refl, hfree', htype, hlength⟩
        · exact h.recursive (hstack ▸ hmem) hfree' htype hlength
      · exact henter (hstack ▸ hmem) hlength _ hr hstack
  · rw [hcheck]
    refine .throw (e := e) ⟨hr, .refl, .of_unfolds hcalm ?_⟩
    rintro ⟨s, hs⟩
    exact hlength ((Scope.unfolds_declared_iff hfree' htype).1 hs).1

omit hscope in
/-- The declaration of a type is entered with one more type in progress. -/
theorem Accounted.enter (hlength : args.length = symbol.decl.params.length) :
    Accounted scope excused (symbol.decl.name :: stack) ⟨env.essence.enter symbol args, symbol.decl.type⟩ := by
  have hfree' : env.essence.binding symbol.decl.name = .free := by simp [hfree, Env.Binding.essence]
  intro name hmem
  rcases List.mem_cons.1 hmem with rfl | hmem
  · exact .inr ⟨symbol, htype, Scope.leads_enter hlength _⟩
  · exact h.of_holds (.declared hfree' htype hlength) name hmem

variable {declared : Declared} (hdeclared : FaithfulDeclared scope m excused (symbol.decl.name :: stack) declared)
  (hlength : args.length = symbol.decl.params.length)
include hdeclared hlength

/-- The declaration of a type is resolved faithfully, if declared types are with one more of them in progress. -/
theorem faithful_declaration : Faithful scope m excused stack ⟨env.essence.enter symbol args, symbol.decl.type⟩
    (within symbol.decl.name (shapeIn scope m declared (.instantiated symbol.file symbol.decl.params args env)
      symbol.decl.type)) := by
  have hbody := faithful_shapeWith (faithful_namesIn hscope hdeclared
    (.instantiated symbol.file symbol.decl.params args env)) symbol.decl.type
  rw [Env.essence_instantiated] at hbody
  exact (hbody (h.enter htype hfree hlength)).within

theorem faithful_enter : Faithful scope m excused stack ⟨env.essence, .named none symbol.decl.name args span⟩
    (enter scope m declared symbol args env) := by
  have hfree' : env.essence.binding symbol.decl.name = .free := by simp [hfree, Env.Binding.essence]
  intro r hr hstack
  refine (faithful_declaration hscope htype hfree h hdeclared hlength r hr hstack).bind ?_ ?_
  · rintro s t ⟨ht, hextends, hs, hlearns⟩
    have hsettles : scope.Settles m ⟨env.essence, .named none symbol.decl.name args span⟩ s :=
      (Scope.settles_declared_iff hfree' htype).2 ⟨hlength, hs⟩
    split
    · next hparams =>
      have hparams := List.isEmpty_iff.1 hparams
      rw [Env.enter_eq_site hparams] at hs hlearns
      obtain ⟨hsound, hmore, hlearns'⟩ :=
        ht.remember ⟨symbol, htype, hparams, hs, fun name hname => (hlearns name).2 (.inr hname)⟩
      refine .modify_bind (.pure ⟨hsound, hextends.trans hmore, hsettles,
        (hlearns.trans hlearns').congr fun name => ?_⟩)
      rw [needs_declared_iff hscope htype hfree' hlength, Env.enter_eq_site hparams]
      simp [hparams]
    · next hparams =>
      refine .pure ⟨ht, hextends, hsettles, hlearns.congr fun name => ?_⟩
      rw [needs_declared_iff hscope htype hfree' hlength]
      simp [List.isEmpty_iff.not.1 hparams]
  · rintro e t ⟨ht, hextends, hfails⟩
    exact ⟨ht, hextends, hfails.of_holds (.declared hfree' htype hlength)⟩

end

/-- Declared types are resolved faithfully, if the depth leaves room for all that are not in progress. -/
theorem faithful_declared {files : List SourceFile} (hscope : scope.DeclaredIn files) (depth : Nat)
    (hdepth : idle scope stack ≤ depth) : FaithfulDeclared scope m excused stack (declared scope m depth) := by
  induction depth generalizing stack with
  | zero =>
    intro symbol args env span htype hfree h
    rw [declared_zero]
    refine faithful_visit hscope htype hfree h fun hname _ => ?_
    have hlt := idle_cons_lt htype hname
    omega
  | succ depth ih =>
    intro symbol args env span htype hfree h
    rw [declared_succ]
    refine faithful_visit hscope htype hfree h fun hname hlength => ?_
    have hlt := idle_cons_lt htype hname
    exact faithful_enter hscope htype hfree h (ih (by omega)) hlength

end

end Resolver

end StructPadding
