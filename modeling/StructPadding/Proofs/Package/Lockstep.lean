-- SUMMARY: A resolver that remembers more finds the same, unless the other one raises a false alarm.
import StructPadding.Proofs.Package.Calls

/-!
# Runs in lockstep

Two resolvers are asked for the same type, and one of them remembers all that the other one does. They take the same
steps until the second one remembers a type that the first one has to resolve. What is remembered is right, so that
the first one finds the same shape, or takes a type for recursive that is not. It then remembers no more than the other
one, which remembers all that the type needs.
-/

namespace StructPadding

namespace Resolver

/-- Whether a failure calls a declared type recursive that is not. The type holds a parameter of its own, unless its
    name is excused. -/
def FalseAlarm (scope : Scope) (excused : String → Prop) (e : Unresolved) : Prop :=
  ∃ symbol span, e = .invalid ⟨.recursiveType symbol.decl.name, span⟩ ∧
    scope.type? symbol.decl.name = some symbol ∧ ¬ scope.Recursive symbol ∧
    (excused symbol.decl.name ∨ scope.HoldsParameter symbol)

/-- Whether two resolvers are sound with the same types in progress, and the second one remembers what the first one
    does. -/
structure Linked (scope : Scope) (m : Machine) (stack : List String) (l r : Resolver) : Prop where
  left : l.Sound scope m
  right : r.Sound scope m
  knows : ∀ name, l.Knows name → r.Knows name
  resolving : l.resolving = stack ∧ r.resolving = stack

section

variable {scope : Scope} {m : Machine} {stack : List String} {excused : String → Prop} {l r : Resolver} {p : Part}

theorem Linked.within (h : Linked scope m stack l r) (name : String) :
    Linked scope m (name :: stack) { l with resolving := name :: l.resolving }
      { r with resolving := name :: r.resolving } :=
  ⟨h.left, h.right, h.knows, congrArg _ h.resolving.1, congrArg _ h.resolving.2⟩

theorem Linked.of_within {name : String} (h : Linked scope m (name :: stack) l r) :
    Linked scope m stack { l with resolving := l.resolving.tail } { r with resolving := r.resolving.tail } :=
  ⟨h.left, h.right, h.knows, congrArg List.tail h.resolving.1, congrArg List.tail h.resolving.2⟩

/-- Of a type with a finite unfolding, only false alarms arise. -/
theorem Alarm.falseAlarm {e : Unresolved} (h : Alarm scope excused p e) (hp : scope.Finite p) :
    FalseAlarm scope excused e := by
  obtain ⟨symbol, span, hcause, htype, huse, hwhy⟩ := h
  have hnot := hp.not_recursive huse
  exact ⟨symbol, span, hcause, htype, hnot, hwhy.imp_right fun h => h.resolve_left hnot⟩

theorem Fails.falseAlarm {e : Unresolved} (h : Fails scope m excused p e) {s : Shape} (hs : scope.Settles m p s) :
    FalseAlarm scope excused e := by
  rcases h with halarm | ⟨-, hstuck⟩
  · exact halarm.falseAlarm hs.unfolds.finite
  · exact absurd ⟨s, hs⟩ hstuck

end

/-! ## Steps -/

/-- Whether a computation ends alike for all linked resolvers, unless there is a false alarm. -/
def Lockstep (scope : Scope) (m : Machine) (excused : String → Prop) (stack : List String) {α : Type}
    (x : Resolve α) : Prop :=
  InStep (Linked scope m stack) (FalseAlarm scope excused) x x

section

variable {scope : Scope} {m : Machine} {stack : List String} {excused : String → Prop} {α β : Type}

theorem Lockstep.within {name : String} {x : Resolve α} (hx : Lockstep scope m excused (name :: stack) x) :
    Lockstep scope m excused stack (Resolver.within name x) :=
  inStep_within hx (fun _ _ h => h.within name) fun _ _ h => h.of_within

theorem lockstep_qualified {env : Env} {package name : String} {args : List TypeExpr} {span : Span} :
    Lockstep scope m excused stack (qualified scope m env package name args span) := by
  unfold qualified
  split
  · unfold undefined
    split <;> exact .throw
  · split
    · exact .pure
    · exact .throw

/-- Whether plain names are resolved in lockstep in an environment. -/
def LockstepNames (scope : Scope) (m : Machine) (excused : String → Prop) (stack : List String) (env : Env)
    (names : Names) : Prop :=
  ∀ name args span, Accounted scope excused stack ⟨env.essence, .named none name args span⟩ →
    Lockstep scope m excused stack (names name args span)

mutual

/-- A type is resolved in lockstep where the names in it are. -/
theorem lockstep_shapeWith {env : Env} {names : Names} (hnames : LockstepNames scope m excused stack env names) :
    ∀ t : TypeExpr, Accounted scope excused stack ⟨env.essence, t⟩ →
      Lockstep scope m excused stack (shapeWith scope m env names t)
  | .named none name args span, h => hnames name args span h
  | .named (some _) .., _ => shapeWith_qualified ▸ lockstep_qualified
  | .pointer .., _ | .slice .., _ | .map .., _ | .chan .., _ | .func _, _ | .interface _, _ => .pure
  | .array _ element _, h =>
    inStep_arrayLength.bind fun _ => (lockstep_shapeWith hnames element (h.of_holds .element)).bind fun _ =>
      .guarded (.inl rfl) fun _ => .pure
  | .struct st, h => (lockstep_structWith hnames st h).bind fun _ => .pure

/-- A struct literal is resolved in lockstep where the names in it are. -/
theorem lockstep_structWith {env : Env} {names : Names} (hnames : LockstepNames scope m excused stack env names) :
    ∀ st : StructType, Accounted scope excused stack ⟨env.essence, .struct st⟩ →
      Lockstep scope m excused stack (structWith scope m env names st)
  | ⟨decls, _, _⟩, h =>
    (lockstep_fieldsWith hnames decls fun _ hd => h.of_holds (.field hd)).bind fun _ =>
      .guarded (.inl rfl) fun _ => .pure

private theorem lockstep_fieldsWith {env : Env} {names : Names}
    (hnames : LockstepNames scope m excused stack env names) :
    ∀ decls : List FieldDecl, (∀ d ∈ decls, Accounted scope excused stack ⟨env.essence, d.type⟩) →
      Lockstep scope m excused stack (fieldsWith scope m env names decls)
  | [], _ => .pure
  | d :: rest, h =>
    (lockstep_typeOfField hnames d (h d (List.mem_cons_self ..))).bind fun _ =>
      (lockstep_fieldsWith hnames rest fun e he => h e (List.mem_cons_of_mem _ he)).bind fun _ => .pure

private theorem lockstep_typeOfField {env : Env} {names : Names}
    (hnames : LockstepNames scope m excused stack env names) :
    ∀ d : FieldDecl, Accounted scope excused stack ⟨env.essence, d.type⟩ →
      Lockstep scope m excused stack (typeOfField scope m env names d)
  | ⟨_, type, _, _⟩, h => lockstep_shapeWith hnames type h

end

/-! ## Names -/

/-- Whether uses of declared types are resolved in lockstep. -/
def LockstepDeclared (scope : Scope) (m : Machine) (excused : String → Prop) (stack : List String)
    (declared : Declared) : Prop :=
  ∀ (symbol : TypeSymbol) args env span, scope.type? symbol.decl.name = some symbol →
    env.binding symbol.decl.name = .free →
    Accounted scope excused stack ⟨env.essence, .named none symbol.decl.name args span⟩ →
    Lockstep scope m excused stack (declared symbol args env span)

section

variable {files : List SourceFile} (hscope : scope.DeclaredIn files) {declared : Declared}
  (hdeclared : LockstepDeclared scope m excused stack declared)
include hscope hdeclared

theorem lockstep_global {env : Env} {name : String} {args : List TypeExpr} {span : Span}
    (hfree : env.binding name = .free)
    (h : Accounted scope excused stack ⟨env.essence, .named none name args span⟩) :
    Lockstep scope m excused stack (global scope m declared env name args span) := by
  unfold global
  split
  · next symbol htype =>
    obtain ⟨rfl, -⟩ := hscope.of_type? htype
    exact hdeclared symbol args env span htype hfree h
  · split
    · unfold undefined
      split <;> exact .throw
    · split
      · exact .pure
      · exact .throw

/-- The names of an environment are resolved in lockstep. -/
theorem lockstep_namesIn (env : Env) : LockstepNames scope m excused stack env (namesIn scope m declared env) := by
  induction env with
  | site file params isLocal =>
    intro name args span h
    simp only [namesIn]
    split
    · exact .pure
    · next hmem => exact lockstep_global hscope hdeclared (by simpa using hmem) h
  | instantiated file params types caller ih =>
    intro name args span h
    simp only [namesIn]
    split
    · next t ht =>
      refine lockstep_shapeWith ih t (h.of_holds (.argument ?_))
      rw [Env.binding_essence]
      simp [Env.binding, ht, Env.Binding.essence]
    · next hnone => exact lockstep_global hscope hdeclared (by simpa using hnone) h

end

/-! ## Declared types -/

section

variable {symbol : TypeSymbol} {args : List TypeExpr} {env : Env} {span : Span}

/-- A declared type that is remembered is not entered. -/
theorem ends_visit_of_lookup {r : Resolver} {enter : Resolve Shape} (hlength : args.length = symbol.decl.params.length)
    {s : Shape} (hs : r.known.lookup symbol.decl.name = some s) :
    Ends (visit symbol args span enter) r (fun s' t => s' = s ∧ t = r) fun _ _ => False := by
  unfold visit
  rcases checkArguments_cases symbol.decl args span with ⟨-, hcheck⟩ | ⟨hne, -⟩
  · rw [hcheck, pure_bind]
    refine .get_bind ?_
    rw [hs]
    exact .pure ⟨rfl, rfl⟩
  · exact absurd hlength hne

variable {files : List SourceFile} (hscope : scope.DeclaredIn files)
  (htype : scope.type? symbol.decl.name = some symbol) (hfree : env.binding symbol.decl.name = .free)
  (h : Accounted scope excused stack ⟨env.essence, .named none symbol.decl.name args span⟩)
include hscope htype hfree h

omit h in
/-- A use of a declared type is resolved in lockstep, if its declaration is, and it is resolved faithfully where it is
    not remembered. -/
theorem lockstep_visit {enter : Resolve Shape}
    (hfaithful : Faithful scope m excused stack ⟨env.essence, .named none symbol.decl.name args span⟩
      (visit symbol args span enter))
    (henter : symbol.decl.name ∉ stack → args.length = symbol.decl.params.length →
      Lockstep scope m excused stack enter) :
    Lockstep scope m excused stack (visit symbol args span enter) := by
  intro l r hlinked
  have hfree' : env.essence.binding symbol.decl.name = .free := by simp [hfree, Env.Binding.essence]
  rcases checkArguments_cases symbol.decl args span with ⟨hlength, hcheck⟩ | ⟨-, e, -, hcheck⟩
  · by_cases hknows : r.Knows symbol.decl.name
    · -- the second resolver is ahead of the first one, which finds the same on its own
      obtain ⟨shape, hshape⟩ := Option.isSome_iff_exists.1 hknows
      obtain ⟨hsettles, hneeds⟩ := Sound.use hlinked.right hscope htype hfree' hlength hshape
      refine .of_ends ((hfaithful l hlinked.left hlinked.resolving.1).mono ?_ fun e t hfails => hfails) ?_
      · rintro s t ⟨ht, hextends, hs, hlearns⟩
        refine (ends_visit_of_lookup hlength hshape).mono ?_ fun _ _ h => h
        rintro _ _ ⟨rfl, rfl⟩
        exact ⟨hs.unique hsettles, ht, hlinked.right,
          fun name hname => ((hlearns name).1 hname).elim (hlinked.knows name) (hneeds name),
          hextends.resolving.trans hlinked.resolving.1, hlinked.resolving.2⟩
      · rintro e t ⟨-, -, hfails⟩
        exact hfails.falseAlarm hsettles
    · have hright : r.known.lookup symbol.decl.name = none := Option.not_isSome_iff_eq_none.1 hknows
      have hleft : l.known.lookup symbol.decl.name = none :=
        Option.not_isSome_iff_eq_none.1 (mt (hlinked.knows _) hknows)
      unfold visit
      rw [hcheck, pure_bind]
      refine .get_bind ?_
      rw [hleft, hright]
      refine .get_bind ?_
      rw [hlinked.resolving.1, hlinked.resolving.2]
      exact InStep.guarded (.inl rfl) (fun hname => henter hname hlength) l r hlinked
  · unfold visit
    rw [hcheck]
    exact .throw (e := e)

/-- The declaration of a type is resolved in lockstep, if declared types are with one more of them in progress. -/
theorem lockstep_enter {declared : Declared}
    (hfaithful : FaithfulDeclared scope m excused (symbol.decl.name :: stack) declared)
    (hdeclared : LockstepDeclared scope m excused (symbol.decl.name :: stack) declared)
    (hlength : args.length = symbol.decl.params.length) :
    Lockstep scope m excused stack (enter scope m declared symbol args env) := by
  have haccounted := h.enter htype hfree hlength
  have hrun := lockstep_shapeWith (lockstep_namesIn hscope hdeclared
    (.instantiated symbol.file symbol.decl.params args env)) symbol.decl.type
  have hdeclaration := faithful_declaration hscope htype hfree h hfaithful hlength
  rw [Env.essence_instantiated] at hrun
  intro l r hlinked
  have hboth := ((hrun haccounted).within l r hlinked).and_ends (hdeclaration l hlinked.left hlinked.resolving.1)
    (hdeclaration r hlinked.right hlinked.resolving.2)
    (R := fun s l' r' => Linked scope m stack l' r' ∧
      scope.Settles m ⟨env.essence.enter symbol args, symbol.decl.type⟩ s ∧
      l.Learns l' (Needs scope ⟨env.essence.enter symbol args, symbol.decl.type⟩) ∧
      r.Learns r' (Needs scope ⟨env.essence.enter symbol args, symbol.decl.type⟩))
    fun s l' r' hlinked' ⟨_, _, hs, hlearns⟩ ⟨_, _, _, hlearns'⟩ => ⟨hlinked', hs, hlearns, hlearns'⟩
  refine hboth.bind ?_
  rintro s l' r' ⟨hlinked', hs, hlearns, hlearns'⟩
  split
  · next hparams =>
    have hparams := List.isEmpty_iff.1 hparams
    rw [Env.enter_eq_site hparams] at hs hlearns hlearns'
    obtain ⟨hsound, -, hleft⟩ := Sound.remember hlinked'.left
      ⟨symbol, htype, hparams, hs, fun name hname => (hlearns name).2 (.inr hname)⟩
    obtain ⟨hsound', -, hright⟩ := Sound.remember hlinked'.right
      ⟨symbol, htype, hparams, hs, fun name hname => (hlearns' name).2 (.inr hname)⟩
    refine .modify_bind (.pure ⟨hsound, hsound', fun name hname => ?_, hlinked'.resolving⟩)
    exact (hright name).2 (((hleft name).1 hname).imp_left (hlinked'.knows name))
  · exact .pure hlinked'

end

/-- Declared types are resolved in lockstep, if the depth leaves room for all that are not in progress. -/
theorem lockstep_declared {files : List SourceFile} (hscope : scope.DeclaredIn files) (depth : Nat)
    (hdepth : idle scope stack ≤ depth) : LockstepDeclared scope m excused stack (declared scope m depth) := by
  induction depth generalizing stack with
  | zero =>
    intro symbol args env span htype hfree h
    have hfaithful := faithful_declared (m := m) hscope 0 hdepth symbol args env span htype hfree h
    rw [declared_zero] at hfaithful ⊢
    exact lockstep_visit hscope htype hfree hfaithful fun _ _ => .throw
  | succ depth ih =>
    intro symbol args env span htype hfree h
    have hfaithful := faithful_declared (m := m) hscope (depth + 1) hdepth symbol args env span htype hfree h
    rw [declared_succ] at hfaithful ⊢
    refine lockstep_visit hscope htype hfree hfaithful fun hname hlength => ?_
    have hlt := idle_cons_lt htype hname
    exact lockstep_enter hscope htype hfree h (faithful_declared hscope depth (by omega)) (ih (by omega)) hlength

/-- A site is resolved in lockstep. -/
theorem lockstep_struct {files : List SourceFile} (hscope : scope.DeclaredIn files) (s : Site) :
    Lockstep scope m (s.Namesake scope) [] (struct scope m s) := by
  have hfields {stack} (h : Accounted scope (s.Namesake scope) stack s.part) :=
    lockstep_structWith (lockstep_namesIn hscope (lockstep_declared (m := m) hscope scope.types.length idle_le)
      (.site s.file s.params s.isLocal)) s.type h
  unfold struct structOr structIn
  split
  · next name hname => exact (hfields (accounted_name hname)).within
  · exact hfields fun _ hmem => absurd hmem List.not_mem_nil

theorem linked_fresh {files : List SourceFile} (hscope : scope.DeclaredIn files) (calls : List Site) :
    Linked scope m [] fresh (after scope m calls) := by
  obtain ⟨hsound, hidle⟩ := sound_after (m := m) hscope calls
  exact ⟨sound_fresh, hsound, fun name h => by simp [Knows, fresh] at h, rfl, hidle⟩

/-- What was called before does not matter to the outcome of a site, unless a fresh resolver raises a false alarm. -/
theorem outcome_after_eq {files : List SourceFile} (hscope : scope.DeclaredIn files) (calls : List Site) (s : Site) :
    (after scope m calls).outcome scope m s = fresh.outcome scope m s ∨
      ∃ e, fresh.outcome scope m s = .error e ∧ FalseAlarm scope (s.Namesake scope) e :=
  outcome_of_alike (lockstep_struct hscope s _ _ (linked_fresh hscope calls))

end

end Resolver

end StructPadding
