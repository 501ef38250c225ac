-- SUMMARY: Resolving a type with arguments, or its declaration with the arguments put for its parameters.
import StructPadding.Proofs.Package.Calls
import StructPadding.Proofs.Package.Substitution

/-!
# Instantiation

Two resolvers that remember the same are asked for parts that come to the same. The first one may have more types in
progress, and less depth left for new ones: it enters declarations where the second one is given what is in them. Where
the first one finds a shape the second one finds it too. The declaration of a type with its arguments put for its
parameters is such a part.
-/

namespace StructPadding

namespace Resolver

/-! ## Steps -/

/-- Whether two resolvers remember the same, and only types without parameters, while they resolve the given types. -/
structure Follows (scope : Scope) (stack stack' : List String) (l r : Resolver) : Prop where
  known : r.known = l.known
  plain : ∀ name, l.Knows name → ∃ symbol, scope.type? name = some symbol ∧ symbol.decl.params = []
  left : l.resolving = stack
  right : r.resolving = stack'

/-- Whether a second computation finds what a first one finds. -/
def Followed (scope : Scope) (stack stack' : List String) {α : Type} (x y : Resolve α) : Prop :=
  InStep (Follows scope stack stack') (fun _ => True) x y

section

variable {scope : Scope} {m : Machine} {stack stack' : List String} {l r : Resolver} {α : Type}

theorem Followed.within {name : String} {x y : Resolve α} (hx : Followed scope (name :: stack) (name :: stack') x y) :
    Followed scope stack stack' (Resolver.within name x) (Resolver.within name y) :=
  inStep_within hx (fun _ _ h => ⟨h.known, h.plain, congrArg _ h.left, congrArg _ h.right⟩)
    fun _ _ h => ⟨h.known, h.plain, congrArg List.tail h.left, congrArg List.tail h.right⟩

/-- Only the first computation has a type in progress. -/
theorem Followed.within_left {name : String} {x y : Resolve α} (hx : Followed scope (name :: stack) stack' x y) :
    Followed scope stack stack' (Resolver.within name x) y := by
  intro l r h
  have hrun := hx { l with resolving := name :: l.resolving } r ⟨h.known, h.plain, congrArg _ h.left, h.right⟩
  simp only [Alike, Resolver.within] at hrun ⊢
  cases hl : x { l with resolving := name :: l.resolving } <;> cases hr : y r
  all_goals rw [hl, hr] at hrun
  · exact ⟨hrun.1, hrun.2.known, hrun.2.plain, congrArg List.tail hrun.2.left, hrun.2.right⟩
  · exact hrun
  · trivial
  · exact .inr trivial

/-! ## Names -/

section

variable {declared : Declared} {env : Env} {name : String} {args : List TypeExpr} {span : Span}

theorem shapeIn_reference {t : TypeExpr} {s : Scalar} (h : t.reference? = some s) :
    shapeIn scope m declared env t = pure (.scalar s) := by
  cases t with
  | pointer | slice | map | chan | func | interface =>
    cases h
    rfl
  | named | array | struct => cases h

theorem shapeIn_self (h : env.binding name = .self) :
    shapeIn scope m declared env (.named none name args span) = pure (.scalar .interface) := by
  cases env with
  | site file params isLocal =>
    have hmem : name ∈ params := by simpa using h
    simp only [shapeIn, shapeWith, namesIn, hmem, ↓reduceIte]
  | instantiated => exact absurd h Env.binding_instantiated_ne_self

theorem shapeIn_argument {t : TypeExpr} {caller : Env} (h : env.binding name = .argument t caller) :
    shapeIn scope m declared env (.named none name args span) = shapeIn scope m declared caller t := by
  cases env with
  | site => exact absurd h Env.binding_site_ne_argument
  | instantiated file params types caller' =>
    obtain ⟨ht, rfl⟩ := Env.binding_instantiated_eq_argument_iff.1 h
    simp only [shapeIn, shapeWith, namesIn, ht]

theorem shapeIn_free (h : env.binding name = .free) :
    shapeIn scope m declared env (.named none name args span) = global scope m declared env name args span := by
  cases env with
  | site file params isLocal =>
    have hmem : name ∉ params := by simpa using h
    simp only [shapeIn, shapeWith, namesIn, hmem, ↓reduceIte]
  | instantiated file params types caller =>
    have hnone : Env.argument? params types name = none := by simpa using h
    simp only [shapeIn, shapeWith, namesIn, hnone]

end

/-! ## Types -/

theorem followed_qualified {env env' : Env} {package name : String} {args args' : List TypeExpr} {span span' : Span}
    (hfile : env.file = env'.file) (hempty : args.isEmpty = args'.isEmpty) :
    Followed scope stack stack' (qualified scope m env package name args span)
      (qualified scope m env' package name args' span') := by
  unfold qualified
  rw [hfile, hempty]
  split
  · unfold undefined
    split <;> exact .fail trivial
  · split
    · exact .pure
    · exact .fail trivial

section

variable {names names' : Names} {env env' : Env}

theorem followed_array {length : Expr} {e e' : TypeExpr} {span span' : Span} (hfile : env.file = env'.file)
    (he : Followed scope stack stack' (shapeWith scope m env names e) (shapeWith scope m env' names' e')) :
    Followed scope stack stack' (shapeWith scope m env names (.array length e span))
      (shapeWith scope m env' names' (.array length e' span')) := by
  simp only [shapeWith, hfile]
  exact inStep_arrayLength.bind fun _ => he.bind fun _ => .guarded (.inr trivial) fun _ => .pure

/-- The fields of a struct are found one after the other. -/
theorem followed_structWith {fields fields' : List FieldDecl} {keyword keyword' span span' : Span}
    (hnames : fields.map (·.fieldNames) = fields'.map (·.fieldNames))
    (h : ∀ d ∈ fields.zip fields', Followed scope stack stack' (shapeWith scope m env names d.1.type)
      (shapeWith scope m env' names' d.2.type)) :
    Followed scope stack stack' (structWith scope m env names ⟨fields, keyword, span⟩)
      (structWith scope m env' names' ⟨fields', keyword', span'⟩) := by
  have hfields : Followed scope stack stack' (fieldsWith scope m env names fields)
      (fieldsWith scope m env' names' fields') := by
    induction fields generalizing fields' with
    | nil =>
      obtain rfl := List.map_eq_nil_iff.1 hnames.symm
      exact .pure
    | cons d rest ih =>
      cases fields' with
      | nil => cases hnames
      | cons d' rest' =>
        obtain ⟨hd, hrest⟩ := List.cons.inj hnames
        have hd : d.fieldNames = d'.fieldNames := hd
        rw [fieldsWith, fieldsWith, hd]
        have htype := h (d, d') (List.mem_cons_self ..)
        cases d
        cases d'
        exact htype.bind fun _ => (ih hrest fun e he => h e (List.mem_cons_of_mem _ he)).bind fun _ => .pure
  rw [structWith, structWith]
  exact hfields.bind fun _ => .guarded (.inr trivial) fun _ => .pure

end

/-! ## Declared types -/

theorem enter_eq_within {declared : Declared} {symbol : TypeSymbol} {args : List TypeExpr} {env : Env}
    (hparams : symbol.decl.params ≠ []) : enter scope m declared symbol args env = Resolver.within symbol.decl.name
      (shapeIn scope m declared (.instantiated symbol.file symbol.decl.params args env) symbol.decl.type) := by
  simp only [enter, List.isEmpty_iff, hparams, ↓reduceIte, bind_pure]

section

variable {symbol : TypeSymbol} {args args' : List TypeExpr} {span span' : Span}

theorem followed_visit {enter enter' : Resolve Shape} (hsub : ∀ name ∈ stack', name ∈ stack)
    (hlength : args.length = args'.length)
    (henter : symbol.decl.name ∉ stack → Followed scope stack stack' enter enter') :
    Followed scope stack stack' (visit symbol args span enter) (visit symbol args' span' enter') := by
  unfold visit
  rcases checkArguments_cases symbol.decl args span with ⟨hargs, hcheck⟩ | ⟨-, e, -, hcheck⟩
  · rcases checkArguments_cases symbol.decl args' span' with ⟨-, hcheck'⟩ | ⟨hargs', -⟩
    · rw [hcheck, hcheck', pure_bind, pure_bind]
      refine fun l r h => .get_bind ?_
      rw [h.known]
      cases l.known.lookup symbol.decl.name with
      | some shape => exact .pure h
      | none =>
        refine .get_bind ?_
        rw [h.left, h.right]
        refine InStep.guarded_left trivial (fun hname => ?_) l r h
        simp only [if_neg (mt (hsub _) hname)]
        exact henter hname
    · exact absurd (hlength.symm.trans hargs) hargs'
  · rw [hcheck]
    exact .fail (e := e) trivial

/-- A type with parameters is not remembered. -/
theorem followed_visit_left {enter y : Resolve Shape} (htype : scope.type? symbol.decl.name = some symbol)
    (hparams : symbol.decl.params ≠ []) (henter : symbol.decl.name ∉ stack → Followed scope stack stack' enter y) :
    Followed scope stack stack' (visit symbol args span enter) y := by
  unfold visit
  rcases checkArguments_cases symbol.decl args span with ⟨-, hcheck⟩ | ⟨-, e, -, hcheck⟩
  · rw [hcheck, pure_bind]
    refine fun l r h => .get_bind_left ?_
    have hnone : l.known.lookup symbol.decl.name = none := by
      by_contra hknows
      obtain ⟨symbol', htype', hparams'⟩ := h.plain _ (Option.isSome_iff_ne_none.2 hknows)
      obtain rfl := Option.some.inj (htype.symm.trans htype')
      exact hparams hparams'
    rw [hnone]
    refine .get_bind_left ?_
    rw [h.left]
    exact InStep.guarded_left trivial henter l r h
  · rw [hcheck]
    exact .fail (e := e) trivial

theorem followed_enter {declared declared' : Declared} {env env' : Env}
    (htype : scope.type? symbol.decl.name = some symbol)
    (hbody : Followed scope (symbol.decl.name :: stack) (symbol.decl.name :: stack')
      (shapeIn scope m declared (.instantiated symbol.file symbol.decl.params args env) symbol.decl.type)
      (shapeIn scope m declared' (.instantiated symbol.file symbol.decl.params args' env') symbol.decl.type)) :
    Followed scope stack stack' (enter scope m declared symbol args env)
      (enter scope m declared' symbol args' env') := by
  refine hbody.within.bind fun shape => ?_
  split
  · next hparams =>
    refine fun l r h => .modify_bind (.pure ⟨by simp only [h.known], fun name hname => ?_, h.left, h.right⟩)
    by_cases heq : name = symbol.decl.name
    · exact ⟨symbol, heq ▸ htype, List.isEmpty_iff.1 hparams⟩
    · refine h.plain name ?_
      simpa [Knows, List.lookup_append, List.lookup_cons, beq_eq_false_iff_ne.2 heq] using hname
  · exact .pure

end

/-! ## Matching parts -/

section

variable {p p' : Part}

/-- Whether a second way to resolve declared types finds what a first one finds. -/
structure FollowedDeclared (scope : Scope) (m : Machine) (stack stack' : List String) (declared declared' : Declared) :
    Prop where
  both : ∀ (symbol : TypeSymbol) (args args' : List TypeExpr) (env env' : Env) (span span' : Span),
    scope.type? symbol.decl.name = some symbol → args.length = args'.length →
    (∀ a ∈ args.zip args', scope.Matches ⟨env, a.1⟩ ⟨env', a.2⟩) →
    Followed scope stack stack' (declared symbol args env span) (declared' symbol args' env' span')
  left : ∀ (symbol : TypeSymbol) (args : List TypeExpr) (env : Env) (span : Span) (p' : Part),
    scope.type? symbol.decl.name = some symbol → symbol.decl.params ≠ [] →
    scope.Matches ⟨.instantiated symbol.file symbol.decl.params args env, symbol.decl.type⟩ p' →
    Followed scope stack stack' (declared symbol args env span) (shapeIn scope m declared' p'.env p'.type)

variable {files : List SourceFile} (hscope : scope.DeclaredIn files)
include hscope

/-- What is found for a part is found for all parts that match it, where that holds of declared types. -/
theorem followed_shapeIn {declared declared' : Declared}
    (hdeclared : FollowedDeclared scope m stack stack' declared declared')
    (h : scope.Matches p p') :
    Followed scope stack stack' (shapeIn scope m declared p.env p.type) (shapeIn scope m declared' p'.env p'.type) := by
  induction h with
  | reference ht ht' =>
    rw [shapeIn_reference ht, shapeIn_reference ht']
    exact .pure
  | qualified hfile hempty =>
    rw [shapeIn, shapeIn, shapeWith_qualified, shapeWith_qualified]
    exact followed_qualified hfile hempty
  | array hfile _ ih => exact followed_array hfile ih
  | struct hnames _ ih => exact (followed_structWith hnames ih).bind fun _ => .pure
  | self hself ht' =>
    rw [shapeIn_self hself, shapeIn_reference ht']
    exact .pure
  | left hargument _ ih => rwa [shapeIn_argument hargument]
  | right hargument _ ih => rwa [shapeIn_argument hargument]
  | @free env env' name args args' span span' hfree hfree' hlength hargs _ =>
    rw [shapeIn_free hfree, shapeIn_free hfree']
    unfold global
    cases htype : scope.type? name with
    | some symbol =>
      obtain ⟨rfl, -⟩ := hscope.of_type? htype
      exact hdeclared.both symbol args args' env env' span span' htype hlength hargs
    | none =>
      have hempty : args.isEmpty = args'.isEmpty := by
        rw [Bool.eq_iff_iff, List.isEmpty_iff_length_eq_zero, List.isEmpty_iff_length_eq_zero, hlength]
      simp only [hempty, inFile_plain]
      split
      · unfold undefined
        split <;> exact .fail trivial
      · split
        · exact .pure
        · exact .fail trivial
  | @entered env args span p' symbol hfree htype hparams hbody _ =>
    rw [shapeIn_free hfree]
    simp only [global, htype]
    exact hdeclared.left symbol args env span p' htype hparams hbody

theorem followed_declared {depth depth' : Nat} (hdepth : depth ≤ depth') (hsub : ∀ name ∈ stack', name ∈ stack) :
    FollowedDeclared scope m stack stack' (declared scope m depth) (declared scope m depth') := by
  induction depth generalizing depth' stack stack' with
  | zero =>
    constructor
    · intro symbol args args' env env' span span' htype hlength hargs
      rw [declared_zero]
      cases depth' with
      | zero =>
        rw [declared_zero]
        exact followed_visit hsub hlength fun _ => .fail trivial
      | succ depth' =>
        rw [declared_succ]
        exact followed_visit hsub hlength fun _ => .fail trivial
    · intro symbol args env span p' htype hparams hbody
      rw [declared_zero]
      exact followed_visit_left htype hparams fun _ => .fail trivial
  | succ depth ih =>
    constructor
    · intro symbol args args' env env' span span' htype hlength hargs
      obtain ⟨depth', rfl⟩ := Nat.exists_eq_succ_of_ne_zero (Nat.ne_zero_of_lt hdepth)
      rw [declared_succ, declared_succ]
      refine followed_visit hsub hlength fun _ => followed_enter htype ?_
      refine followed_shapeIn hscope (ih (Nat.le_of_succ_le_succ hdepth) ?_)
        (Scope.matches_instantiated hlength hargs symbol.decl.type)
      exact fun name => List.mem_cons.2 ∘ Or.imp_right (hsub name) ∘ List.mem_cons.1
    · intro symbol args env span p' htype hparams hbody
      rw [declared_succ]
      refine followed_visit_left htype hparams fun _ => ?_
      rw [enter_eq_within hparams]
      refine Followed.within_left (followed_shapeIn hscope (ih (Nat.le_of_succ_le hdepth) ?_) hbody)
      exact fun name hname => List.mem_cons_of_mem _ (hsub name hname)

/-- A struct whose fields match those of another one has the fields that are found for that one. -/
theorem outcome_of_matches {file file' : Nat} {params params' : List String} {isLocal isLocal' : Bool}
    {name : Option String} {fields fields' : List FieldDecl} {keyword span : Span} {found : List Field}
    (hnames : fields.map (·.fieldNames) = fields'.map (·.fieldNames))
    (hfields : ∀ d ∈ fields.zip fields', scope.Matches ⟨.site file params isLocal, d.1.type⟩
      ⟨.site file' params' isLocal', d.2.type⟩)
    (h : fresh.outcome scope m ⟨file, name, params, isLocal, ⟨fields, keyword, span⟩⟩ = .ok found) :
    fresh.outcome scope m ⟨file', name, params', isLocal', ⟨fields', keyword, span⟩⟩ = .ok found := by
  have hin (stack : List String) : Followed scope stack stack
      (structIn scope m (.site file params isLocal) ⟨fields, keyword, span⟩)
      (structIn scope m (.site file' params' isLocal') ⟨fields', keyword, span⟩) :=
    followed_structWith hnames fun d hd =>
      followed_shapeIn hscope (followed_declared hscope (Nat.le_refl _) fun _ => id) (hfields d hd)
  have hstruct : Followed scope [] [] (struct scope m ⟨file, name, params, isLocal, ⟨fields, keyword, span⟩⟩)
      (struct scope m ⟨file', name, params', isLocal', ⟨fields', keyword, span⟩⟩) := by
    cases name with
    | none => exact hin []
    | some name => exact (hin [name]).within
  have hfresh : Follows scope [] [] fresh fresh := ⟨rfl, fun name hname => by simp [Knows, fresh] at hname, rfl, rfl⟩
  rcases outcome_of_alike (hstruct fresh fresh hfresh) with heq | ⟨e, herror, -⟩
  · exact heq.trans h
  · cases herror.symm.trans h

end

end

/-- What a resolver finds for a site is what the site unfolds to. -/
theorem unfolds_of_outcome {scope : Scope} {m : Machine} {files : List SourceFile} (hscope : scope.DeclaredIn files)
    {s : Site} {fields : List Field} (h : fresh.outcome scope m s = .ok fields) :
    scope.Unfolds m s.part (.struct fields) :=
  (settles_of_outcome hscope (show (after scope m []).outcome scope m s = .ok fields from h)).unfolds

theorem outcome_eq_ok {scope : Scope} {m : Machine} {files : List SourceFile} (hscope : scope.DeclaredIn files)
    {s : Site} {fields : List Field} (hok : (fresh.outcome scope m s).isOk)
    (hs : scope.Unfolds m s.part (.struct fields)) : fresh.outcome scope m s = .ok fields := by
  cases h : fresh.outcome scope m s with
  | ok found =>
    cases (unfolds_of_outcome hscope h).unique hs
    rfl
  | error e =>
    rw [h] at hok
    cases hok

end Resolver

/-! ## Instances -/

/-- A type with arguments has the shape of its declaration with the arguments put for its parameters. The type parameters
    around it stand for interfaces, and embedded fields keep the names that they have. -/
theorem outcome_body (f : SourceFile) (m : Machine) (symbol : TypeSymbol) (args : List TypeExpr)
    (name : Option String) (around : List String) (before after : List FieldDecl) {field : FieldDecl}
    {keyword span place : Span} {fields : List Field}
    (htype : (Scope.build [f]).scope.type? symbol.decl.name = some symbol) (hgeneric : symbol.decl.params ≠ [])
    (hdistinct : symbol.decl.params.Nodup) (hfree : symbol.decl.name ∉ around)
    (hfield : field.type = .named none symbol.decl.name args place)
    (h : Resolver.fresh.outcome (Scope.build [f]).scope m
      ⟨0, name, around, false, ⟨before ++ field :: after, keyword, span⟩⟩ = .ok fields) :
    Resolver.fresh.outcome (Scope.build [f]).scope m
      ⟨0, name, [], false, ⟨before.map (fun d => d.retype (d.type.closed around)) ++
        field.retype (symbol.decl.body (args.map (·.closed around))) ::
          after.map (fun d => d.retype (d.type.closed around)), keyword, span⟩⟩ = .ok fields := by
  have hscope := (Scope.build_declaredIn [f]).scope
  have hfile : symbol.file = 0 := Nat.lt_one_iff.1 (hscope.of_type? htype).2.lt_length
  have hbody := Scope.matches_body args place htype hgeneric hdistinct hfree
  have hothers (ds : List FieldDecl) : ∀ d ∈ ds.zip (ds.map fun d => d.retype (d.type.closed around)),
      (Scope.build [f]).scope.Matches ⟨.site 0 around false, d.1.type⟩ ⟨.site 0 [] false, d.2.type⟩ := by
    intro d hd
    rw [← List.map_id ds, List.map_map, List.zip_map'] at hd
    obtain ⟨d, -, rfl⟩ := List.mem_map.1 hd
    simpa using Scope.matches_closed around d.type
  refine Resolver.outcome_of_matches hscope ?_ ?_ h
  · simp [Function.comp_def]
  · intro d hd
    rw [List.zip_append (List.length_map _).symm, List.zip_cons_cons, List.mem_append, List.mem_cons] at hd
    rcases hd with hd | rfl | hd
    · exact hothers before d hd
    · rw [hfile] at hbody
      rwa [hfield, FieldDecl.type_retype]
    · exact hothers after d hd

/-- The declaration of a struct with two parameters, one of which goes on to another struct. -/
def pairDecl : TypeDecl :=
  ⟨"Pair", ["A", "B"], false,
    .struct ⟨[⟨["a"], .named none "G" [.named none "A" [] ⟨69, 70⟩] ⟨67, 71⟩, none, ⟨65, 71⟩⟩,
      ⟨["b"], .pointer (.named none "B" [] ⟨76, 77⟩) ⟨75, 77⟩, none, ⟨73, 77⟩⟩,
      ⟨["c"], .named none "B" [] ⟨81, 82⟩, none, ⟨79, 82⟩⟩], ⟨58, 64⟩, ⟨58, 84⟩⟩, ⟨43, 84⟩⟩

/-- The arguments of such a pair: a parameter and an array. -/
def pairArgs : List TypeExpr :=
  [.named none "E" [] ⟨123, 124⟩, .array (.int 2 ⟨127, 128⟩) (.named none "int8" [] ⟨129, 133⟩) ⟨126, 133⟩]

/-- The fields of a struct that holds the pair. -/
def pairFields : List FieldDecl :=
  [⟨["n"], .named none "int8" [] ⟨110, 114⟩, none, ⟨108, 114⟩⟩,
    ⟨["p"], .named none "Pair" pairArgs ⟨118, 134⟩, none, ⟨116, 134⟩⟩]

/-- The fields with the declaration of the pair in its place. -/
def pairFieldsWritten : List FieldDecl :=
  let array : TypeExpr := .array (.int 2 ⟨127, 128⟩) (.named none "int8" [] ⟨129, 133⟩) ⟨126, 133⟩
  [⟨["n"], .named none "int8" [] ⟨110, 114⟩, none, ⟨108, 114⟩⟩,
    ⟨["p"], .struct ⟨[⟨["a"], .named none "G" [.interface default] ⟨67, 71⟩, none, ⟨65, 71⟩⟩,
      ⟨["b"], .pointer array ⟨75, 77⟩, none, ⟨73, 77⟩⟩, ⟨["c"], array, none, ⟨79, 82⟩⟩], ⟨58, 64⟩, ⟨58, 84⟩⟩,
      none, ⟨116, 134⟩⟩]

/-- A file that declares the structs, and one with a parameter and these fields. -/
def pairFile : SourceFile where
  package := "p"
  imports := []
  types := [boxDecl, pairDecl,
    ⟨"W", ["E"], false, .struct ⟨pairFields, ⟨100, 106⟩, ⟨100, 136⟩⟩, ⟨91, 136⟩⟩]
  consts := []
  locals := []
  span := ⟨0, 137⟩

theorem outcome_body_pair : ∃ fields,
    Resolver.fresh.outcome (Scope.build [pairFile]).scope .amd64
        ⟨0, some "W", ["E"], false, ⟨pairFields, ⟨100, 106⟩, ⟨100, 136⟩⟩⟩ = .ok fields ∧
      Resolver.fresh.outcome (Scope.build [pairFile]).scope .amd64
        ⟨0, some "W", [], false, ⟨pairFieldsWritten, ⟨100, 106⟩, ⟨100, 136⟩⟩⟩ = .ok fields := by
  have hok : (Resolver.fresh.outcome (Scope.build [pairFile]).scope .amd64
      ⟨0, some "W", ["E"], false, ⟨pairFields, ⟨100, 106⟩, ⟨100, 136⟩⟩⟩).isOk := by decide +kernel
  have htype : (Scope.build [pairFile]).scope.type? "Pair" = some ⟨0, pairDecl⟩ := by rfl
  cases h : Resolver.fresh.outcome (Scope.build [pairFile]).scope .amd64
      ⟨0, some "W", ["E"], false, ⟨pairFields, ⟨100, 106⟩, ⟨100, 136⟩⟩⟩ with
  | ok fields =>
    refine ⟨fields, rfl, ?_⟩
    have hwritten := outcome_body pairFile .amd64 ⟨0, pairDecl⟩ pairArgs (some "W") ["E"] (pairFields.take 1) [] htype
      (by decide) (by decide) (by decide) rfl h
    have hfields : pairFieldsWritten = (pairFields.take 1).map (fun d => d.retype (d.type.closed ["E"])) ++
        FieldDecl.retype ⟨["p"], .named none "Pair" pairArgs ⟨118, 134⟩, none, ⟨116, 134⟩⟩
          (pairDecl.body (pairArgs.map (·.closed ["E"]))) :: [] := by rfl
    rw [hfields]
    exact hwritten
  | error e =>
    rw [h] at hok
    cases hok

/-- The declaration of a struct that embeds its parameter. -/
def embedDecl : TypeDecl :=
  ⟨"G", ["T"], false,
    .struct ⟨[⟨[], .named none "T" [] ⟨32, 33⟩, none, ⟨32, 33⟩⟩], ⟨24, 30⟩, ⟨24, 35⟩⟩, ⟨15, 35⟩⟩

/-- The same with another type written for the parameter. -/
def embedWritten : TypeExpr :=
  .struct ⟨[⟨[], .named none "int8" [] ⟨32, 33⟩, none, ⟨32, 33⟩⟩], ⟨24, 30⟩, ⟨24, 35⟩⟩

/-- A field with an instance of it. -/
def embedField : FieldDecl :=
  ⟨["g"], .named none "G" [.named none "int8" [] ⟨55, 59⟩] ⟨53, 60⟩, none, ⟨51, 60⟩⟩

/-- A file that declares the struct, and one with this field. -/
def embedFile : SourceFile where
  package := "p"
  imports := []
  types := [embedDecl, ⟨"A", [], false, .struct ⟨[embedField], ⟨43, 49⟩, ⟨43, 62⟩⟩, ⟨41, 62⟩⟩]
  consts := []
  locals := []
  span := ⟨0, 63⟩

/-- An instance is another struct than its declaration with the arguments written for its parameters, where a parameter
    is embedded: the field is named after it. -/
theorem not_outcome_body_embedded : ¬ ∀ fields,
    Resolver.fresh.outcome (Scope.build [embedFile]).scope .amd64
        ⟨0, some "A", [], false, ⟨[embedField], ⟨43, 49⟩, ⟨43, 62⟩⟩⟩ = .ok fields →
      Resolver.fresh.outcome (Scope.build [embedFile]).scope .amd64
        ⟨0, some "A", [], false, ⟨[embedField.retype embedWritten], ⟨43, 49⟩, ⟨43, 62⟩⟩⟩ = .ok fields := by
  intro hall
  have hscope := (Scope.build_declaredIn [embedFile]).scope
  have htype : (Scope.build [embedFile]).scope.type? "G" = some ⟨0, embedDecl⟩ := by rfl
  have hnone : (Scope.build [embedFile]).scope.type? "int8" = none := by rfl
  have hint8 {span : Span} : (Scope.build [embedFile]).scope.Unfolds .amd64
      ⟨.site 0 [] false, .named none "int8" [] span⟩ (.scalar .int8) := .predeclared rfl hnone rfl
  have hleft : Resolver.fresh.outcome (Scope.build [embedFile]).scope .amd64
      ⟨0, some "A", [], false, ⟨[embedField], ⟨43, 49⟩, ⟨43, 62⟩⟩⟩ = .ok [⟨"g", .struct [⟨"T", .scalar .int8⟩]⟩] := by
    refine Resolver.outcome_eq_ok hscope (by decide +kernel) (.struct (fun _ => .struct [⟨"T", .scalar .int8⟩]) ?_)
    intro d hd
    obtain rfl := List.mem_singleton.1 hd
    refine .declared rfl htype rfl (.struct (fun _ => .scalar .int8) fun d hd => ?_)
    obtain rfl := List.mem_singleton.1 hd
    exact .argument rfl hint8
  have hright : (Scope.build [embedFile]).scope.Unfolds .amd64 (Site.part ⟨0, some "A", [], false,
      ⟨[embedField.retype embedWritten], ⟨43, 49⟩, ⟨43, 62⟩⟩⟩)
      (.struct [⟨"g", .struct [⟨"int8", .scalar .int8⟩]⟩]) := by
    refine .struct (fun _ => .struct [⟨"int8", .scalar .int8⟩]) fun d hd => ?_
    obtain rfl := List.mem_singleton.1 hd
    refine .struct (fun _ => .scalar .int8) fun d hd => ?_
    obtain rfl := List.mem_singleton.1 hd
    exact hint8
  have heq := (Resolver.unfolds_of_outcome hscope (hall _ hleft)).unique hright
  simp at heq

end StructPadding
