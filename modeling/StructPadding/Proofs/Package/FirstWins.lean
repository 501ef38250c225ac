-- SUMMARY: Of all declarations of a name the first one in the source wins, and the later ones are problems.
import StructPadding.Proofs.Package.Entered
import StructPadding.Proofs.Parse.InOrder

/-!
# The first declaration wins

The declarations of parsed files are entered in an order: by files, kinds and places. So what is found under a name is
the first one in that order, and what comes later of its name is a problem. That is the order of the source, too, unless
a constant stands before a type of the same name in one file.
-/

namespace StructPadding

/-! ## Orders -/

namespace Declaration

/-- Whether a declaration stands before another one, by their files and their places in them. -/
def Before (x y : Declaration) : Prop := x.file < y.file ∨ x.file = y.file ∧ x.span.start < y.span.start

/-- Whether a declaration is entered before another one: the types of a file come before its constants. -/
def EnteredBefore (x y : Declaration) : Prop :=
  x.file < y.file ∨ x.file = y.file ∧
    (x.type?.isSome ∧ y.const?.isSome ∨ x.type?.isSome = y.type?.isSome ∧ x.span.start < y.span.start)

instance : DecidableRel Before := fun _ _ => inferInstanceAs (Decidable (_ ∨ _))

instance : DecidableRel EnteredBefore := fun _ _ => inferInstanceAs (Decidable (_ ∨ _))

theorem EnteredBefore.asymm {x y : Declaration} (h : x.EnteredBefore y) : ¬ y.EnteredBefore x := by
  cases x <;> cases y <;> simp [EnteredBefore, Declaration.type?, Declaration.const?, Declaration.file] at h ⊢ <;> omega

end Declaration

open Declaration

namespace Scope

/-! ## Later declarations -/

/-- Whether a declaration has another one of its name in front of it, by a given order. -/
def IsLater (before : Declaration → Declaration → Prop) (xs : List Declaration) (y : Declaration) : Prop :=
  y.name ≠ "_" ∧ ∃ x ∈ xs, x.name = y.name ∧ before x y

instance (before : Declaration → Declaration → Prop) [DecidableRel before] (xs : List Declaration) :
    DecidablePred (IsLater before xs) := fun _ => inferInstanceAs (Decidable (_ ∧ _))

/-- The problems of all declarations that are later than another one of their name. -/
def redeclarations (before : Declaration → Declaration → Prop) [DecidableRel before] (xs : List Declaration) :
    List (Nat × Problem) := (xs.filter (IsLater before xs)).map Declaration.redeclared

section

variable {before : Declaration → Declaration → Prop} [DecidableRel before] {xs : List Declaration}
  (hasymm : ∀ x y, before x y → ¬ before y x)
include hasymm

/-- What comes last is later exactly if its name has been declared, and does not change what is later. -/
theorem filter_isLater_concat {x : Declaration} (hxs : (xs ++ [x]).Pairwise before) :
    (xs ++ [x]).filter (IsLater before (xs ++ [x])) =
      xs.filter (IsLater before xs) ++ if (first? xs x.name).isSome then [x] else [] := by
  have hx : ∀ y ∈ xs, before y x := fun y hy => (List.pairwise_append.1 hxs).2.2 y hy x (List.mem_singleton_self x)
  have hold : ∀ y ∈ xs, IsLater before (xs ++ [x]) y ↔ IsLater before xs y := by
    intro y hy
    simp [IsLater, or_and_right, exists_or, hasymm y x (hx y hy)]
  have hnew : IsLater before (xs ++ [x]) x ↔ (first? xs x.name).isSome := by
    have hself : ¬ before x x := fun h => hasymm x x h h
    rw [first?_isSome_iff]
    simp only [IsLater, List.mem_append, List.mem_singleton]
    constructor
    · rintro ⟨hne, y, hy | rfl, hname, hbefore⟩
      · exact ⟨hne, y, hy, hname⟩
      · exact absurd hbefore hself
    · rintro ⟨hne, y, hy, hname⟩
      exact ⟨hne, y, .inl hy, hname, hx y hy⟩
  have hfilter : xs.filter (IsLater before (xs ++ [x])) = xs.filter (IsLater before xs) :=
    List.filter_congr fun y hy => decide_eq_decide.2 (hold y hy)
  rw [List.filter_append, hfilter, List.filter_singleton]
  simp only [hnew, Bool.decide_coe, Bool.cond_eq_ite]

/-- Entering declarations in an order finds all later ones. -/
theorem problems_foldl (hxs : xs.Pairwise before) :
    (xs.foldl Building.add ⟨empty, []⟩).problems = redeclarations before xs := by
  induction xs using List.reverseRecOn with
  | nil => rfl
  | append_singleton xs x ih =>
    have hproblems := (finds_foldl xs).problems_add x
    rw [ih (List.pairwise_append.1 hxs).1] at hproblems
    rw [List.foldl_append, redeclarations, filter_isLater_concat hasymm hxs, List.map_append]
    exact hproblems

end

/-! ## The first in an order -/

/-- Whether of the declarations of a name the first one by an order wins: what comes before all else of that name is
    found under it, and what has something of that name before it is redeclared, in the file and at the place where it
    is declared. -/
structure FirstWins (before : Declaration → Declaration → Prop) [DecidableRel before] (xs : List Declaration)
    (b : Building) (name : String) : Prop where
  found : ∃ x ∈ xs, x.name = name ∧ (∀ y ∈ xs, y.name = name → y = x ∨ before x y) ∧
    b.scope.type? name = x.type? ∧ b.scope.const? name = x.const?
  problems : (b.problems.filter fun e => e.2.cause = .redeclared name) =
    ((xs.filter (·.name = name)).filter (IsLater before xs)).map Declaration.redeclared

section

variable {before before' : Declaration → Declaration → Prop} [DecidableRel before] [DecidableRel before']
  {xs : List Declaration} {b : Building}

theorem firstWins_of_pairwise (hxs : xs.Pairwise before) (hfinds : b.scope.Finds xs)
    (hproblems : b.problems = redeclarations before xs) {y : Declaration} (hy : y ∈ xs) (hne : y.name ≠ "_") :
    FirstWins before xs b y.name where
  found := by
    obtain ⟨x, as, bs, hx, hname, rfl, has⟩ := exists_first? hy hne
    have hfound := hfinds y.name
    rw [hx] at hfound
    refine ⟨x, by simp, hname, fun z hz hzname => ?_, hfound⟩
    rcases List.mem_append.1 hz with hz | hz
    · exact absurd hzname (has z hz)
    · rcases List.mem_cons.1 hz with hz | hz
      · exact .inl hz
      · exact .inr ((List.pairwise_cons.1 (List.pairwise_append.1 hxs).2.1).1 z hz)
  problems := by
    rw [hproblems, redeclarations, List.filter_map, List.filter_comm]
    simp [Function.comp_def, Declaration.redeclared]

omit [DecidableRel before] [DecidableRel before'] in
theorem isLater_congr {y : Declaration}
    (h : ∀ x ∈ xs, x.name = y.name → y.name ≠ "_" → (before x y ↔ before' x y)) :
    IsLater before xs y ↔ IsLater before' xs y := by
  refine and_congr_right fun hne => exists_congr fun x => and_congr_right fun hx => and_congr_right fun hname => ?_
  exact h x hx hname hne

/-- Only the order among the declarations of a name matters for it. -/
theorem FirstWins.congr {name : String} (h : FirstWins before xs b name)
    (hsame : ∀ x ∈ xs, ∀ y ∈ xs, x.name = name → y.name = name → (before x y ↔ before' x y)) :
    FirstWins before' xs b name := by
  refine ⟨?_, h.problems.trans (congrArg (List.map _) (List.filter_congr fun y hy => decide_eq_decide.2 ?_))⟩
  · obtain ⟨x, hx, hname, hfirst, hfound⟩ := h.found
    exact ⟨x, hx, hname, fun y hy hyname => (hfirst y hy hyname).imp_right (hsame x hx y hy hname hyname).1, hfound⟩
  · obtain ⟨hy, hyname⟩ := List.mem_filter.1 hy
    have hyname : y.name = name := of_decide_eq_true hyname
    exact isLater_congr fun x hx hname _ => hsame x hx y hy (hname.trans hyname) hyname

end

end Scope

/-! ## The order of entry -/

namespace SourceFile

variable {f : SourceFile} {file : Nat} {x : Declaration}

theorem mem_entered_iff : x ∈ f.entered file ↔ (∃ d ∈ f.types, x = .type ⟨file, d⟩) ∨
    ∃ e ∈ f.consts.flatMap (·.symbols file), x = .const e.1 e.2 := by
  simp [entered, eq_comm]

theorem file_of_mem_symbols {e : String × ConstSymbol} (h : e ∈ f.consts.flatMap (·.symbols file)) :
    e.2.file = file := by
  obtain ⟨d, -, he⟩ := List.mem_flatMap.1 h
  exact ConstDecl.file_of_mem_symbols he

theorem file_of_mem_entered (hx : x ∈ f.entered file) : x.file = file := by
  rcases mem_entered_iff.1 hx with ⟨d, -, rfl⟩ | ⟨e, he, rfl⟩
  · rfl
  · exact file_of_mem_symbols he

/-- The types of a parsed file come first, and both kinds of declarations in the order of their places. -/
theorem pairwise_entered {source : String} (h : parse source = .ok f) (file : Nat) :
    (f.entered file).Pairwise EnteredBefore := by
  obtain ⟨htypes, hconsts⟩ := inOrder_of_parse h
  rw [← map_symbols f file, List.map_map] at hconsts
  refine List.pairwise_append.2 ⟨List.pairwise_map.2 ?_, List.pairwise_map.2 ?_, ?_⟩
  · exact (List.pairwise_map.1 htypes).imp fun hlt => .inr ⟨rfl, .inr ⟨rfl, hlt⟩⟩
  · refine (List.pairwise_map.1 hconsts).imp_of_mem fun ha hb hlt => .inr ⟨?_, .inr ⟨rfl, hlt⟩⟩
    exact (file_of_mem_symbols ha).trans (file_of_mem_symbols hb).symm
  · intro x hx y hy
    obtain ⟨d, -, rfl⟩ := List.mem_map.1 hx
    obtain ⟨e, he, rfl⟩ := List.mem_map.1 hy
    exact .inr ⟨(file_of_mem_symbols he).symm, .inl ⟨rfl, rfl⟩⟩

/-- Whether no constant of a file that has a given name stands before a type of that name. -/
def TypesFirst (f : SourceFile) (name : String) : Prop :=
  ∀ d ∈ f.types, ∀ n ∈ f.consts.flatMap (·.names), d.name = name → n.1 = name → d.span.start < n.2.start

instance (f : SourceFile) (name : String) : Decidable (f.TypesFirst name) :=
  inferInstanceAs (Decidable (∀ d ∈ f.types, _))

/-- Where the types of a name come first, the order of entry is that of the places. -/
theorem TypesFirst.enteredBefore_iff {name : String} {y : Declaration} (h : f.TypesFirst name)
    (hx : x ∈ f.entered file) (hy : y ∈ f.entered file) (hxname : x.name = name) (hyname : y.name = name) :
    x.EnteredBefore y ↔ x.Before y := by
  have hlt {d : TypeDecl} (hd : d ∈ f.types) {e : String × ConstSymbol} (he : e ∈ f.consts.flatMap (·.symbols file))
      (hname : d.name = name) (hconst : e.1 = name) : d.span.start < e.2.span.start := by
    have hmem : (e.1, e.2.span) ∈ f.consts.flatMap (·.names) := map_symbols f file ▸ List.mem_map_of_mem he
    exact h d hd _ hmem hname hconst
  have hfiles := (file_of_mem_entered hx).trans (file_of_mem_entered hy).symm
  simp only [EnteredBefore, Before, hfiles, Nat.lt_irrefl, false_or, true_and]
  rcases mem_entered_iff.1 hx with ⟨d, hd, rfl⟩ | ⟨e, he, rfl⟩ <;>
    rcases mem_entered_iff.1 hy with ⟨d', hd', rfl⟩ | ⟨e', he', rfl⟩
  · simp [Declaration.type?, Declaration.const?]
  · exact iff_of_true (.inl ⟨rfl, rfl⟩) (hlt hd he' hxname hyname)
  · have hbehind := hlt hd' he hyname hxname
    exact iff_of_false (by simp [Declaration.type?, Declaration.const?]) (Nat.lt_asymm hbehind)
  · simp [Declaration.type?, Declaration.const?]

end SourceFile

namespace Scope

variable {files : List SourceFile} {x : Declaration}

theorem mem_entered (hx : x ∈ entered files) :
    ∃ f ∈ files, files[x.file]? = some f ∧ x ∈ f.entered x.file := by
  obtain ⟨⟨f, i⟩, hf, hx⟩ := List.mem_flatMap.1 hx
  obtain rfl := SourceFile.file_of_mem_entered hx
  exact ⟨f, List.fst_mem_of_mem_zipIdx hf, List.mem_zipIdx_iff_getElem?.1 hf, hx⟩

/-- Across files the order of entry is that of the places. -/
theorem enteredBefore_iff {name : String} (hfirst : ∀ f ∈ files, f.TypesFirst name) {y : Declaration}
    (hx : x ∈ entered files) (hy : y ∈ entered files) (hxname : x.name = name) (hyname : y.name = name) :
    x.EnteredBefore y ↔ x.Before y := by
  obtain ⟨f, hf, hxfile, hx⟩ := mem_entered hx
  obtain ⟨f', -, hyfile, hy⟩ := mem_entered hy
  by_cases hfiles : x.file = y.file
  · obtain rfl : f = f' := Option.some.inj (hxfile.symm.trans (hfiles ▸ hyfile))
    exact (hfirst f hf).enteredBefore_iff hx (hfiles ▸ hy) hxname hyname
  · simp [EnteredBefore, Before, hfiles]

section

variable (hparsed : ∀ f ∈ files, ∃ source, SourceFile.parse source = .ok f)
include hparsed

theorem pairwise_entered : (entered files).Pairwise EnteredBefore := by
  refine List.pairwise_flatMap.2 ⟨fun ⟨f, i⟩ hf => ?_, ?_⟩
  · obtain ⟨source, hsource⟩ := hparsed f (List.fst_mem_of_mem_zipIdx hf)
    exact SourceFile.pairwise_entered hsource i
  · have hnumbers : files.zipIdx.Pairwise fun a b => a.2 < b.2 :=
      List.pairwise_map.1 (List.zipIdx_map_snd 0 files ▸ List.pairwise_lt_range')
    refine hnumbers.imp fun hlt x hx y hy => .inl ?_
    rwa [SourceFile.file_of_mem_entered hx, SourceFile.file_of_mem_entered hy]

/-- What is entered after another declaration of its name is a problem. -/
theorem problems_build : (build files).problems = redeclarations EnteredBefore (entered files) := by
  rw [build_eq]
  exact problems_foldl (fun _ _ h => h.asymm) (pairwise_entered hparsed)

/-- Of all declarations of a name the first one in the source wins, if no file has a constant of that name in front of
    a type of that name. The problems are all later declarations, if that holds of all names. -/
theorem build_firstWins :
    (∀ y ∈ entered files, y.name ≠ "_" → (∀ f ∈ files, f.TypesFirst y.name) →
      FirstWins Before (entered files) (build files) y.name) ∧
    ((∀ y ∈ entered files, y.name ≠ "_" → ∀ f ∈ files, f.TypesFirst y.name) →
      (build files).problems = redeclarations Before (entered files)) := by
  have hproblems := problems_build hparsed
  constructor
  · intro y hy hne hfirst
    have hentered := firstWins_of_pairwise (pairwise_entered hparsed) (finds_build files) hproblems hy hne
    exact hentered.congr fun x hx z hz hxname hzname => enteredBefore_iff hfirst hx hz hxname hzname
  · intro hfirst
    rw [hproblems]
    refine congrArg (List.map _) (List.filter_congr fun y hy => decide_eq_decide.2 ?_)
    exact isLater_congr fun x hx hname hne => enteredBefore_iff (hfirst y hy hne) hx hy hname rfl

end

theorem parsed_of_mapM {sources : List String} (h : sources.mapM SourceFile.parse = .ok files) :
    ∀ f ∈ files, ∃ source, SourceFile.parse source = .ok f := by
  intro f hf
  obtain ⟨i, hi⟩ := List.getElem?_of_mem hf
  obtain ⟨source, -, hsource⟩ := getElem?_of_mapM_eq_ok h hi
  exact ⟨source, hsource⟩

/-- Two files with two names that are declared three times and twice. -/
def redeclaredSources : List String :=
  ["package p\ntype A int\nconst (\n\tB = iota\n\tA\n)\n", "package p\nconst A = 1\ntype B int\n"]

theorem problems_redeclaredSources : (redeclaredSources.mapM SourceFile.parse).toOption.map (fun files =>
    ((entered files).map Declaration.name,
      decide (∀ y ∈ entered files, y.name ≠ "_" → ∀ f ∈ files, f.TypesFirst y.name), (build files).problems)) =
    some (["A", "B", "A", "B", "A"], true, [(0, ⟨.redeclared "A", ⟨40, 41⟩⟩), (1, ⟨.redeclared "B", ⟨27, 32⟩⟩),
      (1, ⟨.redeclared "A", ⟨16, 17⟩⟩)]) := by
  decide +kernel

theorem build_firstWins_redeclared : ∃ files, redeclaredSources.mapM SourceFile.parse = .ok files ∧
    (∃ y ∈ entered files, y.name = "A" ∧ FirstWins Before (entered files) (build files) "A") ∧
    (build files).problems.length = 3 ∧
    (build files).problems = redeclarations Before (entered files) := by
  obtain ⟨files, hfiles, hresult⟩ := exists_of_toOption_map problems_redeclaredSources
  obtain ⟨hnames, hrest⟩ := Prod.mk.inj hresult
  obtain ⟨hfirst, hproblems⟩ := Prod.mk.inj hrest
  have hfirst := of_decide_eq_true hfirst
  obtain ⟨hwins, hlater⟩ := build_firstWins (parsed_of_mapM hfiles)
  obtain ⟨y, hy, hname⟩ : ∃ y ∈ entered files, y.name = "A" := by
    rw [← List.mem_map, hnames]
    decide
  have hne : y.name ≠ "_" := by
    rw [hname]
    decide
  have hlength : (build files).problems.length = 3 := by
    rw [hproblems]
    rfl
  exact ⟨files, hfiles, ⟨y, hy, hname, hname ▸ hwins y hy hne (hfirst y hy hne)⟩, hlength, hlater hfirst⟩

/-- A constant in front of a type of the same name. -/
def constFirstSource : String := "package p\nconst A = 1\ntype A int\n"

theorem problems_constFirstSource : ([constFirstSource].mapM SourceFile.parse).toOption.map (fun files =>
    ((build files).problems, redeclarations Before (entered files))) =
    some ([(0, ⟨.redeclared "A", ⟨16, 17⟩⟩)], [(0, ⟨.redeclared "A", ⟨27, 32⟩⟩)]) := by
  decide +kernel

/-- A type wins over a constant in front of it. -/
theorem not_all_build_firstWins :
    ¬ ∀ files : List SourceFile, (∀ f ∈ files, ∃ source, SourceFile.parse source = .ok f) →
    (∀ y ∈ entered files, y.name ≠ "_" → FirstWins Before (entered files) (build files) y.name) ∧
    (build files).problems = redeclarations Before (entered files) := by
  intro hall
  obtain ⟨files, hfiles, hresult⟩ := exists_of_toOption_map problems_constFirstSource
  obtain ⟨hproblems, hlater⟩ := Prod.mk.inj hresult
  have hsame := (hall files (parsed_of_mapM hfiles)).2
  rw [hproblems, hlater] at hsame
  revert hsame
  decide

end Scope

end StructPadding
