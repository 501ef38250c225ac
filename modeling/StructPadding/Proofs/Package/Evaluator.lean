-- SUMMARY: An evaluator that is used again and again gives what a new one does, and finds exactly the real cycles.
import StructPadding.Proofs.Package.Evaluation

/-!
# Evaluator

An evaluator keeps a stack of the constants that are being evaluated. It pushes a constant, evaluates its declaration
and pops the constant again, whatever the outcome, and it stops at a constant that is on the stack already. Calls of
an evaluator are a relation here, between the stack before, the result and the stack behind, with no bound on how deep
they nest. That every call has a result, and which, comes from the evaluation by depth: names on the stack lead to the
next one, so that they are distinct constants until one of them is met again.
-/

namespace StructPadding

open Constant

namespace Scope

/-- Whether a call of an evaluator for an expression in a file, with some constants on the stack, ends with a result and
    a stack. -/
inductive Evaluates (scope : Scope) : List String → Nat → Option Nat → Expr → Result → List String → Prop
  | int {stack file iota v span} : scope.Evaluates stack file iota (.int v span) (.ok v) stack
  | iota {stack file span} {i : Nat} : scope.Evaluates stack file (some i) (.iota span) (.ok i) stack
  | iotaOutside {stack file span} :
      scope.Evaluates stack file none (.iota span) (invalid .iotaOutsideConst span) stack
  | qualified {stack file iota package name span} :
      scope.Evaluates stack file iota (.name (some package) name span)
        (Constant.qualified scope file package name span) stack
  | undeclared {stack file iota name span} : scope.const? name = none →
      scope.Evaluates stack file iota (.name none name span)
        (invalid (if (scope.type? name).isSome then .typeAsExpression name else .undefined name) span) stack
  | uninitialized {stack file iota name span symbol} : scope.const? name = some symbol → symbol.value = none →
      scope.Evaluates stack file iota (.name none name span) (invalid (.missingInitializer name) symbol.span) stack
  | cycle {stack file iota name span symbol e} : scope.const? name = some symbol → symbol.value = some e →
      name ∈ stack →
        scope.Evaluates stack file iota (.name none name span) (invalid (.initializationCycle name) span) stack
  | declared {stack file iota name span symbol e r rest} : scope.const? name = some symbol → symbol.value = some e →
      name ∉ stack → scope.Evaluates (name :: stack) symbol.file (some symbol.iota) e r rest →
        scope.Evaluates stack file iota (.name none name span) r rest.tail
  | convert {stack file iota x span r rest} : scope.Evaluates stack file iota x r rest →
      scope.Evaluates stack file iota (.convert x span) r rest
  | unary {stack file iota op x span r rest} : scope.Evaluates stack file iota x r rest →
      scope.Evaluates stack file iota (.unary op x span) (r >>= fun a => Constant.unary op a span) rest
  | logical {stack file iota l r span} :
      scope.Evaluates stack file iota (.binary .logical l r span) (invalid .notInteger span) stack
  | left {stack file iota op l r span u rest} : op ≠ .logical → scope.Evaluates stack file iota l (.error u) rest →
      scope.Evaluates stack file iota (.binary op l r span) (.error u) rest
  | binary {stack file iota op l r span a q next rest} : op ≠ .logical →
      scope.Evaluates stack file iota l (.ok a) next → scope.Evaluates next file iota r q rest →
        scope.Evaluates stack file iota (.binary op l r span) (q >>= fun b => Constant.binary op a b span) rest
  | other {stack file iota span} :
      scope.Evaluates stack file iota (.other span) (invalid .notInteger span) stack

/-- What an evaluator is called with. -/
structure Query where
  expr : Expr
  file : Nat
  iota : Option Nat

/-- The result that a new evaluator gives. -/
def answer (scope : Scope) (q : Query) : Result := scope.value q.expr q.file q.iota

/-- Whether calls of one evaluator, each with the stack that the one before it leaves, end with some results. -/
inductive Session (scope : Scope) : List String → List Query → List Result → List String → Prop
  | nil {stack} : scope.Session stack [] [] stack
  | cons {stack q qs r rs next rest} : scope.Evaluates stack q.file q.iota q.expr r next →
      scope.Session next qs rs rest → scope.Session stack (q :: qs) (r :: rs) rest

variable {scope : Scope} {depth : Nat} {stack rest : List String} {file : Nat} {iota : Option Nat} {e : Expr}
  {r : Result} {name : String} {span : Span}

/-! ## Calls and evaluation by depth -/

/-- A name on no stack is evaluated as its declaration is, with the name on the stack. -/
theorem valueOfName_declared {symbol : ConstSymbol} (hsymbol : scope.const? name = some symbol)
    (hvalue : symbol.value = some e) (hmem : name ∉ stack) :
    valueOfName scope (depth + 1) stack file name span =
      (valueWith scope (valueOfName scope depth (name :: stack) symbol.file) symbol.file (some symbol.iota) e :
        Result) := by
  rw [valueOfName]
  simp only [hsymbol, hvalue, hmem, ↓reduceIte]

/-- A call has no result but the one by depth, and leaves the stack as it was. -/
theorem Evaluates.eq (h : scope.Evaluates stack file iota e r rest)
    (hstack : scope.Evaluating depth stack e.constants) :
    r = valueWith scope (valueOfName scope depth stack file) file iota e ∧ rest = stack := by
  induction h generalizing depth with
  | int | iota | iotaOutside | logical | other => exact ⟨rfl, rfl⟩
  | qualified => exact ⟨valueWith_qualified.symm, rfl⟩
  | undeclared hsymbol =>
    rw [valueWith, valueOfName.eq_def, hsymbol]
    exact ⟨rfl, rfl⟩
  | uninitialized hsymbol hvalue =>
    rw [valueWith, valueOfName.eq_def]
    simp only [hsymbol, hvalue, inFile_plain, and_self]
  | cycle hsymbol hvalue hmem =>
    rw [valueWith, valueOfName.eq_def]
    simp only [hsymbol, hvalue, hmem, ↓reduceIte, inFile_plain, and_self]
  | declared hsymbol hvalue hmem _ ih =>
    obtain ⟨depth', rfl, hinner⟩ := hstack.enter_of_not_mem hmem hsymbol hvalue
    obtain ⟨rfl, rfl⟩ := ih hinner
    exact ⟨(valueOfName_declared hsymbol hvalue hmem).symm, rfl⟩
  | convert _ ih => exact ih hstack
  | unary _ ih =>
    obtain ⟨rfl, rfl⟩ := ih hstack
    exact ⟨(valueWith_unary ..).symm, rfl⟩
  | left hop _ ih =>
    obtain ⟨hleft, rfl⟩ := ih (hstack.of_subset (List.subset_append_left ..))
    rw [valueWith_binary hop, ← hleft]
    exact ⟨rfl, rfl⟩
  | binary hop _ _ ihl ihr =>
    obtain ⟨hleft, rfl⟩ := ihl (hstack.of_subset (List.subset_append_left ..))
    obtain ⟨rfl, rfl⟩ := ihr (hstack.of_subset (List.subset_append_right ..))
    rw [valueWith_binary hop, ← hleft]
    exact ⟨rfl, rfl⟩

/-- Where calls for the names in an expression end, the call for the expression does. -/
theorem evaluates_of_names {names : String → Span → Result}
    (hnames : ∀ name ∈ e.constants, ∀ span,
      scope.Evaluates stack file iota (.name none name span) (names name span) stack) :
    scope.Evaluates stack file iota e (valueWith scope names file iota e) stack := by
  induction e with
  | int v span => exact .int
  | name package name span =>
    cases package with
    | none => exact hnames name (List.mem_singleton_self name) span
    | some package => exact valueWith_qualified ▸ .qualified
  | iota span =>
    cases iota with
    | none => exact .iotaOutside
    | some i => exact .iota
  | unary op x span ih => exact valueWith_unary op x ▸ .unary (ih hnames)
  | binary op l r span ihl ihr =>
    by_cases hop : op = .logical
    · obtain rfl := hop
      exact .logical
    · have hleft := ihl fun name hname => hnames name (List.mem_append_left _ hname)
      have hright := ihr fun name hname => hnames name (List.mem_append_right _ hname)
      rw [valueWith_binary hop]
      cases hl : valueWith scope names file iota l with
      | error u => exact .left hop (hl ▸ hleft)
      | ok a => exact .binary hop (hl ▸ hleft) hright
  | convert x span ih => exact .convert (ih hnames)
  | other span => exact .other

/-- A call for a name that the stack leads to ends: the stack only grows by constants that are not on it. -/
theorem Evaluating.evaluates_name (h : scope.Evaluating depth stack [name]) :
    scope.Evaluates stack file iota (.name none name span) (valueOfName scope depth stack file name span) stack := by
  induction depth using Nat.strongRecOn generalizing stack file iota name span with
  | ind depth ih =>
    cases hsymbol : scope.const? name with
    | none =>
      rw [valueOfName.eq_def, hsymbol]
      exact .undeclared hsymbol
    | some symbol =>
      cases hvalue : symbol.value with
      | none =>
        rw [valueOfName.eq_def]
        simp only [hsymbol, hvalue]
        exact .uninitialized hsymbol hvalue
      | some e =>
        by_cases hmem : name ∈ stack
        · rw [valueOfName.eq_def]
          simp only [hsymbol, hvalue, hmem, ↓reduceIte]
          exact .cycle hsymbol hvalue hmem
        · obtain ⟨depth', rfl, hinner⟩ := h.enter_of_not_mem hmem hsymbol hvalue
          rw [valueOfName_declared hsymbol hvalue hmem]
          refine .declared hsymbol hvalue hmem (evaluates_of_names fun m hm place => ?_)
          exact ih depth' (Nat.lt_succ_self depth') (hinner.of_mem hm)

theorem Evaluating.evaluates (h : scope.Evaluating depth stack e.constants) :
    scope.Evaluates stack file iota e (valueWith scope (valueOfName scope depth stack file) file iota e) stack :=
  evaluates_of_names fun _ hname _ => (h.of_mem hname).evaluates_name

/-- Calls of a new evaluator end with the results of new evaluators, and with an empty stack. -/
theorem session_iff {qs : List Query} {rs : List Result} :
    scope.Session [] qs rs rest ↔ rs = qs.map scope.answer ∧ rest = [] := by
  induction qs generalizing rs with
  | nil =>
    constructor
    · rintro ⟨⟩
      exact ⟨rfl, rfl⟩
    · rintro ⟨rfl, rfl⟩
      exact .nil
  | cons q qs ih =>
    constructor
    · rintro (_ | ⟨hcall, hcalls⟩)
      obtain ⟨rfl, rfl⟩ := hcall.eq (.start scope q.expr.constants)
      obtain ⟨rfl, rfl⟩ := ih.1 hcalls
      exact ⟨rfl, rfl⟩
    · rintro ⟨rfl, rfl⟩
      exact .cons (Evaluating.start scope q.expr.constants).evaluates (ih.2 ⟨rfl, rfl⟩)

/-! ## Cycles -/

/-- Whether the names in an expression lead to a constant. -/
def Reaches (scope : Scope) (e : Expr) (n : String) : Prop :=
  ∃ name ∈ e.constants, Relation.ReflTransGen scope.Mentions name n

/-- A name that fails as a cycle leads to a constant that leads to itself. -/
theorem Evaluating.transGen_of_cycle (h : scope.Evaluating depth stack [name]) {u : Unresolved} {n : String}
    (hfails : valueOfName scope depth stack file name span = .error u) (hu : u.cycle? = some n) :
    Relation.ReflTransGen scope.Mentions name n ∧ Relation.TransGen scope.Mentions n n := by
  induction depth using Nat.strongRecOn generalizing stack file name span with
  | ind depth ih =>
    rcases valueOfName_eq_error hfails with hplain | ⟨symbol, e, hsymbol, hvalue, ⟨hend, rfl⟩ | ⟨hmem, hinner⟩⟩
    · simp [hplain.cycle?_eq] at hu
    · obtain rfl := Option.some.inj hu
      have hmem : name ∈ stack := by
        by_contra hmem
        obtain ⟨depth', rfl, -⟩ := h.enter_of_not_mem hmem hsymbol hvalue
        exact hend.elim hmem (Nat.succ_ne_zero depth')
      exact ⟨.refl, h.leads name hmem name (List.mem_singleton_self name)⟩
    · obtain ⟨depth', rfl, he⟩ := hinner
      obtain ⟨_, hdepth, hnext⟩ := h.enter_of_not_mem hmem hsymbol hvalue
      obtain rfl := Nat.succ.inj hdepth
      rcases plain_or_exists_of_valueWith he with hplain | ⟨m, hm, place, hfails⟩
      · simp [hplain.cycle?_eq] at hu
      · obtain ⟨hpath, hcycle⟩ := ih depth' (Nat.lt_succ_self depth') (hnext.of_mem hm) hfails
        exact ⟨.head ⟨symbol, e, hsymbol, hvalue, hm⟩ hpath, hcycle⟩

/-- A failure as a cycle is about a constant that is reached and leads to itself. -/
theorem reaches_of_cycle {u : Unresolved} {n : String} (h : scope.value e file iota = .error u)
    (hu : u.cycle? = some n) : scope.Reaches e n ∧ Relation.TransGen scope.Mentions n n := by
  rcases plain_or_exists_of_valueWith h with hplain | ⟨name, hname, place, hfails⟩
  · simp [hplain.cycle?_eq] at hu
  · obtain ⟨hpath, hcycle⟩ := (Evaluating.start scope [name]).transGen_of_cycle hfails hu
    exact ⟨⟨name, hname, hpath⟩, hcycle⟩

/-- A name with a value leads to nothing that goes on and on. -/
theorem acc_of_valueOfName {v : Int} (h : valueOfName scope depth stack file name span = .ok v) :
    Acc (fun m n => scope.Mentions n m) name := by
  induction depth using Nat.strongRecOn generalizing stack file name span v with
  | ind depth ih =>
    obtain ⟨symbol, e, depth', hsymbol, hvalue, -, rfl, he⟩ := valueOfName_iff.1 h
    refine acc_of_constants hsymbol hvalue fun m hm => ?_
    obtain ⟨place, w, hw⟩ := exists_value_of_mem_constants he hm
    exact ih depth' (Nat.lt_succ_self depth') hw

/-- What an expression with a value reaches leads to no cycle. -/
theorem Reaches.not_transGen {n : String} {v : Int} (hn : scope.Reaches e n) (h : scope.value e file iota = .ok v) :
    ¬ Relation.TransGen scope.Mentions n n := by
  obtain ⟨name, hname, hpath⟩ := hn
  obtain ⟨place, w, hw⟩ := exists_value_of_mem_constants h hname
  have hacc : Acc (fun m n => scope.Mentions n m) n := by
    induction hpath with
    | refl => exact acc_of_valueOfName hw
    | tail _ hstep ih => exact ih.inv hstep
  exact not_transGen_of_acc hacc

/-- An evaluator has no memory and finds exactly the real cycles. However often it is called and whatever failed
    before, every call ends, each with the result that a new evaluator gives, and its stack is empty again. A failure as
    a cycle names a constant that the expression reaches and that leads to itself. A value is only given where no
    constant that the expression reaches lies on a cycle. -/
theorem session_memoryless (scope : Scope) :
    (∀ qs rs rest, scope.Session [] qs rs rest ↔ rs = qs.map scope.answer ∧ rest = []) ∧
      ∀ q : Query,
        (∀ n span, scope.answer q = .error (.invalid ⟨.initializationCycle n, span⟩) →
          scope.Reaches q.expr n ∧ Relation.TransGen scope.Mentions n n) ∧
        ∀ v, scope.answer q = .ok v → ∀ n, scope.Reaches q.expr n → ¬ Relation.TransGen scope.Mentions n n :=
  ⟨fun _ _ _ => session_iff, fun _ => ⟨fun _ _ h => reaches_of_cycle h rfl, fun _ h _ hn => hn.not_transGen h⟩⟩

/-- Two constants that are declared by each other, and one beside them. -/
def entwinedScope : Scope where
  types := []
  consts := [("left", ⟨0, some (.binary .add (.name none "right" default) (.int 1 default) default), 0, default⟩),
    ("right", ⟨0, some (.name none "left" default), 0, default⟩), ("free", ⟨0, some (.int 3 default), 0, default⟩)]
  imports := [[]]

theorem session_memoryless_entwined :
    entwinedScope.Session [] [⟨.name none "left" default, 0, none⟩, ⟨.name none "free" default, 0, none⟩]
        [.error (.invalid ⟨.initializationCycle "left", default⟩), .ok 3] [] ∧
      Relation.TransGen entwinedScope.Mentions "left" "left" ∧
      ¬ Relation.TransGen entwinedScope.Mentions "free" "free" := by
  obtain ⟨hsession, hcycles⟩ := entwinedScope.session_memoryless
  refine ⟨(hsession _ _ _).2 ⟨rfl, rfl⟩, ?_, ?_⟩
  · exact ((hcycles ⟨.name none "left" default, 0, none⟩).1 "left" default rfl).2
  · have hfree : entwinedScope.Reaches (.name none "free" default) "free" := ⟨_, List.mem_singleton_self _, .refl⟩
    exact (hcycles ⟨.name none "free" default, 0, none⟩).2 3 rfl "free" hfree

end Scope

end StructPadding
