-- SUMMARY: A call of a name with one argument has the value of the argument, whatever is called; other calls have none.
import StructPadding.Proofs.Package.Evaluation
import StructPadding.Proofs.Parse.RenderedExpr

/-!
# Calls in constant expressions

What a name denotes is not known to the parser, and a conversion of a number looks like a call of a function. The parser
takes each call of a name with one argument for a conversion, and the evaluation follows it: such a call may be replaced
by its argument. Every other call is opaque, and an expression with something opaque in it has no value.
-/

namespace StructPadding

namespace Expr

/-- The expression with the argument in the place of every call that is taken for a conversion. -/
def uncalled : Expr → Expr
  | .unary op x span => .unary op x.uncalled span
  | .binary op l r span => .binary op l.uncalled r.uncalled span
  | .convert x _ => x.uncalled
  | .int v span => .int v span
  | .name package n span => .name package n span
  | .iota span => .iota span
  | .other span => .other span

/-- Whether an operand of the expression, or of an argument in it, is opaque. -/
def hasOpaque : Expr → Bool
  | .unary _ x _ | .convert x _ => x.hasOpaque
  | .binary _ l r _ => l.hasOpaque || r.hasOpaque
  | .other _ => true
  | .int .. | .name .. | .iota _ => false

theorem hasOpaque_unplaced (e : Expr) : e.unplaced.hasOpaque = e.hasOpaque := by
  induction e with
  | unary op x span ih => exact ih
  | convert x span ih => exact ih
  | binary op l r span ihl ihr => simp only [unplaced, hasOpaque, ihl, ihr]
  | int | name | iota | other => rfl

theorem eq_other_of_unplaced {e : Expr} {span : Span} (h : e.unplaced = .other span) : e = .other e.span := by
  cases e <;> first | rfl | cases h

end Expr

namespace Constant

variable {scope : Scope} {names : String → Span → Result} {file : Nat} {iota : Option Nat} {span span' : Span}

/-! ## Places -/

theorem unary_eq_ok_iff {op : UnaryOp} {a v : Int} (span span' : Span) :
    unary op a span = .ok v ↔ unary op a span' = .ok v := by
  cases op <;> simp [unary, inRange_eq_ok_iff, invalid]

theorem binary_eq_ok_iff {op : BinaryOp} {a b v : Int} (span span' : Span) :
    binary op a b span = .ok v ↔ binary op a b span' = .ok v := by
  cases op with
  | div | rem =>
    simp only [binary]
    split <;> simp [inRange_eq_ok_iff, invalid]
  | _ => simp [binary, inRange_eq_ok_iff, invalid]

theorem qualified_eq_ok_iff {package name : String} {v : Int} (span span' : Span) :
    qualified scope file package name span = .ok v ↔ qualified scope file package name span' = .ok v := by
  rw [qualified_iff, qualified_iff]

theorem valueOfName_eq_ok_iff {depth : Nat} {evaluating : List String} {name : String} {v : Int} (span span' : Span) :
    valueOfName scope depth evaluating file name span = .ok v ↔
      valueOfName scope depth evaluating file name span' = .ok v := by
  rw [valueOfName_iff, valueOfName_iff]

/-- The places in an expression have no part in its value. -/
theorem valueWith_unplaced_eq_ok_iff
    (hnames : ∀ {name span v} (span' : Span), names name span = .ok v ↔ names name span' = .ok v) {e : Expr} {v : Int} :
    valueWith scope names file iota e.unplaced = .ok v ↔ valueWith scope names file iota e = .ok v := by
  induction e generalizing v with
  | int | other => simp [Expr.unplaced, valueWith, invalid]
  | iota span => cases iota <;> simp [Expr.unplaced, valueWith, invalid]
  | name package name span =>
    cases package with
    | none => exact hnames span
    | some package =>
      rw [Expr.unplaced, valueWith_qualified, valueWith_qualified]
      exact qualified_eq_ok_iff default span
  | unary op x span ih =>
    simp only [Expr.unplaced, valueWith_unary_iff, ih, unary_eq_ok_iff default span]
  | binary op l r span ihl ihr =>
    simp only [Expr.unplaced, valueWith_binary_iff, ihl, ihr, binary_eq_ok_iff default span]
  | convert x span ih => exact ih

/-! ## Calls -/

/-- A call that is taken for a conversion may be replaced by its argument, anywhere in an expression. -/
theorem valueWith_uncalled (e : Expr) :
    valueWith scope names file iota e.uncalled = valueWith scope names file iota e := by
  induction e with
  | int | name | iota | other => rfl
  | unary op x span ih => simp only [Expr.uncalled, valueWith, ih]
  | binary op l r span ihl ihr =>
    by_cases hop : op = .logical
    · obtain rfl := hop
      rfl
    · rw [Expr.uncalled, valueWith_binary hop, valueWith_binary hop, ihl, ihr]
  | convert x span ih => exact ih

/-- An expression with something opaque in it has no value. -/
theorem not_hasOpaque_of_valueWith {e : Expr} {v : Int} (h : valueWith scope names file iota e = .ok v) :
    e.hasOpaque = false := by
  induction e generalizing v with
  | int | name | iota => rfl
  | other span => cases h
  | unary op x span ih =>
    obtain ⟨a, hx, -⟩ := valueWith_unary_iff.1 h
    exact ih hx
  | binary op l r span ihl ihr =>
    obtain ⟨a, b, hl, hr, -⟩ := valueWith_binary_iff.1 h
    rw [Expr.hasOpaque, ihl hl, ihr hr]
    rfl
  | convert x span ih => exact ih h

end Constant

namespace Scope

variable {scope : Scope} {file : Nat} {iota : Option Nat} {e e' : Expr}

theorem value_unplaced_eq_ok_iff {v : Int} :
    scope.value e.unplaced file iota = .ok v ↔ scope.value e file iota = .ok v := by
  apply Constant.valueWith_unplaced_eq_ok_iff
  intro name span v span'
  exact Constant.valueOfName_eq_ok_iff span span'

theorem value_eq_ok_iff_of_unplaced (h : e'.unplaced = e.unplaced) {v : Int} :
    scope.value e' file iota = .ok v ↔ scope.value e file iota = .ok v := by
  rw [← value_unplaced_eq_ok_iff, h, value_unplaced_eq_ok_iff]

theorem value_uncalled (e : Expr) : scope.value e.uncalled file iota = scope.value e file iota :=
  Constant.valueWith_uncalled e

theorem exists_error_of_hasOpaque (h : e.hasOpaque = true) : ∃ u, scope.value e file iota = .error u := by
  cases hv : scope.value e file iota with
  | error u => exact ⟨u, rfl⟩
  | ok v => exact absurd (Constant.not_hasOpaque_of_valueWith hv) (by simp [h])

end Scope

/-! ## Written calls -/

/-- Whether a name stands, in a file, for a function of the language that gives a number: two that are always there, and
    three of the package `unsafe`. -/
def Scope.NamesFunction (scope : Scope) (file : Nat) (package : Option String) (name : String) : Prop :=
  match package with
  | none => name ∈ ["len", "cap"]
  | some package => scope.importPath? file package = some "unsafe" ∧ name ∈ ["Sizeof", "Alignof", "Offsetof"]

namespace Parser

open Token (Kind Event)

/-- A call that is not of a name, or has not exactly one argument, is opaque. -/
theorem applied_eq_other {callee : Expr} {args : List Expr} (h : callee.isName = false ∨ args.length ≠ 1)
    (span : Span) : applied callee (some args) span = .other span := by
  rcases args with _ | ⟨x, _ | ⟨y, ys⟩⟩
  · rfl
  · simp_all [applied]
  · rfl

theorem applied_eq_convert {callee : Expr} (h : callee.isName = true) (x : Expr) (span : Span) :
    applied callee (some [x]) span = .convert x span := by
  simp only [applied, h, ↓reduceIte]

/-- How calls in constant expressions are evaluated. Whatever is written with calls is read. Each call of a name with
    one argument may be replaced by the argument, be it a conversion or not; where any other call is, or something else
    that is opaque, there is no value. For one call alone this says that it has the value of its argument where it is of
    a name and has one, and that it fails at its own place otherwise. -/
theorem calls_evaluated {e : Expr} {ts : List Token} {rest : List Event} {s : State} {depth : Nat}
    (hts : ExprForm.Renders (.expr 1 e) (ts.map (·.kind))) (hrest : EndsExpr rest)
    (hs : s.stream.events = ts.map .ok ++ rest) (hdepth : s.remaining < depth) (scope : Scope) (file : Nat)
    (iota : Option Nat) :
    ∃ e' t, (Grammar.ofDepth depth).expr 1 s = .ok e' t ∧ t.stream.events = rest ∧
      (∀ v, scope.value e' file iota = .ok v ↔ scope.value e.uncalled file iota = .ok v) ∧
      (e.hasOpaque = true → ∃ u, scope.value e' file iota = .error u) ∧
      ∀ (callee : Expr) (args : List Expr) (span : Span), e = applied callee (some args) span →
        (∀ x, callee.isName = true → args = [x] →
          ∀ v, scope.value e' file iota = .ok v ↔ scope.value x file iota = .ok v) ∧
        (callee.isName = false ∨ args.length ≠ 1 →
          scope.value e' file iota = Constant.invalid .notInteger e'.span) := by
  have hes : Writes (ts.map (·.kind)) s.stream.events rest := ⟨ts, hs, rfl⟩
  have hlength := hes.length_eq
  have hremaining : s.remaining = s.stream.events.length := rfl
  have hparses := parses_expr_of_readsExprForm hts depth (readsExprTokens_of_renders hts) (by omega) hes hrest
  obtain ⟨e', t, hres, hsame, hleft⟩ := hparses s rfl
  have hvalue : ∀ v, scope.value e' file iota = .ok v ↔ scope.value e file iota = .ok v :=
    fun v => Scope.value_eq_ok_iff_of_unplaced hsame
  refine ⟨e', t, hres, hleft, ?_, ?_, ?_⟩
  · simpa only [Scope.value_uncalled] using hvalue
  · intro hopaque
    rw [← Expr.hasOpaque_unplaced, ← hsame, Expr.hasOpaque_unplaced] at hopaque
    exact Scope.exists_error_of_hasOpaque hopaque
  · rintro callee args span rfl
    refine ⟨?_, fun hother => ?_⟩
    · rintro x hname rfl v
      rw [hvalue, applied_eq_convert hname]
      rfl
    · rw [applied_eq_other hother] at hsame
      rw [Expr.eq_other_of_unplaced hsame]
      rfl

theorem endsExpr_semi {span : Span} {rest : List Event} : EndsExpr (.ok ⟨.symbol .semi, span⟩ :: rest) :=
  ⟨_, rfl, by simp, by simp, rfl⟩

/-- A number and three times a call of a call. -/
def lengthSum : Expr :=
  let cap := applied (.name none "cap" default) (some [.int 2 default]) default
  let len := applied (.name none "len" default) (some [cap]) default
  .binary .add (.int 1 default) (.binary .mul len (.int 3 default) default) default

def lengthSumTokens : List Token :=
  [⟨.literal .int "1", ⟨0, 1⟩⟩, ⟨.symbol .plus, ⟨2, 3⟩⟩, ⟨.identifier "len", ⟨4, 7⟩⟩, ⟨.symbol .lParen, ⟨7, 8⟩⟩,
   ⟨.identifier "cap", ⟨8, 11⟩⟩, ⟨.symbol .lParen, ⟨11, 12⟩⟩, ⟨.literal .int "2", ⟨12, 13⟩⟩,
   ⟨.symbol .rParen, ⟨13, 14⟩⟩, ⟨.symbol .comma, ⟨14, 15⟩⟩, ⟨.symbol .rParen, ⟨15, 16⟩⟩, ⟨.symbol .star, ⟨17, 18⟩⟩,
   ⟨.literal .int "3", ⟨19, 20⟩⟩]

theorem calls_evaluated_lengthSum :
    ∃ e t, (Grammar.ofDepth 20).expr 1 (.ofSource "1 + len(cap(2),) * 3;") = .ok e t ∧
      t.stream.events = [.ok ⟨.symbol .semi, ⟨20, 21⟩⟩] ∧ Scope.empty.value e 0 none = .ok 7 := by
  have hone : Literal.int? "1" = some 1 := rfl
  have htwo : Literal.int? "2" = some 2 := rfl
  have hthree : Literal.int? "3" = some 3 := rfl
  have hcap : ExprForm.Renders (.primary (applied (.name none "cap" default) (some [.int 2 default]) default)) _ :=
    .call (.name (by decide)) (.oneArg (.primary (.int htwo)))
  have hlen : ExprForm.Renders (.primary (applied (.name none "len" default) (some [_]) default)) _ :=
    .call (.name (by decide)) (.nextArg (.primary hcap) .noArgs)
  have hsum : ExprForm.Renders (.expr 1 lengthSum) (lengthSumTokens.map (·.kind)) :=
    .binary (by decide) (.primary (.int hone))
      (.binary (by decide) (.primary hlen) (.primary (.int hthree)))
  have hevents : (State.ofSource "1 + len(cap(2),) * 3;").stream.events =
      lengthSumTokens.map .ok ++ [.ok ⟨.symbol .semi, ⟨20, 21⟩⟩] := rfl
  have hdepth : (State.ofSource "1 + len(cap(2),) * 3;").remaining < 20 := by
    rw [State.remaining, hevents]
    decide
  obtain ⟨e, t, hres, hleft, hvalue, -, -⟩ := calls_evaluated hsum endsExpr_semi hevents hdepth .empty 0 none
  exact ⟨e, t, hres, hleft, (hvalue 7).2 rfl⟩

def sizeofTokens : List Token :=
  [⟨.identifier "unsafe", ⟨0, 6⟩⟩, ⟨.symbol .dot, ⟨6, 7⟩⟩, ⟨.identifier "Sizeof", ⟨7, 13⟩⟩,
   ⟨.symbol .lParen, ⟨13, 14⟩⟩, ⟨.identifier "uintptr", ⟨14, 21⟩⟩, ⟨.symbol .lParen, ⟨21, 22⟩⟩,
   ⟨.literal .int "0", ⟨22, 23⟩⟩, ⟨.symbol .rParen, ⟨23, 24⟩⟩, ⟨.symbol .rParen, ⟨24, 25⟩⟩]

/-- The size of a word, which the language gives by a function, is taken for the number that the word is made of. -/
theorem not_all_function_calls_fail :
    ¬ ∀ (scope : Scope) (file : Nat) (iota : Option Nat) (package : Option String) (name : String) (x : Expr)
        (ts : List Token) (rest : List Event) (s : State) (depth : Nat), scope.NamesFunction file package name →
      ExprForm.Renders (.expr 1 (applied (.name package name default) (some [x]) default)) (ts.map (·.kind)) →
        EndsExpr rest → s.stream.events = ts.map .ok ++ rest → s.remaining < depth →
          ∀ e t, (Grammar.ofDepth depth).expr 1 s = .ok e t → ∃ u, scope.value e file iota = .error u := by
  intro h
  have hevents : (State.ofSource "unsafe.Sizeof(uintptr(0));").stream.events =
      sizeofTokens.map .ok ++ [.ok ⟨.symbol .semi, ⟨25, 26⟩⟩] := rfl
  have hremaining : (State.ofSource "unsafe.Sizeof(uintptr(0));").remaining = 10 := by
    rw [State.remaining, hevents]
    rfl
  have hzero : Literal.int? "0" = some 0 := rfl
  have hword : ExprForm.Renders (.primary (applied (.name none "uintptr" default) (some [.int 0 default]) default)) _ :=
    .call (.name (by decide)) (.oneArg (.primary (.int hzero)))
  have hsize : ExprForm.Renders (.primary (applied (.name (some "unsafe") "Sizeof" default) (some [_]) default))
      (sizeofTokens.map (·.kind)) :=
    .call (.name (by decide)) (.oneArg (.primary hword))
  obtain ⟨e, t, hres, hsame, -⟩ := parses_expr_of_readsExprForm (.primary hsize) 20
    (readsExprTokens_of_renders (.primary hsize)) (by decide) ⟨sizeofTokens, hevents, rfl⟩ endsExpr_semi _ rfl
  obtain ⟨u, hu⟩ := h ⟨[], [], [[("unsafe", "unsafe")]]⟩ 0 none (some "unsafe") "Sizeof" _ _ _ _ 20
    ⟨by decide, by decide⟩ (.primary hsize) endsExpr_semi hevents (by rw [hremaining]; decide) e t hres
  have hvalue : Scope.value ⟨[], [], [[("unsafe", "unsafe")]]⟩ e 0 none = .ok 0 :=
    (Scope.value_eq_ok_iff_of_unplaced hsame).2 rfl
  rw [hvalue] at hu
  cases hu

end Parser

end StructPadding
