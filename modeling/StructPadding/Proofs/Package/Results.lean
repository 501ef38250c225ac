-- SUMMARY: What the result of evaluating a constant expression says of its parts and of the names in it.
import StructPadding.Package.Constant

/-!
# Results

An expression has a value where its parts and the names in it have. It fails where one of them does, or on its own
account, which is then no matter of anything that goes round. A name fails on its own account where it is not
declared with a value, or where it is being evaluated already.
-/

namespace StructPadding

/-- The names of constants of the package in an expression. -/
def Expr.constants : Expr → List String
  | .name none n _ => [n]
  | .unary _ x _ | .convert x _ => x.constants
  | .binary _ l r _ => l.constants ++ r.constants
  | .int .. | .name (some _) _ _ | .iota _ | .other _ => []

namespace Unresolved

/-- The type that a failure says to be recursive. -/
def recursion? : Unresolved → Option String
  | .invalid ⟨.recursiveType name, _⟩ => some name
  | _ => none

/-- The constant that a failure says to refer to itself. -/
def cycle? : Unresolved → Option String
  | .invalid ⟨.initializationCycle name, _⟩ => some name
  | _ => none

/-- Whether a failure is about neither a recursive type nor a cycle of constants. -/
structure Plain (u : Unresolved) : Prop where
  recursion?_eq : u.recursion? = none
  cycle?_eq : u.cycle? = none

end Unresolved

namespace Constant

variable {scope : Scope} {names : String → Span → Result} {file : Nat} {iota : Option Nat} {span : Span} {v : Int}
  {u : Unresolved}

theorem bind_ok_iff {r : Result} {f : Int → Result} : r >>= f = .ok v ↔ ∃ a, r = .ok a ∧ f a = .ok v := by
  cases r <;> simp [bind, Except.bind]

theorem bind_error_iff {r : Result} {f : Int → Result} :
    r >>= f = .error u ↔ r = .error u ∨ ∃ a, r = .ok a ∧ f a = .error u := by
  cases r <;> simp [bind, Except.bind]

/-! ## Values -/

theorem valueWith_qualified {package name : String} :
    valueWith scope names file iota (.name (some package) name span) = qualified scope file package name span :=
  inFile_plain ..

theorem valueWith_unary (op : UnaryOp) (x : Expr) :
    valueWith scope names file iota (.unary op x span) =
      valueWith scope names file iota x >>= fun a => unary op a span := by
  simp only [valueWith, inFile_plain]

theorem valueWith_unary_iff {op : UnaryOp} {x : Expr} :
    valueWith scope names file iota (.unary op x span) = .ok v ↔
      ∃ a, valueWith scope names file iota x = .ok a ∧ unary op a span = .ok v := by
  rw [valueWith_unary, bind_ok_iff]

/-- Comparisons and logical connectives aside, a binary operation is applied to the values of its operands. -/
theorem valueWith_binary {op : BinaryOp} (hop : op ≠ .logical) (l r : Expr) :
    valueWith scope names file iota (.binary op l r span) =
      valueWith scope names file iota l >>= fun a => valueWith scope names file iota r >>= fun b =>
        binary op a b span := by
  cases op with
  | logical => exact absurd rfl hop
  | _ => simp only [valueWith, inFile_plain]

theorem valueWith_binary_iff {op : BinaryOp} {l r : Expr} :
    valueWith scope names file iota (.binary op l r span) = .ok v ↔
      ∃ a b, valueWith scope names file iota l = .ok a ∧ valueWith scope names file iota r = .ok b ∧
        binary op a b span = .ok v := by
  cases op with
  | logical =>
    constructor
    · intro h
      cases h
    · rintro ⟨a, b, -, -, h⟩
      cases h
  | _ => simp only [valueWith, inFile_plain, bind_ok_iff, exists_and_left]

theorem qualified_iff {package name : String} :
    qualified scope file package name span = .ok v ↔
      ∃ path, scope.importPath? file package = some path ∧ Library.const? path name = some v := by
  unfold qualified
  split
  · next hpath => simp [hpath, invalid]
  · next path hpath =>
    split
    · next w hconst => simp [hpath, hconst]
    · next hconst => simp [hpath, hconst]

/-- A name is evaluated by evaluating its declaration, while it is not being evaluated already. -/
theorem valueOfName_iff {depth : Nat} {evaluating : List String} {name : String} :
    valueOfName scope depth evaluating file name span = .ok v ↔
      ∃ symbol e depth', scope.const? name = some symbol ∧ symbol.value = some e ∧ name ∉ evaluating ∧
        depth = depth' + 1 ∧
          valueWith scope (valueOfName scope depth' (name :: evaluating) symbol.file) symbol.file (some symbol.iota) e =
            .ok v := by
  rw [valueOfName.eq_def]
  split
  · next hsymbol => simp [hsymbol, invalid]
  · next symbol hsymbol =>
    split
    · next hvalue => simp [hsymbol, hvalue, invalid]
    · next e hvalue =>
      split
      · next hmem => simp [hmem, invalid]
      · next hmem => cases depth <;> simp [hsymbol, hvalue, hmem, invalid]

/-- An expression with a value has no name without one. -/
theorem exists_value_of_mem_constants {e : Expr} (h : valueWith scope names file iota e = .ok v) {name : String}
    (hname : name ∈ e.constants) : ∃ place w, names name place = .ok w := by
  induction e generalizing v with
  | name package n place =>
    cases package with
    | none =>
      obtain rfl := List.mem_singleton.1 hname
      exact ⟨place, v, h⟩
    | some package => cases hname
  | int | iota | other => cases hname
  | unary op x place ih =>
    obtain ⟨a, hx, -⟩ := valueWith_unary_iff.1 h
    exact ih hx hname
  | binary op l r place ihl ihr =>
    obtain ⟨a, b, hl, hr, -⟩ := valueWith_binary_iff.1 h
    exact (List.mem_append.1 hname).elim (ihl hl) (ihr hr)
  | convert x place ih => exact ih h hname

/-! ## Failures -/

theorem plain_of_inRange {r : Option Int} (h : inRange span r = .error u) : u.Plain := by
  cases r with
  | none =>
    cases h
    exact ⟨rfl, rfl⟩
  | some v => cases h

theorem plain_of_unary {op : UnaryOp} (h : unary op v span = .error u) : u.Plain := by
  cases op with
  | plus | complement => cases h
  | neg => exact plain_of_inRange h
  | not =>
    cases h
    exact ⟨rfl, rfl⟩

theorem plain_of_binary {op : BinaryOp} {a b : Int} (h : binary op a b span = .error u) : u.Plain := by
  cases op with
  | add | sub | mul | shl | shr => exact plain_of_inRange h
  | div | rem =>
    simp only [binary] at h
    split at h
    · cases h
      exact ⟨rfl, rfl⟩
    · exact plain_of_inRange h
  | and | or | xor | andNot => cases h
  | logical =>
    cases h
    exact ⟨rfl, rfl⟩

theorem plain_of_qualified {package name : String} (h : qualified scope file package name span = .error u) :
    u.Plain := by
  unfold qualified at h
  split at h
  · cases h
    exact ⟨rfl, rfl⟩
  · split at h
    · cases h
    · cases h
      exact ⟨rfl, rfl⟩

/-- An expression fails on its own account, or with a name in it. -/
theorem plain_or_exists_of_valueWith {e : Expr} (h : valueWith scope names file iota e = .error u) :
    u.Plain ∨ ∃ name ∈ e.constants, ∃ place, names name place = .error u := by
  induction e with
  | int w place => cases h
  | name package name place =>
    cases package with
    | none => exact .inr ⟨name, List.mem_singleton_self name, place, h⟩
    | some package => exact .inl (plain_of_qualified (valueWith_qualified.symm.trans h))
  | iota place =>
    cases iota with
    | none =>
      cases h
      exact .inl ⟨rfl, rfl⟩
    | some i => cases h
  | unary op x place ih =>
    rw [valueWith_unary, bind_error_iff] at h
    rcases h with hx | ⟨a, -, hop⟩
    · exact ih hx
    · exact .inl (plain_of_unary hop)
  | binary op l r place ihl ihr =>
    by_cases hlogical : op = .logical
    · obtain rfl := hlogical
      cases h
      exact .inl ⟨rfl, rfl⟩
    · rw [valueWith_binary hlogical, bind_error_iff] at h
      rcases h with hl | ⟨a, -, h⟩
      · refine (ihl hl).imp id ?_
        rintro ⟨name, hname, hfails⟩
        exact ⟨name, List.mem_append_left _ hname, hfails⟩
      · rcases bind_error_iff.1 h with hr | ⟨b, -, hop⟩
        · refine (ihr hr).imp id ?_
          rintro ⟨name, hname, hfails⟩
          exact ⟨name, List.mem_append_right _ hname, hfails⟩
        · exact .inl (plain_of_binary hop)
  | convert x place ih => exact ih h
  | other place =>
    cases h
    exact .inl ⟨rfl, rfl⟩

/-- A name fails on its own account, as one that is being evaluated already or for want of depth, or with its
    declaration. -/
theorem valueOfName_eq_error {depth : Nat} {evaluating : List String} {name : String}
    (h : valueOfName scope depth evaluating file name span = .error u) :
    u.Plain ∨ ∃ symbol e, scope.const? name = some symbol ∧ symbol.value = some e ∧
      ((name ∈ evaluating ∨ depth = 0) ∧ u = .invalid ⟨.initializationCycle name, span⟩ ∨
        name ∉ evaluating ∧ ∃ depth', depth = depth' + 1 ∧
          valueWith scope (valueOfName scope depth' (name :: evaluating) symbol.file) symbol.file (some symbol.iota) e =
            .error u) := by
  rw [valueOfName.eq_def] at h
  split at h
  · left
    split at h <;> cases h <;> exact ⟨rfl, rfl⟩
  · next symbol hsymbol =>
    split at h
    · cases h
      exact .inl ⟨rfl, rfl⟩
    · next e hvalue =>
      refine .inr ⟨symbol, e, hsymbol, hvalue, ?_⟩
      split at h
      · next hmem =>
        cases h
        exact .inl ⟨.inl hmem, rfl⟩
      · next hmem =>
        cases depth with
        | zero =>
          cases h
          exact .inl ⟨.inr rfl, rfl⟩
        | succ depth => exact .inr ⟨hmem, depth, rfl, h⟩

end Constant

end StructPadding
