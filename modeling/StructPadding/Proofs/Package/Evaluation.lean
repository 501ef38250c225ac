-- SUMMARY: Constants evaluate to their values over the whole numbers, and do so wherever these stay small.
import Mathlib.Data.List.Perm.Subperm
import Mathlib.Logic.Relation
import StructPadding.Proofs.Package.Results
import StructPadding.Proofs.Wide

/-!
# Evaluation

The value of a constant expression over the whole numbers is a relation: operations have no bounds there, the bits of a
number go on without end, and a name has the value of its declaration. Evaluation in the wide range has no other values.
Where a value over the whole numbers exists and all numbers on the way to it are small, evaluation reaches it: no
operation leaves the range, and no name is met again while it is being evaluated.
-/

namespace StructPadding

open Wide (Fits)

namespace Constant

/-! ## Operations on whole numbers -/

/-- The value of a unary operation over the whole numbers. -/
def exactUnary? (op : UnaryOp) (v : Int) : Option Int :=
  match op with
  | .plus => some v
  | .neg => some (-v)
  | .complement => some v.lnot
  | .not => none

/-- The value of a binary operation over the whole numbers. Division truncates toward zero, the remainder has the
    sign of the dividend, a right shift rounds down, and the bits are those of two's complement without end. -/
def exactBinary? (op : BinaryOp) (a b : Int) : Option Int :=
  match op with
  | .add => some (a + b)
  | .sub => some (a - b)
  | .mul => some (a * b)
  | .div => if b = 0 then none else some (a.tdiv b)
  | .rem => if b = 0 then none else some (a.tmod b)
  | .shl => if 0 ≤ b then some (a * 2 ^ b.toNat) else none
  | .shr => if 0 ≤ b then some (a / 2 ^ b.toNat) else none
  | .and => some (a.land b)
  | .or => some (a.lor b)
  | .xor => some (a.xor b)
  | .andNot => some (a.ldiff b)
  | .logical => none

/-- Whether the right operand is the number of places to shift by. -/
def isShift : BinaryOp → Bool
  | .shl | .shr => true
  | _ => false

/-- Whether a number and its opposite need no more than 127 bits beside the sign. -/
def Small (v : Int) : Prop := v.natAbs < 2 ^ 127

theorem Small.fits {v : Int} (h : Small v) : Fits v := by
  simp only [Small] at h
  simp only [Fits, Wide.least, Wide.greatest]
  omega

theorem inRange_eq_ok_iff {span : Span} {r : Option Int} {v : Int} : inRange span r = .ok v ↔ r = some v := by
  cases r <;> simp [inRange, invalid]

theorem fits_lnot {v : Int} (h : Fits v) : Fits v.lnot ∧ v.lnot = -v - 1 := by
  have hlnot : v.lnot = -v - 1 := by
    cases v with
    | ofNat n => exact (Int.negSucc_eq n).trans (by simp; omega)
    | negSucc n => simp [Int.lnot, Int.negSucc_eq]
  simp only [Fits, Wide.least, Wide.greatest] at h ⊢
  omega

theorem fits_tmod {a : Int} (ha : Fits a) (b : Int) : Fits (a.tmod b) := by
  have habs : (a.tmod b).natAbs ≤ a.natAbs := by
    rw [Int.natAbs_tmod]
    exact Nat.mod_le ..
  have hpositive : 0 ≤ a → 0 ≤ a.tmod b := Int.tmod_nonneg b
  have hnegative : 0 ≤ -a → 0 ≤ -a.tmod b := fun h => Int.neg_tmod .. ▸ Int.tmod_nonneg b h
  simp only [Fits, Wide.least, Wide.greatest] at ha ⊢
  omega

/-- A shift by more places than a number has leaves its sign. -/
theorem shiftRight_min {a : Int} (ha : Fits a) (n : Nat) : a >>> min n 127 = a / 2 ^ n := by
  have hdiv (m : Nat) : a >>> m = a / 2 ^ m := by
    rw [Int.shiftRight_eq_div_pow]
    norm_cast
  rw [hdiv]
  rcases Nat.le_total n 127 with hn | hn
  · rw [Nat.min_eq_left hn]
  · have hpow : (2 : Int) ^ 127 ≤ 2 ^ n := by exact_mod_cast Nat.pow_le_pow_right (by decide) hn
    simp only [Fits, Wide.least, Wide.greatest] at ha
    rw [Nat.min_eq_right hn]
    by_cases hsign : a < 0
    · rw [Int.ediv_eq_neg_one_of_neg_of_le hsign (by omega), Int.ediv_eq_neg_one_of_neg_of_le hsign (by omega)]
    · rw [Int.ediv_eq_zero_of_lt (by omega) (by omega), Int.ediv_eq_zero_of_lt (by omega) (by omega)]

theorem fits_shiftRight {a : Int} (ha : Fits a) (n : Nat) : Fits (a >>> n) := by
  simp only [Fits, Wide.least, Wide.greatest] at ha ⊢
  rcases Int.le_total 0 a with hsign | hsign
  · have hle := Int.shiftRight_le_of_nonneg (s := n) hsign
    have hnonneg := Int.le_shiftRight_of_nonneg (s := n) hsign
    omega
  · have hle := Int.le_shiftRight_of_nonpos (s := n) hsign
    have hnonpos := Int.shiftRight_le_of_nonpos (s := n) hsign
    omega

/-! ## Operations in the wide range -/

theorem exactUnary_of_unary {op : UnaryOp} {a v : Int} {span : Span} (ha : Fits a) (h : unary op a span = .ok v) :
    exactUnary? op a = some v ∧ Fits v := by
  cases op with
  | plus =>
    cases h
    exact ⟨rfl, ha⟩
  | neg =>
    obtain ⟨hv, rfl⟩ := Wide.fits?_eq_some_iff_fits.1 (inRange_eq_ok_iff.1 h)
    exact ⟨rfl, hv⟩
  | complement =>
    obtain ⟨hv, hlnot⟩ := fits_lnot ha
    cases h
    exact ⟨congrArg some hlnot, hlnot ▸ hv⟩
  | not => cases h

/-- What an operation in the wide range gives is its value over the whole numbers. -/
theorem exactBinary_of_binary {op : BinaryOp} {a b v : Int} {span : Span} (ha : Fits a) (hb : Fits b)
    (h : binary op a b span = .ok v) : exactBinary? op a b = some v ∧ Fits v := by
  cases op with
  | add | sub | mul =>
    obtain ⟨hv, rfl⟩ := Wide.fits?_eq_some_iff_fits.1 (inRange_eq_ok_iff.1 h)
    exact ⟨rfl, hv⟩
  | div =>
    simp only [binary] at h
    split at h
    · cases h
    · next hzero =>
      obtain ⟨hv, rfl⟩ := Wide.fits?_eq_some_iff_fits.1 (inRange_eq_ok_iff.1 h)
      exact ⟨if_neg hzero, hv⟩
  | rem =>
    simp only [binary] at h
    split at h
    · cases h
    · next hzero =>
      obtain ⟨-, -, rfl⟩ := Option.map_eq_some_iff.1 (inRange_eq_ok_iff.1 h)
      exact ⟨if_neg hzero, fits_tmod ha b⟩
  | shl =>
    have hshift := inRange_eq_ok_iff.1 h
    simp only [shiftLeft?] at hshift
    split at hshift
    · next hcount =>
      obtain ⟨hv, rfl⟩ := Wide.fits?_eq_some_iff_fits.1 hshift
      exact ⟨(if_pos hcount.1).trans (congrArg some (Int.shiftLeft_eq ..).symm), hv⟩
    · cases hshift
  | shr =>
    have hshift := inRange_eq_ok_iff.1 h
    simp only [shiftRight?] at hshift
    split at hshift
    · next hcount =>
      cases hshift
      exact ⟨(if_pos hcount.1).trans (congrArg some (shiftRight_min ha _).symm), fits_shiftRight ha _⟩
    · cases hshift
  | and =>
    cases h
    exact ⟨congrArg some (Wide.toInt_bits_and ha hb).symm, Wide.fits_toInt _⟩
  | or =>
    cases h
    exact ⟨congrArg some (Wide.toInt_bits_or ha hb).symm, Wide.fits_toInt _⟩
  | xor =>
    cases h
    exact ⟨congrArg some (Wide.toInt_bits_xor ha hb).symm, Wide.fits_toInt _⟩
  | andNot =>
    cases h
    exact ⟨congrArg some (Wide.toInt_bits_andNot ha hb).symm, Wide.fits_toInt _⟩
  | logical => cases h

theorem unary_of_exactUnary {op : UnaryOp} {a v : Int} {span : Span} (ha : Fits a) (hv : Fits v)
    (h : exactUnary? op a = some v) : unary op a span = .ok v := by
  cases op with
  | plus =>
    cases h
    rfl
  | neg =>
    cases h
    exact inRange_eq_ok_iff.2 (Wide.fits?_eq_some_iff_fits.2 ⟨hv, rfl⟩)
  | complement =>
    cases h
    rw [(fits_lnot ha).2]
    rfl
  | not => cases h

/-- An operation on small numbers that has a small value over the whole numbers has it in the wide range. -/
theorem binary_of_exactBinary {op : BinaryOp} {a b v : Int} {span : Span} (ha : Small a) (hb : Fits b) (hv : Fits v)
    (hcount : isShift op = true → b ≤ 126) (h : exactBinary? op a b = some v) : binary op a b span = .ok v := by
  have hfits {w : Int} (hw : w = v) : inRange span (Wide.fits? w) = .ok v :=
    inRange_eq_ok_iff.2 (Wide.fits?_eq_some_iff_fits.2 ⟨hw ▸ hv, hw⟩)
  cases op with
  | add | sub | mul => exact hfits (Option.some.inj h)
  | div =>
    simp only [exactBinary?] at h
    split at h
    · cases h
    · next hzero => exact (if_neg hzero).trans (hfits (Option.some.inj h))
  | rem =>
    simp only [exactBinary?] at h
    split at h
    · cases h
    · next hzero =>
      have hquotient : Fits (a.tdiv b) := by
        have habs := Int.natAbs_tdiv_le_natAbs a b
        simp only [Small] at ha
        simp only [Fits, Wide.least, Wide.greatest]
        omega
      have hsome : Wide.fits? (a.tdiv b) = some (a.tdiv b) := Wide.fits?_eq_some_iff_fits.2 ⟨hquotient, rfl⟩
      refine (if_neg hzero).trans (inRange_eq_ok_iff.2 ?_)
      rw [hsome]
      exact h
  | shl =>
    simp only [exactBinary?] at h
    split at h
    · next hnonneg =>
      have hlt : b < 127 := Int.lt_of_le_of_lt (hcount rfl) (by decide)
      have hshift : shiftLeft? a b = Wide.fits? (a <<< b.toNat) := if_pos ⟨hnonneg, hlt⟩
      simp only [binary, hshift]
      exact hfits ((Int.shiftLeft_eq ..).trans (Option.some.inj h))
    · cases h
  | shr =>
    simp only [exactBinary?] at h
    split at h
    · next hnonneg =>
      have hlt : b < 0x100000000 := Int.lt_of_le_of_lt (hcount rfl) (by decide)
      refine inRange_eq_ok_iff.2 ((if_pos ⟨hnonneg, hlt⟩).trans ?_)
      rw [shiftRight_min ha.fits]
      exact h
    · cases h
  | and =>
    cases h
    exact congrArg Except.ok (Wide.toInt_bits_and ha.fits hb)
  | or =>
    cases h
    exact congrArg Except.ok (Wide.toInt_bits_or ha.fits hb)
  | xor =>
    cases h
    exact congrArg Except.ok (Wide.toInt_bits_xor ha.fits hb)
  | andNot =>
    cases h
    exact congrArg Except.ok (Wide.toInt_bits_andNot ha.fits hb)
  | logical => cases h

end Constant

/-! ## Values over the whole numbers -/

/-- What an evaluation is limited to: in the values of all its parts, and in the number of places that it shifts by. -/
structure Limits where
  value : Int → Prop
  shift : Int → Prop

namespace Limits

def unlimited : Limits := ⟨fun _ => True, fun _ => True⟩

/-- Values of less than 128 bits with their sign, and shifts by no more places than such a value has. -/
def small : Limits := ⟨Constant.Small, fun n => 0 ≤ n ∧ n ≤ 126⟩

end Limits

/-- Whether an expression in a file has a value over the whole numbers, within limits. The names in it have the values
    of their own declarations. A comparison, a logical negation and an opaque operand have no value. -/
inductive Scope.Denotes (scope : Scope) (limits : Limits) : Nat → Option Nat → Expr → Int → Prop
  | int {file iota v span} : limits.value v → scope.Denotes limits file iota (.int v span) v
  | iota {file span} {i : Nat} : limits.value i → scope.Denotes limits file (some i) (.iota span) i
  | name {file iota name span symbol e v} : scope.const? name = some symbol → symbol.value = some e →
      scope.Denotes limits symbol.file (some symbol.iota) e v →
        scope.Denotes limits file iota (.name none name span) v
  | qualified {file iota package name span path v} : scope.importPath? file package = some path →
      Library.const? path name = some v → limits.value v →
        scope.Denotes limits file iota (.name (some package) name span) v
  | convert {file iota x span v} : scope.Denotes limits file iota x v →
      scope.Denotes limits file iota (.convert x span) v
  | unary {file iota op x span a v} : scope.Denotes limits file iota x a → Constant.exactUnary? op a = some v →
      limits.value v → scope.Denotes limits file iota (.unary op x span) v
  | binary {file iota op l r span a b v} : scope.Denotes limits file iota l a → scope.Denotes limits file iota r b →
      (Constant.isShift op = true → limits.shift b) → Constant.exactBinary? op a b = some v → limits.value v →
        scope.Denotes limits file iota (.binary op l r span) v

/-- An expression has one value over the whole numbers, whatever the limits. -/
theorem Scope.Denotes.unique {scope : Scope} {limits limits' : Limits} {file : Nat} {iota : Option Nat} {e : Expr}
    {v w : Int} (h : scope.Denotes limits file iota e v) (h' : scope.Denotes limits' file iota e w) : v = w := by
  induction h generalizing w with
  | int | iota =>
    cases h'
    rfl
  | name hsymbol hvalue _ ih =>
    cases h' with
    | name hsymbol' hvalue' h' =>
      obtain rfl := Option.some.inj (hsymbol.symm.trans hsymbol')
      obtain rfl := Option.some.inj (hvalue.symm.trans hvalue')
      exact ih h'
  | qualified hpath hconst _ =>
    cases h' with
    | qualified hpath' hconst' _ =>
      obtain rfl := Option.some.inj (hpath.symm.trans hpath')
      exact Option.some.inj (hconst.symm.trans hconst')
  | convert _ ih =>
    cases h' with
    | convert h' => exact ih h'
  | unary _ hop _ ih =>
    cases h' with
    | unary h' hop' _ =>
      obtain rfl := ih h'
      exact Option.some.inj (hop.symm.trans hop')
  | binary _ _ _ hop _ ihl ihr =>
    cases h' with
    | binary hl' hr' _ hop' _ =>
      obtain rfl := ihl hl'
      obtain rfl := ihr hr'
      exact Option.some.inj (hop.symm.trans hop')

/-! ## Evaluation is exact -/

/-- Whether all numbers written in an expression are in the wide range. -/
def Expr.Fits : Expr → Prop
  | .int v _ => Wide.Fits v
  | .unary _ x _ | .convert x _ => x.Fits
  | .binary _ l r _ => l.Fits ∧ r.Fits
  | .name .. | .iota _ | .other _ => True

/-- Whether all numbers that the constants of a package are declared with are in the wide range. -/
structure Scope.Fits (scope : Scope) : Prop where
  iota : ∀ {name symbol}, scope.const? name = some symbol → Wide.Fits symbol.iota
  value : ∀ {name symbol e}, scope.const? name = some symbol → symbol.value = some e → e.Fits

theorem Library.fits_const {path name : String} {v : Int} (h : Library.const? path name = some v) : Wide.Fits v := by
  have hlimits : ∀ entry ∈ Library.limits, Wide.Fits entry.2 := by decide +kernel
  unfold Library.const? at h
  split at h
  · obtain ⟨before, after, hsplit, -⟩ := List.lookup_eq_some_iff.1 h
    exact hlimits (name, v) (by simp [hsplit])
  · cases h

namespace Constant

variable {scope : Scope}

theorem denotes_of_valueWith {names : String → Span → Result} {file : Nat} {iota : Option Nat}
    (hnames : ∀ {name span v}, names name span = .ok v →
      scope.Denotes .unlimited file iota (.name none name span) v ∧ Fits v)
    (hiota : ∀ i ∈ iota, Fits i) {e : Expr} (he : e.Fits) {v : Int} (h : valueWith scope names file iota e = .ok v) :
    scope.Denotes .unlimited file iota e v ∧ Fits v := by
  induction e generalizing v with
  | int w span =>
    cases h
    exact ⟨.int trivial, he⟩
  | name package name span =>
    cases package with
    | none => exact hnames h
    | some package =>
      obtain ⟨path, hpath, hconst⟩ := qualified_iff.1 (valueWith_qualified.symm.trans h)
      exact ⟨.qualified hpath hconst trivial, Library.fits_const hconst⟩
  | iota span =>
    cases iota with
    | none => cases h
    | some i =>
      cases h
      exact ⟨.iota trivial, hiota i rfl⟩
  | unary op x span ih =>
    obtain ⟨a, hx, hop⟩ := valueWith_unary_iff.1 h
    obtain ⟨hdenotes, hfits⟩ := ih he hx
    obtain ⟨hexact, hv⟩ := exactUnary_of_unary hfits hop
    exact ⟨.unary hdenotes hexact trivial, hv⟩
  | binary op l r span ihl ihr =>
    obtain ⟨a, b, hl, hr, hop⟩ := valueWith_binary_iff.1 h
    obtain ⟨hleft, ha⟩ := ihl he.1 hl
    obtain ⟨hright, hb⟩ := ihr he.2 hr
    obtain ⟨hexact, hv⟩ := exactBinary_of_binary ha hb hop
    exact ⟨.binary hleft hright (fun _ => trivial) hexact trivial, hv⟩
  | convert x span ih =>
    obtain ⟨hdenotes, hfits⟩ := ih he h
    exact ⟨.convert hdenotes, hfits⟩
  | other span => cases h

theorem denotes_of_valueOfName (hscope : scope.Fits) {depth : Nat} {evaluating : List String} {file : Nat}
    {name : String} {span : Span} {v : Int} (h : valueOfName scope depth evaluating file name span = .ok v)
    (iota : Option Nat) : scope.Denotes .unlimited file iota (.name none name span) v ∧ Fits v := by
  induction depth generalizing evaluating file name span v iota with
  | zero =>
    obtain ⟨_, _, _, -, -, -, hdepth, -⟩ := valueOfName_iff.1 h
    cases hdepth
  | succ depth ih =>
    obtain ⟨symbol, e, depth', hsymbol, hvalue, -, hdepth, he⟩ := valueOfName_iff.1 h
    obtain rfl := Nat.succ.inj hdepth
    have hiota : ∀ i ∈ some symbol.iota, Fits i := by simpa using hscope.iota hsymbol
    obtain ⟨hdenotes, hfits⟩ :=
      denotes_of_valueWith (fun hname => ih hname _) hiota (hscope.value hsymbol hvalue) he
    exact ⟨.name hsymbol hvalue hdenotes, hfits⟩

end Constant

/-! ## Small values are reached -/

namespace Scope

variable {scope : Scope} {limits : Limits} {file : Nat} {iota : Option Nat} {e : Expr} {v : Int}

/-- Whether the declaration of a constant has the name of another one in it. -/
def Mentions (scope : Scope) (n m : String) : Prop :=
  ∃ symbol e, scope.const? n = some symbol ∧ symbol.value = some e ∧ m ∈ e.constants

theorem Denotes.value (h : scope.Denotes limits file iota e v) : limits.value v := by
  induction h with
  | int hv | iota hv | qualified _ _ hv | unary _ _ hv | binary _ _ _ _ hv => exact hv
  | name _ _ _ ih => exact ih
  | convert _ ih => exact ih

theorem acc_of_constants {name : String} {symbol : ConstSymbol} (hsymbol : scope.const? name = some symbol)
    (hvalue : symbol.value = some e) (h : ∀ m ∈ e.constants, Acc (fun m n => scope.Mentions n m) m) :
    Acc (fun m n => scope.Mentions n m) name := by
  refine ⟨_, fun m hm => ?_⟩
  obtain ⟨symbol', e', hsymbol', hvalue', hmem⟩ := hm
  obtain rfl := Option.some.inj (hsymbol'.symm.trans hsymbol)
  obtain rfl := Option.some.inj (hvalue'.symm.trans hvalue)
  exact h m hmem

/-- What has a value mentions no constant that goes on and on. -/
theorem Denotes.acc (h : scope.Denotes limits file iota e v) :
    ∀ name ∈ e.constants, Acc (fun m n => scope.Mentions n m) name := by
  induction h with
  | int | iota | qualified => exact nofun
  | @name file iota name span symbol e v hsymbol hvalue _ ih =>
    intro n hn
    obtain rfl := List.mem_singleton.1 hn
    exact acc_of_constants hsymbol hvalue ih
  | convert _ ih => exact ih
  | unary _ _ _ ih => exact ih
  | binary _ _ _ _ _ ihl ihr => exact fun n hn => (List.mem_append.1 hn).elim (ihl n) (ihr n)

theorem not_transGen_of_acc {name : String} (h : Acc (fun m n => scope.Mentions n m) name) :
    ¬ Relation.TransGen scope.Mentions name name := by
  induction h with
  | intro n _ ih =>
    intro hcycle
    obtain ⟨m, hnm, hmn⟩ := Relation.TransGen.head'_iff.1 hcycle
    exact ih m hnm (Relation.TransGen.tail' hmn hnm)

/-- Whether names can be in evaluation while others are met: all are constants, there is depth left for those that are
    not among them, and each has led to every name that is met. -/
structure Evaluating (scope : Scope) (depth : Nat) (evaluating met : List String) : Prop where
  nodup : evaluating.Nodup
  declared : evaluating ⊆ scope.consts.map (·.1)
  depth : scope.consts.length ≤ depth + evaluating.length
  leads : ∀ n ∈ evaluating, ∀ m ∈ met, Relation.TransGen scope.Mentions n m

namespace Evaluating

variable {depth : Nat} {evaluating met : List String}

theorem of_subset (h : scope.Evaluating depth evaluating met) {fewer : List String} (hsubset : fewer ⊆ met) :
    scope.Evaluating depth evaluating fewer :=
  ⟨h.nodup, h.declared, h.depth, fun n hn m hm => h.leads n hn m (hsubset hm)⟩

theorem of_mem (h : scope.Evaluating depth evaluating met) {name : String} (hname : name ∈ met) :
    scope.Evaluating depth evaluating [name] :=
  h.of_subset (List.cons_subset.2 ⟨hname, List.nil_subset _⟩)

/-- A name that is not being evaluated can be evaluated too. -/
theorem enter_of_not_mem {name : String} (h : scope.Evaluating depth evaluating [name]) (hmem : name ∉ evaluating)
    {symbol : ConstSymbol} {e : Expr} (hsymbol : scope.const? name = some symbol) (hvalue : symbol.value = some e) :
    ∃ depth', depth = depth' + 1 ∧ scope.Evaluating depth' (name :: evaluating) e.constants := by
  have hnodup : (name :: evaluating).Nodup := List.nodup_cons.2 ⟨hmem, h.nodup⟩
  have hdeclared : name :: evaluating ⊆ scope.consts.map (·.1) := by
    obtain ⟨before, after, hsplit, -⟩ := List.lookup_eq_some_iff.1 hsymbol
    exact List.cons_subset.2 ⟨by simp [hsplit], h.declared⟩
  have hlength := (hnodup.subperm hdeclared).length_le
  simp only [List.length_cons, List.length_map] at hlength
  have hdepth := h.depth
  obtain ⟨depth', rfl⟩ : ∃ depth', depth = depth' + 1 := ⟨depth - 1, by omega⟩
  refine ⟨depth', rfl, hnodup, hdeclared, by simp only [List.length_cons]; omega, fun n hn m hm => ?_⟩
  have hstep : scope.Mentions name m := ⟨symbol, e, hsymbol, hvalue, hm⟩
  rcases List.mem_cons.1 hn with rfl | hn
  · exact .single hstep
  · exact (h.leads n hn name (List.mem_singleton_self name)).tail hstep

/-- A name that does not lead to itself is not being evaluated. -/
theorem not_mem {name : String} (h : scope.Evaluating depth evaluating [name])
    (hname : ¬ Relation.TransGen scope.Mentions name name) : name ∉ evaluating :=
  fun hmem => hname (h.leads name hmem name (List.mem_singleton_self name))

theorem start (scope : Scope) (met : List String) : scope.Evaluating scope.consts.length [] met :=
  ⟨.nil, List.nil_subset _, Nat.le_refl _, nofun⟩

end Evaluating

/-- A value over the whole numbers that small numbers lead to is found, whatever names are in evaluation that lead to
    the expression. -/
theorem Denotes.valueWith_eq (h : scope.Denotes .small file iota e v) {depth : Nat} {evaluating : List String}
    (hevaluating : scope.Evaluating depth evaluating e.constants) :
    Constant.valueWith scope (Constant.valueOfName scope depth evaluating file) file iota e = .ok v := by
  induction h generalizing depth evaluating with
  | int | iota => rfl
  | @name file iota name span symbol e v hsymbol hvalue hdenotes ih =>
    have hdenotesName : scope.Denotes .small file iota (.name none name span) v := .name hsymbol hvalue hdenotes
    have hacc := hdenotesName.acc
    have hname := not_transGen_of_acc (hacc name (List.mem_singleton_self name))
    have hmem := hevaluating.not_mem hname
    obtain ⟨depth', rfl, hinner⟩ := hevaluating.enter_of_not_mem hmem hsymbol hvalue
    exact Constant.valueOfName_iff.2 ⟨symbol, e, depth', hsymbol, hvalue, hmem, rfl, ih hinner⟩
  | qualified hpath hconst _ => exact Constant.valueWith_qualified.trans (Constant.qualified_iff.2 ⟨_, hpath, hconst⟩)
  | convert _ ih => exact ih hevaluating
  | unary hx hop hv ih =>
    refine Constant.valueWith_unary_iff.2 ⟨_, ih hevaluating, ?_⟩
    exact Constant.unary_of_exactUnary (Constant.Small.fits hx.value) (Constant.Small.fits hv) hop
  | binary hl hr hshift hop hv ihl ihr =>
    have hleft := ihl (hevaluating.of_subset (List.subset_append_left ..))
    have hright := ihr (hevaluating.of_subset (List.subset_append_right ..))
    refine Constant.valueWith_binary_iff.2 ⟨_, _, hleft, hright, ?_⟩
    exact Constant.binary_of_exactBinary hl.value (Constant.Small.fits hr.value) (Constant.Small.fits hv)
      (fun h => (hshift h).2) hop

/-- A value that is found is the value over the whole numbers, and such a value is found where all numbers that lead to
    it are small. -/
theorem value_exact (hscope : scope.Fits) (he : e.Fits) (hiota : ∀ i ∈ iota, Wide.Fits i) :
    (scope.value e file iota = .ok v → scope.Denotes .unlimited file iota e v) ∧
      (scope.Denotes .small file iota e v → scope.value e file iota = .ok v) := by
  constructor
  · intro h
    exact (Constant.denotes_of_valueWith (fun hname => Constant.denotes_of_valueOfName hscope hname iota) hiota
      he h).1
  · intro h
    exact h.valueWith_eq (.start scope e.constants)

/-- A scope with one constant, the mask `^(1 << iota)` on the fourth line of its group. -/
def maskScope : Scope where
  types := []
  consts := [("mask",
    ⟨0, some (.unary .complement (.binary .shl (.int 1 default) (.iota default) default) default), 3, default⟩)]
  imports := [[]]

/-- The remainder `mask % 4`, of which the dividend is negative. -/
def maskRemainder : Expr := .binary .rem (.name none "mask" default) (.int 4 default) default

theorem value_exact_mask :
    maskScope.Denotes .small 0 none maskRemainder (-1) ∧ maskScope.value maskRemainder 0 none = .ok (-1) ∧
      maskScope.Denotes .unlimited 0 none maskRemainder (-1) := by
  have hfits (n : Nat) (hn : n ≤ 4) : Wide.Fits n := by
    simp only [Wide.Fits, Wide.least, Wide.greatest]
    omega
  have hconst {name : String} {symbol : ConstSymbol} (h : maskScope.const? name = some symbol) :
      symbol ∈ maskScope.consts.map (·.2) := by
    obtain ⟨before, after, hsplit, -⟩ := List.lookup_eq_some_iff.1 h
    simp [hsplit]
  have hscope : maskScope.Fits := by
    constructor
    · intro name symbol h
      obtain rfl := List.mem_singleton.1 (hconst h)
      exact hfits 3 (by decide)
    · intro name symbol e h he
      obtain rfl := List.mem_singleton.1 (hconst h)
      cases he
      exact ⟨hfits 1 (by decide), trivial⟩
  have hexpr : maskRemainder.Fits := ⟨trivial, hfits 4 (by decide)⟩
  have hmask : maskScope.Denotes .small 0 none (.name none "mask" default) (-9) := by
    refine .name rfl rfl (.unary (.binary (a := 1) (b := 3) (v := 8) (.int ?_) (.iota ?_) (fun _ => ?_) rfl ?_) rfl ?_)
    all_goals simp [Limits.small, Constant.Small]
  have hsmall : maskScope.Denotes .small 0 none maskRemainder (-1) := by
    refine .binary hmask (.int (v := 4) ?_) (fun h => absurd h Bool.false_ne_true) rfl ?_
    all_goals simp [Limits.small, Constant.Small]
  have hiota : ∀ i ∈ (none : Option Nat), Wide.Fits i := by simp
  have hvalue := (value_exact hscope hexpr hiota).2 hsmall
  exact ⟨hsmall, hvalue, (value_exact hscope hexpr hiota).1 hvalue⟩

end Scope

end StructPadding
