-- SUMMARY: How types and constant expressions are written as tokens.
import Mathlib.Algebra.Group.Int.Defs
import Mathlib.Algebra.Group.Nat.Defs
import StructPadding.Syntax.Type

/-!
# Rendering

A type or a constant expression is written as a list of tokens. What a tree does not keep is free: the name of the type
in a conversion, and the literal that an opaque operand stands for. Parentheses stand around an operand of which the
operator binds less tightly than its place asks for, and around the elements of channels. A parameter says which names
may be written in expressions; names in types are free.
-/

namespace StructPadding

open Token (Kind)

/-! ## Operators and names -/

/-- The token of an operator. -/
def UnaryOp.kind : UnaryOp → Kind
  | .neg => .symbol .minus
  | .plus => .symbol .plus
  | .complement => .symbol .caret
  | .not => .symbol .bang

theorem UnaryOp.ofKind?_kind (op : UnaryOp) : ofKind? op.kind = some op := by cases op <;> rfl

/-- The token of an operator; an equality stands for those that give no number. -/
def BinaryOp.kind : BinaryOp → Kind
  | .add => .symbol .plus
  | .sub => .symbol .minus
  | .mul => .symbol .star
  | .div => .symbol .slash
  | .rem => .symbol .percent
  | .shl => .symbol .ltLt
  | .shr => .symbol .gtGt
  | .and => .symbol .amp
  | .or => .symbol .pipe
  | .xor => .symbol .caret
  | .andNot => .symbol .ampCaret
  | .logical => .symbol .eqEq

theorem BinaryOp.ofKind?_kind (op : BinaryOp) : ofKind? op.kind = some op := by cases op <;> rfl

theorem BinaryOp.one_le_precedence (op : BinaryOp) : 1 ≤ op.precedence := by cases op <;> decide

theorem BinaryOp.precedence_le (op : BinaryOp) : op.precedence ≤ 5 := by cases op <;> decide

/-- The tokens of a name, possibly qualified. -/
def nameKinds (package : Option String) (name : String) : List Kind :=
  match package with
  | none => [.identifier name]
  | some package => [.identifier package, .symbol .dot, .identifier name]

theorem exists_nameKinds_eq (package : Option String) (name : String) :
    ∃ n ks, nameKinds package name = .identifier n :: ks := by
  cases package <;> exact ⟨_, _, rfl⟩

/-! ## Expressions -/

/-- Whether a literal is kept as an opaque operand, whatever its text. -/
def Token.Literal.isOpaque : Token.Literal → Bool
  | .float | .imaginary | .string => true
  | .int | .rune => false

namespace Expr

variable (writable : Option String → String → Prop)

/-- Whether an expression can be written with names that may be written, and with numbers of less than 128 bits. -/
def IsWritable : Expr → Prop
  | .int v _ => 0 ≤ v ∧ v < 2 ^ 127
  | .name package n _ => writable package n
  | .iota _ | .other _ => True
  | .unary _ x _ | .convert x _ => x.IsWritable
  | .binary _ l r _ => l.IsWritable ∧ r.IsWritable

/-- Whether tokens are those of an expression at a place for operators of at least some precedence. -/
inductive Renders : Nat → Expr → List Kind → Prop
  | int {p n span} : n < 2 ^ 127 → Renders p (.int (n : Nat) span) [.literal .int n.repr]
  | name {p package name span} : writable package name → Renders p (.name package name span) (nameKinds package name)
  | iota {p span} : Renders p (.iota span) [.identifier "iota"]
  | other {p form text span} : form.isOpaque = true → Renders p (.other span) [.literal form text]
  /-- No binary operator binds as tightly as a unary one. -/
  | unary {p op x span ks} : Renders 6 x ks → Renders p (.unary op x span) (op.kind :: ks)
  | binary {p op l r span ks ls} : p ≤ op.precedence → Renders op.precedence l ks → Renders (op.precedence + 1) r ls →
      Renders p (.binary op l r span) (ks ++ op.kind :: ls)
  | parentheses {p op l r span ks} : op.precedence < p → Renders 1 (.binary op l r span) ks →
      Renders p (.binary op l r span) (.symbol .lParen :: (ks ++ [.symbol .rParen]))
  | convert {p package name x span ks} : writable package name → Renders 1 x ks →
      Renders p (.convert x span) (nameKinds package name ++ .symbol .lParen :: (ks ++ [.symbol .rParen]))

variable {writable}

theorem exists_renders (hwritable : ∃ package name, writable package name) {e : Expr} (he : e.IsWritable writable)
    (p : Nat) : ∃ ks, e.Renders writable p ks := by
  induction e generalizing p with
  | int v span =>
    obtain ⟨n, rfl⟩ := Int.eq_ofNat_of_zero_le he.1
    exact ⟨_, .int (by exact_mod_cast he.2)⟩
  | name package name span => exact ⟨_, .name he⟩
  | iota span => exact ⟨_, .iota⟩
  | unary op x span ih =>
    obtain ⟨ks, hks⟩ := ih he 6
    exact ⟨_, .unary hks⟩
  | binary op l r span ihl ihr =>
    have hbinary {q : Nat} (hq : q ≤ op.precedence) : ∃ ks, Renders writable q (.binary op l r span) ks := by
      obtain ⟨ks, hks⟩ := ihl he.1 op.precedence
      obtain ⟨ls, hls⟩ := ihr he.2 (op.precedence + 1)
      exact ⟨_, .binary hq hks hls⟩
    by_cases hp : p ≤ op.precedence
    · exact hbinary hp
    · obtain ⟨ks, hks⟩ := hbinary op.one_le_precedence
      exact ⟨_, .parentheses (Nat.lt_of_not_le hp) hks⟩
  | convert x span ih =>
    obtain ⟨package, name, hname⟩ := hwritable
    obtain ⟨ks, hks⟩ := ih he 1
    exact ⟨_, .convert hname hks⟩
  | other span => exact ⟨[.literal .string "``"], .other rfl⟩

/-- The tokens of an expression begin with one that an expression can begin with. -/
theorem Renders.exists_startsExpr {p : Nat} {e : Expr} {ks : List Kind} (h : e.Renders writable p ks) :
    ∃ k ls, ks = k :: ls ∧ k.startsExpr = true := by
  induction h with
  | int | iota | other => exact ⟨_, _, rfl, rfl⟩
  | @name _ package name =>
    obtain ⟨n, ls, heq⟩ := exists_nameKinds_eq package name
    exact ⟨_, ls, heq, rfl⟩
  | @unary _ op => exact ⟨_, _, rfl, by cases op <;> rfl⟩
  | binary _ _ _ ih =>
    obtain ⟨k, ls, rfl, hk⟩ := ih
    exact ⟨k, _, rfl, hk⟩
  | parentheses => exact ⟨_, _, rfl, rfl⟩
  | @convert _ package name =>
    obtain ⟨n, ls, heq⟩ := exists_nameKinds_eq package name
    exact ⟨_, _, by rw [heq]; rfl, rfl⟩

end Expr

/-! ## Types -/

/-- The words in front of the element of a channel. -/
def Direction.kinds : Direction → List Kind
  | .both => [.keyword .chan]
  | .send => [.keyword .chan, .symbol .arrow]
  | .receive => [.symbol .arrow, .keyword .chan]

/-- The tokens of names with a comma in front of each. -/
def namesKinds : List String → List Kind
  | [] => []
  | n :: rest => .symbol .comma :: .identifier n :: namesKinds rest

/-- A tag as a raw string. -/
def tagKinds : Option String → List Kind
  | none => []
  | some tag => [.literal .string ("`" ++ tag ++ "`")]

/-- Whether a type can be embedded: it is a pointer or a name, with arguments only where it is qualified. -/
def TypeExpr.isEmbeddable : TypeExpr → Bool
  | .pointer .. => true
  | .named package _ args _ => package.isSome || args.isEmpty
  | _ => false

section

variable (writable : Option String → String → Prop)

mutual

/-- Whether a type can be written: its array lengths can, and its fields have names or types that can be embedded. -/
def TypeExpr.IsWritable : TypeExpr → Prop
  | .named _ _ args _ => typesWritable args
  | .pointer e _ | .slice e _ | .chan _ e _ => e.IsWritable
  | .array n e _ => n.IsWritable writable ∧ e.IsWritable
  | .map k v _ => k.IsWritable ∧ v.IsWritable
  | .func _ | .interface _ => True
  | .struct st => st.IsWritable

def typesWritable : List TypeExpr → Prop
  | [] => True
  | t :: rest => t.IsWritable ∧ typesWritable rest

/-- Whether a struct type can be written. -/
def StructType.IsWritable : StructType → Prop
  | ⟨fields, _, _⟩ => fieldsWritable fields

def fieldsWritable : List FieldDecl → Prop
  | [] => True
  | f :: rest => f.IsWritable ∧ fieldsWritable rest

/-- Whether a field can be written. -/
def FieldDecl.IsWritable : FieldDecl → Prop
  | ⟨names, type, _, _⟩ => type.IsWritable ∧ (names = [] → type.isEmbeddable = true)

end

/-- What tokens can stand for. -/
inductive TypeForm
  | type (t : TypeExpr)
  /-- Types with commas between them. -/
  | types (ts : List TypeExpr)
  | field (f : FieldDecl)
  /-- Fields with semicolons between them, and possibly behind the last one. -/
  | fields (fs : List FieldDecl)

/-- Whether tokens are those of a form. -/
inductive TypeForm.Renders : TypeForm → List Kind → Prop
  | named {package name span} : Renders (.type (.named package name [] span)) (nameKinds package name)
  | instantiated {package name args span ks} : args ≠ [] → Renders (.types args) ks →
      Renders (.type (.named package name args span))
        (nameKinds package name ++ .symbol .lBracket :: (ks ++ [.symbol .rBracket]))
  | pointer {e span ks} : Renders (.type e) ks → Renders (.type (.pointer e span)) (.symbol .star :: ks)
  | slice {e span ks} : Renders (.type e) ks →
      Renders (.type (.slice e span)) (.symbol .lBracket :: .symbol .rBracket :: ks)
  | array {n e span ns ks} : n.Renders writable 1 ns → Renders (.type e) ks →
      Renders (.type (.array n e span)) (.symbol .lBracket :: (ns ++ .symbol .rBracket :: ks))
  | map {k v span ks vs} : Renders (.type k) ks → Renders (.type v) vs →
      Renders (.type (.map k v span)) (.keyword .map :: .symbol .lBracket :: (ks ++ .symbol .rBracket :: vs))
  | chan {direction e span ks} : Renders (.type e) ks →
      Renders (.type (.chan direction e span)) (direction.kinds ++ .symbol .lParen :: (ks ++ [.symbol .rParen]))
  | func {span} : Renders (.type (.func span)) [.keyword .func, .symbol .lParen, .symbol .rParen]
  | interface {span} : Renders (.type (.interface span)) [.keyword .interface, .symbol .lBrace, .symbol .rBrace]
  | struct {fs keyword span ks} : Renders (.fields fs) ks →
      Renders (.type (.struct ⟨fs, keyword, span⟩))
        (.keyword .struct :: .symbol .lBrace :: (ks ++ [.symbol .rBrace]))
  | oneType {t ks} : Renders (.type t) ks → Renders (.types [t]) ks
  | nextType {t ts ks ls} : Renders (.type t) ks → Renders (.types ts) ls →
      Renders (.types (t :: ts)) (ks ++ .symbol .comma :: ls)
  | embedded {t tag span ks} : t.isEmbeddable = true → Renders (.type t) ks →
      Renders (.field ⟨[], t, tag, span⟩) (ks ++ tagKinds tag)
  | declared {n names t tag span ks} : Renders (.type t) ks →
      Renders (.field ⟨n :: names, t, tag, span⟩) (.identifier n :: (namesKinds names ++ (ks ++ tagKinds tag)))
  | noFields : Renders (.fields []) []
  | oneField {f ks} : Renders (.field f) ks → Renders (.fields [f]) ks
  | nextField {f fs ks ls} : Renders (.field f) ks → Renders (.fields fs) ls →
      Renders (.fields (f :: fs)) (ks ++ .symbol .semi :: ls)

end

namespace TypeForm

variable {writable : Option String → String → Prop}

mutual

theorem exists_renders_type (hwritable : ∃ package name, writable package name) :
    ∀ t : TypeExpr, t.IsWritable writable → ∃ ks, Renders writable (.type t) ks
  | .named package name args span, ht => by
    by_cases hargs : args = []
    · subst hargs
      exact ⟨_, .named⟩
    · obtain ⟨ks, hks⟩ := exists_renders_types hwritable args ht hargs
      exact ⟨_, .instantiated hargs hks⟩
  | .pointer e span, ht => (exists_renders_type hwritable e ht).elim fun _ hks => ⟨_, .pointer hks⟩
  | .slice e span, ht => (exists_renders_type hwritable e ht).elim fun _ hks => ⟨_, .slice hks⟩
  | .array n e span, ht => by
    obtain ⟨ns, hns⟩ := Expr.exists_renders hwritable ht.1 1
    obtain ⟨ks, hks⟩ := exists_renders_type hwritable e ht.2
    exact ⟨_, .array hns hks⟩
  | .map k v span, ht => by
    obtain ⟨ks, hks⟩ := exists_renders_type hwritable k ht.1
    obtain ⟨vs, hvs⟩ := exists_renders_type hwritable v ht.2
    exact ⟨_, .map hks hvs⟩
  | .chan direction e span, ht => (exists_renders_type hwritable e ht).elim fun _ hks => ⟨_, .chan hks⟩
  | .func span, _ => ⟨_, .func⟩
  | .interface span, _ => ⟨_, .interface⟩
  | .struct st, ht => exists_renders_struct hwritable st ht

theorem exists_renders_types (hwritable : ∃ package name, writable package name) :
    ∀ ts : List TypeExpr, typesWritable writable ts → ts ≠ [] → ∃ ks, Renders writable (.types ts) ks
  | [], _, hts => absurd rfl hts
  | t :: rest, ht, _ => by
    obtain ⟨ks, hks⟩ := exists_renders_type hwritable t ht.1
    by_cases hrest : rest = []
    · subst hrest
      exact ⟨ks, .oneType hks⟩
    · obtain ⟨ls, hls⟩ := exists_renders_types hwritable rest ht.2 hrest
      exact ⟨_, .nextType hks hls⟩

theorem exists_renders_struct (hwritable : ∃ package name, writable package name) :
    ∀ st : StructType, st.IsWritable writable → ∃ ks, Renders writable (.type (.struct st)) ks
  | ⟨fs, _, _⟩, hst => (exists_renders_fields hwritable fs hst).elim fun _ hks => ⟨_, .struct hks⟩

theorem exists_renders_fields (hwritable : ∃ package name, writable package name) :
    ∀ fs : List FieldDecl, fieldsWritable writable fs → ∃ ks, Renders writable (.fields fs) ks
  | [], _ => ⟨_, .noFields⟩
  | f :: rest, hf => by
    obtain ⟨ks, hks⟩ := exists_renders_field hwritable f hf.1
    obtain ⟨ls, hls⟩ := exists_renders_fields hwritable rest hf.2
    exact ⟨_, .nextField hks hls⟩

theorem exists_renders_field (hwritable : ∃ package name, writable package name) :
    ∀ f : FieldDecl, f.IsWritable writable → ∃ ks, Renders writable (.field f) ks
  | ⟨names, t, tag, span⟩, hf => by
    obtain ⟨ks, hks⟩ := exists_renders_type hwritable t hf.1
    cases names with
    | nil => exact ⟨_, .embedded (hf.2 rfl) hks⟩
    | cons => exact ⟨_, .declared hks⟩

end

/-- The tokens of a type begin with one that a type can begin with. -/
theorem Renders.exists_startsType {t : TypeExpr} {ks : List Kind} (h : Renders writable (.type t) ks) :
    ∃ k ls, ks = k :: ls ∧ k.startsType = true := by
  cases h with
  | @named package name =>
    obtain ⟨n, ls, heq⟩ := exists_nameKinds_eq package name
    exact ⟨_, ls, heq, rfl⟩
  | @instantiated package name =>
    obtain ⟨n, ls, heq⟩ := exists_nameKinds_eq package name
    exact ⟨_, _, by rw [heq]; rfl, rfl⟩
  | @chan direction => cases direction <;> exact ⟨_, _, rfl, rfl⟩
  | pointer | slice | array | map | func | interface | struct => exact ⟨_, _, rfl, rfl⟩

/-- The tokens of a field begin with a star or an identifier. -/
theorem Renders.exists_startsField {f : FieldDecl} {ks : List Kind} (h : Renders writable (.field f) ks) :
    ∃ k ls, ks = k :: ls ∧ (k = .symbol .star ∨ ∃ n, k = .identifier n) := by
  cases h with
  | @declared n => exact ⟨_, _, rfl, .inr ⟨n, rfl⟩⟩
  | embedded hembeddable ht =>
    cases ht with
    | pointer => exact ⟨_, _, rfl, .inl rfl⟩
    | @named package => cases package <;> exact ⟨_, _, rfl, .inr ⟨_, rfl⟩⟩
    | @instantiated package => cases package <;> exact ⟨_, _, rfl, .inr ⟨_, rfl⟩⟩
    | slice | array | map | chan | func | interface | struct => cases hembeddable

end TypeForm

end StructPadding
