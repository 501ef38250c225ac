-- SUMMARY: The constructs of a source file, what they are made of, and which problems they explain.
import StructPadding.Problem
import StructPadding.Syntax.File

/-!
# Constructs

A problem of a package is about something that is written in one of its files: a type, an expression, a struct
literal, or a declared name. This module says what is written in a file, and which causes are about what.
-/

namespace StructPadding

/-- Something written in a source file. -/
inductive Construct
  | type (t : TypeExpr)
  | expr (e : Expr)
  /-- An expression that is the length of an array. -/
  | length (e : Expr)
  | struct (st : StructType)
  | typeDecl (d : TypeDecl)
  /-- A name in a line of constants, with its place. -/
  | constName (name : String) (span : Span)
  | constDecl (d : ConstDecl)

namespace Construct

/-- Where a construct stands; a struct literal is pointed at by its keyword. -/
def span : Construct → Span
  | .type t => t.span
  | .expr e | .length e => e.span
  | .struct st => st.keyword
  | .typeDecl d => d.span
  | .constName _ s => s
  | .constDecl d => d.span

/-- What a construct is made of, itself included. -/
inductive Part (c : Construct) : Construct → Prop
  | self : Part c c
  -- Types
  | argument {package name args span a} :
      a ∈ args → Part c (.type a) → Part c (.type (.named package name args span))
  | pointer {e span} : Part c (.type e) → Part c (.type (.pointer e span))
  | slice {e span} : Part c (.type e) → Part c (.type (.slice e span))
  | length {n e span} : Part c (.length n) → Part c (.type (.array n e span))
  | element {n e span} : Part c (.type e) → Part c (.type (.array n e span))
  | key {k v span} : Part c (.type k) → Part c (.type (.map k v span))
  | value {k v span} : Part c (.type v) → Part c (.type (.map k v span))
  | chan {d e span} : Part c (.type e) → Part c (.type (.chan d e span))
  | literal {st} : Part c (.struct st) → Part c (.type (.struct st))
  | field {fields keyword span d} :
      d ∈ fields → Part c (.type d.type) → Part c (.struct ⟨fields, keyword, span⟩)
  -- Expressions
  | lengthExpr {e} : Part c (.expr e) → Part c (.length e)
  | operand {op x span} : Part c (.expr x) → Part c (.expr (.unary op x span))
  | left {op l r span} : Part c (.expr l) → Part c (.expr (.binary op l r span))
  | right {op l r span} : Part c (.expr r) → Part c (.expr (.binary op l r span))
  | converted {x span} : Part c (.expr x) → Part c (.expr (.convert x span))
  -- Declarations
  | declared {d} : Part c (.type d.type) → Part c (.typeDecl d)
  | name {d n s} : (n, s) ∈ d.names → Part c (.constName n s) → Part c (.constDecl d)
  | initial {d e} : e ∈ d.values → Part c (.expr e) → Part c (.constDecl d)

theorem Part.trans {a b c : Construct} (hab : Part a b) (hbc : Part b c) : Part a c := by
  induction hbc with
  | self => exact hab
  | argument ha _ ih => exact .argument ha ih
  | pointer _ ih => exact .pointer ih
  | slice _ ih => exact .slice ih
  | length _ ih => exact .length ih
  | element _ ih => exact .element ih
  | key _ ih => exact .key ih
  | value _ ih => exact .value ih
  | chan _ ih => exact .chan ih
  | literal _ ih => exact .literal ih
  | field hd _ ih => exact .field hd ih
  | lengthExpr _ ih => exact .lengthExpr ih
  | operand _ ih => exact .operand ih
  | left _ ih => exact .left ih
  | right _ ih => exact .right ih
  | converted _ ih => exact .converted ih
  | declared _ ih => exact .declared ih
  | name hn _ ih => exact .name hn ih
  | initial he _ ih => exact .initial he ih

/-- Expressions have no parts but expressions. -/
theorem Part.of_expr {c : Construct} {e : Expr} (h : c.Part (.expr e)) : ∃ x, c = .expr x := by
  generalize hd : Construct.expr e = d at h
  induction h generalizing e with
  | self => exact ⟨e, hd.symm⟩
  | operand _ ih | left _ ih | right _ ih | converted _ ih => exact ih rfl
  | _ => cases hd

/-- Whether a construct is a type, a struct literal or an array length. -/
def OfType : Construct → Prop
  | .type _ | .struct _ | .length _ => True
  | _ => False

/-- The expressions in a type stand in its array lengths. -/
theorem Part.exists_length {x : Expr} {d : Construct} (h : (Construct.expr x).Part d) (hd : d.OfType) :
    ∃ e, (Construct.length e).Part d ∧ (Construct.expr x).Part (.length e) := by
  induction h with
  | @lengthExpr e he => exact ⟨e, .self, .lengthExpr he⟩
  | argument hmem _ ih => exact (ih trivial).imp fun _ he => ⟨.argument hmem he.1, he.2⟩
  | pointer _ ih => exact (ih trivial).imp fun _ he => ⟨.pointer he.1, he.2⟩
  | slice _ ih => exact (ih trivial).imp fun _ he => ⟨.slice he.1, he.2⟩
  | length _ ih => exact (ih trivial).imp fun _ he => ⟨.length he.1, he.2⟩
  | element _ ih => exact (ih trivial).imp fun _ he => ⟨.element he.1, he.2⟩
  | key _ ih => exact (ih trivial).imp fun _ he => ⟨.key he.1, he.2⟩
  | value _ ih => exact (ih trivial).imp fun _ he => ⟨.value he.1, he.2⟩
  | chan _ ih => exact (ih trivial).imp fun _ he => ⟨.chan he.1, he.2⟩
  | literal _ ih => exact (ih trivial).imp fun _ he => ⟨.literal he.1, he.2⟩
  | field hmem _ ih => exact (ih trivial).imp fun _ he => ⟨.field hmem he.1, he.2⟩
  | self | operand | left | right | converted | declared | name | initial => exact hd.elim

/-! ## Causes -/

/-- Whether a cause of the analysis is about a construct. -/
inductive Explains : Construct → Cause → Prop
  -- Names of types
  | undefinedType {name args span} : Explains (.type (.named none name args span)) (.undefined name)
  | undefinedPackage {package name args span} :
      Explains (.type (.named (some package) name args span)) (.undefined package)
  | notGeneric {name args span} : args ≠ [] → Explains (.type (.named none name args span)) (.notGeneric name)
  | notInstantiated {name span} : Explains (.type (.named none name [] span)) (.notInstantiated name)
  | wrongArgumentCount {name args span wanted} : args.length ≠ wanted →
      Explains (.type (.named none name args span)) (.wrongArgumentCount name args.length wanted)
  | recursiveType {name args span} : Explains (.type (.named none name args span)) (.recursiveType name)
  -- Sizes
  | invalidLength {e v} : Explains (.length e) (.invalidLength v)
  | typeTooLarge {n e span text} : Explains (.type (.array n e span)) (.typeTooLarge text)
  | structTooLarge {st} : Explains (.struct st) .structTooLarge
  -- Expressions
  | undefinedConst {name span} : Explains (.expr (.name none name span)) (.undefined name)
  | undefinedQualifier {package name span} :
      Explains (.expr (.name (some package) name span)) (.undefined package)
  | typeAsExpression {name span} : Explains (.expr (.name none name span)) (.typeAsExpression name)
  | initializationCycle {name span} : Explains (.expr (.name none name span)) (.initializationCycle name)
  | iotaOutsideConst {span} : Explains (.expr (.iota span)) .iotaOutsideConst
  | divisionByZero {op l r span} : op = .div ∨ op = .rem → Explains (.expr (.binary op l r span)) .divisionByZero
  | overflow {op x span} : Explains (.expr (.unary op x span)) .constantOverflow
  | binaryOverflow {op l r span} : Explains (.expr (.binary op l r span)) .constantOverflow
  | notInteger {span} : Explains (.expr (.other span)) .notInteger
  | negation {x span} : Explains (.expr (.unary .not x span)) .notInteger
  | logical {l r span} : Explains (.expr (.binary .logical l r span)) .notInteger
  -- Declarations
  | missingInitializer {name span} : Explains (.constName name span) (.missingInitializer name)
  | redeclaredType {d} : Explains (.typeDecl d) (.redeclared d.name)
  | redeclaredConst {name span} : Explains (.constName name span) (.redeclared name)

end Construct

/-! ## Files -/

namespace SourceFile

/-- The declarations of a file, and the struct literals outside of them. -/
inductive Root (f : SourceFile) : Construct → Prop
  | type {d} : d ∈ f.types → Root f (.typeDecl d)
  | const {d} : d ∈ f.consts → Root f (.constDecl d)
  | literal {l} : l ∈ f.locals → Root f (.struct l.type)

/-- Whether a construct is written in a file. -/
def Has (f : SourceFile) (c : Construct) : Prop := ∃ root, f.Root root ∧ c.Part root

theorem Has.part {f : SourceFile} {c d : Construct} (h : f.Has d) (hc : c.Part d) : f.Has c := by
  obtain ⟨root, hroot, hd⟩ := h
  exact ⟨root, hroot, hc.trans hd⟩

end SourceFile

/-- Whether a construct is written in the file of the given number. -/
def InFile (files : List SourceFile) (file : Nat) (c : Construct) : Prop := ∃ f, files[file]? = some f ∧ f.Has c

theorem InFile.part {files : List SourceFile} {file : Nat} {c d : Construct} (h : InFile files file d)
    (hc : c.Part d) : InFile files file c := by
  obtain ⟨f, hf, hd⟩ := h
  exact ⟨f, hf, hd.part hc⟩

theorem InFile.lt_length {files : List SourceFile} {file : Nat} {c : Construct} (h : InFile files file c) :
    file < files.length := by
  obtain ⟨f, hf, -⟩ := h
  exact (List.getElem?_eq_some_iff.1 hf).1

/-- Whether a problem is about a construct of the file of the given number, and points at it. -/
def Problem.ArisesIn (files : List SourceFile) (file : Nat) (p : Problem) : Prop :=
  ∃ c, InFile files file c ∧ c.Explains p.cause ∧ p.span = c.span

theorem Problem.ArisesIn.lt_length {files : List SourceFile} {file : Nat} {p : Problem} (h : p.ArisesIn files file) :
    file < files.length := by
  obtain ⟨c, hc, -⟩ := h
  exact hc.lt_length

end StructPadding
