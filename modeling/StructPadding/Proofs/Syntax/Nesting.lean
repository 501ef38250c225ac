-- SUMMARY: Everything in a source file that has a span, what is directly inside it, and where spans nest.
import StructPadding.Proofs.Source.Place
import StructPadding.Proofs.Syntax.Construct

/-!
# Nesting

A source file is a tree: the file itself, its declarations, and the types, fields and expressions inside them. Each node
has a span. This module says what it means that the spans of a node nest, and builds such nodes from the nodes directly
inside them.
-/

namespace StructPadding

/-! ## Spans -/

/-- Whether a span lies in another one. -/
structure Span.Inside (s t : Span) : Prop where
  start : t.start ≤ s.start
  stop : s.stop ≤ t.stop

namespace Span

theorem inside_merge_left (a b : Span) : a.Inside (a.merge b) := ⟨Nat.min_le_left .., Nat.le_max_left ..⟩

theorem inside_merge_right (a b : Span) : b.Inside (a.merge b) := ⟨Nat.min_le_right .., Nat.le_max_right ..⟩

/-- Spans in order are merged into the one from the first to the last. -/
theorem merge_eq {a b : Span} (hstart : a.start ≤ b.start) (hstop : a.stop ≤ b.stop) :
    a.merge b = ⟨a.start, b.stop⟩ := by
  rw [merge, Nat.min_eq_left hstart, Nat.max_eq_right hstop]

end Span

/-! ## Nodes -/

/-- Something in a source file that has a span. -/
inductive SyntaxNode
  | file (f : SourceFile)
  | import_ (i : Import)
  | typeDecl (d : TypeDecl)
  | constDecl (d : ConstDecl)
  /-- A single word: the name of a constant, or the keyword of a struct literal. -/
  | word (span : Span)
  | type (t : TypeExpr)
  | struct (st : StructType)
  | field (f : FieldDecl)
  | expr (e : Expr)

/-- The construct as a node of the tree; a struct literal is the whole of it, not its keyword alone. -/
def Construct.node : Construct → SyntaxNode
  | .type t => .type t
  | .expr e | .length e => .expr e
  | .struct st => .struct st
  | .typeDecl d => .typeDecl d
  | .constName _ span => .word span
  | .constDecl d => .constDecl d

namespace SyntaxNode

def span : SyntaxNode → Span
  | .file f => f.span
  | .import_ i => i.span
  | .typeDecl d => d.span
  | .constDecl d => d.span
  | .word span => span
  | .type t => t.span
  | .struct st => st.span
  | .field f => f.span
  | .expr e => e.span

/-- The nodes directly inside a node. -/
def inner : SyntaxNode → List SyntaxNode
  | .file f =>
    f.imports.map .import_ ++ f.types.map .typeDecl ++ f.consts.map .constDecl ++ f.locals.map fun l => .struct l.type
  | .import_ _ | .word _ => []
  | .typeDecl d => [.type d.type]
  | .constDecl d => (d.names.map fun n => .word n.2) ++ d.values.map .expr
  | .type (.named _ _ args _) => args.map .type
  | .type (.pointer e _) | .type (.slice e _) | .type (.chan _ e _) => [.type e]
  | .type (.array n e _) => [.expr n, .type e]
  | .type (.map k v _) => [.type k, .type v]
  | .type (.func _) | .type (.interface _) => []
  | .type (.struct st) => [.struct st]
  | .struct st => .word st.keyword :: st.fields.map .field
  | .field f => [.type f.type]
  | .expr (.unary _ x _) | .expr (.convert x _) => [.expr x]
  | .expr (.binary _ l r _) => [.expr l, .expr r]
  | .expr (.int ..) | .expr (.name ..) | .expr (.iota _) | .expr (.other _) => []

/-- Whether a node is another one or in it, at any depth. -/
inductive Has : SyntaxNode → SyntaxNode → Prop
  | self {n : SyntaxNode} : Has n n
  | inner {n c m : SyntaxNode} (hc : c ∈ n.inner) (hm : Has c m) : Has n m

/-- What a construct is made of is in it. -/
theorem has_of_part {c d : Construct} (h : c.Part d) : d.node.Has c.node := by
  induction h with
  | self => exact .self
  | argument ha _ ih => exact .inner (List.mem_map_of_mem ha) ih
  | field hd _ ih => exact .inner (.tail _ (List.mem_map_of_mem hd)) (.inner (List.mem_singleton_self _) ih)
  | name hn _ ih => exact .inner (List.mem_append_left _ (List.mem_map_of_mem hn)) ih
  | initial he _ ih => exact .inner (List.mem_append_right _ (List.mem_map_of_mem he)) ih
  | lengthExpr _ ih => exact ih
  | element _ ih | value _ ih | right _ ih => exact .inner (.tail _ (List.mem_singleton_self _)) ih
  | pointer _ ih | slice _ ih | length _ ih | key _ ih | chan _ ih | literal _ ih | operand _ ih | left _ ih
  | converted _ ih | declared _ ih => exact .inner (List.mem_cons_self ..) ih

/-! ## Nested spans -/

/-- Whether the spans of a node and of all nodes in it run between given places, each in the span around it. -/
def Nested (good : Nat → Prop) (n : SyntaxNode) : Prop :=
  ∀ m, n.Has m → m.span.Within good ∧ ∀ c ∈ m.inner, c.span.Inside m.span

/-- Whether a node with nested spans begins no sooner than at one place, and ends no later than at another. -/
structure Between (good : Nat → Prop) (lo hi : Nat) (n : SyntaxNode) : Prop where
  nested : n.Nested good
  start : lo ≤ n.span.start
  stop : n.span.stop ≤ hi

variable {good : Nat → Prop} {lo hi lo' hi' : Nat} {n m c : SyntaxNode}

theorem Nested.within (h : n.Nested good) : n.span.Within good := (h n .self).1

theorem Nested.inner (h : n.Nested good) (hc : c ∈ n.inner) : c.Nested good := fun m hm => h m (.inner hc hm)

namespace Between

theorem mono (h : n.Between good lo hi) (hlo : lo' ≤ lo) (hhi : hi ≤ hi') : n.Between good lo' hi' :=
  ⟨h.nested, Nat.le_trans hlo h.start, Nat.le_trans h.stop hhi⟩

theorem of_inside (h : n.Nested good) {s : Span} (hs : n.span.Inside s) : n.Between good s.start s.stop :=
  ⟨h, hs.start, hs.stop⟩

theorem inside {s : Span} (h : n.Between good s.start s.stop) : n.span.Inside s := ⟨h.start, h.stop⟩

/-- Nodes directly inside a nested node stand between its ends. -/
theorem of_mem_inner (h : n.Nested good) (hc : c ∈ n.inner) : c.Between good n.span.start n.span.stop :=
  .of_inside (h.inner hc) ((h n .self).2 c hc)

theorem has (h : n.Between good lo hi) (hm : n.Has m) : m.Between good lo hi := by
  induction hm with
  | self => exact h
  | inner hc _ ih => exact ih ((of_mem_inner h.nested hc).mono h.start h.stop)

end Between

/-- A node is nested when the nodes directly inside it are, between its ends. -/
theorem nested_of_inner {s : Span} (hn : n.span = s) (hs : s.Within good)
    (h : ∀ c ∈ n.inner, c.Between good s.start s.stop) : n.Nested good := by
  subst hn
  intro m hm
  cases hm with
  | self => exact ⟨hs, fun c hc => (h c hc).inside⟩
  | inner hc hm => exact (h _ hc).nested m hm

/-- A node that spans two nodes, and has nothing else directly inside it, stands where they do. -/
theorem between_merge {a b : SyntaxNode} (ha : a.Between good lo hi) (hb : b.Between good lo hi)
    (hn : n.span = a.span.merge b.span) (hinner : ∀ c ∈ n.inner, c = a ∨ c = b) : n.Between good lo hi where
  nested := by
    refine nested_of_inner hn (ha.nested.within.merge hb.nested.within) fun c hc => ?_
    rcases hinner c hc with rfl | rfl
    · exact .of_inside ha.nested (Span.inside_merge_left ..)
    · exact .of_inside hb.nested (Span.inside_merge_right ..)
  start := by
    rw [hn, Span.merge_start]
    exact Nat.le_min.2 ⟨ha.start, hb.start⟩
  stop := by
    rw [hn, Span.merge_stop]
    exact Nat.max_le.2 ⟨ha.stop, hb.stop⟩

/-! ## Single forms -/

/-- A struct literal as a type stands where the literal does. -/
theorem between_literal {st : StructType} (h : (struct st).Between good lo hi) :
    (type (.struct st)).Between good lo hi where
  nested := by
    refine nested_of_inner rfl h.nested.within (List.forall_mem_singleton.2 ?_)
    exact ⟨h.nested, Nat.le_refl _, Nat.le_refl _⟩
  start := h.start
  stop := h.stop

@[simp] theorem inner_withSpan (e : Expr) (s : Span) : (expr (e.withSpan s)).inner = (expr e).inner := by
  cases e <;> rfl

/-- Parentheses around an expression keep its spans nested. -/
theorem nested_withSpan {e : Expr} {s : Span} (hs : s.Within good) (he : (expr e).Between good s.start s.stop) :
    (expr (e.withSpan s)).Nested good := by
  refine nested_of_inner (Expr.span_withSpan e s) hs fun c hc => ?_
  rw [inner_withSpan] at hc
  exact he.has (.inner hc .self)

end SyntaxNode

/-! ## Lines of constants -/

/-- Whether a line of constants has the values of an earlier line, in which they are written. -/
structure ConstDecl.Repeats (d line : ConstDecl) : Prop where
  values : d.values = line.values
  iota : line.iota < d.iota
  behind : line.span.stop ≤ d.span.start
  written : ∀ e ∈ d.values, e.span.Inside line.span

/-- Whether the spans of a line of constants nest, but for the values that it repeats from one of the given lines. -/
structure ConstDecl.Placed (good : Nat → Prop) (lo hi : Nat) (lines : List ConstDecl) (d : ConstDecl) : Prop where
  span : d.span.Within good
  start : lo ≤ d.span.start
  stop : d.span.stop ≤ hi
  names : ∀ n ∈ d.names, (SyntaxNode.word n.2).Between good d.span.start d.span.stop
  values : ∀ e ∈ d.values, (SyntaxNode.expr e).Nested good
  written : (∀ e ∈ d.values, e.span.Inside d.span) ∨ ∃ line ∈ lines, d.Repeats line

namespace ConstDecl.Placed

variable {good : Nat → Prop} {lo hi hi' : Nat} {lines lines' : List ConstDecl} {d : ConstDecl}

theorem mono (h : d.Placed good lo hi lines) (hhi : hi ≤ hi') (hlines : ∀ line ∈ lines, line ∈ lines') :
    d.Placed good lo hi' lines' :=
  { h with
    stop := Nat.le_trans h.stop hhi
    written := h.written.imp_right fun ⟨line, hline, hrepeats⟩ => ⟨line, hlines line hline, hrepeats⟩ }

/-- The values of a line are written in a line that is no later than it is. -/
theorem exists_line (h : d.Placed good lo hi lines) (hd : d ∈ lines) :
    ∃ line ∈ lines, d.values = line.values ∧ line.iota ≤ d.iota ∧ ∀ e ∈ d.values, e.span.Inside line.span := by
  rcases h.written with hown | ⟨line, hline, hrepeats⟩
  · exact ⟨d, hd, rfl, Nat.le_refl _, hown⟩
  · exact ⟨line, hline, hrepeats.values, Nat.le_of_lt hrepeats.iota, hrepeats.written⟩

end ConstDecl.Placed

/-! ## Files -/

/-- Whether a node is a line of constants, and another one a value that it repeats from an earlier line of the file. -/
def SyntaxNode.Repeats (f : SourceFile) (n c : SyntaxNode) : Prop :=
  ∃ d line e, n = .constDecl d ∧ c = .expr e ∧ e ∈ d.values ∧ line ∈ f.consts ∧ d.Repeats line

/-- Whether the declarations of a file have nested spans, but for repeated values, between two places. -/
structure SourceFile.Placed (good : Nat → Prop) (lo hi : Nat) (f : SourceFile) : Prop where
  imports : ∀ i ∈ f.imports, (SyntaxNode.import_ i).Between good lo hi
  types : ∀ d ∈ f.types, (SyntaxNode.typeDecl d).Between good lo hi
  consts : ∀ d ∈ f.consts, d.Placed good lo hi f.consts

namespace SourceFile

open SyntaxNode (Between Nested)

variable {good : Nat → Prop} {f : SourceFile} {n m c : SyntaxNode}

theorem Placed.later {lo hi hi' : Nat} (h : f.Placed good lo hi) (hhi : hi ≤ hi') : f.Placed good lo hi' where
  imports i hi := (h.imports i hi).mono (Nat.le_refl _) hhi
  types d hd := (h.types d hd).mono (Nat.le_refl _) hhi
  consts d hd := (h.consts d hd).mono hhi fun _ hline => hline

section

variable (hf : f.Placed good f.span.start f.span.stop)
  (hlocals : ∀ l ∈ f.locals, (SyntaxNode.struct l.type).Between good f.span.start f.span.stop)
include hf hlocals

/-- What is directly in a file lies in its span, and is nested or a line of constants. -/
theorem Placed.of_mem_inner (hc : c ∈ (SyntaxNode.file f).inner) :
    c.span.Inside f.span ∧ (c.Nested good ∨ ∃ d ∈ f.consts, c = .constDecl d) := by
  have hnested {c : SyntaxNode} (h : c.Between good f.span.start f.span.stop) :
      c.span.Inside f.span ∧ (c.Nested good ∨ ∃ d ∈ f.consts, c = .constDecl d) := ⟨h.inside, .inl h.nested⟩
  simp only [SyntaxNode.inner, List.mem_append, List.mem_map] at hc
  rcases hc with ((⟨i, hi, rfl⟩ | ⟨d, hd, rfl⟩) | ⟨d, hd, rfl⟩) | ⟨l, hl, rfl⟩
  · exact hnested (hf.imports i hi)
  · exact hnested (hf.types d hd)
  · exact ⟨⟨(hf.consts d hd).start, (hf.consts d hd).stop⟩, .inr ⟨d, hd, rfl⟩⟩
  · exact hnested (hlocals l hl)

omit hlocals in
/-- What is in a line of constants of a file lies in the span around it, or is repeated. -/
theorem Placed.of_has_constDecl {d : ConstDecl} (hd : d ∈ f.consts) (hn : (SyntaxNode.constDecl d).Has n) :
    n.span.Within good ∧ ∀ c ∈ n.inner, c.span.Inside n.span ∨ n.Repeats f c := by
  have hplaced := hf.consts d hd
  have hnested {m : SyntaxNode} (hm : m.Nested good) (hn : m.Has n) :
      n.span.Within good ∧ ∀ c ∈ n.inner, c.span.Inside n.span ∨ n.Repeats f c :=
    ⟨(hm n hn).1, fun c hc => .inl ((hm n hn).2 c hc)⟩
  cases hn with
  | self =>
    refine ⟨hplaced.span, fun c hc => ?_⟩
    simp only [SyntaxNode.inner, List.mem_append, List.mem_map] at hc
    rcases hc with ⟨name, hname, rfl⟩ | ⟨e, he, rfl⟩
    · exact .inl (hplaced.names name hname).inside
    · refine hplaced.written.imp (fun hown => hown e he) fun ⟨line, hline, hrepeats⟩ => ?_
      exact ⟨d, line, e, rfl, rfl, he, hline, hrepeats⟩
  | inner hc hm =>
    simp only [SyntaxNode.inner, List.mem_append, List.mem_map] at hc
    rcases hc with ⟨name, hname, rfl⟩ | ⟨e, he, rfl⟩
    · exact hnested (hplaced.names name hname).nested hm
    · exact hnested (hplaced.values e he) hm

theorem Placed.of_has (hspan : f.span.Within good) (hn : (SyntaxNode.file f).Has n) :
    n.span.Within good ∧ ∀ c ∈ n.inner, c.span.Inside n.span ∨ n.Repeats f c := by
  cases hn with
  | self => exact ⟨hspan, fun c hc => .inl (of_mem_inner hf hlocals hc).1⟩
  | inner hc hn =>
    rcases (of_mem_inner hf hlocals hc).2 with hnested | ⟨d, hd, rfl⟩
    · exact ⟨(hnested n hn).1, fun c hc => .inl ((hnested n hn).2 c hc)⟩
    · exact of_has_constDecl hf hd hn

end

end SourceFile

end StructPadding
