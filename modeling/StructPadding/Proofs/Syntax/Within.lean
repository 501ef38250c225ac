-- SUMMARY: Constructs all of whose parts are well placed.
import StructPadding.Proofs.Source.Place
import StructPadding.Proofs.Syntax.Construct

/-!
# Well-placed constructs

A construct is well placed when the spans of all its parts are. There is one law for each way to make a
construct: it is well placed when its own span is and the constructs it is made of are.
-/

namespace StructPadding.Construct

/-- Whether the spans of all parts of a construct run between given places. -/
def Within (good : Nat → Prop) (root : Construct) : Prop := ∀ c : Construct, c.Part root → c.span.Within good

variable {good : Nat → Prop} {s : Span}

theorem Within.span {c : Construct} (h : c.Within good) : c.span.Within good := h c .self

theorem Within.part {c d : Construct} (h : c.Within good) (hd : d.Part c) : d.Within good :=
  fun a ha => h a (ha.trans hd)

/-! ## Types -/

theorem within_named {package : Option String} {name : String} {args : List TypeExpr} (hs : s.Within good)
    (hargs : ∀ a ∈ args, Within good (.type a)) : Within good (.type (.named package name args s)) := by
  intro c hc
  cases hc with
  | self => exact hs
  | argument ha hc => exact hargs _ ha c hc

theorem within_pointer {e : TypeExpr} (hs : s.Within good) (he : Within good (.type e)) :
    Within good (.type (.pointer e s)) := by
  intro c hc
  cases hc with
  | self => exact hs
  | pointer hc => exact he c hc

theorem within_slice {e : TypeExpr} (hs : s.Within good) (he : Within good (.type e)) :
    Within good (.type (.slice e s)) := by
  intro c hc
  cases hc with
  | self => exact hs
  | slice hc => exact he c hc

theorem within_length {e : Expr} (he : Within good (.expr e)) : Within good (.length e) := by
  intro c hc
  cases hc with
  | self => exact he.span
  | lengthExpr hc => exact he c hc

theorem within_array {n : Expr} {e : TypeExpr} (hs : s.Within good) (hn : Within good (.expr n))
    (he : Within good (.type e)) : Within good (.type (.array n e s)) := by
  intro c hc
  cases hc with
  | self => exact hs
  | length hc => exact within_length hn c hc
  | element hc => exact he c hc

theorem within_map {k v : TypeExpr} (hs : s.Within good) (hk : Within good (.type k))
    (hv : Within good (.type v)) : Within good (.type (.map k v s)) := by
  intro c hc
  cases hc with
  | self => exact hs
  | key hc => exact hk c hc
  | value hc => exact hv c hc

theorem within_chan {d : Direction} {e : TypeExpr} (hs : s.Within good) (he : Within good (.type e)) :
    Within good (.type (.chan d e s)) := by
  intro c hc
  cases hc with
  | self => exact hs
  | chan hc => exact he c hc

theorem within_func (hs : s.Within good) : Within good (.type (.func s)) := by
  intro c hc
  cases hc with
  | self => exact hs

theorem within_interface (hs : s.Within good) : Within good (.type (.interface s)) := by
  intro c hc
  cases hc with
  | self => exact hs

theorem within_struct {fields : List FieldDecl} {keyword : Span} (hkeyword : keyword.Within good)
    (hs : s.Within good) (hfields : ∀ d ∈ fields, Within good (.type d.type)) :
    Within good (.type (.struct ⟨fields, keyword, s⟩)) := by
  intro c hc
  cases hc with
  | self => exact hs
  | literal hc =>
    cases hc with
    | self => exact hkeyword
    | field hd hc => exact hfields _ hd c hc

/-! ## Expressions -/

theorem within_int {v : Int} (hs : s.Within good) : Within good (.expr (.int v s)) := by
  intro c hc
  cases hc with
  | self => exact hs

theorem within_name {package : Option String} {name : String} (hs : s.Within good) :
    Within good (.expr (.name package name s)) := by
  intro c hc
  cases hc with
  | self => exact hs

theorem within_iota (hs : s.Within good) : Within good (.expr (.iota s)) := by
  intro c hc
  cases hc with
  | self => exact hs

theorem within_other (hs : s.Within good) : Within good (.expr (.other s)) := by
  intro c hc
  cases hc with
  | self => exact hs

theorem within_unary {op : UnaryOp} {x : Expr} (hs : s.Within good) (hx : Within good (.expr x)) :
    Within good (.expr (.unary op x s)) := by
  intro c hc
  cases hc with
  | self => exact hs
  | operand hc => exact hx c hc

theorem within_binary {op : BinaryOp} {l r : Expr} (hs : s.Within good) (hl : Within good (.expr l))
    (hr : Within good (.expr r)) : Within good (.expr (.binary op l r s)) := by
  intro c hc
  cases hc with
  | self => exact hs
  | left hc => exact hl c hc
  | right hc => exact hr c hc

theorem within_convert {x : Expr} (hs : s.Within good) (hx : Within good (.expr x)) :
    Within good (.expr (.convert x s)) := by
  intro c hc
  cases hc with
  | self => exact hs
  | converted hc => exact hx c hc

/-- An expression may be put at another place, its operands staying where they are. -/
theorem within_withSpan {e : Expr} (hs : s.Within good) (he : Within good (.expr e)) :
    Within good (.expr (e.withSpan s)) := by
  cases e with
  | int v _ => exact within_int hs
  | name p n _ => exact within_name hs
  | iota _ => exact within_iota hs
  | unary op x _ => exact within_unary hs (he.part (.operand .self))
  | binary op l r _ => exact within_binary hs (he.part (.left .self)) (he.part (.right .self))
  | convert x _ => exact within_convert hs (he.part (.converted .self))
  | other _ => exact within_other hs

/-! ## Declarations -/

theorem within_typeDecl {d : TypeDecl} (hs : d.span.Within good) (ht : Within good (.type d.type)) :
    Within good (.typeDecl d) := by
  intro c hc
  cases hc with
  | self => exact hs
  | declared hc => exact ht c hc

theorem within_constDecl {d : ConstDecl} (hs : d.span.Within good) (hnames : ∀ n ∈ d.names, n.2.Within good)
    (hvalues : ∀ e ∈ d.values, Within good (.expr e)) : Within good (.constDecl d) := by
  intro c hc
  cases hc with
  | self => exact hs
  | name hn hc =>
    cases hc with
    | self => exact hnames _ hn
  | initial he hc => exact hvalues _ he c hc

end StructPadding.Construct
