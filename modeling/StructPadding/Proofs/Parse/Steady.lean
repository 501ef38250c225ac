-- SUMMARY: Parsers look no further ahead than they have reason to, and loop and recur only behind a token.
import StructPadding.Proofs.Parse.Soundness

/-!
# Steady parsers

What a parser does with its state is of few kinds: it looks at the tokens that come next and takes the first of them,
it makes spans that end with the last token taken, and it keeps struct literals. A steady one has three habits in
this. It looks further ahead only past tokens that bound nothing: no semicolons, commas or closing brackets. It ends a
span only where it has taken a token. And it goes on with a loop, or recurs through the grammar, only behind a token.
There is one statement for each parser here; what follows for the runs of a parser is said once for all steady ones.

A parser stands beside the same one in another grammar throughout, so that their runs can be compared.
-/

namespace StructPadding.Parser

open Token (Kind Event Stream)

/-- Whether a token is a bound that no parser looks past: a semicolon, a comma or a closing bracket. -/
def isBound : Kind → Bool
  | .symbol .semi | .symbol .comma | .symbol .rParen | .symbol .rBracket | .symbol .rBrace => true
  | _ => false

/-- How far a parser has come: whether it has taken a token, and the kinds of the tokens that come next. -/
structure Pace where
  taken : Bool
  kinds : Nat → Kind

/-- The pace behind the next token. -/
def Pace.next (k : Pace) : Pace := ⟨k.taken || k.kinds 0 != .eof, fun n => k.kinds (n + 1)⟩

/-- Whether a turn that another one follows has taken a token. -/
def Onward {β : Type} : ForInStep β → Pace → Prop
  | .yield _, l => l.taken = true
  | .done _, _ => True

/-- Whether a parser is steady from a pace on, and its value and the pace behind it have `Q`. Where it may recur at
    once, without a token taken, `free` is set. -/
inductive Steady (g g' : Grammar) :
    (free : Bool) → Pace → {α : Type} → Parser α → Parser α → (α → Pace → Prop) → Prop
  | pure {free k} {α : Type} {a : α} {Q : α → Pace → Prop} : Q a k → Steady g g' free k (pure a) (pure a) Q
  | bind {free k} {α β : Type} {p p' : Parser α} {f f' : α → Parser β} {P : α → Pace → Prop} {Q : β → Pace → Prop} :
      Steady g g' free k p p' P → (∀ a l, P a l → Steady g g' free l (f a) (f' a) Q) →
      Steady g g' free k (p >>= f) (p' >>= f') Q
  | mono {free k} {α : Type} {p p' : Parser α} {P Q : α → Pace → Prop} :
      Steady g g' free k p p' P → (∀ a l, P a l → Q a l) → Steady g g' free k p p' Q
  | fail {free k} {α : Type} {cause : Cause} {span : Span} {Q : α → Pace → Prop} : cause.stage = .parser →
      Steady g g' free k (fail cause span) (fail cause span) Q
  | peekAt {free k} (n : Nat) : (∀ i < n, isBound (k.kinds i) = false) →
      Steady g g' free k (read (Stream.peekAt n)) (read (Stream.peekAt n)) fun t l => l = k ∧ t.kind = k.kinds n
  | advance {free k} : Steady g g' free k advance advance fun t l => l = k.next ∧ t.kind = k.kinds 0
  | spanFrom {free k} {first : Span} : k.taken = true →
      Steady g g' free k (spanFrom first) (spanFrom first) fun _ l => l = k
  | keep {free k} {literal : LocalStruct} : Steady g g' free k (keep literal) (keep literal) fun _ l => l = k
  | type {free k} : (free || k.taken) = true → Steady g g' free k g.type g'.type fun _ l => l.taken = true
  | expr {free k} {precedence : Nat} : (free || k.taken) = true →
      Steady g g' free k (g.expr precedence) (g'.expr precedence) fun _ l => l.taken = true
  | unary {free k} : (free || k.taken) = true → Steady g g' free k g.unary g'.unary fun _ l => l.taken = true
  | repeating {free k} {β : Type} {init : β} {turn turn' : β → Parser (ForInStep β)} (busy : (Nat → Kind) → Prop) :
      (∀ b kinds, Steady g g' (free || k.taken) ⟨false, kinds⟩ (turn b) (turn' b) fun step l =>
        Onward step l ∧ (busy kinds → l.taken = true)) →
      Steady g g' free k (repeating init turn) (repeating init turn') fun _ l =>
        k.taken = true ∨ busy k.kinds → l.taken = true

@[simp] theorem Pace.taken_next {k : Pace} : k.next.taken = true ↔ k.taken = true ∨ k.kinds 0 ≠ .eof := by
  simp [next]

variable {g g' : Grammar} {free : Bool} {k : Pace} {α β : Type} {P : α → Pace → Prop} {Q : β → Pace → Prop}

/-! ## Reading -/

theorem steady_peek : Steady g g' free k peek peek fun t l => l = k ∧ t.kind = k.kinds 0 := .peekAt 0 nofun

theorem steady_peekKind : Steady g g' free k peekKind peekKind fun a l => l = k ∧ a = k.kinds 0 :=
  .bind steady_peek fun _ _ h => .pure h

theorem steady_peekKindAt (n : Nat) (h : ∀ i < n, isBound (k.kinds i) = false) :
    Steady g g' free k (peekKindAt n) (peekKindAt n) fun a l => l = k ∧ a = k.kinds n :=
  .bind (.peekAt n h) fun _ _ h => .pure h

theorem steady_check (kind : Kind) :
    Steady g g' free k (check kind) (check kind) fun b l => l = k ∧ b = (k.kinds 0).isLike kind := by
  rw [check_eq]
  exact .bind steady_peek fun _ _ h => .pure ⟨h.1, by rw [h.2]⟩

namespace Steady

theorem ite {b : Prop} [Decidable b] {p p' q q' : Parser α} (hp : b → Steady g g' free k p p' P)
    (hq : ¬ b → Steady g g' free k q q' P) : Steady g g' free k (if b then p else q) (if b then p' else q') P := by
  split
  · exact hp ‹_›
  · exact hq ‹_›

/-- A loop that may end with its first turn, and take nothing. -/
theorem loop {init : β} {turn turn' : β → Parser (ForInStep β)}
    (h : ∀ b kinds, Steady g g' (free || k.taken) ⟨false, kinds⟩ (turn b) (turn' b) Onward) :
    Steady g g' free k (Parser.repeating init turn) (Parser.repeating init turn') fun _ l =>
      k.taken = true → l.taken = true :=
  .mono (.repeating (fun _ => False) fun b kinds => .mono (h b kinds) fun _ _ h => ⟨h, False.elim⟩)
    fun _ _ h hk => h (.inl hk)

theorem fail_bind {cause : Cause} {span : Span} {f f' : α → Parser β} (h : cause.stage = .parser) :
    Steady g g' free k (Parser.fail cause span >>= f) (Parser.fail cause span >>= f') Q :=
  .bind (P := fun _ _ => False) (.fail h) fun _ _ => False.elim

theorem pure_bind {a : α} {f f' : α → Parser β} (h : Steady g g' free k (f a) (f' a) Q) :
    Steady g g' free k (Pure.pure a >>= f) (Pure.pure a >>= f') Q := by
  refine .bind (P := fun b l => b = a ∧ l = k) (.pure ⟨rfl, rfl⟩) ?_
  rintro _ _ ⟨rfl, rfl⟩
  exact h

/-- What follows does not depend on the span. -/
theorem spanned {first : Span} {f f' : Span → Parser β} (hk : k.taken = true)
    (hf : ∀ span, Steady g g' free k (f span) (f' span) Q) :
    Steady g g' free k (Parser.spanFrom first >>= f) (Parser.spanFrom first >>= f') Q := by
  refine .bind (.spanFrom hk) ?_
  rintro span _ rfl
  exact hf span

/-- A choice by the next token. -/
theorem ifCheck {kind : Kind} (hkind : IsFixed kind) {p p' q q' : Parser α}
    (hp : k.kinds 0 = kind → Steady g g' free k p p' P) (hq : k.kinds 0 ≠ kind → Steady g g' free k q q' P) :
    Steady g g' free k (check kind >>= fun b => if b = true then p else q)
      (check kind >>= fun b => if b = true then p' else q') P := by
  refine .bind (steady_check kind) ?_
  rintro b _ ⟨rfl, rfl⟩
  exact .ite (fun h => hp ((hkind.isLike_iff _).1 h)) fun h => hq fun heq => h ((hkind.isLike_iff _).2 heq)

/-- A choice by whether a token was taken. -/
theorem ifAccept {kind : Kind} (hkind : IsFixed kind) {p p' q q' : Parser α}
    (hp : ∀ l, l.taken = true → Steady g g' free l p p' P) (hq : Steady g g' free k q q' P) :
    Steady g g' free k (accept kind >>= fun b => if b = true then p else q)
      (accept kind >>= fun b => if b = true then p' else q') P := by
  have haccept : Steady g g' free k (accept kind) (accept kind) fun b l => if b then l.taken = true else l = k := by
    refine .ifCheck hkind (fun heq => ?_) fun _ => .pure rfl
    refine .bind .advance ?_
    rintro _ _ ⟨rfl, -⟩
    exact .pure (Pace.taken_next.2 (.inr (heq ▸ hkind.ne_eof)))
  refine .bind haccept ?_
  rintro (_ | _) l h
  · obtain rfl := h
    exact hq
  · exact hp l h

end Steady

theorem steady_accept {kind : Kind} (hkind : IsFixed kind) (hk : k.taken = true) :
    Steady g g' free k (accept kind) (accept kind) fun _ l => l.taken = true := by
  refine .ifCheck hkind (fun heq => ?_) fun _ => .pure hk
  refine .bind .advance ?_
  rintro _ _ ⟨rfl, -⟩
  exact .pure (Pace.taken_next.2 (.inl hk))

theorem steady_require {kind : Kind} (hkind : IsFixed kind) :
    Steady g g' free k (require kind) (require kind) fun _ l => l = k ∧ k.kinds 0 = kind := by
  refine .ifCheck hkind (fun heq => .pure ⟨rfl, heq⟩) fun _ => ?_
  exact .bind steady_peek fun _ _ _ => .fail rfl

theorem steady_expect {kind : Kind} (hkind : IsFixed kind) :
    Steady g g' free k (expect kind) (expect kind) fun _ l => l.taken = true := by
  refine .bind (steady_require hkind) ?_
  rintro _ _ ⟨rfl, heq⟩
  refine .mono .advance ?_
  rintro _ _ ⟨rfl, -⟩
  exact Pace.taken_next.2 (.inr (heq ▸ hkind.ne_eof))

/-- Any token but the end of the file is taken. -/
theorem steady_take : Steady g g' free k advance advance fun t l => t.kind ≠ .eof → l.taken = true := by
  refine .mono .advance ?_
  rintro t _ ⟨rfl, ht⟩ hmore
  exact Pace.taken_next.2 (.inr (ht ▸ hmore))

theorem steady_advance (h : k.kinds 0 ≠ .eof) :
    Steady g g' free k advance advance fun _ l => l.taken = true := by
  refine .mono .advance ?_
  rintro _ _ ⟨rfl, -⟩
  exact Pace.taken_next.2 (.inr h)

theorem steady_name : Steady g g' free k name name fun _ l => l.taken = true := by
  refine .bind steady_take fun t l htaken => ?_
  split
  · next hkind => exact .pure (htaken (by simp [hkind]))
  · exact .fail rfl

theorem steady_identifier : Steady g g' free k identifier identifier fun _ l => l.taken = true :=
  .bind steady_name fun _ _ h => .pure h

theorem steady_declarationEnd (hk : k.taken = true) :
    Steady g g' free k declarationEnd declarationEnd fun _ l => l.taken = true := by
  refine .ifAccept (isFixed_symbol .semi) (fun _ h => .pure h) ?_
  refine .bind (steady_check .eof) ?_
  rintro b _ ⟨rfl, -⟩
  refine .ite (fun _ => .pure hk) fun _ => ?_
  refine .mono (steady_require (isFixed_symbol .semi)) ?_
  rintro _ _ ⟨rfl, -⟩
  exact hk

theorem steady_keepStructs (t : TypeExpr) :
    Steady g g' free k (keepStructs t) (keepStructs t) fun _ l => l = k := by
  unfold keepStructs
  generalize t.outerStructs = structs
  induction structs with
  | nil => exact .pure rfl
  | cons st rest ih =>
    refine .bind .keep ?_
    rintro _ _ rfl
    exact ih

/-! ## Repeating -/

theorem steady_entries_turn {close : Kind} (hclose : IsFixed close) {entry entry' : List α → Parser α} {done : List α}
    (hentry : Steady g g' free k (entry done) (entry' done) fun _ l => l.taken = true) :
    Steady g g' free k (entries.turn close entry done) (entries.turn close entry' done) Onward := by
  refine .ifCheck hclose (fun _ => .pure trivial) fun _ => ?_
  refine .ifAccept (isFixed_symbol .semi) (fun _ h => .pure h) ?_
  refine .bind hentry fun a l hl => ?_
  refine .ifCheck hclose (fun _ => .pure hl) fun _ => ?_
  exact .bind (steady_expect (isFixed_symbol .semi)) fun _ _ h => .pure h

theorem steady_entries {close : Kind} (hclose : IsFixed close) {entry entry' : List α → Parser α}
    (hentry : ∀ done kinds,
      Steady g g' (free || k.taken) ⟨false, kinds⟩ (entry done) (entry' done) fun _ l => l.taken = true) :
    Steady g g' free k (entries close entry) (entries close entry') fun _ l => k.taken = true → l.taken = true :=
  .loop fun done kinds => steady_entries_turn hclose (hentry done kinds)

theorem steady_group {entry entry' : List α → Parser α}
    (hentry : ∀ {free k} done, Steady g g' free k (entry done) (entry' done) fun _ l => l.taken = true) :
    Steady g g' free k (group entry) (group entry') fun _ l => l.taken = true := by
  refine .ifAccept (isFixed_symbol .lParen) (fun l hl => ?_) (.bind (hentry []) fun _ _ h => .pure h)
  refine .bind (steady_entries (isFixed_symbol .rParen) fun done _ => hentry done) fun es _ _ => ?_
  exact .bind (steady_expect (isFixed_symbol .rParen)) fun _ _ h => .pure h

theorem steady_commaSeparated_turn {item item' : Parser α}
    (hitem : ∀ {free k}, Steady g g' free k item item' fun _ l => l.taken = true) (items : List α) :
    Steady g g' free k (commaSeparated.turn item items) (commaSeparated.turn item' items) Onward :=
  .ifAccept (isFixed_symbol .comma) (fun _ _ => .bind hitem fun _ _ h => .pure h) (.pure trivial)

theorem steady_commaSeparated {item item' : Parser α}
    (hitem : ∀ {free k}, Steady g g' free k item item' fun _ l => l.taken = true) :
    Steady g g' free k (commaSeparated item) (commaSeparated item') fun _ l => l.taken = true := by
  refine .bind hitem fun first l hl => ?_
  exact .mono (.loop fun items _ => steady_commaSeparated_turn hitem items) fun _ _ h => h hl

/-! ## Struct literals -/

theorem steady_typeArgs_turn (h : (free || k.taken) = true) (args : List TypeExpr) :
    Steady g g' free k (typeArgs.turn g args) (typeArgs.turn g' args) Onward := by
  refine .ifCheck (isFixed_symbol .rBracket) (fun _ => .pure trivial) fun _ => ?_
  refine .bind (.type h) fun t l hl => ?_
  exact .ifAccept (isFixed_symbol .comma) (fun _ h => .pure h) (.pure trivial)

theorem steady_typeArgs (hk : k.taken = true) :
    Steady g g' free k (typeArgs g) (typeArgs g') fun _ l => l.taken = true := by
  refine .ifAccept (isFixed_symbol .lBracket) (fun l hl => ?_) (.pure hk)
  refine .bind (.loop fun args _ => steady_typeArgs_turn (by simp [hl]) args) fun args _ _ => ?_
  exact .bind (steady_expect (isFixed_symbol .rBracket)) fun _ _ h => .pure h

theorem steady_typeName : Steady g g' free k (typeName g) (typeName g') fun _ l => l.taken = true := by
  refine .bind steady_name fun first l hl => ?_
  refine .ifAccept (isFixed_symbol .dot) (fun m hm => ?_) ?_
  · refine .bind steady_identifier fun member _ hmember => ?_
    refine .bind (steady_typeArgs hmember) fun args _ hargs => ?_
    exact .spanned hargs fun _ => .pure hargs
  · refine .bind (steady_typeArgs hl) fun args _ hargs => ?_
    exact .spanned hargs fun _ => .pure hargs

theorem steady_fieldBody (h : (free || k.taken) = true) :
    Steady g g' free k (fieldBody g) (fieldBody g') fun _ l => l.taken = true := by
  refine .bind steady_peek ?_
  rintro start _ ⟨rfl, hstart⟩
  split
  · exact .bind (.type h) fun _ _ ht => .pure ht
  · next hkind =>
    refine .bind (steady_peekKindAt 1 (Nat.forall_lt_succ_right.2 ⟨nofun, by simp [← hstart, hkind, isBound]⟩)) ?_
    rintro next _ ⟨rfl, -⟩
    refine .ite (fun _ => .bind steady_typeName fun _ _ ht => .pure ht) fun _ => ?_
    refine .bind (steady_commaSeparated steady_identifier) fun names l hl => ?_
    exact .bind (.type (by simp [hl])) fun _ _ ht => .pure ht
  · exact .fail rfl

theorem steady_field (h : (free || k.taken) = true) :
    Steady g g' free k (field g) (field g') fun _ l => l.taken = true := by
  refine .bind steady_peek ?_
  rintro start _ ⟨rfl, -⟩
  refine .bind (steady_fieldBody h) fun body l hl => ?_
  refine .bind steady_peekKind ?_
  rintro kind _ ⟨rfl, hkind⟩
  split
  · refine .bind (steady_advance (by simp [← hkind])) fun _ _ htag => ?_
    exact .spanned htag fun _ => .pure htag
  · exact .spanned hl fun _ => .pure hl

theorem steady_structType : Steady g g' free k (structType g) (structType g') fun _ l => l.taken = true := by
  refine .bind (steady_expect (isFixed_keyword .struct)) fun keyword _ _ => ?_
  refine .bind (steady_expect (isFixed_symbol .lBrace)) fun _ l hl => ?_
  refine .bind (steady_entries (isFixed_symbol .rBrace) fun _ _ => steady_field (by simp [hl])) fun fields _ _ => ?_
  exact .bind (steady_expect (isFixed_symbol .rBrace)) fun _ _ h => .pure h

/-! ## Skipped code -/

theorem not_isBound_of_isLike_identifier {kind : Kind} (h : kind.isLike (.identifier "") = true) :
    isBound kind = false := by
  cases kind <;> first | rfl | cases h

theorem steady_atLocalStruct : Steady g g' free k atLocalStruct atLocalStruct fun _ l => l = k := by
  refine .bind steady_peekKind ?_
  rintro first k ⟨rfl, hfirst⟩
  split
  · refine .bind (steady_peekKindAt 1 (Nat.forall_lt_succ_right.2 ⟨nofun, by simp [← hfirst, isBound]⟩)) ?_
    rintro _ _ ⟨rfl, -⟩
    exact .pure rfl
  · have hone : ∀ i < 1, isBound (k.kinds i) = false := Nat.forall_lt_succ_right.2 ⟨nofun, by simp [← hfirst, isBound]⟩
    refine .bind (steady_peekKindAt 1 hone) ?_
    rintro _ _ ⟨rfl, rfl⟩
    refine .ite (fun hname => ?_) fun _ => .pure rfl
    have htwo := Nat.forall_lt_succ_right.2 ⟨hone, not_isBound_of_isLike_identifier hname⟩
    refine .bind (steady_peekKindAt 2 htwo) ?_
    rintro _ _ ⟨rfl, rfl⟩
    refine .ite (fun hstruct => ?_) fun _ => .pure rfl
    have hthird := ((isFixed_keyword .struct).isLike_iff _).1 hstruct
    refine .bind (steady_peekKindAt 3 (Nat.forall_lt_succ_right.2 ⟨htwo, by simp [hthird, isBound]⟩)) ?_
    rintro _ _ ⟨rfl, -⟩
    exact .pure rfl
  · exact .pure rfl

theorem steady_localStruct : Steady g g' free k (localStruct g) (localStruct g') fun _ l => l.taken = true := by
  have hkeep {free k} (name : Option String) : Steady g g' free k (structType g >>= fun st => Parser.keep ⟨name, st⟩)
      (structType g' >>= fun st => Parser.keep ⟨name, st⟩) fun _ l => l.taken = true := by
    refine .bind steady_structType fun st l hl => .mono .keep ?_
    rintro _ _ rfl
    exact hl
  refine .ifAccept (isFixed_keyword .type) (fun _ _ => ?_) (hkeep none)
  exact .bind steady_identifier fun name _ _ => hkeep (some name)

theorem steady_skipGroup_turn (depth : Nat) :
    Steady g g' free k (skipGroup.turn g depth) (skipGroup.turn g' depth) Onward := by
  refine .bind steady_atLocalStruct ?_
  rintro here _ rfl
  refine .ite (fun _ => .bind steady_localStruct fun _ _ h => .pure h) fun _ => ?_
  refine .bind steady_take fun t l htaken => ?_
  refine .ite (fun hopen => .pure (htaken (ne_eof_of_isOpen hopen))) fun _ => ?_
  refine .ite (fun hclose => ?_) fun _ => ?_
  · exact .ite (fun _ => .pure trivial) fun _ => .pure (htaken (ne_eof_of_isClose hclose))
  · exact .ite (fun _ => .fail_bind rfl) fun hmore => .pure (htaken hmore)

theorem steady_skipGroup : Steady g g' free k (skipGroup g) (skipGroup g') fun _ l => l.taken = true := by
  refine .bind steady_take fun opening l htaken => ?_
  refine .ite (fun hopen => ?_) fun _ => .fail_bind rfl
  refine .bind (.loop fun depth _ => steady_skipGroup_turn depth) fun _ _ h => .pure (h ?_)
  exact htaken (ne_eof_of_isOpen hopen)

theorem steady_skipUntil_turn (stop : Kind → Bool) (u : Unit) :
    Steady g g' free k (skipUntil.turn g stop u) (skipUntil.turn g' stop u) Onward := by
  refine .bind steady_peek ?_
  rintro t _ ⟨rfl, ht⟩
  refine .ite (fun _ => .pure trivial) fun _ => ?_
  refine .ite (fun _ => .bind steady_skipGroup fun _ _ h => .pure h) fun _ => ?_
  refine .ite (fun _ => .fail_bind rfl) fun hmore => ?_
  simp only [Bool.or_eq_true, decide_eq_true_eq, not_or] at hmore
  exact .bind (steady_advance (ht ▸ hmore.2)) fun _ _ h => .pure h

theorem steady_skipUntil (stop : Kind → Bool) :
    Steady g g' free k (skipUntil g stop) (skipUntil g' stop) fun _ l => k.taken = true → l.taken = true :=
  .loop fun u _ => steady_skipUntil_turn stop u

theorem steady_skipDeclaration_turn (u : Unit) :
    Steady g g' free k (skipDeclaration.turn g u) (skipDeclaration.turn g' u) fun step l =>
      Onward step l ∧ (k.kinds 0 ≠ .eof → l.taken = true) := by
  refine .bind steady_atLocalStruct ?_
  rintro here k rfl
  refine .ite (fun _ => .bind steady_localStruct fun _ _ h => .pure ⟨h, fun _ => h⟩) fun _ => ?_
  refine .bind steady_peek ?_
  rintro t _ ⟨rfl, ht⟩
  refine .ite (fun hsemi => ?_) fun _ => ?_
  · have hkind := ((isFixed_symbol .semi).isLike_iff _).1 hsemi
    exact .bind (steady_advance (by simp [← ht, hkind])) fun _ _ h => .pure ⟨trivial, fun _ => h⟩
  refine .ite (fun hend => .pure ⟨trivial, fun hmore => absurd (ht ▸ hend) hmore⟩) fun hmore => ?_
  refine .ite (fun _ => .bind steady_skipGroup fun _ _ h => .pure ⟨h, fun _ => h⟩) fun _ => ?_
  refine .ite (fun _ => .fail_bind rfl) fun _ => ?_
  exact .bind (steady_advance (ht ▸ hmore)) fun _ _ h => .pure ⟨h, fun _ => h⟩

/-- A declaration that is skipped takes a token, unless the file ends in front of it. -/
theorem steady_skipDeclaration : Steady g g' free k (skipDeclaration g) (skipDeclaration g') fun _ l =>
    k.taken = true ∨ k.kinds 0 ≠ .eof → l.taken = true :=
  .repeating (fun kinds => kinds 0 ≠ .eof) fun u _ => steady_skipDeclaration_turn u

/-! ## Expressions -/

theorem steady_atEnd : Steady g g' free k callArgs.atEnd callArgs.atEnd fun _ l => l = k :=
  .ifCheck (isFixed_symbol .comma) (fun _ => .pure rfl) fun _ => .mono (steady_check _) fun _ _ h => h.1

theorem steady_callArgs_turn (h : (free || k.taken) = true) (args : Option (List Expr)) :
    Steady g g' free k (callArgs.turn g args) (callArgs.turn g' args) Onward := by
  refine .ifCheck (isFixed_symbol .rParen) (fun _ => .pure trivial) fun _ => ?_
  refine .bind steady_peekKind ?_
  rintro kind _ ⟨rfl, -⟩
  extract_lets last next next'
  have hlast (args : Option (List Expr)) {l : Pace} : Steady g g' free l (last args) (last args) Onward :=
    .ifAccept (isFixed_symbol .comma) (fun _ h => .pure h) (.pure trivial)
  have hnext (args : Option (List Expr)) {l : Pace} : Steady g g' free l (next args) (next' args) Onward := by
    refine .bind steady_atEnd ?_
    rintro ended _ rfl
    refine .ite (fun _ => .pure_bind (hlast args)) fun _ => ?_
    exact .bind (steady_skipUntil _) fun _ _ _ => .pure_bind (hlast none)
  refine .ite (fun _ => ?_) fun _ => .pure_bind (hnext args)
  exact .bind (.expr h) fun _ _ _ => .pure_bind (hnext _)

theorem steady_callArgs : Steady g g' free k (callArgs g) (callArgs g') fun _ l => l.taken = true := by
  refine .bind (steady_expect (isFixed_symbol .lParen)) fun _ l hl => ?_
  refine .bind (.loop fun args _ => steady_callArgs_turn (by simp [hl]) args) fun args _ _ => ?_
  exact .bind (steady_expect (isFixed_symbol .rParen)) fun _ _ h => .pure h

theorem steady_operand : Steady g g' free k (operand g) (operand g') fun _ l => l.taken = true := by
  refine .bind steady_take fun t l htaken => ?_
  split
  · next hkind =>
    split
    · exact .pure (htaken (by simp [hkind]))
    · exact .fail rfl
  · next hkind => split <;> exact .pure (htaken (by simp [hkind]))
  · next hkind => exact .pure (htaken (by simp [hkind]))
  · next hkind => exact .pure (htaken (by simp [hkind]))
  · next hkind =>
    refine .ifAccept (isFixed_symbol .dot) (fun _ _ => ?_) (.pure (htaken (by simp [hkind])))
    exact .bind steady_identifier fun member _ h => .spanned h fun _ => .pure h
  · next hkind =>
    refine .bind (.expr (by simp [htaken (by simp [hkind])])) fun inner _ _ => ?_
    exact .bind (steady_expect (isFixed_symbol .rParen)) fun _ _ h => .pure h
  · exact .fail rfl

theorem steady_primaryExpr_turn (start : Span) (e : Expr) :
    Steady g g' free k (primaryExpr.turn g start e) (primaryExpr.turn g' start e) Onward := by
  refine .ifCheck (isFixed_symbol .lParen) (fun _ => ?_) fun _ => .pure trivial
  exact .bind steady_callArgs fun args _ h => .spanned h fun _ => .pure h

theorem steady_primaryExpr : Steady g g' free k (primaryExpr g) (primaryExpr g') fun _ l => l.taken = true := by
  refine .bind steady_peek ?_
  rintro start _ ⟨rfl, -⟩
  refine .bind steady_operand fun e _ he => ?_
  exact .mono (.loop fun e _ => steady_primaryExpr_turn start.span e) fun _ _ h => h he

theorem steady_unaryExpr : Steady g g' free k (unaryExpr g) (unaryExpr g') fun _ l => l.taken = true := by
  refine .bind steady_peekKind ?_
  rintro kind _ ⟨rfl, hkind⟩
  split
  · exact steady_primaryExpr
  · next op hop =>
    have hmore : kind ≠ .eof := by
      rintro rfl
      cases hop
    refine .bind (steady_advance (hkind ▸ hmore)) fun t _ ht => ?_
    exact .bind (.unary (by simp [ht])) fun _ _ h => .pure h

theorem steady_binaryExpr_turn (precedence : Nat) (lhs : Expr) :
    Steady g g' free k (binaryExpr.turn g precedence lhs) (binaryExpr.turn g' precedence lhs) Onward := by
  refine .bind steady_peekKind ?_
  rintro kind _ ⟨rfl, hkind⟩
  split
  · exact .pure trivial
  · next op hop =>
    refine .ite (fun _ => .pure trivial) fun _ => ?_
    have hmore : kind ≠ .eof := by
      rintro rfl
      cases hop
    refine .bind (steady_advance (hkind ▸ hmore)) fun t _ ht => ?_
    exact .bind (.expr (by simp [ht])) fun _ _ h => .pure h

theorem steady_binaryExpr (precedence : Nat) :
    Steady g g' free k (binaryExpr g precedence) (binaryExpr g' precedence) fun _ l => l.taken = true := by
  refine .bind steady_unaryExpr fun first _ hfirst => ?_
  exact .mono (.loop fun lhs _ => steady_binaryExpr_turn precedence lhs) fun _ _ h => h hfirst

/-! ## Types -/

theorem steady_skipSignature :
    Steady g g' free k (skipSignature g) (skipSignature g') fun _ l => l.taken = true := by
  refine .bind (steady_require (isFixed_symbol .lParen)) ?_
  rintro _ _ ⟨rfl, -⟩
  refine .bind steady_skipGroup fun _ l hl => ?_
  refine .ifCheck (isFixed_symbol .lParen) (fun _ => steady_skipGroup) fun _ => ?_
  refine .bind steady_peekKind ?_
  rintro kind _ ⟨rfl, -⟩
  refine .ite (fun _ => ?_) fun _ => .pure hl
  refine .bind (.type (by simp [hl])) fun t _ ht => .mono (steady_keepStructs t) ?_
  rintro _ _ rfl
  exact ht

theorem steady_bracketType (start : Span) (hk : k.taken = true) :
    Steady g g' free k (bracketType g start) (bracketType g' start) fun _ l => l.taken = true := by
  refine .ifAccept (isFixed_symbol .rBracket) (fun l hl => ?_) ?_
  · exact .bind (.type (by simp [hl])) fun e _ he => .spanned he fun _ => .pure he
  refine .ifCheck (isFixed_symbol .ellipsis) (fun _ => .fail_bind rfl) fun _ => ?_
  refine .bind (.expr (by simp [hk])) fun length _ _ => ?_
  refine .bind (steady_expect (isFixed_symbol .rBracket)) fun _ l hl => ?_
  exact .bind (.type (by simp [hl])) fun e _ he => .spanned he fun _ => .pure he

theorem steady_typeExpr : Steady g g' free k (typeExpr g) (typeExpr g') fun _ l => l.taken = true := by
  refine .bind steady_peek ?_
  rintro t k ⟨rfl, ht⟩
  have hadvance (h : t.kind ≠ .eof) : Steady g g' free k Parser.advance Parser.advance fun _ l => l.taken = true :=
    steady_advance (ht ▸ h)
  split
  · exact steady_typeName
  · next hkind =>
    refine .bind (hadvance (by simp [hkind])) fun _ l hl => ?_
    exact .bind (.type (by simp [hl])) fun e _ he => .spanned he fun _ => .pure he
  · next hkind => exact .bind (hadvance (by simp [hkind])) fun _ l hl => steady_bracketType _ hl
  · next hkind =>
    refine .bind (hadvance (by simp [hkind])) fun _ _ _ => ?_
    refine .bind (steady_expect (isFixed_symbol .lBracket)) fun _ l hl => ?_
    refine .bind (.type (by simp [hl])) fun key _ _ => ?_
    refine .bind (steady_expect (isFixed_symbol .rBracket)) fun _ l hl => ?_
    exact .bind (.type (by simp [hl])) fun value _ hvalue => .spanned hvalue fun _ => .pure hvalue
  · next hkind =>
    refine .bind (hadvance (by simp [hkind])) fun _ l hl => ?_
    extract_lets element element'
    have helement (d : Direction) {l : Pace} (hl : l.taken = true) :
        Steady g g' free l (element d) (element' d) fun _ l => l.taken = true :=
      .bind (.type (by simp [hl])) fun e _ he => .spanned he fun _ => .pure he
    exact .ifAccept (isFixed_symbol .arrow) (fun _ hm => helement _ hm) (helement _ hl)
  · next hkind =>
    refine .bind (hadvance (by simp [hkind])) fun _ _ _ => ?_
    refine .bind (steady_expect (isFixed_keyword .chan)) fun _ l hl => ?_
    exact .bind (.type (by simp [hl])) fun e _ he => .spanned he fun _ => .pure he
  · next hkind =>
    refine .bind (hadvance (by simp [hkind])) fun _ _ _ => ?_
    exact .bind steady_skipSignature fun _ _ h => .spanned h fun _ => .pure h
  · next hkind =>
    refine .bind (hadvance (by simp [hkind])) fun _ _ _ => ?_
    refine .bind (steady_require (isFixed_symbol .lBrace)) fun _ _ _ => ?_
    exact .bind steady_skipGroup fun _ _ h => .spanned h fun _ => .pure h
  · exact .bind steady_structType fun _ _ h => .pure h
  · next hkind =>
    refine .bind (hadvance (by simp [hkind])) fun _ l hl => ?_
    refine .bind (.type (by simp [hl])) fun inner _ _ => ?_
    exact .bind (steady_expect (isFixed_symbol .rParen)) fun _ _ h => .pure h
  · exact .fail rfl

/-! ## Declarations -/

theorem steady_importAlias : Steady g g' free k importAlias importAlias fun _ _ => True := by
  refine .bind steady_peekKind ?_
  rintro kind _ ⟨rfl, -⟩
  split
  · exact .bind .advance fun _ _ _ => .pure trivial
  · exact .bind .advance fun _ _ _ => .pure trivial
  · exact .pure trivial

theorem steady_importSpec : Steady g g' free k importSpec importSpec fun _ l => l.taken = true := by
  refine .bind steady_peek fun start _ _ => ?_
  refine .bind steady_importAlias fun alias? _ _ => ?_
  refine .bind steady_take fun t l htaken => ?_
  split
  · next hkind =>
    have hl := htaken (by simp [hkind])
    exact .spanned hl fun _ => .pure hl
  · exact .fail rfl

theorem steady_atTypeParams : Steady g g' free k atTypeParams atTypeParams fun _ l => l = k := by
  refine .ifCheck (isFixed_symbol .lBracket) (fun hopen => ?_) fun _ => .pure rfl
  have hone : ∀ i < 1, isBound (k.kinds i) = false := Nat.forall_lt_succ_right.2 ⟨nofun, by simp [hopen, isBound]⟩
  refine .bind (steady_peekKindAt 1 hone) ?_
  rintro _ _ ⟨rfl, rfl⟩
  refine .ite (fun hname => ?_) fun _ => .pure rfl
  refine .bind (steady_peekKindAt 2 (Nat.forall_lt_succ_right.2 ⟨hone, not_isBound_of_isLike_identifier hname⟩)) ?_
  rintro _ _ ⟨rfl, -⟩
  exact .pure rfl

theorem steady_typeParams_turn (names : List String) :
    Steady g g' free k (typeParams.turn g names) (typeParams.turn g' names) Onward := by
  refine .ifCheck (isFixed_symbol .rBracket) (fun _ => .pure trivial) fun _ => ?_
  refine .bind steady_identifier fun name _ hname => ?_
  refine .ifAccept (isFixed_symbol .comma) (fun _ h => .pure h) ?_
  refine .bind (steady_skipUntil _) fun _ _ _ => ?_
  exact .ifAccept (isFixed_symbol .comma) (fun _ h => .pure h) (.pure trivial)

theorem steady_typeParams : Steady g g' free k (typeParams g) (typeParams g') fun _ l => l.taken = true := by
  refine .bind (steady_expect (isFixed_symbol .lBracket)) fun _ _ _ => ?_
  refine .bind (.loop fun names _ => steady_typeParams_turn names) fun names _ _ => ?_
  exact .bind (steady_expect (isFixed_symbol .rBracket)) fun _ _ h => .pure h

theorem steady_typeDecl : Steady g g' free k (typeDecl g) (typeDecl g') fun _ l => l.taken = true := by
  refine .bind steady_peek fun start _ _ => ?_
  refine .bind steady_identifier fun name l hl => ?_
  refine .bind steady_atTypeParams ?_
  rintro generic _ rfl
  extract_lets rest rest'
  have hrest (params : List String) {l : Pace} (hl : l.taken = true) :
      Steady g g' free l (rest params) (rest' params) fun _ l => l.taken = true := by
    refine .bind (steady_accept (isFixed_symbol .eq) hl) fun isAlias _ _ => ?_
    exact .bind steady_typeExpr fun type _ h => .spanned h fun _ => .pure h
  refine .ite (fun _ => ?_) fun _ => hrest _ hl
  exact .bind steady_typeParams fun params _ h => hrest params h

theorem steady_constDecl (before : List ConstDecl) :
    Steady g g' free k (constDecl g before) (constDecl g' before) fun _ l => l.taken = true := by
  refine .bind steady_peek fun start _ _ => ?_
  refine .bind (steady_commaSeparated steady_name) fun names l hl => ?_
  refine .bind steady_peekKind ?_
  rintro kind _ ⟨rfl, -⟩
  extract_lets typed previous ending rest rest'
  have hending (values : List Expr) {l : Pace} (hl : l.taken = true) :
      Steady g g' free l (ending values) (ending values) fun _ l => l.taken = true := .spanned hl fun _ => .pure hl
  have hrest (u : Unit) {l : Pace} (hl : l.taken = true) :
      Steady g g' free l (rest u) (rest' u) fun _ l => l.taken = true := by
    refine .ifAccept (isFixed_symbol .eq) (fun _ _ => ?_) ?_
    · exact .bind (steady_commaSeparated (steady_binaryExpr 1)) fun values _ h => hending values h
    · exact .ite (fun _ => .spanned hl fun _ => .fail_bind rfl) fun _ => .pure_bind (hending _ hl)
  refine .ite (fun _ => ?_) fun _ => hrest () hl
  refine .bind steady_typeExpr fun type _ htype => .bind (steady_keepStructs type) ?_
  rintro _ _ rfl
  exact hrest () htype

/-! ## Files -/

theorem steady_declaration {keyword : Token.Keyword} {entry entry' : List α → Parser α}
    (hentry : ∀ {free k} done, Steady g g' free k (entry done) (entry' done) fun _ l => l.taken = true) :
    Steady g g' free k (declaration keyword entry) (declaration keyword entry') fun _ l => l.taken = true := by
  refine .bind (steady_expect (isFixed_keyword keyword)) fun _ _ _ => ?_
  refine .bind (steady_group hentry) fun es _ hes => ?_
  exact .bind (steady_declarationEnd hes) fun _ _ h => .pure h

theorem steady_declarations_turn (file : SourceFile) :
    Steady g g' free k (declarations.turn g file) (declarations.turn g' file) Onward := by
  refine .bind steady_peek ?_
  rintro t k ⟨rfl, ht⟩
  split
  · exact .pure trivial
  · next hkind => exact .bind (steady_advance (by simp [← ht, hkind])) fun _ _ h => .pure h
  · exact .bind (steady_declaration fun _ => steady_importSpec) fun _ _ h => .pure h
  · exact .bind (steady_declaration fun _ => steady_typeDecl) fun _ _ h => .pure h
  · exact .bind (steady_declaration steady_constDecl) fun _ _ h => .pure h
  · next hkind => exact .bind steady_skipDeclaration fun _ _ h => .pure (h (.inr (by simp [← ht, hkind])))
  · next hkind => exact .bind steady_skipDeclaration fun _ _ h => .pure (h (.inr (by simp [← ht, hkind])))
  · exact .fail rfl

theorem steady_declarations (file : SourceFile) :
    Steady g g' free k (declarations g file) (declarations g' file) fun _ _ => True :=
  .mono (.loop fun file _ => steady_declarations_turn file) fun _ _ _ => trivial

theorem steady_packageClause : Steady g g' free k packageClause packageClause fun _ l => l.taken = true := by
  refine .bind steady_peek fun start _ _ => ?_
  refine .bind (steady_expect (isFixed_keyword .package)) fun _ _ _ => ?_
  refine .bind steady_identifier fun package _ h => ?_
  exact .bind (steady_declarationEnd h) fun _ _ h => .pure h

end StructPadding.Parser
