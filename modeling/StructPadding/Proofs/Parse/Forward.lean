-- SUMMARY: Parsers that succeed go forward in a source: what they make stands between the tokens they took.
import StructPadding.Proofs.Parse.Reading
import StructPadding.Proofs.Parse.Steps
import StructPadding.Proofs.Syntax.Nesting
import StructPadding.Proofs.Token.Succession

/-!
# Going forward

What a parser has taken ends where the next event begins, or before it. A parser that succeeds keeps it so, and neither
place goes back. So what is made between two states stands between the start of the next event in the first one and
the end of the last token taken in the second one. The laws here say this of the parsers that all others are made of.
-/

namespace StructPadding.Parser

open Token (Kind Event Stream)

/-! ## States -/

/-- Where the next event stands. -/
def State.next (s : State) : Span := s.stream.front

/-- Whether a state reads a source in order: what is left follows the last token taken and takes up room, and the struct
    literals kept lie between a place in front of it and that token. -/
structure State.Ordered (good : Nat → Prop) (base : Nat) (s : State) : Prop where
  stream : s.stream.Within good
  lastStop : good s.lastStop
  follow : Event.Follow s.stream.length s.lastStop s.stream.events
  room : ∀ e ∈ s.stream.events, e.TakesRoom
  base_le : base ≤ s.next.start
  locals : ∀ l ∈ s.locals, (SyntaxNode.struct l.type).Between good base s.lastStop

/-- Whether one state is no further on in a source than another one. -/
structure State.Before (s t : State) : Prop where
  lastStop : s.lastStop ≤ t.lastStop
  next : s.next.start ≤ t.next.start

/-- Whether the next token of a state has been taken in another one. -/
def State.Past (s t : State) : Prop := s.next.stop ≤ t.lastStop

/-- Whether a node is made from the next token of a state on, and of nothing but what has been taken in another one. -/
structure State.Makes (good : Nat → Prop) (s : State) (n : SyntaxNode) (t : State) : Prop where
  past : s.Past t
  between : n.Between good s.next.start t.lastStop

/-- Whether all members of a list are made between two states. -/
def State.MakesAll {α : Type} (good : Nat → Prop) (s : State) (N : α → SyntaxNode) (as : List α) (t : State) :
    Prop :=
  ∀ a ∈ as, (N a).Between good s.next.start t.lastStop

variable {good : Nat → Prop} {base : Nat} {s t u : State}

namespace State

theorem Before.refl (s : State) : s.Before s := ⟨Nat.le_refl _, Nat.le_refl _⟩

theorem Before.trans (hst : s.Before t) (htu : t.Before u) : s.Before u :=
  ⟨Nat.le_trans hst.lastStop htu.lastStop, Nat.le_trans hst.next htu.next⟩

theorem Ordered.next (hs : s.Ordered good base) : s.next.Within good := hs.stream.front

theorem Ordered.lastStop_le (hs : s.Ordered good base) : s.lastStop ≤ s.next.start :=
  Stream.le_front_of_follow hs.follow

theorem Past.later (h : s.Past t) (htu : t.Before u) : s.Past u := Nat.le_trans h htu.lastStop

theorem Past.of_eq (h : t.lastStop = s.next.stop) : s.Past t := Nat.le_of_eq h.symm

/-- The span from the next token of one state to the last token taken in another one. -/
theorem Past.within (h : s.Past t) (hs : s.Ordered good base) (ht : t.Ordered good base) :
    (Span.mk s.next.start t.lastStop).Within good :=
  ⟨Nat.le_trans hs.next.start_le_stop h, hs.next.start, ht.lastStop⟩

/-- A node that is made further on in a source. -/
theorem Makes.after {n : SyntaxNode} (h : t.Makes good n u) (hst : s.Before t) :
    n.Between good s.next.start u.lastStop :=
  h.between.mono hst.next (Nat.le_refl _)

/-- What is made from a state on stands behind the place that what is kept stands behind. -/
theorem Makes.kept {n : SyntaxNode} (h : s.Makes good n t) (hs : s.Ordered good base) :
    n.Between good base t.lastStop :=
  h.between.mono hs.base_le (Nat.le_refl _)

theorem between_later {n : SyntaxNode} {lo : Nat} (h : n.Between good lo t.lastStop) (htu : t.Before u) :
    n.Between good lo u.lastStop := h.mono (Nat.le_refl _) htu.lastStop

/-- A node is made when it spans all that was taken, and the nodes directly inside it are made of that. -/
theorem makes_of_inner {n : SyntaxNode} (hs : s.Ordered good base) (ht : t.Ordered good base) (hpast : s.Past t)
    (hspan : n.span = ⟨s.next.start, t.lastStop⟩)
    (hinner : ∀ c ∈ n.inner, c.Between good s.next.start t.lastStop) : s.Makes good n t := by
  have hnested : n.Nested good := SyntaxNode.nested_of_inner hspan (hpast.within hs ht) hinner
  exact ⟨hpast, hnested, by simp [hspan], by simp [hspan]⟩

/-- A node of a single token. -/
theorem makes_of_token {n : SyntaxNode} (hs : s.Ordered good base) (ht : t.Ordered good base)
    (hstop : t.lastStop = s.next.stop) (hspan : n.span = s.next) (hinner : n.inner = []) : s.Makes good n t := by
  refine makes_of_inner hs ht (.of_eq hstop) ?_ ?_
  · rw [hstop]
    exact hspan
  · rw [hinner]
    exact nofun

/-- The span from the next token of one state to that of another one behind it. -/
theorem merge_next (hpast : s.Past t) (hst : s.Before t) (ht : t.Ordered good base) :
    s.next.merge t.next = ⟨s.next.start, t.next.stop⟩ :=
  Span.merge_eq hst.next (Nat.le_trans (Nat.le_trans hpast ht.lastStop_le) ht.next.start_le_stop)

namespace MakesAll

variable {α : Type} {N : α → SyntaxNode} {as : List α}

theorem nil : s.MakesAll good N [] t := nofun

theorem later (h : s.MakesAll good N as t) (htu : t.Before u) : s.MakesAll good N as u :=
  fun a ha => between_later (h a ha) htu

theorem after (h : t.MakesAll good N as u) (hst : s.Before t) : s.MakesAll good N as u :=
  fun a ha => (h a ha).mono hst.next (Nat.le_refl _)

theorem concat {a : α} (h : s.MakesAll good N as t) (ha : (N a).Between good s.next.start t.lastStop) :
    s.MakesAll good N (as ++ [a]) t := forall_mem_concat h ha

theorem kept (h : s.MakesAll good N as t) (hs : s.Ordered good base) :
    ∀ a ∈ as, (N a).Between good base t.lastStop := fun a ha => (h a ha).mono hs.base_le (Nat.le_refl _)

theorem map (h : s.MakesAll good N as t) :
    ∀ c ∈ as.map N, c.Between good s.next.start t.lastStop := List.forall_mem_map.2 h

end MakesAll

end State

/-! ## Parsers -/

/-- Whether a parser that starts in a state in order and succeeds goes forward to a state in order that has `Q` with the
    result. -/
def Goes {α : Type} (good : Nat → Prop) (base : Nat) (p : Parser α) (s : State) (Q : α → State → Prop) : Prop :=
  s.Ordered good base → Ends p s (fun a t => t.Ordered good base ∧ s.Before t ∧ Q a t) fun _ _ => True

variable {α β : Type}

namespace Goes

variable {p q : Parser α} {f : α → Parser β} {P Q : α → State → Prop} {R : β → State → Prop}

theorem intro (h : s.Ordered good base → Goes good base p s Q) : Goes good base p s Q := fun hs => h hs hs

theorem pure {a : α} (h : Q a s) : Goes good base (pure a) s Q := fun hs => ⟨hs, .refl s, h⟩

theorem bind (hp : Goes good base p s P)
    (hf : ∀ a t, t.Ordered good base → s.Before t → P a t → Goes good base (f a) t R) :
    Goes good base (p >>= f) s R := by
  intro hs
  refine (hp hs).bind (fun a t ha => ?_) fun _ _ h => h
  obtain ⟨ht, hst, ha⟩ := ha
  refine (hf a t ht hst ha ht).mono (fun b u hb => ?_) fun _ _ h => h
  exact ⟨hb.1, hst.trans hb.2.1, hb.2.2⟩

theorem mono (hp : Goes good base p s P) (h : ∀ a t, t.Ordered good base → s.Before t → P a t → Q a t) :
    Goes good base p s Q :=
  fun hs => (hp hs).mono (fun a t ha => ⟨ha.1, ha.2.1, h a t ha.1 ha.2.1 ha.2.2⟩) fun _ _ h => h

theorem ite {b : Prop} [Decidable b] (hp : b → Goes good base p s Q) (hq : ¬ b → Goes good base q s Q) :
    Goes good base (if b then p else q) s Q := by
  split
  · exact hp ‹_›
  · exact hq ‹_›

end Goes

/-- Whether a parser that succeeds leaves the state as it is, with a result that has `P`. -/
abbrev Looks {α : Type} (good : Nat → Prop) (base : Nat) (p : Parser α) (s : State) (P : α → Prop) : Prop :=
  Goes good base p s fun a t => t = s ∧ P a

namespace Looks

variable {p : Parser α} {f : α → Parser β} {P : α → Prop} {R : β → State → Prop}

theorem pure {a : α} (h : P a) : Looks good base (pure a) s P := Goes.pure ⟨rfl, h⟩

/-- What comes behind a look starts in the same state. -/
theorem bind (hp : Looks good base p s P) (hf : ∀ a, s.Ordered good base → P a → Goes good base (f a) s R) :
    Goes good base (p >>= f) s R := by
  apply Goes.bind hp
  rintro a _ hs - ⟨rfl, ha⟩
  exact hf a hs ha

end Looks

theorem goes_fail {cause : Cause} {span : Span} {Q : α → State → Prop} : Goes good base (fail cause span) s Q :=
  fun _ => trivial

theorem goes_fail_bind {cause : Cause} {span : Span} {f : α → Parser β} {Q : β → State → Prop} :
    Goes good base (fail cause span >>= f) s Q := fun _ => trivial

theorem goes_exhausted {Q : α → State → Prop} : Goes good base exhausted s Q := fun _ => trivial

/-! ## Looking ahead -/

theorem ends_read {r : Stream.Reader α} {Q : α → Stream → Prop} (h : Ends r s.stream Q fun _ _ => True) :
    Ends (read r) s (fun a t => ∃ stream, t = { s with stream } ∧ Q a stream) fun _ _ => True := by
  simp only [Ends, read] at h ⊢
  cases hr : r s.stream with
  | ok a stream =>
    rw [hr] at h
    exact ⟨stream, rfl, h⟩
  | error e stream => trivial

theorem looks_read {r : Stream.Reader α} {P : α → Prop}
    (h : Ends r s.stream (fun a stream => stream = s.stream ∧ P a) fun _ _ => True) :
    Looks good base (read r) s P := by
  intro hs
  refine (ends_read h).mono (fun a t ha => ?_) fun _ _ h => h
  obtain ⟨_, rfl, rfl, ha⟩ := ha
  exact ⟨hs, .refl s, rfl, ha⟩

theorem looks_peek : Looks good base peek s fun t => t.kind = s.stream.frontKind ∧ t.span = s.next :=
  looks_read (Stream.ends_peek s.stream)

theorem looks_peekKind : Looks good base peekKind s fun k => k = s.stream.frontKind :=
  looks_peek.bind fun _ _ h => Looks.pure h.1

theorem looks_peekKindAt (n : Nat) : Looks good base (peekKindAt n) s fun _ => True := by
  have hpeek : Looks good base (read (Stream.peekAt n)) s fun _ => True :=
    looks_read ((Stream.ends_peekAt n s.stream).mono (fun _ _ h => ⟨h, trivial⟩) fun _ _ h => h)
  exact hpeek.bind fun _ _ _ => Looks.pure trivial

theorem looks_check (k : Kind) : Looks good base (check k) s fun b => b = s.stream.frontKind.isLike k := by
  refine looks_read ((Stream.ends_peek s.stream).bind (fun t stream h => ?_) fun _ _ h => h)
  obtain ⟨rfl, hkind, -⟩ := h
  exact .pure ⟨rfl, by rw [hkind]⟩

theorem Goes.ifCheck {k : Kind} {p q : Parser α} {Q : α → State → Prop} (hp : Goes good base p s Q)
    (hq : Goes good base q s Q) : Goes good base (check k >>= fun b => if b = true then p else q) s Q :=
  (looks_check k).bind fun _ _ _ => .ite (fun _ => hp) fun _ => hq

/-! ## Taking tokens -/

/-- Where an event is taken, what follows it is left. -/
theorem State.Ordered.taken {e : Event} {stream : Stream} {stop : Nat} (hs : s.Ordered good base)
    (hevents : s.stream.events = e :: stream.events) (hlength : stream.length = s.stream.length)
    (hlo : s.lastStop ≤ stop) (hhi : stop ≤ s.next.stop) (hgood : good stop) :
    State.Ordered good base ⟨stream, stop, s.locals⟩ ∧ s.Before ⟨stream, stop, s.locals⟩ := by
  have hnext : s.next = e.span := by rw [State.next, Stream.front, hevents]
  have hfollow : Event.Follow stream.length e.span.stop stream.events := by
    have h := hs.follow
    rw [hevents, ← hlength] at h
    exact h.2
  have hfront : s.next.start ≤ stream.front.start := by
    refine Nat.le_trans hs.next.start_le_stop ?_
    rw [hnext]
    exact Stream.le_front_of_follow hfollow
  have hstream : stream.Within good :=
    ⟨hlength ▸ hs.stream.length, fun d hd => hs.stream.events d (hevents ▸ List.mem_cons_of_mem _ hd)⟩
  have hroom : ∀ d ∈ stream.events, d.TakesRoom := fun d hd => hs.room d (hevents ▸ List.mem_cons_of_mem _ hd)
  have hlocals := fun l hl => (hs.locals l hl).mono (Nat.le_refl _) hlo
  exact ⟨⟨hstream, hgood, hfollow.sooner (hnext ▸ hhi), hroom, Nat.le_trans hs.base_le hfront, hlocals⟩, hlo, hfront⟩

/-- The end of the source is never taken, and what is taken brings the parser behind it. -/
theorem goes_advance : Goes good base advance s fun t u =>
    t.kind = s.stream.frontKind ∧ t.span = s.next ∧ (t.kind ≠ .eof → u.lastStop = s.next.stop) := by
  intro hs
  have hlast : s.lastStop ≤ s.next.stop := Nat.le_trans hs.lastStop_le hs.next.start_le_stop
  refine (ends_read (Stream.ends_next s.stream)).bind (fun t u h => ?_) fun _ _ h => h
  obtain ⟨stream, rfl, hkind, hspan, htaken⟩ := h
  refine .ite (fun heof => ?_) fun heof => ?_
  · have hsame : State.Ordered good base { s with stream } ∧ s.Before { s with stream } := by
      rcases htaken with ⟨-, rfl⟩ | ⟨e, hevents, hlength⟩
      · exact ⟨hs, .refl s⟩
      · exact hs.taken hevents hlength (Nat.le_refl _) hlast hs.lastStop
    exact .pure ⟨hsame.1, hsame.2, hkind, hspan, fun h => absurd heof h⟩
  · obtain ⟨e, hevents, hlength⟩ := htaken.resolve_left fun h => heof h.1
    have hstop : t.span.stop = s.next.stop := congrArg Span.stop hspan
    have hmoved := hs.taken hevents hlength hlast (Nat.le_refl _) hs.next.stop
    rw [← hstop] at hmoved
    exact .modify_bind (.pure ⟨hmoved.1, hmoved.2, hkind, hspan, fun _ => hstop⟩)

/-- A token that is not the end of the source is taken. -/
theorem goes_advance_of {k : Kind} (h : s.stream.frontKind = k) (hk : k ≠ .eof) :
    Goes good base advance s fun t u => t.span = s.next ∧ u.lastStop = s.next.stop :=
  goes_advance.mono fun _ _ _ _ ht => ⟨ht.2.1, ht.2.2 (by rw [ht.1, h]; exact hk)⟩

/-- A choice by whether a token was taken. -/
theorem Goes.ifAccept {k : Kind} (hk : IsFixed k) {p q : Parser α} {Q : α → State → Prop}
    (hp : ∀ t, t.Ordered good base → s.Before t → s.Past t → Goes good base p t Q) (hq : Goes good base q s Q) :
    Goes good base (accept k >>= fun b => if b = true then p else q) s Q := by
  have haccept : Goes good base (accept k) s fun b t => if b then s.Past t else t = s := by
    refine (looks_check k).bind fun b _ hb => .ite (fun htrue => ?_) fun _ => .pure rfl
    have hkind := (hk.isLike_iff _).1 (hb.symm.trans htrue)
    exact (goes_advance_of hkind hk.ne_eof).bind fun _ _ _ _ h => .pure (.of_eq h.2)
  apply haccept.bind
  intro b t ht hst hb
  cases b with
  | true => exact hp t ht hst hb
  | false =>
    obtain rfl : t = s := hb
    exact hq

theorem goes_accept (k : Kind) : Goes good base (accept k) s fun _ _ => True :=
  (looks_check k).bind fun _ _ _ =>
    .ite (fun _ => goes_advance.bind fun _ _ _ _ _ => .pure trivial) fun _ => .pure trivial

theorem looks_require {k : Kind} (hk : IsFixed k) :
    Looks good base (require k) s fun _ => s.stream.frontKind = k := by
  refine (looks_check k).bind fun b _ hb => .ite (fun htrue => ?_) fun _ => looks_peek.bind fun _ _ _ => goes_fail
  exact Looks.pure ((hk.isLike_iff _).1 (hb.symm.trans htrue))

theorem goes_expect {k : Kind} (hk : IsFixed k) :
    Goes good base (expect k) s fun t u => t.span = s.next ∧ u.lastStop = s.next.stop :=
  (looks_require hk).bind fun _ _ hkind => goes_advance_of hkind hk.ne_eof

/-- A name takes up room, unlike the semicolons that are inserted. -/
theorem State.Ordered.start_lt_stop {n : String} (hs : s.Ordered good base)
    (hkind : s.stream.frontKind = .identifier n) : s.next.start < s.next.stop := by
  have hroom := hs.room
  simp only [State.next, Stream.front, Stream.frontKind] at hkind ⊢
  split at hkind
  · next t es hevents =>
    rw [hevents] at hroom ⊢
    rcases hroom _ (List.mem_cons_self ..) with hsemi | hlt
    · cases (congrArg Token.kind (Except.ok.inj hsemi)).symm.trans hkind
    · exact hlt
  · cases hkind

theorem goes_name : Goes good base name s fun n u =>
    n.2 = s.next ∧ s.next.start < s.next.stop ∧ s.Makes good (.word n.2) u := by
  refine .intro fun hs => goes_advance.bind fun t u hu hsu ht => ?_
  obtain ⟨hkind, hspan, hstop⟩ := ht
  split
  · next n hn =>
    have hroom := hs.start_lt_stop (hkind.symm.trans hn)
    exact .pure ⟨hspan, hroom, State.makes_of_token hs hu (hstop (by simp [hn])) hspan rfl⟩
  · exact goes_fail

theorem goes_identifier : Goes good base identifier s fun _ u => s.Past u :=
  goes_name.bind fun _ _ _ _ h => .pure h.2.2.past

theorem goes_declarationEnd : Goes good base declarationEnd s fun _ _ => True := by
  refine .ifAccept (isFixed_symbol .semi) (fun _ _ _ _ => .pure trivial) ?_
  refine .ifCheck (.pure trivial) ?_
  exact (looks_require (isFixed_symbol .semi)).mono fun _ _ _ _ _ => trivial

/-! ## Spans -/

theorem looks_spanFrom {b : State} {first : Span} (hfirst : first = b.next) (hpast : b.Past s) :
    Looks good base (spanFrom first) s fun span => span = ⟨b.next.start, s.lastStop⟩ := by
  intro hs
  refine .get_bind (.pure ⟨hs, .refl s, rfl, ?_⟩)
  rw [hfirst, Nat.max_eq_left hpast]

/-- A node is made when its span is closed behind all that is inside it. -/
theorem goes_closed {b : State} {first : Span} {mk : Span → α} {N : α → SyntaxNode} (hfirst : first = b.next)
    (hb : b.Ordered good base) (hpast : b.Past s) (hspan : ∀ span, (N (mk span)).span = span)
    (hinner : ∀ span, ∀ c ∈ (N (mk span)).inner, c.Between good b.next.start s.lastStop) :
    Goes good base (spanFrom first >>= fun span => pure (mk span)) s fun a t => b.Makes good (N a) t := by
  refine (looks_spanFrom hfirst hpast).bind fun span hs hclosed => .pure ?_
  exact State.makes_of_inner hb hs hpast ((hspan span).trans hclosed) (hinner span)

/-! ## Struct literals -/

theorem goes_keep {l : LocalStruct} (hl : (SyntaxNode.struct l.type).Between good base s.lastStop) :
    Goes good base (keep l) s fun _ t => t.lastStop = s.lastStop := by
  intro hs
  have hlocals := forall_mem_concat hs.locals hl
  exact ⟨⟨hs.stream, hs.lastStop, hs.follow, hs.room, hs.base_le, hlocals⟩, ⟨Nat.le_refl _, Nat.le_refl _⟩, rfl⟩

/-- The struct literals of a type are in it, so they stand where it does. -/
theorem goes_keepStructs {t : TypeExpr} (ht : (SyntaxNode.type t).Between good base s.lastStop) :
    Goes good base (keepStructs t) s fun _ _ => True := by
  have hstructs : ∀ st ∈ t.outerStructs, (SyntaxNode.struct st).Between good base s.lastStop :=
    fun st hst => ht.has (SyntaxNode.has_of_part (part_of_mem_outerStructs hst))
  unfold keepStructs
  generalize t.outerStructs = structs at hstructs
  induction structs generalizing s with
  | nil => exact .pure trivial
  | cons st rest ih =>
    obtain ⟨hst, hrest⟩ := List.forall_mem_cons.1 hstructs
    exact (goes_keep hst).bind fun _ u _ _ hu => ih (by rwa [hu]) (by rwa [hu])

/-! ## Repeating -/

/-- What every turn keeps, all turns keep. -/
theorem goes_repeating {I : β → State → Prop} {turn : β → Parser (ForInStep β)} {init : β} (hinit : I init s)
    (hturn : ∀ b t, t.Ordered good base → s.Before t → I b t →
      Goes good base (turn b) t fun step u => I step.value u) :
    Goes good base (repeating init turn) s I := by
  have hturns (n : Nat) : ∀ b t, s.Before t → I b t → Goes good base (turns turn n b) t I := by
    induction n with
    | zero => exact fun _ _ _ _ => goes_exhausted
    | succ n ih =>
      intro b t hst hb
      refine .intro fun ht => (hturn b t ht hst hb).bind fun step u _ htu hstep => ?_
      cases step with
      | yield b => exact ih b u (hst.trans htu) hstep
      | done b => exact .pure hstep
  exact hturns (s.remaining + 1) init s (.refl s) hinit

section

variable {I : List α → State → Prop} (hlater : ∀ as t u, t.Before u → I as t → I as u)
include hlater

theorem goes_entries {close : Kind} {entry : List α → Parser α} (hinit : I [] s)
    (hentry : ∀ as t, t.Ordered good base → s.Before t → I as t →
      Goes good base (entry as) t fun a u => I (as ++ [a]) u) :
    Goes good base (entries close entry) s I := by
  refine goes_repeating hinit fun as t ht hst has => ?_
  refine .ifCheck (.pure has) ?_
  refine .ifAccept (isFixed_symbol .semi) (fun u _ htu _ => .pure (hlater as t u htu has)) ?_
  apply (hentry as t ht hst has).bind
  intro a u _ _ ha
  refine .ifCheck (.pure ha) ?_
  exact (goes_expect (isFixed_symbol .semi)).bind fun _ v _ huv _ => .pure (hlater _ u v huv ha)

theorem goes_group {entry : List α → Parser α} (hinit : I [] s)
    (hentry : ∀ as t, t.Ordered good base → s.Before t → I as t →
      Goes good base (entry as) t fun a u => I (as ++ [a]) u) :
    Goes good base (group entry) s I := by
  refine .ifAccept (isFixed_symbol .lParen) (fun t _ hst _ => ?_) ?_
  · apply (goes_entries hlater (hlater _ s t hst hinit) fun as u hu htu has => hentry as u hu (hst.trans htu) has).bind
    intro as u _ _ has
    exact (goes_expect (isFixed_symbol .rParen)).bind fun _ v _ huv _ => .pure (hlater as u v huv has)
  · exact .intro fun hs => (hentry [] s hs (.refl s) hinit).bind fun a u _ _ ha => .pure ha

theorem goes_commaSeparated {item : Parser α} (hfirst : Goes good base item s fun a t => I [a] t)
    (hnext : ∀ as t, t.Ordered good base → s.Before t → I as t → Goes good base item t fun a u => I (as ++ [a]) u) :
    Goes good base (commaSeparated item) s I := by
  apply hfirst.bind
  intro first t _ hst hone
  refine goes_repeating hone fun as u _ htu has => ?_
  refine .ifAccept (isFixed_symbol .comma) (fun v hv huv _ => ?_) (.pure has)
  have hsv := (hst.trans htu).trans huv
  exact (hnext as v hv hsv (hlater as u v huv has)).bind fun _ _ _ _ h => .pure h

end

/-- One more entry is made in a list. -/
theorem goes_entry {entry : List α → Parser α} {N : α → SyntaxNode}
    (hentry : ∀ as t, Goes good base (entry as) t fun a u => t.Makes good (N a) u) (as : List α) (t : State)
    (_ : t.Ordered good base) (hst : s.Before t) (has : s.MakesAll good N as t) :
    Goes good base (entry as) t fun a u => s.MakesAll good N (as ++ [a]) u :=
  (hentry as t).mono fun _ _ _ htu ha => (has.later htu).concat (ha.after hst)

/-- All entries of a list are made in it. -/
theorem goes_entries_all {close : Kind} {entry : List α → Parser α} {N : α → SyntaxNode}
    (hentry : ∀ as t, Goes good base (entry as) t fun a u => t.Makes good (N a) u) :
    Goes good base (entries close entry) s fun as t => s.MakesAll good N as t :=
  goes_entries (fun _ _ _ htu has => has.later htu) .nil (goes_entry hentry)

/-- All items of a list are made in it, and there is at least one. -/
theorem goes_commaSeparated_all {item : Parser α} {N : α → SyntaxNode}
    (hitem : ∀ t, Goes good base item t fun a u => t.Makes good (N a) u) :
    Goes good base (commaSeparated item) s fun as t => s.Past t ∧ s.MakesAll good N as t := by
  refine goes_commaSeparated (fun _ _ _ htu has => ⟨has.1.later htu, has.2.later htu⟩) ?_ fun as t _ hst has => ?_
  · exact (hitem s).mono fun _ _ _ _ ha => ⟨ha.past, State.MakesAll.nil.concat ha.between⟩
  · exact (hitem t).mono fun _ _ _ htu ha => ⟨has.1.later htu, (has.2.later htu).concat (ha.after hst)⟩

end StructPadding.Parser
