-- SUMMARY: What is parsed on its own is parsed in the same way in front of whatever ends it.
import StructPadding.Proofs.Parse.Removal

/-!
# Parsing alone

A type or an expression that is parsed with nothing behind it is parsed to the same value in front of a token that none
goes on with. The two runs see the same up to the last token of it. What a parser does there is of three kinds: it looks
whether there is more of the same, and finds neither the end of the file nor what comes in its place to be so; it needs
another token, and fails at the end of the file; or it stands between brackets, and the bracket that it goes on to is
still to come, so that it does not see the end at all.
-/

namespace StructPadding.Parser

open Token (Kind Event Stream)
open Surroundings

/-! ## Ends -/

/-- Whether no type or expression goes on with a token. -/
def IsApart (kind : Kind) : Prop :=
  kind ≠ .symbol .dot ∧ kind.startsType = false ∧ BinaryOp.ofKind? kind = none

/-- Whether a token comes next that no type or expression goes on with. -/
def IsEnd (rest : List Event) : Prop := ∃ kind, nextKind? rest = some kind ∧ IsApart kind

/-- Whether a parser needs a token, and fails where none is left. -/
def Hungry {α : Type} (p : Parser α) : Prop := ∀ s, s.stream.events = [] → ∀ a t, p s ≠ .ok a t

variable {g : Grammar} {c : Surroundings} {k : Pace} {ts us : List Token} {s s' t : State} {es : List Event}
  {α β : Type} {p q : Parser α} {P : α → Pace → Prop} {Q : β → Pace → Prop}

theorem Hungry.of_steady (h : ∀ kinds, Steady g g true ⟨false, kinds⟩ p p fun _ l => l.taken = true)
    (hg : g.Consumes) : Hungry p := by
  intro s hs a t hres
  obtain ⟨ts, l, hst, -, htaken, hl⟩ := ((h s.kinds).runs hg rfl).of_ok hres
  have hnil := (hs.symm.trans hst.events).symm
  exact (htaken hl).elim nofun fun hts => hts (List.map_eq_nil_iff.1 (List.append_eq_nil_iff.1 hnil).1)

theorem hungry_fail {cause : Token → Cause} {span : Token → Span} :
    Hungry (peek >>= fun t => (fail (cause t) (span t) : Parser α)) := by
  intro s _ a t hres
  obtain ⟨_, _, -, hfail⟩ := bind_eq_ok_iff.1 hres
  exact throw_ne_ok hfail

/-! ## The next token -/

theorem kinds_nil (h : s.stream.events = []) : s.kinds 0 = .eof := by simp [State.kinds, Cursor.kindAt, h]

theorem kinds_cons {b : Token} (h : s.stream.events = .ok b :: es) : s.kinds 0 = b.kind := by
  simp [State.kinds, Cursor.kindAt, h]

theorem peek_nil (h : s.stream.events = []) : peek s = .ok s.stream.eof s := by
  simp [peek, read, Stream.peek, Stream.peekAt, Stream.firstProblem, h]

theorem peek_cons {b : Token} (h : s.stream.events = .ok b :: es) : peek s = .ok b s := by
  simp [peek, read, Stream.peek, Stream.peekAt, Stream.firstProblem, h]

/-- Both runs take the same token. -/
theorem Surroundings.Relates.advance {b : Token} (h : c.Relates (b :: ts) s s') :
    ∃ u u', Parser.advance s = .ok b u ∧ Parser.advance s' = .ok b u' ∧ c.Relates ts u u' ∧
      u.kinds = (fun n => s.kinds (n + 1)) ∧
      (s'.lastStop = s.lastStop ∨ b.kind ≠ .eof → u'.lastStop = u.lastStop) := by
  have hres := advance_ok h.events
  refine ⟨_, _, hres, advance_ok h.events', ⟨rfl, rfl, h.length, h.length', h.locals⟩, ?_, fun heq => ?_⟩
  · exact ((ends_advance_takes s).of_ok hres).2.2
  · by_cases hb : b.kind = .eof
    · simp only [hb, if_true]
      exact heq.resolve_right (not_not_intro hb)
    · simp only [hb, if_false]

/-! ## Parsers that are carried over -/

/-- Whether a parser is steady, and its runs that succeed where the surroundings begin to differ or before are the same
    in both of them. -/
structure Carried (c : Surroundings) (g : Grammar) (k : Pace) (p : Parser α) (P : α → Pace → Prop) : Prop where
  steady : Steady g g true k p p P
  carries : c.Carries k p P

namespace Carried

theorem pure {a : α} (h : P a k) : Carried c g k (pure a) P := ⟨.pure h, carries_pure h⟩

theorem fail {cause : Cause} {span : Span} (h : cause.stage = .parser) : Carried c g k (fail cause span) P :=
  ⟨.fail h, fun _ _ _ _ _ _ _ _ _ hres => absurd hres throw_ne_ok⟩

theorem fail_bind {cause : Cause} {span : Span} {f : α → Parser β} (h : cause.stage = .parser) :
    Carried c g k (Parser.fail cause span >>= f) Q := by
  refine ⟨.fail_bind h, fun _ _ _ _ _ _ _ _ _ hres => ?_⟩
  obtain ⟨_, _, hfail, -⟩ := bind_eq_ok_iff.1 hres
  exact absurd hfail throw_ne_ok

theorem mono {R : α → Pace → Prop} (hp : Carried c g k p P) (h : ∀ a l, P a l → R a l) : Carried c g k p R :=
  ⟨.mono hp.steady h, hp.carries.mono h⟩

theorem ite {b : Prop} [Decidable b] (hp : b → Carried c g k p P) (hq : ¬ b → Carried c g k q P) :
    Carried c g k (if b then p else q) P := by
  split
  · exact hp ‹_›
  · exact hq ‹_›

theorem bind {f : α → Parser β} (hg : g.Consumes) (hp : Carried c g k p P)
    (hf : ∀ a l, P a l → Carried c g l (f a) Q) : Carried c g k (p >>= f) Q := by
  refine ⟨.bind hp.steady fun a l ha => (hf a l ha).steady, ?_⟩
  refine carries_bind hp.carries (fun a l ha => (hf a l ha).carries) fun s a u b t hk hpa hfa => ?_
  obtain ⟨-, l, -, hl, -, ha⟩ := (hp.steady.runs hg hk).of_ok hpa
  obtain ⟨vs, -, hvs, -⟩ := ((hf a l ha).steady.runs hg hl.symm).of_ok hfa
  exact ⟨vs, hvs⟩

/-- What follows does not depend on the span. -/
theorem spanned {first : Span} {f : Span → Parser β} (hg : g.Consumes) (hk : k.taken = true)
    (hf : ∀ span, Carried c g k (f span) Q) : Carried c g k (spanFrom first >>= f) Q := by
  refine .bind hg ⟨.spanFrom hk, carries_spanFrom hk⟩ ?_
  rintro span _ rfl
  exact hf span

theorem keepStructs (hg : g.Consumes) (t : TypeExpr) :
    Carried c g k (keepStructs t) fun _ l => l = k := by
  unfold Parser.keepStructs
  generalize t.outerStructs = structs
  induction structs with
  | nil => exact .pure rfl
  | cons st rest ih =>
    refine .bind hg ⟨.keep, carries_keep⟩ ?_
    rintro _ _ rfl
    exact ih

theorem repeating {turn : β → Parser (ForInStep β)} {init : β} (hg : g.Consumes)
    (hturn : ∀ b kinds, Carried c g ⟨false, kinds⟩ (turn b) Onward) :
    Carried c g k (repeating init turn) fun _ l => k.taken = true → l.taken = true := by
  have hsteady (b : β) (kinds : Nat → Kind) : Steady g g true ⟨false, kinds⟩ (turn b) (turn b) fun step l =>
      Onward step l ∧ (False → l.taken = true) := .mono (hturn b kinds).steady fun _ _ h => ⟨h, False.elim⟩
  refine ⟨.loop fun b kinds => (hturn b kinds).steady, ?_⟩
  have hcarries (b : β) (kinds : Nat → Kind) : c.Carries ⟨false, kinds⟩ (turn b) fun step l =>
      Onward step l ∧ (False → l.taken = true) := (hturn b kinds).carries.mono fun _ _ h => ⟨h, False.elim⟩
  have hadvances := Steady.advances (fun b kinds => (hturn b kinds).steady) hg
  exact (carries_repeating hcarries hadvances (Steady.takes_turns hsteady hg)).mono fun _ _ h hk => h (.inl hk)

/-! ## Behind the last token -/

section

variable (hc : c.rest = [])
include hc

/-- A parser that needs a token sees the same one in both runs. -/
theorem peek_bind {f : Token → Parser β} (hungry : Hungry (peek >>= f))
    (hf : ∀ b, b.kind = k.kinds 0 → Carried c g k (f b) Q) : Carried c g k (peek >>= f) Q := by
  refine ⟨.bind steady_peek ?_, fun ts us s s' a t h hk htaken hres hus => ?_⟩
  · rintro b _ ⟨rfl, hb⟩
    exact (hf b hb).steady
  cases ts with
  | nil => exact absurd hres (hungry s (by simpa [hc] using h.events) a t)
  | cons b ts =>
    obtain ⟨_, _, hpeek, hrest⟩ := bind_eq_ok_iff.1 hres
    obtain ⟨rfl, rfl⟩ := EStateM.Result.ok.inj ((peek_cons h.events).symm.trans hpeek)
    have hb : b.kind = k.kinds 0 := hk ▸ (kinds_cons h.events).symm
    obtain ⟨t', l, hres', hother⟩ := (hf b hb).carries _ us s s' a t h hk htaken hrest hus
    exact ⟨t', l, bind_eq_ok_iff.2 ⟨b, s', peek_cons h.events', hres'⟩, hother⟩

/-- A parser that needs a token, or stands in front of one, takes the same one in both runs. -/
theorem advance_bind {f : Token → Parser β} (hungry : k.kinds 0 ≠ .eof ∨ Hungry (advance >>= f))
    (hf : ∀ b, b.kind = k.kinds 0 → Carried c g k.next (f b) Q) : Carried c g k (advance >>= f) Q := by
  refine ⟨.bind .advance ?_, fun ts us s s' a t h hk htaken hres hus => ?_⟩
  · rintro b _ ⟨rfl, hb⟩
    exact (hf b hb).steady
  cases ts with
  | nil =>
    have hnil : s.stream.events = [] := by simpa [hc] using h.events
    rcases hungry with hmore | hungry
    · exact absurd (hk ▸ kinds_nil hnil) hmore
    · exact absurd hres (hungry s hnil a t)
  | cons b ts =>
    obtain ⟨u, u', htake, htake', hu, hkinds, hstop⟩ := h.advance
    obtain ⟨_, _, htake₀, hrest⟩ := bind_eq_ok_iff.1 hres
    obtain ⟨rfl, rfl⟩ := EStateM.Result.ok.inj (htake.symm.trans htake₀)
    have hb : b.kind = k.kinds 0 := hk ▸ (kinds_cons h.events).symm
    have hnext (hl : k.next.taken = true) : s'.lastStop = s.lastStop ∨ b.kind ≠ .eof :=
      (Pace.taken_next.1 hl).imp htaken (hb ▸ ·)
    obtain ⟨t', l, hres', ht, hl, hlast, ha⟩ := (hf b hb).carries _ us u u' a t hu (by rw [hkinds, hk]; rfl)
      (fun hl => hstop (hnext hl)) hrest hus
    exact ⟨t', l, bind_eq_ok_iff.2 ⟨b, u', htake', hres'⟩, ht, hl, fun heq => hlast (heq.imp_left (hstop ∘ .inl)), ha⟩

theorem advance (hmore : k.kinds 0 ≠ .eof) : Carried c g k advance fun b l => l = k.next ∧ b.kind = k.kinds 0 := by
  rw [← bind_pure Parser.advance]
  exact .advance_bind hc (.inl hmore) fun b hb => .pure ⟨rfl, hb⟩

/-- A look at what comes next, where all that may come behind the last token is the same to the parser as the end of
    the file, or where it needs a token. -/
theorem peekKind_bind {f : Kind → Parser β}
    (hf : Carried c g k (f (k.kinds 0)) Q)
    (hapart : (IsEnd c.rest' ∧ ∀ kind, IsApart kind → f kind = f .eof) ∨ Hungry (f .eof)) :
    Carried c g k (peekKind >>= f) Q := by
  refine ⟨.bind steady_peekKind ?_, fun ts us s s' a t h hk htaken hres hus => ?_⟩
  · rintro _ _ ⟨rfl, rfl⟩
    exact hf.steady
  have hkind {s : State} {b : Token} (hpeek : peek s = .ok b s) : peekKind s = .ok b.kind s :=
    bind_eq_ok_iff.2 ⟨b, s, hpeek, rfl⟩
  have hseen {b : Token} (hpeek : peek s = .ok b s) : f b.kind s = .ok a t := by
    obtain ⟨_, _, hpeek', hrest⟩ := bind_eq_ok_iff.1 hres
    obtain ⟨rfl, rfl⟩ := EStateM.Result.ok.inj ((hkind hpeek).symm.trans hpeek')
    exact hrest
  cases ts with
  | nil =>
    have hnil : s.stream.events = [] := by simpa [hc] using h.events
    have heof : k.kinds 0 = .eof := hk ▸ kinds_nil hnil
    have hrest : f .eof s = .ok a t := hseen (peek_nil hnil)
    rcases hapart with ⟨⟨kind, hnext, hkind'⟩, hapart⟩ | hungry
    · obtain ⟨b, hpeek', rfl⟩ := peek_eq_ok (s := s') (by rw [h.events']; exact hnext)
      rw [heof] at hf
      obtain ⟨t', l, hres', hother⟩ := hf.carries _ us s s' a t h hk htaken hrest hus
      exact ⟨t', l, bind_eq_ok_iff.2 ⟨_, s', hkind hpeek', hapart _ hkind' ▸ hres'⟩, hother⟩
    · exact absurd hrest (hungry s hnil a t)
  | cons b ts =>
    have hb : b.kind = k.kinds 0 := hk ▸ (kinds_cons h.events).symm
    rw [← hb] at hf
    obtain ⟨t', l, hres', hother⟩ := hf.carries _ us s s' a t h hk htaken (hseen (peek_cons h.events)) hus
    exact ⟨t', l, bind_eq_ok_iff.2 ⟨_, s', hkind (peek_cons h.events'), hres'⟩, hother⟩

/-- A choice by the next token, which is none that may come behind the last one, or else a token is needed. -/
theorem ifCheck {kind : Kind} (hkind : IsFixed kind) (hp : k.kinds 0 = kind → Carried c g k p P)
    (hq : k.kinds 0 ≠ kind → Carried c g k q P) (hapart : (IsEnd c.rest' ∧ ¬ IsApart kind) ∨ Hungry q) :
    Carried c g k (check kind >>= fun b => if b = true then p else q) P := by
  have heof : ¬ Kind.eof.isLike kind = true := fun h => hkind.ne_eof ((hkind.isLike_iff _).1 h).symm
  have hcheck : (check kind >>= fun b => if b = true then p else q) =
      peekKind >>= fun next => if next.isLike kind = true then p else q := by
    simp only [check_eq, peekKind, bind_assoc, pure_bind]
  rw [hcheck]
  refine .peekKind_bind hc (.ite (fun h => ?_) fun h => ?_) (hapart.imp (.imp_right fun hnot next hnext => ?_) ?_)
  · exact hp ((hkind.isLike_iff _).1 h)
  · exact hq fun heq => h ((hkind.isLike_iff _).2 heq)
  · rw [if_neg heof, if_neg fun h => hnot ((hkind.isLike_iff _).1 h ▸ hnext)]
  · rw [if_neg heof]
    exact id

/-- A choice by whether a token was taken. -/
theorem ifAccept {kind : Kind} (hkind : IsFixed kind)
    (hp : ∀ l, l.taken = true → Carried c g l p P) (hq : Carried c g k q P)
    (hapart : (IsEnd c.rest' ∧ ¬ IsApart kind) ∨ Hungry q) :
    Carried c g k (accept kind >>= fun b => if b = true then p else q) P := by
  have haccept : (accept kind >>= fun b => if b = true then p else q) =
      check kind >>= fun b => if b = true then Parser.advance >>= fun _ => p else q := by
    simp only [accept, bind_assoc]
    congr 1
    funext b
    cases b <;> simp
  rw [haccept]
  refine .ifCheck hc hkind (fun heq => ?_) (fun _ => hq) hapart
  refine .advance_bind hc (.inl (heq ▸ hkind.ne_eof)) fun _ _ => hp _ (Pace.taken_next.2 (.inr ?_))
  exact heq ▸ hkind.ne_eof

theorem require {kind : Kind} (hkind : IsFixed kind) :
    Carried c g k (require kind) fun _ l => l = k ∧ k.kinds 0 = kind := by
  refine .ifCheck hc hkind (fun heq => .pure ⟨rfl, heq⟩) (fun _ => ?_) (.inr hungry_fail)
  exact .peek_bind hc hungry_fail fun _ _ => .fail rfl

variable (hg : g.Consumes)
include hg

theorem expect {kind : Kind} (hkind : IsFixed kind) : Carried c g k (expect kind) fun _ l => l.taken = true := by
  refine .bind hg (.require hc hkind) ?_
  rintro _ _ ⟨rfl, heq⟩
  refine .mono (.advance hc (heq ▸ hkind.ne_eof)) ?_
  rintro _ _ ⟨rfl, -⟩
  exact Pace.taken_next.2 (.inr (heq ▸ hkind.ne_eof))

theorem name : Carried c g k name fun _ l => l.taken = true := by
  refine .advance_bind hc (.inr (.of_steady (fun _ => steady_name) hg)) fun b hb => ?_
  split
  · next hkind => exact .pure (Pace.taken_next.2 (.inr (by simp [← hb, hkind])))
  · exact .fail rfl

theorem identifier : Carried c g k identifier fun _ l => l.taken = true :=
  .bind hg (.name hc hg) fun _ _ h => .pure h

end

/-! ## Between brackets -/

/-- What stands in front of a bracket that is to come sees nothing that differs. -/
theorem closed {f : α → Token → Parser β} {close : Kind} (hc : c.rest = []) (hg : g.IsLocal) (hclose : IsFixed close)
    (hbound : isBound close = true) (hp : Steady g g true k p p P)
    (hf : ∀ a b l, l.taken = true → Carried c g l (f a b) Q) :
    Carried c g k (p >>= fun a => Parser.expect close >>= fun b => f a b) Q := by
  have hrest (a : α) (l : Pace) : Carried c g l (Parser.expect close >>= fun b => f a b) Q :=
    .bind hg.consumes (.expect hc hg.consumes hclose) fun b m hm => hf a b m hm
  refine ⟨.bind hp fun a l _ => (hrest a l).steady, fun ts us s s' b t h hk htaken hres hus => ?_⟩
  obtain ⟨a, u, hpa, hfa⟩ := bind_eq_ok_iff.1 hres
  obtain ⟨vs, l, hsu, hl, -⟩ := (hp.runs hg.consumes hk).of_ok hpa
  obtain ⟨ws, -, hut, -⟩ := ((hrest a l).steady.runs hg.consumes hl.symm).of_ok hfa
  have hu : u.stream.events = (ws ++ us).map .ok ++ c.rest := by
    rw [hut.events, hus, List.map_append, List.append_assoc]
  have hkind : u.kinds 0 = close := by
    obtain ⟨_, _, hexpect, -⟩ := bind_eq_ok_iff.1 hfa
    obtain ⟨_, _, hrequire, -⟩ := bind_eq_ok_iff.1 hexpect
    have hsteady : Steady g g true ⟨false, u.kinds⟩ (Parser.require close) (Parser.require close) _ :=
      steady_require hclose
    obtain ⟨-, -, -, -, -, -, hkind⟩ := (hsteady.runs hg.consumes rfl).of_ok hrequire
    exact hkind
  cases hafter : ws ++ us with
  | nil => exact absurd (kinds_nil (by simpa [hafter, hc] using hu)) (hkind ▸ hclose.ne_eof)
  | cons last xs =>
    rw [hafter] at hu
    have hlast : isBound last.kind = true := by rw [← kinds_cons hu, hkind, hbound]
    let inner : Surroundings := { c with
      rest := .ok last :: (xs.map .ok ++ c.rest), rest' := .ok last :: (xs.map .ok ++ c.rest') }
    have hlevel : inner.IsLevel := .inr ⟨last, hlast, rfl, rfl⟩
    obtain rfl : vs ++ last :: xs = ts := h.unique (by rw [hsu.events, hu, List.map_append, List.append_assoc])
    have hinner : inner.Relates vs s s' := by
      refine ⟨h.events.trans ?_, h.events'.trans ?_, h.length, h.length', h.locals⟩ <;> simp [inner]
    obtain ⟨u', m, hpa', hrelates, hm, hstop, ha⟩ := hp.carries hg.consumes hlevel (hg.carries _ hlevel) vs [] s s' a u
      hinner hk htaken hpa hu
    have hrelates' : c.Relates (last :: xs) u u' :=
      ⟨hrelates.events, hrelates.events', hrelates.length, hrelates.length', hrelates.locals⟩
    obtain ⟨t', n, hfa', ht, hn, hstop', hb⟩ := (hrest a m).carries _ us u u' b t hrelates' hm.symm
      (fun htaken => hstop (.inr htaken)) hfa hus
    exact ⟨t', n, bind_eq_ok_iff.2 ⟨a, u', hpa', hfa'⟩, ht, hn, fun heq => hstop' (heq.imp_left (hstop ∘ .inl)), hb⟩

/-- A group ends with a bracket that it takes, whatever comes behind it. -/
theorem skipGroup (hg : g.IsLocal) (hk : k.taken = true) : Carried c g k (skipGroup g) fun _ l => l.taken = true := by
  refine ⟨steady_skipGroup, fun ts us s s' a t h hkinds htaken hres hus => ?_⟩
  have hcloses : Closes (fun _ => False) k (Parser.skipGroup g) fun _ => True := closes_skipGroup hg
  obtain ⟨vs, last, hlast, hst, hother⟩ := (hcloses s a t hkinds hres trivial).resolve_left not_false
  let after : Surroundings := { c with rest := us.map .ok ++ c.rest, rest' := us.map .ok ++ c.rest' }
  have hts : ts = vs ++ last :: us := by
    refine (h.unique ?_).symm
    rw [hst.events, hus]
    simp
  have hbehind : (after.behind last).Relates vs s s' := by
    refine ⟨h.events.trans ?_, h.events'.trans ?_, h.length, h.length', h.locals⟩ <;> simp [hts, after, behind]
  obtain ⟨t', hres', hrelates, hstop⟩ := hother after s' hus.symm hbehind (htaken hk)
  refine ⟨t', ⟨true, t.kinds⟩, hres', ?_, rfl, fun _ => hstop, rfl⟩
  exact ⟨hrelates.events, hrelates.events', hrelates.length, hrelates.length', hrelates.locals⟩

end Carried

/-! ## Struct literals -/

section

variable (hc : c.rest = []) (hg : g.IsLocal)
include hc hg

/-- A struct literal ends with a brace that it takes, whatever comes behind it. -/
theorem carried_structType : Carried c g k (structType g) fun _ l => l.taken = true := by
  refine .bind hg.consumes (.expect hc hg.consumes (isFixed_keyword .struct)) fun keyword _ _ => ?_
  refine .bind hg.consumes (.expect hc hg.consumes (isFixed_symbol .lBrace)) fun _ l hl => ?_
  refine .closed (P := fun _ _ => True) hc hg (isFixed_symbol .rBrace) rfl ?_ fun fields close _ h => .pure h
  exact .mono (steady_entries (isFixed_symbol .rBrace) fun _ _ => steady_field (by simp [hl])) fun _ _ _ => trivial

/-! ## Expressions -/

theorem carried_callArgs : Carried c g k (callArgs g) fun _ l => l.taken = true := by
  refine .bind hg.consumes (.expect hc hg.consumes (isFixed_symbol .lParen)) fun _ l hl => ?_
  refine .closed (P := fun _ _ => True) hc hg (isFixed_symbol .rParen) rfl ?_ fun args _ _ h => .pure h
  exact .mono (.loop fun args _ => steady_callArgs_turn (by simp [hl]) args) fun _ _ _ => trivial

variable (hend : IsEnd c.rest') (hcg : c.CarriesGrammar g)
include hend

theorem carried_operand : Carried c g k (operand g) fun _ l => l.taken = true := by
  refine .advance_bind hc (.inr (.of_steady (fun _ => steady_operand) hg.consumes)) fun t ht => ?_
  have htaken (hmore : t.kind ≠ .eof) : k.next.taken = true := Pace.taken_next.2 (.inr (ht ▸ hmore))
  split
  · next hkind =>
    split
    · exact .pure (htaken (by simp [hkind]))
    · exact .fail rfl
  · next hkind => split <;> exact .pure (htaken (by simp [hkind]))
  · next hkind => exact .pure (htaken (by simp [hkind]))
  · next hkind => exact .pure (htaken (by simp [hkind]))
  · next hkind =>
    refine .ifAccept hc (isFixed_symbol .dot) (fun _ _ => ?_) (.pure (htaken (by simp [hkind])))
      (.inl ⟨hend, fun h => h.1 rfl⟩)
    refine .bind hg.consumes (.identifier hc hg.consumes) fun member _ h => ?_
    exact .spanned hg.consumes h fun _ => .pure h
  · exact .closed hc hg (isFixed_symbol .rParen) rfl (.expr rfl) fun inner close _ h => .pure h
  · exact .fail rfl

theorem carried_primaryExpr_turn (start : Span) (e : Expr) :
    Carried c g k (primaryExpr.turn g start e) Onward := by
  refine .ifCheck hc (isFixed_symbol .lParen) (fun _ => ?_) (fun _ => .pure trivial)
    (.inl ⟨hend, fun h => nomatch h.2.1⟩)
  refine .bind hg.consumes (carried_callArgs hc hg) fun args _ h => ?_
  exact .spanned hg.consumes h fun _ => .pure h

theorem carried_primaryExpr : Carried c g k (primaryExpr g) fun _ l => l.taken = true := by
  refine .peek_bind hc (.of_steady (fun _ => steady_primaryExpr) hg.consumes) fun start _ => ?_
  refine .bind hg.consumes (carried_operand hc hg hend) fun e _ he => ?_
  exact .mono (.repeating hg.consumes fun e _ => carried_primaryExpr_turn hc hg hend start.span e) fun _ _ h => h he

include hcg

theorem carried_unaryExpr : Carried c g k (unaryExpr g) fun _ l => l.taken = true := by
  have hungry : Hungry (primaryExpr g) := .of_steady (fun _ => steady_primaryExpr) hg.consumes
  refine .peekKind_bind hc ?_ (.inr hungry)
  split
  · exact carried_primaryExpr hc hg hend
  · next op hop =>
    have hmore : k.kinds 0 ≠ .eof := by
      intro heof
      rw [heof] at hop
      cases hop
    refine .advance_bind hc (.inl hmore) fun t ht => ?_
    exact .bind hg.consumes ⟨.unary rfl, hcg.unary _⟩ fun _ _ h => .pure h

theorem carried_binaryExpr_turn (precedence : Nat) (lhs : Expr) :
    Carried c g k (binaryExpr.turn g precedence lhs) Onward := by
  refine .peekKind_bind hc ?_ (.inl ⟨hend, fun kind h => by rw [h.2.2]; rfl⟩)
  split
  · exact .pure trivial
  · next op hop =>
    refine .ite (fun _ => .pure trivial) fun _ => ?_
    have hmore : k.kinds 0 ≠ .eof := by
      intro heof
      rw [heof] at hop
      cases hop
    refine .advance_bind hc (.inl hmore) fun t _ => ?_
    exact .bind hg.consumes ⟨.expr rfl, hcg.expr _ _⟩ fun _ _ h => .pure h

theorem carried_binaryExpr (precedence : Nat) : Carried c g k (binaryExpr g precedence) fun _ l => l.taken = true := by
  refine .bind hg.consumes (carried_unaryExpr hc hg hend hcg) fun first _ hfirst => ?_
  refine .mono (.repeating hg.consumes fun lhs _ => ?_) fun _ _ h => h hfirst
  exact carried_binaryExpr_turn hc hg hend hcg precedence lhs

/-! ## Types -/

omit hcg in
theorem carried_typeArgs (hk : k.taken = true) : Carried c g k (typeArgs g) fun _ l => l.taken = true := by
  refine .ifAccept hc (isFixed_symbol .lBracket) (fun l hl => ?_) (.pure hk) (.inl ⟨hend, fun h => nomatch h.2.1⟩)
  refine .closed (P := fun _ _ => True) hc hg (isFixed_symbol .rBracket) rfl ?_ fun args _ _ h => .pure h
  exact .mono (.loop fun args _ => steady_typeArgs_turn (by simp [hl]) args) fun _ _ _ => trivial

omit hcg in
theorem carried_typeName : Carried c g k (typeName g) fun _ l => l.taken = true := by
  have hspan {package : Option String} {name : String} {start : Span} (l : Pace) (hl : l.taken = true) :
      Carried c g l (typeArgs g >>= fun args => spanFrom start >>= fun span =>
        pure (TypeExpr.named package name args span)) fun _ l => l.taken = true := by
    refine .bind hg.consumes (carried_typeArgs hc hg hend hl) fun args _ hargs => ?_
    exact .spanned hg.consumes hargs fun _ => .pure hargs
  refine .bind hg.consumes (.name hc hg.consumes) fun first l hl => ?_
  refine .ifAccept hc (isFixed_symbol .dot) (fun m hm => ?_) (hspan l hl) (.inl ⟨hend, fun h => h.1 rfl⟩)
  exact .bind hg.consumes (.identifier hc hg.consumes) fun member n hn => hspan n hn

theorem carried_skipSignature (hk : k.taken = true) :
    Carried c g k (skipSignature g) fun _ l => l.taken = true := by
  refine .bind hg.consumes (.require hc (isFixed_symbol .lParen)) ?_
  rintro _ _ ⟨rfl, -⟩
  refine .bind hg.consumes (.skipGroup hg hk) fun _ l hl => ?_
  refine .ifCheck hc (isFixed_symbol .lParen) (fun _ => .skipGroup hg hl) (fun _ => ?_)
    (.inl ⟨hend, fun h => nomatch h.2.1⟩)
  refine .peekKind_bind hc (.ite (fun _ => ?_) fun _ => .pure hl) (.inl ⟨hend, fun kind h => by rw [h.2.1]; rfl⟩)
  refine .bind hg.consumes ⟨.type rfl, hcg.type _⟩ fun t _ ht => .mono (.keepStructs hg.consumes t) ?_
  rintro _ _ rfl
  exact ht

omit hend in
theorem carried_bracketType (start : Span) : Carried c g k (bracketType g start) fun _ l => l.taken = true := by
  have helement {f : TypeExpr → Span → TypeExpr} (l : Pace) : Carried c g l (g.type >>= fun e =>
      spanFrom start >>= fun span => pure (f e span)) fun _ l => l.taken = true := by
    refine .bind hg.consumes ⟨.type rfl, hcg.type _⟩ fun e _ he => ?_
    exact .spanned hg.consumes he fun _ => .pure he
  let array : Parser TypeExpr := do
    let length ← g.expr 1
    let _ ← expect (.symbol .rBracket)
    let e ← g.type
    return .array length e (← spanFrom start)
  let bounded : Parser TypeExpr := do
    if ← check (.symbol .ellipsis) then fail .inferredLength start >>= fun _ : Unit => array else array
  have harray (l : Pace) : Carried c g l array fun _ l => l.taken = true :=
    .closed hc hg (isFixed_symbol .rBracket) rfl (.expr rfl) fun length _ l _ => helement l
  have hbounded (l : Pace) : Carried c g l bounded fun _ l => l.taken = true :=
    .ifCheck hc (isFixed_symbol .ellipsis) (fun _ => .fail_bind rfl) (fun _ => harray l)
      (.inr (.of_steady (fun _ => (harray _).steady) hg.consumes))
  exact .ifAccept hc (isFixed_symbol .rBracket) (fun l _ => helement l) (hbounded k)
    (.inr (.of_steady (fun _ => (hbounded _).steady) hg.consumes))

theorem carried_typeExpr : Carried c g k (typeExpr g) fun _ l => l.taken = true := by
  refine .peek_bind hc (.of_steady (fun _ => steady_typeExpr) hg.consumes) fun t ht => ?_
  have hadvance (h : t.kind ≠ .eof) : Carried c g k advance fun _ l => l.taken = true := by
    refine .mono (.advance hc (ht ▸ h)) ?_
    rintro _ _ ⟨rfl, -⟩
    exact Pace.taken_next.2 (.inr (ht ▸ h))
  have hspan {f : Span → TypeExpr} {l : Pace} (hl : l.taken = true) :
      Carried c g l (spanFrom t.span >>= fun span => pure (f span)) fun _ l => l.taken = true :=
    .spanned hg.consumes hl fun _ => .pure hl
  have helement {f : TypeExpr → Span → TypeExpr} (l : Pace) : Carried c g l (g.type >>= fun e =>
      spanFrom t.span >>= fun span => pure (f e span)) fun _ l => l.taken = true :=
    .bind hg.consumes ⟨.type rfl, hcg.type _⟩ fun e _ he => hspan he
  split
  · exact carried_typeName hc hg hend
  · next hkind => exact .bind hg.consumes (hadvance (by simp [hkind])) fun _ l _ => helement l
  · next hkind => exact .bind hg.consumes (hadvance (by simp [hkind])) fun _ _ _ => carried_bracketType hc hg hcg _
  · next hkind =>
    refine .bind hg.consumes (hadvance (by simp [hkind])) fun _ _ _ => ?_
    refine .bind hg.consumes (.expect hc hg.consumes (isFixed_symbol .lBracket)) fun _ l hl => ?_
    exact .closed hc hg (isFixed_symbol .rBracket) rfl (.type rfl) fun key _ l _ => helement l
  · next hkind =>
    refine .bind hg.consumes (hadvance (by simp [hkind])) fun _ l hl => ?_
    extract_lets element
    have hdirection (d : Direction) (l : Pace) : Carried c g l (element d) fun _ l => l.taken = true := helement l
    exact .ifAccept hc (isFixed_symbol .arrow) (fun _ _ => hdirection _ _) (hdirection _ l)
      (.inl ⟨hend, fun h => nomatch h.2.1⟩)
  · next hkind =>
    refine .bind hg.consumes (hadvance (by simp [hkind])) fun _ _ _ => ?_
    exact .bind hg.consumes (.expect hc hg.consumes (isFixed_keyword .chan)) fun _ l _ => helement l
  · next hkind =>
    refine .bind hg.consumes (hadvance (by simp [hkind])) fun _ _ hl => ?_
    exact .bind hg.consumes (carried_skipSignature hc hg hend hcg hl) fun _ _ h => hspan h
  · next hkind =>
    refine .bind hg.consumes (hadvance (by simp [hkind])) fun _ _ hl => ?_
    refine .bind hg.consumes (.require hc (isFixed_symbol .lBrace)) ?_
    rintro _ _ ⟨rfl, -⟩
    exact .bind hg.consumes (.skipGroup hg hl) fun _ _ h => hspan h
  · exact .bind hg.consumes (carried_structType hc hg) fun _ _ h => .pure h
  · next hkind =>
    refine .bind hg.consumes (hadvance (by simp [hkind])) fun _ _ _ => ?_
    exact .closed hc hg (isFixed_symbol .rParen) rfl (.type rfl) fun inner _ _ h => .pure h
  · exact .fail rfl

end

/-- The grammar does so to any depth. -/
theorem Surroundings.carriesGrammar_ofDepth (hc : c.rest = []) (hend : IsEnd c.rest') (n : Nat) :
    c.CarriesGrammar (.ofDepth n) := by
  have hexhausted {α : Type} {k : Pace} {P : α → Pace → Prop} : c.Carries k exhausted P :=
    fun _ _ _ _ _ _ _ _ _ hres => nomatch hres
  induction n with
  | zero => exact ⟨fun _ => hexhausted, fun _ _ => hexhausted, fun _ => hexhausted⟩
  | succ n ih =>
    have hg := Grammar.isLocal_ofDepth n
    exact ⟨fun _ => (carried_typeExpr hc hg hend ih).carries,
      fun _ precedence => (carried_binaryExpr hc hg hend ih precedence).carries,
      fun _ => (carried_unaryExpr hc hg hend ih).carries⟩

/-! ## Parsing alone -/

variable {depth : Nat} {a : α} {rest : List Event}

/-- Whether tokens are parsed on their own, all of them. -/
def ReadsAlone (p : Grammar → Parser α) (ts : List Token) (a : α) : Prop :=
  ∃ length t, withGrammar p (.ofTokens length ts) = .ok a t ∧ t.stream.events = []

/-- A run that takes all tokens, of which something is seen. -/
theorem exists_readsAlone {β : Type} {p : Grammar → Parser α} {length : Nat} {look : α → β} {b : β}
    (h : seen? (fun a t => (look a, t.stream.events.isEmpty)) (withGrammar p (.ofTokens length ts)) = some (b, true)) :
    ∃ a, look a = b ∧ ReadsAlone p ts a := by
  obtain ⟨a, t, hres, hlook⟩ := exists_of_seen? h
  obtain ⟨hb, hempty⟩ := Prod.mk.inj hlook
  exact ⟨a, hb, length, t, hres, List.isEmpty_iff.1 hempty⟩

/-- What is parsed on its own is parsed in front of others where the parser is carried over. -/
theorem ReadsAlone.parses {p : Grammar → Parser α} (h : ReadsAlone p ts a) (hdepth : ts.length ≤ depth)
    (hsteady : ∀ g g' kinds, Steady g g' false ⟨false, kinds⟩ (p g) (p g') fun _ l => l.taken = true)
    (hcarried : ∀ c : Surroundings, c.rest = [] → c.rest' = rest → ∀ kinds,
      Carried c (.ofDepth depth) ⟨false, kinds⟩ (p (.ofDepth depth)) fun _ l => l.taken = true) :
    Parses (p (.ofDepth depth)) (ts.map .ok ++ rest) fun b es => b = a ∧ es = rest := by
  obtain ⟨length, t, hres, ht⟩ := h
  let start := State.ofTokens length ts
  have hremaining : start.remaining = ts.length := by simp [start, State.ofTokens, State.remaining]
  have hsame {m : Nat} (hm : ts.length ≤ m) : p (.ofDepth ts.length) start = p (.ofDepth m) start :=
    (hsteady _ _ start.kinds).eq (Grammar.consumes_ofDepth _) (Grammar.agreeBelow_ofDepth hm) rfl
      (Nat.le_of_eq hremaining) fun htaken => absurd htaken Bool.false_ne_true
  have hstart : p (.ofDepth depth) start = .ok a t := by
    rw [← hsame hdepth, hsame (Nat.le_succ _), ← hres, withGrammar, hremaining]
  intro s hs
  let c : Surroundings := ⟨[], rest, [], s.locals, length, s.stream.length⟩
  have hrelates : c.Relates ts start s :=
    ⟨by simp [start, State.ofTokens, c], hs, rfl, rfl, [], rfl, (List.append_nil _).symm⟩
  obtain ⟨t', l, hres', hrelates', -⟩ :=
    (hcarried c rfl rfl start.kinds).carries ts [] start s a t hrelates rfl
      (fun htaken => absurd htaken Bool.false_ne_true) hstart (by simp [ht, c])
  exact ⟨a, t', hres', rfl, hrelates'.events'⟩

/-- A type. -/
theorem ReadsAlone.type {e : TypeExpr} (h : ReadsAlone typeExpr ts e) (hdepth : ts.length ≤ depth)
    (hrest : IsEnd rest) :
    Parses (typeExpr (.ofDepth depth)) (ts.map .ok ++ rest) fun b es => b = e ∧ es = rest :=
  h.parses hdepth (fun _ _ _ => steady_typeExpr) fun _ hc hc' _ =>
    carried_typeExpr hc (Grammar.isLocal_ofDepth depth) (hc' ▸ hrest) (carriesGrammar_ofDepth hc (hc' ▸ hrest) depth)

/-- An expression. -/
theorem ReadsAlone.expr {precedence : Nat} {e : Expr} (h : ReadsAlone (binaryExpr · precedence) ts e)
    (hdepth : ts.length ≤ depth) (hrest : IsEnd rest) :
    Parses (binaryExpr (.ofDepth depth) precedence) (ts.map .ok ++ rest) fun b es => b = e ∧ es = rest :=
  h.parses hdepth (fun _ _ _ => steady_binaryExpr precedence) fun _ hc hc' _ =>
    carried_binaryExpr hc (Grammar.isLocal_ofDepth depth) (hc' ▸ hrest) (carriesGrammar_ofDepth hc (hc' ▸ hrest) depth)
      precedence

/-- A struct literal, whatever comes behind it. -/
theorem ReadsAlone.structType {st : StructType} (h : ReadsAlone structType ts st) (hdepth : ts.length ≤ depth)
    (rest : List Event) :
    Parses (structType (.ofDepth depth)) (ts.map .ok ++ rest) fun b es => b = st ∧ es = rest :=
  h.parses hdepth (fun _ _ _ => steady_structType) fun _ hc _ _ =>
    carried_structType hc (Grammar.isLocal_ofDepth depth)

theorem readsAlone_name (name : String) (span : Span) :
    ReadsAlone typeExpr [⟨.identifier name, span⟩] (.named none name [] span) := by
  have hres : withGrammar typeExpr (.ofTokens 0 [⟨.identifier name, span⟩]) =
      .ok (.named none name [] ⟨span.start, max span.stop span.stop⟩) ⟨⟨[], 0⟩, span.stop, []⟩ := rfl
  rw [Nat.max_self] at hres
  exact ⟨0, _, hres, rfl⟩

/-! ## First tokens -/

theorem startsType_of_typeExpr {e : TypeExpr} (h : typeExpr g s = .ok e t) : (s.kinds 0).startsType = true := by
  suffices hends : Ends (typeExpr g) s (fun _ _ => (s.kinds 0).startsType = true) fun _ _ => True from hends.of_ok h
  refine (ends_peekAt_takes 0 s).bind ?_ fun _ _ _ => trivial
  rintro b _ ⟨rfl, hb⟩
  rw [← hb]
  split
  all_goals first
    | exact .throw trivial
    | next hkind => exact Ends.trivial.mono (fun _ _ _ => by rw [hkind]; rfl) fun _ _ h => h

theorem ReadsAlone.exists_startsType {e : TypeExpr} (h : ReadsAlone typeExpr ts e) (rest : List Event) :
    ∃ kind, nextKind? (ts.map .ok ++ rest) = some kind ∧ kind.startsType = true := by
  obtain ⟨length, t, hres, -⟩ := h
  have hstart := startsType_of_typeExpr hres
  cases ts with
  | nil => cases hstart
  | cons b us => exact ⟨b.kind, rfl, hstart⟩

end StructPadding.Parser
