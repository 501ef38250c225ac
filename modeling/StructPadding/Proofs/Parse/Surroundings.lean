-- SUMMARY: What comes behind the tokens that a parser takes does not matter to it, nor does what was kept before.
import StructPadding.Proofs.Parse.Termination

/-!
# Surroundings

A parser is run twice: the tokens that it takes in the first run are the same in the second one, but what comes behind
them is not, nor are the struct literals kept before. A steady parser does the same in the second run where both
sources go on with the same semicolon, comma or closing bracket, as it does not look behind one. Declarations end with
a semicolon that they take, and groups with a closing bracket, so that they are read in the same way whatever comes
behind it.
-/

namespace StructPadding.Parser

open Token (Kind Event Stream)

/-! ## Two runs -/

/-- What two runs have different: what comes behind the tokens of both, the struct literals kept before, and the length
    of the source. -/
structure Surroundings where
  rest : List Event
  rest' : List Event
  kept : List LocalStruct
  kept' : List LocalStruct
  length : Nat
  length' : Nat

namespace Surroundings

/-- Whether the same comes behind the tokens of both, or first the same token that no parser looks past. -/
def IsLevel (c : Surroundings) : Prop :=
  (c.rest' = c.rest ∧ c.length' = c.length) ∨
    ∃ last : Token, isBound last.kind = true ∧ c.rest.head? = some (.ok last) ∧ c.rest'.head? = some (.ok last)

/-- Whether two states have the same tokens to come, up to where the surroundings differ, and keep the same struct
    literals, but for those kept before. -/
structure Relates (c : Surroundings) (ts : List Token) (s s' : State) : Prop where
  events : s.stream.events = ts.map .ok ++ c.rest
  events' : s'.stream.events = ts.map .ok ++ c.rest'
  length : s.stream.length = c.length
  length' : s'.stream.length = c.length'
  locals : ∃ more, s.locals = c.kept ++ more ∧ s'.locals = c.kept' ++ more

/-- Whether a parser that starts at a pace and succeeds in the first run, up to where the surroundings differ, does
    the same in the second one. -/
def Carries (c : Surroundings) {α : Type} (k : Pace) (p : Parser α) (Q : α → Pace → Prop) : Prop :=
  ∀ ts us s s' a t, c.Relates ts s s' → s.kinds = k.kinds → (k.taken = true → s'.lastStop = s.lastStop) →
    p s = .ok a t → t.stream.events = us.map .ok ++ c.rest →
      ∃ t' l, p s' = .ok a t' ∧ c.Relates us t t' ∧ l.kinds = t.kinds ∧
        (s'.lastStop = s.lastStop ∨ l.taken = true → t'.lastStop = t.lastStop) ∧ Q a l

/-- Whether this holds of the parsers of a grammar. -/
structure CarriesGrammar (c : Surroundings) (g : Grammar) : Prop where
  type : ∀ k, c.Carries k g.type fun _ l => l.taken = true
  expr : ∀ k precedence, c.Carries k (g.expr precedence) fun _ l => l.taken = true
  unary : ∀ k, c.Carries k g.unary fun _ l => l.taken = true

variable {c : Surroundings} {ts us : List Token} {s s' t : State} {α β : Type} {k : Pace} {P : α → Pace → Prop}
  {Q : β → Pace → Prop}

theorem Relates.unique (h : c.Relates ts s s') (hs : s.stream.events = us.map .ok ++ c.rest) : us = ts :=
  (List.map_inj_right fun _ _ => Except.ok.inj).1 (List.append_cancel_right (hs.symm.trans h.events))

/-- The second step has to take tokens only, so that the first one has not gone beyond what both runs have. -/
theorem carries_bind {p : Parser α} {f : α → Parser β} (hp : c.Carries k p P)
    (hf : ∀ a l, P a l → c.Carries l (f a) Q)
    (htakes : ∀ s a u b t, s.kinds = k.kinds → p s = .ok a u → f a u = .ok b t → ∃ vs, u.Takes vs t) :
    c.Carries k (p >>= f) Q := by
  intro ts us s s' b t h hk htaken hres hus
  obtain ⟨a, u, hpa, hfa⟩ := bind_eq_ok_iff.1 hres
  obtain ⟨vs, hvs⟩ := htakes s a u b t hk hpa hfa
  have hu : u.stream.events = (vs ++ us).map .ok ++ c.rest := by
    rw [hvs.events, hus, List.map_append, List.append_assoc]
  obtain ⟨u', l, hpa', hu, hl, hstop, ha⟩ := hp ts _ s s' a u h hk htaken hpa hu
  obtain ⟨t', m, hfa', ht, hm, hstop', hb⟩ := hf a l ha _ us u u' b t hu hl.symm (fun hl => hstop (.inr hl)) hfa hus
  refine ⟨t', m, bind_eq_ok_iff.2 ⟨a, u', hpa', hfa'⟩, ht, hm, fun heq => hstop' (heq.imp_left fun heq => ?_), hb⟩
  exact hstop (.inl heq)

theorem Carries.mono {p : Parser α} {R : α → Pace → Prop} (hp : c.Carries k p P) (h : ∀ a l, P a l → R a l) :
    c.Carries k p R := by
  intro ts us s s' a t hs hk htaken hres hus
  obtain ⟨t', l, hres', ht, hl, hstop, ha⟩ := hp ts us s s' a t hs hk htaken hres hus
  exact ⟨t', l, hres', ht, hl, hstop, h a l ha⟩

/-! ## Reading -/

theorem carries_pure {a : α} (ha : P a k) : c.Carries k (pure a) P := by
  intro ts us s s' b t h hk htaken hres hus
  obtain ⟨rfl, rfl⟩ := pure_eq_ok_iff.1 hres
  obtain rfl := h.unique hus
  exact ⟨s', k, rfl, h, hk.symm, fun heq => heq.elim id htaken, ha⟩

theorem carries_spanFrom {first : Span} (hk : k.taken = true) : c.Carries k (spanFrom first) fun _ l => l = k := by
  have hspan (s : State) : spanFrom first s = .ok ⟨first.start, max s.lastStop first.stop⟩ s := rfl
  intro ts us s s' a t h hkinds hstop hres hus
  obtain ⟨rfl, rfl⟩ := EStateM.Result.ok.inj ((hspan s).symm.trans hres)
  obtain rfl := h.unique hus
  exact ⟨s', k, by rw [hspan, hstop hk], h, hkinds.symm, fun _ => hstop hk, rfl⟩

theorem carries_keep {l : LocalStruct} : c.Carries k (keep l) fun _ l => l = k := by
  have hkeep (s : State) : keep l s = .ok () { s with locals := s.locals ++ [l] } := rfl
  intro ts us s s' a t h hkinds hstop hres hus
  obtain ⟨-, rfl⟩ := EStateM.Result.ok.inj ((hkeep s).symm.trans hres)
  obtain rfl := h.unique hus
  obtain ⟨more, hmore, hmore'⟩ := h.locals
  refine ⟨_, k, hkeep s', ⟨h.events, h.events', h.length, h.length', more ++ [l], ?_, ?_⟩, hkinds.symm,
    fun heq => heq.elim id hstop, rfl⟩
  · simp only [hmore, List.append_assoc]
  · simp only [hmore', List.append_assoc]

/-- Looking ahead depends on the tokens that are looked past, and on the length of a source that ends before. -/
theorem peekAt_of_take {n : Nat} {a : Token} (h : read (Stream.peekAt n) s = .ok a t)
    (htake : s'.stream.events.take (n + 1) = s.stream.events.take (n + 1))
    (hlength : n < s.stream.events.length ∨ s'.stream.length = s.stream.length) :
    read (Stream.peekAt n) s' = .ok a s' := by
  have hproblem (m : Nat) (es : List Event) :
      Stream.firstProblem m (es.take m) = none ↔ Stream.firstProblem m es = none := by
    induction m generalizing es with
    | zero => cases es <;> simp [Stream.firstProblem]
    | succ m ih => rcases es with _ | ⟨_ | _, es⟩ <;> simp [Stream.firstProblem, ih]
  have hget : s'.stream.events[n]? = s.stream.events[n]? := by
    rw [← List.getElem?_take_of_lt (Nat.lt_succ_self n), htake, List.getElem?_take_of_lt (Nat.lt_succ_self n)]
  simp only [read, Stream.peekAt] at h ⊢
  cases hnone : Stream.firstProblem (n + 1) s.stream.events with
  | some found => simp [hnone] at h
  | none =>
    have hnone' := (hproblem _ _).1 (htake ▸ (hproblem _ _).2 hnone)
    simp only [hnone, hnone', hget] at h ⊢
    obtain hevent | ⟨b, hevent⟩ := firstProblem_eq_none hnone <;> simp only [hevent] at h ⊢ <;> cases h
    · simp only [Stream.eof, hlength.resolve_left (Nat.not_lt.2 (List.getElem?_eq_none_iff.1 hevent))]
    · rfl

/-- No parser looks past the bound that both sources go on with. -/
theorem Relates.take_eq {n : Nat} (h : c.Relates ts s s') (hc : c.IsLevel)
    (hn : ∀ i < n, isBound (s.kinds i) = false) :
    s'.stream.events.take (n + 1) = s.stream.events.take (n + 1) ∧
      (n < s.stream.events.length ∨ s'.stream.length = s.stream.length) := by
  rcases hc with ⟨hrest, hlength⟩ | ⟨last, hlast, hhead, hhead'⟩
  · exact ⟨by rw [h.events, h.events', hrest], .inr (by rw [h.length, h.length', hlength])⟩
  have hle : n ≤ ts.length := by
    refine Nat.le_of_not_lt fun hlt => Bool.false_ne_true ((hn _ hlt).symm.trans ?_)
    have hget : s.stream.events[ts.length]? = some (.ok last) := by
      rw [h.events, List.getElem?_append_right (by simp), List.length_map, Nat.sub_self, ← List.head?_eq_getElem?,
        hhead]
    simp only [State.kinds, Cursor.kindAt, hget, hlast]
  have hmore : 0 < c.rest.length := List.length_pos_of_mem (List.mem_of_mem_head? hhead)
  refine ⟨?_, .inl (by rw [h.events, List.length_append, List.length_map]; omega)⟩
  rw [h.events, h.events', List.take_append, List.take_append]
  congr 1
  rw [List.length_map]
  obtain hzero | hone : n + 1 - ts.length = 0 ∨ n + 1 - ts.length = 1 := by omega
  · rw [hzero, List.take_zero, List.take_zero]
  · rw [hone, List.take_one, List.take_one, hhead, hhead']

theorem carries_peekAt (hc : c.IsLevel) (n : Nat) (hn : ∀ i < n, isBound (k.kinds i) = false) :
    c.Carries k (read (Stream.peekAt n)) fun t l => l = k ∧ t.kind = k.kinds n := by
  intro ts us s s' a t h hk _ hres hus
  obtain ⟨rfl, ha⟩ := (ends_peekAt_takes n s).of_ok hres
  obtain rfl := h.unique hus
  obtain ⟨htake, hlength⟩ := h.take_eq hc (hk ▸ hn)
  exact ⟨s', k, peekAt_of_take hres htake hlength, h, hk.symm, fun heq => heq.elim id ‹_›, rfl, hk ▸ ha⟩

theorem carries_advance (hc : c.IsLevel) : c.Carries k advance fun t l => l = k.next ∧ t.kind = k.kinds 0 := by
  intro ts us s s' a t h hk htaken hres hus
  obtain ⟨-, ha, ht⟩ := (ends_advance_takes s).of_ok hres
  have hpace : k.next.kinds = t.kinds := by
    rw [ht, hk]
    rfl
  suffices ∃ t', advance s' = .ok a t' ∧ c.Relates us t t' ∧
      (s'.lastStop = s.lastStop ∨ k.next.taken = true → t'.lastStop = t.lastStop) by
    obtain ⟨t', hres', ht', hstop⟩ := this
    exact ⟨t', k.next, hres', ht', hpace, hstop, rfl, hk ▸ ha⟩
  -- Where the kind is that of the end of the file, no end of a token has been noted.
  have hend (hnext : k.next.taken = true) (hkind : a.kind = .eof) : s'.lastStop = s.lastStop :=
    htaken ((Pace.taken_next.1 hnext).resolve_right fun hmore => hmore (hk ▸ ha.symm.trans hkind))
  cases hevents : s.stream.events with
  | nil =>
    have hnil := List.append_eq_nil_iff.1 (h.events.symm.trans hevents)
    obtain ⟨hevents', hlength⟩ : s'.stream.events = [] ∧ s'.stream.length = s.stream.length := by
      rcases hc with ⟨hrest, hlength⟩ | ⟨last, -, hhead, -⟩
      · exact ⟨by rw [h.events', hnil.1, hrest, hnil.2, List.append_nil], by rw [h.length, h.length', hlength]⟩
      · simp [hnil.2] at hhead
    rw [advance_nil hevents] at hres
    obtain ⟨rfl, rfl⟩ := EStateM.Result.ok.inj hres
    obtain rfl := h.unique hus
    refine ⟨s', ?_, h, fun heq => heq.elim id fun hnext => hend hnext rfl⟩
    rw [advance_nil hevents', Stream.eof, Stream.eof, hlength]
  | cons event rest =>
    cases event with
    | error e => simp [advance_error hevents] at hres
    | ok b =>
      rw [advance_ok hevents] at hres
      obtain ⟨rfl, rfl⟩ := EStateM.Result.ok.inj hres
      obtain rfl : ts = b :: us := (h.unique (by rw [hevents, show rest = _ from hus]; rfl)).symm
      refine ⟨_, advance_ok h.events', ⟨hus, rfl, h.length, h.length', h.locals⟩, fun heq => ?_⟩
      by_cases hb : b.kind = .eof
      · simp only [hb, if_true]
        exact heq.elim id fun hnext => hend hnext hb
      · simp only [hb, if_false]

/-! ## Loops -/

theorem carries_turns {turn : β → Parser (ForInStep β)} {busy : (Nat → Kind) → Prop}
    (hturn : ∀ b kinds, c.Carries ⟨false, kinds⟩ (turn b) fun step l => Onward step l ∧ (busy kinds → l.taken = true))
    (hruns : ∀ n b s, Ends (turns turn n b) s (fun _ t => ∃ ts, s.Takes ts t) s.Fails)
    (n : Nat) {b d : β} (h : c.Relates ts s s') (hres : turns turn n b s = .ok d t)
    (hus : t.stream.events = us.map .ok ++ c.rest) :
    ∃ t', turns turn n b s' = .ok d t' ∧ c.Relates us t t' ∧
      (s'.lastStop = s.lastStop ∨ busy s.kinds → t'.lastStop = t.lastStop) := by
  induction n generalizing b ts s s' with
  | zero => cases hres
  | succ n ih =>
    obtain ⟨step, u, hstep, hrest⟩ := bind_eq_ok_iff.1 hres
    cases step with
    | done e =>
      obtain ⟨rfl, rfl⟩ := pure_eq_ok_iff.1 hrest
      obtain ⟨u', l, hstep', hu, -, hstop, -, hbusy⟩ := hturn b s.kinds ts us s s' _ _ h rfl nofun hstep hus
      exact ⟨u', bind_eq_ok_iff.2 ⟨_, u', hstep', rfl⟩, hu, fun heq => hstop (heq.imp_right hbusy)⟩
    | yield e =>
      obtain ⟨vs, hvs⟩ := (hruns n e u).of_ok hrest
      have hu : u.stream.events = (vs ++ us).map .ok ++ c.rest := by
        rw [hvs.events, hus, List.map_append, List.append_assoc]
      obtain ⟨u', l, hstep', hu, -, hstop, honward, -⟩ := hturn b s.kinds ts _ s s' _ _ h rfl nofun hstep hu
      obtain ⟨t', hrest', ht, hstop'⟩ := ih hu hrest
      exact ⟨t', bind_eq_ok_iff.2 ⟨_, u', hstep', hrest'⟩, ht, fun _ => hstop' (.inl (hstop (.inr honward)))⟩

/-- A loop is carried where its turns are. Whether a token has been taken by it shows in the end of the last one. -/
theorem carries_repeating {turn : β → Parser (ForInStep β)} {init : β} {busy : (Nat → Kind) → Prop}
    (hturn : ∀ b kinds, c.Carries ⟨false, kinds⟩ (turn b) fun step l => Onward step l ∧ (busy kinds → l.taken = true))
    (hadvances : Advances turn)
    (hruns : ∀ n b s, Ends (turns turn n b) s (fun _ t => ∃ ts, s.Takes ts t) s.Fails) :
    c.Carries k (repeating init turn) fun _ l => k.taken = true ∨ busy k.kinds → l.taken = true := by
  intro ts us s s' b t h hk htaken hres hus
  obtain ⟨t', hres', ht, hstop⟩ := carries_turns hturn hruns _ h hres hus
  refine ⟨t', ⟨decide (t'.lastStop = t.lastStop), t.kinds⟩, repeating_of_turns hadvances hres', ht, rfl, ?_,
    fun heq => ?_⟩
  · exact fun heq => heq.elim (fun heq => hstop (.inl heq)) of_decide_eq_true
  · exact decide_eq_true (hstop (heq.imp htaken (hk ▸ ·)))

end Surroundings

/-! ## Steady parsers -/

open Surroundings

variable {g g' : Grammar} {free : Bool} {k : Pace} {α : Type} {p p' : Parser α} {P : α → Pace → Prop} {c : Surroundings}

theorem Steady.takes_turns {turn turn' : α → Parser (ForInStep α)} {busy : (Nat → Kind) → Prop}
    (h : ∀ b kinds, Steady g g' free ⟨false, kinds⟩ (turn b) (turn' b) fun step l =>
      Onward step l ∧ (busy kinds → l.taken = true))
    (hg : g.Consumes) (n : Nat) (b : α) (s : State) :
    Ends (turns turn n b) s (fun _ t => ∃ ts, s.Takes ts t) s.Fails :=
  (runs_turns (fun b kinds _ ht => (h b kinds).runs hg ht) n b s).mono (fun _ _ ⟨ts, hts, _⟩ => ⟨ts, hts⟩)
    fun _ _ h => h

theorem Steady.carries (h : Steady g g' free k p p' P) (hg : g.Consumes) (hc : c.IsLevel) (hcg : c.CarriesGrammar g) :
    c.Carries k p P := by
  induction h with
  | pure ha => exact carries_pure ha
  | @bind free k _ _ p p' f f' _ _ hp hf ihp ihf =>
    refine carries_bind ihp ihf fun s a u b t hk hpa hfa => ?_
    obtain ⟨-, l, -, hl, -, ha⟩ := (hp.runs hg hk).of_ok hpa
    obtain ⟨vs, -, hvs, -⟩ := ((hf a l ha).runs hg hl.symm).of_ok hfa
    exact ⟨vs, hvs⟩
  | mono _ h ih => exact ih.mono h
  | fail => exact fun _ _ _ _ _ _ _ _ _ hres => absurd hres throw_ne_ok
  | peekAt n hn => exact carries_peekAt hc n hn
  | advance => exact carries_advance hc
  | spanFrom htaken => exact carries_spanFrom htaken
  | keep => exact carries_keep
  | type => exact hcg.type _
  | expr => exact hcg.expr _ _
  | unary => exact hcg.unary _
  | repeating busy hturn ih =>
    refine carries_repeating ih (Steady.advances (fun b kinds => .mono (hturn b kinds) fun _ _ h => h.1) hg) ?_
    exact Steady.takes_turns hturn hg

/-- The grammar does so to any depth. -/
theorem Surroundings.carries_ofDepth (hc : c.IsLevel) (n : Nat) : c.CarriesGrammar (Grammar.ofDepth n) := by
  have hexhausted {α : Type} {k : Pace} {P : α → Pace → Prop} : c.Carries k exhausted P :=
    fun _ _ _ _ _ _ _ _ _ hres => nomatch hres
  induction n with
  | zero => exact ⟨fun _ => hexhausted, fun _ _ => hexhausted, fun _ => hexhausted⟩
  | succ n ih =>
    have hg := Grammar.consumes_ofDepth n
    have hcarries {α : Type} {p : Parser α} {k : Pace}
        (hp : Steady (.ofDepth n) (.ofDepth n) false k p p fun _ l => l.taken = true) :
        c.Carries k p fun _ l => l.taken = true := hp.carries hg hc ih
    exact ⟨fun _ => hcarries steady_typeExpr, fun _ precedence => hcarries (steady_binaryExpr precedence),
      fun _ => hcarries steady_unaryExpr⟩

/-- Whether the parsers of a grammar take tokens, and do so in all surroundings in which they see the same. -/
structure Grammar.IsLocal (g : Grammar) : Prop where
  consumes : g.Consumes
  carries : ∀ c : Surroundings, c.IsLevel → c.CarriesGrammar g

theorem Grammar.isLocal_ofDepth (n : Nat) : (Grammar.ofDepth n).IsLocal :=
  ⟨consumes_ofDepth n, fun _ hc => Surroundings.carries_ofDepth hc n⟩

/-! ## Ends of declarations and groups -/

variable {β : Type} {D : α → Prop} {E : β → Prop} {F : State → Prop} {s t : State}

/-- The surroundings with a token still to come. -/
def Surroundings.behind (c : Surroundings) (last : Token) : Surroundings :=
  { c with rest := .ok last :: c.rest, rest' := .ok last :: c.rest' }

theorem Surroundings.isLevel_behind {last : Token} (h : isBound last.kind = true) : (c.behind last).IsLevel :=
  .inr ⟨last, h, rfl, rfl⟩

theorem isBound_of_isClose {kind : Kind} (h : kind.isClose = true) : isBound kind = true := by
  unfold Kind.isClose at h
  split at h <;> first | rfl | cases h

/-- Whether a run of a parser ends behind a bound, and could as well have had other surroundings behind it. -/
def Shuts (p : Parser α) (s : State) (a : α) (t : State) : Prop :=
  ∃ (ts : List Token) (last : Token), isBound last.kind = true ∧ s.Takes (ts ++ [last]) t ∧
    ∀ (c : Surroundings) (s' : State), c.rest = t.stream.events → (c.behind last).Relates ts s s' →
      s'.lastStop = s.lastStop → ∃ t', p s' = .ok a t' ∧ c.Relates [] t t' ∧ t'.lastStop = t.lastStop

/-- Whether all runs of a parser that start at a pace and have such a value end in this way, unless they end in one of
    the states that are excepted. -/
def Closes (F : State → Prop) (k : Pace) (p : Parser α) (D : α → Prop) : Prop :=
  ∀ s a t, s.kinds = k.kinds → p s = .ok a t → D a → F t ∨ Shuts p s a t

/-- Whether a file ends here. -/
def State.atEnd (s : State) : Prop := s.kinds 0 = .eof

theorem Shuts.map {f : α → Parser β} {a : α} {b : β} (h : Shuts p s a t) (hf : f a = pure b) :
    Shuts (p >>= f) s b t := by
  obtain ⟨ts, last, hlast, hst, hother⟩ := h
  refine ⟨ts, last, hlast, hst, fun c s' hc hs hstop => ?_⟩
  obtain ⟨t', hres, ht⟩ := hother c s' hc hs hstop
  exact ⟨t', bind_eq_ok_iff.2 ⟨a, t', hres, by rw [hf]; rfl⟩, ht⟩

/-- What a steady parser takes is in front of the end. -/
theorem Shuts.after {f : α → Parser β} {a : α} {b : β} {u : State} (hg : g.IsLocal) (hp : Steady g g true k p p P)
    (hs : s.kinds = k.kinds) (hres : p s = .ok a u) (h : Shuts (f a) u b t) : Shuts (p >>= f) s b t := by
  obtain ⟨us, last, hlast, hut, hother⟩ := h
  obtain ⟨ts, -, hst, -⟩ := (hp.runs hg.consumes hs).of_ok hres
  refine ⟨ts ++ us, last, hlast, by rw [List.append_assoc]; exact hst.trans hut, fun c s' hc hrelates hstop => ?_⟩
  have hu : u.stream.events = us.map .ok ++ (c.behind last).rest := by
    rw [hut.events, List.map_append, List.append_assoc, ← hc]
    rfl
  have hlevel := Surroundings.isLevel_behind (c := c) hlast
  obtain ⟨u', l, hres', hrelates', hl, hstop', hl'⟩ := hp.carries hg.consumes hlevel (hg.carries _ hlevel) _ us s s' a u
    hrelates hs (fun _ => hstop) hres hu
  obtain ⟨t', hres'', ht⟩ := hother c u' hc hrelates' (hstop' (.inl hstop))
  exact ⟨t', bind_eq_ok_iff.2 ⟨a, u', hres', hres''⟩, ht⟩

/-- The bound itself. -/
theorem shuts_advance {last : Token} (h : advance s = .ok last t) (hlast : isBound last.kind = true) :
    Shuts advance s last t := by
  cases hevents : s.stream.events with
  | nil =>
    rw [advance_nil hevents] at h
    obtain ⟨rfl, -⟩ := EStateM.Result.ok.inj h
    cases hlast
  | cons event rest =>
    cases event with
    | error e => simp [advance_error hevents] at h
    | ok a =>
      rw [advance_ok hevents] at h
      obtain ⟨rfl, rfl⟩ := EStateM.Result.ok.inj h
      refine ⟨[], a, hlast, ⟨hevents, rfl⟩, fun c s' hc hrelates hstop => ?_⟩
      refine ⟨_, advance_ok hrelates.events', ⟨hc.symm, rfl, hrelates.length, hrelates.length', hrelates.locals⟩, ?_⟩
      simp only [hstop]

namespace Closes

theorem map {f : α → β} (h : Closes F k p fun _ => True) : Closes F k (p >>= fun a => pure (f a)) E := by
  intro s b t hs hres _
  obtain ⟨a, u, hp, hf⟩ := bind_eq_ok_iff.1 hres
  obtain ⟨rfl, rfl⟩ := pure_eq_ok_iff.1 hf
  exact (h s a u hs hp trivial).imp_right fun hshuts => hshuts.map rfl

theorem ite {b : Prop} [Decidable b] {q : Parser α} (hp : b → Closes F k p D) (hq : ¬ b → Closes F k q D) :
    Closes F k (if b then p else q) D := by
  split
  · exact hp ‹_›
  · exact hq ‹_›

theorem pure {a : α} (h : k.kinds 0 = .eof) : Closes State.atEnd k (pure a) D := by
  intro s b t hs hres _
  obtain ⟨-, rfl⟩ := pure_eq_ok_iff.1 hres
  exact .inl ((congrFun hs 0).trans h)

/-- The token that comes next, where it is a bound. -/
theorem advance {G : Token → Prop} (h : isBound (k.kinds 0) = true) : Closes F k Parser.advance G := by
  intro s last t hs hres _
  obtain ⟨-, hkind, -⟩ := (ends_advance_takes s).of_ok hres
  exact .inr (shuts_advance hres (by rw [hkind, hs, h]))

variable (hg : g.IsLocal)
include hg

/-- A parser that never has such a value. -/
theorem never (h : Steady g g true k p p fun a _ => ¬ D a) : Closes F k p D := by
  intro s a t hs hres ha
  obtain ⟨-, -, -, -, -, hnot⟩ := (h.runs hg.consumes hs).of_ok hres
  exact absurd ha hnot

theorem bind {f : α → Parser β} (hp : Steady g g true k p p P) (hf : ∀ a l, P a l → Closes F l (f a) E) :
    Closes F k (p >>= f) E := by
  intro s b t hs hres hb
  obtain ⟨a, u, hpa, hfa⟩ := bind_eq_ok_iff.1 hres
  obtain ⟨-, l, -, hl, -, ha⟩ := (hp.runs hg.consumes hs).of_ok hpa
  exact (hf a l ha u b t hl.symm hfa hb).imp_right fun hshuts => .after hg hp hs hpa hshuts

/-- A loop of which the last turn ends so. -/
theorem repeating {turn : β → Parser (ForInStep β)} {init : β}
    (hturn : ∀ b kinds, Steady g g true ⟨false, kinds⟩ (turn b) (turn b) Onward)
    (hdone : ∀ b kinds, Closes F ⟨false, kinds⟩ (turn b) fun step => ∃ d, step = .done d) :
    Closes F k (repeating init turn) E := by
  have hturns (n : Nat) (b d : β) (s t : State) (hres : turns turn n b s = .ok d t) :
      F t ∨ Shuts (turns turn n b) s d t := by
    induction n generalizing b s with
    | zero => cases hres
    | succ n ih =>
      obtain ⟨step, u, hstep, hrest⟩ := bind_eq_ok_iff.1 hres
      cases step with
      | yield e => exact (ih e u hrest).imp_right fun hshuts => .after hg (hturn b s.kinds) rfl hstep hshuts
      | done e =>
        obtain ⟨rfl, rfl⟩ := pure_eq_ok_iff.1 hrest
        exact (hdone b s.kinds s _ u rfl hstep ⟨_, rfl⟩).imp_right fun hshuts => hshuts.map rfl
  intro s d t _ hres _
  refine (hturns _ init d s t hres).imp_right ?_
  rintro ⟨ts, last, hlast, hst, hother⟩
  refine ⟨ts, last, hlast, hst, fun c s' hc hs hstop => ?_⟩
  obtain ⟨t', hres', ht⟩ := hother c s' hc hs hstop
  exact ⟨t', repeating_of_turns (Steady.advances hturn hg.consumes) hres', ht⟩

end Closes

section

variable (hg : g.IsLocal)
include hg

theorem closes_declarationEnd {G : Unit → Prop} : Closes State.atEnd k declarationEnd G := by
  have haccept (p q : Parser Unit) : (accept (.symbol .semi) >>= fun b => if b = true then p else q) =
      check (.symbol .semi) >>= fun b => if b = true then Parser.advance >>= fun _ => p else q := by
    simp only [accept, bind_assoc]
    congr 1
    funext b
    cases b <;> simp
  have hunfold : declarationEnd = accept (.symbol .semi) >>= fun b => if b = true then pure () else
      check .eof >>= fun b => if b = true then pure () else require (.symbol .semi) := rfl
  rw [hunfold, haccept]
  refine .bind hg (steady_check (.symbol .semi)) ?_
  rintro b _ ⟨rfl, rfl⟩
  refine .ite (fun hsemi => ?_) fun hmore => ?_
  · have hkind := ((isFixed_symbol .semi).isLike_iff _).1 hsemi
    exact .map (f := fun _ => ()) (.advance (by rw [hkind]; rfl))
  refine .bind hg (steady_check .eof) ?_
  rintro b k ⟨rfl, rfl⟩
  refine .ite (fun hend => .pure ?_) fun _ => ?_
  · cases hkind : k.kinds 0 <;> simp_all [Kind.isLike]
  · refine .never hg (.mono (steady_require (isFixed_symbol .semi)) ?_)
    rintro _ _ ⟨rfl, hsemi⟩
    exact absurd (((isFixed_symbol .semi).isLike_iff _).2 hsemi) hmore

theorem closes_packageClause {G : SourceFile → Prop} : Closes State.atEnd k packageClause G := by
  refine .bind hg steady_peek fun start _ _ => ?_
  refine .bind hg (steady_expect (isFixed_keyword .package)) fun _ _ _ => ?_
  exact .bind hg steady_identifier fun package _ _ => .map (closes_declarationEnd hg)

theorem closes_declaration {keyword : Token.Keyword} {entry : List α → Parser α} {G : List α → Prop}
    (hentry : ∀ {free k} done, Steady g g free k (entry done) (entry done) fun _ l => l.taken = true) :
    Closes State.atEnd k (declaration keyword entry) G := by
  refine .bind hg (steady_expect (isFixed_keyword keyword)) fun _ _ _ => ?_
  exact .bind hg (steady_group hentry) fun es _ _ => .map (closes_declarationEnd hg)

theorem closes_skipDeclaration {G : Unit → Prop} : Closes State.atEnd k (skipDeclaration g) G := by
  refine .repeating hg (fun u _ => .mono (steady_skipDeclaration_turn u) fun _ _ h => h.1) fun u _ => ?_
  have hyield {α : Type} {k : Pace} {p : Parser α} {P : α → Pace → Prop} (hp : Steady g g true k p p P) :
      Closes State.atEnd k (p >>= fun _ => Pure.pure (.yield ())) fun step : ForInStep Unit => ∃ d, step = .done d :=
    .never hg (.bind hp fun _ _ _ => .pure nofun)
  refine .bind hg steady_atLocalStruct ?_
  rintro here k rfl
  refine .ite (fun _ => hyield steady_localStruct) fun _ => ?_
  refine .bind hg steady_peek ?_
  rintro t _ ⟨rfl, ht⟩
  refine .ite (fun hsemi => ?_) fun _ => ?_
  · have hkind := ht.symm.trans (((isFixed_symbol .semi).isLike_iff _).1 hsemi)
    exact .map (.advance (by rw [hkind]; rfl))
  refine .ite (fun hend => .pure (ht.symm.trans hend)) fun _ => ?_
  refine .ite (fun _ => hyield steady_skipGroup) fun _ => ?_
  refine .ite (fun _ => .never hg (.fail_bind rfl)) fun _ => ?_
  exact hyield .advance

theorem closes_declarations_turn (file : SourceFile) {G : ForInStep SourceFile → Prop} :
    Closes State.atEnd k (declarations.turn g file) G := by
  refine .bind hg steady_peek ?_
  rintro t k ⟨rfl, ht⟩
  split
  · next hkind => exact .pure (ht.symm.trans hkind)
  · next hkind => exact .map (.advance (by rw [← ht, hkind]; rfl))
  · exact .map (closes_declaration hg fun _ => steady_importSpec)
  · exact .map (closes_declaration hg fun _ => steady_typeDecl)
  · exact .map (closes_declaration hg steady_constDecl)
  · exact .map (closes_skipDeclaration hg)
  · exact .map (closes_skipDeclaration hg)
  · exact .never hg (.fail rfl)

/-- A group ends with the bracket that closes it. -/
theorem closes_skipGroup {G : Unit → Prop} : Closes F k (skipGroup g) G := by
  refine .bind hg steady_take fun opening _ _ => ?_
  refine .ite (fun _ => ?_) fun _ => .never hg (.fail_bind rfl)
  refine .map (.repeating hg (fun depth _ => steady_skipGroup_turn depth) fun depth _ => ?_)
  refine .bind hg steady_atLocalStruct ?_
  rintro here k rfl
  refine .ite (fun _ => .never hg (.bind steady_localStruct fun _ _ _ => .pure nofun)) fun _ => ?_
  -- The last turn takes a closing bracket.
  intro s step t hs hres hstep
  obtain ⟨last, u, hlast, hrest⟩ := bind_eq_ok_iff.1 hres
  split at hrest
  · cases (pure_eq_ok_iff.1 hrest).1
    exact absurd hstep nofun
  split at hrest
  · next hclose =>
    split at hrest
    · next hone =>
      obtain ⟨rfl, rfl⟩ := pure_eq_ok_iff.1 hrest
      exact .inr ((shuts_advance hlast (isBound_of_isClose hclose)).map (by simp_all))
    · cases (pure_eq_ok_iff.1 hrest).1
      exact absurd hstep nofun
  · split at hrest
    · exact absurd hrest throw_ne_ok
    · cases (pure_eq_ok_iff.1 hrest).1
      exact absurd hstep nofun

end

end StructPadding.Parser
