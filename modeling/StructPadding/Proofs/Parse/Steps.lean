-- SUMMARY: Parsers that succeed lead from one place in a source to another: the laws of reading, keeping and repeating.
import StructPadding.Proofs.Outcome
import StructPadding.Proofs.Parse.Derivation

/-!
# Steps

A parser that succeeds takes tokens from the front of what is still to come, and nothing else: problems end it. This
module says for the parsers that all others are made of which tokens they take, and has the laws by which this is said of
parsers that are composed of them.
-/

namespace StructPadding.Parser

open Token (Kind Event Stream)

/-- Whether a state of the parser stands at a place. -/
structure State.At (s : State) (c : Cursor) : Prop where
  events : s.stream.events = c.events
  locals : s.locals = c.kept

/-- Whether there are only tokens from one place to another. -/
def Cursor.Before (c d : Cursor) : Prop := ∃ ts : List Token, c.events = ts.map .ok ++ d.events

theorem Cursor.Before.refl (c : Cursor) : c.Before c := ⟨[], rfl⟩

theorem Cursor.Before.trans {c d e : Cursor} (h : c.Before d) (h' : d.Before e) : c.Before e := by
  obtain ⟨ts, hts⟩ := h
  obtain ⟨us, hus⟩ := h'
  exact ⟨ts ++ us, by simp [hts, hus]⟩

/-- Whether a parser that starts at a place and succeeds ends at a place, behind nothing but tokens, that has `Q` with
    the result. -/
def Gives {α : Type} (p : Parser α) (c : Cursor) (Q : α → Cursor → Prop) : Prop :=
  ∀ s a t, s.At c → p s = .ok a t → ∃ d, t.At d ∧ c.Before d ∧ Q a d

variable {α β : Type} {c : Cursor}

namespace Gives

variable {P Q : α → Cursor → Prop} {R : β → Cursor → Prop}

theorem pure {a : α} (h : Q a c) : Gives (pure a) c Q := by
  intro s b t hs hres
  obtain ⟨rfl, rfl⟩ := pure_eq_ok_iff.1 hres
  exact ⟨c, hs, .refl c, h⟩

theorem bind {p : Parser α} {f : α → Parser β} (hp : Gives p c P) (hf : ∀ a d, P a d → Gives (f a) d R) :
    Gives (p >>= f) c R := by
  intro s b t hs hres
  obtain ⟨a, u, hpa, hfa⟩ := bind_eq_ok_iff.1 hres
  obtain ⟨d, hd, hcd, ha⟩ := hp s a u hs hpa
  obtain ⟨e, he, hde, hb⟩ := hf a d ha u b t hd hfa
  exact ⟨e, he, hcd.trans hde, hb⟩

theorem mono {p : Parser α} (hp : Gives p c P) (h : ∀ a d, P a d → Q a d) : Gives p c Q := by
  intro s a t hs hres
  obtain ⟨d, hd, hcd, ha⟩ := hp s a t hs hres
  exact ⟨d, hd, hcd, h a d ha⟩

theorem ite {b : Prop} [Decidable b] {p q : Parser α} (hp : b → Gives p c Q) (hq : ¬ b → Gives q c Q) :
    Gives (if b then p else q) c Q := by
  split
  · exact hp ‹_›
  · exact hq ‹_›

end Gives

theorem gives_fail {cause : Cause} {span : Span} {Q : α → Cursor → Prop} : Gives (fail cause span) c Q :=
  fun _ _ _ _ hres => absurd hres nofun

theorem gives_exhausted {Q : α → Cursor → Prop} : Gives exhausted c Q := fun _ _ _ _ hres => absurd hres nofun

/-! ## Looking ahead -/

theorem firstProblem_eq_none {n : Nat} {es : List Event} (h : Stream.firstProblem (n + 1) es = none) :
    es[n]? = none ∨ ∃ t, es[n]? = some (.ok t) := by
  induction n generalizing es with
  | zero =>
    cases es with
    | nil => simp
    | cons e es => cases e <;> simp [Stream.firstProblem] at h ⊢
  | succ n ih =>
    cases es with
    | nil => simp
    | cons e es =>
      cases e with
      | error => simp [Stream.firstProblem] at h
      | ok t =>
        have hrest : Stream.firstProblem (n + 1) es = none := by simpa [Stream.firstProblem] using h
        simpa using ih hrest

theorem gives_peekAt (n : Nat) : Gives (read (Stream.peekAt n)) c fun t d =>
    d = c ∧ t.kind = c.kindAt n ∧ ∀ p, c.events[n]? ≠ some (.error p) := by
  intro s t u hs hres
  simp only [read, Stream.peekAt] at hres
  cases hproblem : Stream.firstProblem (n + 1) s.stream.events with
  | some found => simp [hproblem] at hres
  | none =>
    have hn : s.stream.events[n]? = c.events[n]? := by rw [hs.events]
    obtain hnone | ⟨v, hv⟩ := firstProblem_eq_none hproblem
    · simp only [hproblem, hnone, EStateM.Result.ok.injEq] at hres
      obtain ⟨rfl, rfl⟩ := hres
      exact ⟨c, hs, .refl c, rfl, by simp [Cursor.kindAt, ← hn, hnone, Stream.eof], by simp [← hn, hnone]⟩
    · simp only [hproblem, hv, EStateM.Result.ok.injEq] at hres
      obtain ⟨rfl, rfl⟩ := hres
      exact ⟨c, hs, .refl c, rfl, by simp [Cursor.kindAt, ← hn, hv], by simp [← hn, hv]⟩

theorem gives_peek : Gives peek c fun t d => d = c ∧ t.kind = c.kindAt 0 :=
  (gives_peekAt 0).mono fun _ _ h => ⟨h.1, h.2.1⟩

theorem gives_peekKind : Gives peekKind c fun k d => d = c ∧ k = c.kindAt 0 :=
  gives_peek.bind fun _ _ h => .pure h

theorem gives_peekKindAt (n : Nat) : Gives (peekKindAt n) c fun k d => d = c ∧ k = c.kindAt n :=
  (gives_peekAt n).bind fun _ _ h => .pure ⟨h.1, h.2.1⟩

/-- Whether the next token is like a kind is seen by looking at it. -/
theorem check_eq (k : Kind) : check k = peek >>= fun t => Pure.pure (t.kind.isLike k) := by
  funext s
  simp only [check, Stream.check, peek, read, Bind.bind, EStateM.bind, Pure.pure, EStateM.pure]
  cases Stream.peek s.stream <;> rfl

theorem gives_check (k : Kind) : Gives (check k) c fun b d => d = c ∧ b = (c.kindAt 0).isLike k := by
  rw [check_eq]
  exact gives_peek.bind fun t d h => .pure ⟨h.1, by rw [h.2]⟩

/-! ## Taking tokens -/

theorem gives_next :
    Gives (read Stream.next) c fun t d => t.kind = c.kindAt 0 ∧ (c.Takes t d ∨ t.kind = .eof ∧ d = c) := by
  intro s t u hs hres
  simp only [read, Stream.next] at hres
  cases hevents : s.stream.events with
  | nil =>
    simp only [hevents, EStateM.Result.ok.injEq] at hres
    obtain ⟨rfl, rfl⟩ := hres
    exact ⟨c, hs, .refl c, by simp [Cursor.kindAt, ← hs.events, hevents, Stream.eof], .inr ⟨rfl, rfl⟩⟩
  | cons e rest =>
    cases e with
    | error p => simp [hevents] at hres
    | ok v =>
      simp only [hevents, EStateM.Result.ok.injEq] at hres
      obtain ⟨rfl, rfl⟩ := hres
      have hc : c.events = .ok v :: rest := hs.events ▸ hevents
      exact ⟨{ c with events := rest }, ⟨rfl, hs.locals⟩, ⟨[v], hc⟩, by simp [Cursor.kindAt, hc], .inl ⟨hc, rfl, rfl⟩⟩

theorem gives_advance :
    Gives advance c fun t d => t.kind = c.kindAt 0 ∧ (c.Takes t d ∨ t.kind = .eof ∧ d = c) := by
  refine gives_next.bind fun t d h => .ite (fun _ => .pure h) fun _ => ?_
  have hstop : Gives (modify fun s => { s with lastStop := t.span.stop }) d fun _ e => e = d := by
    intro s _ u hs hres
    cases hres
    exact ⟨d, ⟨hs.events, hs.locals⟩, .refl d, rfl⟩
  exact hstop.bind fun _ e he => .pure (he ▸ h)

/-- A token that is not the end of the file is taken. -/
theorem gives_advance_of {k : Kind} (h : c.kindAt 0 = k) (hk : k ≠ .eof) :
    Gives advance c fun t d => c.Takes ⟨k, t.span⟩ d := by
  refine gives_advance.mono fun t d ht => ?_
  obtain rfl := h
  rcases ht.2 with htakes | ⟨hend, -⟩
  · rw [← ht.1]
    exact htakes
  · exact absurd (ht.1.symm.trans hend) hk

theorem Cursor.Takes.reads {d : Cursor} {t : Token} (h : c.Takes t d) : c.Reads t.kind d := ⟨t.span, h⟩

/-! ## Expected tokens -/

/-- Whether all tokens like a kind are of that kind, which is not the end of the file. -/
structure IsFixed (k : Kind) : Prop where
  ne_eof : k ≠ .eof
  isLike_iff (k' : Kind) : k'.isLike k = true ↔ k' = k

theorem isFixed_symbol (s : Token.Symbol) : IsFixed (.symbol s) := ⟨nofun, fun k => by cases k <;> simp [Kind.isLike]⟩

theorem isFixed_keyword (w : Token.Keyword) : IsFixed (.keyword w) :=
  ⟨nofun, fun k => by cases k <;> simp [Kind.isLike]⟩

theorem gives_accept {k : Kind} (hk : IsFixed k) :
    Gives (accept k) c fun b d => if b then c.Reads k d else d = c ∧ c.kindAt 0 ≠ k := by
  apply (gives_check k).bind
  rintro b d ⟨rfl, hb⟩
  refine .ite (fun htrue => ?_) fun hfalse => ?_
  · have hkind := (hk.isLike_iff _).1 (hb.symm.trans htrue)
    exact (gives_advance_of hkind hk.ne_eof).bind fun _ _ h => .pure h.reads
  · exact .pure ⟨rfl, fun hkind => hfalse (hb.trans ((hk.isLike_iff _).2 hkind))⟩

theorem gives_acceptIfAny {k : Kind} (hk : IsFixed k) : Gives (accept k) c fun _ d => c.MayRead k d := by
  apply (gives_accept hk).mono
  intro b d hb
  cases b with
  | true => exact .inr hb
  | false => exact .inl hb.1

/-- A choice by whether a token was taken. -/
theorem Gives.ifAccept {k : Kind} (hk : IsFixed k) {p q : Parser α} {Q : α → Cursor → Prop}
    (hp : ∀ d, c.Reads k d → Gives p d Q) (hq : c.kindAt 0 ≠ k → Gives q c Q) :
    Gives (accept k >>= fun b => if b = true then p else q) c Q := by
  apply (gives_accept hk).bind
  intro b d hb
  cases b with
  | true => exact hp d hb
  | false =>
    obtain ⟨rfl, hkind⟩ := hb
    exact hq hkind

/-- A choice by the next token. -/
theorem Gives.ifCheck {k : Kind} (hk : IsFixed k) {p q : Parser α} {Q : α → Cursor → Prop}
    (hp : c.kindAt 0 = k → Gives p c Q) (hq : c.kindAt 0 ≠ k → Gives q c Q) :
    Gives (check k >>= fun b => if b = true then p else q) c Q := by
  apply (gives_check k).bind
  rintro b d ⟨rfl, hb⟩
  cases b with
  | true => exact hp ((hk.isLike_iff _).1 hb.symm)
  | false => exact hq fun hkind => Bool.false_ne_true (hb.trans ((hk.isLike_iff _).2 hkind))

theorem gives_require {k : Kind} (hk : IsFixed k) : Gives (require k) c fun _ d => d = c ∧ c.kindAt 0 = k := by
  refine .ifCheck hk (fun hkind => .pure ⟨rfl, hkind⟩) fun _ => ?_
  exact gives_peek.bind fun _ _ _ => gives_fail

theorem gives_expect {k : Kind} (hk : IsFixed k) : Gives (expect k) c fun t d => c.Takes ⟨k, t.span⟩ d := by
  apply (gives_require hk).bind
  rintro _ d ⟨rfl, hkind⟩
  exact gives_advance_of hkind hk.ne_eof

theorem gives_name : Gives name c fun n d => c.Reads (.identifier n.1) d := by
  apply gives_advance.bind
  intro t d ht
  split
  · next n hn =>
    refine .pure ?_
    rcases ht.2 with h | ⟨hend, -⟩
    · exact hn ▸ h.reads
    · cases hn.symm.trans hend
  · exact gives_fail

theorem gives_identifier : Gives identifier c fun n d => c.Reads (.identifier n) d :=
  gives_name.bind fun _ _ h => .pure h

theorem gives_spanFrom (first : Span) : Gives (spanFrom first) c fun _ d => d = c := by
  intro s a t hs hres
  cases hres
  exact ⟨c, hs, .refl c, rfl⟩

/-- What follows does not depend on the span. -/
theorem Gives.spanned {first : Span} {f : Span → Parser β} (hf : ∀ span, Gives (f span) c R) :
    Gives (spanFrom first >>= f) c R := by
  apply (gives_spanFrom first).bind
  rintro span _ rfl
  exact hf span

theorem gives_declarationEnd : Gives declarationEnd c fun _ d => c.MayRead (.symbol .semi) d := by
  refine .ifAccept (isFixed_symbol .semi) (fun d hd => .pure (.inr hd)) fun _ => ?_
  apply (gives_check .eof).bind
  rintro _ d ⟨rfl, -⟩
  exact .ite (fun _ => .pure (.inl rfl)) fun _ => (gives_require (isFixed_symbol .semi)).mono fun _ _ h => .inl h.1

/-! ## Struct literals -/

theorem gives_keep (l : LocalStruct) : Gives (keep l) c fun _ d => d = c.keep [l] := by
  intro s a t hs hres
  cases hres
  exact ⟨c.keep [l], ⟨hs.events, by simp [Cursor.keep, hs.locals]⟩, ⟨[], rfl⟩, rfl⟩

theorem gives_keepStructs (t : TypeExpr) :
    Gives (keepStructs t) c fun _ d => d = c.keep (t.outerStructs.map fun st => ⟨none, st⟩) := by
  unfold keepStructs
  generalize t.outerStructs = structs
  induction structs generalizing c with
  | nil => exact .pure (by simp [Cursor.keep])
  | cons st rest ih =>
    apply (gives_keep ⟨none, st⟩).bind
    rintro _ _ rfl
    exact ih.mono fun _ d hd => hd.trans (by simp [Cursor.keep])

/-! ## Repeating -/

/-- What every turn keeps, all turns keep, and the last one concludes. -/
theorem gives_repeating {I Q : β → Cursor → Prop} {turn : β → Parser (ForInStep β)} {init : β} (hinit : I init c)
    (hturn : ∀ b d, I b d → Gives (turn b) d fun step e =>
      match step with
      | .yield b => I b e
      | .done b => Q b e) :
    Gives (repeating init turn) c Q := by
  have hturns (n : Nat) : ∀ b d, I b d → Gives (turns turn n b) d Q := by
    induction n with
    | zero => exact fun _ _ _ => gives_exhausted
    | succ n ih =>
      intro b d hb
      apply (hturn b d hb).bind
      rintro (b | b) e hstep
      · exact .pure hstep
      · exact ih b e hstep
  exact fun s => hturns (s.remaining + 1) init c hinit s

/-- What every turn keeps, all turns keep. -/
theorem gives_repeating_value {I : β → Cursor → Prop} {turn : β → Parser (ForInStep β)} {init : β} (hinit : I init c)
    (hturn : ∀ b d, I b d → Gives (turn b) d fun step e => I step.value e) : Gives (repeating init turn) c I :=
  gives_repeating hinit fun b d hb => (hturn b d hb).mono fun step _ h => by cases step <;> exact h

section

variable {I : List α → Cursor → Prop}

theorem gives_entries {close : Kind} (hclose : IsFixed close) {entry : List α → Parser α} (hinit : I [] c)
    (hsemi : ∀ as d e, I as d → d.Reads (.symbol .semi) e → I as e)
    (hentry : ∀ as d, I as d → Gives (entry as) d fun a e => ∀ f, e.MayRead (.symbol .semi) f → I (as ++ [a]) f) :
    Gives (entries close entry) c I := by
  refine gives_repeating_value hinit fun as d has => ?_
  refine .ifCheck hclose (fun _ => .pure has) fun _ => ?_
  refine .ifAccept (isFixed_symbol .semi) (fun e he => .pure (hsemi as d e has he)) fun _ => ?_
  apply (hentry as d has).bind
  intro a e ha
  refine .ifCheck hclose (fun _ => .pure (ha e (.inl rfl))) fun _ => ?_
  exact (gives_expect (isFixed_symbol .semi)).bind fun _ f hf => .pure (ha f (.inr hf.reads))

theorem gives_commaSeparated {item : Parser α} (hfirst : Gives item c fun a d => I [a] d)
    (hnext : ∀ as d e, I as d → d.Reads (.symbol .comma) e → Gives item e fun a f => I (as ++ [a]) f) :
    Gives (commaSeparated item) c I := by
  apply hfirst.bind
  intro first d hd
  refine gives_repeating_value hd fun as e has => ?_
  refine .ifAccept (isFixed_symbol .comma) (fun f hcomma => ?_) fun _ => .pure has
  exact (hnext as e f has hcomma).bind fun _ _ h => .pure h

end

end StructPadding.Parser
