-- SUMMARY: Parsers that succeed on given tokens: the laws of reading, accepting and repeating.
import StructPadding.Parse.Basic
import StructPadding.Proofs.Outcome

/-!
# Parsing given tokens

Where it is known what is still to come, a parser can be followed token by token. The laws here say how each part of a
parser goes on, and that it goes on at all: nothing fails, and no bound is reached. A parser is followed together with
what comes behind it, so that a law takes the first step of a parser off.
-/

namespace StructPadding.Parser

open Token (Kind Event Stream)

/-! ## Success -/

/-- Whether a parser succeeds with events to come, and `Q` holds of its result and of what is left. -/
def Parses {α : Type} (p : Parser α) (es : List Event) (Q : α → List Event → Prop) : Prop :=
  ∀ s : State, s.stream.events = es → ∃ a t, p s = .ok a t ∧ Q a t.stream.events

/-- The kind of the next token, unless there is a problem in its place. -/
def nextKind? : List Event → Option Kind
  | [] => some .eof
  | .ok t :: _ => some t.kind
  | .error _ :: _ => none

theorem isLike_symbol_of_ne {k : Kind} {symbol : Token.Symbol} (h : k ≠ .symbol symbol) :
    k.isLike (.symbol symbol) = false := by
  cases k <;> simp_all [Kind.isLike]

/-- A symbol that a test tells from a token is not the symbol of the token. -/
theorem isLike_symbol_of_test {test : Kind → Bool} {k : Kind} {symbol : Token.Symbol} {b : Bool} (hk : test k = b)
    (h : test (.symbol symbol) = !b) : k.isLike (.symbol symbol) = false := by
  refine isLike_symbol_of_ne ?_
  rintro rfl
  cases b <;> exact absurd (hk.symm.trans h) nofun

/-- Whether a result agrees with another one on what is looked at, and given events are left. -/
def FindsUpTo {α β : Type} (look : α → β) (a : α) (rest : List Event) : α → List Event → Prop := fun a' es' =>
  look a' = look a ∧ es' = rest

variable {α β : Type} {es : List Event} {P Q : α → List Event → Prop} {R : β → List Event → Prop}

namespace Parses

theorem pure {a : α} (h : Q a es) : Parses (pure a) es Q := by
  rintro s rfl
  exact ⟨a, s, rfl, h⟩

theorem bind {p : Parser α} {f : α → Parser β} (hp : Parses p es P) (hf : ∀ a es', P a es' → Parses (f a) es' R) :
    Parses (p >>= f) es R := by
  intro s hs
  obtain ⟨a, t, hpa, ha⟩ := hp s hs
  obtain ⟨b, u, hfb, hb⟩ := hf a _ ha t rfl
  exact ⟨b, u, bind_eq_ok_iff.2 ⟨a, t, hpa, hfb⟩, hb⟩

theorem mono {p : Parser α} (hp : Parses p es P) (h : ∀ a es', P a es' → Q a es') : Parses p es Q := by
  intro s hs
  obtain ⟨a, t, hpa, ha⟩ := hp s hs
  exact ⟨a, t, hpa, h a _ ha⟩

/-- A step with a known result. -/
theorem step {p : Parser α} {f : α → Parser β} {a : α} {es' : List Event}
    (hp : Parses p es fun b left => b = a ∧ left = es') (hf : Parses (f a) es' R) : Parses (p >>= f) es R := by
  apply hp.bind
  rintro _ _ ⟨rfl, rfl⟩
  exact hf

end Parses

/-! ## Looking ahead -/

@[simp] theorem firstProblem_zero (es : List Event) : Stream.firstProblem 0 es = none := by cases es <;> rfl

theorem peek_eq_ok {s : State} {k : Kind} (h : nextKind? s.stream.events = some k) :
    ∃ t, peek s = .ok t s ∧ t.kind = k := by
  cases hes : s.stream.events with
  | nil =>
    rw [hes] at h
    refine ⟨s.stream.eof, ?_, Option.some.inj h⟩
    simp [peek, read, Stream.peek, Stream.peekAt, Stream.firstProblem, hes]
  | cons e rest =>
    rw [hes] at h
    cases e with
    | error p => cases h
    | ok t =>
      refine ⟨t, ?_, Option.some.inj h⟩
      simp [peek, read, Stream.peek, Stream.peekAt, Stream.firstProblem, hes]

theorem parses_peek {k : Kind} (h : nextKind? es = some k) : Parses peek es fun t es' => t.kind = k ∧ es' = es := by
  rintro s rfl
  obtain ⟨t, hpeek, ht⟩ := peek_eq_ok h
  exact ⟨t, s, hpeek, ht, rfl⟩

theorem parses_peek_token (t : Token) (es : List Event) :
    Parses peek (.ok t :: es) fun u es' => u = t ∧ es' = .ok t :: es := by
  intro s hs
  refine ⟨t, s, ?_, rfl, hs⟩
  simp [peek, read, Stream.peek, Stream.peekAt, Stream.firstProblem, hs]

theorem parses_peekKind {k : Kind} (h : nextKind? es = some k) :
    Parses peekKind es fun k' es' => k' = k ∧ es' = es :=
  (parses_peek h).bind fun _ _ ht => .pure ht

theorem firstProblem_tokens (ts : List Token) {n : Nat} (h : Stream.firstProblem n es = none) :
    Stream.firstProblem (ts.length + n) (ts.map .ok ++ es) = none := by
  induction ts with
  | nil => simpa using h
  | cons t ts ih =>
    rw [List.length_cons, Nat.add_right_comm]
    simp [Stream.firstProblem, ih]

/-- The token behind given ones is seen where it is no problem. -/
theorem parses_peekKindAt (ts : List Token) {k : Kind} (h : nextKind? es = some k) :
    Parses (peekKindAt ts.length) (ts.map .ok ++ es) fun k' es' => k' = k ∧ es' = ts.map .ok ++ es := by
  have hnone : Stream.firstProblem 1 es = none := by
    rcases es with _ | ⟨_ | _, _⟩
    · rfl
    · cases h
    · simp [Stream.firstProblem]
  intro s hs
  suffices hpeek : ∃ t, Stream.peekAt ts.length s.stream = .ok t s.stream ∧ t.kind = k by
    obtain ⟨t, hpeek, rfl⟩ := hpeek
    refine ⟨t.kind, s, bind_eq_ok_iff.2 ⟨t, s, ?_, rfl⟩, rfl, hs⟩
    simp only [read, hpeek]
  simp only [Stream.peekAt, hs, firstProblem_tokens ts hnone]
  cases es with
  | nil =>
    cases h
    exact ⟨s.stream.eof, by simp, rfl⟩
  | cons e rest =>
    cases e with
    | error p => cases h
    | ok t => exact ⟨t, by simp, Option.some.inj h⟩

theorem parses_check {k : Kind} (h : nextKind? es = some k) (k' : Kind) :
    Parses (check k') es fun b es' => b = k.isLike k' ∧ es' = es := by
  have hread : check k' = peek >>= fun t => Pure.pure (t.kind.isLike k') := by
    funext s
    simp only [check, Stream.check, peek, read, Bind.bind, EStateM.bind, Pure.pure, EStateM.pure]
    cases Stream.peek s.stream <;> rfl
  rw [hread]
  exact (parses_peek h).bind fun t es' ht => .pure ⟨by rw [ht.1], ht.2⟩

namespace Parses

theorem ifCheck {k k' : Kind} (h : nextKind? es = some k) (hk : k.isLike k' = true) {p q : Parser α}
    (hp : Parses p es Q) : Parses (check k' >>= fun b => if b = true then p else q) es Q :=
  (parses_check h k').step (by rw [hk]; exact hp)

theorem ifCheckNot {k k' : Kind} (h : nextKind? es = some k) (hk : k.isLike k' = false) {p q : Parser α}
    (hq : Parses q es Q) : Parses (check k' >>= fun b => if b = true then p else q) es Q :=
  (parses_check h k').step (by rw [hk]; exact hq)

end Parses

/-! ## Taking tokens -/

theorem parses_advance (t : Token) (es : List Event) :
    Parses advance (.ok t :: es) fun u es' => u = t ∧ es' = es := by
  intro s hs
  have hnext : read Stream.next s = .ok t { s with stream := { s.stream with events := es } } := by
    simp [read, Stream.next, hs]
  by_cases heof : t.kind = .eof
  · refine ⟨t, { s with stream := { s.stream with events := es } }, bind_eq_ok_iff.2 ⟨t, _, hnext, ?_⟩, rfl, rfl⟩
    rw [if_pos heof]
    rfl
  · refine ⟨t, { s with stream := { s.stream with events := es }, lastStop := t.span.stop },
      bind_eq_ok_iff.2 ⟨t, _, hnext, ?_⟩, rfl, rfl⟩
    rw [if_neg heof]
    rfl

theorem parses_accept {k : Kind} {t : Token} (hk : t.kind.isLike k = true) (es : List Event) :
    Parses (accept k) (.ok t :: es) fun b es' => b = true ∧ es' = es :=
  .ifCheck rfl hk ((parses_advance t es).bind fun _ _ h => .pure ⟨rfl, h.2⟩)

theorem parses_acceptNot {k k' : Kind} (h : nextKind? es = some k) (hk : k.isLike k' = false) :
    Parses (accept k') es fun b es' => b = false ∧ es' = es :=
  .ifCheckNot h hk (.pure ⟨rfl, rfl⟩)

namespace Parses

theorem ifAccept {k : Kind} {t : Token} (hk : t.kind.isLike k = true) {p q : Parser α} (hp : Parses p es Q) :
    Parses (accept k >>= fun b => if b = true then p else q) (.ok t :: es) Q := (parses_accept hk es).step hp

theorem ifAcceptNot {k k' : Kind} (h : nextKind? es = some k) (hk : k.isLike k' = false) {p q : Parser α}
    (hq : Parses q es Q) : Parses (accept k' >>= fun b => if b = true then p else q) es Q :=
  (parses_acceptNot h hk).step hq

end Parses

theorem parses_require {k : Kind} {t : Token} (hk : t.kind.isLike k = true) (es : List Event) :
    Parses (require k) (.ok t :: es) fun _ es' => es' = .ok t :: es :=
  .ifCheck rfl hk (.pure rfl)

theorem parses_expect {k : Kind} {t : Token} (hk : t.kind.isLike k = true) (es : List Event) :
    Parses (expect k) (.ok t :: es) fun u es' => u = t ∧ es' = es := by
  apply (parses_require hk es).bind
  rintro _ _ rfl
  exact parses_advance t es

theorem parses_name {n : String} (span : Span) (es : List Event) :
    Parses name (.ok ⟨.identifier n, span⟩ :: es) fun m es' => m = (n, span) ∧ es' = es :=
  (parses_advance _ es).step (.pure ⟨rfl, rfl⟩)

theorem parses_identifier {n : String} (span : Span) (es : List Event) :
    Parses identifier (.ok ⟨.identifier n, span⟩ :: es) fun m es' => m = n ∧ es' = es :=
  (parses_name span es).step (.pure ⟨rfl, rfl⟩)

/-- What follows does not depend on the span. -/
theorem Parses.spanned {first : Span} {f : Span → Parser β} (hf : ∀ span, Parses (f span) es R) :
    Parses (spanFrom first >>= f) es R := by
  intro s hs
  obtain ⟨b, t, hb, hR⟩ := hf ⟨first.start, max s.lastStop first.stop⟩ s hs
  exact ⟨b, t, bind_eq_ok_iff.2 ⟨_, s, rfl, hb⟩, hR⟩

/-! ## Repeating -/

/-- Whether a repetition goes on to success, with any bound that the events left do not reach. -/
def Repeats (turn : β → Parser (ForInStep β)) (b : β) (es : List Event) (R : β → List Event → Prop) : Prop :=
  ∀ n, es.length < n → Parses (turns turn n b) es R

variable {turn : β → Parser (ForInStep β)} {b : β}

theorem Parses.repeating (h : Repeats turn b es R) : Parses (repeating b turn) es R := by
  rintro s rfl
  exact h (s.remaining + 1) (Nat.lt_succ_self _) s rfl

namespace Repeats

theorem mono {R' : β → List Event → Prop} (h : Repeats turn b es R) (hR : ∀ b es', R b es' → R' b es') :
    Repeats turn b es R' := fun n hn => (h n hn).mono hR

/-- The last turn. -/
theorem done (h : Parses (turn b) es fun step es' => ∃ b', step = .done b' ∧ R b' es') : Repeats turn b es R := by
  intro n hn
  obtain ⟨n, rfl⟩ := Nat.exists_eq_succ_of_ne_zero (Nat.ne_zero_of_lt hn)
  apply h.bind
  rintro _ es' ⟨b', rfl, hb'⟩
  exact .pure hb'

/-- A turn that takes something, and the turns behind it. -/
theorem next (h : Parses (turn b) es fun step es' =>
      ∃ b', step = .yield b' ∧ es'.length < es.length ∧ Repeats turn b' es' R) : Repeats turn b es R := by
  intro n hn
  obtain ⟨n, rfl⟩ := Nat.exists_eq_succ_of_ne_zero (Nat.ne_zero_of_lt hn)
  apply h.bind
  rintro _ es' ⟨b', rfl, hlt, hb'⟩
  exact hb' n (by omega)

end Repeats

/-! ## Written tokens -/

/-- Whether there are tokens of given kinds in front of the rest of what is still to come. -/
def Writes (ks : List Kind) (es rest : List Event) : Prop :=
  ∃ ts : List Token, es = ts.map .ok ++ rest ∧ ts.map (·.kind) = ks

theorem writes_nil_iff {rest : List Event} : Writes [] es rest ↔ es = rest := by
  simp [Writes]

theorem writes_cons_iff {k : Kind} {ks : List Kind} {rest : List Event} :
    Writes (k :: ks) es rest ↔ ∃ span es', es = .ok ⟨k, span⟩ :: es' ∧ Writes ks es' rest := by
  constructor
  · rintro ⟨ts, rfl, hkinds⟩
    obtain ⟨t, ts, rfl, rfl, rfl⟩ := List.map_eq_cons_iff.1 hkinds
    exact ⟨t.span, _, rfl, ts, rfl, rfl⟩
  · rintro ⟨span, es', rfl, ts, rfl, rfl⟩
    exact ⟨⟨k, span⟩ :: ts, rfl, rfl⟩

theorem nextKind?_of_writes {k : Kind} {ks : List Kind} {rest : List Event} (h : Writes (k :: ks) es rest) :
    nextKind? es = some k := by
  obtain ⟨span, _, rfl, -⟩ := writes_cons_iff.1 h
  rfl

theorem writes_singleton_iff {k : Kind} {rest : List Event} :
    Writes [k] es rest ↔ ∃ span, es = .ok ⟨k, span⟩ :: rest := by
  simp [writes_cons_iff, writes_nil_iff]

theorem writes_append_iff {ks ls : List Kind} {rest : List Event} :
    Writes (ks ++ ls) es rest ↔ ∃ mid, Writes ks es mid ∧ Writes ls mid rest := by
  constructor
  · rintro ⟨ts, rfl, hkinds⟩
    obtain ⟨us, vs, rfl, rfl, rfl⟩ := List.map_eq_append_iff.1 hkinds
    exact ⟨vs.map .ok ++ rest, ⟨us, by simp, rfl⟩, vs, rfl, rfl⟩
  · rintro ⟨_, ⟨us, rfl, rfl⟩, vs, rfl, rfl⟩
    exact ⟨us ++ vs, by simp, by simp⟩

theorem writes_enclosed_iff {o c : Kind} {ks : List Kind} {rest : List Event} :
    Writes (o :: (ks ++ [c])) es rest ↔
      ∃ openSpan es' closeSpan, es = .ok ⟨o, openSpan⟩ :: es' ∧ Writes ks es' (.ok ⟨c, closeSpan⟩ :: rest) := by
  constructor
  · intro h
    obtain ⟨openSpan, es', rfl, htail⟩ := writes_cons_iff.1 h
    obtain ⟨_, hks, hclose⟩ := writes_append_iff.1 htail
    obtain ⟨closeSpan, rfl⟩ := writes_singleton_iff.1 hclose
    exact ⟨openSpan, es', closeSpan, rfl, hks⟩
  · rintro ⟨openSpan, es', closeSpan, rfl, hks⟩
    exact writes_cons_iff.2 ⟨openSpan, es', rfl, writes_append_iff.2 ⟨_, hks, writes_singleton_iff.2 ⟨closeSpan, rfl⟩⟩⟩

theorem Writes.length_eq {ks : List Kind} {rest : List Event} (h : Writes ks es rest) :
    es.length = ks.length + rest.length := by
  obtain ⟨ts, rfl, rfl⟩ := h
  simp

end StructPadding.Parser
