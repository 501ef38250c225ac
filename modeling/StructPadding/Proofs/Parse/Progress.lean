-- SUMMARY: What a parser takes off a stream: tokens from the front, and where it fails at most one problem, the first.
import StructPadding.Proofs.Parse.Steady
import StructPadding.Proofs.Token.Session
import StructPadding.Proofs.Token.Tiling

/-!
# Progress

A parser that succeeds has taken tokens from the front of what was still to come, and a loop that goes on has taken
one with every turn. A parser that fails over a problem of the text itself fails over the first one, wherever it met
it: by taking tokens, or by looking ahead.
-/

namespace StructPadding

namespace Parser

open Token (Kind Event Stream)

/-! ## States -/

/-- Whether some tokens lead from one state to another. -/
structure State.Takes (s : State) (ts : List Token) (t : State) : Prop where
  events : s.stream.events = ts.map .ok ++ t.stream.events
  length : t.stream.length = s.stream.length

/-- Whether a problem is the first one, behind nothing but tokens. -/
def IsFirst (e : Problem) (events : List Event) : Prop :=
  ∃ (ts : List Token) (rest : List Event), events = ts.map .ok ++ .error e :: rest

/-- Whether a failure leaves no more than there was, and is the first problem if it is one of the text itself. -/
structure State.Fails (s : State) (e : Problem) (t : State) : Prop where
  events : t.stream.events.Sublist s.stream.events
  lexical : e.stage = .lexer → IsFirst e s.stream.events

/-- The kinds of the tokens that come next. -/
def State.kinds (s : State) : Nat → Kind := Cursor.kindAt ⟨s.stream.events, s.locals, []⟩

variable {s t u : State} {ts us : List Token} {e : Problem}

namespace State

theorem Takes.refl (s : State) : s.Takes [] s := ⟨rfl, rfl⟩

theorem Takes.trans (hst : s.Takes ts t) (htu : t.Takes us u) : s.Takes (ts ++ us) u :=
  ⟨by rw [hst.events, htu.events, List.map_append, List.append_assoc], htu.length.trans hst.length⟩

theorem Takes.remaining (h : s.Takes ts t) : s.remaining = ts.length + t.remaining := by
  simp [State.remaining, h.events]

theorem Fails.of_takes (h : t.Fails e u) (hst : s.Takes ts t) : s.Fails e u := by
  constructor
  · rw [hst.events]
    exact h.events.trans (List.sublist_append_right ..)
  · intro hstage
    obtain ⟨us, rest, hus⟩ := h.lexical hstage
    exact ⟨ts ++ us, rest, by rw [hst.events, hus, List.map_append, List.append_assoc]⟩

theorem Fails.of_stage (h : e.stage = .parser) : s.Fails e s :=
  ⟨.refl _, fun hstage => absurd (h.symm.trans hstage) nofun⟩

end State

/-! ## Runs -/

variable {α β : Type}

/-- Whether a parser takes tokens, at least one, or fails. -/
def Consumes (p : Parser α) : Prop := ∀ s, Ends p s (fun _ t => ∃ ts, ts ≠ [] ∧ s.Takes ts t) s.Fails

/-- Whether the parsers of a grammar take tokens. -/
structure Grammar.Consumes (g : Grammar) : Prop where
  type : Parser.Consumes g.type
  expr : ∀ precedence, Parser.Consumes (g.expr precedence)
  unary : Parser.Consumes g.unary

/-- Whether a parser that starts at a pace takes tokens, with a value and a pace that have `Q`, or fails. -/
def Runs (k : Pace) (p : Parser α) (s : State) (Q : α → Pace → Prop) : Prop :=
  Ends p s (fun a t => ∃ ts l, s.Takes ts t ∧ l.kinds = t.kinds ∧ (l.taken = true → k.taken = true ∨ ts ≠ []) ∧ Q a l)
    s.Fails

variable {g g' : Grammar} {free : Bool} {k : Pace} {p p' : Parser α} {P : α → Pace → Prop} {Q : β → Pace → Prop}

theorem runs_pure {a : α} (hs : s.kinds = k.kinds) (h : P a k) : Runs k (pure a) s P :=
  .pure ⟨[], k, .refl s, hs.symm, .inl, h⟩

theorem Runs.bind {f : α → Parser β} (hp : Runs k p s P)
    (hf : ∀ a l t, P a l → t.kinds = l.kinds → Runs l (f a) t Q) : Runs k (p >>= f) s Q := by
  refine Ends.bind hp ?_ fun _ _ h => h
  rintro a t ⟨ts, l, hst, hl, htaken, ha⟩
  refine (hf a l t ha hl.symm).mono ?_ fun _ _ h => h.of_takes hst
  rintro b u ⟨us, m, htu, hm, htaken', hb⟩
  refine ⟨ts ++ us, m, hst.trans htu, hm, fun h => ?_, hb⟩
  rcases htaken' h with h | h
  · exact (htaken h).imp_right fun hts hnil => hts (List.append_eq_nil_iff.1 hnil).1
  · exact .inr fun hnil => h (List.append_eq_nil_iff.1 hnil).2

theorem ends_peekAt_takes (n : Nat) (s : State) :
    Ends (read (Stream.peekAt n)) s (fun a t => t = s ∧ a.kind = s.kinds n) s.Fails := by
  simp only [Ends, read, Stream.peekAt]
  cases hproblem : Stream.firstProblem (n + 1) s.stream.events with
  | some found =>
    obtain ⟨e, rest⟩ := found
    obtain ⟨ts, more, -, hevents, rfl⟩ := Stream.firstProblem_eq_some_iff.1 hproblem
    refine ⟨?_, fun _ => ⟨ts, more, hevents⟩⟩
    rw [hevents]
    exact (List.sublist_cons_self ..).append_left _
  | none =>
    obtain hnone | ⟨v, hv⟩ := firstProblem_eq_none hproblem
    · simp [State.kinds, Cursor.kindAt, hnone, Stream.eof]
    · simp [State.kinds, Cursor.kindAt, hv]

/-! ## Taking the next token -/

section

variable {rest : List Event}

theorem advance_nil (h : s.stream.events = []) : advance s = .ok s.stream.eof s := by
  have hnext : read Stream.next s = .ok s.stream.eof s := by simp only [read, Stream.next, h]
  simp only [advance, Bind.bind, EStateM.bind, hnext]
  rfl

theorem advance_ok {t : Token} (h : s.stream.events = .ok t :: rest) : advance s =
    .ok t ⟨⟨rest, s.stream.length⟩, if t.kind = .eof then s.lastStop else t.span.stop, s.locals⟩ := by
  have hnext : read Stream.next s = .ok t { s with stream := { s.stream with events := rest } } := by
    simp only [read, Stream.next, h]
  simp only [advance, Bind.bind, EStateM.bind, hnext]
  split <;> rfl

theorem advance_error {e : Problem} (h : s.stream.events = .error e :: rest) :
    advance s = .error e { s with stream := { s.stream with events := rest } } := by
  have hnext : read Stream.next s = .error e { s with stream := { s.stream with events := rest } } := by
    simp only [read, Stream.next, h]
  simp only [advance, Bind.bind, EStateM.bind, hnext]

end

theorem ends_advance_takes (s : State) : Ends advance s
    (fun a t => (∃ ts, s.Takes ts t ∧ (a.kind ≠ .eof → ts ≠ [])) ∧ a.kind = s.kinds 0 ∧
      t.kinds = fun n => s.kinds (n + 1))
    s.Fails := by
  cases hevents : s.stream.events with
  | nil =>
    simp only [Ends, advance_nil hevents]
    refine ⟨⟨[], .refl s, absurd rfl⟩, ?_, ?_⟩
    · simp [State.kinds, Cursor.kindAt, hevents, Stream.eof]
    · funext n
      simp [State.kinds, Cursor.kindAt, hevents]
  | cons event rest =>
    cases event with
    | error e =>
      simp only [Ends, advance_error hevents]
      refine ⟨?_, fun _ => ⟨[], rest, hevents⟩⟩
      rw [hevents]
      exact List.sublist_cons_self ..
    | ok a =>
      simp only [Ends, advance_ok hevents]
      refine ⟨⟨[a], ⟨hevents, rfl⟩, fun _ => List.cons_ne_nil a []⟩, ?_, ?_⟩
      · simp [State.kinds, Cursor.kindAt, hevents]
      · funext n
        simp [State.kinds, Cursor.kindAt, hevents]

/-! ## Loops -/

/-- A loop takes tokens with every turn that another one follows. What it has taken begins with what its first turn
    took. -/
theorem runs_turns {turn : β → Parser (ForInStep β)} {busy : (Nat → Kind) → Prop}
    (hturn : ∀ b kinds t, t.kinds = kinds →
      Runs ⟨false, kinds⟩ (turn b) t fun step l => Onward step l ∧ (busy kinds → l.taken = true))
    (n : Nat) (b : β) (s : State) :
    Ends (turns turn n b) s (fun _ t => ∃ ts, s.Takes ts t ∧ (busy s.kinds → ts ≠ [])) s.Fails := by
  induction n generalizing b s with
  | zero => exact .of_stage rfl
  | succ n ih =>
    refine Ends.bind (hturn b s.kinds s rfl) ?_ fun _ _ h => h
    rintro step t ⟨ts, l, hst, -, htaken, hstep, hbusy⟩
    have hts (hl : l.taken = true) : ts ≠ [] := (htaken hl).resolve_left nofun
    cases step with
    | done b => exact .pure ⟨ts, hst, fun h => hts (hbusy h)⟩
    | yield b =>
      refine (ih b t).mono ?_ fun _ _ h => h.of_takes hst
      rintro c u ⟨us, htu, -⟩
      exact ⟨ts ++ us, hst.trans htu, fun _ hnil => hts hstep (List.append_eq_nil_iff.1 hnil).1⟩

/-! ## Steady parsers -/

/-- What a steady parser takes off a stream. -/
theorem Steady.runs (h : Steady g g' free k p p' P) (hg : g.Consumes) (hs : s.kinds = k.kinds) : Runs k p s P := by
  have hcall {α : Type} {q : Parser α} {k : Pace} {s : State} (hq : Consumes q) :
      Runs k q s fun _ l => l.taken = true := by
    refine (hq s).mono ?_ fun _ _ h => h
    rintro a t ⟨ts, hts, hst⟩
    exact ⟨ts, ⟨true, t.kinds⟩, hst, rfl, fun _ => .inr hts, rfl⟩
  induction h generalizing s with
  | pure h => exact runs_pure hs h
  | bind _ _ ihp ihf => exact (ihp hs).bind fun a l t ha ht => ihf a l ha ht
  | mono _ h ih =>
    refine (ih hs).mono ?_ fun _ _ h => h
    rintro a t ⟨ts, l, hst, hl, htaken, ha⟩
    exact ⟨ts, l, hst, hl, htaken, h a l ha⟩
  | fail h => exact .throw (.of_stage h)
  | peekAt n =>
    refine (ends_peekAt_takes n s).mono ?_ fun _ _ h => h
    rintro a _ ⟨rfl, ha⟩
    exact ⟨[], _, .refl _, hs.symm, .inl, rfl, by rw [ha, hs]⟩
  | advance =>
    refine (ends_advance_takes s).mono ?_ fun _ _ h => h
    rintro a t ⟨⟨ts, hst, hts⟩, ha, ht⟩
    refine ⟨ts, _, hst, ?_, fun htaken => ?_, rfl, by rw [ha, hs]⟩
    · rw [ht, hs]
      rfl
    · exact (Pace.taken_next.1 htaken).imp_right fun hmore => hts (by rwa [ha, hs])
  | spanFrom => exact ⟨[], _, .refl s, hs.symm, .inl, rfl⟩
  | keep => exact ⟨[], _, ⟨rfl, rfl⟩, hs.symm, .inl, rfl⟩
  | type => exact hcall hg.type
  | expr => exact hcall (hg.expr _)
  | unary => exact hcall hg.unary
  | @repeating free k β init turn turn' busy _ ih =>
    refine (runs_turns (fun b kinds t ht => ih b kinds ht) (s.remaining + 1) _ s).mono ?_ fun _ _ h => h
    rintro b t ⟨ts, hst, hbusy⟩
    refine ⟨ts, ⟨k.taken || !ts.isEmpty, t.kinds⟩, hst, rfl, fun htaken => ?_, fun htaken => ?_⟩
    · simpa using htaken
    · simpa using htaken.imp_right fun h => hbusy (hs ▸ h)

/-- A steady parser that takes a token whenever it succeeds. -/
theorem Steady.consumes (h : ∀ kinds, Steady g g false ⟨false, kinds⟩ p p fun _ l => l.taken = true)
    (hg : g.Consumes) : Consumes p := by
  intro s
  refine ((h s.kinds).runs hg rfl).mono ?_ fun _ _ h => h
  rintro a t ⟨ts, l, hst, -, htaken, hl⟩
  exact ⟨ts, (htaken hl).resolve_left nofun, hst⟩

/-- The grammar takes tokens to any depth. -/
theorem Grammar.consumes_ofDepth (n : Nat) : (Grammar.ofDepth n).Consumes := by
  have hexhausted {α : Type} : Parser.Consumes (exhausted : Parser α) := fun s => State.Fails.of_stage rfl
  induction n with
  | zero => exact ⟨hexhausted, fun _ => hexhausted, hexhausted⟩
  | succ n ih =>
    refine ⟨Steady.consumes (fun _ => steady_typeExpr) ih, fun precedence => ?_, ?_⟩
    · exact Steady.consumes (fun _ => steady_binaryExpr precedence) ih
    · exact Steady.consumes (fun _ => steady_unaryExpr) ih

/-! ## Source files -/

theorem ends_wholeFile_takes (hg : g.Consumes) (s : State) :
    Ends (wholeFile g) s (fun _ t => ∃ ts, s.Takes ts t) s.Fails := by
  have hclause : Steady g g false ⟨false, s.kinds⟩ packageClause packageClause fun _ l => l.taken = true :=
    steady_packageClause
  refine Ends.bind (hclause.runs hg rfl) ?_ fun _ _ h => h
  rintro clause t ⟨ts, l, hst, hl, -⟩
  have hdeclarations : Steady g g false l (declarations g clause) (declarations g clause) fun _ _ => True :=
    steady_declarations clause
  refine Ends.bind (hdeclarations.runs hg hl.symm) ?_ fun _ _ h => h.of_takes hst
  rintro file u ⟨us, -, htu, -⟩
  exact ⟨ts ++ us, hst.trans ⟨htu.events, htu.length⟩⟩

theorem ends_withGrammar {p : Grammar → Parser α} {R : α → State → Prop} {E : Problem → State → Prop}
    (h : Ends (p (Grammar.ofDepth (s.remaining + 1))) s R E) : Ends (withGrammar p) s R E := h

theorem ends_sourceFile_takes (s : State) : Ends sourceFile s (fun _ t => ∃ ts, s.Takes ts t) s.Fails :=
  ends_withGrammar (ends_wholeFile_takes (Grammar.consumes_ofDepth (s.remaining + 1)) s)

/-- Taking tokens only meets the first problem as well. -/
theorem tokenize_of_isFirst {source : String} (h : IsFirst e (Stream.ofSource source).events) :
    Token.tokenize source = .error e := by
  obtain ⟨ts, rest, hevents⟩ := h
  have hread : (ts.map Except.ok ++ Except.error e :: rest).mapM id = Except.error e := by
    clear hevents
    induction ts with
    | nil => rfl
    | cons t ts ih =>
      rw [List.map_cons, List.cons_append, List.mapM_cons, ih]
      rfl
  simp only [Token.tokenize, Stream.tokens, hevents, hread]
  rfl

end Parser

/-- Parsing neither loses nor invents a problem of the text. A source that is parsed has been read to its end: its
    tokens have all been taken, and there are no problems among them. Where parsing fails over a problem of the text,
    it is the one that taking tokens only meets, with the same message and place, also where it is met ahead. -/
theorem parse_lexical (source : String) :
    (∀ file, SourceFile.parse source = .ok file → ∃ ts t, Parser.sourceFile (.ofSource source) = .ok file t ∧
      (Parser.State.ofSource source).Takes ts t ∧ t.stream.events = [] ∧
      Token.tokenize source = .ok (ts ++ [(Token.Stream.ofSource source).eof])) ∧
    ∀ e, SourceFile.parse source = .error e → e.stage = .lexer → Token.tokenize source = .error e := by
  have hends := Parser.ends_sourceFile_takes (.ofSource source)
  constructor
  · intro file hfile
    obtain ⟨t, hres⟩ := SourceFile.parse_eq_ok_iff.1 hfile
    obtain ⟨ts, hst⟩ := hends.of_ok hres
    have hnil := (Parser.derives_of_sourceFile hres).1
    refine ⟨ts, t, hres, hst, hnil, Token.tokenize_of_events ?_⟩
    have hevents := hst.events
    rwa [hnil, List.append_nil] at hevents
  · intro e he hstage
    obtain ⟨t, hres⟩ := SourceFile.parse_eq_error_iff.1 he
    exact Parser.tokenize_of_isFirst ((hends.of_error hres).lexical hstage)

/-- A character that is no token, where the parser looks whether a struct literal begins. -/
def strayedSource : String := "package p\nfunc f() \x7b\n\ttype T #\n\x7d\n"

theorem problem_strayedSource :
    error? (SourceFile.parse strayedSource) = some ⟨.unexpectedText "#", ⟨29, 30⟩⟩ := by decide +kernel

/-- A function with a struct literal, and nothing that is no token. -/
def tidySource : String := "package p\nfunc f() \x7b\n\ttype T struct\x7b\x7d\n\x7d\n"

theorem locals_tidySource :
    (SourceFile.parse tidySource).toOption.map (fun file => file.locals.map (·.name)) = some [some "T"] := by
  decide +kernel

theorem parse_lexical_strayed :
    (∃ file, SourceFile.parse tidySource = .ok file ∧ ∃ ts t,
      Parser.sourceFile (.ofSource tidySource) = .ok file t ∧ (Parser.State.ofSource tidySource).Takes ts t ∧
      t.stream.events = [] ∧ Token.tokenize tidySource = .ok (ts ++ [(Token.Stream.ofSource tidySource).eof])) ∧
    ∃ e, SourceFile.parse strayedSource = .error e ∧ e.stage = .lexer ∧ Token.tokenize strayedSource = .error e := by
  constructor
  · obtain ⟨file, hparse, -⟩ := exists_of_toOption_map locals_tidySource
    exact ⟨file, hparse, (parse_lexical tidySource).1 file hparse⟩
  · have hparse := error?_eq_some_iff.1 problem_strayedSource
    exact ⟨_, hparse, rfl, (parse_lexical strayedSource).2 _ hparse rfl⟩

end StructPadding
