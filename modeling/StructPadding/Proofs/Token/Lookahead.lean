-- SUMMARY: Reading tokens through a buffer, lexeme by lexeme; looking ahead loses, repeats and reorders nothing.
import StructPadding.Proofs.Token.Session
import StructPadding.Proofs.Token.Spelling

/-!
# Lookahead

A lexer scans a source as far as an operation has to see, and keeps the tokens that have been looked at in a buffer. It
answers every session as a stream does, which has all events from the start. What the lexer scans it does not scan
again, so a lexical problem is returned once, by the operation that scans it.
-/

namespace StructPadding.Token

/-! ## Scanning -/

/-- The problem that a lexeme is, if it is one. -/
def Lexeme.problem? (x : Lexeme) : Option Problem :=
  match x.category with
  | .unclosed | .stray => some ⟨.unexpectedText x.text, x.span⟩
  | _ => none

theorem Lexeme.lexical?_of_problem? {x : Lexeme} {p : Problem} (h : x.problem? = some p) : p.lexical? = some p := by
  unfold problem? at h
  split at h <;> cases h <;> rfl

theorem Event.ofLexemes_cons (length : Nat) (ends : Bool) (x : Lexeme) (rest : List Lexeme) :
    Event.ofLexemes length ends (x :: rest) =
      match x.category.kind? x.text with
      | some kind => .ok ⟨kind, x.span⟩ :: Event.ofLexemes length kind.endsStatement rest
      | none =>
        match x.problem? with
        | some p => .error p :: Event.ofLexemes length ends rest
        | none =>
          if ends && x.breaksLine then .ok ⟨.symbol .semi, x.span⟩ :: Event.ofLexemes length false rest
          else Event.ofLexemes length ends rest := by
  obtain ⟨category, text, span⟩ := x
  cases category <;> rfl

theorem Lexeme.problem?_of_kind? {x : Lexeme} {kind : Kind} (h : x.category.kind? x.text = some kind) :
    x.problem? = none := by
  unfold problem?
  split
  · next hunclosed => simp [hunclosed, Category.kind?] at h
  · next hstray => simp [hstray, Category.kind?] at h
  · rfl

/-- A source that is scanned piece by piece. -/
structure Lexer where
  /-- What is not scanned yet. -/
  pending : List Lexeme
  /-- The tokens that have been looked at and not taken. -/
  buffer : List Token
  /-- The kind of the token that was scanned last. -/
  last : Option Kind
  atEnd : Bool
  length : Nat

namespace Lexer

def ofSource (source : String) : Lexer := ⟨Lexeme.scan source, [], none, false, source.utf8ByteSize⟩

def eof (l : Lexer) : Token := ⟨.eof, .point l.length⟩

def needsSemicolon (l : Lexer) : Bool := l.last.any Kind.endsStatement

def emit (t : Token) (l : Lexer) : EStateM.Result Problem Lexer Token := .ok t { l with last := some t.kind }

/-- The next token or problem among lexemes. -/
def scanPending (l : Lexer) : List Lexeme → EStateM.Result Problem Lexer Token
  | [] =>
    if l.needsSemicolon then emit ⟨.symbol .semi, .point l.length⟩ { l with pending := [], atEnd := true }
    else .ok l.eof { l with pending := [], atEnd := true }
  | x :: rest =>
    match x.category.kind? x.text with
    | some kind => emit ⟨kind, x.span⟩ { l with pending := rest }
    | none =>
      match x.problem? with
      | some p => .error p { l with pending := rest }
      | none =>
        if l.needsSemicolon && x.breaksLine then emit ⟨.symbol .semi, x.span⟩ { l with pending := rest }
        else scanPending l rest

def scan : EStateM Problem Lexer Token := fun l => if l.atEnd then .ok l.eof l else l.scanPending l.pending

/-! ## Reading -/

def next : EStateM Problem Lexer Token := fun l =>
  match l.buffer with
  | [] => scan l
  | t :: rest => .ok t { l with buffer := rest }

/-- Scan tokens into the buffer. -/
def fill : Nat → EStateM Problem Lexer Unit
  | 0 => return ()
  | n + 1 => do
    let t ← scan
    modify fun l => { l with buffer := l.buffer ++ [t] }
    fill n

def peekAt (n : Nat) : EStateM Problem Lexer Token := do
  fill (n + 1 - (← get).buffer.length)
  let l ← get
  return l.buffer.getD n l.eof

def scanner : Scanner Lexer := .ofLookahead next peekAt

/-! ## What is scanned -/

/-- The events that are still to be scanned. -/
def ahead (l : Lexer) : List Event :=
  if l.atEnd then [] else Event.ofLexemes l.length l.needsSemicolon l.pending

@[simp] theorem ahead_buffer (l : Lexer) (ts : List Token) : ahead { l with buffer := ts } = l.ahead := rfl

/-- Whether lexemes with given problems are scanned between two states. -/
def Scans (l : Lexer) (ps : List Problem) (l' : Lexer) : Prop :=
  ∃ xs, l.pending = xs ++ l'.pending ∧ xs.filterMap Lexeme.problem? = ps

theorem Scans.refl (l : Lexer) : Scans l [] l := ⟨[], rfl, rfl⟩

theorem Scans.trans {l l' l'' : Lexer} {ps qs : List Problem} (h : Scans l ps l') (h' : Scans l' qs l'') :
    Scans l (ps ++ qs) l'' := by
  obtain ⟨xs, hxs, rfl⟩ := h
  obtain ⟨ys, hys, rfl⟩ := h'
  exact ⟨xs ++ ys, by rw [hxs, hys, List.append_assoc], by simp⟩

/-- What scanning changes. -/
structure Took (l : Lexer) (ps : List Problem) (l' : Lexer) : Prop where
  length : l'.length = l.length
  buffer : l'.buffer = l.buffer
  scans : Scans l ps l'

/-- Whether a token is the first of some events, with the others ahead, or the end where there are none. -/
def Finds (l : Lexer) (es : List Event) (t : Token) (l' : Lexer) : Prop :=
  es = .ok t :: l'.ahead ∨ (es = [] ∧ t = l.eof ∧ l'.ahead = [])

/-- A lexeme that makes no event is scanned with what comes behind it. -/
theorem Took.cons {l l' : Lexer} {x : Lexeme} {xs : List Lexeme} {ps : List Problem} (hx : x.problem? = none)
    (h : Took { l with pending := xs } ps l') : Took { l with pending := x :: xs } ps l' := by
  obtain ⟨ys, hys, hps⟩ := h.scans
  exact ⟨h.length, h.buffer, x :: ys, congrArg (x :: ·) hys, by rw [List.filterMap_cons_none hx, hps]⟩

theorem scanPending_ends {l : Lexer} (hl : l.atEnd = false) (xs : List Lexeme) :
    Ends (fun l => scanPending l xs) l
      (fun t l' => Finds l (Event.ofLexemes l.length l.needsSemicolon xs) t l' ∧ Took { l with pending := xs } [] l')
      fun p l' => Event.ofLexemes l.length l.needsSemicolon xs = .error p :: l'.ahead ∧
        Took { l with pending := xs } p.lexical?.toList l' := by
  simp only [Ends]
  induction xs with
  | nil =>
    cases hneeds : l.needsSemicolon with
    | true =>
      simp only [scanPending, hneeds, Event.ofLexemes]
      exact ⟨.inl rfl, rfl, rfl, [], rfl, rfl⟩
    | false =>
      simp only [scanPending, hneeds, Event.ofLexemes]
      exact ⟨.inr ⟨rfl, rfl, rfl⟩, rfl, rfl, [], rfl, rfl⟩
  | cons x xs ih =>
    rw [Event.ofLexemes_cons, scanPending]
    cases hkind : x.category.kind? x.text with
    | some kind =>
      have hahead : ahead { l with pending := xs, last := some kind } =
          Event.ofLexemes l.length kind.endsStatement xs := by
        simp [ahead, hl, needsSemicolon]
      exact ⟨.inl (hahead ▸ rfl), rfl, rfl, [x], rfl, List.filterMap_cons_none (Lexeme.problem?_of_kind? hkind)⟩
    | none =>
      cases hproblem : x.problem? with
      | some p =>
        have hahead : ahead { l with pending := xs } = Event.ofLexemes l.length l.needsSemicolon xs := by
          simp [ahead, hl, needsSemicolon]
        have hlexical : [x].filterMap Lexeme.problem? = p.lexical?.toList := by
          simp [hproblem, Lexeme.lexical?_of_problem? hproblem]
        exact ⟨hahead ▸ rfl, rfl, rfl, [x], rfl, hlexical⟩
      | none =>
        cases hbreak : l.needsSemicolon && x.breaksLine with
        | true =>
          have hahead : ahead { l with pending := xs, last := some (.symbol .semi) } =
              Event.ofLexemes l.length false xs := by
            simp [ahead, hl, needsSemicolon, Kind.endsStatement]
          exact ⟨.inl (hahead ▸ rfl), rfl, rfl, [x], rfl, List.filterMap_cons_none hproblem⟩
        | false =>
          cases hscan : l.scanPending xs with
          | ok t l' =>
            rw [hscan] at ih
            exact ⟨ih.1, ih.2.cons hproblem⟩
          | error p l' =>
            rw [hscan] at ih
            exact ⟨ih.1, ih.2.cons hproblem⟩

theorem scan_ends (l : Lexer) :
    Ends scan l (fun t l' => Finds l l.ahead t l' ∧ Took l [] l')
      fun p l' => l.ahead = .error p :: l'.ahead ∧ Took l p.lexical?.toList l' := by
  cases hl : l.atEnd with
  | true =>
    have hscan : scan l = .ok l.eof l := by simp [scan, hl]
    have hahead : l.ahead = [] := by simp [ahead, hl]
    simp only [Ends, hscan]
    exact ⟨.inr ⟨hahead, rfl, hahead⟩, rfl, rfl, .refl l⟩
  | false =>
    have hscan : scan l = l.scanPending l.pending := by simp [scan, hl]
    have hahead : l.ahead = Event.ofLexemes l.length l.needsSemicolon l.pending := by simp [ahead, hl]
    rw [hahead]
    have h := scanPending_ends hl l.pending
    simp only [Ends] at h ⊢
    rw [hscan]
    exact h

/-! ## The stream of a lexer -/

/-- Whether a stream has the tokens in the buffer, up to the end of the file, and the events ahead. -/
structure Follows (l : Lexer) (s : Stream) : Prop where
  length : l.length = s.length
  events : ∃ (kept : List Token) (k : Nat), l.buffer = kept ++ .replicate k s.eof ∧
    s.events = kept.map .ok ++ l.ahead ∧ (k = 0 ∨ l.ahead = [])

theorem follows_ofSource (source : String) : Follows (ofSource source) (.ofSource source) :=
  ⟨rfl, [], 0, rfl, rfl, .inl rfl⟩

namespace Follows

variable {l l' : Lexer} {s : Stream}

theorem eof_eq (h : Follows l s) : l.eof = s.eof := congrArg (fun n => Token.mk .eof (.point n)) h.length

/-- A token that is scanned into the buffer was ahead. -/
theorem push (h : Follows l s) {t : Token} (hfinds : Finds l l.ahead t l') (htook : Took l [] l') :
    Follows { l' with buffer := l'.buffer ++ [t] } s := by
  obtain ⟨kept, k, hbuffer, hevents, hend⟩ := h.events
  refine ⟨htook.length.trans h.length, ?_⟩
  rcases hfinds with hahead | ⟨hahead, rfl, hahead'⟩
  · obtain rfl : k = 0 := hend.resolve_right (by simp [hahead])
    refine ⟨kept ++ [t], 0, by simp [htook.buffer, hbuffer], ?_, .inl rfl⟩
    simp [hevents, hahead]
  · -- Behind the last event the end of the file is scanned once more.
    refine ⟨kept, k + 1, ?_, ?_, .inr hahead'⟩
    · rw [htook.buffer, hbuffer, h.eof_eq, List.replicate_succ', List.append_assoc]
    · rw [hevents, hahead, ahead_buffer, hahead']

/-- What stands in front of a problem ahead is in the buffer. -/
theorem error (h : Follows l s) {p : Problem} {ps : List Problem} (hahead : l.ahead = .error p :: l'.ahead)
    (htook : Took l ps l') :
    ∃ more, s.events = l'.buffer.map .ok ++ .error p :: more ∧
      Follows l' { s with events := l'.buffer.map .ok ++ more } := by
  obtain ⟨kept, k, hbuffer, hevents, hend⟩ := h.events
  obtain rfl : k = 0 := hend.resolve_right (by simp [hahead])
  obtain rfl : l'.buffer = kept := by simp [htook.buffer, hbuffer]
  refine ⟨l'.ahead, hahead ▸ hevents, htook.length.trans h.length, l'.buffer, 0, ?_, rfl, .inl rfl⟩
  simp

theorem pop (h : Follows l s) {t : Token} {rest : List Token} (hbuffer : l.buffer = t :: rest) :
    ∃ s', Stream.next s = .ok t s' ∧ Follows { l with buffer := rest } s' := by
  obtain ⟨kept, k, hkept, hevents, hend⟩ := h.events
  rw [hbuffer] at hkept
  cases kept with
  | cons u kept =>
    obtain ⟨rfl, rfl⟩ := List.cons_eq_cons.1 hkept
    refine ⟨{ s with events := kept.map .ok ++ l.ahead }, ?_, h.length, kept, k, rfl, rfl, hend⟩
    simp [Stream.next, hevents]
  | nil =>
    -- Only ends of the file are in the buffer, so the stream is at its end.
    cases k with
    | zero => simp at hkept
    | succ k =>
      obtain ⟨rfl, rfl⟩ := List.cons_eq_cons.1 hkept
      have hahead := hend.resolve_left k.succ_ne_zero
      have hnil : s.events = [] := by simpa [hahead] using hevents
      refine ⟨s, by simp [Stream.next, hnil], h.length, [], k, rfl, by simp [hnil, hahead], .inr hahead⟩

theorem next (h : Follows l s) : Agree Follows (Lexer.next l) (Stream.next s) := by
  unfold Lexer.next
  -- What is scanned for an empty buffer can be seen as put into the buffer and taken from it.
  cases hbuffer : l.buffer with
  | cons t rest =>
    obtain ⟨s', hnext, hfollows⟩ := h.pop hbuffer
    rw [hnext]
    exact .ok hfollows
  | nil =>
    have hscan := scan_ends l
    simp only [Ends] at hscan
    cases hres : scan l with
    | ok t l' =>
      rw [hres] at hscan
      have hempty : l'.buffer = [] := hscan.2.buffer.trans hbuffer
      have hone : l'.buffer ++ [t] = [t] := by rw [hempty, List.nil_append]
      obtain ⟨s', hnext, hfollows⟩ := (h.push hscan.1 hscan.2).pop hone
      have hsame : { l' with buffer := [] } = l' := hempty ▸ rfl
      rw [hnext]
      exact .ok (hsame ▸ hfollows)
    | error p l' =>
      rw [hres] at hscan
      have hempty : l'.buffer = [] := hscan.2.buffer.trans hbuffer
      obtain ⟨more, hevents, hfollows⟩ := h.error hscan.1 hscan.2
      rw [hempty, List.map_nil, List.nil_append] at hevents hfollows
      have hnext : Stream.next s = .error p { s with events := more } := by simp [Stream.next, hevents]
      rw [hnext]
      exact .error hfollows

theorem fill (h : Follows l s) (n : Nat) :
    Ends (Lexer.fill n) l (fun _ l' => Follows l' s ∧ l'.buffer.length = l.buffer.length + n)
      fun p l' => l.buffer.length ≤ l'.buffer.length ∧ l'.buffer.length < l.buffer.length + n ∧
        ∃ more, s.events = l'.buffer.map .ok ++ .error p :: more ∧
          Follows l' { s with events := l'.buffer.map .ok ++ more } := by
  induction n generalizing l with
  | zero => exact .pure ⟨h, rfl⟩
  | succ n ih =>
    refine (scan_ends l).bind (fun t l' hscan => .modify_bind ?_) fun p l' hscan => ?_
    · have hlength : (l'.buffer ++ [t]).length = l.buffer.length + 1 := by simp [hscan.2.buffer]
      refine (ih (h.push hscan.1 hscan.2)).mono (fun _ l'' hdone => ?_) fun p l'' hproblem => ?_
      · exact ⟨hdone.1, by rw [hdone.2, hlength]; omega⟩
      · obtain ⟨hle, hlt, hmore⟩ := hproblem
        rw [hlength] at hle hlt
        exact ⟨by omega, by omega, hmore⟩
    · have hlength : l'.buffer.length = l.buffer.length := by rw [hscan.2.buffer]
      exact ⟨by omega, by omega, h.error hscan.1 hscan.2⟩

/-- What is in the buffer is a token of the stream, or the end of the file behind its events. -/
theorem event_of_lt (h : Follows l s) {n : Nat} (hn : n < l.buffer.length) :
    (∃ t, s.events[n]? = some (.ok t) ∧ l.buffer.getD n l.eof = t) ∨
      (s.events[n]? = none ∧ l.buffer.getD n l.eof = s.eof) := by
  obtain ⟨kept, k, hbuffer, hevents, hend⟩ := h.events
  rcases Nat.lt_or_ge n kept.length with hlt | hge
  · have hevent : s.events[n]? = some (.ok kept[n]) := by simp [hevents, List.getElem?_append_left, hlt]
    exact .inl ⟨kept[n], hevent, by simp [hbuffer, List.getElem?_append_left, hlt]⟩
  · have hk : n - kept.length < k := by
      rw [hbuffer, List.length_append, List.length_replicate] at hn
      omega
    have hahead : l.ahead = [] := hend.resolve_left (by omega)
    exact .inr ⟨by simp [hevents, hahead, hge], by simp [hbuffer, List.getElem?_append_right, hge, hk]⟩

/-- A token in the buffer can be looked at in the stream, whatever comes behind it. -/
theorem peekAt_of_lt (h : Follows l s) {n : Nat} (hn : n < l.buffer.length) :
    Stream.peekAt n s = .ok (l.buffer.getD n l.eof) s := by
  have hnone : Stream.firstProblem (n + 1) s.events = none := by
    rw [Option.eq_none_iff_forall_ne_some]
    rintro ⟨p, rest⟩ hproblem
    obtain ⟨ts, more, hlength, hevents, -⟩ := Stream.firstProblem_eq_some_iff.1 hproblem
    have herror : s.events[ts.length]? = some (.error p) := by simp [hevents]
    rcases h.event_of_lt (n := ts.length) (by omega) with ⟨t, hok, -⟩ | ⟨hend, -⟩
    · cases herror.symm.trans hok
    · cases herror.symm.trans hend
  simp only [Stream.peekAt, hnone]
  rcases h.event_of_lt hn with ⟨t, hevent, ht⟩ | ⟨hevent, ht⟩
  · rw [hevent, ht]
  · rw [hevent, ht]

theorem peekAt (h : Follows l s) (n : Nat) : Agree Follows (Lexer.peekAt n l) (Stream.peekAt n s) := by
  have hfill := h.fill (n + 1 - l.buffer.length)
  simp only [Ends] at hfill
  cases hres : Lexer.fill (n + 1 - l.buffer.length) l with
  | ok u l' =>
    rw [hres] at hfill
    have hpeek : Lexer.peekAt n l = .ok (l'.buffer.getD n l'.eof) l' :=
      bind_eq_ok_iff.2 ⟨l, l, rfl, bind_eq_ok_iff.2 ⟨u, l', hres, rfl⟩⟩
    have hn : n < l'.buffer.length := by omega
    rw [hpeek, hfill.1.peekAt_of_lt hn]
    exact .ok hfill.1
  | error p l' =>
    have hpeek : Lexer.peekAt n l = .error p l' := by
      change EStateM.bind (Lexer.fill (n + 1 - l.buffer.length)) _ l = _
      simp only [EStateM.bind, hres]
    rw [hres] at hfill
    obtain ⟨hle, hlt, more, hevents, hfollows⟩ := hfill
    have hproblem : Stream.firstProblem (n + 1) s.events = some (p, l'.buffer.map .ok ++ more) :=
      Stream.firstProblem_eq_some_iff.2 ⟨l'.buffer, more, by omega, hevents, rfl⟩
    have hstream : Stream.peekAt n s = .error p { s with events := l'.buffer.map .ok ++ more } := by
      simp only [Stream.peekAt, hproblem]
    rw [hpeek, hstream]
    exact .error hfollows

end Follows

theorem simulates : Scanner.Simulates next peekAt Stream.next Stream.peekAt Follows where
  next h := h.next
  peekAt n _ _ h := h.peekAt n

/-! ## Sessions -/

theorem scans_fill (n : Nat) (l : Lexer) :
    Ends (fill n) l (fun _ l' => l.Scans [] l') fun p l' => l.Scans p.lexical?.toList l' := by
  induction n generalizing l with
  | zero => exact .pure (.refl l)
  | succ n ih =>
    refine (scan_ends l).bind (fun t l' hscan => .modify_bind ?_) fun p l' hscan => hscan.2.scans
    exact (ih _).mono (fun _ _ hrest => hscan.2.scans.trans hrest) fun _ _ hrest => hscan.2.scans.trans hrest

theorem account : Scanner.Account next peekAt fun l _ ps l' => Scans l ps l' where
  refl := .refl
  trans := .trans
  next l := by
    cases hbuffer : l.buffer with
    | cons t rest =>
      have hnext : next l = .ok t { l with buffer := rest } := by simp [next, hbuffer]
      simp only [Ends, hnext]
      exact .refl l
    | nil =>
      have hnext : next l = scan l := by simp [next, hbuffer]
      have hscan := (scan_ends l).mono (fun _ _ h => h.2.scans) fun _ _ h => h.2.scans
      simp only [Ends, hnext] at hscan ⊢
      exact hscan
  peekAt n l := by
    exact .get_bind ((scans_fill _ l).bind (fun _ l' hfill => .get_bind (.pure hfill)) fun _ _ hfill => hfill)

end Lexer

/-- Whether a session on a source loses, repeats and reorders nothing. -/
structure IsExact (source : String) (ops : List Operation) : Prop where
  /-- It goes along with only taking tokens, in what it takes and in the lexical problems that it returns. -/
  exists_prefix : ∃ n,
    tokensOf (Stream.scanner.session ops (.ofSource source)).1 <+:
        tokensOf (Stream.scanner.session (.replicate n .next) (.ofSource source)).1 ∧
      problemsOf (Stream.scanner.session ops (.ofSource source)).1 <+:
        problemsOf (Stream.scanner.session (.replicate n .next) (.ofSource source)).1
  /-- A lexer that scans only as far as it has to see gives the same answers. -/
  lexer_eq : (Lexer.scanner.session ops (.ofSource source)).1 = (Stream.scanner.session ops (.ofSource source)).1
  /-- The problems returned are all those that have been scanned. -/
  scans : (Lexer.ofSource source).Scans (problemsOf (Lexer.scanner.session ops (.ofSource source)).1)
    (Lexer.scanner.session ops (.ofSource source)).2
  /-- The next operation returns the problem that it scans, if it scans one. -/
  scans_step : ∀ op, (Lexer.scanner.session ops (.ofSource source)).2.Scans
    (Lexer.scanner.step op (Lexer.scanner.session ops (.ofSource source)).2).1.lexical?.toList
    (Lexer.scanner.step op (Lexer.scanner.session ops (.ofSource source)).2).2
  /-- No problem is returned twice. -/
  nodup : (problemsOf (Stream.scanner.session ops (.ofSource source)).1).Nodup

/-- The problems among the lexemes of a source stand at different places. -/
theorem nodup_problems {source : String} {xs ys : List Lexeme} (h : Lexeme.scan source = xs ++ ys) :
    (xs.filterMap Lexeme.problem?).Nodup := by
  have hspan {x : Lexeme} {p : Problem} (hp : x.problem? = some p) : p.span = x.span := by
    unfold Lexeme.problem? at hp
    split at hp <;> cases hp <;> rfl
  have hall : (Lexeme.scan source).Pairwise fun x y => x.span.start < y.span.start := Lexeme.pairwise_scanFrom ..
  rw [h] at hall
  refine List.Pairwise.filterMap Lexeme.problem? (fun x y hxy p hp q hq => ?_) (List.pairwise_append.1 hall).1
  rintro rfl
  rw [← hspan hp, hspan hq] at hxy
  exact Nat.lt_irrefl _ hxy

/-- Sessions of lookahead and of taking tokens lose, repeat and reorder neither tokens nor lexical problems. -/
theorem session_exact (source : String) (ops : List Operation) : IsExact source ops := by
  have hsame : (Lexer.scanner.session ops (.ofSource source)).1 = (Stream.scanner.session ops (.ofSource source)).1 := by
    rw [Stream.scanner_eq]
    exact Lexer.simulates.session (Lexer.follows_ofSource source) ops
  have hscans := Lexer.account.session (m := Lexer.scanner) rfl ops (.ofSource source)
  exact {
    exists_prefix := Stream.session_prefix (.ofSource source) ops
    lexer_eq := hsame
    scans := hscans
    scans_step := fun op => Lexer.account.step (m := Lexer.scanner) rfl op _
    nodup := by
      obtain ⟨xs, hxs, hproblems⟩ := hscans
      rw [← hsame, ← hproblems]
      exact nodup_problems hxs }

/-- Looking ahead meets the stray character, and the token that is not expected is taken. -/
example :
    let steps := (Stream.scanner.session [.peekAt 1, .next, .expect (.symbol .comma), .next] (.ofSource "a $ b")).1
    tokensOf steps = [⟨.identifier "a", ⟨0, 1⟩⟩, ⟨.identifier "b", ⟨4, 5⟩⟩, ⟨.symbol .semi, ⟨5, 5⟩⟩] ∧
      problemsOf steps = [⟨.unexpectedText "$", ⟨2, 3⟩⟩] := ⟨rfl, rfl⟩

end StructPadding.Token
