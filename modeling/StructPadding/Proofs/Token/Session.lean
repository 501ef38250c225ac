-- SUMMARY: Sessions of operations on a source that is being read, and what they take from it.
import StructPadding.Proofs.Outcome
import StructPadding.Token.Stream

/-!
# Sessions

A session is a list of operations, each of which goes on where the one before it stopped, also behind a problem. Every
operation is made of looks ahead and of taking the next token, so what holds of these two holds of every session.
-/

namespace StructPadding

/-- A problem of the text itself, and no other one. -/
def Problem.lexical? (p : Problem) : Option Problem := if p.stage = .lexer then some p else none

namespace Token

/-! ## Operations -/

inductive Operation
  | next
  | peek
  | peekAt (n : Nat)
  | check (k : Kind)
  | checkSecond (k : Kind)
  | accept (k : Kind)
  | expect (k : Kind)

inductive Answer
  | token (t : Token)
  | verdict (b : Bool)

/-- What comes of an operation. -/
structure Step where
  answer : Except Problem Answer
  /-- The token that is taken, also where it is not the expected one. -/
  taken : Option Token

/-- The lexical problem that an operation returns. -/
def Step.lexical? (s : Step) : Option Problem :=
  match s.answer with
  | .ok _ => none
  | .error p => p.lexical?

/-- The tokens that operations take. -/
def tokensOf (steps : List Step) : List Token := steps.flatMap (·.taken.toList)

/-- The lexical problems that operations return. -/
def problemsOf (steps : List Step) : List Problem := steps.flatMap (·.lexical?.toList)

/-- A way of reading tokens. -/
structure Scanner (σ : Type) where
  next : EStateM Problem σ Token
  perform : Operation → EStateM Problem σ Answer

namespace Scanner

variable {σ : Type}

/-- The token that `next` takes. -/
def next? (m : Scanner σ) (s : σ) : Option Token :=
  match m.next s with
  | .ok t _ => some t
  | .error .. => none

/-- The token that an operation takes: that which is next, for `accept` only if it is accepted. -/
def taken? (m : Scanner σ) (op : Operation) (s : σ) : Option Token :=
  match op with
  | .next | .expect _ => m.next? s
  | .accept k =>
    match m.perform (.check k) s with
    | .ok (.verdict true) t => m.next? t
    | _ => none
  | _ => none

def step (m : Scanner σ) (op : Operation) (s : σ) : Step × σ :=
  match m.perform op s with
  | .ok a t => (⟨.ok a, m.taken? op s⟩, t)
  | .error p t => (⟨.error p, m.taken? op s⟩, t)

/-- One operation after the other. -/
def session (m : Scanner σ) : List Operation → σ → List Step × σ
  | [], s => ([], s)
  | op :: ops, s =>
    let first := m.step op s
    let rest := m.session ops first.2
    (first.1 :: rest.1, rest.2)

/-- Whether a token ahead is like a kind. -/
def isLikeAt (peekAt : Nat → EStateM Problem σ Token) (n : Nat) (k : Kind) : EStateM Problem σ Bool :=
  return (← peekAt n).kind.isLike k

/-- Operations made of looking ahead and taking the next token. -/
def ofLookahead (next : EStateM Problem σ Token) (peekAt : Nat → EStateM Problem σ Token) : Scanner σ where
  next := next
  perform
    | .next => .token <$> next
    | .peek => .token <$> peekAt 0
    | .peekAt n => .token <$> peekAt n
    | .check k => .verdict <$> isLikeAt peekAt 0 k
    | .checkSecond k => .verdict <$> isLikeAt peekAt 1 k
    | .accept k => .verdict <$> do
      if ← isLikeAt peekAt 0 k then
        let _ ← next
        return true
      return false
    | .expect k => .token <$> do
      let t ← next
      if t.kind.isLike k then return t
      throw ⟨.expected (.kind k) t.kind, t.span⟩

end Scanner

/-- The operations on a stream. -/
def Stream.scanner : Scanner Stream where
  next := next
  perform
    | .next => .token <$> next
    | .peek => .token <$> peek
    | .peekAt n => .token <$> peekAt n
    | .check k => .verdict <$> check k
    | .checkSecond k => .verdict <$> checkSecond k
    | .accept k => .verdict <$> accept k
    | .expect k => .token <$> expect k

theorem Stream.scanner_eq : scanner = .ofLookahead next peekAt := by
  simp only [scanner, Scanner.ofLookahead]
  congr

/-! ## What every session does -/

section Accounts

variable {σ : Type} {next : EStateM Problem σ Token} {peekAt : Nat → EStateM Problem σ Token}

theorem Scanner.step_of_ends {m : Scanner σ} {op : Operation} {s : σ} {P : Step → σ → Prop}
    (h : Ends (m.perform op) s (fun a => P ⟨.ok a, m.taken? op s⟩) fun p => P ⟨.error p, m.taken? op s⟩) :
    P (m.step op s).1 (m.step op s).2 := by
  simp only [Ends] at h
  simp only [Scanner.step]
  split <;> simp_all

theorem Scanner.taken?_accept (k : Kind) (s : σ) :
    (ofLookahead next peekAt).taken? (.accept k) s =
      match isLikeAt peekAt 0 k s with
      | .ok true t => (ofLookahead next peekAt).next? t
      | _ => none := by
  simp only [taken?, ofLookahead, Functor.map, EStateM.map]
  rcases isLikeAt peekAt 0 k s with ⟨_ | _, _⟩ | _ <;> rfl

/-- An account of the tokens taken and the lexical problems returned between two states, which goes along with looking
    ahead and taking tokens. -/
structure Scanner.Account (next : EStateM Problem σ Token) (peekAt : Nat → EStateM Problem σ Token)
    (R : σ → List Token → List Problem → σ → Prop) : Prop where
  refl : ∀ s, R s [] [] s
  trans : ∀ {s t u ts us ps qs}, R s ts ps t → R t us qs u → R s (ts ++ us) (ps ++ qs) u
  next : ∀ s, Ends next s (fun t => R s [t] []) fun p => R s [] p.lexical?.toList
  peekAt : ∀ n s, Ends (peekAt n) s (fun _ => R s [] []) fun p => R s [] p.lexical?.toList

namespace Scanner.Account

variable {R : σ → List Token → List Problem → σ → Prop}

theorem next? (h : Account next peekAt R) (s : σ) :
    Ends next s (fun _ => R s ((ofLookahead next peekAt).next? s).toList [])
      fun p => R s ((ofLookahead next peekAt).next? s).toList p.lexical?.toList := by
  have hnext := h.next s
  simp only [Ends, Scanner.next?, ofLookahead] at hnext ⊢
  cases hres : next s <;> simpa [hres] using hnext

theorem isLikeAt (h : Account next peekAt R) (n : Nat) (k : Kind) (s : σ) :
    Ends (Scanner.isLikeAt peekAt n k) s (fun _ => R s [] []) fun p => R s [] p.lexical?.toList :=
  (h.peekAt n s).bind (fun _ _ ht => .pure ht) fun _ _ ht => ht

/-- Behind a look the next token is taken if it is accepted. -/
theorem accept (h : Account next peekAt R) (k : Kind) (s : σ) :
    Ends ((ofLookahead next peekAt).perform (.accept k)) s
      (fun _ => R s ((ofLookahead next peekAt).taken? (.accept k) s).toList [])
      fun p => R s ((ofLookahead next peekAt).taken? (.accept k) s).toList p.lexical?.toList := by
  have hlook := h.isLikeAt 0 k s
  simp only [Ends] at hlook
  rw [taken?_accept]
  refine Ends.map ?_
  cases hres : Scanner.isLikeAt peekAt 0 k s with
  | error p t =>
    rw [hres] at hlook
    exact .bind_of_error hres hlook
  | ok accepted t =>
    rw [hres] at hlook
    refine .bind_of_ok hres ?_
    cases accepted with
    | false => exact .pure hlook
    | true => exact (h.next? t).bind (fun _ _ hu => .pure (h.trans hlook hu)) fun _ _ hu => h.trans hlook hu

variable {m : Scanner σ}

theorem step (h : Account next peekAt R) (hm : m = .ofLookahead next peekAt) (op : Operation) (s : σ) :
    R s (m.step op s).1.taken.toList (m.step op s).1.lexical?.toList (m.step op s).2 := by
  subst hm
  refine step_of_ends (P := fun step t => R s step.taken.toList step.lexical?.toList t) ?_
  cases op with
  | next =>
    refine Ends.map ?_
    exact h.next? s
  | peek =>
    refine Ends.map ?_
    exact h.peekAt 0 s
  | peekAt n =>
    refine Ends.map ?_
    exact h.peekAt n s
  | check k =>
    refine Ends.map ?_
    exact h.isLikeAt 0 k s
  | checkSecond k =>
    refine Ends.map ?_
    exact h.isLikeAt 1 k s
  | accept k => exact h.accept k s
  | expect k =>
    refine Ends.map ((h.next? s).bind (fun t u ht => ?_) fun _ _ ht => ht)
    exact .ite (fun _ => .pure ht) fun _ => .throw ht

theorem session (h : Account next peekAt R) (hm : m = .ofLookahead next peekAt) (ops : List Operation) (s : σ) :
    R s (tokensOf (m.session ops s).1) (problemsOf (m.session ops s).1) (m.session ops s).2 := by
  induction ops generalizing s with
  | nil => exact h.refl s
  | cons op ops ih => exact h.trans (h.step hm op s) (ih (m.step op s).2)

end Scanner.Account

end Accounts

/-! ## Two ways of reading -/

section Simulation

variable {σ τ : Type} {next : EStateM Problem σ Token} {peekAt : Nat → EStateM Problem σ Token}
  {next' : EStateM Problem τ Token} {peekAt' : Nat → EStateM Problem τ Token}

/-- Whether looking ahead and taking tokens agree from related states. -/
structure Scanner.Simulates (next : EStateM Problem σ Token) (peekAt : Nat → EStateM Problem σ Token)
    (next' : EStateM Problem τ Token) (peekAt' : Nat → EStateM Problem τ Token) (R : σ → τ → Prop) : Prop where
  next : ∀ {s t}, R s t → Agree R (next s) (next' t)
  peekAt : ∀ n {s t}, R s t → Agree R (peekAt n s) (peekAt' n t)

namespace Scanner.Simulates

variable {R : σ → τ → Prop} {s : σ} {t : τ}

theorem isLikeAt (h : Simulates next peekAt next' peekAt' R) (hst : R s t) (n : Nat) (k : Kind) :
    Agree R (Scanner.isLikeAt peekAt n k s) (Scanner.isLikeAt peekAt' n k t) :=
  (h.peekAt n hst).bind fun _ _ _ hst => .ok hst

theorem perform (h : Simulates next peekAt next' peekAt' R) (hst : R s t) (op : Operation) :
    Agree R ((ofLookahead next peekAt).perform op s) ((ofLookahead next' peekAt').perform op t) := by
  cases op with
  | next => exact (h.next hst).map
  | peek => exact (h.peekAt 0 hst).map
  | peekAt n => exact (h.peekAt n hst).map
  | check k => exact (h.isLikeAt hst 0 k).map
  | checkSecond k => exact (h.isLikeAt hst 1 k).map
  | accept k =>
    refine Agree.map ((h.isLikeAt hst 0 k).bind fun accepted s t hst => ?_)
    cases accepted with
    | false => exact .ok hst
    | true => exact (h.next hst).bind fun _ _ _ hst => .ok hst
  | expect k =>
    refine Agree.map ((h.next hst).bind fun found s t hst => ?_)
    split
    · exact .ok hst
    · exact .error hst

theorem next? (h : Simulates next peekAt next' peekAt' R) (hst : R s t) :
    (ofLookahead next peekAt).next? s = (ofLookahead next' peekAt').next? t := by
  have hnext := h.next hst
  simp only [Scanner.next?, ofLookahead]
  generalize next s = r at hnext
  generalize next' t = r' at hnext
  cases hnext <;> rfl

theorem taken? (h : Simulates next peekAt next' peekAt' R) (hst : R s t) (op : Operation) :
    (ofLookahead next peekAt).taken? op s = (ofLookahead next' peekAt').taken? op t := by
  cases op with
  | next => exact h.next? hst
  | expect k => exact h.next? hst
  | accept k =>
    have hlook := h.isLikeAt hst 0 k
    simp only [taken?_accept]
    generalize Scanner.isLikeAt peekAt 0 k s = r at hlook
    generalize Scanner.isLikeAt peekAt' 0 k t = r' at hlook
    cases hlook with
    | @ok accepted s t hst => cases accepted <;> simp [h.next? hst]
    | error => rfl
  | peek => rfl
  | peekAt n => rfl
  | check k => rfl
  | checkSecond k => rfl

theorem step (h : Simulates next peekAt next' peekAt' R) (hst : R s t) (op : Operation) :
    ((ofLookahead next peekAt).step op s).1 = ((ofLookahead next' peekAt').step op t).1 ∧
      R ((ofLookahead next peekAt).step op s).2 ((ofLookahead next' peekAt').step op t).2 := by
  have hperform := h.perform hst op
  simp only [Scanner.step, h.taken? hst op]
  generalize (ofLookahead next peekAt).perform op s = r at hperform
  generalize (ofLookahead next' peekAt').perform op t = r' at hperform
  cases hperform with
  | ok hstates => exact ⟨rfl, hstates⟩
  | error hstates => exact ⟨rfl, hstates⟩

theorem session (h : Simulates next peekAt next' peekAt' R) (hst : R s t) (ops : List Operation) :
    ((ofLookahead next peekAt).session ops s).1 = ((ofLookahead next' peekAt').session ops t).1 := by
  induction ops generalizing s t with
  | nil => rfl
  | cons op ops ih =>
    obtain ⟨hsame, hstates⟩ := h.step hst op
    simp only [Scanner.session, hsame, ih hstates]

end Scanner.Simulates

end Simulation

/-! ## Streams -/

namespace Event

/-- The tokens among events. -/
def tokens (es : List Event) : List Token :=
  es.flatMap fun
    | .ok t => [t]
    | .error _ => []

/-- The lexical problems among events. -/
def problems (es : List Event) : List Problem :=
  es.flatMap fun
    | .ok _ => []
    | .error p => p.lexical?.toList

@[simp] theorem tokens_nil : tokens [] = [] := rfl
@[simp] theorem tokens_ok_cons (t : Token) (es : List Event) : tokens (.ok t :: es) = t :: tokens es := rfl
@[simp] theorem tokens_error_cons (p : Problem) (es : List Event) : tokens (.error p :: es) = tokens es := rfl
@[simp] theorem problems_nil : problems [] = [] := rfl
@[simp] theorem problems_ok_cons (t : Token) (es : List Event) : problems (.ok t :: es) = problems es := rfl
@[simp] theorem problems_error_cons (p : Problem) (es : List Event) :
    problems (.error p :: es) = p.lexical?.toList ++ problems es := rfl

@[simp] theorem tokens_map_ok_append (ts : List Token) (es : List Event) :
    tokens (ts.map .ok ++ es) = ts ++ tokens es := by
  induction ts with
  | nil => rfl
  | cons t ts ih => exact congrArg (t :: ·) ih

@[simp] theorem problems_map_ok_append (ts : List Token) (es : List Event) :
    problems (ts.map .ok ++ es) = problems es := by
  induction ts with
  | nil => rfl
  | cons t ts ih => exact ih

end Event

namespace Stream

/-- Whether the tokens taken and the problems returned between two states are those that have gone from the events,
    and ends of the file where no token is left. -/
structure Spends (s : Stream) (ts : List Token) (ps : List Problem) (t : Stream) : Prop where
  length : t.length = s.length
  tokens : ∃ k, Event.tokens s.events ++ .replicate k s.eof = ts ++ Event.tokens t.events
  problems : Event.problems s.events = ps ++ Event.problems t.events

theorem Spends.refl (s : Stream) : Spends s [] [] s := ⟨rfl, ⟨0, by simp⟩, rfl⟩

theorem Spends.trans {s t u : Stream} {ts us : List Token} {ps qs : List Problem} (hst : Spends s ts ps t)
    (htu : Spends t us qs u) : Spends s (ts ++ us) (ps ++ qs) u := by
  obtain ⟨k, hst'⟩ := hst.tokens
  obtain ⟨k', htu'⟩ := htu.tokens
  have heof : t.eof = s.eof := congrArg (fun n => Token.mk .eof (.point n)) hst.length
  refine ⟨htu.length.trans hst.length, ⟨k + k', ?_⟩, ?_⟩
  · calc Event.tokens s.events ++ .replicate (k + k') s.eof
      _ = (Event.tokens s.events ++ .replicate k s.eof) ++ .replicate k' s.eof := by
        rw [← List.replicate_append_replicate, List.append_assoc]
      _ = ts ++ (Event.tokens t.events ++ .replicate k' t.eof) := by rw [hst', heof, List.append_assoc]
      _ = ts ++ us ++ Event.tokens u.events := by rw [htu', List.append_assoc]
  · rw [hst.problems, htu.problems, List.append_assoc]

theorem spends_next (s : Stream) : Ends next s (fun t => Spends s [t] []) fun p => Spends s [] p.lexical?.toList := by
  obtain ⟨events, length⟩ := s
  cases events with
  | nil => exact ⟨rfl, ⟨1, rfl⟩, rfl⟩
  | cons e rest =>
    cases e with
    | ok t => exact ⟨rfl, ⟨0, by simp⟩, rfl⟩
    | error p => exact ⟨rfl, ⟨0, by simp⟩, rfl⟩

/-- The first problem is behind tokens only, which stay. -/
theorem firstProblem_eq_some_iff {n : Nat} {es rest : List Event} {p : Problem} :
    firstProblem n es = some (p, rest) ↔
      ∃ (ts : List Token) (more : List Event), ts.length < n ∧ es = ts.map .ok ++ .error p :: more ∧
        rest = ts.map .ok ++ more := by
  constructor
  · intro h
    induction es generalizing n rest with
    | nil => simp [firstProblem] at h
    | cons e es ih =>
      cases n with
      | zero => simp [firstProblem] at h
      | succ n =>
        cases e with
        | error q =>
          obtain ⟨rfl, rfl⟩ : q = p ∧ es = rest := by simpa [firstProblem] using h
          exact ⟨[], es, n.succ_pos, rfl, rfl⟩
        | ok t =>
          simp only [firstProblem, Option.map_eq_some_iff, Prod.exists, Prod.mk.injEq] at h
          obtain ⟨q, left, hfound, rfl, rfl⟩ := h
          obtain ⟨ts, more, hlength, rfl, rfl⟩ := ih hfound
          exact ⟨t :: ts, more, Nat.succ_lt_succ hlength, rfl, rfl⟩
  · rintro ⟨ts, more, hlength, rfl, rfl⟩
    induction ts generalizing n with
    | nil =>
      obtain ⟨n, rfl⟩ := Nat.exists_eq_add_of_lt hlength
      simp [firstProblem]
    | cons t ts ih =>
      cases n with
      | zero => exact absurd hlength (Nat.not_lt_zero _)
      | succ n => simp [firstProblem, ih (Nat.lt_of_succ_lt_succ hlength)]

theorem spends_peekAt (n : Nat) (s : Stream) :
    Ends (peekAt n) s (fun _ => Spends s [] []) fun p => Spends s [] p.lexical?.toList := by
  cases hproblem : firstProblem (n + 1) s.events with
  | some found =>
    obtain ⟨p, rest⟩ := found
    obtain ⟨ts, more, -, hevents, rfl⟩ := firstProblem_eq_some_iff.1 hproblem
    simp only [Ends, peekAt, hproblem]
    exact ⟨rfl, ⟨0, by simp [hevents]⟩, by simp [hevents]⟩
  | none =>
    simp only [Ends, peekAt, hproblem]
    cases hevent : s.events[n]? with
    | none => exact .refl s
    | some e =>
      cases e with
      | ok t => exact .refl s
      | error p => exact .refl s

theorem account : Scanner.Account next peekAt Spends where
  refl := .refl
  trans := .trans
  next := spends_next
  peekAt := spends_peekAt

/-- Taking tokens only hands out all tokens of the events, and the end of the file behind them. -/
theorem session_replicate_next (s : Stream) (k : Nat) :
    tokensOf (scanner.session (.replicate (s.events.length + k) .next) s).1 =
        Event.tokens s.events ++ .replicate k s.eof ∧
      problemsOf (scanner.session (.replicate (s.events.length + k) .next) s).1 = Event.problems s.events := by
  obtain ⟨events, length⟩ := s
  induction events with
  | nil =>
    induction k with
    | zero => exact ⟨rfl, rfl⟩
    | succ k ih => exact ⟨congrArg (eof ⟨[], length⟩ :: ·) ih.1, ih.2⟩
  | cons e events ih =>
    have hcount : (e :: events).length + k = events.length + k + 1 := by
      rw [List.length_cons]
      omega
    rw [hcount]
    cases e with
    | ok t => exact ⟨congrArg (t :: ·) ih.1, ih.2⟩
    | error p => exact ⟨ih.1, congrArg (p.lexical?.toList ++ ·) ih.2⟩

/-- What a session takes and returns is a prefix of what taking tokens only does. -/
theorem session_prefix (s : Stream) (ops : List Operation) :
    ∃ n, tokensOf (scanner.session ops s).1 <+: tokensOf (scanner.session (.replicate n .next) s).1 ∧
      problemsOf (scanner.session ops s).1 <+: problemsOf (scanner.session (.replicate n .next) s).1 := by
  have hspends := account.session scanner_eq ops s
  obtain ⟨k, htokens⟩ := hspends.tokens
  obtain ⟨hall, hproblems⟩ := session_replicate_next s k
  refine ⟨s.events.length + k, ?_, ?_⟩
  · rw [hall, htokens]
    exact List.prefix_append ..
  · rw [hproblems, hspends.problems]
    exact List.prefix_append ..

end Stream

end Token

end StructPadding
