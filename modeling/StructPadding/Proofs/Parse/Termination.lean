-- SUMMARY: Parsing ends for every source: loops and recursion take tokens, and never reach their bounds.
import StructPadding.Proofs.Parse.Progress

/-!
# Termination

Every turn of a loop takes a token or is the last one, and every level of recursion is entered behind a token. As
tokens are never put back, there are no more turns and levels than there are tokens. The bounds of loops and of
recursion are larger, and it makes no difference what would be done beyond them.
-/

namespace StructPadding

namespace Parser

/-! ## Bounds -/

/-- The grammar with one more level of nesting. -/
def Grammar.nest (g : Grammar) : Grammar := ⟨typeExpr g, binaryExpr g, unaryExpr g⟩

/-- The grammar down to a depth of nesting, and the one that is used beyond it. -/
def Grammar.nestOver (beyond : Grammar) : Nat → Grammar
  | 0 => beyond
  | n + 1 => (nestOver beyond n).nest

/-- Up to `n` turns, and what is done beyond them. -/
def turnsOver {β : Type} (beyond : β → Parser β) (turn : β → Parser (ForInStep β)) : Nat → β → Parser β
  | 0, b => beyond b
  | n + 1, b => do
    match ← turn b with
    | .yield b => turnsOver beyond turn n b
    | .done b => return b

/-- Whether a turn is the one of a loop of the parser. -/
inductive IsLoop (g : Grammar) : {β : Type} → (β → Parser (ForInStep β)) → Prop
  | declarations : IsLoop g (declarations.turn g)
  | imports : IsLoop g (entries.turn (.symbol .rParen) fun _ => importSpec)
  | types : IsLoop g (entries.turn (.symbol .rParen) fun _ => typeDecl g)
  | consts : IsLoop g (entries.turn (.symbol .rParen) (constDecl g))
  | fields : IsLoop g (entries.turn (.symbol .rBrace) fun _ => field g)
  | typeParams : IsLoop g (typeParams.turn g)
  | typeArgs : IsLoop g (typeArgs.turn g)
  | fieldNames : IsLoop g (commaSeparated.turn identifier)
  | constNames : IsLoop g (commaSeparated.turn name)
  | constValues : IsLoop g (commaSeparated.turn (binaryExpr g 1))
  | operators (precedence : Nat) : IsLoop g (binaryExpr.turn g precedence)
  | calls (start : Span) : IsLoop g (primaryExpr.turn g start)
  | callArgs : IsLoop g (callArgs.turn g)
  | skipDeclaration : IsLoop g (skipDeclaration.turn g)
  | skipGroup : IsLoop g (skipGroup.turn g)
  | skipUntil (stop : Token.Kind → Bool) : IsLoop g (skipUntil.turn g stop)

variable {g g' : Grammar} {free : Bool} {k : Pace} {α β : Type} {p p' : Parser α} {P : α → Pace → Prop} {n : Nat}

/-! ## Loops -/

/-- Whether a turn takes a token where another one follows it. -/
def Advances (turn : β → Parser (ForInStep β)) : Prop :=
  ∀ b s, Ends (turn b) s (fun step t => ∃ ts, s.Takes ts t ∧ ∀ c, step = .yield c → ts ≠ []) s.Fails

theorem Steady.advances {turn turn' : β → Parser (ForInStep β)}
    (h : ∀ b kinds, Steady g g' free ⟨false, kinds⟩ (turn b) (turn' b) Onward) (hg : g.Consumes) : Advances turn := by
  intro b s
  refine ((h b s.kinds).runs hg rfl).mono ?_ fun _ _ h => h
  rintro step t ⟨ts, l, hst, -, htaken, hstep⟩
  refine ⟨ts, hst, ?_⟩
  rintro c rfl
  exact (htaken hstep).resolve_left nofun

/-- No loop of the parser goes on without a token taken. -/
theorem IsLoop.advances {turn : β → Parser (ForInStep β)} (h : IsLoop g turn) (hg : g.Consumes) : Advances turn := by
  refine Steady.advances (fun b kinds => (?_ : Steady g g true ⟨false, kinds⟩ (turn b) (turn b) Onward)) hg
  cases h with
  | declarations => exact steady_declarations_turn b
  | imports => exact steady_entries_turn (isFixed_symbol .rParen) steady_importSpec
  | types => exact steady_entries_turn (isFixed_symbol .rParen) steady_typeDecl
  | consts => exact steady_entries_turn (isFixed_symbol .rParen) (steady_constDecl b)
  | fields => exact steady_entries_turn (isFixed_symbol .rBrace) (steady_field rfl)
  | typeParams => exact steady_typeParams_turn b
  | typeArgs => exact steady_typeArgs_turn rfl b
  | fieldNames => exact steady_commaSeparated_turn steady_identifier b
  | constNames => exact steady_commaSeparated_turn steady_name b
  | constValues => exact steady_commaSeparated_turn (steady_binaryExpr 1) b
  | operators precedence => exact steady_binaryExpr_turn precedence b
  | calls start => exact steady_primaryExpr_turn start b
  | callArgs => exact steady_callArgs_turn rfl b
  | skipDeclaration => exact .mono (steady_skipDeclaration_turn b) fun _ _ h => h.1
  | skipGroup => exact steady_skipGroup_turn b
  | skipUntil stop => exact steady_skipUntil_turn stop b

theorem turns_eq_turnsOver (turn : β → Parser (ForInStep β)) (n : Nat) :
    turns turn n = turnsOver (fun _ => exhausted) turn n := by
  induction n with
  | zero => rfl
  | succ n ih =>
    funext b s
    refine bind_eq_bind rfl fun step t _ => ?_
    cases step with
    | done c => rfl
    | yield c => exact congrFun (congrFun ih c) t

section

variable {turn : β → Parser (ForInStep β)} (hturn : Advances turn)
include hturn

/-- There are no more turns than there are tokens. -/
theorem turnsOver_eq {m n : Nat} (beyond beyond' : β → Parser β) (b : β) (s : State) (hm : s.remaining < m)
    (hn : s.remaining < n) : turnsOver beyond turn m b s = turnsOver beyond' turn n b s := by
  induction m generalizing n b s with
  | zero => exact absurd hm (Nat.not_lt_zero _)
  | succ m ih =>
    obtain ⟨n, rfl⟩ : ∃ n', n = n' + 1 := ⟨n - 1, by omega⟩
    refine bind_eq_bind rfl fun step t hres => ?_
    obtain ⟨ts, hst, hts⟩ := (hturn b s).of_ok hres
    cases step with
    | done c => rfl
    | yield c =>
      have hlength := List.length_pos_iff.2 (hts c rfl)
      have hremaining := hst.remaining
      exact ih c t (by omega) (by omega)

theorem turnsOver_eq_repeating (beyond : β → Parser β) (b : β) (s : State) :
    turnsOver beyond turn (s.remaining + 1) b s = repeating b turn s := by
  rw [repeating, turns_eq_turnsOver]
  exact turnsOver_eq hturn _ _ b s (Nat.lt_succ_self _) (Nat.lt_succ_self _)

/-- A loop is its first turn and the loop behind it. -/
theorem repeating_of_yield {b c : β} {s t : State} (h : turn b s = .ok (.yield c) t) :
    repeating b turn s = repeating c turn t := by
  obtain ⟨ts, hst, hts⟩ := (hturn b s).of_ok h
  have hlength := List.length_pos_iff.2 (hts c rfl)
  have hremaining := hst.remaining
  have hfirst : repeating b turn s = turns turn s.remaining c t := by
    simp only [repeating, turns, Bind.bind, EStateM.bind, h]
  rw [hfirst, repeating, turns_eq_turnsOver, turns_eq_turnsOver]
  exact turnsOver_eq hturn _ _ c t (by omega) (Nat.lt_succ_self _)

/-- A loop that ends within any number of turns ends. -/
theorem repeating_of_turns {b c : β} {s t : State} (h : turns turn n b s = .ok c t) : repeating b turn s = .ok c t := by
  induction n generalizing b s with
  | zero => cases h
  | succ n ih =>
    obtain ⟨step, u, hstep, hrest⟩ := bind_eq_ok_iff.1 h
    cases step with
    | done d => exact bind_eq_ok_iff.2 ⟨_, u, hstep, hrest⟩
    | yield d => exact (repeating_of_yield hturn hstep).trans (ih hrest)

end

/-! ## Recursion -/

/-- Whether the parsers of two grammars do the same where fewer than `n` events are left. -/
structure Grammar.AgreeBelow (n : Nat) (g g' : Grammar) : Prop where
  type : ∀ s, s.remaining < n → g.type s = g'.type s
  expr : ∀ precedence s, s.remaining < n → g.expr precedence s = g'.expr precedence s
  unary : ∀ s, s.remaining < n → g.unary s = g'.unary s

/-- Loops are the same where their turns are. -/
theorem turns_congr {turn turn' : β → Parser (ForInStep β)} {I : State → Prop}
    (hturn : ∀ b s, I s → turn b s = turn' b s ∧ Ends (turn b) s (fun _ t => I t) fun _ _ => True)
    (n : Nat) (b : β) (s : State) (hs : I s) : turns turn n b s = turns turn' n b s := by
  induction n generalizing b s with
  | zero => rfl
  | succ n ih =>
    obtain ⟨heq, hends⟩ := hturn b s hs
    refine bind_eq_bind heq fun step t hres => ?_
    cases step with
    | done c => rfl
    | yield c => exact ih c t (hends.of_ok hres)

/-- A steady parser recurs only where fewer events are left than where it started, unless it may do so at once. -/
theorem Steady.eq (h : Steady g g' free k p p' P) (hg : g.Consumes) (hgg : g.AgreeBelow n g') {s : State}
    (hs : s.kinds = k.kinds) (hle : s.remaining ≤ n) (hlt : (free || k.taken) = true → s.remaining < n) :
    p s = p' s := by
  induction h generalizing s with
  | pure | fail | peekAt | advance | spanFrom | keep => rfl
  | mono _ _ ih => exact ih hs hle hlt
  | type hcall => exact hgg.type s (hlt hcall)
  | expr hcall => exact hgg.expr _ s (hlt hcall)
  | unary hcall => exact hgg.unary s (hlt hcall)
  | @bind free k _ _ p p' f f' _ _ hp _ ihp ihf =>
    refine bind_eq_bind (ihp hs hle hlt) fun a t hres => ?_
    obtain ⟨ts, l, hst, hl, htaken, ha⟩ := (hp.runs hg hs).of_ok hres
    have hremaining := hst.remaining
    refine ihf a l ha hl.symm (by omega) fun hcall => ?_
    rcases Bool.or_eq_true_iff.1 hcall with hfree | hnow
    · have := hlt (by simp [hfree])
      omega
    · rcases htaken hnow with hbefore | hts
      · have := hlt (by simp [hbefore])
        omega
      · have := List.length_pos_iff.2 hts
        omega
  | @repeating free k β init turn turn' busy hturn ih =>
    refine turns_congr (I := fun s => s.remaining ≤ n ∧ ((free || k.taken) = true → s.remaining < n)) ?_ _ _ s
      ⟨hle, hlt⟩
    rintro b s ⟨hle, hlt⟩
    refine ⟨ih b s.kinds rfl hle (by simpa using hlt), ?_⟩
    refine ((hturn b s.kinds).runs hg rfl).mono ?_ fun _ _ _ => trivial
    rintro step t ⟨ts, l, hst, -⟩
    have hremaining := hst.remaining
    exact ⟨by omega, fun hcall => by have := hlt hcall; omega⟩

/-- One more level of nesting is enough for one more event. -/
theorem Grammar.AgreeBelow.nest (h : g.AgreeBelow n g') (hg : g.Consumes) : g.nest.AgreeBelow (n + 1) g'.nest := by
  have heq {α : Type} {p p' : Parser α} {P : α → Pace → Prop}
      (hp : ∀ kinds, Steady g g' false ⟨false, kinds⟩ p p' P) (s : State) (hs : s.remaining < n + 1) : p s = p' s :=
    (hp s.kinds).eq hg h rfl (Nat.le_of_lt_succ hs) nofun
  exact ⟨heq fun _ => steady_typeExpr, fun precedence => heq fun _ => steady_binaryExpr precedence,
    heq fun _ => steady_unaryExpr⟩

/-- A depth is enough where fewer events are left. -/
theorem Grammar.agreeBelow_nestOver (beyond : Grammar) (n : Nat) : (ofDepth n).AgreeBelow n (nestOver beyond n) := by
  induction n with
  | zero => exact ⟨nofun, nofun, nofun⟩
  | succ n ih => exact ih.nest (consumes_ofDepth n)

/-- Any two depths that are enough are the same. -/
theorem Grammar.agreeBelow_ofDepth {m n : Nat} (h : n ≤ m) : (ofDepth n).AgreeBelow n (ofDepth m) := by
  have hover (k : Nat) : ofDepth (n + k) = nestOver (ofDepth k) n := by
    induction n with
    | zero => rw [Nat.zero_add, nestOver]
    | succ n ih => rw [nestOver, ← ih (Nat.le_of_succ_le h), Nat.succ_add]; rfl
  obtain ⟨k, rfl⟩ := Nat.exists_eq_add_of_le h
  exact hover k ▸ agreeBelow_nestOver (ofDepth k) n

/-! ## Source files -/

theorem wholeFile_eq (hg : g.Consumes) {s : State} (hgg : g.AgreeBelow n g') (hs : s.remaining < n) :
    wholeFile g s = wholeFile g' s := by
  have hclause : Steady g g' false ⟨false, s.kinds⟩ packageClause packageClause fun _ l => l.taken = true :=
    steady_packageClause
  refine bind_eq_bind rfl fun clause t hres => ?_
  obtain ⟨ts, l, hst, hl, -⟩ := (hclause.runs hg rfl).of_ok hres
  have hremaining := hst.remaining
  have hdeclarations : Steady g g' true l (declarations g clause) (declarations g' clause) fun _ _ => True :=
    steady_declarations clause
  exact bind_eq_bind (hdeclarations.eq hg hgg hl.symm (by omega) fun _ => by omega) fun _ _ _ => rfl

theorem withGrammar_eq {p : Grammar → Parser α} (s : State) (h : p (Grammar.ofDepth (s.remaining + 1)) s = p g s) :
    withGrammar p s = p g s := h

end Parser

open StructPadding.Parser in
/-- Parsing ends for every source, and takes each token at most once. The result is the same whatever grammar would be
    used beyond the depth of nesting that there are tokens for, so that recursion is entered behind a token each time.
    Of the loops, every turn takes a token if another one follows, none follows at the end of the file, and it makes
    no difference what would be done beyond as many turns as there are tokens. -/
theorem parse_ends (source : String) :
    let s := State.ofSource source
    (∀ beyond, wholeFile (Grammar.nestOver beyond (s.remaining + 1)) s = sourceFile s) ∧
      Ends sourceFile s (fun _ t => ∃ ts, s.Takes ts t) (fun _ t => t.stream.events.Sublist s.stream.events) ∧
      ∀ depth {β : Type} (turn : β → Parser (ForInStep β)), IsLoop (Grammar.ofDepth depth) turn → ∀ b t,
        Ends (turn b) t
          (fun step u => ∃ ts, t.Takes ts u ∧ ∀ c, step = .yield c → ts ≠ [] ∧ t.stream.events ≠ [])
          (fun _ u => u.stream.events.Sublist t.stream.events) ∧
        ∀ beyond, turnsOver beyond turn (t.remaining + 1) b t = repeating b turn t := by
  intro s
  refine ⟨fun beyond => ?_, (ends_sourceFile_takes s).mono (fun _ _ h => h) fun _ _ h => h.events, ?_⟩
  · refine (withGrammar_eq s ?_).symm
    exact wholeFile_eq (Grammar.consumes_ofDepth _) (Grammar.agreeBelow_nestOver beyond _) (Nat.lt_succ_self _)
  · intro depth β turn hloop b t
    have hadvances := hloop.advances (Grammar.consumes_ofDepth depth)
    refine ⟨(hadvances b t).mono ?_ fun _ _ h => h.events, fun beyond => ?_⟩
    · rintro step u ⟨ts, htu, hts⟩
      refine ⟨ts, htu, fun c hc => ⟨hts c hc, fun hnil => hts c hc ?_⟩⟩
      have hevents := htu.events
      rw [hnil] at hevents
      exact List.map_eq_nil_iff.1 (List.append_eq_nil_iff.1 hevents.symm).1
    · exact turnsOver_eq_repeating hadvances beyond b t

/-- A function with its closing bracket missing. -/
def unclosedSource : String := "package p\nfunc f() \x7b\n\tg("

theorem problem_unclosedSource : error? (SourceFile.parse unclosedSource) = some ⟨.unexpectedEnd, .point 24⟩ := by
  decide +kernel

open StructPadding.Parser in
theorem parse_ends_unclosed :
    SourceFile.parse unclosedSource = .error ⟨.unexpectedEnd, .point 24⟩ ∧
      IsLoop (Grammar.ofDepth 2) (skipGroup.turn (Grammar.ofDepth 2)) ∧
      ∀ b beyond, turnsOver beyond (skipGroup.turn (Grammar.ofDepth 2))
          ((State.ofSource unclosedSource).remaining + 1) b (.ofSource unclosedSource) =
        repeating b (skipGroup.turn (Grammar.ofDepth 2)) (.ofSource unclosedSource) :=
  ⟨error?_eq_some_iff.1 problem_unclosedSource, .skipGroup, fun b =>
    ((parse_ends unclosedSource).2.2 2 _ .skipGroup b (.ofSource unclosedSource)).2⟩

end StructPadding
