-- SUMMARY: What parsers read, repeat and keep is well placed: the laws of the parts all parsers are made of.
import StructPadding.Parse.Basic
import StructPadding.Proofs.Syntax.Within
import StructPadding.Proofs.Token.Boundary

/-!
# Reading

A parser that starts in a well-placed state, of which all events, the last end and the struct literals kept are
well placed, ends in such a state, and its result or its problem is well placed too. This module has the laws
for reading and repeating, which say what is well placed about a result.
-/

namespace StructPadding.Parser

open Token (Kind Stream)

/-- Whether all spans of a state run between given places. -/
structure State.Within (good : Nat → Prop) (s : State) : Prop where
  stream : s.stream.Within good
  lastStop : good s.lastStop
  locals : ∀ l ∈ s.locals, Construct.Within good (.struct l.type)

/-- Whether a parser keeps its state well placed and has a result with `Q`, or a well-placed problem. -/
abbrev Yields {α : Type} (good : Nat → Prop) (p : Parser α) (Q : α → Prop) : Prop :=
  Keeps (State.Within good) p Q fun e => e.span.Within good

variable {good : Nat → Prop} {α β : Type}

/-! ## Tokens -/

theorem yields_read {r : Stream.Reader α} {Q : α → Prop}
    (h : Keeps (Stream.Within good) r Q fun e => e.span.Within good) : Yields good (read r) Q := by
  intro s hs
  have hres := h s.stream hs.stream
  simp only [read]
  cases hr : r s.stream with
  | error e t =>
    rw [hr] at hres
    exact hres
  | ok a t =>
    rw [hr] at hres
    exact ⟨⟨hres.1, hs.lastStop, hs.locals⟩, hres.2⟩

theorem yields_fail {cause : Cause} {span : Span} {Q : α → Prop} (h : span.Within good) :
    Yields good (fail cause span) Q := Keeps.throw h

theorem yields_fail_bind {cause : Cause} {span : Span} {f : α → Parser β} {Q : β → Prop} (h : span.Within good) :
    Yields good (fail cause span >>= f) Q := Keeps.bind (Keeps.throw h) fun _ hfalse => False.elim hfalse

theorem yields_peek : Yields good peek fun t => t.span.Within good := yields_read (Stream.keeps_peekAt 0)

theorem yields_peekKind : Yields good peekKind fun _ => True := yields_peek.bind fun _ _ => Keeps.pure trivial

theorem yields_peekKindAt (n : Nat) : Yields good (peekKindAt n) fun _ => True :=
  (yields_read (Stream.keeps_peekAt n)).bind fun _ _ => Keeps.pure trivial

theorem yields_check (k : Kind) : Yields good (check k) fun _ => True := yields_read (Stream.keeps_check k)

theorem yields_advance : Yields good advance fun t => t.span.Within good := by
  apply (yields_read Stream.keeps_next).bind
  intro t ht
  refine Keeps.ite (fun _ => Keeps.pure ht) fun _ => ?_
  exact (Keeps.modify fun s hs => ⟨hs.stream, ht.stop, hs.locals⟩).bind fun _ _ => Keeps.pure ht

theorem yields_accept (k : Kind) : Yields good (accept k) fun _ => True :=
  (yields_check k).bind fun _ _ =>
    Keeps.ite (fun _ => yields_advance.bind fun _ _ => Keeps.pure trivial) fun _ => Keeps.pure trivial

theorem yields_require (k : Kind) : Yields good (require k) fun _ => True := by
  apply (yields_check k).bind
  intro _ _
  refine Keeps.ite (fun _ => Keeps.pure trivial) fun _ => ?_
  exact yields_peek.bind fun t ht => yields_fail ht

theorem yields_expect (k : Kind) : Yields good (expect k) fun t => t.span.Within good :=
  (yields_require k).bind fun _ _ => yields_advance

theorem yields_name : Yields good name fun n => n.2.Within good := by
  apply yields_advance.bind
  intro t ht
  split
  · exact Keeps.pure ht
  · exact yields_fail ht

theorem yields_identifier : Yields good identifier fun _ => True := yields_name.bind fun _ _ => Keeps.pure trivial

theorem yields_spanFrom {first : Span} (h : first.Within good) : Yields good (spanFrom first) (·.Within good) := by
  refine Keeps.get.bind fun s hs => Keeps.pure ⟨?_, h.start, ?_⟩
  · exact Nat.le_trans h.start_le_stop (Nat.le_max_right ..)
  · rcases Nat.le_total s.lastStop first.stop with hle | hle
    · simpa [Nat.max_eq_right hle] using h.stop
    · simpa [Nat.max_eq_left hle] using hs.lastStop

theorem yields_declarationEnd : Yields good declarationEnd fun _ => True := by
  apply (yields_accept _).bind
  intro _ _
  refine Keeps.ite (fun _ => Keeps.pure trivial) fun _ => ?_
  exact (yields_check _).bind fun _ _ => Keeps.ite (fun _ => Keeps.pure trivial) fun _ => yields_require _

/-! ## Struct literals -/

theorem yields_keep {l : LocalStruct} (h : Construct.Within good (.struct l.type)) :
    Yields good (keep l) fun _ => True := by
  refine Keeps.modify fun s hs => ⟨hs.stream, hs.lastStop, fun k hk => ?_⟩
  rcases List.mem_append.1 hk with hk | hk
  · exact hs.locals k hk
  · obtain rfl := List.mem_singleton.1 hk
    exact h

section

variable {st : StructType}

mutual

theorem part_of_mem_outerStructs : ∀ {t : TypeExpr}, st ∈ t.outerStructs → (Construct.struct st).Part (.type t)
  | .struct lit, h => by
    obtain rfl := List.mem_singleton.1 h
    exact .literal .self
  | .named _ _ args _, h => by
    obtain ⟨a, ha, hpart⟩ := part_of_mem_outerStructsOfAll h
    exact .argument ha hpart
  | .pointer e _, h => .pointer (part_of_mem_outerStructs (t := e) h)
  | .slice e _, h => .slice (part_of_mem_outerStructs (t := e) h)
  | .array _ e _, h => .element (part_of_mem_outerStructs (t := e) h)
  | .chan _ e _, h => .chan (part_of_mem_outerStructs (t := e) h)
  | .map k v _, h => by
    rcases List.mem_append.1 h with h | h
    · exact .key (part_of_mem_outerStructs h)
    · exact .value (part_of_mem_outerStructs h)
  | .func _, h | .interface _, h => absurd h List.not_mem_nil

private theorem part_of_mem_outerStructsOfAll : ∀ {ts : List TypeExpr}, st ∈ outerStructsOfAll ts →
    ∃ t ∈ ts, (Construct.struct st).Part (.type t)
  | [], h => absurd h List.not_mem_nil
  | t :: rest, h => by
    rcases List.mem_append.1 h with h | h
    · exact ⟨t, List.mem_cons_self .., part_of_mem_outerStructs h⟩
    · obtain ⟨u, hu, hpart⟩ := part_of_mem_outerStructsOfAll h
      exact ⟨u, List.mem_cons_of_mem _ hu, hpart⟩

end

end

theorem yields_keepStructs {t : TypeExpr} (h : Construct.Within good (.type t)) :
    Yields good (keepStructs t) fun _ => True := by
  have hstructs : ∀ st ∈ t.outerStructs, Construct.Within good (.struct st) :=
    fun st hst => h.part (part_of_mem_outerStructs hst)
  unfold keepStructs
  generalize t.outerStructs = structs at hstructs
  induction structs with
  | nil => exact Keeps.pure trivial
  | cons st rest ih =>
    have hst := hstructs st (List.mem_cons_self ..)
    exact (yields_keep hst).bind fun _ _ => ih fun u hu => hstructs u (List.mem_cons_of_mem _ hu)

/-! ## Repeating -/

theorem yields_exhausted {Q : α → Prop} : Yields good exhausted Q :=
  fun _ hs => Span.within_point hs.stream.length

/-- What every turn keeps, all turns keep. -/
theorem yields_turns {Q : β → Prop} {turn : β → Parser (ForInStep β)}
    (h : ∀ b, Q b → Yields good (turn b) fun step => Q step.value) (n : Nat) {b : β} (hb : Q b) :
    Yields good (turns turn n b) Q := by
  induction n generalizing b with
  | zero => exact yields_exhausted
  | succ n ih =>
    apply (h b hb).bind
    intro step hstep
    cases step with
    | yield b => exact ih hstep
    | done b => exact Keeps.pure hstep

theorem yields_repeating {Q : β → Prop} {turn : β → Parser (ForInStep β)} {init : β} (hinit : Q init)
    (h : ∀ b, Q b → Yields good (turn b) fun step => Q step.value) : Yields good (repeating init turn) Q :=
  fun s hs => yields_turns h (s.remaining + 1) hinit s hs

section

variable {P : α → Prop}

/-- A list stays one of good entries when a good one is added. -/
theorem forall_mem_concat {as : List α} {a : α} (has : ∀ x ∈ as, P x) (ha : P a) : ∀ x ∈ as ++ [a], P x := by
  intro x hx
  rcases List.mem_append.1 hx with hx | hx
  · exact has x hx
  · obtain rfl := List.mem_singleton.1 hx
    exact ha

theorem yields_entries {close : Kind} {entry : List α → Parser α}
    (h : ∀ done, (∀ a ∈ done, P a) → Yields good (entry done) P) :
    Yields good (entries close entry) fun as => ∀ a ∈ as, P a := by
  refine yields_repeating (fun a ha => absurd ha List.not_mem_nil) fun done hdone => ?_
  apply (yields_check _).bind
  intro _ _
  refine Keeps.ite (fun _ => Keeps.pure hdone) fun _ => ?_
  apply (yields_accept _).bind
  intro _ _
  refine Keeps.ite (fun _ => Keeps.pure hdone) fun _ => ?_
  apply (h done hdone).bind
  intro a ha
  apply (yields_check _).bind
  intro _ _
  have hend : Yields good (pure (.yield (done ++ [a])) : Parser (ForInStep (List α)))
      fun step => ∀ x ∈ step.value, P x := Keeps.pure (forall_mem_concat hdone ha)
  exact Keeps.ite (fun _ => hend) fun _ => (yields_expect _).bind fun _ _ => hend

theorem yields_group {entry : List α → Parser α} (h : ∀ done, (∀ a ∈ done, P a) → Yields good (entry done) P) :
    Yields good (group entry) fun as => ∀ a ∈ as, P a := by
  apply (yields_accept _).bind
  intro _ _
  refine Keeps.ite (fun _ => ?_) fun _ => ?_
  · exact (yields_entries h).bind fun as has => (yields_expect _).bind fun _ _ => Keeps.pure has
  · apply (h [] fun a ha => absurd ha List.not_mem_nil).bind
    intro a ha
    refine Keeps.pure ?_
    simpa using ha

theorem yields_commaSeparated {item : Parser α} (h : Yields good item P) :
    Yields good (commaSeparated item) fun as => ∀ a ∈ as, P a := by
  apply h.bind
  intro first hfirst
  refine yields_repeating (by simpa using hfirst) fun items hitems => ?_
  refine (yields_accept _).bind fun _ _ => Keeps.ite (fun _ => ?_) fun _ => Keeps.pure hitems
  exact h.bind fun a ha => Keeps.pure (forall_mem_concat hitems ha)

end

end StructPadding.Parser
