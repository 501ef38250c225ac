-- SUMMARY: Tokens and problems of a stream lie between character boundaries of its source.
import StructPadding.Proofs.Outcome
import StructPadding.Proofs.Source.Place
import StructPadding.Token.Stream

/-!
# Boundaries

The spans of lexemes, and of the events made from them, begin and end at character boundaries of the source.
Reading a stream keeps this of the events that are left, and hands out nothing else. The laws of reading are
stated for any places that the spans of a stream run between.
-/

namespace StructPadding

namespace Token

/-! ## Lexemes -/

/-- Lexemes that are scanned behind a text lie in the text with what is scanned. -/
theorem Lexeme.within_of_mem_scanFrom {l : Lexeme} {cs : List Char} {before : String} {skip : Nat}
    (h : l ∈ scanFrom before.utf8ByteSize skip cs) : l.span.Within (IsBoundary (before ++ String.ofList cs)) := by
  induction cs generalizing before skip with
  | nil =>
    rw [scanFrom_nil] at h
    exact absurd h List.not_mem_nil
  | cons c cs ih =>
    have hsplit : before ++ String.ofList (c :: cs) = (before ++ String.singleton c) ++ String.ofList cs := by
      rw [String.append_assoc, String.singleton_eq_ofList, ← String.ofList_append]
      rfl
    have hsize : before.utf8ByteSize + c.utf8Size = (before ++ String.singleton c).utf8ByteSize := by
      rw [String.utf8ByteSize_append, String.utf8ByteSize_singleton]
    cases skip with
    | succ skip =>
      rw [scanFrom, hsize] at h
      rw [hsplit]
      exact ih h
    | zero =>
      rw [scanFrom] at h
      rcases List.mem_cons.1 h with rfl | h
      · have htake : before ++ String.ofList (c :: cs) =
            (before ++ String.ofList ((c :: cs).take (first (c :: cs)).2)) ++
              String.ofList ((c :: cs).drop (first (c :: cs)).2) := by
          rw [String.append_assoc, ← String.ofList_append, List.take_append_drop]
        refine ⟨Nat.le_add_right .., isBoundary_append .., ?_⟩
        rw [htake, ← String.utf8ByteSize_append]
        exact isBoundary_append ..
      · rw [hsize] at h
        rw [hsplit]
        exact ih h

theorem Lexeme.within_of_mem_scan {source : String} {l : Lexeme} (h : l ∈ scan source) :
    l.span.Within (IsBoundary source) := by
  have hl : l.span.Within (IsBoundary ("" ++ String.ofList source.toList)) := Lexeme.within_of_mem_scanFrom h
  simpa using hl

/-! ## Events -/

/-- Whether a token or a problem stands between given places. -/
def Event.Within (good : Nat → Prop) : Event → Prop
  | .ok t => t.span.Within good
  | .error p => p.span.Within good

/-- What holds of the semicolon at the end of a source, and of whatever a lexeme becomes, holds of every event. -/
theorem Event.of_mem_ofLexemes {P : Event → Prop} {length : Nat} (hend : P (.ok ⟨.symbol .semi, .point length⟩))
    {ls : List Lexeme} (hls : ∀ l ∈ ls, (∀ kind, P (.ok ⟨kind, l.span⟩)) ∧ P (.error ⟨.unexpectedText l.text, l.span⟩))
    {ends : Bool} {e : Event} (he : e ∈ ofLexemes length ends ls) : P e := by
  induction ls generalizing ends with
  | nil =>
    simp only [ofLexemes] at he
    split at he
    · exact List.mem_singleton.1 he ▸ hend
    · exact absurd he List.not_mem_nil
  | cons l rest ih =>
    obtain ⟨⟨htoken, hproblem⟩, hrest⟩ := List.forall_mem_cons.1 hls
    have htaken {d : Event} (hd : P d) {ends : Bool} (he : e ∈ d :: ofLexemes length ends rest) : P e := by
      rcases List.mem_cons.1 he with rfl | he
      · exact hd
      · exact ih hrest he
    simp only [ofLexemes] at he
    split at he
    · exact htaken (htoken _) he
    · split at he
      · exact htaken hproblem he
      · exact htaken hproblem he
      · split at he
        · exact htaken (htoken _) he
        · exact ih hrest he

theorem Event.within_of_mem_ofLexemes {good : Nat → Prop} {length : Nat} (hlength : good length)
    {ls : List Lexeme} (hls : ∀ l ∈ ls, l.span.Within good) {ends : Bool} {e : Event}
    (he : e ∈ ofLexemes length ends ls) : e.Within good :=
  of_mem_ofLexemes (P := Event.Within good) (Span.within_point hlength)
    (fun l hl => ⟨fun _ => hls l hl, hls l hl⟩) he

/-! ## Streams -/

namespace Stream

/-- Whether the end of a stream and all events left in it are at given places. -/
structure Within (good : Nat → Prop) (s : Stream) : Prop where
  length : good s.length
  events : ∀ e ∈ s.events, e.Within good

theorem within_ofSource (source : String) : (ofSource source).Within (IsBoundary source) where
  length := isBoundary_utf8ByteSize source
  events _ he := Event.within_of_mem_ofLexemes (isBoundary_utf8ByteSize source)
    (fun _ hl => Lexeme.within_of_mem_scan hl) he

variable {good : Nat → Prop}

theorem keeps_next :
    Keeps (Within good) next (fun t => t.span.Within good) fun p => p.span.Within good := by
  intro s hs
  cases hevents : s.events with
  | nil =>
    simp only [next, hevents]
    exact ⟨hs, Span.within_point hs.length⟩
  | cons e rest =>
    have hrest : ∀ d ∈ rest, Event.Within good d := fun d hd => hs.events d (by simp [hevents, hd])
    have he : Event.Within good e := hs.events e (by simp [hevents])
    cases e with
    | ok t =>
      simp only [next, hevents]
      exact ⟨⟨hs.length, hrest⟩, he⟩
    | error p =>
      simp only [next, hevents]
      exact he

theorem within_of_firstProblem {n : Nat} {es rest : List Event} {p : Problem}
    (h : firstProblem n es = some (p, rest)) (hes : ∀ e ∈ es, e.Within good) : p.span.Within good := by
  induction n generalizing es rest with
  | zero => cases es <;> simp [firstProblem] at h
  | succ n ih =>
    cases es with
    | nil => simp [firstProblem] at h
    | cons e es =>
      cases e with
      | error q =>
        obtain ⟨rfl, rfl⟩ := by simpa [firstProblem] using h
        exact hes (.error q) (List.mem_cons_self ..)
      | ok t =>
        simp only [firstProblem, Option.map_eq_some_iff, Prod.exists, Prod.mk.injEq] at h
        obtain ⟨q, left, hleft, rfl, -⟩ := h
        exact ih hleft fun e he => hes e (List.mem_cons_of_mem _ he)

theorem keeps_peekAt (n : Nat) :
    Keeps (Within good) (peekAt n) (fun t => t.span.Within good) fun p => p.span.Within good := by
  intro s hs
  cases hproblem : firstProblem (n + 1) s.events with
  | some found =>
    simp only [peekAt, hproblem]
    exact within_of_firstProblem hproblem hs.events
  | none =>
    simp only [peekAt, hproblem]
    cases hevent : s.events[n]? with
    | none => exact ⟨hs, Span.within_point hs.length⟩
    | some e =>
      cases e with
      | ok t => exact ⟨hs, hs.events (.ok t) (List.mem_of_getElem? hevent)⟩
      | error p => exact ⟨hs, Span.within_point hs.length⟩

theorem keeps_check (k : Kind) :
    Keeps (Within good) (check k) (fun _ => True) fun p => p.span.Within good :=
  (keeps_peekAt 0).bind fun _ _ => Keeps.pure trivial

end Stream

end Token

end StructPadding
