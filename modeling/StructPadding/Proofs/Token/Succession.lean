-- SUMMARY: The events of a source follow one another without overlap, up to the end of the source.
import StructPadding.Proofs.Token.Boundary
import StructPadding.Proofs.Token.Tiling

/-!
# Succession

Each event of a stream begins where the one before it ends, or behind that. An inserted semicolon takes the place of the
line break that it is inserted for, or of the end of the source.
-/

namespace StructPadding.Token

namespace Event

/-- Where a token or a problem stands. -/
def span : Event → Span
  | .ok t => t.span
  | .error p => p.span

theorem Within.span {good : Nat → Prop} {e : Event} (h : e.Within good) : e.span.Within good := by
  cases e <;> exact h

/-- Whether events follow one another from a place on, in a source of the given length. -/
def Follow (length : Nat) : Nat → List Event → Prop
  | place, [] => place ≤ length
  | place, e :: es => place ≤ e.span.start ∧ Follow length e.span.stop es

theorem Follow.sooner {length place place' : Nat} {es : List Event} (h : Follow length place es)
    (hle : place' ≤ place) : Follow length place' es := by
  cases es with
  | nil => exact Nat.le_trans hle h
  | cons e es => exact ⟨Nat.le_trans hle h.1, h.2⟩

/-- Whether an event takes up room in its source, if it is no semicolon. -/
def TakesRoom (e : Event) : Prop := e = .ok ⟨.symbol .semi, e.span⟩ ∨ e.span.start < e.span.stop

/-- What lexemes become follows one another as the lexemes do. -/
theorem follow_ofLexemes {length offset place : Nat} {cs : List Char} {ls : List Lexeme} (h : Tiles offset cs ls)
    (hplace : place ≤ offset) (hlength : offset + Line.byteLength cs ≤ length) (ends : Bool) :
    Follow length place (ofLexemes length ends ls) := by
  induction h generalizing place ends with
  | nil =>
    have hend : place ≤ length := by omega
    cases ends with
    | false => exact hend
    | true => exact ⟨hend, Nat.le_refl length⟩
  | @cons offset u v category ls hu _ _ ih =>
    rw [Line.byteLength_append] at hlength
    have hrest : ∀ {place : Nat} (ends : Bool), place ≤ offset + Line.byteLength u →
        Follow length place (ofLexemes length ends ls) := fun ends hplace => ih hplace (by omega) ends
    -- A lexeme becomes one event, which stands where it does, or none.
    have htaken (ends : Bool) {e : Event} (he : e.span = ⟨offset, offset + Line.byteLength u⟩) :
        Follow length place (e :: ofLexemes length ends ls) := by
      rw [Follow, he]
      exact ⟨hplace, hrest ends (Nat.le_refl _)⟩
    simp only [ofLexemes]
    split
    · exact htaken _ rfl
    · split
      · exact htaken _ rfl
      · exact htaken _ rfl
      · split
        · exact htaken _ rfl
        · exact hrest _ (Nat.le_trans hplace (Nat.le_add_right ..))

end Event

namespace Stream

theorem follow_ofSource (source : String) :
    Event.Follow (ofSource source).length 0 (ofSource source).events := by
  have hlength : 0 + Line.byteLength source.toList = source.utf8ByteSize := by
    rw [← utf8ByteSize_ofList, String.ofList_toList, Nat.zero_add]
  exact Event.follow_ofLexemes (tiles_scan source) (Nat.le_refl 0) (Nat.le_of_eq hlength) false

theorem takesRoom_ofSource (source : String) : ∀ e ∈ (ofSource source).events, e.TakesRoom := by
  intro e he
  refine Event.of_mem_ofLexemes (P := Event.TakesRoom) (.inl rfl) (fun l hl => ?_) he
  have hroom := (tiles_scan source).start_lt_stop l hl
  exact ⟨fun _ => .inr hroom, .inr hroom⟩

/-- Where the next event stands; behind the last one, that is the end of the source. -/
def front (s : Stream) : Span :=
  match s.events with
  | [] => .point s.length
  | e :: _ => e.span

/-- The kind of the next token. -/
def frontKind (s : Stream) : Kind :=
  match s.events with
  | .ok t :: _ => t.kind
  | _ => .eof

theorem Within.front {good : Nat → Prop} {s : Stream} (h : s.Within good) : s.front.Within good := by
  unfold Stream.front
  split
  · exact Span.within_point h.length
  · next e es hevents => exact (h.events e (by simp [hevents])).span

theorem le_front_of_follow {s : Stream} {place : Nat} (h : Event.Follow s.length place s.events) :
    place ≤ s.front.start := by
  unfold front
  split
  · next hevents =>
    rw [hevents] at h
    exact h
  · next hevents =>
    rw [hevents] at h
    exact h.1

/-- Looking ahead leaves the stream as it is. -/
theorem ends_peekAt (n : Nat) (s : Stream) : Ends (peekAt n) s (fun _ s' => s' = s) fun _ _ => True := by
  simp only [Ends, peekAt]
  cases firstProblem (n + 1) s.events with
  | some found => trivial
  | none =>
    rcases s.events[n]? with _ | _ | t
    · rfl
    · rfl
    · rfl

theorem ends_peek (s : Stream) :
    Ends peek s (fun t s' => s' = s ∧ t.kind = s.frontKind ∧ t.span = s.front) fun _ _ => True := by
  obtain ⟨events, length⟩ := s
  rcases events with _ | ⟨e | t, es⟩
  · exact ⟨rfl, rfl, rfl⟩
  · trivial
  · cases es with
    | nil => exact ⟨rfl, rfl, rfl⟩
    | cons => exact ⟨rfl, rfl, rfl⟩

/-- Taking the next token leaves what follows it; the end of the source is never taken. -/
theorem ends_next (s : Stream) : Ends next s (fun t s' => t.kind = s.frontKind ∧ t.span = s.front ∧
    (t.kind = .eof ∧ s' = s ∨ ∃ e, s.events = e :: s'.events ∧ s'.length = s.length)) fun _ _ => True := by
  obtain ⟨events, length⟩ := s
  rcases events with _ | ⟨e | t, es⟩
  · exact ⟨rfl, rfl, .inl ⟨rfl, rfl⟩⟩
  · trivial
  · exact ⟨rfl, rfl, .inr ⟨.ok t, rfl, rfl⟩⟩

end Stream

end StructPadding.Token
