-- SUMMARY: The lexemes of a source one behind the other, and the tokens they become where all of them are well formed.
import StructPadding.Proofs.Source.Lines
import StructPadding.Proofs.Token.Class
import StructPadding.Token.Stream

/-!
# Tiling

Lexemes tile a source: each is the longest match in front of what is left, and begins where the one before it ends. The
tokens of a source that has no lexical problem follow from its lexemes one by one; what has to be known of the lexemes
before is whether the last token ends a statement.
-/

namespace StructPadding

namespace Token

/-! ## Lexemes -/

/-- Whether lexemes are those of a text that begins at a byte. -/
inductive Tiles : Nat → List Char → List Lexeme → Prop
  | nil {offset : Nat} : Tiles offset [] []
  | cons {offset : Nat} {u v : List Char} {category : Category} {ls : List Lexeme} (hu : u ≠ [])
      (hfirst : Lexeme.first (u ++ v) = (category, u.length)) (hrest : Tiles (offset + Line.byteLength u) v ls) :
      Tiles offset (u ++ v) (⟨category, .ofList u, ⟨offset, offset + Line.byteLength u⟩⟩ :: ls)

namespace Lexeme

theorem scanFrom_append (offset : Nat) (u v : List Char) :
    scanFrom offset u.length (u ++ v) = scanFrom (offset + Line.byteLength u) 0 v := by
  induction u generalizing offset with
  | nil => rfl
  | cons c u ih => exact (ih (offset + c.utf8Size)).trans (by rw [Line.byteLength_cons, Nat.add_assoc])

/-- Scanning takes one lexeme and goes on behind it. -/
theorem scanFrom_of_first {offset : Nat} {u v : List Char} {category : Category} (hu : u ≠ [])
    (hfirst : first (u ++ v) = (category, u.length)) :
    scanFrom offset 0 (u ++ v) = ⟨category, .ofList u, ⟨offset, offset + Line.byteLength u⟩⟩ ::
      scanFrom (offset + Line.byteLength u) 0 v := by
  obtain ⟨c, u, rfl⟩ := List.exists_cons_of_ne_nil hu
  have hbehind := scanFrom_append (offset + c.utf8Size) u v
  rw [List.cons_append, scanFrom, ← List.cons_append]
  simp only [hfirst, List.take_left, utf8ByteSize_ofList]
  rw [List.length_cons, Nat.add_sub_cancel, hbehind, Line.byteLength_cons, Nat.add_assoc]

end Lexeme

theorem tiles_scanFrom (offset : Nat) (cs : List Char) : Tiles offset cs (Lexeme.scanFrom offset 0 cs) := by
  by_cases hcs : cs = []
  · rw [hcs, Lexeme.scanFrom_nil]
    exact .nil
  · obtain ⟨u, v, happend, hu, hlength⟩ := Lexeme.exists_append_of_ne_nil hcs
    have hfirst : Lexeme.first (u ++ v) = ((Lexeme.first (u ++ v)).1, u.length) := by rw [hlength, happend]
    have hrest := tiles_scanFrom (offset + Line.byteLength u) v
    rw [happend, Lexeme.scanFrom_of_first hu hfirst]
    exact .cons hu hfirst hrest
termination_by cs.length
decreasing_by
  have := List.length_pos_iff.2 hu
  rw [happend, List.length_append]
  omega

theorem Tiles.scanFrom_eq {offset : Nat} {cs : List Char} {ls : List Lexeme} (h : Tiles offset cs ls) :
    Lexeme.scanFrom offset 0 cs = ls := by
  induction h with
  | nil => exact Lexeme.scanFrom_nil ..
  | cons hu hfirst _ ih => rw [Lexeme.scanFrom_of_first hu hfirst, ih]

/-- Every lexeme takes up room. -/
theorem Tiles.start_lt_stop {offset : Nat} {cs : List Char} {ls : List Lexeme} (h : Tiles offset cs ls) :
    ∀ l ∈ ls, l.span.start < l.span.stop := by
  induction h with
  | nil => exact nofun
  | @cons offset u v category ls hu _ _ ih =>
    refine List.forall_mem_cons.2 ⟨?_, ih⟩
    obtain ⟨c, cs, rfl⟩ := List.exists_cons_of_ne_nil hu
    have hc := c.utf8Size_pos
    simp only [Line.byteLength_cons]
    omega

theorem tiles_scan (source : String) : Tiles 0 source.toList (Lexeme.scan source) := tiles_scanFrom 0 source.toList

/-! ## Tokens -/

/-- Whether a class makes no token: blanks, newlines and comments. -/
def Category.isFiller : Category → Bool
  | .newline | .blockComment | .blank => true
  | _ => false

/-- Whether lexemes without a problem become tokens; `ends` says whether the token before them ends a statement. -/
inductive Emits (length : Nat) : Bool → List Lexeme → List Token → Prop
  | done : Emits length false [] []
  | atEnd : Emits length true [] [⟨.symbol .semi, .point length⟩]
  | token {ends : Bool} {l : Lexeme} {kind : Kind} {ls : List Lexeme} {ts : List Token}
      (hkind : l.category.kind? l.text = some kind) (hrest : Emits length kind.endsStatement ls ts) :
      Emits length ends (l :: ls) (⟨kind, l.span⟩ :: ts)
  | lineBreak {l : Lexeme} {ls : List Lexeme} {ts : List Token} (hfiller : l.category.isFiller = true)
      (hbreak : l.breaksLine = true) (hrest : Emits length false ls ts) :
      Emits length true (l :: ls) (⟨.symbol .semi, l.span⟩ :: ts)
  | skip {ends : Bool} {l : Lexeme} {ls : List Lexeme} {ts : List Token} (hfiller : l.category.isFiller = true)
      (hbreak : (ends && l.breaksLine) = false) (hrest : Emits length ends ls ts) : Emits length ends (l :: ls) ts

theorem emits_iff {length : Nat} {ends : Bool} {ls : List Lexeme} {ts : List Token} :
    Emits length ends ls ts ↔ Event.ofLexemes length ends ls = ts.map .ok := by
  constructor
  · intro h
    induction h with
    | done => rfl
    | atEnd => rfl
    | token hkind _ ih => simp [Event.ofLexemes, hkind, ih]
    | @lineBreak l _ _ hfiller hbreak _ ih =>
      obtain ⟨category, text, span⟩ := l
      cases category <;> simp_all [Event.ofLexemes, Category.kind?, Category.isFiller]
    | @skip ends l _ _ hfiller hbreak _ ih =>
      obtain ⟨category, text, span⟩ := l
      cases category <;> simp_all [Event.ofLexemes, Category.kind?, Category.isFiller]
  · intro h
    induction ls generalizing ends ts with
    | nil =>
      cases ends with
      | false =>
        obtain rfl : ts = [] := by simpa [Event.ofLexemes] using h.symm
        exact .done
      | true =>
        obtain ⟨t, rest, rfl, ht, hrest⟩ := List.map_eq_cons_iff.1 h.symm
        obtain rfl := List.map_eq_nil_iff.1 hrest
        cases ht
        exact .atEnd
    | cons l ls ih =>
      simp only [Event.ofLexemes] at h
      split at h
      · next kind hkind =>
        obtain ⟨t, rest, rfl, ht, hrest⟩ := List.map_eq_cons_iff.1 h.symm
        cases ht
        exact .token hkind (ih hrest.symm)
      · next hkind =>
        split at h
        · obtain ⟨t, rest, rfl, ht, hrest⟩ := List.map_eq_cons_iff.1 h.symm
          cases ht
        · obtain ⟨t, rest, rfl, ht, hrest⟩ := List.map_eq_cons_iff.1 h.symm
          cases ht
        · next hunclosed hstray =>
          have hfiller : l.category.isFiller = true := by
            cases hcategory : l.category <;> simp_all [Category.kind?, Category.isFiller]
          split at h
          · next hbreak =>
            obtain ⟨rfl, hbreak⟩ := (Bool.and_eq_true_iff.1 hbreak)
            obtain ⟨t, rest, rfl, ht, hrest⟩ := List.map_eq_cons_iff.1 h.symm
            cases ht
            exact .lineBreak hfiller hbreak (ih hrest.symm)
          · next hbreak => exact .skip hfiller (Bool.not_eq_true _ ▸ hbreak) (ih h)

theorem mapM_id_eq_ok_iff {ε α : Type} {es : List (Except ε α)} {as : List α} :
    es.mapM id = .ok as ↔ es = as.map .ok := by
  induction es generalizing as with
  | nil => cases as <;> simp [pure, Except.pure]
  | cons e es ih =>
    rw [List.mapM_cons]
    cases e with
    | error p => cases as <;> simp [bind, Except.bind]
    | ok a =>
      cases hes : es.mapM id with
      | error p =>
        have hne (as : List α) : es ≠ as.map .ok := fun h => by cases (ih.2 h).symm.trans hes
        cases as <;> simp [bind, Except.bind, hne]
      | ok bs =>
        obtain rfl := ih.1 hes
        cases as <;> simp [bind, Except.bind, pure, Except.pure, List.map_inj_right]

theorem tokenize_of_events {source : String} {ts : List Token} (h : (Stream.ofSource source).events = ts.map .ok) :
    tokenize source = .ok (ts ++ [(Stream.ofSource source).eof]) := by
  simp only [tokenize, Stream.tokens, mapM_id_eq_ok_iff.2 h]
  rfl

/-- The tokens of a source are what its lexemes become, and the end of the file. -/
theorem tokenize_eq_ok_iff {source : String} {ts : List Token} :
    tokenize source = .ok ts ↔ ∃ body, Emits source.utf8ByteSize false (Lexeme.scan source) body ∧
      ts = body ++ [⟨.eof, .point source.utf8ByteSize⟩] := by
  constructor
  · intro h
    cases hevents : (Stream.ofSource source).events.mapM id with
    | error p =>
      simp only [tokenize, Stream.tokens, hevents] at h
      cases h
    | ok body =>
      have hbody := mapM_id_eq_ok_iff.1 hevents
      refine ⟨body, emits_iff.2 hbody, ?_⟩
      exact Except.ok.inj (h.symm.trans (tokenize_of_events hbody))
  · rintro ⟨body, hbody, rfl⟩
    exact tokenize_of_events (emits_iff.1 hbody)

/-- A source in which a comment ends a line, a literal goes over one, and a statement ends at the end. -/
def mixedSource : String := "a /* é\n*/ // b\n+ `\n` /=.5e1;return"

def mixedTokens : List Token :=
  [⟨.identifier "a", ⟨0, 1⟩⟩, ⟨.symbol .semi, ⟨2, 10⟩⟩, ⟨.symbol .plus, ⟨16, 17⟩⟩, ⟨.literal .string "`\n`", ⟨18, 21⟩⟩,
   ⟨.symbol .slashEq, ⟨22, 24⟩⟩, ⟨.literal .float ".5e1", ⟨24, 28⟩⟩, ⟨.symbol .semi, ⟨28, 29⟩⟩,
   ⟨.keyword .return_, ⟨29, 35⟩⟩, ⟨.symbol .semi, ⟨35, 35⟩⟩, ⟨.eof, ⟨35, 35⟩⟩]

theorem tokenize_mixedSource : tokenize mixedSource = .ok mixedTokens := rfl

end Token

end StructPadding
