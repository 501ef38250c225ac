-- SUMMARY: Where semicolons are inserted: behind what ends a statement, at the first line break or at the end.
import StructPadding.Proofs.Token.Tiling

/-!
# Inserted semicolons

A source is a sequence of items, its tokens as they are written, with gaps of blanks, newlines and comments in front,
between and behind them. The tokens of the source are the items, with a semicolon in those gaps that follow the end of a
statement and break the line or end the source.
-/

namespace StructPadding.Token

/-! ## The rule -/

/-- The rule for the gap behind a token: `ends` says whether the token ends a statement, `last` whether no other
    token follows, and `s` is the semicolon that is inserted. -/
structure Inserts (length : Nat) (ends : Bool) (gap : List Lexeme) (last : Bool) (s : Option Token) : Prop where
  isSome_iff : s.isSome ↔ ends = true ∧ ((∃ l ∈ gap, l.breaksLine = true) ∨ last = true)
  /-- The semicolon covers the first line break of the gap, or nothing at the end of the source. -/
  eq_of_mem : ∀ t ∈ s, t = ⟨.symbol .semi, ((gap.find? Lexeme.breaksLine).map (·.span)).getD (.point length)⟩

/-- A token as it is written, and the gap behind it. -/
structure Item where
  lexeme : Lexeme
  kind : Kind
  gap : List Lexeme
  isToken : lexeme.category.kind? lexeme.text = some kind
  isGap : ∀ l ∈ gap, l.category.isFiller = true

namespace Item

def token (i : Item) : Token := ⟨i.kind, i.lexeme.span⟩

def lexemes (i : Item) : List Lexeme := i.lexeme :: i.gap

/-- Whether tokens are those of items with the inserted semicolons. -/
inductive Terminated (length : Nat) : List Item → List Token → Prop
  | nil : Terminated length [] []
  | cons {i : Item} {is : List Item} {s : Option Token} {ts : List Token}
      (hinserts : Inserts length i.kind.endsStatement i.gap is.isEmpty s) (hrest : Terminated length is ts) :
      Terminated length (i :: is) (i.token :: (s.toList ++ ts))

end Item

/-! ## Gaps -/

namespace Inserts

variable {length : Nat} {gap : List Lexeme} {last : Bool} {s : Option Token}

theorem none_iff : Inserts length false gap last s ↔ s = none := by
  constructor
  · intro h
    have hs : ¬ s.isSome := fun hsome => Bool.false_ne_true (h.isSome_iff.1 hsome).1
    simpa using hs
  · rintro rfl
    exact ⟨by simp, nofun⟩

theorem nil_of_some {ends : Bool} : Inserts length ends [] false none := ⟨by simp, nofun⟩

theorem atEnd : Inserts length true [] true (some ⟨.symbol .semi, .point length⟩) :=
  ⟨by simp, fun t ht => (Option.mem_some_iff.1 ht).symm⟩

/-- The first line break makes the semicolon. -/
theorem lineBreak {l : Lexeme} (h : l.breaksLine = true) :
    Inserts length true (l :: gap) last (some ⟨.symbol .semi, l.span⟩) := by
  refine ⟨by simp [h], fun t ht => ?_⟩
  rw [← Option.mem_some_iff.1 ht, List.find?_cons_of_pos h]
  rfl

/-- What does not break the line makes no difference. -/
theorem skip {l : Lexeme} {ends : Bool} (hbreak : (ends && l.breaksLine) = false) (h : Inserts length ends gap last s) :
    Inserts length ends (l :: gap) last s := by
  cases ends with
  | false => exact none_iff.2 (none_iff.1 h)
  | true =>
    have hl : ¬ l.breaksLine = true := by simpa using hbreak
    refine ⟨h.isSome_iff.trans (by simp [hl]), fun t ht => ?_⟩
    rw [List.find?_cons_of_neg hl]
    exact h.eq_of_mem t ht

end Inserts

/-- Lexemes that become tokens are a gap and items, and the tokens are the items with the inserted semicolons. -/
theorem Emits.terminated {length : Nat} {ends : Bool} {ls : List Lexeme} {ts : List Token}
    (h : Emits length ends ls ts) :
    ∃ (lead : List Lexeme) (items : List Item) (s : Option Token) (rest : List Token),
      (∀ l ∈ lead, l.category.isFiller = true) ∧ ls = lead ++ items.flatMap Item.lexemes ∧ ts = s.toList ++ rest ∧
        Inserts length ends lead items.isEmpty s ∧ Item.Terminated length items rest := by
  induction h with
  | done => exact ⟨[], [], none, [], nofun, rfl, rfl, Inserts.none_iff.2 rfl, .nil⟩
  | atEnd => exact ⟨[], [], some _, [], nofun, rfl, rfl, .atEnd, .nil⟩
  | @token ends l kind ls ts hkind _ ih =>
    obtain ⟨lead, items, s, rest, hlead, rfl, rfl, hinserts, hitems⟩ := ih
    refine ⟨[], ⟨l, kind, lead, hkind, hlead⟩ :: items, none, _, nofun, ?_, rfl, .nil_of_some, .cons hinserts hitems⟩
    simp [Item.lexemes]
  | @lineBreak l ls ts hfiller hbreak _ ih =>
    obtain ⟨lead, items, s, rest, hlead, rfl, rfl, hinserts, hitems⟩ := ih
    obtain rfl := Inserts.none_iff.1 hinserts
    exact ⟨l :: lead, items, some _, rest, List.forall_mem_cons.2 ⟨hfiller, hlead⟩, rfl, rfl, .lineBreak hbreak, hitems⟩
  | @skip ends l ls ts hfiller hbreak _ ih =>
    obtain ⟨lead, items, s, rest, hlead, rfl, rfl, hinserts, hitems⟩ := ih
    exact ⟨l :: lead, items, s, rest, List.forall_mem_cons.2 ⟨hfiller, hlead⟩, rfl, rfl, hinserts.skip hbreak, hitems⟩

theorem Item.kind_ne_eof (i : Item) : i.kind ≠ .eof := by
  have h := i.isToken
  intro heof
  rw [heof] at h
  cases hcategory : i.lexeme.category <;> simp [hcategory, Category.kind?] at h

theorem Item.Terminated.kind_ne_eof {length : Nat} {items : List Item} {ts : List Token}
    (h : Terminated length items ts) : ∀ t ∈ ts, t.kind ≠ .eof := by
  induction h with
  | nil => exact nofun
  | @cons i is s ts hinserts _ ih =>
    intro t ht
    rcases List.mem_cons.1 ht with rfl | ht
    · exact i.kind_ne_eof
    · rcases List.mem_append.1 ht with ht | ht
      · rw [hinserts.eq_of_mem t (Option.mem_toList.1 ht)]
        exact nofun
      · exact ih t ht

/-! ## The tokens of a source -/

/-- The tokens of a source are its items in order, with one semicolon inserted in each gap that follows the end of a
    statement and breaks the line or ends the source, and with the end of the file behind them. -/
theorem semicolons_inserted {source : String} {ts : List Token} (h : tokenize source = .ok ts) :
    ∃ (lead : List Lexeme) (items : List Item) (body : List Token),
      (∀ l ∈ lead, l.category.isFiller = true) ∧ Lexeme.scan source = lead ++ items.flatMap Item.lexemes ∧
        Item.Terminated source.utf8ByteSize items body ∧ (∀ t ∈ body, t.kind ≠ .eof) ∧
          ts = body ++ [⟨.eof, .point source.utf8ByteSize⟩] := by
  obtain ⟨body, hemits, rfl⟩ := tokenize_eq_ok_iff.1 h
  obtain ⟨lead, items, s, rest, hlead, hscan, rfl, hinserts, hitems⟩ := hemits.terminated
  obtain rfl := Inserts.none_iff.1 hinserts
  exact ⟨lead, items, rest, hlead, hscan, hitems, hitems.kind_ne_eof, rfl⟩

theorem semicolons_inserted_mixedSource : tokenize mixedSource = .ok mixedTokens ∧
    ∃ (lead : List Lexeme) (items : List Item) (body : List Token),
      (∀ l ∈ lead, l.category.isFiller = true) ∧ Lexeme.scan mixedSource = lead ++ items.flatMap Item.lexemes ∧
        Item.Terminated mixedSource.utf8ByteSize items body ∧ (∀ t ∈ body, t.kind ≠ .eof) ∧
          mixedTokens = body ++ [⟨.eof, .point mixedSource.utf8ByteSize⟩] :=
  ⟨tokenize_mixedSource, semicolons_inserted tokenize_mixedSource⟩

end StructPadding.Token
