-- SUMMARY: Scanning is maximal munch: what is taken is the longest prefix that a pattern has.
import StructPadding.Proofs.Token.Exclusive
import StructPadding.Proofs.Token.Tiling

/-!
# Maximal munch

Scanning a source takes one piece after the other. Each is the longest prefix of what is left that is in the language
of some pattern, and its class is that of the pattern; where a keyword is an identifier too, it is the keyword. Blanks
and comments are taken in this way as well, and are dropped.
-/

namespace StructPadding.Token

open Regex (Matches)

/-! ## One piece -/

/-- Whether a piece in front of the rest of a text is cut off by maximal munch as one of a class. -/
structure Munch (category : Category) (u v : List Char) : Prop where
  ne_nil : u ≠ []
  fits : Matches category.pattern u
  longest : ∀ {other : Category} {w : List Char}, w <+: u ++ v → Matches other.pattern w → w.length ≤ u.length
  /-- No other pattern has the piece, but that of identifiers where it is a keyword. -/
  only : ∀ {other : Category}, Matches other.pattern u →
    other = category ∨ other = .identifier ∧ ∃ k, category = .keyword k

/-- A prefix of two texts in a row is not longer than the first, or goes on into the second. -/
theorem prefix_append_cases {α : Type} {w u v : List α} (h : w <+: u ++ v) :
    w.length ≤ u.length ∨ ∃ x, x ≠ [] ∧ x <+: v ∧ w = u ++ x := by
  obtain ⟨rest, hrest⟩ := h
  rcases List.append_eq_append_iff.1 hrest with ⟨x, rfl, -⟩ | ⟨x, rfl, rfl⟩
  · exact .inl (by simp)
  · by_cases hx : x = []
    · exact .inl (by simp [hx])
    · exact .inr ⟨x, hx, List.prefix_append x rest, rfl⟩

/-- A lexeme is what maximal munch cuts off. -/
theorem munch_iff_first {category : Category} (hstray : category ≠ .stray) {u v : List Char} (hu : u ≠ []) :
    Munch category u v ↔ Lexeme.first (u ++ v) = (category, u.length) := by
  rw [Lexeme.first_eq_iff hstray hu, classify_eq_some_iff hu]
  constructor
  · intro h
    refine ⟨⟨h.fits, fun _ => h.only⟩, fun w hw hwv => classify_eq_none_iff.2 fun other hother => ?_⟩
    have hle := h.longest ((List.prefix_append_right_inj u).2 hwv) hother
    have hpos := List.length_pos_iff.2 hw
    simp only [List.length_append] at hle
    omega
  · rintro ⟨⟨hfits, honly⟩, hlonger⟩
    refine ⟨hu, hfits, fun {other w} hw hother => ?_, fun hother => honly _ hother⟩
    rcases prefix_append_cases hw with hle | ⟨x, hx, hxv, rfl⟩
    · exact hle
    · exact absurd hother (classify_eq_none_iff.1 (hlonger x hx hxv) other)

/-- A stray character stands where no pattern has a prefix. -/
theorem first_eq_stray_iff {c : Char} {v : List Char} :
    Lexeme.first (c :: v) = (.stray, 1) ↔
      ∀ (category : Category) (w : List Char), w ≠ [] → w <+: c :: v → ¬ Matches category.pattern w := by
  obtain ⟨u, rest, hsplit, hu, hlength⟩ := Lexeme.exists_append_of_ne_nil (List.cons_ne_nil c v)
  constructor
  · intro h category w hw hprefix hmatches
    obtain ⟨category', n, hlongest⟩ : ∃ category' n, Regex.longest Pattern.all (c :: v) = some (category', n) := by
      cases hlongest : Regex.longest Pattern.all (c :: v) with
      | some p => exact ⟨p.1, p.2, rfl⟩
      | none =>
        have hnone := Regex.longest_eq_none_iff.1 hlongest w hprefix
        exact absurd hmatches (classify_eq_none_iff.1 hnone category)
    obtain ⟨x, y, hxy, rfl⟩ := Regex.exists_append_of_longest hlongest
    obtain ⟨hclass, hlonger⟩ := Regex.longest_eq_some_iff.1 (hxy ▸ hlongest)
    rcases prefix_append_cases (hxy ▸ hprefix) with hle | ⟨z, hz, hzy, rfl⟩
    · have hpos : 0 < x.length := Nat.lt_of_lt_of_le (List.length_pos_iff.2 hw) hle
      have hstray : category' = .stray := by
        obtain ⟨n, hn⟩ := Nat.exists_eq_succ_of_ne_zero (Nat.ne_of_gt hpos)
        simp only [Lexeme.first, hlongest, hn] at h
        exact congrArg Prod.fst h
      exact Regex.not_matches_nothing (hstray ▸ matches_of_classify hclass)
    · exact classify_eq_none_iff.1 (hlonger z hz hzy) category hmatches
  · intro h
    unfold Lexeme.first
    split
    · next category n hlongest =>
      obtain ⟨x, y, hxy, hx⟩ := Regex.exists_append_of_longest hlongest
      have hclass := (Regex.longest_eq_some_iff.1 (hx ▸ hxy ▸ hlongest)).1
      have hne : x ≠ [] := List.ne_nil_of_length_pos (hx ▸ Nat.succ_pos n)
      exact absurd (matches_of_classify hclass) (h category x hne (hxy ▸ List.prefix_append x y))
    · rfl

theorem length_of_first_stray {cs : List Char} {n : Nat} (h : Lexeme.first cs = (.stray, n)) : n = 1 := by
  unfold Lexeme.first at h
  split at h
  · next category m hlongest =>
    obtain rfl : category = .stray := congrArg Prod.fst h
    obtain ⟨r, hr, hmatches⟩ := Regex.matches_of_longest hlongest
    exact absurd (matches_pattern_iff.2 ⟨r, hr, hmatches⟩) Regex.not_matches_nothing
  · exact (congrArg Prod.snd h).symm

/-! ## A whole source -/

/-- The lexeme of a piece that begins at a byte. -/
def Lexeme.ofPiece (offset : Nat) (category : Category) (u : List Char) : Lexeme :=
  ⟨category, .ofList u, ⟨offset, offset + Line.byteLength u⟩⟩

/-- Whether scanning a text that begins at a byte meets events. Pieces are cut off by maximal munch; a piece without
    its end is a problem, and so is a character that nothing begins with. `ends` says whether the token before ends a
    statement. -/
inductive Scans (length : Nat) : Nat → Bool → List Char → List Event → Prop
  | done {offset : Nat} : Scans length offset false [] []
  | atEnd {offset : Nat} : Scans length offset true [] [.ok ⟨.symbol .semi, .point length⟩]
  | token {offset : Nat} {ends : Bool} {category : Category} {u v : List Char} {kind : Kind} {es : List Event}
      (hmunch : Munch category u v) (hkind : category.kind? (.ofList u) = some kind)
      (hrest : Scans length (offset + Line.byteLength u) kind.endsStatement v es) :
      Scans length offset ends (u ++ v) (.ok ⟨kind, ⟨offset, offset + Line.byteLength u⟩⟩ :: es)
  | lineBreak {offset : Nat} {category : Category} {u v : List Char} {es : List Event} (hmunch : Munch category u v)
      (hfiller : category.isFiller = true) (hbreak : (Lexeme.ofPiece offset category u).breaksLine = true)
      (hrest : Scans length (offset + Line.byteLength u) false v es) :
      Scans length offset true (u ++ v) (.ok ⟨.symbol .semi, ⟨offset, offset + Line.byteLength u⟩⟩ :: es)
  | skip {offset : Nat} {ends : Bool} {category : Category} {u v : List Char} {es : List Event}
      (hmunch : Munch category u v) (hfiller : category.isFiller = true)
      (hbreak : (ends && (Lexeme.ofPiece offset category u).breaksLine) = false)
      (hrest : Scans length (offset + Line.byteLength u) ends v es) : Scans length offset ends (u ++ v) es
  | unclosed {offset : Nat} {ends : Bool} {u v : List Char} {es : List Event} (hmunch : Munch .unclosed u v)
      (hrest : Scans length (offset + Line.byteLength u) ends v es) :
      Scans length offset ends (u ++ v)
        (.error ⟨.unexpectedText (.ofList u), ⟨offset, offset + Line.byteLength u⟩⟩ :: es)
  | stray {offset : Nat} {ends : Bool} {c : Char} {v : List Char} {es : List Event}
      (hnone : ∀ (category : Category) (w : List Char), w ≠ [] → w <+: c :: v → ¬ Matches category.pattern w)
      (hrest : Scans length (offset + Line.byteLength [c]) ends v es) :
      Scans length offset ends ([c] ++ v)
        (.error ⟨.unexpectedText (.ofList [c]), ⟨offset, offset + Line.byteLength [c]⟩⟩ :: es)

theorem ne_stray_of_isFiller {category : Category} (h : category.isFiller = true) : category ≠ .stray := by
  rintro rfl
  cases h

theorem kind?_of_isFiller {category : Category} (h : category.isFiller = true) (text : String) :
    category.kind? text = none := by
  cases category <;> simp_all [Category.isFiller, Category.kind?]

/-- What becomes of a lexeme that makes no token and is no problem. -/
theorem Event.ofLexemes_of_isFiller {length : Nat} {ends : Bool} {l : Lexeme} {ls : List Lexeme}
    (h : l.category.isFiller = true) :
    ofLexemes length ends (l :: ls) =
      if ends && l.breaksLine then .ok ⟨.symbol .semi, l.span⟩ :: ofLexemes length false ls
      else ofLexemes length ends ls := by
  simp only [ofLexemes, kind?_of_isFiller h]
  split
  · next hcategory => simp [hcategory, Category.isFiller] at h
  · next hcategory => simp [hcategory, Category.isFiller] at h
  · rfl

variable {length offset : Nat} {ends : Bool} {cs : List Char}

/-- What scanning meets is what becomes of the lexemes. -/
theorem Scans.events_eq {es : List Event} (h : Scans length offset ends cs es) :
    es = Event.ofLexemes length ends (Lexeme.scanFrom offset 0 cs) := by
  have hscan {offset : Nat} {category : Category} {u v : List Char} (hstray : category ≠ .stray)
      (hmunch : Munch category u v) : Lexeme.scanFrom offset 0 (u ++ v) =
        Lexeme.ofPiece offset category u :: Lexeme.scanFrom (offset + Line.byteLength u) 0 v :=
    Lexeme.scanFrom_of_first hmunch.ne_nil ((munch_iff_first hstray hmunch.ne_nil).1 hmunch)
  induction h with
  | done | atEnd => rfl
  | token hmunch hkind _ ih =>
    rw [hscan (ne_stray_of_kind? hkind) hmunch, ih]
    simp only [Lexeme.ofPiece, Event.ofLexemes, hkind]
  | lineBreak hmunch hfiller hbreak _ ih =>
    rw [hscan (ne_stray_of_isFiller hfiller) hmunch, ih, Event.ofLexemes_of_isFiller hfiller, if_pos (by simpa)]
    rfl
  | skip hmunch hfiller hbreak _ ih =>
    rw [hscan (ne_stray_of_isFiller hfiller) hmunch, ih, Event.ofLexemes_of_isFiller hfiller,
      if_neg (Bool.eq_false_iff.1 hbreak)]
  | unclosed hmunch _ ih =>
    rw [hscan (by decide) hmunch, ih]
    rfl
  | stray hnone _ ih =>
    rw [Lexeme.scanFrom_of_first (List.cons_ne_nil _ []) (first_eq_stray_iff.2 hnone), ih]
    rfl

/-- What becomes of lexemes that tile a text is what scanning it meets. -/
theorem Tiles.scans {ls : List Lexeme} (h : Tiles offset cs ls) (ends : Bool) :
    Scans length offset ends cs (Event.ofLexemes length ends ls) := by
  induction h generalizing ends with
  | nil =>
    cases ends with
    | true => exact .atEnd
    | false => exact .done
  | @cons offset u v category ls hu hfirst _ ih =>
    have hmunch (hstray : category ≠ .stray) : Munch category u v := (munch_iff_first hstray hu).2 hfirst
    cases hkind : category.kind? (.ofList u) with
    | some kind =>
      simp only [Event.ofLexemes, hkind]
      exact .token (hmunch (ne_stray_of_kind? hkind)) hkind (ih _)
    | none =>
      by_cases hfiller : category.isFiller = true
      · have hpiece := hmunch (ne_stray_of_isFiller hfiller)
        rw [Event.ofLexemes_of_isFiller hfiller]
        split
        · next hbreak =>
          obtain ⟨rfl, hbreak⟩ := Bool.and_eq_true_iff.1 hbreak
          exact .lineBreak hpiece hfiller hbreak (ih false)
        · next hbreak => exact .skip hpiece hfiller (Bool.eq_false_iff.2 hbreak) (ih ends)
      · cases category with
        | unclosed => exact .unclosed (hmunch (by decide)) (ih ends)
        | stray =>
          obtain ⟨c, rfl⟩ := List.length_eq_one_iff.1 (length_of_first_stray hfirst)
          exact .stray (first_eq_stray_iff.1 hfirst) (ih ends)
        | newline | blockComment | blank => exact absurd rfl hfiller
        | keyword | symbol | identifier | literal => cases hkind

/-- The events of a source are the ones that scanning by maximal munch meets, and no others. -/
theorem scans_iff {source : String} {es : List Event} :
    Scans source.utf8ByteSize 0 false source.toList es ↔ es = (Stream.ofSource source).events := by
  constructor
  · intro h
    exact h.events_eq
  · rintro rfl
    exact (tiles_scan source).scans false

end StructPadding.Token
