-- SUMMARY: The texts of block comments, and that a comment ends at the first closing mark behind its opening mark.
import StructPadding.Proofs.Token.Munch

/-!
# Closing marks

A block comment begins with an opening mark and goes on to the first closing mark behind it, whatever stands between the
two and whatever stands behind. The two marks do not share a star. What is scanned as a comment is just that: no other
pattern has a text that begins with an opening mark and goes on over a closing mark.
-/

namespace StructPadding.Token

open Regex (Matches)

/-! ## Places of marks -/

/-- Whether a closing mark of a comment stands at a place in a text. -/
def ClosesAt (w : List Char) (i : Nat) : Prop := ['*', '/'] <+: w.drop i

/-- Whether a text begins with an opening mark, and a place is that of the first closing mark behind it. -/
structure IsClosedAt (w : List Char) (i : Nat) : Prop where
  opens : ['/', '*'] <+: w
  behind : 2 ≤ i
  closes : ClosesAt w i
  first : ∀ j, 2 ≤ j → j < i → ¬ ClosesAt w j

theorem IsClosedAt.unique {w : List Char} {i j : Nat} (hi : IsClosedAt w i) (hj : IsClosedAt w j) : i = j := by
  refine Nat.le_antisymm (Nat.le_of_not_lt fun hlt => ?_) (Nat.le_of_not_lt fun hlt => ?_)
  · exact hi.first j hj.behind hlt hj.closes
  · exact hj.first i hi.behind hlt hi.closes

theorem closesAt_iff {w : List Char} {i : Nat} : ClosesAt w i ↔ w[i]? = some '*' ∧ w[i + 1]? = some '/' := by
  have hstar : w[i]? = (w.drop i)[0]? := by simp
  have hslash : w[i + 1]? = (w.drop i)[1]? := by simp
  rw [ClosesAt, hstar, hslash]
  rcases w.drop i with _ | ⟨c, _ | ⟨d, rest⟩⟩
  · simp
  · simp
  · simpa using and_congr eq_comm eq_comm

theorem hasNoClose_iff {w : List Char} : HasNoClose w ↔ ∀ i, ¬ ClosesAt w i := by
  simp only [HasNoClose, List.isChain_iff_getElem, closesAt_iff, List.getElem?_eq_some_iff]
  constructor
  · rintro h i ⟨⟨_, hstar⟩, ⟨hi, hslash⟩⟩
    exact h i hi ⟨hstar, hslash⟩
  · rintro h i hi ⟨hstar, hslash⟩
    exact h i ⟨⟨Nat.lt_of_succ_lt hi, hstar⟩, ⟨hi, hslash⟩⟩

/-- A comment is a text that ends with the first closing mark, also in front of another text. -/
theorem isBlockComment_iff {u : List Char} (v : List Char) :
    IsBlockComment u ↔ ∃ i, u.length = i + 2 ∧ IsClosedAt (u ++ v) i := by
  constructor
  · rintro ⟨body, rfl, hbody⟩
    refine ⟨body.length + 2, by simp, ⟨by simp, by omega, ?_, fun j hj hlt hclose => ?_⟩⟩
    · simp [closesAt_iff]
    · obtain ⟨j, rfl⟩ := Nat.exists_eq_add_of_le' hj
      refine hasNoClose_iff.1 hbody j ?_
      rw [closesAt_iff] at hclose ⊢
      grind
  · rintro ⟨i, hlength, h⟩
    obtain ⟨i, rfl⟩ := Nat.exists_eq_add_of_le' h.behind
    -- The length leaves room for the two marks one behind the other.
    obtain ⟨c, u, rfl⟩ := List.exists_cons_of_length_eq_add_one hlength
    obtain ⟨d, u, rfl⟩ := List.exists_cons_of_length_eq_add_one (Nat.succ.inj hlength)
    have hlength : u.length = i + 2 := Nat.succ.inj (Nat.succ.inj hlength)
    obtain ⟨e, f, hends⟩ := List.length_eq_two.1 (show (u.drop i).length = 2 by simp [hlength])
    obtain ⟨body, rfl, hbody⟩ : ∃ body, u = body ++ [e, f] ∧ body.length = i :=
      ⟨u.take i, by rw [← hends, List.take_append_drop], by simp [hlength]⟩
    have hopen : c = '/' ∧ d = '*' := by simpa [eq_comm] using h.opens
    have hclose : e = '*' ∧ f = '/' := by simpa [closesAt_iff, ← hbody] using h.closes
    obtain ⟨⟨rfl, rfl⟩, ⟨rfl, rfl⟩⟩ := And.intro hopen hclose
    refine ⟨body, rfl, hasNoClose_iff.2 fun j hmark => ?_⟩
    have hlt : j < i := by
      have hslash := (closesAt_iff.1 hmark).2
      grind
    refine h.first (j + 2) (by omega) (by omega) (closesAt_iff.2 ?_)
    rw [closesAt_iff] at hmark
    grind

/-- A text is a comment exactly if it begins with an opening mark and ends with a closing mark, and no closing mark
    stands between the two. -/
theorem isBlockComment_iff_marks {w : List Char} :
    IsBlockComment w ↔ ['/', '*'] <+: w ∧ 4 ≤ w.length ∧ ['*', '/'] <:+ w ∧
      ∀ i, 2 ≤ i → i < w.length - 2 → ¬ ['*', '/'] <+: w.drop i := by
  rw [isBlockComment_iff []]
  constructor
  · rintro ⟨i, hlength, h⟩
    rw [List.append_nil] at h
    have hbehind := h.behind
    have hend : w.drop i = ['*', '/'] := (h.closes.eq_of_length (by simp [hlength])).symm
    refine ⟨h.opens, by omega, hend ▸ List.drop_suffix i w, fun j hj hlt => h.first j hj (by omega)⟩
  · rintro ⟨hopens, hlength, hsuffix, hfirst⟩
    have hend : w.drop (w.length - 2) = ['*', '/'] := (List.suffix_iff_eq_drop.1 hsuffix).symm
    refine ⟨w.length - 2, by omega, ?_, by omega, ?_, ?_⟩
    · simpa using hopens
    · simp [ClosesAt, hend]
    · simpa [ClosesAt] using hfirst

/-! ## Comments in front of other text -/

namespace Pattern

/-- A text that begins with an opening mark is a comment, closed or open: no other pattern has it. -/
theorem comment_cases {category : Category} {w : List Char} (h : Matches category.pattern ('/' :: '*' :: w)) :
    category = .blockComment ∨ category = .unclosed ∧ Matches openBlockComment ('/' :: '*' :: w) := by
  have htoken {kind : Kind} (hkind : category.kind? "" = some kind) : False := by
    rcases token_cases hkind h with ⟨hc, -⟩ | ⟨hc, -⟩ | ⟨-, hw⟩ | hc
    · exact absurd hc (by decide)
    · exact absurd hc (by decide)
    · simp at hw
    · exact hc (by decide)
  cases category with
  | keyword | symbol | identifier | literal => exact (htoken rfl).elim
  | newline => simp [Category.pattern] at h
  | blockComment => exact .inl rfl
  | blank =>
    rcases Regex.matches_or_iff.1 h with h | h
    · exact absurd (forall_mem_of_matches_blanks h '/' (List.mem_cons_self ..)) (by decide)
    · exact absurd (eq_of_begins begins_lineComment h).2 (by simp)
  | unclosed =>
    simp only [Category.pattern, Regex.matches_or_iff] at h
    rcases h with ((h | h) | h) | h
    · exact absurd (eq_of_begins begins_openString h).1 (by decide)
    · exact absurd (eq_of_begins begins_openRawString h).1 (by decide)
    · exact absurd (eq_of_begins begins_openRune h).1 (by decide)
    · exact .inr ⟨rfl, h⟩
  | stray => exact absurd h Regex.not_matches_nothing

end Pattern

/-- In front of any text, a comment is what maximal munch cuts off. -/
theorem munch_of_isBlockComment {u : List Char} (h : IsBlockComment u) (v : List Char) : Munch .blockComment u v := by
  obtain ⟨i, hlength, hclosed⟩ := (isBlockComment_iff v).1 h
  have hfits := matches_blockComment_iff.2 h
  obtain ⟨body, hu, -⟩ := h
  refine ⟨by simp [hu], hfits, fun {other w} hw hother => ?_, fun {other} hother => ?_⟩
  · rcases prefix_append_cases hw with hle | ⟨x, -, -, rfl⟩
    · exact hle
    · rcases Pattern.comment_cases (hu ▸ hother) with rfl | ⟨rfl, hopen⟩
      · obtain ⟨rest, hrest⟩ := hw
        obtain ⟨j, hj, hclosed'⟩ := (isBlockComment_iff rest).1 (isBlockComment_of_matches hother)
        obtain rfl := hclosed.unique (hrest ▸ hclosed')
        exact Nat.le_of_eq (hj.trans hlength.symm)
      · obtain ⟨_, heq, hnoClose⟩ := Pattern.hasNoClose_of_openBlockComment hopen
        obtain rfl : body ++ ['*', '/'] ++ x = _ := by simpa [hu] using heq
        exact absurd (hasNoClose_iff.1 hnoClose body.length) (by simp [ClosesAt])
  · rcases Pattern.comment_cases (hu ▸ hother) with rfl | ⟨rfl, hopen⟩
    · exact .inl rfl
    · exact absurd (hu ▸ hopen) (Pattern.not_matches_openBlockComment hfits)

/-- A comment is scanned exactly where a text begins with an opening mark and goes on to a closing mark, and goes on to
    the first one. -/
theorem first_eq_blockComment_iff {cs : List Char} {n : Nat} :
    Lexeme.first cs = (.blockComment, n) ↔ ∃ i, n = i + 2 ∧ IsClosedAt cs i := by
  have hcategory : Category.blockComment ≠ .stray := nofun
  constructor
  · intro h
    rcases eq_or_ne cs [] with rfl | hcs
    · cases congrArg Prod.fst h
    · obtain ⟨u, v, rfl, hu, hlength⟩ := Lexeme.exists_append_of_ne_nil hcs
      obtain rfl : u.length = n := hlength.trans (congrArg Prod.snd h)
      have hmunch := (munch_iff_first hcategory hu).2 h
      exact (isBlockComment_iff v).1 (isBlockComment_of_matches hmunch.fits)
  · rintro ⟨i, rfl, h⟩
    have hi : i + 1 < cs.length := (List.getElem?_eq_some_iff.1 (closesAt_iff.1 h.closes).2).1
    have hlength : (cs.take (i + 2)).length = i + 2 := List.length_take_of_le hi
    have hcomment : IsBlockComment (cs.take (i + 2)) :=
      (isBlockComment_iff (cs.drop (i + 2))).2 ⟨i, hlength, by rwa [List.take_append_drop]⟩
    have hmunch := munch_of_isBlockComment hcomment (cs.drop (i + 2))
    have hfirst := (munch_iff_first hcategory hmunch.ne_nil).1 hmunch
    rwa [List.take_append_drop, hlength] at hfirst

/-! ## Comments in a source -/

/-- Every lexeme of a text begins at a place of it, with what is first there. -/
theorem Tiles.exists_first {offset : Nat} {cs : List Char} {ls : List Lexeme} (h : Tiles offset cs ls) {l : Lexeme}
    (hl : l ∈ ls) : ∃ before u v, cs = before ++ (u ++ v) ∧ Lexeme.first (u ++ v) = (l.category, u.length) ∧
      l = Lexeme.ofPiece (offset + Line.byteLength before) l.category u := by
  induction h with
  | nil => cases hl
  | @cons offset u v category ls hu hfirst _ ih =>
    rcases List.mem_cons.1 hl with rfl | hl
    · exact ⟨[], u, v, rfl, hfirst, rfl⟩
    · obtain ⟨before, w, x, rfl, hw, hplace⟩ := ih hl
      refine ⟨u ++ before, w, x, by simp, hw, ?_⟩
      rwa [Line.byteLength_append, ← Nat.add_assoc]

/-- The pattern of block comments has the texts that begin with an opening mark and end with a closing mark, four
    characters or more, with no closing mark between. So scanning takes a comment wherever an opening mark is met that
    is closed, and takes it to the first closing mark behind the opening mark; every comment of a source is such a
    piece. -/
theorem blockComment_exact :
    (∀ w, Matches Pattern.blockComment w ↔ ['/', '*'] <+: w ∧ 4 ≤ w.length ∧ ['*', '/'] <:+ w ∧
      ∀ i, 2 ≤ i → i < w.length - 2 → ¬ ['*', '/'] <+: w.drop i) ∧
    (∀ cs n, Lexeme.first cs = (.blockComment, n) ↔ ∃ i, n = i + 2 ∧ IsClosedAt cs i) ∧
    ∀ source, ∀ l ∈ Lexeme.scan source, l.category = .blockComment → ∃ before cs i,
      source.toList = before ++ cs ∧ IsClosedAt cs i ∧
        l = Lexeme.ofPiece (Line.byteLength before) .blockComment (cs.take (i + 2)) := by
  refine ⟨fun w => matches_blockComment_iff.trans isBlockComment_iff_marks, fun _ _ => first_eq_blockComment_iff, ?_⟩
  intro source l hl hcategory
  obtain ⟨before, u, v, hsource, hfirst, hplace⟩ := (tiles_scan source).exists_first hl
  rw [hcategory] at hfirst hplace
  obtain ⟨i, hlength, hclosed⟩ := first_eq_blockComment_iff.1 hfirst
  refine ⟨before, u ++ v, i, hsource, hclosed, ?_⟩
  rw [← hlength, List.take_left]
  simpa using hplace

/-- A star between two comments, of which the second one begins with what looks like both marks. -/
def starredSource : String := "a/*é**/*/*/ */b"

theorem comments_starredSource :
    (Lexeme.scan starredSource).filter (·.category = .blockComment) =
      [⟨.blockComment, "/*é**/", ⟨1, 8⟩⟩, ⟨.blockComment, "/*/ */", ⟨9, 15⟩⟩] := by decide +kernel

theorem blockComment_exact_starred :
    ⟨.blockComment, "/*/ */", ⟨9, 15⟩⟩ ∈ Lexeme.scan starredSource ∧ ∃ before cs i,
      starredSource.toList = before ++ cs ∧ IsClosedAt cs i ∧ ⟨.blockComment, "/*/ */", ⟨9, 15⟩⟩ =
        Lexeme.ofPiece (Line.byteLength before) .blockComment (cs.take (i + 2)) := by
  have hmem : ⟨.blockComment, "/*/ */", ⟨9, 15⟩⟩ ∈ Lexeme.scan starredSource :=
    List.mem_of_mem_filter (comments_starredSource ▸ List.mem_cons_of_mem _ (List.mem_singleton_self _))
  exact ⟨hmem, blockComment_exact.2.2 starredSource _ hmem rfl⟩

end StructPadding.Token
