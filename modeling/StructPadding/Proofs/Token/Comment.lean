-- SUMMARY: A block comment ends at the first closing mark behind its opening mark.
import Mathlib.Data.List.Chain
import StructPadding.Proofs.Token.Class

/-!
# Block comments

The pattern of a block comment reads stretches that end in stars, none of which is followed by a slash until the last.
So no closing mark stands in a comment but at its end.
-/

namespace StructPadding.Token

open Regex (Matches)

/-- Whether no closing mark of a comment stands in a text. -/
def HasNoClose (w : List Char) : Prop := w.IsChain fun c d => ¬ (c = '*' ∧ d = '/')

/-- Whether a text is a comment that is closed by the first closing mark behind its opening mark. -/
def IsBlockComment (w : List Char) : Prop :=
  ∃ body, w = '/' :: '*' :: (body ++ ['*', '/']) ∧ HasNoClose (body ++ ['*'])

/-! ## Stretches -/

theorem hasNoClose_of_forall {w : List Char} (h : (∀ c ∈ w, c ≠ '*') ∨ ∀ c ∈ w, c ≠ '/') : HasNoClose w := by
  induction w with
  | nil => exact .nil
  | cons c w ih =>
    have htail := h.imp (fun h d hd => h d (.tail _ hd)) fun h d hd => h d (.tail _ hd)
    refine List.isChain_cons.2 ⟨fun d hd => ?_, ih htail⟩
    rintro ⟨rfl, rfl⟩
    exact h.elim (fun h => h '*' (List.mem_cons_self ..) rfl) fun h => h '/' (.tail _ (List.mem_of_mem_head? hd)) rfl

/-- A text that ends in a star and has no closing mark yet. -/
structure IsStretch (w : List Char) : Prop where
  hasNoClose : HasNoClose w
  getLast? : w.getLast? = some '*'

/-- Characters other than stars, and stars behind them. -/
theorem isStretch_of_matches {u v : List Char} (hu : Matches (.many (.noneOf "*")) u)
    (hv : Matches (.plus (.word "*")) v) : IsStretch (u ++ v) := by
  have hplain : ∀ c ∈ u, c ≠ '*' := Regex.forall_mem_of_matches_many (fun _ hw => by grind [Regex.matches_noneOf_iff]) hu
  obtain ⟨_, w, hstar, hw, rfl⟩ := Regex.matches_append_iff.1 hv
  obtain rfl : _ = ['*'] := Regex.matches_word_iff.1 hstar
  have hstars : ∀ c ∈ ['*'] ++ w, c = '*' := by
    have hmore : ∀ c ∈ w, c = '*' := Regex.forall_mem_of_matches_many (fun _ hw => by grind [Regex.matches_word_iff]) hw
    simpa using hmore
  constructor
  · refine List.isChain_append.2 ⟨hasNoClose_of_forall (.inl hplain), hasNoClose_of_forall (.inr ?_), ?_⟩
    · exact fun c hc => by simp [hstars c hc]
    · exact fun c hc _ _ h => hplain c (List.mem_of_mem_getLast? hc) h.1
  · obtain ⟨c, hlast⟩ : ∃ c, (['*'] ++ w).getLast? = some c := Option.isSome_iff_exists.1 (by simp)
    rw [List.getLast?_append, hlast]
    exact congrArg some (hstars c (List.mem_of_mem_getLast? hlast))

/-- Behind a stretch another one begins with a character that does not close the comment. -/
theorem IsStretch.append {u v : List Char} {c : Char} (hu : IsStretch u) (hc : c ∉ "/*".toList) (hv : IsStretch v) :
    IsStretch (u ++ c :: v) := by
  constructor
  · refine List.isChain_append.2 ⟨hu.hasNoClose, List.isChain_cons.2 ⟨?_, hv.hasNoClose⟩, ?_⟩
    · exact fun d _ h => hc (by simp [h.1])
    · intro d _ e he h
      obtain rfl := Option.mem_some_iff.1 he
      exact hc (by simp [h.2])
  · simp [List.getLast?_append, List.getLast?_cons, hv.getLast?]

theorem IsStretch.append_many {u v : List Char} (hu : IsStretch u)
    (hv : Matches (.many (.noneOf "/*" ++ .many (.noneOf "*") ++ .plus (.word "*"))) v) : IsStretch (u ++ v) := by
  induction hv using Matches.many_induction generalizing u with
  | nil => simpa using hu
  | append hv _ ih =>
    obtain ⟨_, stars, hfirst, hstars, rfl⟩ := Regex.matches_append_iff.1 hv
    obtain ⟨_, plain, hhead, hplain, rfl⟩ := Regex.matches_append_iff.1 hfirst
    obtain ⟨c, hc, rfl⟩ := Regex.matches_noneOf_iff.1 hhead
    have hstretch := ih (hu.append hc (isStretch_of_matches hplain hstars))
    simpa using hstretch

/-- A stretch taken apart, with the stretches behind it. -/
structure Stretches (plain stars more : List Char) : Prop where
  plain : Matches (.many (.noneOf "*")) plain
  stars : Matches (.plus (.word "*")) stars
  more : Matches (.many (.noneOf "/*" ++ .many (.noneOf "*") ++ .plus (.word "*"))) more

/-- What ends in a star and has no closing mark yet is stretches: a star in front of anything else begins a new one. -/
theorem IsStretch.exists_stretches {w : List Char} (h : IsStretch w) :
    ∃ plain stars more, Stretches plain stars more ∧ w = plain ++ stars ++ more := by
  have hstar : Matches (.word "*") ['*'] := Regex.matches_word_iff.2 rfl
  induction w with
  | nil => cases h.getLast?
  | cons c w ih =>
    obtain ⟨hnext, hrest⟩ := List.isChain_cons.1 h.hasNoClose
    rcases List.eq_nil_or_concat' w with rfl | ⟨init, last, rfl⟩
    · obtain rfl : c = '*' := by simpa using h.getLast?
      exact ⟨[], ['*'], [], ⟨.manyNil, .seq hstar .manyNil, .manyNil⟩, rfl⟩
    · have hlast : (init ++ [last]).getLast? = some '*' := by simpa [List.getLast?_cons] using h.getLast?
      obtain ⟨plain, stars, more, hw, heq⟩ := ih ⟨hrest, hlast⟩
      rw [heq] at hnext ⊢
      by_cases hc : c = '*'
      · subst hc
        cases plain with
        | nil =>
          obtain ⟨_, stars, hfirst, hstars, rfl⟩ := Regex.matches_append_iff.1 hw.stars
          exact ⟨[], _, more, ⟨.manyNil, .seq hstar (.manyAppend hfirst hstars), hw.more⟩, rfl⟩
        | cons d plain =>
          obtain ⟨u, plain, hd, hplain, rfl⟩ := Regex.matches_many_cons hw.plain
          obtain ⟨_, hne, heq⟩ := Regex.matches_noneOf_iff.1 hd
          obtain ⟨rfl, rfl⟩ := List.cons_eq_cons.1 heq
          have hslash : d ≠ '/' := fun hd => hnext d rfl ⟨rfl, hd⟩
          have hbegin : Matches (.noneOf "/*") [d] := Regex.matches_noneOf_iff.2 ⟨d, by simp_all, rfl⟩
          have hnew : Matches (.noneOf "/*" ++ .many (.noneOf "*") ++ .plus (.word "*")) ([d] ++ plain ++ stars) :=
            .seq (.seq hbegin hplain) hw.stars
          exact ⟨[], ['*'], [d] ++ plain ++ stars ++ more,
            ⟨.manyNil, .seq hstar .manyNil, .manyAppend hnew hw.more⟩, rfl⟩
      · have hfirst : Matches (.noneOf "*") [c] := Regex.matches_noneOf_iff.2 ⟨c, by simpa using hc, rfl⟩
        exact ⟨c :: plain, stars, more, ⟨.manyAppend hfirst hw.plain, hw.stars, hw.more⟩, rfl⟩

/-! ## Comments -/

theorem isBlockComment_of_matches {w : List Char} (h : Matches Pattern.blockComment w) : IsBlockComment w := by
  obtain ⟨_, _, hunclosed, hslash, rfl⟩ := Regex.matches_append_iff.1 h
  obtain ⟨_, more, hfirst, hmore, rfl⟩ := Regex.matches_append_iff.1 hunclosed
  obtain ⟨_, stars, hbegin, hstars, rfl⟩ := Regex.matches_append_iff.1 hfirst
  obtain ⟨_, plain, hopen, hplain, rfl⟩ := Regex.matches_append_iff.1 hbegin
  obtain rfl := Regex.matches_word_iff.1 hopen
  obtain rfl := Regex.matches_word_iff.1 hslash
  have hstretch := (isStretch_of_matches hplain hstars).append_many hmore
  obtain ⟨body, hbody⟩ := List.getLast?_eq_some_iff.1 hstretch.getLast?
  refine ⟨body, ?_, hbody ▸ hstretch.hasNoClose⟩
  calc "/*".toList ++ plain ++ stars ++ more ++ "/".toList
    _ = ['/', '*'] ++ (plain ++ stars ++ more) ++ ['/'] := by simp
    _ = '/' :: '*' :: (body ++ ['*', '/']) := by simp [hbody]

/-- The pattern has every comment that is closed by the first closing mark, and nothing else. -/
theorem matches_blockComment_iff {w : List Char} : Matches Pattern.blockComment w ↔ IsBlockComment w := by
  refine ⟨isBlockComment_of_matches, ?_⟩
  rintro ⟨body, rfl, hbody⟩
  have hstretch : IsStretch (body ++ ['*']) := ⟨hbody, by simp⟩
  obtain ⟨plain, stars, more, hparts, heq⟩ := hstretch.exists_stretches
  have hsplit : '/' :: '*' :: (body ++ ['*', '/']) = "/*".toList ++ plain ++ stars ++ more ++ "/".toList := by
    calc '/' :: '*' :: (body ++ ['*', '/'])
      _ = ['/', '*'] ++ (body ++ ['*']) ++ ['/'] := by simp
      _ = "/*".toList ++ plain ++ stars ++ more ++ "/".toList := by simp [heq]
  have hopen : Matches (.word "/*") "/*".toList := Regex.matches_word_iff.2 rfl
  have hslash : Matches (.word "/") "/".toList := Regex.matches_word_iff.2 rfl
  rw [hsplit]
  exact .seq (.seq (.seq (.seq hopen hparts.plain) hparts.stars) hparts.more) hslash

end StructPadding.Token
