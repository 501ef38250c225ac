-- SUMMARY: Declarations of constants do what is said of their lines: each has its number, and repeats the nearest values.
import StructPadding.Proofs.Parse.NumberedLines

/-!
# Groups of constants

A line of constants is parsed knowing the lines before it in its group. So the parser does what a parser does that finds
the lines as they are written, and completes each of them by those before it. This module says what becomes of a group;
both for the lines that the parser finds, and for the lines that tokens are written for.
-/

namespace StructPadding.Parser

open Token (Kind)

variable {g : Grammar} {s t : State} {α β : Type}

/-! ## Lists that are parsed -/

/-- A loop whose turns only add to a list keeps what is in it. -/
theorem prefix_of_turns {turn : List α → Parser (ForInStep (List α))}
    (hturn : ∀ as s step t, turn as s = .ok step t → as <+: step.value) {n : Nat} {as bs : List α}
    (h : turns turn n as s = .ok bs t) : as <+: bs := by
  induction n generalizing as s with
  | zero => cases h
  | succ n ih =>
    obtain ⟨step, u, hstep, hrest⟩ := bind_eq_ok_iff.1 h
    have hadds := hturn as s step u hstep
    cases step with
    | done cs =>
      obtain ⟨rfl, -⟩ := pure_eq_ok_iff.1 hrest
      exact hadds
    | yield cs => exact hadds.trans (ih hrest)

theorem commaSeparated_ne_nil {item : Parser α} {as : List α} (h : commaSeparated item s = .ok as t) : as ≠ [] := by
  obtain ⟨first, u, -, hloop⟩ := bind_eq_ok_iff.1 h
  have hfirst : [first] <+: as := by
    refine prefix_of_turns (fun items s step t hstep => ?_) hloop
    obtain ⟨more, v, -, hrest⟩ := bind_eq_ok_iff.1 hstep
    split at hrest
    · obtain ⟨a, w, -, hyield⟩ := bind_eq_ok_iff.1 hrest
      obtain ⟨rfl, -⟩ := pure_eq_ok_iff.1 hyield
      exact List.prefix_append items [a]
    · obtain ⟨rfl, -⟩ := pure_eq_ok_iff.1 hrest
      exact List.prefix_refl items
  rintro rfl
  exact List.cons_ne_nil _ _ (List.prefix_nil.1 hfirst)

/-! ## Lines -/

theorem fail_bind_eq (cause : Cause) (span : Span) (f : α → Parser β) : fail cause span >>= f = fail cause span := rfl

theorem ofExcept_ok (a : α) : (ofExcept (.ok a : Except Problem α) : Parser α) = pure a := rfl

theorem ofExcept_error (cause : Cause) (span : Span) :
    (ofExcept (.error ⟨cause, span⟩ : Except Problem α) : Parser α) = fail cause span := rfl

/-- A line is parsed as it is written, and then completed. -/
theorem constDecl_eq (g : Grammar) (before : List ConstDecl) :
    constDecl g before = constLine g >>= fun line => ofExcept (line.complete before) := by
  have hvalues (start : Span) (names : List (String × Span)) (typed : Bool) (previous : List Expr)
      (hprevious : (before.getLast?.map (·.values)).getD [] = previous) : (do
        let values ←
          if ← accept (.symbol .eq) then commaSeparated (binaryExpr g 1)
          else if typed || previous.isEmpty then fail .missingValue (← spanFrom start)
          else pure previous
        return ⟨names, values, before.length, ← spanFrom start⟩) = (do
        let values ← if ← accept (.symbol .eq) then commaSeparated (binaryExpr g 1) else pure []
        return (⟨names, typed, values, ← spanFrom start⟩ : ConstLine)) >>=
          fun line => ofExcept (line.complete before) := by
    simp only [bind_assoc, pure_bind, ConstLine.complete, hprevious]
    refine bind_congr fun accepted => ?_
    cases accepted with
    | true =>
      funext s
      simp only [if_true, bind_assoc, pure_bind]
      refine bind_eq_bind rfl fun values t hres => ?_
      have hsome : values.isEmpty = false := by simpa using commaSeparated_ne_nil hres
      simp only [hsome, Bool.false_and, Bool.false_eq_true, if_false, ofExcept_ok]
    | false =>
      simp only [Bool.false_eq_true, if_false, pure_bind, bind_assoc, List.isEmpty_nil, Bool.true_and]
      cases typed with
      | true => rfl
      | false =>
        cases hnone : previous.isEmpty with
        | true => simp only [Bool.false_or, Bool.not_false, if_true, hnone, ofExcept_error, fail_bind_eq]
        | false =>
          simp only [Bool.false_or, Bool.not_false, if_true, hnone, Bool.false_eq_true, if_false, ofExcept_ok]
  unfold constDecl constLine
  rw [bind_assoc]
  refine bind_congr fun start => ?_
  rw [bind_assoc]
  refine bind_congr fun names => ?_
  rw [bind_assoc]
  refine bind_congr fun kind => ?_
  cases !endsConstNames kind with
  | true =>
    change typeExpr g >>= (fun t => keepStructs t >>= fun _ => _) =
      (typeExpr g >>= fun t => keepStructs t >>= fun _ => _) >>= _
    rw [bind_assoc]
    refine bind_congr fun t => ?_
    rw [bind_assoc]
    exact bind_congr fun _ => hvalues start.span names true _ rfl
  | false => exact hvalues start.span names false _ rfl

/-! ## Runs -/

/-- Whether a run over constants does what is said of the lines that another run finds: it finds the constants of them
    and ends where the other one ends, or it fails as completing them does. It fails where the lines are not found. -/
def Completes (found : EStateM.Result Problem State (List ConstLine))
    (made : EStateM.Result Problem State (List ConstDecl)) : Prop :=
  match found with
  | .ok lines t =>
    match completed lines with
    | .ok decls => made = .ok decls t
    | .error e => ∃ u, made = .error e u
  | .error .. => ∃ e u, made = .error e u

namespace Completes

theorem done {lines : List ConstLine} {decls : List ConstDecl} (h : completed lines = .ok decls) :
    Completes (.ok lines s) (.ok decls s) := by
  simp only [Completes, h]

/-- Both runs fail in a step that they share, or go on alike behind it. -/
theorem bind {p : Parser α} {f : α → Parser (List ConstLine)} {f' : α → Parser (List ConstDecl)}
    (hf : ∀ a t, p s = .ok a t → Completes (f a t) (f' a t)) : Completes ((p >>= f) s) ((p >>= f') s) := by
  simp only [Bind.bind, EStateM.bind]
  cases hp : p s with
  | error e u => exact ⟨e, u, rfl⟩
  | ok a t => exact hf a t hp

/-- One run fails at a line that cannot be completed, whatever the other one finds behind that line. -/
theorem of_error {found : EStateM.Result Problem State (List ConstLine)} {lines : List ConstLine} {e : Problem}
    {u : State} (he : completed lines = .error e) (h : ∀ all t, found = .ok all t → lines <+: all) :
    Completes found (.error e u) := by
  cases found with
  | error => exact ⟨e, u, rfl⟩
  | ok all t =>
    simp only [Completes, completed_of_prefix (h all t rfl) he]
    exact ⟨u, rfl⟩

/-- What both runs do behind the lines does not matter. -/
theorem followed {x : Parser (List ConstLine)} {y : Parser (List ConstDecl)} (h : Completes (x s) (y s))
    (p : Parser α) : Completes ((x >>= fun lines => p >>= fun _ => pure lines) s)
      ((y >>= fun decls => p >>= fun _ => pure decls) s) := by
  simp only [Bind.bind, EStateM.bind]
  cases hx : x s with
  | error =>
    rw [hx] at h
    obtain ⟨e, u, hy⟩ := h
    exact ⟨e, u, by rw [hy]⟩
  | ok lines t =>
    simp only [hx, Completes] at h
    cases hlines : completed lines with
    | error e =>
      simp only [hlines] at h
      obtain ⟨u, hy⟩ := h
      simp only [hy]
      refine of_error hlines fun all v hall => ?_
      obtain ⟨_, _, -, hpure⟩ := bind_eq_ok_iff.1 hall
      obtain ⟨rfl, -⟩ := pure_eq_ok_iff.1 hpure
      exact List.prefix_refl lines
    | ok decls =>
      simp only [hlines] at h
      simp only [h]
      exact bind fun _ v _ => done hlines

end Completes

theorem prefix_of_entries_turn {close : Kind} {entry : Parser α} {as : List α} {step : ForInStep (List α)}
    (h : entries.turn close (fun _ => entry) as s = .ok step t) : as <+: step.value := by
  obtain ⟨done, u, -, h⟩ := bind_eq_ok_iff.1 h
  split at h
  · obtain ⟨rfl, -⟩ := pure_eq_ok_iff.1 h
    exact List.prefix_refl as
  obtain ⟨blank, v, -, h⟩ := bind_eq_ok_iff.1 h
  split at h
  · obtain ⟨rfl, -⟩ := pure_eq_ok_iff.1 h
    exact List.prefix_refl as
  obtain ⟨a, w, -, h⟩ := bind_eq_ok_iff.1 h
  obtain ⟨last, x, -, h⟩ := bind_eq_ok_iff.1 h
  split at h
  · obtain ⟨rfl, -⟩ := pure_eq_ok_iff.1 h
    exact List.prefix_append as [a]
  · obtain ⟨_, y, -, h⟩ := bind_eq_ok_iff.1 h
    obtain ⟨rfl, -⟩ := pure_eq_ok_iff.1 h
    exact List.prefix_append as [a]

/-- The loops over the entries of a group, behind lines that are completed. -/
theorem completes_turns {close : Kind} {n : Nat} {lines : List ConstLine} {decls : List ConstDecl}
    (h : completed lines = .ok decls) :
    Completes (turns (entries.turn close fun _ => constLine g) n lines s)
      (turns (entries.turn close (constDecl g)) n decls s) := by
  induction n generalizing s lines decls with
  | zero => exact ⟨_, _, rfl⟩
  | succ n ih =>
    simp only [turns, entries.turn, bind_assoc]
    refine .bind fun done t _ => ?_
    cases done with
    | true => exact .done h
    | false =>
      simp only [Bool.false_eq_true, if_false, bind_assoc]
      refine .bind fun blank t _ => ?_
      cases blank with
      | true => exact ih h
      | false =>
        simp only [Bool.false_eq_true, if_false, bind_assoc, constDecl_eq]
        refine .bind fun line t _ => ?_
        have hnext := completed_concat h line
        cases hline : line.complete decls with
        | error e =>
          -- Only the run over the lines goes on.
          rw [hline] at hnext
          refine .of_error hnext fun all u hall => ?_
          obtain ⟨last, v, -, hall⟩ := bind_eq_ok_iff.1 hall
          obtain ⟨step, w, hstep, hall⟩ := bind_eq_ok_iff.1 hall
          obtain rfl : .yield (lines ++ [line]) = step := by
            split at hstep
            · exact (pure_eq_ok_iff.1 hstep).1
            · obtain ⟨_, x, -, hstep⟩ := bind_eq_ok_iff.1 hstep
              exact (pure_eq_ok_iff.1 hstep).1
          exact prefix_of_turns (fun _ _ _ _ => prefix_of_entries_turn) hall
        | ok decl =>
          rw [hline] at hnext
          refine .bind fun last u _ => ?_
          cases last with
          | true => exact ih hnext
          | false =>
            simp only [Bool.false_eq_true, if_false, bind_assoc]
            exact .bind fun _ v _ => ih hnext

theorem completes_entries {close : Kind} :
    Completes (entries close (fun _ => constLine g) s) (entries close (constDecl g) s) :=
  completes_turns rfl

theorem completes_group : Completes (group (fun _ => constLine g) s) (group (constDecl g) s) := by
  refine .bind fun several t _ => ?_
  cases several with
  | true => exact completes_entries.followed _
  | false =>
    simp only [Bool.false_eq_true, if_false, constDecl_eq, bind_assoc]
    refine .bind fun line t _ => ?_
    have hone := completed_concat (rfl : completed [] = .ok []) line
    cases hline : line.complete [] with
    | error e =>
      rw [hline] at hone
      refine .of_error hone fun all u hall => ?_
      obtain ⟨rfl, -⟩ := pure_eq_ok_iff.1 hall
      exact List.prefix_refl _
    | ok decl =>
      rw [hline] at hone
      exact .done hone

theorem completes_declaration :
    Completes (declaration .const (fun _ => constLine g) s) (declaration .const (constDecl g) s) :=
  .bind fun _ _ _ => completes_group.followed _

/-! ## Declarations -/

variable {lines : List ConstLine} {line : ConstLine} {decls : List ConstDecl}

/-- Outside of parentheses there is one line. -/
theorem exists_eq_singleton {entry : List α → Parser α} {keyword : Token.Keyword} {as : List α}
    (h : declaration keyword entry s = .ok as t) (hsingle : s.kinds 1 ≠ .symbol .lParen) : ∃ a, as = [a] := by
  obtain ⟨_, u, hword, h⟩ := bind_eq_ok_iff.1 h
  obtain ⟨_, v, hgroup, hend⟩ := bind_eq_ok_iff.1 h
  obtain ⟨several, w, hparen, hgroup⟩ := bind_eq_ok_iff.1 hgroup
  obtain ⟨c, hc, -, hword⟩ := gives_expect (isFixed_keyword keyword) s _ u (c := ⟨s.stream.events, s.locals, []⟩)
    ⟨rfl, rfl⟩ hword
  obtain ⟨d, -, -, hparen⟩ := gives_accept (isFixed_symbol .lParen) u _ w hc hparen
  cases several with
  | true =>
    obtain ⟨span, hparen⟩ := hparen
    have hs : s.stream.events = .ok ⟨.keyword keyword, _⟩ :: .ok ⟨.symbol .lParen, span⟩ :: d.events :=
      hword.events.trans (congrArg _ hparen.events)
    refine absurd ?_ hsingle
    simp [State.kinds, Cursor.kindAt, hs]
  | false =>
    obtain ⟨a, x, -, hone⟩ := bind_eq_ok_iff.1 hgroup
    obtain ⟨rfl, -⟩ := pure_eq_ok_iff.1 hone
    obtain ⟨_, y, -, hend⟩ := bind_eq_ok_iff.1 hend
    exact ⟨a, (pure_eq_ok_iff.1 hend).1.symm⟩

theorem completes_of_found (h : declaration .const (fun _ => constLine g) s = .ok lines t) :
    match completed lines with
    | .ok decls => declaration .const (constDecl g) s = .ok decls t
    | .error e => ∃ u, declaration .const (constDecl g) s = .error e u := by
  have hruns := completes_declaration (g := g) (s := s)
  simpa only [Completes, h] using hruns

theorem declaration_eq_ok_iff : declaration .const (constDecl g) s = .ok decls t ↔
    ∃ lines, declaration .const (fun _ => constLine g) s = .ok lines t ∧ NoneRejected lines ∧
      decls = numbered lines := by
  constructor
  · intro hdecls
    have hruns := completes_declaration (g := g) (s := s)
    cases hlines : declaration .const (fun _ => constLine g) s with
    | error e u =>
      rw [hlines] at hruns
      obtain ⟨_, _, hfail⟩ := hruns
      cases hfail.symm.trans hdecls
    | ok lines u =>
      have hmade := completes_of_found hlines
      split at hmade
      · next heq =>
        obtain ⟨rfl, rfl⟩ := EStateM.Result.ok.inj (hmade.symm.trans hdecls)
        exact ⟨lines, rfl, completed_eq_ok_iff.1 heq⟩
      · obtain ⟨_, hfail⟩ := hmade
        cases hfail.symm.trans hdecls
  · rintro ⟨lines, hlines, hnone, rfl⟩
    have hmade := completes_of_found hlines
    rwa [completed_of_noneRejected hnone] at hmade

theorem declaration_rejected {k : Nat} (hlines : declaration .const (fun _ => constLine g) s = .ok lines t)
    (hk : lines[k]? = some line) (hbefore : NoneRejected (lines.take k)) (hline : line.IsRejected (lines.take k)) :
    ∃ u, declaration .const (constDecl g) s = .error ⟨.missingValue, line.span⟩ u := by
  have hfail := completes_of_found hlines
  rwa [completed_of_rejected hk hbefore hline] at hfail

theorem iota_of_single (h : declaration .const (constDecl g) s = .ok decls t) (hsingle : s.kinds 1 ≠ .symbol .lParen) :
    ∃ decl, decls = [decl] ∧ decl.iota = 0 := by
  obtain ⟨decl, rfl⟩ := exists_eq_singleton h hsingle
  obtain ⟨lines, -, -, hlines⟩ := declaration_eq_ok_iff.1 h
  obtain ⟨line, rfl⟩ : ∃ line, lines = [line] := List.length_eq_one_iff.1 (by rw [← length_numbered, ← hlines]; rfl)
  exact ⟨decl, rfl, congrArg ConstDecl.iota (List.cons.inj hlines).1⟩

/-- The lines of constants that a declaration is written with tell what becomes of it. No line is rejected where the
    declaration is parsed, and each has its number and the values of the nearest line up to it that has any. Where the
    lines can be read and some line is rejected, the declaration is so at the first such line. A declaration outside of
    a group is one line. For tokens that are a group of lines, with any separators between them, these are the lines. -/
theorem constDeclaration_numbered (g : Grammar) (s : State) :
    (∀ decls t, declaration .const (constDecl g) s = .ok decls t ↔
      ∃ lines, declaration .const (fun _ => constLine g) s = .ok lines t ∧ NoneRejected lines ∧
        decls = numbered lines) ∧
    (∀ lines t k line, declaration .const (fun _ => constLine g) s = .ok lines t → lines[k]? = some line →
      NoneRejected (lines.take k) → line.IsRejected (lines.take k) →
        ∃ u, declaration .const (constDecl g) s = .error ⟨.missingValue, line.span⟩ u) ∧
    (∀ decls t, declaration .const (constDecl g) s = .ok decls t → s.kinds 1 ≠ .symbol .lParen →
      ∃ decl, decls = [decl] ∧ decl.iota = 0) ∧
    ∀ lines rest, WritesConstGroup lines s.stream.events rest →
      (NoneRejected lines → ∃ decls t, withGrammar (fun g => declaration .const (constDecl g)) s = .ok decls t ∧
        t.stream.events = rest ∧
          List.Forall₂ (fun decl made => made = { decl with span := made.span }) (numbered lines) decls) ∧
      ∀ k line, lines[k]? = some line → NoneRejected (lines.take k) → line.IsRejected (lines.take k) →
        ∃ span u, withGrammar (fun g => declaration .const (constDecl g)) s = .error ⟨.missingValue, span⟩ u ∧
          line.BeginsAt span := by
  refine ⟨fun _ _ => declaration_eq_ok_iff, fun _ _ _ _ => declaration_rejected, fun _ _ => iota_of_single,
    fun lines rest hgroup => ?_⟩
  obtain ⟨found, t, hfound, ht, hsame⟩ := hgroup.exists_found
  refine ⟨fun hnone => ?_, fun k line hk hbefore hline => ?_⟩
  · have hmade := declaration_eq_ok_iff.2 ⟨found, hfound, noneRejected_of_foundAs hsame hnone, rfl⟩
    exact ⟨numbered found, t, hmade, ht, numbered_of_foundAs hsame⟩
  · obtain ⟨l, hl, hfoundAs⟩ := exists_foundAs hsame hk
    have htake := List.forall₂_take k hsame
    obtain ⟨u, hfail⟩ := declaration_rejected hfound hl (noneRejected_of_foundAs htake hbefore)
      ((isRejected_of_foundAs htake hfoundAs).2 hline)
    exact ⟨l.span, u, hfail, hfoundAs.2⟩

/-- The lines of `const (A = iota;; _, B; C int = 7; D)`. -/
def repeatingLines : List ConstLine :=
  [⟨[("A", ⟨2, 3⟩)], false, [.iota ⟨4, 5⟩], ⟨2, 5⟩⟩, ⟨[("_", ⟨7, 8⟩), ("B", ⟨9, 10⟩)], false, [], ⟨7, 10⟩⟩,
    ⟨[("C", ⟨11, 12⟩)], true, [.int 7 ⟨14, 15⟩], ⟨11, 15⟩⟩, ⟨[("D", ⟨16, 17⟩)], false, [], ⟨16, 17⟩⟩]

/-- The tokens of it. -/
def repeatingTokens : List Token :=
  tokensAt 0 [.keyword .const, .symbol .lParen, .identifier "A", .symbol .eq, .identifier "iota", .symbol .semi,
    .symbol .semi, .identifier "_", .symbol .comma, .identifier "B", .symbol .semi, .identifier "C", .identifier "int",
    .symbol .eq, .literal .int "7", .symbol .semi, .identifier "D", .symbol .rParen, .symbol .semi]

theorem writesConstGroup_repeatingTokens : WritesConstGroup repeatingLines (repeatingTokens.map .ok) [] := by
  have hiota : ReadsAlone (binaryExpr · 1) [⟨.identifier "iota", ⟨4, 5⟩⟩] (.iota ⟨4, 5⟩) := ⟨5, _, rfl, rfl⟩
  have hseven : ReadsAlone (binaryExpr · 1) [⟨.literal .int "7", ⟨14, 15⟩⟩] (.int 7 ⟨14, 15⟩) := ⟨15, _, rfl, rfl⟩
  have hfirst : ConstLine.Writes ⟨[("A", ⟨2, 3⟩)], false, [.iota ⟨4, 5⟩], ⟨2, 5⟩⟩
      (tokensAt 2 [.identifier "A", .symbol .eq, .identifier "iota"]) :=
    .line (.single rfl) .absent (.values (.single hiota))
  have hsecond : ConstLine.Writes ⟨[("_", ⟨7, 8⟩), ("B", ⟨9, 10⟩)], false, [], ⟨7, 10⟩⟩
      (tokensAt 7 [.identifier "_", .symbol .comma, .identifier "B"]) :=
    .line (.items rfl (.next rfl .nil)) .absent .absent
  have hthird : ConstLine.Writes ⟨[("C", ⟨11, 12⟩)], true, [.int 7 ⟨14, 15⟩], ⟨11, 15⟩⟩
      (tokensAt 11 [.identifier "C", .identifier "int", .symbol .eq, .literal .int "7"]) :=
    .line (.single rfl) (.type (readsAlone_name "int" ⟨12, 13⟩)) (.values (.single hseven))
  have hfourth : ConstLine.Writes ⟨[("D", ⟨16, 17⟩)], false, [], ⟨16, 17⟩⟩ (tokensAt 16 [.identifier "D"]) :=
    .line (.single rfl) .absent .absent
  exact ⟨_, _, _, _, _, .next hfirst (.separator (.next hsecond (.next hthird (.last hfourth)))), rfl⟩

theorem noneRejected_repeatingLines : NoneRejected repeatingLines := by
  rintro (_ | _ | _ | _ | k) line hk <;> cases hk <;> simp [ConstLine.IsRejected, repeatingLines]

theorem constDeclaration_numbered_repeatingLines :
    WritesConstGroup repeatingLines (repeatingTokens.map .ok) [] ∧ NoneRejected repeatingLines ∧
      ∃ decls t, withGrammar (fun g => declaration .const (constDecl g)) (.ofTokens 19 repeatingTokens) = .ok decls t ∧
        t.stream.events = [] ∧
          List.Forall₂ (fun decl made => made = { decl with span := made.span }) (numbered repeatingLines) decls := by
  have hwritten := (constDeclaration_numbered .empty (.ofTokens 19 repeatingTokens)).2.2.2 repeatingLines []
    writesConstGroup_repeatingTokens
  exact ⟨writesConstGroup_repeatingTokens, noneRejected_repeatingLines, hwritten.1 noneRejected_repeatingLines⟩

/-- The lines behind `A` and `C` repeat their values, each with its number. -/
example : (numbered repeatingLines).map (fun decl => (decl.names.map (·.1), decl.iota, decl.values)) =
    [(["A"], 0, [.iota ⟨4, 5⟩]), (["_", "B"], 1, [.iota ⟨4, 5⟩]), (["C"], 2, [.int 7 ⟨14, 15⟩]),
      (["D"], 3, [.int 7 ⟨14, 15⟩])] := rfl

end StructPadding.Parser
