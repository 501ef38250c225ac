-- SUMMARY: Every span of a parsed file is valid and lies in the span around it, and so is the span of a problem.
import StructPadding.Proofs.Parse.Literals
import StructPadding.Proofs.Parse.Nested
import StructPadding.Proofs.Parse.Placed
import StructPadding.Proofs.Token.Rendering

/-!
# Spans

The spans of declarations nest as those of types and expressions do. The exception are constants: a line that leaves out
its values repeats those of the line before, which keep the places where they are written.
-/

namespace StructPadding

namespace Parser

open Token (Stream)
open State (between_later)

variable {good : Nat → Prop} {base : Nat} {g : Grammar} {s t : State}

/-! ## Declarations and their entries -/

theorem goes_declaration {α : Type} {keyword : Token.Keyword} {entry : List α → Parser α} {I : List α → State → Prop}
    (hlater : ∀ as t u, t.Before u → I as t → I as u) (hinit : I [] s)
    (hentry : ∀ as t, t.Ordered good base → s.Before t → I as t →
      Goes good base (entry as) t fun a u => I (as ++ [a]) u) :
    Goes good base (declaration keyword entry) s I := by
  apply (goes_expect (isFixed_keyword keyword)).bind
  intro _ t _ hst _
  apply (goes_group hlater (hlater _ s t hst hinit) fun as u hu htu has => hentry as u hu (hst.trans htu) has).bind
  intro as u _ _ has
  exact goes_declarationEnd.bind fun _ v _ huv _ => .pure (hlater as u v huv has)

/-- A declaration of entries that are nodes of their own. -/
theorem goes_declaration_all {α : Type} {keyword : Token.Keyword} {entry : List α → Parser α} {N : α → SyntaxNode}
    (hentry : ∀ as t, Goes good base (entry as) t fun a u => t.Makes good (N a) u) :
    Goes good base (declaration keyword entry) s fun as u => s.MakesAll good N as u :=
  goes_declaration (fun _ _ _ htu has => has.later htu) .nil (goes_entry hentry)

/-! ## Imports -/

theorem goes_importAlias : Goes good base importAlias s fun _ u => u = s ∨ s.Past u := by
  refine looks_peekKind.bind fun k _ hk => ?_
  split
  · exact (goes_advance_of hk.symm nofun).bind fun _ _ _ _ h => .pure (.inr (.of_eq h.2))
  · exact (goes_advance_of hk.symm nofun).bind fun _ _ _ _ h => .pure (.inr (.of_eq h.2))
  · exact .pure (.inl rfl)

theorem goes_importSpec : Goes good base importSpec s fun i u => s.Makes good (.import_ i) u := by
  refine looks_peek.bind fun start hs hstart => ?_
  apply goes_importAlias.bind
  intro alias? t _ _ halias
  apply goes_advance.bind
  intro path u _ htu hpath
  split
  · next hkind =>
    have htaken : t.Past u := .of_eq (hpath.2.2 (by simp [hkind]))
    have hpast : s.Past u := by
      rcases halias with rfl | halias
      · exact htaken
      · exact halias.later htu
    exact goes_closed hstart.2 hs hpast (fun _ => rfl) nofun
  · exact goes_fail

/-! ## Lines of constants -/

/-- Whether the lines of a group of constants have numbers below their count, and spans that nest but for the values
    that they repeat from one another. -/
def LinesPlaced (good : Nat → Prop) (base : Nat) (lines : List ConstDecl) (t : State) : Prop :=
  ∀ d ∈ lines, d.iota < lines.length ∧ d.Placed good base t.lastStop lines

theorem LinesPlaced.concat {lines : List ConstDecl} {d : ConstDecl} {u : State} (h : LinesPlaced good base lines t)
    (htu : t.Before u) (hd : d.Placed good base u.lastStop lines) (hiota : d.iota = lines.length) :
    LinesPlaced good base (lines ++ [d]) u := by
  have hlines : ∀ line ∈ lines, line ∈ lines ++ [d] := fun line hline => List.mem_append_left _ hline
  intro e he
  rw [List.length_append, List.length_singleton]
  rcases List.mem_append.1 he with he | he
  · exact ⟨Nat.lt_succ_of_lt (h e he).1, (h e he).2.mono htu.lastStop hlines⟩
  · rw [List.mem_singleton.1 he]
    exact ⟨by omega, hd.mono (Nat.le_refl _) hlines⟩

theorem LinesPlaced.later {lines : List ConstDecl} {u : State} (h : LinesPlaced good base lines t) (htu : t.Before u) :
    LinesPlaced good base lines u :=
  fun d hd => ⟨(h d hd).1, (h d hd).2.mono htu.lastStop fun _ hline => hline⟩

/-! ## Types and constants -/

theorem looks_atTypeParams : Looks good base atTypeParams s fun _ => True := by
  refine .ifCheck ?_ (Looks.pure trivial)
  refine (looks_peekKindAt 1).bind fun _ _ _ => .ite (fun _ => ?_) fun _ => Looks.pure trivial
  exact (looks_peekKindAt 2).bind fun _ _ _ => Looks.pure trivial

section

variable (hg : g.Nests good base)
include hg

theorem goes_typeParams : Goes good base (typeParams g) s fun _ _ => True := by
  refine (goes_expect (isFixed_symbol .lBracket)).bind fun _ t _ _ _ => ?_
  refine Goes.bind (P := fun _ _ => True) (goes_repeating trivial fun names u _ _ _ => ?_) fun _ _ _ _ _ => ?_
  · refine .ifCheck (.pure trivial) (goes_identifier.bind fun _ v _ _ _ => ?_)
    refine .ifAccept (isFixed_symbol .comma) (fun _ _ _ _ => .pure trivial) ?_
    refine (goes_skipUntil hg _).bind fun _ w _ _ _ => ?_
    exact .ifAccept (isFixed_symbol .comma) (fun _ _ _ _ => .pure trivial) (.pure trivial)
  · exact (goes_expect (isFixed_symbol .rBracket)).bind fun _ _ _ _ _ => .pure trivial

theorem goes_typeDecl : Goes good base (typeDecl g) s fun d u => s.Makes good (.typeDecl d) u := by
  refine looks_peek.bind fun start hs hstart => ?_
  apply goes_identifier.bind
  intro n t _ hst hn
  have hdecl (params : List String) {u : State} (htu : t.Before u) :
      Goes good base (do
          let isAlias ← accept (.symbol .eq)
          let type ← typeExpr g
          return (⟨n, params, isAlias, type, ← spanFrom start.span⟩ : TypeDecl)) u
        fun d v => s.Makes good (.typeDecl d) v := by
    apply (goes_accept (.symbol .eq)).bind
    intro isAlias v _ huv _
    apply (goes_typeExpr hg).bind
    intro type w _ hvw htype
    have htv := htu.trans huv
    refine goes_closed hstart.2 hs (hn.later (htv.trans hvw)) (fun _ => rfl) fun _ => ?_
    exact List.forall_mem_singleton.2 (htype.after (hst.trans htv))
  refine looks_atTypeParams.bind fun _ _ _ => .ite (fun _ => ?_) fun _ => hdecl _ (.refl t)
  exact (goes_typeParams hg).bind fun params _ _ htu _ => hdecl params htu

theorem goes_constDecl {before : List ConstDecl} (hbefore : LinesPlaced good base before s) :
    Goes good base (constDecl g before) s fun d u => d.iota = before.length ∧ d.Placed good base u.lastStop before := by
  refine looks_peek.bind fun start hs hstart => ?_
  apply (goes_commaSeparated_all (N := fun n : String × Span => .word n.2) fun _ =>
    goes_name.mono fun _ _ _ _ h => h.2.2).bind
  intro names t ht hst hnames
  refine looks_peekKind.bind fun k _ _ => ?_
  extract_lets typed previous ending rest
  -- A line ends behind its values, which are its own or stand in a line before it.
  have hending (values : List Expr) {u : State} (htu : t.Before u)
      (hvalues : ∀ e ∈ values, (SyntaxNode.expr e).Nested good)
      (hwritten : (∀ e ∈ values, e.span.Inside ⟨s.next.start, u.lastStop⟩) ∨
        ∃ line ∈ before, values = line.values ∧ line.iota < before.length ∧ ∀ e ∈ values, e.span.Inside line.span) :
      Goes good base (ending values) u fun d v => d.iota = before.length ∧ d.Placed good base v.lastStop before := by
    have hpast : s.Past u := hnames.1.later htu
    refine (looks_spanFrom hstart.2 hpast).bind fun span hu hspan => .pure ⟨rfl, ?_⟩
    subst hspan
    refine ⟨hpast.within hs hu, hs.base_le, Nat.le_refl _, hnames.2.later htu, hvalues, ?_⟩
    refine hwritten.imp_right fun ⟨line, hline, hsame, hiota, hinside⟩ => ⟨line, hline, hsame, hiota, ?_, hinside⟩
    exact Nat.le_trans (hbefore line hline).2.stop hs.lastStop_le
  have hprevious : (∀ e ∈ previous, (SyntaxNode.expr e).Nested good) ∧
      (previous = [] ∨ ∃ line ∈ before, previous = line.values ∧ line.iota < before.length ∧
        ∀ e ∈ previous, e.span.Inside line.span) := by
    cases hlast : before.getLast? with
    | none => simp [previous, hlast]
    | some last =>
      have hmem : last ∈ before := List.mem_of_getLast? hlast
      obtain ⟨hiota, hplaced⟩ := hbefore last hmem
      obtain ⟨line, hline, hsame, hle, hinside⟩ := hplaced.exists_line hmem
      have hvalues : previous = last.values := by simp [previous, hlast]
      rw [hvalues]
      exact ⟨hplaced.values, .inr ⟨line, hline, hsame, Nat.lt_of_le_of_lt hle hiota, hinside⟩⟩
  have hrest {u : State} (htu : t.Before u) :
      Goes good base (rest ()) u fun d v => d.iota = before.length ∧ d.Placed good base v.lastStop before := by
    refine .ifAccept (isFixed_symbol .eq) (fun v _ huv _ => ?_) (.ite (fun _ => ?_) fun _ => ?_)
    · apply (goes_commaSeparated_all (N := .expr) fun _ => goes_binaryExpr hg 1).bind
      intro values w _ hvw hvalues
      have htv := htu.trans huv
      refine hending values (htv.trans hvw) (fun e he => (hvalues.2 e he).nested) (.inl fun e he => ?_)
      have hvalue := hvalues.2.after (hst.trans htv) e he
      exact ⟨hvalue.start, hvalue.stop⟩
    · exact (looks_spanFrom hstart.2 (hnames.1.later htu)).bind fun _ _ _ => goes_fail_bind
    · refine hending previous htu hprevious.1 (hprevious.2.imp_left fun hnil => ?_)
      rw [hnil]
      exact nofun
  refine .ite (fun _ => ?_) fun _ => hrest (.refl t)
  apply (goes_typeExpr hg).bind
  intro type u hu htu htype
  exact (goes_keepStructs (htype.kept ht)).bind fun _ _ _ huv _ => hrest (htu.trans huv)

/-! ## Files -/

theorem goes_constDecls :
    Goes good base (declaration .const (constDecl g)) s fun lines u => LinesPlaced good base lines u :=
  goes_declaration (fun _ _ _ htu hlines => hlines.later htu) nofun fun _ _ _ _ hlines =>
    (goes_constDecl hg hlines).mono fun _ _ _ htu hd => hlines.concat htu hd.2 hd.1

theorem goes_declarations (file : SourceFile) (hfile : file.Placed good base s.lastStop) :
    Goes good base (declarations g file) s fun file u => file.Placed good base u.lastStop := by
  refine goes_repeating (I := fun file u => SourceFile.Placed good base u.lastStop file) hfile ?_
  intro file t _ _ hfile
  refine looks_peek.bind fun next ht _ => ?_
  split
  · exact .pure hfile
  · exact goes_advance.bind fun _ _ _ htu _ => .pure (hfile.later htu.lastStop)
  · apply (goes_declaration_all (N := .import_) fun _ _ => goes_importSpec).bind
    intro more u _ htu hmore
    have hfile := hfile.later htu.lastStop
    exact .pure ⟨List.forall_mem_append.2 ⟨hfile.imports, hmore.kept ht⟩, hfile.types, hfile.consts⟩
  · apply (goes_declaration_all (N := .typeDecl) fun _ _ => goes_typeDecl hg).bind
    intro more u _ htu hmore
    have hfile := hfile.later htu.lastStop
    exact .pure ⟨hfile.imports, List.forall_mem_append.2 ⟨hfile.types, hmore.kept ht⟩, hfile.consts⟩
  · apply (goes_constDecls hg).bind
    intro more u _ htu hmore
    have hfile := hfile.later htu.lastStop
    refine .pure ⟨hfile.imports, hfile.types, List.forall_mem_append.2 ⟨fun d hd => ?_, fun d hd => ?_⟩⟩
    · exact (hfile.consts d hd).mono (Nat.le_refl _) fun _ hline => List.mem_append_left _ hline
    · exact (hmore d hd).2.mono (Nat.le_refl _) fun _ hline => List.mem_append_right _ hline
  · exact (goes_skipDeclaration hg).bind fun _ _ _ htu _ => .pure (hfile.later htu.lastStop)
  · exact (goes_skipDeclaration hg).bind fun _ _ _ htu _ => .pure (hfile.later htu.lastStop)
  · exact goes_fail

end

theorem goes_takeLocals : Goes good base takeLocals s fun ls t =>
    t.lastStop = s.lastStop ∧ ∀ l ∈ ls, (SyntaxNode.struct l.type).Between good base s.lastStop :=
  fun hs => ⟨⟨hs.stream, hs.lastStop, hs.follow, hs.room, hs.base_le, nofun⟩, ⟨Nat.le_refl _, Nat.le_refl _⟩, rfl,
    hs.locals⟩

theorem looks_get : Looks good base get s fun u => u = s := fun hs => ⟨hs, .refl s, rfl, rfl⟩

theorem goes_packageClause : Goes good base packageClause s fun clause t =>
    clause = ⟨clause.package, [], [], [], [], clause.span⟩ ∧ clause.span.start = s.next.start ∧ s.Past t := by
  refine looks_peek.bind fun ⟨kind, start⟩ hs hstart => ?_
  obtain rfl : start = s.next := hstart.2
  apply (goes_expect (isFixed_keyword .package)).bind
  intro _ t _ _ hpackage
  apply goes_identifier.bind
  intro package u _ htu _
  apply goes_declarationEnd.bind
  intro _ v _ huv _
  exact .pure ⟨rfl, rfl, (State.Past.of_eq hpackage.2).later (htu.trans huv)⟩

/-- What is in a file lies in the span around it, or is a repeated value. -/
theorem goes_sourceFile : Goes good s.next.start sourceFile s fun file _ => ∀ n, (SyntaxNode.file file).Has n →
    n.span.Within good ∧ ∀ c ∈ n.inner, c.span.Inside n.span ∨ n.Repeats file c := by
  refine goes_withGrammar fun g hg hs => goes_packageClause.bind ?_ hs
  rintro clause v _ _ ⟨hclause, hstart, hpackage⟩
  apply (goes_declarations hg clause (hclause ▸ ⟨nofun, nofun, nofun⟩)).bind
  intro file w _ hvw hfile
  apply goes_takeLocals.bind
  rintro locals x hx - ⟨hlast, hlocals⟩
  refine looks_get.bind fun last _ hsame => .pure fun n hn => ?_
  subst hsame
  have hpast : s.Past last := by
    rw [State.Past, hlast]
    exact hpackage.later hvw
  rw [← hlast] at hfile hlocals
  rw [hstart] at hn ⊢
  exact SourceFile.Placed.of_has ⟨hfile.imports, hfile.types, hfile.consts⟩ hlocals (hpast.within hs hx) hn

theorem ordered_ofSource (source : String) :
    (State.ofSource source).Ordered (IsBoundary source) (State.ofSource source).next.start where
  stream := Stream.within_ofSource source
  lastStop := isBoundary_zero source
  follow := Stream.follow_ofSource source
  room := Stream.takesRoom_ofSource source
  base_le := Nat.le_refl _
  locals := nofun

end Parser

/-! ## Valid spans -/

/-- Whether a span is one of a source: it runs forward between character boundaries of it, so its length is what lies
    between its ends, and the source has a text there. -/
structure Span.Valid (source : String) (s : Span) : Prop where
  start_le_stop : s.start ≤ s.stop
  stop_le : s.stop ≤ source.utf8ByteSize
  start : IsBoundary source s.start
  stop : IsBoundary source s.stop
  start_add_length : s.start + s.length = s.stop
  spells : s.Spells source (s.slice source)

theorem IsBoundary.exists_append {source : String} {n : Nat} (h : IsBoundary source n) :
    ∃ before after, source = before ++ after ∧ n = before.utf8ByteSize := by
  obtain ⟨before, after, happend, hn⟩ := String.Pos.Raw.isValid_iff_exists_append.1 h
  exact ⟨before, after, happend, congrArg String.Pos.Raw.byteIdx hn⟩

namespace Span.Within

variable {source : String} {s : Span}

theorem exists_spells (h : s.Within (IsBoundary source)) : ∃ text, s.Spells source text := by
  obtain ⟨start, stop⟩ := s
  obtain ⟨before, rest, hsource, rfl⟩ := h.start.exists_append
  obtain ⟨front, after, hsource', rfl⟩ := h.stop.exists_append
  have hle : before.utf8ByteSize ≤ front.utf8ByteSize := h.start_le_stop
  have happend : before.toList ++ rest.toList = front.toList ++ after.toList := by
    rw [← String.toList_append, ← String.toList_append, ← hsource, ← hsource']
  rcases List.append_eq_append_iff.1 happend with ⟨text, hfront, -⟩ | ⟨text, hbefore, -⟩
  · obtain rfl : front = before ++ .ofList text := String.toList_inj.1 (by simp [hfront])
    exact ⟨.ofList text, before, after, hsource', by rw [String.utf8ByteSize_append]⟩
  · -- The ends are the same, so the text is empty.
    obtain rfl : before = front ++ .ofList text := String.toList_inj.1 (by simp [hbefore])
    rw [String.utf8ByteSize_append] at hle
    refine ⟨"", front ++ .ofList text, rest, by simp [hsource], ?_⟩
    simp only [String.utf8ByteSize_append, String.utf8ByteSize_empty, Span.mk.injEq, true_and]
    omega

theorem valid (h : s.Within (IsBoundary source)) : s.Valid source where
  start_le_stop := h.start_le_stop
  stop_le := h.stop.le_utf8ByteSize
  start := h.start
  stop := h.stop
  start_add_length := Nat.add_sub_cancel' h.start_le_stop
  spells := by
    obtain ⟨text, htext⟩ := h.exists_spells
    exact htext.slice_eq.symm ▸ htext

end Span.Within

theorem SyntaxNode.Has.valid_of_parse {source : String} {file : SourceFile} {n : SyntaxNode}
    (hn : (SyntaxNode.file file).Has n) (hparse : SourceFile.parse source = .ok file) :
    n.span.Valid source ∧ ∀ c ∈ n.inner, c.span.Inside n.span ∨ n.Repeats file c := by
  obtain ⟨t, hres⟩ := SourceFile.parse_eq_ok_iff.1 hparse
  have hnested := Parser.goes_sourceFile (Parser.ordered_ofSource source)
  rw [Ends, hres] at hnested
  obtain ⟨-, -, hfile⟩ := hnested
  exact ⟨(hfile n hn).1.valid, (hfile n hn).2⟩

theorem Problem.valid_of_parse {source : String} {p : Problem} (hparse : SourceFile.parse source = .error p) :
    p.span.Valid source := by
  have hstate : (Parser.State.ofSource source).Within (IsBoundary source) :=
    ⟨Token.Stream.within_ofSource source, isBoundary_zero source, nofun⟩
  obtain ⟨t, hres⟩ := SourceFile.parse_eq_error_iff.1 hparse
  have hplaced := Parser.yields_sourceFile _ hstate
  rw [hres] at hplaced
  exact hplaced.valid

/-- Where parsing ends: every span of a file is valid and lies in the span around it, but for the values that a line of
    constants repeats from an earlier line; the span of a problem is valid. -/
theorem spans_valid_and_nested (source : String) :
    (∀ file, SourceFile.parse source = .ok file → ∀ n, (SyntaxNode.file file).Has n →
      n.span.Valid source ∧ ∀ c ∈ n.inner, c.span.Inside n.span ∨ n.Repeats file c) ∧
    ∀ p, SourceFile.parse source = .error p → p.span.Valid source :=
  ⟨fun _ hparse _ hn => hn.valid_of_parse hparse, fun _ hparse => Problem.valid_of_parse hparse⟩

/-- A line of constants that repeats a sum, behind a comment that is not all of single bytes. -/
def repeatedSource : String := "package p\nconst (\nA = iota + 1 // é\nB\n)\n"

theorem consts_repeatedSource : (SourceFile.parse repeatedSource).toOption.map
    (fun file => file.consts.map fun d => (d.span, d.values.map (·.span))) =
      some [(⟨18, 30⟩, [⟨22, 30⟩]), (⟨37, 38⟩, [⟨22, 30⟩])] := by decide +kernel

/-- A constant without a value. -/
def missingSource : String := "package p\nconst A // é"

theorem problem_missingSource : (match SourceFile.parse missingSource with
    | .ok _ => none
    | .error p => some p) = some ⟨.missingValue, ⟨16, 17⟩⟩ := by decide +kernel

theorem spans_valid_and_nested_repeated :
    (∃ file line e, SourceFile.parse repeatedSource = .ok file ∧ (SyntaxNode.file file).Has (.constDecl line) ∧
      line.span.Valid repeatedSource ∧ ¬ e.span.Inside line.span ∧ (SyntaxNode.constDecl line).Repeats file (.expr e)) ∧
    ∃ p, SourceFile.parse missingSource = .error p ∧ p.span.Valid missingSource := by
  constructor
  · obtain ⟨file, hparse, hconsts⟩ := exists_of_toOption_map consts_repeatedSource
    obtain ⟨first, rest, hfile, -, hrest⟩ := List.map_eq_cons_iff.1 hconsts
    obtain ⟨line, rest, rfl, hline, -⟩ := List.map_eq_cons_iff.1 hrest
    obtain ⟨hspan, hvalues⟩ := Prod.mk.inj hline
    obtain ⟨e, _, he, hvalue, -⟩ := List.map_eq_cons_iff.1 hvalues
    have hhas : (SyntaxNode.file file).Has (.constDecl line) := .inner (by simp [SyntaxNode.inner, hfile]) .self
    obtain ⟨hvalid, hinner⟩ := (spans_valid_and_nested repeatedSource).1 file hparse (.constDecl line) hhas
    have hout : ¬ e.span.Inside line.span := fun h => by simpa [hspan, hvalue] using h.start
    have hmem : .expr e ∈ (SyntaxNode.constDecl line).inner := by simp [SyntaxNode.inner, he]
    exact ⟨file, line, e, hparse, hhas, hvalid, hout, (hinner (.expr e) hmem).resolve_left hout⟩
  · have hproblem := problem_missingSource
    cases hparse : SourceFile.parse missingSource with
    | ok file => simp [hparse] at hproblem
    | error p => exact ⟨p, rfl, (spans_valid_and_nested missingSource).2 p hparse⟩

end StructPadding
