-- SUMMARY: The declarations of a file are kept in the order in which they stand in it.
import StructPadding.Proofs.Parse.Spans

/-!
# Order of declarations

What a parser makes between two states stands between them, so what it makes of several entries goes up in the source
as the entries do. A declaration begins at a name, and a name takes up room, so no two declarations begin at one place.
-/

namespace StructPadding.Parser

variable {good : Nat → Prop} {base : Nat} {g : Grammar} {s t u : State}

/-! ## Places that go up -/

/-- Whether places go up from the next token of a state on, and are all behind the end of the tokens taken in another
    one. -/
structure State.Climbs (s : State) (places : List Nat) (t : State) : Prop where
  pairwise : places.Pairwise (· < ·)
  next_le : ∀ n ∈ places, s.next.start ≤ n
  lt_lastStop : ∀ n ∈ places, n < t.lastStop

namespace State.Climbs

variable {places more : List Nat}

theorem nil : s.Climbs [] t := ⟨.nil, nofun, nofun⟩

theorem single (h : s.next.start < t.lastStop) : s.Climbs [s.next.start] t :=
  ⟨List.pairwise_singleton .., by simp, by simpa using h⟩

theorem later (h : s.Climbs places t) (htu : t.Before u) : s.Climbs places u :=
  ⟨h.pairwise, h.next_le, fun n hn => Nat.lt_of_lt_of_le (h.lt_lastStop n hn) htu.lastStop⟩

/-- What is made next stands behind what has been made. -/
theorem append (h : s.Climbs places t) (hst : s.Before t) (ht : t.Ordered good base) (htu : t.Before u)
    (hmore : t.Climbs more u) : s.Climbs (places ++ more) u where
  pairwise := by
    refine List.pairwise_append.2 ⟨h.pairwise, hmore.pairwise, fun n hn m hm => ?_⟩
    calc n < t.lastStop := h.lt_lastStop n hn
      _ ≤ t.next.start := ht.lastStop_le
      _ ≤ m := hmore.next_le m hm
  next_le := List.forall_mem_append.2 ⟨h.next_le, fun n hn => Nat.le_trans hst.next (hmore.next_le n hn)⟩
  lt_lastStop := List.forall_mem_append.2 ⟨(h.later htu).lt_lastStop, hmore.lt_lastStop⟩

end State.Climbs

/-- Entries that go up, one after the other. -/
theorem Goes.climbs {α : Type} {entry : List α → Parser α} {places : α → List Nat}
    (hentry : ∀ as t, Goes good base (entry as) t fun a u => t.Climbs (places a) u) (as : List α) (t : State)
    (ht : t.Ordered good base) (hst : s.Before t) (has : s.Climbs (as.flatMap places) t) :
    Goes good base (entry as) t fun a u => s.Climbs ((as ++ [a]).flatMap places) u := by
  refine (hentry as t).mono fun a u _ htu ha => ?_
  rw [List.flatMap_append, List.flatMap_singleton]
  exact has.append hst ht htu ha

theorem goes_declaration_climbs {α : Type} {keyword : Token.Keyword} {entry : List α → Parser α}
    {places : α → List Nat} (hentry : ∀ as t, Goes good base (entry as) t fun a u => t.Climbs (places a) u) :
    Goes good base (declaration keyword entry) s fun as u => s.Climbs (as.flatMap places) u :=
  goes_declaration (fun _ _ _ htu has => has.later htu) .nil (Goes.climbs hentry)

theorem goes_commaSeparated_climbs {α : Type} {item : Parser α} (places : α → List Nat)
    (hitem : ∀ t, Goes good base item t fun a u => t.Climbs (places a) u) :
    Goes good base (commaSeparated item) s fun as u => s.Climbs (as.flatMap places) u := by
  refine goes_commaSeparated (fun _ _ _ htu has => has.later htu) ?_ (Goes.climbs fun _ => hitem)
  exact (hitem s).mono fun a u _ _ ha => by rwa [List.flatMap_singleton]

/-! ## Entries -/

theorem goes_name_climbs : Goes good base name s fun n u => n.2 = s.next ∧ s.Climbs [n.2.start] u := by
  refine goes_name.mono fun n u _ _ hn => ⟨hn.1, ?_⟩
  rw [hn.1]
  exact .single (Nat.lt_of_lt_of_le hn.2.1 hn.2.2.past)

theorem goes_identifier_climbs : Goes good base identifier s fun _ u => s.Climbs [s.next.start] u :=
  goes_name_climbs.bind fun _ _ _ _ h => .pure (h.1 ▸ h.2)

theorem looks_spanFrom_start (first : Span) :
    Looks good base (spanFrom first) s fun span => span.start = first.start :=
  fun hs => .get_bind (.pure ⟨hs, .refl s, rfl, rfl⟩)

section

variable (hg : g.Nests good base)
include hg

/-- A type declaration begins at its name. -/
theorem goes_typeDecl_climbs : Goes good base (typeDecl g) s fun d u => s.Climbs [d.span.start] u := by
  refine looks_peek.bind fun start _ hstart => ?_
  apply goes_identifier_climbs.bind
  intro n t _ _ hn
  have hdecl (params : List String) {u : State} (htu : t.Before u) :
      Goes good base (do
          let isAlias ← accept (.symbol .eq)
          let type ← typeExpr g
          return (⟨n, params, isAlias, type, ← spanFrom start.span⟩ : TypeDecl)) u
        fun d v => s.Climbs [d.span.start] v := by
    refine (goes_accept _).bind fun _ v _ huv _ => (goes_typeExpr hg).bind fun _ w _ hvw _ => ?_
    refine (looks_spanFrom_start _).bind fun span _ hspan => .pure ?_
    rw [hspan, hstart.2]
    exact hn.later (htu.trans (huv.trans hvw))
  refine looks_atTypeParams.bind fun _ _ _ => .ite (fun _ => ?_) fun _ => hdecl _ (.refl t)
  exact (goes_typeParams hg).bind fun params _ _ htu _ => hdecl params htu

theorem goes_constDecl_climbs (before : List ConstDecl) :
    Goes good base (constDecl g before) s fun d u => s.Climbs (d.names.map (·.2.start)) u := by
  refine looks_peek.bind fun start _ _ => ?_
  apply (goes_commaSeparated_climbs (fun n : String × Span => [n.2.start]) fun _ =>
    goes_name_climbs.mono fun _ _ _ _ h => h.2).bind
  intro names t ht _ hnames
  rw [← List.map_eq_flatMap] at hnames
  refine looks_peekKind.bind fun k _ _ => ?_
  extract_lets typed previous ending rest
  have hending (values : List Expr) {u : State} (htu : t.Before u) :
      Goes good base (ending values) u fun d v => s.Climbs (d.names.map (·.2.start)) v :=
    (looks_spanFrom_start _).bind fun _ _ _ => .pure (hnames.later htu)
  have hrest {u : State} (htu : t.Before u) :
      Goes good base (rest ()) u fun d v => s.Climbs (d.names.map (·.2.start)) v := by
    refine .ifAccept (isFixed_symbol .eq) (fun v _ huv _ => ?_) (.ite (fun _ => ?_) fun _ => hending _ htu)
    · apply (goes_commaSeparated_all (N := .expr) fun _ => goes_binaryExpr hg 1).bind
      exact fun values w _ hvw _ => hending values (htu.trans (huv.trans hvw))
    · exact (looks_spanFrom_start _).bind fun _ _ _ => goes_fail_bind
  refine .ite (fun _ => ?_) fun _ => hrest (.refl t)
  apply (goes_typeExpr hg).bind
  intro type u _ htu htype
  exact (goes_keepStructs (htype.kept ht)).bind fun _ _ _ huv _ => hrest (htu.trans huv)

end

/-! ## Files -/

/-- Whether the types of a file go up from the next token of a state on, and so do the names of its constants. -/
structure State.InOrder (s : State) (file : SourceFile) (t : State) : Prop where
  types : s.Climbs (file.types.map (·.span.start)) t
  consts : s.Climbs (file.consts.flatMap fun d => d.names.map (·.2.start)) t

theorem State.InOrder.later {file : SourceFile} (h : s.InOrder file t) (htu : t.Before u) : s.InOrder file u :=
  ⟨h.types.later htu, h.consts.later htu⟩

theorem goes_declarations_inOrder (hg : g.Nests good base) {file : SourceFile} (hfile : s.InOrder file s) :
    Goes good base (declarations g file) s fun file u => s.InOrder file u := by
  refine goes_repeating (I := fun file u => s.InOrder file u) hfile ?_
  intro file t ht hst hfile
  refine looks_peek.bind fun next _ _ => ?_
  split
  · exact .pure hfile
  · exact goes_advance.bind fun _ _ _ htu _ => .pure (hfile.later htu)
  · exact (goes_declaration_all (N := .import_) fun _ _ => goes_importSpec).bind fun _ _ _ htu _ =>
      .pure ⟨(hfile.later htu).types, (hfile.later htu).consts⟩
  · apply (goes_declaration_climbs fun _ _ => goes_typeDecl_climbs hg).bind
    intro more u _ htu hmore
    rw [← List.map_eq_flatMap] at hmore
    have htypes := hfile.types.append hst ht htu hmore
    rw [← List.map_append] at htypes
    exact .pure ⟨htypes, (hfile.later htu).consts⟩
  · apply (goes_declaration_climbs fun before _ => goes_constDecl_climbs hg before).bind
    intro more u _ htu hmore
    have hconsts := hfile.consts.append hst ht htu hmore
    rw [← List.flatMap_append] at hconsts
    exact .pure ⟨(hfile.later htu).types, hconsts⟩
  · exact (goes_skipDeclaration hg).bind fun _ _ _ htu _ => .pure (hfile.later htu)
  · exact (goes_skipDeclaration hg).bind fun _ _ _ htu _ => .pure (hfile.later htu)
  · exact goes_fail

theorem goes_sourceFile_inOrder : Goes good base sourceFile s fun file _ =>
    (file.types.map (·.span.start)).Pairwise (· < ·) ∧
      (file.consts.flatMap fun d => d.names.map (·.2.start)).Pairwise (· < ·) := by
  refine goes_withGrammar fun g hg => goes_packageClause.bind ?_
  rintro clause t - - ⟨hclause, -, -⟩
  have hstart : t.InOrder clause t := by
    rw [hclause]
    exact ⟨.nil, .nil⟩
  apply (goes_declarations_inOrder hg hstart).bind
  intro file u _ _ hfile
  refine goes_takeLocals.bind fun _ _ _ _ _ => looks_get.bind fun _ _ _ => .pure ?_
  exact ⟨hfile.types.pairwise, hfile.consts.pairwise⟩

end StructPadding.Parser

namespace StructPadding

/-- No two types of a parsed file begin at one place, and they are kept in the order of their places; the same holds of
    the names of constants. -/
theorem SourceFile.inOrder_of_parse {source : String} {file : SourceFile} (h : parse source = .ok file) :
    (file.types.map (·.span.start)).Pairwise (· < ·) ∧
      ((file.consts.flatMap (·.names)).map (·.2.start)).Pairwise (· < ·) := by
  obtain ⟨t, hres⟩ := SourceFile.parse_eq_ok_iff.1 h
  have hfile := (Parser.goes_sourceFile_inOrder (Parser.ordered_ofSource source)).of_ok hres
  rw [List.map_flatMap]
  exact hfile.2.2

end StructPadding
