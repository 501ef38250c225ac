-- SUMMARY: The lines of a struct body are told apart: names with their type, and the forms of embedded types.
import Mathlib.Data.List.Forall2
import StructPadding.Proofs.Parse.Alone
import StructPadding.Proofs.Parse.RenderedType

/-!
# Struct bodies

A line of a struct body is names with a type, or an embedded type. The token behind its first name tells which. A name
in front of a bracket is taken for that of a field with an array or a slice for its type, so that an embedded type with
arguments has to be a pointer or of another package. All other lines are found for what they are, with whatever types
and arguments can be parsed on their own.
-/

namespace StructPadding.Parser

open Token (Kind Event)

/-! ## Lines -/

/-- A line of a struct body, with its tag. -/
inductive Line
  | declared (name : String) (names : List String) (type : TypeExpr) (tag : Option String)
  | embedded (pointer : Bool) (package : Option String) (name : String) (args : List TypeExpr) (tag : Option String)

namespace Line

/-- The type of a line, up to its places. -/
def type : Line → TypeExpr
  | declared _ _ type _ => type
  | embedded true package name args _ => .pointer (.named package name args default) default
  | embedded false package name args _ => .named package name args default

/-- The field of a line, up to its places. -/
def field : Line → FieldDecl
  | line@(declared name names _ tag) => ⟨name :: names, line.type, tag, default⟩
  | line@(embedded _ _ _ _ tag) => ⟨[], line.type, tag, default⟩

/-- Whether a field is the one of a line: with the names and the type of it, or embedded, and named after its type. -/
def Declares (line : Line) (f : FieldDecl) : Prop :=
  f.type.unplaced = line.type.unplaced ∧
    match line with
    | declared name names _ tag => f.isEmbedded = false ∧ f.fieldNames = name :: names ∧ f.tag = tag
    | embedded _ _ name _ tag => f.isEmbedded = true ∧ f.fieldNames = [name] ∧ f.tag = tag

/-- Whether the token behind the first name tells what a line is. It does not where that token is the bracket of the
    arguments of an embedded type. -/
def IsTold : Line → Prop
  | embedded false none _ args _ => args = []
  | _ => True

end Line

/-- Whether tokens are arguments between brackets, each of which parses on its own. There may be a comma behind the
    last. -/
inductive WritesArgs : List TypeExpr → List Token → Prop
  | last {t ts} : ReadsAlone typeExpr ts t → WritesArgs [t] ts
  | trailing {t ts comma} : ReadsAlone typeExpr ts t → WritesArgs [t] (ts ++ [⟨.symbol .comma, comma⟩])
  | next {t ts comma args us} : ReadsAlone typeExpr ts t → WritesArgs args us →
      WritesArgs (t :: args) (ts ++ ⟨.symbol .comma, comma⟩ :: us)

/-- Whether tokens are what stands behind a name: nothing, or arguments in brackets. -/
inductive WritesInstance : List TypeExpr → List Token → Prop
  | plain : WritesInstance [] []
  | args {args ts openSpan closeSpan} : WritesArgs args ts →
      WritesInstance args (⟨.symbol .lBracket, openSpan⟩ :: (ts ++ [⟨.symbol .rBracket, closeSpan⟩]))

/-- Whether tokens are a tag, or none. -/
inductive WritesTag : Option String → List Token → Prop
  | absent : WritesTag none []
  | literal {text span} : WritesTag (some (unquote text)) [⟨.literal .string text, span⟩]

/-- Whether tokens are a line. -/
inductive Line.Writes : Line → List Token → Prop
  | declared {name span names type tag ns ts us} : ns.map (·.kind) = namesKinds names → ReadsAlone typeExpr ts type →
      WritesTag tag us → Writes (.declared name names type tag) (⟨.identifier name, span⟩ :: (ns ++ (ts ++ us)))
  | embedded {package name args tag ns ts us} : ns.map (·.kind) = nameKinds package name → WritesInstance args ts →
      WritesTag tag us → Writes (.embedded false package name args tag) (ns ++ (ts ++ us))
  | pointer {star package name args tag ns ts us} : ns.map (·.kind) = nameKinds package name → WritesInstance args ts →
      WritesTag tag us → Writes (.embedded true package name args tag) (⟨.symbol .star, star⟩ :: (ns ++ (ts ++ us)))

/-- Whether tokens are the lines of a struct body, with separators behind them, of which there may be more. None is
    needed in front of the brace that closes the struct. -/
def WritesBody : List Line → List Token → Prop := WritesEntries Line.Writes

variable {g : Grammar} {depth : Nat} {ts us : List Token} {es rest : List Event} {s t : State} {e : TypeExpr}
  {args : List TypeExpr} {package tag : Option String} {name : String} {line : Line} {lines : List Line}

/-! ## First tokens -/

theorem WritesTag.nextKind? (h : WritesTag tag us) (hrest : EndsField rest) :
    ∃ kind, Parser.nextKind? (us.map .ok ++ rest) = some kind ∧ IsApart kind ∧ endsEmbedded kind = true := by
  cases h with
  | absent => rcases hrest with hk | hk <;> exact ⟨_, hk, ⟨nofun, rfl, rfl⟩, rfl⟩
  | literal => exact ⟨_, rfl, ⟨nofun, rfl, rfl⟩, rfl⟩

theorem Line.Writes.exists_startsField (h : line.Writes ts) :
    ∃ b us, ts = b :: us ∧ b.kind ≠ .symbol .semi ∧ b.kind ≠ .symbol .rBrace := by
  cases h with
  | declared => exact ⟨_, _, rfl, nofun, nofun⟩
  | pointer => exact ⟨_, _, rfl, nofun, nofun⟩
  | @embedded package name _ _ ns ts us hns =>
    obtain ⟨n, ks, heq⟩ := exists_nameKinds_eq package name
    obtain ⟨b, _, rfl, hb, -⟩ := List.map_eq_cons_iff.1 (hns.trans heq)
    exact ⟨b, _, rfl, by rw [hb]; nofun, by rw [hb]; nofun⟩

/-! ## Types -/

/-- A type at a place where the grammar is entered. -/
theorem ReadsAlone.nested (h : ReadsAlone typeExpr ts e) (hdepth : ts.length < depth) (hrest : IsEnd rest) :
    Parses (Grammar.ofDepth depth).type (ts.map .ok ++ rest) (FindsType e rest) := by
  obtain ⟨depth, rfl⟩ := Nat.exists_eq_succ_of_ne_zero (Nat.ne_zero_of_lt hdepth)
  refine (h.type (Nat.le_of_lt_succ hdepth) hrest).mono ?_
  rintro _ _ ⟨rfl, rfl⟩
  exact ⟨rfl, rfl⟩

theorem WritesArgs.repeats (h : WritesArgs args ts) (hdepth : ts.length < depth) (found : List TypeExpr)
    (closeSpan : Span) (rest : List Event) :
    Repeats (argTurn (.ofDepth depth)) found (ts.map .ok ++ .ok ⟨.symbol .rBracket, closeSpan⟩ :: rest)
      (FindsTypes (found ++ args) (.ok ⟨.symbol .rBracket, closeSpan⟩ :: rest)) := by
  induction h generalizing found with
  | last ht =>
    obtain ⟨kind, hnext, hkind⟩ := ht.exists_startsType (.ok ⟨.symbol .rBracket, closeSpan⟩ :: rest)
    exact repeats_argTurn_last hnext hkind (ht.nested hdepth ⟨_, rfl, nofun, rfl, rfl⟩) found
  | @trailing t ts comma ht =>
    obtain ⟨kind, hnext, hkind⟩ :=
      ht.exists_startsType (.ok ⟨.symbol .comma, comma⟩ :: .ok ⟨.symbol .rBracket, closeSpan⟩ :: rest)
    rw [List.length_append] at hdepth
    rw [List.map_append, List.append_assoc]
    refine repeats_argTurn_next hnext hkind ?_ (ht.nested (by omega) ⟨_, rfl, nofun, rfl, rfl⟩) (fun found => ?_) found
    · simp only [List.length_append, List.length_cons]
      omega
    · exact .done (.ifCheck rfl rfl (.pure ⟨_, rfl, by rw [List.append_nil], rfl⟩))
  | @next t ts comma args us ht _ ih =>
    obtain ⟨kind, hnext, hkind⟩ :=
      ht.exists_startsType (.ok ⟨.symbol .comma, comma⟩ :: (us.map .ok ++ .ok ⟨.symbol .rBracket, closeSpan⟩ :: rest))
    rw [List.length_append, List.length_cons] at hdepth
    rw [List.map_append, List.append_assoc]
    refine repeats_argTurn_next hnext hkind ?_ (ht.nested (by omega) ⟨_, rfl, nofun, rfl, rfl⟩)
      (fun found => ih (by omega) found) found
    simp only [List.length_append, List.length_cons]
    omega

theorem WritesInstance.parses (h : WritesInstance args ts) (hdepth : ts.length < depth) (hrest : IsEnd rest) :
    Parses (typeArgs (.ofDepth depth)) (ts.map .ok ++ rest) (FindsTypes args rest) := by
  cases h with
  | plain =>
    obtain ⟨kind, hnext, hkind⟩ := hrest
    exact parses_typeArgs_nil ⟨kind, hnext, hkind.1, hkind.2.1⟩
  | @args _ ts openSpan closeSpan hargs =>
    rw [List.length_cons, List.length_append] at hdepth
    rw [List.map_cons, List.cons_append, List.map_append, List.append_assoc]
    exact parses_typeArgs (hargs.repeats (by omega : ts.length < depth) [] closeSpan rest)

theorem WritesInstance.nextKind? (h : WritesInstance args ts) (hrest : IsEnd rest) :
    ∃ kind, Parser.nextKind? (ts.map .ok ++ rest) = some kind ∧ kind ≠ .symbol .dot := by
  cases h with
  | plain =>
    obtain ⟨kind, hnext, hkind⟩ := hrest
    exact ⟨kind, hnext, hkind.1⟩
  | args => exact ⟨_, rfl, nofun⟩

theorem parses_instance (hns : us.map (·.kind) = nameKinds package name) (h : WritesInstance args ts)
    (hdepth : ts.length < depth) (hrest : IsEnd rest) :
    Parses (typeName (.ofDepth depth)) (us.map .ok ++ (ts.map .ok ++ rest))
      (FindsType (.named package name args default) rest) := by
  obtain ⟨kind, hnext, hdot⟩ := h.nextKind? hrest
  exact parses_typeName ⟨us, rfl, hns⟩ hnext hdot (h.parses hdepth hrest)

/-! ## Fields -/

theorem parses_fieldBody_instance (hns : us.map (·.kind) = nameKinds package name) (h : WritesInstance args ts)
    (htold : package = none → args = []) (hdepth : ts.length < depth) {kind : Kind} (hnext : nextKind? rest = some kind)
    (hkind : IsApart kind) (hends : endsEmbedded kind = true) :
    Parses (fieldBody (.ofDepth depth)) (us.map .ok ++ (ts.map .ok ++ rest)) fun body es' =>
      body.1 = [] ∧ FindsType (.named package name args default) rest body.2 es' := by
  have htype := parses_instance hns h hdepth ⟨kind, hnext, hkind⟩
  cases package with
  | none =>
    obtain ⟨⟨_, span⟩, _, rfl, rfl, hnil⟩ := List.map_eq_cons_iff.1 hns
    obtain rfl := List.map_eq_nil_iff.1 hnil
    obtain rfl := htold rfl
    cases h with
    | plain => exact parses_fieldBody_name hnext hends htype
    | args hargs => cases hargs
  | some package =>
    obtain ⟨⟨_, span⟩, _, rfl, rfl, hdot⟩ := List.map_eq_cons_iff.1 hns
    obtain ⟨dot, _, rfl, hdot, -⟩ := List.map_eq_cons_iff.1 hdot
    exact parses_fieldBody_name (k := dot.kind) rfl (by rw [hdot]; rfl) htype

theorem parses_fieldBody_starred {star : Span} (hns : us.map (·.kind) = nameKinds package name)
    (h : WritesInstance args ts) (hdepth : ts.length + 2 < depth) (hrest : IsEnd rest) :
    Parses (fieldBody (.ofDepth depth)) (.ok ⟨.symbol .star, star⟩ :: (us.map .ok ++ (ts.map .ok ++ rest)))
      fun body es' =>
        body.1 = [] ∧ FindsType (.pointer (.named package name args default) default) rest body.2 es' := by
  obtain ⟨depth, rfl⟩ : ∃ d, depth = d + 2 := ⟨depth - 2, by omega⟩
  obtain ⟨n, ks, heq⟩ := exists_nameKinds_eq package name
  have hfirst : nextKind? (us.map .ok ++ (ts.map .ok ++ rest)) = some (.identifier n) := by
    obtain ⟨b, _, rfl, hb, -⟩ := List.map_eq_cons_iff.1 (hns.trans heq)
    exact congrArg some hb
  have htype : Parses (Grammar.ofDepth (depth + 1)).type _ _ :=
    (parses_typeExpr_iff hfirst).2 (parses_instance hns h (by omega) hrest)
  exact parses_fieldBody_pointer (parses_typeExpr_pointer htype)

/-- The field of a line is found, if the token behind its first name tells what the line is. -/
theorem Line.Writes.parses (h : line.Writes ts) (htold : line.IsTold) (hdepth : ts.length < depth)
    (hrest : EndsField rest) :
    Parses (Parser.field (.ofDepth depth)) (ts.map .ok ++ rest) (FindsField line.field rest) := by
  have htagged {names : List String} {e : TypeExpr} {es : List Event} {us : List Token} {tag : Option String}
      {kind : Kind} (htag : WritesTag tag us) (hfirst : nextKind? es = some kind)
      (hbody : Parses (fieldBody (.ofDepth depth)) es fun body es' =>
        body.1 = names ∧ FindsType e (us.map .ok ++ rest) body.2 es') :
      Parses (Parser.field (.ofDepth depth)) es (FindsField ⟨names, e, tag, default⟩ rest) := by
    cases htag with
    | absent => exact parses_field_plain hfirst hbody hrest
    | literal => exact parses_field_tagged hfirst hbody
  cases h with
  | @declared name span names type tag ns ts us hns ht htag =>
    obtain ⟨kind, hnext, hkind⟩ := htag.nextKind? hrest
    obtain ⟨first, hfirst, hstart⟩ := ht.exists_startsType (us.map .ok ++ rest)
    simp only [List.length_cons, List.length_append] at hdepth
    have htype := ht.nested (by omega : ts.length < depth) ⟨kind, hnext, hkind.1⟩
    rw [List.map_cons, List.cons_append, List.map_append, List.append_assoc, List.map_append, List.append_assoc]
    exact htagged htag rfl (parses_fieldBody_declared ⟨ns, rfl, hns⟩ hfirst hstart htype)
  | @embedded package name args tag ns ts us hns hinstance htag =>
    obtain ⟨kind, hnext, hapart, hends⟩ := htag.nextKind? hrest
    simp only [List.length_append] at hdepth
    have htold' : package = none → args = [] := by
      rintro rfl
      exact htold
    have hbody := parses_fieldBody_instance hns hinstance htold' (by omega : ts.length < depth) hnext hapart hends
    obtain ⟨n, ks, heq⟩ := exists_nameKinds_eq package name
    obtain ⟨b, bs, rfl, hb, -⟩ := List.map_eq_cons_iff.1 (hns.trans heq)
    simpa [Line.field, Line.type] using htagged htag rfl hbody
  | @pointer star package name args tag ns ts us hns hinstance htag =>
    obtain ⟨kind, hnext, hapart, -⟩ := htag.nextKind? hrest
    have hnames : 0 < ns.length := by
      obtain ⟨n, ks, heq⟩ := exists_nameKinds_eq package name
      rw [← List.length_map (·.kind), hns, heq]
      exact Nat.succ_pos _
    simp only [List.length_cons, List.length_append] at hdepth
    rw [List.map_cons, List.cons_append, List.map_append, List.append_assoc, List.map_append, List.append_assoc]
    exact htagged htag rfl (parses_fieldBody_starred hns hinstance (by omega : ts.length + 2 < depth)
      ⟨kind, hnext, hapart⟩)

/-! ## Bodies -/

/-- A field that is the one of a line up to places. -/
theorem Line.declares_of_unplaced {f : FieldDecl} (h : f.unplaced = line.field.unplaced) : line.Declares f := by
  have hnames : f.fieldNames = line.field.fieldNames := by
    rw [← f.fieldNames_unplaced, h, FieldDecl.fieldNames_unplaced]
  obtain ⟨names, type, tag, span⟩ := f
  cases line with
  | declared =>
    simp only [field, FieldDecl.unplaced, FieldDecl.mk.injEq] at h
    obtain ⟨rfl, htype, rfl, -⟩ := h
    exact ⟨htype, rfl, hnames, rfl⟩
  | embedded pointer =>
    simp only [field, FieldDecl.unplaced, FieldDecl.mk.injEq] at h
    obtain ⟨rfl, htype, rfl, -⟩ := h
    exact ⟨htype, rfl, by cases pointer <;> exact hnames, rfl⟩

/-- Struct bodies are parsed line by line. Where none of the lines is an embedded type of the same package with
    arguments, and no pointer, a struct with any such lines is parsed, whatever comes behind it. It has a field for each
    of them: with the names and the type of the line, or embedded, with the type that is written and the name of it. -/
theorem structType_lines (hbody : WritesBody lines ts) (htold : ∀ line ∈ lines, line.IsTold)
    {word openSpan closeSpan : Span}
    (hs : s.stream.events = .ok ⟨.keyword .struct, word⟩ :: .ok ⟨.symbol .lBrace, openSpan⟩ ::
      (ts.map .ok ++ .ok ⟨.symbol .rBrace, closeSpan⟩ :: rest)) :
    ∃ st t, withGrammar structType s = .ok st t ∧ t.stream.events = rest ∧
      List.Forall₂ Line.Declares lines st.fields := by
  have hdepth : ts.length < s.remaining + 1 := by
    simp only [State.remaining, hs, List.length_cons, List.length_append, List.length_map]
    omega
  have hentry (line : Line) (hline : line ∈ lines) (us : List Token) (es : List Event) (hus : line.Writes us)
      (hlength : us.length < s.remaining + 1) (hes : EndsField es) :
      Parses (field (.ofDepth (s.remaining + 1))) (us.map .ok ++ es) fun f es' => line.Declares f ∧ es' = es :=
    (hus.parses (htold line hline) hlength hes).mono fun _ _ h => ⟨Line.declares_of_unplaced h.1, h.2⟩
  have hstruct : Parses (structType (.ofDepth (s.remaining + 1))) s.stream.events fun st es' =>
      List.Forall₂ Line.Declares lines st.fields ∧ es' = rest := by
    rw [hs]
    refine (parses_expect rfl _).step ((parses_expect rfl _).step ?_)
    refine (WritesEntries.parses hbody (by decide) hdepth (fun _ _ _ => Line.Writes.exists_startsField) hentry).bind ?_
    rintro found _ ⟨hfound, rfl⟩
    exact (parses_expect rfl rest).step (.pure ⟨hfound, rfl⟩)
  obtain ⟨st, t, hres, hfields, ht⟩ := hstruct s rfl
  exact ⟨st, t, hres, ht, hfields⟩

/-- The lines ``*p.W[int,] `w`;`` and `a, b U`. -/
def mixedBody : List Token :=
  tokensAt 2 [.symbol .star, .identifier "p", .symbol .dot, .identifier "W", .symbol .lBracket, .identifier "int",
    .symbol .comma, .symbol .rBracket, .literal .string "`w`", .symbol .semi, .identifier "a", .symbol .comma,
    .identifier "b", .identifier "U"]

/-- The lines of it. -/
def mixedLines : List Line :=
  [.embedded true (some "p") "W" [.named none "int" [] ⟨7, 8⟩] (some (unquote "`w`")),
    .declared "a" ["b"] (.named none "U" [] ⟨15, 16⟩) none]

theorem writesBody_mixedBody : WritesBody mixedLines mixedBody := by
  have hqualified : (tokensAt 3 [.identifier "p", .symbol .dot, .identifier "W"]).map (·.kind) =
      nameKinds (some "p") "W" := rfl
  have hnames : (tokensAt 13 [.symbol .comma, .identifier "b"]).map (·.kind) = namesKinds ["b"] := rfl
  exact .next (Line.Writes.pointer hqualified (.args (.trailing (readsAlone_name "int" ⟨7, 8⟩))) .literal)
    (.last (Line.Writes.declared hnames (readsAlone_name "U" ⟨15, 16⟩) .absent))

theorem structType_lines_mixedBody :
    WritesBody mixedLines mixedBody ∧ (∀ line ∈ mixedLines, line.IsTold) ∧
      ∃ st t, withGrammar structType (.ofTokens 17 (⟨.keyword .struct, ⟨0, 1⟩⟩ :: ⟨.symbol .lBrace, ⟨1, 2⟩⟩ ::
        (mixedBody ++ [⟨.symbol .rBrace, ⟨16, 17⟩⟩]))) = .ok st t ∧ t.stream.events = [] ∧
          List.Forall₂ Line.Declares mixedLines st.fields := by
  have htold : ∀ line ∈ mixedLines, line.IsTold := by simp [mixedLines, Line.IsTold]
  exact ⟨writesBody_mixedBody, htold, structType_lines writesBody_mixedBody htold rfl⟩

/-- In ``struct { U[int] }`` the embedded `U[int]` is taken for a field `U` with the length `int` for an array, of which
    the element is missing. -/
theorem not_all_structType_lines :
    ¬ ∀ (lines : List Line) (ts : List Token) (word openSpan closeSpan : Span) (rest : List Event) (s : State),
      WritesBody lines ts →
      s.stream.events = .ok ⟨.keyword .struct, word⟩ :: .ok ⟨.symbol .lBrace, openSpan⟩ ::
        (ts.map .ok ++ .ok ⟨.symbol .rBrace, closeSpan⟩ :: rest) →
      ∃ st t, withGrammar structType s = .ok st t ∧ t.stream.events = rest ∧
        List.Forall₂ Line.Declares lines st.fields := by
  intro hall
  have hname : (tokensAt 2 [.identifier "U"]).map (·.kind) = nameKinds none "U" := rfl
  have hbody : WritesBody [.embedded false none "U" [.named none "int" [] ⟨4, 5⟩] none]
      (tokensAt 2 [.identifier "U", .symbol .lBracket, .identifier "int", .symbol .rBracket]) :=
    .last (Line.Writes.embedded hname (.args (.last (readsAlone_name "int" ⟨4, 5⟩))) .absent)
  let s : State := .ofTokens 7 (tokensAt 0 [.keyword .struct, .symbol .lBrace, .identifier "U", .symbol .lBracket,
    .identifier "int", .symbol .rBracket, .symbol .rBrace])
  obtain ⟨st, t, hres, -⟩ := hall _ _ ⟨0, 1⟩ ⟨1, 2⟩ ⟨6, 7⟩ [] s hbody rfl
  have hnone : seen? (fun _ _ => ()) (withGrammar structType s) = none := by
    unfold s
    decide +kernel
  rw [hres] at hnone
  cases hnone

end StructPadding.Parser
