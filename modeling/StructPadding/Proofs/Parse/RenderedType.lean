-- SUMMARY: A type that is written as tokens is parsed back.
import StructPadding.Proofs.Parse.Entries
import StructPadding.Proofs.Parse.RenderedExpr

/-!
# Types read back

The parser finds the type that tokens were written for, and takes all of them but no more, where no type begins behind
them. A list of arguments or of fields is found by a loop, of which it is said what the loop comes to that has found
some of them before.
-/

namespace StructPadding.Parser

open Token (Kind Event)

/-- Whether a token comes next that neither begins a type nor goes on with a name, as no semicolon, comma or closing
    bracket does, and as the end of the file does not. -/
def EndsType (rest : List Event) : Prop :=
  ∃ k, nextKind? rest = some k ∧ k ≠ .symbol .dot ∧ k.startsType = false

/-- Whether a token comes next that ends a field. -/
def EndsField (rest : List Event) : Prop := EndsEntry .rBrace rest

/-- Whether a result is a type up to its places, and given events are left. -/
def FindsType (t : TypeExpr) : List Event → TypeExpr → List Event → Prop := FindsUpTo TypeExpr.unplaced t

def FindsTypes (ts : List TypeExpr) : List Event → List TypeExpr → List Event → Prop :=
  FindsUpTo (List.map TypeExpr.unplaced) ts

def FindsField (f : FieldDecl) : List Event → FieldDecl → List Event → Prop := FindsUpTo FieldDecl.unplaced f

def FindsFields (fs : List FieldDecl) : List Event → List FieldDecl → List Event → Prop :=
  FindsUpTo (List.map FieldDecl.unplaced) fs

variable {g : Grammar} {t e : TypeExpr} {es rest : List Event} {span : Span}

/-! ## Names -/

/-- The turn of the loop over type arguments. -/
def argTurn (g : Grammar) (args : List TypeExpr) : Parser (ForInStep (List TypeExpr)) := do
  if ← check (.symbol .rBracket) then return .done args
  let t ← g.type
  if ← accept (.symbol .comma) then return .yield (args ++ [t])
  return .done (args ++ [t])

theorem parses_typeArgs_nil (hrest : EndsType rest) : Parses (typeArgs g) rest (FindsTypes [] rest) := by
  obtain ⟨k, hk, -, hstart⟩ := hrest
  exact .ifAcceptNot hk (isLike_symbol_of_test hstart rfl) (.pure ⟨rfl, rfl⟩)

theorem parses_typeArgs {ts : List TypeExpr} {openSpan closeSpan : Span}
    (h : Repeats (argTurn g) [] es (FindsTypes ts (.ok ⟨.symbol .rBracket, closeSpan⟩ :: rest))) :
    Parses (typeArgs g) (.ok ⟨.symbol .lBracket, openSpan⟩ :: es) (FindsTypes ts rest) := by
  refine .ifAccept rfl ?_
  refine (Parses.repeating h).bind ?_
  rintro args _ ⟨hargs, rfl⟩
  exact (parses_expect rfl rest).step (.pure ⟨hargs, rfl⟩)

theorem repeats_argTurn_last {k : Kind} (hfirst : nextKind? es = some k) (hk : k.startsType = true)
    {closeSpan : Span} (ht : Parses g.type es (FindsType t (.ok ⟨.symbol .rBracket, closeSpan⟩ :: rest)))
    (ts : List TypeExpr) :
    Repeats (argTurn g) ts es (FindsTypes (ts ++ [t]) (.ok ⟨.symbol .rBracket, closeSpan⟩ :: rest)) := by
  refine .done (.ifCheckNot hfirst (isLike_symbol_of_test hk rfl) (ht.bind ?_))
  rintro t' _ ⟨hsame, rfl⟩
  exact .ifAcceptNot rfl rfl (.pure ⟨_, rfl, by simp [hsame], rfl⟩)

theorem repeats_argTurn_next {k : Kind} (hfirst : nextKind? es = some k) (hk : k.startsType = true) {mid : List Event}
    {comma : Span} (hlength : mid.length < es.length)
    (ht : Parses g.type es (FindsType t (.ok ⟨.symbol .comma, comma⟩ :: mid))) {us : List TypeExpr}
    (hus : ∀ ts, Repeats (argTurn g) ts mid (FindsTypes (ts ++ us) rest)) (ts : List TypeExpr) :
    Repeats (argTurn g) ts es (FindsTypes (ts ++ t :: us) rest) := by
  refine .next (.ifCheckNot hfirst (isLike_symbol_of_test hk rfl) (ht.bind ?_))
  rintro t' _ ⟨hsame, rfl⟩
  refine .ifAccept rfl (.pure ⟨_, rfl, hlength, (hus (ts ++ [t'])).mono ?_⟩)
  rintro args es' ⟨hargs, rfl⟩
  exact ⟨hargs.trans (by simp [hsame]), rfl⟩

/-- A type that begins with an identifier is a name. -/
theorem typeExpr_eq_typeName {n : String} {s : State} (h : nextKind? s.stream.events = some (.identifier n)) :
    typeExpr g s = typeName g s := by
  obtain ⟨⟨_, span⟩, hpeek, rfl⟩ := peek_eq_ok h
  simp only [typeExpr, bind, EStateM.bind, hpeek]

theorem parses_typeExpr_iff {n : String} (h : nextKind? es = some (.identifier n)) {Q : TypeExpr → List Event → Prop} :
    Parses (typeExpr g) es Q ↔ Parses (typeName g) es Q :=
  forall_congr' fun s => forall_congr' fun hs => by rw [typeExpr_eq_typeName (hs ▸ h)]

theorem parses_typeName {package : Option String} {name : String} {args : List TypeExpr} {mid : List Event}
    (hes : Writes (nameKinds package name) es mid) {k : Kind} (hk : nextKind? mid = some k) (hdot : k ≠ .symbol .dot)
    (hargs : Parses (typeArgs g) mid (FindsTypes args rest)) :
    Parses (typeName g) es (FindsType (.named package name args span) rest) := by
  cases package with
  | none =>
    obtain ⟨_, rfl⟩ := writes_singleton_iff.1 hes
    refine (parses_name _ _).step (.ifAcceptNot hk (isLike_symbol_of_ne hdot) ?_)
    refine hargs.bind ?_
    rintro args' _ ⟨hsame, rfl⟩
    refine .spanned fun _ => .pure ⟨?_, rfl⟩
    simp only [TypeExpr.unplaced, unplacedTypes_eq_map, hsame]
  | some package =>
    obtain ⟨_, _, rfl, hmember⟩ := writes_cons_iff.1 hes
    obtain ⟨_, _, rfl, hname⟩ := writes_cons_iff.1 hmember
    obtain ⟨_, rfl⟩ := writes_singleton_iff.1 hname
    refine (parses_name _ _).step (.ifAccept rfl ?_)
    refine (parses_identifier _ _).step (hargs.bind ?_)
    rintro args' _ ⟨hsame, rfl⟩
    refine .spanned fun _ => .pure ⟨?_, rfl⟩
    simp only [TypeExpr.unplaced, unplacedTypes_eq_map, hsame]

/-! ## Composite types -/

theorem parses_typeExpr_pointer {star : Span} (he : Parses g.type es (FindsType e rest)) :
    Parses (typeExpr g) (.ok ⟨.symbol .star, star⟩ :: es) (FindsType (.pointer e span) rest) := by
  refine (parses_peek_token _ _).step ?_
  refine (parses_advance _ _).step (he.bind ?_)
  rintro e' _ ⟨hsame, rfl⟩
  refine .spanned fun _ => .pure ⟨?_, rfl⟩
  simp only [TypeExpr.unplaced, hsame]

theorem parses_typeExpr_slice {openSpan closeSpan : Span} (he : Parses g.type es (FindsType e rest)) :
    Parses (typeExpr g) (.ok ⟨.symbol .lBracket, openSpan⟩ :: .ok ⟨.symbol .rBracket, closeSpan⟩ :: es)
      (FindsType (.slice e span) rest) := by
  refine (parses_peek_token _ _).step ?_
  refine (parses_advance _ _).step (.ifAccept rfl (he.bind ?_))
  rintro e' _ ⟨hsame, rfl⟩
  refine .spanned fun _ => .pure ⟨?_, rfl⟩
  simp only [TypeExpr.unplaced, hsame]

/-- An array is found with a length and an element as they are found. -/
theorem parses_typeExpr_arrayOf {P : Expr → Prop} {Q : TypeExpr → Prop} {k : Kind} {mid : List Event}
    {openSpan closeSpan : Span} (hfirst : nextKind? es = some k) (hk : k.startsExpr = true)
    (hn : Parses (g.expr 1) es fun n es' => P n ∧ es' = .ok ⟨.symbol .rBracket, closeSpan⟩ :: mid)
    (he : Parses g.type mid fun e es' => Q e ∧ es' = rest) :
    Parses (typeExpr g) (.ok ⟨.symbol .lBracket, openSpan⟩ :: es) fun t es' =>
      (∃ n e span, t = .array n e span ∧ P n ∧ Q e) ∧ es' = rest := by
  refine (parses_peek_token _ _).step ?_
  refine (parses_advance _ _).step (.ifAcceptNot hfirst (isLike_symbol_of_test hk rfl) ?_)
  refine .ifCheckNot hfirst (isLike_symbol_of_test hk rfl) (hn.bind ?_)
  rintro n _ ⟨hlength, rfl⟩
  refine (parses_expect rfl mid).step (he.bind ?_)
  rintro e _ ⟨helement, rfl⟩
  exact .spanned fun span => .pure ⟨⟨n, e, span, rfl, hlength, helement⟩, rfl⟩

theorem parses_typeExpr_array {n : Expr} {k : Kind} {mid : List Event} {openSpan closeSpan : Span}
    (hfirst : nextKind? es = some k) (hk : k.startsExpr = true)
    (hn : Parses (g.expr 1) es (Finds n (.ok ⟨.symbol .rBracket, closeSpan⟩ :: mid)))
    (he : Parses g.type mid (FindsType e rest)) :
    Parses (typeExpr g) (.ok ⟨.symbol .lBracket, openSpan⟩ :: es) (FindsType (.array n e span) rest) := by
  refine (parses_typeExpr_arrayOf hfirst hk hn he).mono ?_
  rintro _ _ ⟨⟨n', e', span', rfl, hlength, hsame⟩, rfl⟩
  refine ⟨?_, rfl⟩
  simp only [TypeExpr.unplaced, hlength, hsame]

theorem parses_typeExpr_map {k v : TypeExpr} {mid : List Event} {mapSpan openSpan closeSpan : Span}
    (hk : Parses g.type es (FindsType k (.ok ⟨.symbol .rBracket, closeSpan⟩ :: mid)))
    (hv : Parses g.type mid (FindsType v rest)) :
    Parses (typeExpr g) (.ok ⟨.keyword .map, mapSpan⟩ :: .ok ⟨.symbol .lBracket, openSpan⟩ :: es)
      (FindsType (.map k v span) rest) := by
  refine (parses_peek_token _ _).step ?_
  refine (parses_advance _ _).step ((parses_expect rfl es).step (hk.bind ?_))
  rintro k' _ ⟨hkey, rfl⟩
  refine (parses_expect rfl mid).step (hv.bind ?_)
  rintro v' _ ⟨hvalue, rfl⟩
  refine .spanned fun _ => .pure ⟨?_, rfl⟩
  simp only [TypeExpr.unplaced, hkey, hvalue]

theorem parses_typeExpr_parentheses {openSpan closeSpan : Span}
    (he : Parses g.type es (FindsType e (.ok ⟨.symbol .rParen, closeSpan⟩ :: rest))) :
    Parses (typeExpr g) (.ok ⟨.symbol .lParen, openSpan⟩ :: es) (FindsType e rest) := by
  refine (parses_peek_token _ _).step ?_
  refine (parses_advance _ _).step (he.bind ?_)
  rintro e' _ ⟨hsame, rfl⟩
  exact (parses_expect rfl rest).step (.pure ⟨hsame, rfl⟩)

theorem parses_typeExpr_chan {direction : Direction} {mid : List Event} (hes : Writes direction.kinds es mid)
    (hmid : nextKind? mid = some (.symbol .lParen)) (he : Parses g.type mid (FindsType e rest)) :
    Parses (typeExpr g) es (FindsType (.chan direction e span) rest) := by
  have hdone {direction : Direction} {e' : TypeExpr} (hsame : e'.unplaced = e.unplaced) (chan : Span) :
      Parses (do return .chan direction e' (← spanFrom chan)) rest (FindsType (.chan direction e span) rest) := by
    refine .spanned fun _ => .pure ⟨?_, rfl⟩
    simp only [TypeExpr.unplaced, hsame]
  cases direction with
  | both =>
    obtain ⟨_, rfl⟩ := writes_singleton_iff.1 hes
    refine (parses_peek_token _ _).step ?_
    refine (parses_advance _ _).step (.ifAcceptNot hmid rfl (he.bind ?_))
    rintro e' _ ⟨hsame, rfl⟩
    exact hdone hsame _
  | send =>
    obtain ⟨_, _, rfl, harrow⟩ := writes_cons_iff.1 hes
    obtain ⟨_, rfl⟩ := writes_singleton_iff.1 harrow
    refine (parses_peek_token _ _).step ?_
    refine (parses_advance _ _).step (.ifAccept rfl (he.bind ?_))
    rintro e' _ ⟨hsame, rfl⟩
    exact hdone hsame _
  | receive =>
    obtain ⟨_, _, rfl, hchan⟩ := writes_cons_iff.1 hes
    obtain ⟨_, rfl⟩ := writes_singleton_iff.1 hchan
    refine (parses_peek_token _ _).step ?_
    refine (parses_advance _ _).step ((parses_expect rfl mid).step (he.bind ?_))
    rintro e' _ ⟨hsame, rfl⟩
    exact hdone hsame _

/-! ## Skipped types -/

theorem parses_atLocalStruct_not {k : Kind} (hfirst : nextKind? es = some k) (hstruct : k ≠ .keyword .struct)
    (htype : k ≠ .keyword .type) : Parses atLocalStruct es fun b es' => b = false ∧ es' = es := by
  refine (parses_peekKind hfirst).step ?_
  split
  · exact absurd rfl hstruct
  · exact absurd rfl htype
  · exact .pure ⟨rfl, rfl⟩

theorem parses_atLocalStruct_bracket {k : Kind} (hfirst : nextKind? es = some k)
    (hk : k.isOpen = true ∨ k.isClose = true) : Parses atLocalStruct es fun b es' => b = false ∧ es' = es := by
  have hword (w : Token.Keyword) : k ≠ .keyword w := by
    rintro rfl
    rcases hk with hk | hk <;> cases hk
  exact parses_atLocalStruct_not hfirst (hword _) (hword _)

/-- A group with nothing in it. -/
theorem parses_skipGroup {o c : Token} (ho : o.kind.isOpen = true) (hc : c.kind.isClose = true)
    (hc' : c.kind.isOpen = false) : Parses (skipGroup g) (.ok o :: .ok c :: rest) fun _ es' => es' = rest := by
  refine (parses_advance _ _).step ?_
  rw [if_pos ho]
  refine (Parses.repeating (R := fun _ es' => es' = rest) (.done ?_)).bind fun _ _ h => .pure h
  refine (parses_atLocalStruct_bracket rfl (.inr hc)).step ((parses_advance _ _).step ?_)
  rw [hc', hc]
  exact .pure ⟨_, rfl, rfl⟩

theorem parses_typeExpr_func {funcSpan openSpan closeSpan : Span} (hrest : EndsType rest) :
    Parses (typeExpr g) (.ok ⟨.keyword .func, funcSpan⟩ :: .ok ⟨.symbol .lParen, openSpan⟩ ::
      .ok ⟨.symbol .rParen, closeSpan⟩ :: rest) (FindsType (.func span) rest) := by
  obtain ⟨k, hk, -, hstart⟩ := hrest
  have hsignature : Parses (skipSignature g)
      (.ok ⟨.symbol .lParen, openSpan⟩ :: .ok ⟨.symbol .rParen, closeSpan⟩ :: rest) fun _ es' => es' = rest := by
    refine (parses_require rfl _).bind ?_
    rintro _ _ rfl
    refine (parses_skipGroup rfl rfl rfl).bind ?_
    rintro _ _ rfl
    refine .ifCheckNot hk (isLike_symbol_of_test hstart rfl) ((parses_peekKind hk).step ?_)
    rw [hstart]
    exact .pure rfl
  refine (parses_peek_token _ _).step ?_
  refine (parses_advance _ _).step (hsignature.bind ?_)
  rintro _ _ rfl
  exact .spanned fun _ => .pure ⟨rfl, rfl⟩

theorem parses_typeExpr_interface {interfaceSpan openSpan closeSpan : Span} :
    Parses (typeExpr g) (.ok ⟨.keyword .interface, interfaceSpan⟩ :: .ok ⟨.symbol .lBrace, openSpan⟩ ::
      .ok ⟨.symbol .rBrace, closeSpan⟩ :: rest) (FindsType (.interface span) rest) := by
  refine (parses_peek_token _ _).step ?_
  refine (parses_advance _ _).step ((parses_require rfl _).bind ?_)
  rintro _ _ rfl
  refine (parses_skipGroup rfl rfl rfl).bind ?_
  rintro _ _ rfl
  exact .spanned fun _ => .pure ⟨rfl, rfl⟩

/-! ## Fields -/

/-- Whether a token is an identifier. -/
def WritesIdentifier (n : String) (ts : List Token) : Prop := ∃ span, ts = [⟨.identifier n, span⟩]

theorem exists_writesTail {names : List String} (hes : Writes (namesKinds names) es rest) :
    ∃ ts, es = ts.map .ok ++ rest ∧ WritesTail WritesIdentifier names ts := by
  induction names generalizing es with
  | nil => exact ⟨[], writes_nil_iff.1 hes, .nil⟩
  | cons n names ih =>
    obtain ⟨comma, _, rfl, htail⟩ := writes_cons_iff.1 hes
    obtain ⟨span, es', rfl, hnames⟩ := writes_cons_iff.1 htail
    obtain ⟨ts, rfl, hts⟩ := ih hnames
    exact ⟨_, rfl, .next ⟨span, rfl⟩ hts⟩

theorem parses_names {k : Kind} (hk : nextKind? rest = some k) (hstart : k.startsType = true) {n : String}
    {names : List String} (hes : Writes (namesKinds names) es rest) :
    Parses (commaSeparated identifier) (.ok ⟨.identifier n, span⟩ :: es) fun ns es' =>
      ns = n :: names ∧ es' = rest := by
  obtain ⟨ts, rfl, hts⟩ := exists_writesTail hes
  have hitem : FindsItem WritesIdentifier Eq (fun _ => True) (ts.length + 2) identifier := by
    rintro n _ es _ ⟨span, rfl⟩ - - -
    exact (parses_identifier span es).mono fun _ _ h => ⟨h.1.symm, h.2⟩
  have hmore : k ≠ .symbol .comma := by
    rintro rfl
    cases hstart
  refine (WritesItems.parses hitem trivial hk trivial hmore (.items ⟨span, rfl⟩ hts) ?_).mono fun ns es' hns => ?_
  · rw [List.length_append, List.length_singleton]
    omega
  · rw [List.forall₂_eq_eq_eq] at hns
    exact ⟨hns.1.symm, hns.2⟩

/-- What stands behind the first of the names of a field does not show an embedded type. -/
theorem parses_fieldBody_declared {n : String} {names : List String} {mid : List Event} {k : Kind}
    (hes : Writes (namesKinds names) es mid) (hk : nextKind? mid = some k) (hstart : k.startsType = true)
    (ht : Parses g.type mid (FindsType t rest)) :
    Parses (fieldBody g) (.ok ⟨.identifier n, span⟩ :: es) fun body es' =>
      body.1 = n :: names ∧ FindsType t rest body.2 es' := by
  obtain ⟨second, hsecond, hends⟩ : ∃ second, nextKind? es = some second ∧ endsEmbedded second = false := by
    cases names with
    | nil =>
      obtain rfl := writes_nil_iff.1 hes
      refine ⟨k, hk, ?_⟩
      unfold endsEmbedded
      split <;> first | rfl | cases hstart
    | cons =>
      obtain ⟨_, _, rfl, -⟩ := writes_cons_iff.1 hes
      exact ⟨_, rfl, rfl⟩
  refine (parses_peek_token _ _).step ((parses_peekKindAt [_] hsecond).step ?_)
  rw [hends]
  refine (parses_names hk hstart hes).step (ht.bind ?_)
  rintro t' _ ⟨hsame, rfl⟩
  exact .pure ⟨rfl, hsame, rfl⟩

theorem parses_fieldBody_pointer (ht : Parses g.type (.ok ⟨.symbol .star, span⟩ :: es) (FindsType t rest)) :
    Parses (fieldBody g) (.ok ⟨.symbol .star, span⟩ :: es) fun body es' =>
      body.1 = [] ∧ FindsType t rest body.2 es' := by
  refine (parses_peek_token _ _).step (ht.bind ?_)
  rintro t' _ ⟨hsame, rfl⟩
  exact .pure ⟨rfl, hsame, rfl⟩

theorem parses_fieldBody_name {n : String} {k : Kind} (hk : nextKind? es = some k) (hends : endsEmbedded k = true)
    (ht : Parses (typeName g) (.ok ⟨.identifier n, span⟩ :: es) (FindsType t rest)) :
    Parses (fieldBody g) (.ok ⟨.identifier n, span⟩ :: es) fun body es' =>
      body.1 = [] ∧ FindsType t rest body.2 es' := by
  refine (parses_peek_token _ _).step ((parses_peekKindAt [_] hk).step ?_)
  rw [hends]
  refine ht.bind ?_
  rintro t' _ ⟨hsame, rfl⟩
  exact .pure ⟨rfl, hsame, rfl⟩

theorem unquote_raw (tag : String) : unquote ("`" ++ tag ++ "`") = tag := by
  simp [unquote, String.toList_append]

section

variable {k : Kind} (hfirst : nextKind? es = some k) {names : List String}
include hfirst

theorem parses_field_plain
    (hbody : Parses (fieldBody g) es fun body es' => body.1 = names ∧ FindsType t rest body.2 es') (hrest : EndsField rest) :
    Parses (field g) es (FindsField ⟨names, t, none, span⟩ rest) := by
  refine (parses_peek hfirst).bind ?_
  rintro _ _ ⟨-, rfl⟩
  refine hbody.bind ?_
  rintro ⟨_, t'⟩ _ ⟨rfl, hsame, rfl⟩
  rcases hrest with hk | hk
  all_goals
    refine (parses_peekKind hk).step (.spanned fun _ => .pure ⟨?_, rfl⟩)
    simp only [FieldDecl.unplaced, hsame]

theorem parses_field_tagged {text : String} {tagSpan : Span}
    (hbody : Parses (fieldBody g) es fun body es' =>
      body.1 = names ∧ FindsType t (.ok ⟨.literal .string text, tagSpan⟩ :: rest) body.2 es') :
    Parses (field g) es (FindsField ⟨names, t, some (unquote text), span⟩ rest) := by
  refine (parses_peek hfirst).bind ?_
  rintro _ _ ⟨-, rfl⟩
  refine hbody.bind ?_
  rintro ⟨_, t'⟩ _ ⟨rfl, hsame, rfl⟩
  refine (parses_peekKind rfl).step ?_
  refine (parses_advance _ _).step (.spanned fun _ => .pure ⟨?_, rfl⟩)
  simp only [FieldDecl.unplaced, hsame]

theorem parses_field {mid : List Event}
    (hbody : Parses (fieldBody g) es fun body es' => body.1 = names ∧ FindsType t mid body.2 es') {tag : Option String}
    (htag : Writes (tagKinds tag) mid rest) (hrest : EndsField rest) :
    Parses (field g) es (FindsField ⟨names, t, tag, span⟩ rest) := by
  cases tag with
  | none =>
    obtain rfl := writes_nil_iff.1 htag
    exact parses_field_plain hfirst hbody hrest
  | some tag =>
    obtain ⟨_, rfl⟩ := writes_singleton_iff.1 htag
    exact unquote_raw tag ▸ parses_field_tagged hfirst hbody

end

/-! ## Struct literals -/

/-- The turn of the loop over the fields of a struct. -/
def fieldTurn (g : Grammar) : List FieldDecl → Parser (ForInStep (List FieldDecl)) :=
  entries.turn (.symbol .rBrace) fun _ => field g

theorem entries_field_eq (g : Grammar) :
    entries (.symbol .rBrace) (fun _ => field g) = repeating [] (fieldTurn g) := rfl

variable {f : FieldDecl} {closeSpan : Span}

theorem repeats_fieldTurn_close (fs : List FieldDecl) :
    Repeats (fieldTurn g) fs (.ok ⟨.symbol .rBrace, closeSpan⟩ :: rest)
      (FindsFields fs (.ok ⟨.symbol .rBrace, closeSpan⟩ :: rest)) :=
  repeats_entries_close ⟨rfl, rfl⟩

/-- A field with the brace that closes the struct behind it. -/
theorem repeats_fieldTurn_last {k : Kind} (hfirst : nextKind? es = some k) (hsemi : k ≠ .symbol .semi)
    (hclose : k ≠ .symbol .rBrace) (hlength : rest.length + 1 < es.length)
    (hf : Parses (field g) es (FindsField f (.ok ⟨.symbol .rBrace, closeSpan⟩ :: rest))) (fs : List FieldDecl) :
    Repeats (fieldTurn g) fs es (FindsFields (fs ++ [f]) (.ok ⟨.symbol .rBrace, closeSpan⟩ :: rest)) :=
  repeats_entries_last hfirst hsemi hclose hlength hf fun f' hsame => ⟨by simp [hsame], rfl⟩

theorem repeats_fieldTurn_next {k : Kind} (hfirst : nextKind? es = some k) (hsemi : k ≠ .symbol .semi)
    (hclose : k ≠ .symbol .rBrace) {mid : List Event} {semi : Span} (hlength : mid.length < es.length)
    (hf : Parses (field g) es (FindsField f (.ok ⟨.symbol .semi, semi⟩ :: mid))) {gs : List FieldDecl}
    (hgs : ∀ fs, Repeats (fieldTurn g) fs mid (FindsFields (fs ++ gs) rest)) (fs : List FieldDecl) :
    Repeats (fieldTurn g) fs es (FindsFields (fs ++ f :: gs) rest) := by
  refine repeats_entries_next hfirst hsemi hclose nofun hlength hf fun f' hsame => (hgs (fs ++ [f'])).mono ?_
  rintro found es' ⟨hfound, rfl⟩
  exact ⟨hfound.trans (by simp [hsame]), rfl⟩

theorem parses_typeExpr_struct {fs : List FieldDecl} {keyword wordSpan openSpan : Span}
    (h : Repeats (fieldTurn g) [] es (FindsFields fs (.ok ⟨.symbol .rBrace, closeSpan⟩ :: rest))) :
    Parses (typeExpr g) (.ok ⟨.keyword .struct, wordSpan⟩ :: .ok ⟨.symbol .lBrace, openSpan⟩ :: es)
      (FindsType (.struct ⟨fs, keyword, span⟩) rest) := by
  have hstruct : Parses (structType g) (.ok ⟨.keyword .struct, wordSpan⟩ :: .ok ⟨.symbol .lBrace, openSpan⟩ :: es)
      fun st es' => FindsFields fs rest st.fields es' := by
    refine (parses_expect rfl _).step ((parses_expect rfl _).step ?_)
    rw [entries_field_eq]
    refine (Parses.repeating h).bind ?_
    rintro found _ ⟨hfound, rfl⟩
    exact (parses_expect rfl rest).step (.pure ⟨hfound, rfl⟩)
  refine (parses_peek_token _ _).step (hstruct.bind ?_)
  rintro ⟨fields, _, _⟩ _ ⟨hfields, rfl⟩
  refine .pure ⟨?_, rfl⟩
  simp only [TypeExpr.unplaced, StructType.unplaced, unplacedFields_eq_map, hfields]

/-! ## Whole types -/

/-- What a grammar of some depth does with the tokens of a form. -/
def ReadsForm (depth : Nat) (ks : List Kind) : TypeForm → Prop
  | .type t => ∀ es rest, ks.length ≤ depth + 1 → Writes ks es rest → EndsType rest →
      Parses (typeExpr (.ofDepth depth)) es (FindsType t rest)
  | .types ts => ∀ es rest closeSpan, ks.length ≤ depth → Writes ks es (.ok ⟨.symbol .rBracket, closeSpan⟩ :: rest) →
      ∀ found, Repeats (argTurn (.ofDepth depth)) found es
        (FindsTypes (found ++ ts) (.ok ⟨.symbol .rBracket, closeSpan⟩ :: rest))
  | .field f => ∀ es rest, ks.length ≤ depth → Writes ks es rest → EndsField rest →
      Parses (field (.ofDepth depth)) es (FindsField f rest)
  | .fields fs => ∀ es rest closeSpan, ks.length ≤ depth → Writes ks es (.ok ⟨.symbol .rBrace, closeSpan⟩ :: rest) →
      ∀ found, Repeats (fieldTurn (.ofDepth depth)) found es
        (FindsFields (found ++ fs) (.ok ⟨.symbol .rBrace, closeSpan⟩ :: rest))

/-- Whether all grammars do so that are deep enough. -/
def ReadsTokens (ks : List Kind) (form : TypeForm) : Prop := ∀ depth, ReadsForm depth ks form

theorem exists_nextKind?_of_type {ks : List Kind} (h : TypeForm.Renders IsReference (.type t) ks)
    (hes : Writes ks es rest) : ∃ k, nextKind? es = some k ∧ k.startsType = true := by
  obtain ⟨k, ls, rfl, hk⟩ := h.exists_startsType
  exact ⟨k, nextKind?_of_writes hes, hk⟩

theorem exists_nextKind?_of_field {ks : List Kind} (h : TypeForm.Renders IsReference (.field f) ks)
    (hes : Writes ks es rest) : ∃ k, nextKind? es = some k ∧ k ≠ .symbol .semi ∧ k ≠ .symbol .rBrace := by
  obtain ⟨k, ls, rfl, hk⟩ := h.exists_startsField
  refine ⟨k, nextKind?_of_writes hes, ?_⟩
  rcases hk with rfl | ⟨n, rfl⟩ <;> exact ⟨nofun, nofun⟩

/-- A grammar that is deeper parses a type by what the grammar below it does with its tokens. -/
theorem parses_type_of_readsForm {ks : List Kind} (hks : TypeForm.Renders IsReference (.type t) ks)
    (h : ReadsTokens ks (.type t)) {depth : Nat} (hdepth : ks.length ≤ depth) (hes : Writes ks es rest)
    (hrest : EndsType rest) : Parses (Grammar.ofDepth depth).type es (FindsType t rest) := by
  obtain ⟨k, ls, rfl, -⟩ := hks.exists_startsType
  obtain ⟨depth, rfl⟩ := Nat.exists_eq_succ_of_ne_zero (Nat.ne_zero_of_lt hdepth)
  exact h depth es rest hdepth hes hrest

/-- Behind the type of a field stands its tag or the end of the field. -/
theorem exists_nextKind?_of_tag {tag : Option String} {mid : List Event} (htag : Writes (tagKinds tag) mid rest)
    (hrest : EndsField rest) :
    ∃ k, nextKind? mid = some k ∧ k ≠ .symbol .dot ∧ k.startsType = false ∧ endsEmbedded k = true := by
  cases tag with
  | none =>
    obtain rfl := writes_nil_iff.1 htag
    rcases hrest with hk | hk
    all_goals exact ⟨_, hk, nofun, rfl, rfl⟩
  | some tag =>
    obtain ⟨_, rfl⟩ := writes_singleton_iff.1 htag
    exact ⟨_, rfl, nofun, rfl, rfl⟩

theorem parses_fieldBody_embedded {ks : List Kind} (ht : TypeForm.Renders IsReference (.type t) ks)
    (hembeddable : t.isEmbeddable = true) (h : ReadsTokens ks (.type t)) {depth : Nat}
    (hdepth : ks.length ≤ depth) (hes : Writes ks es rest) (hrest : EndsType rest) {k : Kind}
    (hk : nextKind? rest = some k) (hends : endsEmbedded k = true) :
    Parses (fieldBody (.ofDepth depth)) es fun body es' => body.1 = [] ∧ FindsType t rest body.2 es' := by
  have hreads := h depth es rest (Nat.le_succ_of_le hdepth) hes hrest
  cases ht with
  | pointer he =>
    obtain ⟨_, _, rfl, -⟩ := writes_cons_iff.1 hes
    exact parses_fieldBody_pointer (parses_type_of_readsForm (.pointer he) h hdepth hes hrest)
  | @named package =>
    cases package with
    | none =>
      obtain ⟨_, rfl⟩ := writes_singleton_iff.1 hes
      exact parses_fieldBody_name hk hends ((parses_typeExpr_iff rfl).1 hreads)
    | some package =>
      obtain ⟨_, _, rfl, hdot⟩ := writes_cons_iff.1 hes
      exact parses_fieldBody_name (nextKind?_of_writes hdot) rfl ((parses_typeExpr_iff rfl).1 hreads)
  | @instantiated package _ args _ _ hargs =>
    cases package with
    | none =>
      cases args with
      | nil => exact absurd rfl hargs
      | cons => cases hembeddable
    | some package =>
      obtain ⟨_, _, rfl, hdot⟩ := writes_cons_iff.1 hes
      exact parses_fieldBody_name (nextKind?_of_writes hdot) rfl ((parses_typeExpr_iff rfl).1 hreads)
  | slice | array | map | chan | func | interface | struct => cases hembeddable

namespace ReadsTokens

section

variable {package : Option String} {name : String} {args : List TypeExpr} {v : TypeExpr} {ks ls : List Kind}

theorem named : ReadsTokens (nameKinds package name) (.type (.named package name [] span)) := by
  intro depth es rest _ hes hrest
  obtain ⟨n, hfirst⟩ := exists_nextKind?_of_name hes
  have ⟨k, hk, hdot, _⟩ := hrest
  exact (parses_typeExpr_iff hfirst).2 (parses_typeName hes hk hdot (parses_typeArgs_nil hrest))

theorem instantiated (ih : ReadsTokens ks (.types args)) :
    ReadsTokens (nameKinds package name ++ .symbol .lBracket :: (ks ++ [.symbol .rBracket]))
      (.type (.named package name args span)) := by
  intro depth es rest hdepth hes hrest
  obtain ⟨mid, hname, htail⟩ := writes_append_iff.1 hes
  obtain ⟨openSpan, es', closeSpan, rfl, hks⟩ := writes_enclosed_iff.1 htail
  obtain ⟨n, hfirst⟩ := exists_nextKind?_of_name hname
  simp only [List.length_append, List.length_cons, List.length_nil] at hdepth
  have hargs := ih depth es' rest closeSpan (by omega) hks []
  exact (parses_typeExpr_iff hfirst).2 (parses_typeName hname rfl nofun (parses_typeArgs hargs))

theorem pointer (he : TypeForm.Renders IsReference (.type e) ks) (ih : ReadsTokens ks (.type e)) :
    ReadsTokens (.symbol .star :: ks) (.type (.pointer e span)) := by
  intro depth es rest hdepth hes hrest
  obtain ⟨_, _, rfl, hks⟩ := writes_cons_iff.1 hes
  exact parses_typeExpr_pointer (parses_type_of_readsForm he ih (Nat.le_of_succ_le_succ hdepth) hks hrest)

theorem slice (he : TypeForm.Renders IsReference (.type e) ks) (ih : ReadsTokens ks (.type e)) :
    ReadsTokens (.symbol .lBracket :: .symbol .rBracket :: ks) (.type (.slice e span)) := by
  intro depth es rest hdepth hes hrest
  obtain ⟨_, _, rfl, htail⟩ := writes_cons_iff.1 hes
  obtain ⟨_, _, rfl, hks⟩ := writes_cons_iff.1 htail
  simp only [List.length_cons] at hdepth
  exact parses_typeExpr_slice (parses_type_of_readsForm he ih (by omega) hks hrest)

theorem array {n : Expr} {ns : List Kind} (hn : n.Renders IsReference 1 ns)
    (he : TypeForm.Renders IsReference (.type e) ks) (ih : ReadsTokens ks (.type e)) :
    ReadsTokens (.symbol .lBracket :: (ns ++ .symbol .rBracket :: ks)) (.type (.array n e span)) := by
  intro depth es rest hdepth hes hrest
  obtain ⟨openSpan, es', rfl, htail⟩ := writes_cons_iff.1 hes
  obtain ⟨_, hns, helement⟩ := writes_append_iff.1 htail
  obtain ⟨closeSpan, mid, rfl, hks⟩ := writes_cons_iff.1 helement
  simp only [List.length_append, List.length_cons] at hdepth
  obtain ⟨depth, rfl⟩ : ∃ d, depth = d + 1 := ⟨depth - 1, by omega⟩
  have hend : EndsExpr (.ok ⟨.symbol .rBracket, closeSpan⟩ :: mid) := ⟨_, rfl, nofun, nofun, rfl⟩
  have hlength : Parses ((Grammar.ofDepth (depth + 1)).expr 1) es' _ :=
    (readsExpr_of_renders hn (by omega) hns hend.operand).parses (hend.operation 1)
  obtain ⟨k, ls, rfl, hk⟩ := hn.exists_startsExpr
  refine parses_typeExpr_array (nextKind?_of_writes hns) hk hlength ?_
  exact parses_type_of_readsForm he ih (by omega) hks hrest

theorem map (ht : TypeForm.Renders IsReference (.type t) ks) (hv : TypeForm.Renders IsReference (.type v) ls)
    (iht : ReadsTokens ks (.type t)) (ihv : ReadsTokens ls (.type v)) :
    ReadsTokens (.keyword .map :: .symbol .lBracket :: (ks ++ .symbol .rBracket :: ls)) (.type (.map t v span)) := by
  intro depth es rest hdepth hes hrest
  obtain ⟨_, _, rfl, htail⟩ := writes_cons_iff.1 hes
  obtain ⟨_, es', rfl, htypes⟩ := writes_cons_iff.1 htail
  obtain ⟨_, hks, hvalue⟩ := writes_append_iff.1 htypes
  obtain ⟨closeSpan, mid, rfl, hls⟩ := writes_cons_iff.1 hvalue
  simp only [List.length_append, List.length_cons] at hdepth
  have hend : EndsType (.ok ⟨.symbol .rBracket, closeSpan⟩ :: mid) := ⟨_, rfl, nofun, rfl⟩
  exact parses_typeExpr_map (parses_type_of_readsForm ht iht (by omega) hks hend)
    (parses_type_of_readsForm hv ihv (by omega) hls hrest)

theorem chan {direction : Direction} (he : TypeForm.Renders IsReference (.type e) ks)
    (ih : ReadsTokens ks (.type e)) :
    ReadsTokens (direction.kinds ++ .symbol .lParen :: (ks ++ [.symbol .rParen])) (.type (.chan direction e span)) := by
  intro depth es rest hdepth hes hrest
  obtain ⟨_, hdirection, htail⟩ := writes_append_iff.1 hes
  obtain ⟨openSpan, es', closeSpan, rfl, hks⟩ := writes_enclosed_iff.1 htail
  have hwords : 0 < direction.kinds.length := by cases direction <;> decide
  simp only [List.length_append, List.length_cons, List.length_nil] at hdepth
  obtain ⟨depth, rfl⟩ : ∃ d, depth = d + 1 := ⟨depth - 1, by omega⟩
  have hend : EndsType (.ok ⟨.symbol .rParen, closeSpan⟩ :: rest) := ⟨_, rfl, nofun, rfl⟩
  have hinner : Parses (Grammar.ofDepth (depth + 1)).type (.ok ⟨.symbol .lParen, openSpan⟩ :: es') _ :=
    parses_typeExpr_parentheses (parses_type_of_readsForm he ih (by omega) hks hend)
  exact parses_typeExpr_chan hdirection rfl hinner

theorem func : ReadsTokens [.keyword .func, .symbol .lParen, .symbol .rParen] (.type (.func span)) := by
  intro depth es rest _ hes hrest
  obtain ⟨_, _, rfl, htail⟩ := writes_cons_iff.1 hes
  obtain ⟨_, _, rfl, hclose⟩ := writes_cons_iff.1 htail
  obtain ⟨_, rfl⟩ := writes_singleton_iff.1 hclose
  exact parses_typeExpr_func hrest

theorem interface :
    ReadsTokens [.keyword .interface, .symbol .lBrace, .symbol .rBrace] (.type (.interface span)) := by
  intro depth es rest _ hes _
  obtain ⟨_, _, rfl, htail⟩ := writes_cons_iff.1 hes
  obtain ⟨_, _, rfl, hclose⟩ := writes_cons_iff.1 htail
  obtain ⟨_, rfl⟩ := writes_singleton_iff.1 hclose
  exact parses_typeExpr_interface

theorem struct {fs : List FieldDecl} {keyword : Span} (ih : ReadsTokens ks (.fields fs)) :
    ReadsTokens (.keyword .struct :: .symbol .lBrace :: (ks ++ [.symbol .rBrace]))
      (.type (.struct ⟨fs, keyword, span⟩)) := by
  intro depth es rest hdepth hes _
  obtain ⟨_, _, rfl, htail⟩ := writes_cons_iff.1 hes
  obtain ⟨_, es', closeSpan, rfl, hks⟩ := writes_enclosed_iff.1 htail
  simp only [List.length_append, List.length_cons, List.length_nil] at hdepth
  exact parses_typeExpr_struct (ih depth es' rest closeSpan (by omega) hks [])

theorem oneType (ht : TypeForm.Renders IsReference (.type t) ks) (ih : ReadsTokens ks (.type t)) :
    ReadsTokens ks (.types [t]) := by
  intro depth es rest closeSpan hdepth hes found
  obtain ⟨k, hfirst, hk⟩ := exists_nextKind?_of_type ht hes
  have hend : EndsType (.ok ⟨.symbol .rBracket, closeSpan⟩ :: rest) := ⟨_, rfl, nofun, rfl⟩
  exact repeats_argTurn_last hfirst hk (parses_type_of_readsForm ht ih hdepth hes hend) found

theorem nextType (ht : TypeForm.Renders IsReference (.type t) ks) (iht : ReadsTokens ks (.type t))
    (ihs : ReadsTokens ls (.types args)) : ReadsTokens (ks ++ .symbol .comma :: ls) (.types (t :: args)) := by
  intro depth es rest closeSpan hdepth hes found
  obtain ⟨_, hks, htail⟩ := writes_append_iff.1 hes
  obtain ⟨comma, mid, rfl, hls⟩ := writes_cons_iff.1 htail
  obtain ⟨k, hfirst, hk⟩ := exists_nextKind?_of_type ht hks
  have hlength := hks.length_eq
  simp only [List.length_append, List.length_cons] at hdepth hlength
  have hend : EndsType (.ok ⟨.symbol .comma, comma⟩ :: mid) := ⟨_, rfl, nofun, rfl⟩
  refine repeats_argTurn_next hfirst hk (by omega) (parses_type_of_readsForm ht iht (by omega) hks hend) ?_ found
  exact ihs depth mid rest closeSpan (by omega) hls

end

section

variable {tag : Option String} {fs : List FieldDecl} {ks ls : List Kind}

theorem embedded (hembeddable : t.isEmbeddable = true) (ht : TypeForm.Renders IsReference (.type t) ks)
    (ih : ReadsTokens ks (.type t)) : ReadsTokens (ks ++ tagKinds tag) (.field ⟨[], t, tag, span⟩) := by
  intro depth es rest hdepth hes hrest
  obtain ⟨mid, hks, htag⟩ := writes_append_iff.1 hes
  obtain ⟨k, hk, hdot, hstart, hends⟩ := exists_nextKind?_of_tag htag hrest
  obtain ⟨k', hfirst, -⟩ := exists_nextKind?_of_type ht hks
  rw [List.length_append] at hdepth
  refine parses_field hfirst ?_ htag hrest
  exact parses_fieldBody_embedded ht hembeddable ih (by omega) hks ⟨k, hk, hdot, hstart⟩ hk hends

theorem declared {n : String} {names : List String} (ht : TypeForm.Renders IsReference (.type t) ks)
    (ih : ReadsTokens ks (.type t)) :
    ReadsTokens (.identifier n :: (namesKinds names ++ (ks ++ tagKinds tag))) (.field ⟨n :: names, t, tag, span⟩) := by
  intro depth es rest hdepth hes hrest
  obtain ⟨_, _, rfl, htail⟩ := writes_cons_iff.1 hes
  obtain ⟨mid, hnames, htype⟩ := writes_append_iff.1 htail
  obtain ⟨_, hks, htag⟩ := writes_append_iff.1 htype
  obtain ⟨k, hfirst, hk⟩ := exists_nextKind?_of_type ht hks
  obtain ⟨k', hk', hdot, hstart, -⟩ := exists_nextKind?_of_tag htag hrest
  simp only [List.length_append, List.length_cons] at hdepth
  refine parses_field rfl (parses_fieldBody_declared hnames hfirst hk ?_) htag hrest
  exact parses_type_of_readsForm ht ih (by omega) hks ⟨k', hk', hdot, hstart⟩

theorem noFields : ReadsTokens [] (.fields []) := by
  intro depth es rest closeSpan _ hes found
  obtain rfl := writes_nil_iff.1 hes
  rw [List.append_nil]
  exact repeats_fieldTurn_close found

theorem oneField (hf : TypeForm.Renders IsReference (.field f) ks) (ih : ReadsTokens ks (.field f)) :
    ReadsTokens ks (.fields [f]) := by
  intro depth es rest closeSpan hdepth hes found
  obtain ⟨k, hfirst, hsemi, hclose⟩ := exists_nextKind?_of_field hf hes
  obtain ⟨_, _, rfl, -⟩ := hf.exists_startsField
  have hlength := hes.length_eq
  simp only [List.length_cons] at hlength
  exact repeats_fieldTurn_last hfirst hsemi hclose (by omega) (ih depth es _ hdepth hes (.inr rfl)) found

theorem nextField (hf : TypeForm.Renders IsReference (.field f) ks) (ihf : ReadsTokens ks (.field f))
    (ihs : ReadsTokens ls (.fields fs)) : ReadsTokens (ks ++ .symbol .semi :: ls) (.fields (f :: fs)) := by
  intro depth es rest closeSpan hdepth hes found
  obtain ⟨_, hks, htail⟩ := writes_append_iff.1 hes
  obtain ⟨semi, mid, rfl, hls⟩ := writes_cons_iff.1 htail
  obtain ⟨k, hfirst, hsemi, hclose⟩ := exists_nextKind?_of_field hf hks
  have hlength := hks.length_eq
  simp only [List.length_append, List.length_cons] at hdepth hlength
  refine repeats_fieldTurn_next hfirst hsemi hclose (by omega) (ihf depth es _ (by omega) hks (.inl rfl)) ?_ found
  exact ihs depth mid rest closeSpan (by omega) hls

end

end ReadsTokens

/-- The tokens of a form are read by a grammar that is as deep as they are many. -/
theorem readsTokens_of_renders {form : TypeForm} {ks : List Kind} (h : form.Renders IsReference ks) :
    ReadsTokens ks form := by
  induction h with
  | named => exact .named
  | instantiated _ _ ih => exact .instantiated ih
  | pointer he ih => exact .pointer he ih
  | slice he ih => exact .slice he ih
  | array hn he ih => exact .array hn he ih
  | map ht hv iht ihv => exact .map ht hv iht ihv
  | chan he ih => exact .chan he ih
  | func => exact .func
  | interface => exact .interface
  | struct _ ih => exact .struct ih
  | oneType ht ih => exact .oneType ht ih
  | nextType ht _ iht ihs => exact .nextType ht iht ihs
  | embedded hembeddable ht ih => exact .embedded hembeddable ht ih
  | declared ht ih => exact .declared ht ih
  | noFields => exact .noFields
  | oneField hf ih => exact .oneField hf ih
  | nextField hf _ ihf ihs => exact .nextField hf ihf ihs

/-! ## Reading back -/

/-- Whether a type, in which some names may be written in lengths of arrays, can be written, and all tokens that it is
    written with are read back as the type: a grammar that is deep enough for what is still to come takes these tokens
    and no others, in front of any token that neither begins a type nor goes on with a name. -/
def TypeReadsBack (writable : Option String → String → Prop) (t : TypeExpr) : Prop :=
  (∃ ks, TypeForm.Renders writable (.type t) ks) ∧
    ∀ (ts : List Token) (rest : List Event) (s : State) (depth : Nat),
      TypeForm.Renders writable (.type t) (ts.map (·.kind)) → EndsType rest → s.stream.events = ts.map .ok ++ rest →
        s.remaining < depth →
          ∃ t' u, (Grammar.ofDepth depth).type s = .ok t' u ∧ t'.unplaced = t.unplaced ∧ u.stream.events = rest

/-- Types are read back where no name in the length of an array begins with the reserved word. -/
theorem type_readsBack (ht : t.IsWritable IsReference) : TypeReadsBack IsReference t := by
  refine ⟨TypeForm.exists_renders_type ⟨none, "T", by decide⟩ t ht, fun ts rest s depth hts hrest hs hdepth => ?_⟩
  have hes : Writes (ts.map (·.kind)) s.stream.events rest := ⟨ts, hs, rfl⟩
  have hlength := hes.length_eq
  have hremaining : s.remaining = s.stream.events.length := rfl
  have hreads := parses_type_of_readsForm hts (readsTokens_of_renders hts) (by omega : _ ≤ depth) hes hrest
  obtain ⟨t', u, hres, hsame, hleft⟩ := hreads s rfl
  exact ⟨t', u, hres, hsame, hleft⟩

/-- A struct with an array of channels and an embedded instance. -/
def channelStruct : TypeExpr :=
  .struct ⟨[
    ⟨["x", "y"], .array (.int 2 default) (.chan .receive (.named none "T" [] default) default) default, some "k",
      default⟩,
    ⟨[], .named (some "p") "V" [.func default, .pointer (.named none "U" [] default) default] default, none, default⟩],
    default, default⟩

def channelStructTokens : List Token :=
  [⟨.keyword .struct, ⟨0, 6⟩⟩, ⟨.symbol .lBrace, ⟨7, 8⟩⟩, ⟨.identifier "x", ⟨9, 10⟩⟩, ⟨.symbol .comma, ⟨10, 11⟩⟩,
   ⟨.identifier "y", ⟨12, 13⟩⟩, ⟨.symbol .lBracket, ⟨14, 15⟩⟩, ⟨.literal .int "2", ⟨15, 16⟩⟩,
   ⟨.symbol .rBracket, ⟨16, 17⟩⟩, ⟨.symbol .arrow, ⟨17, 19⟩⟩, ⟨.keyword .chan, ⟨19, 23⟩⟩, ⟨.symbol .lParen, ⟨24, 25⟩⟩,
   ⟨.identifier "T", ⟨25, 26⟩⟩, ⟨.symbol .rParen, ⟨26, 27⟩⟩, ⟨.literal .string "`k`", ⟨28, 31⟩⟩,
   ⟨.symbol .semi, ⟨31, 32⟩⟩, ⟨.identifier "p", ⟨33, 34⟩⟩, ⟨.symbol .dot, ⟨34, 35⟩⟩, ⟨.identifier "V", ⟨35, 36⟩⟩,
   ⟨.symbol .lBracket, ⟨36, 37⟩⟩, ⟨.keyword .func, ⟨37, 41⟩⟩, ⟨.symbol .lParen, ⟨41, 42⟩⟩, ⟨.symbol .rParen, ⟨42, 43⟩⟩,
   ⟨.symbol .comma, ⟨43, 44⟩⟩, ⟨.symbol .star, ⟨45, 46⟩⟩, ⟨.identifier "U", ⟨46, 47⟩⟩, ⟨.symbol .rBracket, ⟨47, 48⟩⟩,
   ⟨.symbol .rBrace, ⟨49, 50⟩⟩]

theorem type_readsBack_channelStruct : channelStruct.IsWritable IsReference ∧
    ∃ t u, (Grammar.ofDepth 30).type (.ofSource "struct \x7b x, y [2]<-chan (T) `k`; p.V[func(), *U] \x7d;") = .ok t u ∧
      t.unplaced = channelStruct ∧ u.stream.events = [.ok ⟨.symbol .semi, ⟨50, 51⟩⟩] := by
  have hwritable : channelStruct.IsWritable IsReference := by
    simp [channelStruct, TypeExpr.IsWritable, StructType.IsWritable, fieldsWritable, FieldDecl.IsWritable,
      typesWritable, Expr.IsWritable, TypeExpr.isEmbeddable]
  have hrenders : TypeForm.Renders IsReference (.type channelStruct) _ :=
    .struct (.nextField (.declared (.array (.int (n := 2) (by decide)) (.chan .named)))
      (.oneField (.embedded rfl (.instantiated (List.cons_ne_nil _ _) (.nextType .func (.oneType (.pointer .named)))))))
  have hevents : (State.ofSource "struct \x7b x, y [2]<-chan (T) `k`; p.V[func(), *U] \x7d;").stream.events =
      channelStructTokens.map .ok ++ [.ok ⟨.symbol .semi, ⟨50, 51⟩⟩] := rfl
  have hdepth : (State.ofSource "struct \x7b x, y [2]<-chan (T) `k`; p.V[func(), *U] \x7d;").remaining < 30 := by
    rw [State.remaining, hevents]
    decide
  refine ⟨hwritable, ?_⟩
  exact (type_readsBack hwritable).2 channelStructTokens _ _ _ hrenders ⟨_, rfl, by decide, rfl⟩ hevents hdepth

/-- A length that is qualified by the reserved word is taken for the line of a constant, and no bracket is behind it. -/
theorem not_typeReadsBack_reservedLength :
    ¬ ∀ t : TypeExpr, t.IsWritable (fun package name => package = none → name ≠ "iota") →
      TypeReadsBack (fun package name => package = none → name ≠ "iota") t := by
  intro h
  have hsource : State.ofSource "[iota.X]T;" = ⟨⟨[.ok ⟨.symbol .lBracket, ⟨0, 1⟩⟩, .ok ⟨.identifier "iota", ⟨1, 5⟩⟩,
    .ok ⟨.symbol .dot, ⟨5, 6⟩⟩, .ok ⟨.identifier "X", ⟨6, 7⟩⟩, .ok ⟨.symbol .rBracket, ⟨7, 8⟩⟩,
    .ok ⟨.identifier "T", ⟨8, 9⟩⟩, .ok ⟨.symbol .semi, ⟨9, 10⟩⟩], 10⟩, 0, []⟩ := rfl
  have hqualified : (some "iota" : Option String) = none → "X" ≠ "iota" := nofun
  have hback := (h (.array (.name (some "iota") "X" default) (.named none "T" [] default) default)
    ⟨hqualified, trivial⟩).2 [⟨.symbol .lBracket, ⟨0, 1⟩⟩, ⟨.identifier "iota", ⟨1, 5⟩⟩, ⟨.symbol .dot, ⟨5, 6⟩⟩,
      ⟨.identifier "X", ⟨6, 7⟩⟩, ⟨.symbol .rBracket, ⟨7, 8⟩⟩, ⟨.identifier "T", ⟨8, 9⟩⟩]
    [.ok ⟨.symbol .semi, ⟨9, 10⟩⟩] (.ofSource "[iota.X]T;") 8 (.array (.name hqualified) .named)
    ⟨_, rfl, nofun, rfl⟩ (congrArg (fun s => s.stream.events) hsource) (by rw [hsource]; decide)
  rw [hsource] at hback
  obtain ⟨t', u, hres, -⟩ := hback
  cases hres

end StructPadding.Parser
