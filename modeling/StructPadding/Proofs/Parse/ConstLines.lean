-- SUMMARY: Lines of constants as they are written: their tokens, and that the parser finds in a group the lines it has.
import StructPadding.Proofs.Parse.Alone
import StructPadding.Proofs.Parse.Entries

/-!
# Lines of constants

A line of constants is names, a type or none, and values behind a sign of equality or none. A group is such lines with
separators behind them. What is said here is what stands in a line, and not what the lines before it add.
-/

namespace StructPadding.Parser

open Token (Kind Event)

/-- A line of constants as it is written. -/
structure ConstLine where
  names : List (String × Span)
  isTyped : Bool
  /-- The expressions behind the sign of equality; there are none where there is no sign. -/
  values : List Expr
  span : Span

/-- One line of constants as it is written. -/
def constLine (g : Grammar) : Parser ConstLine := do
  let start := (← peek).span
  let names ← commaSeparated name
  let isTyped := !endsConstNames (← peekKind)
  if isTyped then keepStructs (← typeExpr g)
  let values ← if ← accept (.symbol .eq) then commaSeparated (binaryExpr g 1) else pure []
  return ⟨names, isTyped, values, ← spanFrom start⟩

/-! ## Tokens -/

/-- Whether a token is a name, at its place. -/
def WritesName (name : String × Span) (ts : List Token) : Prop := ts = [⟨.identifier name.1, name.2⟩]

/-- Whether tokens are a type, or none. -/
inductive WritesType : Bool → List Token → Prop
  | absent : WritesType false []
  | type {t ts} : ReadsAlone typeExpr ts t → WritesType true ts

/-- Whether tokens are a sign of equality and values with commas between them, or none. -/
inductive WritesValues : List Expr → List Token → Prop
  | absent : WritesValues [] []
  | values {es ts sign} : WritesItems (fun e ts => ReadsAlone (binaryExpr · 1) ts e) es ts →
      WritesValues es (⟨.symbol .eq, sign⟩ :: ts)

/-- Whether tokens are a line of constants. Where it ends is left open. -/
inductive ConstLine.Writes : ConstLine → List Token → Prop
  | line {names isTyped values span ns ts us} : WritesItems WritesName names ns → WritesType isTyped ts →
      WritesValues values us → Writes ⟨names, isTyped, values, span⟩ (ns ++ (ts ++ us))

/-- Whether a span begins where the first name of a line does. -/
def ConstLine.BeginsAt (line : ConstLine) (span : Span) : Prop :=
  line.names.head?.map (·.2.start) = some span.start

/-- Whether a line is the one that is written, up to its span, which begins where the line does. -/
def ConstLine.IsFoundAs (line found : ConstLine) : Prop :=
  found = { line with span := found.span } ∧ line.BeginsAt found.span

/-- Whether a declaration of constants in parentheses comes next, with given lines, and given events behind it. -/
def WritesConstGroup (lines : List ConstLine) (es rest : List Event) : Prop :=
  ∃ ts word openSpan closeSpan semi, WritesEntries ConstLine.Writes lines ts ∧
    es = .ok ⟨.keyword .const, word⟩ :: .ok ⟨.symbol .lParen, openSpan⟩ ::
      (ts.map .ok ++ .ok ⟨.symbol .rParen, closeSpan⟩ :: .ok ⟨.symbol .semi, semi⟩ :: rest)

variable {g : Grammar} {depth : Nat} {names : List (String × Span)} {isTyped : Bool} {values : List Expr}
  {line : ConstLine} {lines : List ConstLine} {ts us : List Token} {rest : List Event} {k : Kind} {s : State}

/-! ## Parts of a line -/

theorem parses_keepStructs (t : TypeExpr) (es : List Event) : Parses (keepStructs t) es fun _ es' => es' = es := by
  unfold keepStructs
  induction t.outerStructs with
  | nil => exact .pure rfl
  | cons st sts ih =>
    refine Parses.bind (P := fun _ es' => es' = es) ?_ ?_
    · intro s hs
      exact ⟨_, _, rfl, hs⟩
    · rintro _ _ rfl
      exact ih

theorem WritesItems.exists_name (h : WritesItems WritesName names ts) :
    ∃ name us, names.head? = some name ∧ ts = ⟨.identifier name.1, name.2⟩ :: us := by
  obtain @⟨name, ts, names, us, rfl, -⟩ := h
  exact ⟨name, us, rfl, rfl⟩

theorem parses_constNames (h : WritesItems WritesName names ts) (hk : nextKind? rest = some k)
    (hmore : k ≠ .symbol .comma) :
    Parses (commaSeparated name) (ts.map .ok ++ rest) fun found es' => found = names ∧ es' = rest := by
  have hname : FindsItem WritesName Eq (fun _ => True) (ts.length + 1) name := by
    rintro ⟨n, span⟩ _ es _ rfl - - -
    exact (parses_name span es).mono fun _ _ h => ⟨h.1.symm, h.2⟩
  refine (h.parses hname trivial hk trivial hmore (Nat.lt_succ_self _)).mono fun found es' hfound => ?_
  rw [List.forall₂_eq_eq_eq] at hfound
  exact ⟨hfound.1.symm, hfound.2⟩

theorem isApart_of_endsEntry {es : List Event} (h : EndsEntry .rParen es) :
    ∃ k, nextKind? es = some k ∧ IsApart k ∧ endsConstNames k = true ∧ k ≠ .symbol .comma ∧ k ≠ .symbol .eq := by
  rcases h with hk | hk
  all_goals exact ⟨_, hk, ⟨nofun, rfl, rfl⟩, rfl, nofun, nofun⟩

/-- What stands behind the names and the type of a line is told apart from them. -/
theorem WritesValues.exists_isApart (h : WritesValues values us) (hrest : EndsEntry .rParen rest) :
    ∃ k, nextKind? (us.map .ok ++ rest) = some k ∧ IsApart k ∧ endsConstNames k = true ∧ k ≠ .symbol .comma := by
  cases h with
  | absent =>
    obtain ⟨k, hk, hapart, hends, hcomma, -⟩ := isApart_of_endsEntry hrest
    exact ⟨k, hk, hapart, hends, hcomma⟩
  | values => exact ⟨_, rfl, ⟨nofun, rfl, rfl⟩, rfl, nofun⟩

theorem WritesValues.parses {β : Type} {f : List Expr → Parser β} {Q : β → List Event → Prop}
    (h : WritesValues values us) (hdepth : us.length < depth) (hrest : EndsEntry .rParen rest)
    (hf : Parses (f values) rest Q) :
    Parses (do
      let values ← if ← accept (.symbol .eq) then commaSeparated (binaryExpr (.ofDepth depth) 1) else pure []
      f values) (us.map .ok ++ rest) Q := by
  obtain ⟨k, hk, hapart, -, hcomma, heq⟩ := isApart_of_endsEntry hrest
  cases h with
  | absent => exact (parses_acceptNot hk (isLike_symbol_of_ne heq)).step hf
  | @values _ ts sign hvalues =>
    have hexpr : FindsItem (fun e ts => ReadsAlone (binaryExpr · 1) ts e) Eq IsApart depth
        (binaryExpr (.ofDepth depth) 1) := fun e ts es k he hlength hk hapart =>
      (he.expr (Nat.le_of_lt hlength) ⟨k, hk, hapart⟩).mono fun _ _ h => ⟨h.1.symm, h.2⟩
    refine (parses_accept rfl _).step ((hvalues.parses hexpr ⟨nofun, rfl, rfl⟩ hk hapart hcomma
      (Nat.lt_of_succ_lt hdepth)).bind ?_)
    rintro found _ ⟨hfound, rfl⟩
    rw [List.forall₂_eq_eq_eq] at hfound
    exact hfound ▸ hf

theorem endsConstNames_of_startsType (h : k.startsType = true) : endsConstNames k = false := by
  unfold endsConstNames
  split <;> first | rfl | cases h

/-- A line with whatever ends it behind it. -/
theorem ConstLine.Writes.parses (h : line.Writes ts) (hdepth : ts.length < depth) (hrest : EndsEntry .rParen rest) :
    Parses (constLine (.ofDepth depth)) (ts.map .ok ++ rest) fun found es' => line.IsFoundAs found ∧ es' = rest := by
  obtain @⟨names, isTyped, values, span, ns, ts, us, hnames, htype, hvalues⟩ := h
  obtain ⟨first, ms, hfirst, hns⟩ := hnames.exists_name
  obtain ⟨k, hk, hapart, hends, hcomma⟩ := hvalues.exists_isApart hrest
  simp only [List.length_append] at hdepth
  have hvalued : Parses (do
      let values ← if ← accept (.symbol .eq) then commaSeparated (binaryExpr (.ofDepth depth) 1) else pure []
      return ConstLine.mk names isTyped values (← spanFrom first.2)) (us.map .ok ++ rest)
      fun found es' => IsFoundAs ⟨names, isTyped, values, span⟩ found ∧ es' = rest := by
    refine hvalues.parses (by omega) hrest fun s hs => ⟨_, s, rfl, ⟨rfl, ?_⟩, hs⟩
    rw [BeginsAt, hfirst]
    rfl
  rw [List.map_append, List.append_assoc, List.map_append, List.append_assoc]
  have hpeek (es : List Event) : Parses peek (ns.map .ok ++ es) fun t es' =>
      t = ⟨.identifier first.1, first.2⟩ ∧ es' = ns.map .ok ++ es := by
    rw [hns]
    exact parses_peek_token _ _
  refine (hpeek _).step ?_
  cases htype with
  | absent =>
    refine (parses_constNames hnames hk hcomma).step ((parses_peekKind hk).step ?_)
    simp only [hends]
    exact hvalued
  | @type t _ htype =>
    obtain ⟨kind, hkind, hstart⟩ := htype.exists_startsType (us.map .ok ++ rest)
    refine (parses_constNames hnames hkind ?_).step ((parses_peekKind hkind).step ?_)
    · rintro rfl
      cases hstart
    simp only [endsConstNames_of_startsType hstart]
    refine (htype.type (by omega) ⟨k, hk, hapart⟩).step ?_
    refine (parses_keepStructs t _).bind ?_
    rintro _ _ rfl
    exact hvalued

theorem ConstLine.Writes.exists_name (h : line.Writes ts) :
    ∃ t us, ts = t :: us ∧ t.kind ≠ .symbol .semi ∧ t.kind ≠ .symbol .rParen := by
  obtain ⟨hnames, -, -⟩ := h
  obtain ⟨first, us, -, rfl⟩ := hnames.exists_name
  exact ⟨_, _, rfl, nofun, nofun⟩

/-! ## Groups -/

theorem parses_declarationEnd (semi : Span) (es : List Event) :
    Parses declarationEnd (.ok ⟨.symbol .semi, semi⟩ :: es) fun _ es' => es' = es :=
  (parses_accept rfl es).step (.pure rfl)

/-- The lines of a group are found. -/
theorem WritesConstGroup.exists_found (h : WritesConstGroup lines s.stream.events rest) :
    ∃ found t, withGrammar (fun g => declaration .const fun _ => constLine g) s = .ok found t ∧
      t.stream.events = rest ∧ List.Forall₂ ConstLine.IsFoundAs lines found := by
  obtain ⟨ts, word, openSpan, closeSpan, semi, hlines, hs⟩ := h
  have hdepth : ts.length < s.remaining + 1 := by
    simp only [State.remaining, hs, List.length_cons, List.length_append, List.length_map]
    omega
  have hgroup : Parses (declaration .const fun _ => constLine (.ofDepth (s.remaining + 1))) s.stream.events
      fun found es' => List.Forall₂ ConstLine.IsFoundAs lines found ∧ es' = rest := by
    rw [hs]
    refine (parses_expect rfl _).step ?_
    refine Parses.bind (P := fun found es' =>
      List.Forall₂ ConstLine.IsFoundAs lines found ∧ es' = .ok ⟨.symbol .semi, semi⟩ :: rest) ?_ ?_
    · refine .ifAccept rfl ?_
      refine (hlines.parses (by decide) hdepth (fun _ _ _ => ConstLine.Writes.exists_name)
        fun _ _ _ _ hline hlength hends => hline.parses hlength hends).bind ?_
      rintro found _ ⟨hfound, rfl⟩
      exact (parses_expect rfl _).step (.pure ⟨hfound, rfl⟩)
    · rintro found _ ⟨hfound, rfl⟩
      exact (parses_declarationEnd semi rest).bind fun _ _ h => .pure ⟨hfound, h⟩
  obtain ⟨found, t, hres, hfound, ht⟩ := hgroup s rfl
  exact ⟨found, t, hres, ht, hfound⟩

end StructPadding.Parser
