-- SUMMARY: Lists as they are written: items with commas between them, and entries with separators behind them.
import Mathlib.Data.List.Forall2
import StructPadding.Proofs.Parse.Parses

/-!
# Written lists

The fields of a struct and the lines of a group are entries with separators behind them. Names and values are items with
commas between them. A loop over such a list finds in each part of it what the parser of one part finds there. How a
part is written, and what is found for it, is left open here.
-/

namespace StructPadding.Parser

open Token (Kind Event)

variable {α β : Type} {writes : α → List Token → Prop} {finds : α → β → Prop} {as : List α} {found : List β} {b : β}
  {ts : List Token} {es rest : List Event} {R : List β → List Event → Prop} {depth : Nat} {k : Kind}

/-- Whether the parts behind some that have been found are found as well, and given events are left. -/
def FindsMore (finds : α → β → Prop) (found : List β) (as : List α) (rest : List Event) (all : List β)
    (es' : List Event) : Prop :=
  (∃ more, all = found ++ more ∧ List.Forall₂ finds as more) ∧ es' = rest

namespace FindsMore

theorem nil (found : List β) (rest : List Event) : FindsMore finds found [] rest found rest :=
  ⟨⟨[], (List.append_nil found).symm, .nil⟩, rfl⟩

theorem cons {a : α} {all : List β} (hb : finds a b) (h : FindsMore finds (found ++ [b]) as rest all es) :
    FindsMore finds found (a :: as) rest all es := by
  obtain ⟨⟨more, rfl, hmore⟩, rfl⟩ := h
  exact ⟨⟨b :: more, by simp, .cons hb hmore⟩, rfl⟩

end FindsMore

/-! ## Items -/

/-- Whether tokens are items, each with a comma in front of it. -/
inductive WritesTail {α : Type} (writes : α → List Token → Prop) : List α → List Token → Prop
  | nil : WritesTail writes [] []
  | next {comma a ts as us} : writes a ts → WritesTail writes as us →
      WritesTail writes (a :: as) (⟨.symbol .comma, comma⟩ :: (ts ++ us))

/-- Whether tokens are items with commas between them. -/
inductive WritesItems {α : Type} (writes : α → List Token → Prop) : List α → List Token → Prop
  | items {a ts as us} : writes a ts → WritesTail writes as us → WritesItems writes (a :: as) (ts ++ us)

theorem WritesItems.single {a : α} (h : writes a ts) : WritesItems writes [a] ts :=
  List.append_nil ts ▸ .items h .nil

/-- Whether an item is found in front of a token that no item goes on with. -/
def FindsItem (writes : α → List Token → Prop) (finds : α → β → Prop) (apart : Kind → Prop) (depth : Nat)
    (item : Parser β) : Prop :=
  ∀ a ts es k, writes a ts → ts.length < depth → nextKind? es = some k → apart k →
    Parses item (ts.map .ok ++ es) fun b es' => finds a b ∧ es' = es

section

variable {item : Parser β} {apart : Kind → Prop} (hitem : FindsItem writes finds apart depth item)
  (hcomma : apart (.symbol .comma)) (hk : nextKind? rest = some k) (hapart : apart k)
include hcomma hk hapart

omit hk in
theorem WritesTail.exists_apart (h : WritesTail writes as ts) (hk : nextKind? rest = some k) :
    ∃ k, nextKind? (ts.map .ok ++ rest) = some k ∧ apart k := by
  cases h with
  | nil => exact ⟨k, hk, hapart⟩
  | next => exact ⟨_, rfl, hcomma⟩

variable (hmore : k ≠ .symbol .comma)
include hitem hmore

theorem WritesTail.repeats (h : WritesTail writes as ts) (hdepth : ts.length < depth) (found : List β) :
    Repeats (commaSeparated.turn item) found (ts.map .ok ++ rest) (FindsMore finds found as rest) := by
  induction h generalizing found with
  | nil => exact .done (.ifAcceptNot hk (isLike_symbol_of_ne hmore) (.pure ⟨_, rfl, .nil found rest⟩))
  | @next comma a ts as us ha hmore' ih =>
    simp only [List.length_cons, List.length_append] at hdepth
    obtain ⟨l, hl, hlapart⟩ := hmore'.exists_apart hcomma hapart hk
    rw [List.map_cons, List.cons_append, List.map_append, List.append_assoc]
    refine .next (.ifAccept rfl ((hitem a ts _ l ha (by omega) hl hlapart).bind ?_))
    rintro b _ ⟨hb, rfl⟩
    refine .pure ⟨_, rfl, ?_, (ih (by omega) (found ++ [b])).mono fun _ _ => .cons hb⟩
    simp only [List.length_append, List.length_cons]
    omega

theorem WritesItems.parses (h : WritesItems writes as ts) (hdepth : ts.length < depth) :
    Parses (commaSeparated item) (ts.map .ok ++ rest) fun bs es' => List.Forall₂ finds as bs ∧ es' = rest := by
  obtain @⟨a, ts, as, us, ha, htail⟩ := h
  rw [List.length_append] at hdepth
  obtain ⟨l, hl, hlapart⟩ := htail.exists_apart hcomma hapart hk
  rw [List.map_append, List.append_assoc]
  refine (hitem a ts _ l ha (by omega) hl hlapart).bind ?_
  rintro b _ ⟨hb, rfl⟩
  refine (Parses.repeating (htail.repeats hitem hcomma hk hapart hmore (by omega) [b])).mono ?_
  rintro bs es' ⟨⟨more, rfl, hfound⟩, rfl⟩
  exact ⟨.cons hb hfound, rfl⟩

end

/-! ## Entries -/

/-- Whether tokens are entries with separators behind them, of which there may be more. None is needed in front of what
    closes the list. -/
inductive WritesEntries {α : Type} (writes : α → List Token → Prop) : List α → List Token → Prop
  | nil : WritesEntries writes [] []
  | last {a ts} : writes a ts → WritesEntries writes [a] ts
  | separator {as ts semi} : WritesEntries writes as ts → WritesEntries writes as (⟨.symbol .semi, semi⟩ :: ts)
  | next {a ts as us semi} : writes a ts → WritesEntries writes as us →
      WritesEntries writes (a :: as) (ts ++ ⟨.symbol .semi, semi⟩ :: us)

/-- Whether a token comes next that ends an entry. -/
def EndsEntry (close : Token.Symbol) (rest : List Event) : Prop :=
  nextKind? rest = some (.symbol .semi) ∨ nextKind? rest = some (.symbol close)

variable {close : Token.Symbol} {entry : Parser β} {closeSpan semi : Span}

/-- A turn at what closes the list. -/
theorem repeats_entries_close (h : R found (.ok ⟨.symbol close, closeSpan⟩ :: rest)) :
    Repeats (entries.turn (.symbol close) fun _ => entry) found (.ok ⟨.symbol close, closeSpan⟩ :: rest) R :=
  .done (.ifCheck rfl (Token.Kind.isLike_refl _) (.pure ⟨_, rfl, h⟩))

theorem repeats_entries_separator (hclose : close ≠ .semi)
    (h : Repeats (entries.turn (.symbol close) fun _ => entry) found es R) :
    Repeats (entries.turn (.symbol close) fun _ => entry) found (.ok ⟨.symbol .semi, semi⟩ :: es) R := by
  have hnot : Kind.symbol .semi ≠ .symbol close := by
    rintro ⟨⟩
    exact hclose rfl
  exact .next (.ifCheckNot rfl (isLike_symbol_of_ne hnot) (.ifAccept rfl (.pure ⟨_, rfl, Nat.lt_succ_self _, h⟩)))

section

variable (hk : nextKind? es = some k) (hsemi : k ≠ .symbol .semi) (hopen : k ≠ .symbol close) {P : β → Prop}
include hk hsemi hopen

/-- A turn at an entry with what closes the list behind it. -/
theorem repeats_entries_last (hlength : rest.length + 1 < es.length)
    (hentry : Parses entry es fun b es' => P b ∧ es' = .ok ⟨.symbol close, closeSpan⟩ :: rest)
    (h : ∀ b, P b → R (found ++ [b]) (.ok ⟨.symbol close, closeSpan⟩ :: rest)) :
    Repeats (entries.turn (.symbol close) fun _ => entry) found es R := by
  refine .next (.ifCheckNot hk (isLike_symbol_of_ne hopen) ?_)
  refine .ifAcceptNot hk (isLike_symbol_of_ne hsemi) (hentry.bind ?_)
  rintro b _ ⟨hb, rfl⟩
  exact .ifCheck rfl (Token.Kind.isLike_refl _) (.pure ⟨_, rfl, hlength, repeats_entries_close (h b hb)⟩)

/-- A turn at an entry with a separator behind it. -/
theorem repeats_entries_next (hclose : close ≠ .semi) (hlength : rest.length < es.length)
    (hentry : Parses entry es fun b es' => P b ∧ es' = .ok ⟨.symbol .semi, semi⟩ :: rest)
    (h : ∀ b, P b → Repeats (entries.turn (.symbol close) fun _ => entry) (found ++ [b]) rest R) :
    Repeats (entries.turn (.symbol close) fun _ => entry) found es R := by
  have hnot : Kind.symbol .semi ≠ .symbol close := by
    rintro ⟨⟩
    exact hclose rfl
  refine .next (.ifCheckNot hk (isLike_symbol_of_ne hopen) ?_)
  refine .ifAcceptNot hk (isLike_symbol_of_ne hsemi) (hentry.bind ?_)
  rintro b _ ⟨hb, rfl⟩
  refine .ifCheckNot rfl (isLike_symbol_of_ne hnot) ?_
  exact (parses_expect rfl rest).step (.pure ⟨_, rfl, hlength, h b hb⟩)

end

/-- The entries that are written are found, if each of them is where it ends. -/
theorem WritesEntries.repeats (h : WritesEntries writes as ts) (hclose : close ≠ .semi) (hdepth : ts.length < depth)
    (hfirst : ∀ a ∈ as, ∀ ts, writes a ts →
      ∃ t us, ts = t :: us ∧ t.kind ≠ .symbol .semi ∧ t.kind ≠ .symbol close)
    (hentry : ∀ a ∈ as, ∀ ts es, writes a ts → ts.length < depth → EndsEntry close es →
      Parses entry (ts.map .ok ++ es) fun b es' => finds a b ∧ es' = es) (found : List β) :
    Repeats (entries.turn (.symbol close) fun _ => entry) found (ts.map .ok ++ .ok ⟨.symbol close, closeSpan⟩ :: rest)
      (FindsMore finds found as (.ok ⟨.symbol close, closeSpan⟩ :: rest)) := by
  induction h generalizing found with
  | nil => exact repeats_entries_close (.nil found _)
  | @last a ts ha =>
    have hfound := hentry a List.mem_cons_self ts (.ok ⟨.symbol close, closeSpan⟩ :: rest) ha hdepth (.inr rfl)
    obtain ⟨t, us, rfl, hsemi, hopen⟩ := hfirst a List.mem_cons_self ts ha
    refine repeats_entries_last rfl hsemi hopen ?_ hfound fun b hb => .cons hb (.nil _ _)
    simp only [List.map_cons, List.length_append, List.length_cons]
    omega
  | separator _ ih => exact repeats_entries_separator hclose (ih (Nat.lt_of_succ_lt hdepth) hfirst hentry found)
  | @next a ts as us semi ha _ ih =>
    rw [List.length_append, List.length_cons] at hdepth
    rw [List.map_append, List.append_assoc]
    have hfound := hentry a List.mem_cons_self ts
      (.ok ⟨.symbol .semi, semi⟩ :: (us.map .ok ++ .ok ⟨.symbol close, closeSpan⟩ :: rest)) ha (by omega) (.inl rfl)
    have hothers := ih (by omega) (fun a hmem => hfirst a (List.mem_cons_of_mem _ hmem))
      fun a hmem => hentry a (List.mem_cons_of_mem _ hmem)
    obtain ⟨t, vs, rfl, hsemi, hopen⟩ := hfirst a List.mem_cons_self ts ha
    refine repeats_entries_next rfl hsemi hopen hclose ?_ hfound fun b hb =>
      (hothers (found ++ [b])).mono fun _ _ => .cons hb
    simp only [List.map_cons, List.length_append, List.length_cons]
    omega

/-- The list of them, up to what closes it. -/
theorem WritesEntries.parses (h : WritesEntries writes as ts) (hclose : close ≠ .semi) (hdepth : ts.length < depth)
    (hfirst : ∀ a ∈ as, ∀ ts, writes a ts →
      ∃ t us, ts = t :: us ∧ t.kind ≠ .symbol .semi ∧ t.kind ≠ .symbol close)
    (hentry : ∀ a ∈ as, ∀ ts es, writes a ts → ts.length < depth → EndsEntry close es →
      Parses entry (ts.map .ok ++ es) fun b es' => finds a b ∧ es' = es) :
    Parses (entries (.symbol close) fun _ => entry) (ts.map .ok ++ .ok ⟨.symbol close, closeSpan⟩ :: rest)
      fun bs es' => List.Forall₂ finds as bs ∧ es' = .ok ⟨.symbol close, closeSpan⟩ :: rest := by
  refine (Parses.repeating (h.repeats hclose hdepth hfirst hentry [])).mono ?_
  rintro _ _ ⟨⟨bs, rfl, hbs⟩, rfl⟩
  exact ⟨hbs, rfl⟩

end StructPadding.Parser
