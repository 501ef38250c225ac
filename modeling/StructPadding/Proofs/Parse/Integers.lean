-- SUMMARY: Integer literals have the value that their digits write in their radix, and are refused without one.
import StructPadding.Proofs.Parse.Progress
import StructPadding.Proofs.Text.Positional

/-!
# Integer literals

The pattern of integer literals says nothing of values: it has texts without digits, texts with digits that the radix
does not have, and numbers of any size. A literal has a value exactly if what is left of it, without separators and
without the mark of the radix, writes a number of the wide range.
-/

namespace StructPadding

namespace Literal

open Regex (Matches)

/-! ## Radices -/

/-- Whether a text without separators is written in a radix with some digits: behind a mark in either case, behind a
    zero that other digits follow, or without either. -/
inductive HasRadix : List Char → Nat → List Char → Prop
  | hexadecimal {mark : Char} {ds : List Char} (h : mark ∈ ['x', 'X']) : HasRadix ('0' :: mark :: ds) 16 ds
  | binary {mark : Char} {ds : List Char} (h : mark ∈ ['b', 'B']) : HasRadix ('0' :: mark :: ds) 2 ds
  | octal {mark : Char} {ds : List Char} (h : mark ∈ ['o', 'O']) : HasRadix ('0' :: mark :: ds) 8 ds
  | leadingZero {d : Char} {ds : List Char} (h : d.isDigit = true) : HasRadix ('0' :: d :: ds) 8 (d :: ds)
  | zero : HasRadix ['0'] 10 ['0']
  | decimal {d : Char} {ds : List Char} (h : d.isDigit = true) (hzero : d ≠ '0') : HasRadix (d :: ds) 10 (d :: ds)

variable {cs ds : List Char} {r : Nat}

theorem HasRadix.radix_eq (h : HasRadix cs r ds) : radix cs = (r, ds) := by
  cases h with
  | hexadecimal h => rcases List.mem_pair.1 h with rfl | rfl <;> rfl
  | binary h => rcases List.mem_pair.1 h with rfl | rfl <;> rfl
  | octal h => rcases List.mem_pair.1 h with rfl | rfl <;> rfl
  | leadingZero h =>
    unfold radix
    split <;> simp_all
  | zero => rfl
  | decimal h hzero =>
    unfold radix
    split <;> simp_all

theorem HasRadix.le (h : HasRadix cs r ds) : r ≤ 16 := by cases h <;> decide

theorem HasRadix.suffix (h : HasRadix cs r ds) : ds <:+ cs := by
  cases h with
  | hexadecimal | binary | octal => exact ⟨[_, _], rfl⟩
  | leadingZero => exact ⟨['0'], rfl⟩
  | zero | decimal => exact List.suffix_rfl

/-- A text with a mark keeps its zero and its mark without separators. -/
theorem exists_marked {marks : String} {a : Regex} {w : List Char} (hmarks : '_' ∉ marks.toList)
    (h : Matches (.word "0" ++ .anyOf marks ++ a) w) :
    ∃ mark ∈ marks.toList, ∃ ds, w.filter (· != '_') = '0' :: mark :: ds := by
  obtain ⟨_, rest, hbegin, -, rfl⟩ := Regex.matches_append_iff.1 h
  obtain ⟨_, _, hzero, hmark, rfl⟩ := Regex.matches_append_iff.1 hbegin
  obtain rfl := Regex.matches_word_iff.1 hzero
  obtain ⟨mark, hmem, rfl⟩ := Regex.matches_anyOf_iff.1 hmark
  have hne : mark ≠ '_' := fun heq => hmarks (heq ▸ hmem)
  exact ⟨mark, hmem, rest.filter (· != '_'), by simp [hne]⟩

/-- A text without a mark is digits without separators. -/
theorem exists_digits {w : List Char} (h : Matches Token.Pattern.digits w) :
    ∃ d ds, w.filter (· != '_') = d :: ds ∧ ∀ c ∈ d :: ds, c.isDigit = true := by
  obtain ⟨_, rest, hfirst, hrest, rfl⟩ := Regex.matches_append_iff.1 h
  obtain ⟨d, hd, rfl⟩ := Regex.matches_one_iff.1 hfirst
  have hdigit : d.isDigit = true := by simpa [CharSet.contains, Char.isDigit, Char.le_def] using hd
  have hne : d ≠ '_' := by
    rintro rfl
    cases hdigit
  have hbars : ∀ c ∈ rest, c.isDigit = true ∨ c = '_' := by
    refine Regex.forall_mem_of_matches_many (fun u hu c hc => ?_) hrest
    obtain ⟨e, he, rfl⟩ := Regex.matches_one_iff.1 hu
    obtain rfl := List.mem_singleton.1 hc
    refine (show ('0' ≤ c ∧ c ≤ '9') ∨ ('_' ≤ c ∧ c ≤ '_') by simpa [CharSet.contains] using he).imp ?_ ?_
    · exact fun hc => Char.isDigit_iff_toNat.2 hc
    · exact fun hc => Char.le_antisymm hc.2 hc.1
  refine ⟨d, rest.filter (· != '_'), by simp [hne], List.forall_mem_cons.2 ⟨hdigit, fun c hc => ?_⟩⟩
  obtain ⟨hmem, hbar⟩ := List.mem_filter.1 hc
  exact (hbars c hmem).resolve_right (by simpa using hbar)

/-- Every text of the pattern has a radix. -/
theorem exists_hasRadix {w : List Char} (h : Matches Token.Pattern.int w) :
    ∃ r ds, HasRadix (w.filter (· != '_')) r ds := by
  simp only [Token.Pattern.int, Regex.matches_or_iff] at h
  rcases h with ((h | h) | h) | h
  · obtain ⟨mark, hmark, ds, heq⟩ := exists_marked (by decide) h
    exact ⟨16, ds, heq ▸ .hexadecimal hmark⟩
  · obtain ⟨mark, hmark, ds, heq⟩ := exists_marked (by decide) h
    exact ⟨2, ds, heq ▸ .binary hmark⟩
  · obtain ⟨mark, hmark, ds, heq⟩ := exists_marked (by decide) h
    exact ⟨8, ds, heq ▸ .octal hmark⟩
  · obtain ⟨d, ds, heq, hdigits⟩ := exists_digits h
    obtain ⟨hd, hds⟩ := List.forall_mem_cons.1 hdigits
    rw [heq]
    by_cases hzero : d = '0'
    · subst hzero
      cases ds with
      | nil => exact ⟨10, ['0'], .zero⟩
      | cons e ds => exact ⟨8, e :: ds, .leadingZero (hds e (List.mem_cons_self ..))⟩
    · exact ⟨10, d :: ds, .decimal hd hzero⟩

/-! ## Values -/

theorem unsigned_of_matches {w : List Char} (h : Matches Token.Pattern.int w)
    (hradix : HasRadix (w.filter (· != '_')) r ds) : ∀ sign ∈ ['+', '-'], sign ∉ ds.head? := by
  intro sign hsign hhead
  have hmem : sign ∈ w := List.mem_of_mem_filter (hradix.suffix.subset (List.mem_of_mem_head? hhead))
  have havoids : Token.Pattern.int.avoids sign = true := by
    rcases List.mem_pair.1 hsign with rfl | rfl <;> decide +kernel
  exact Regex.not_mem_of_avoids havoids h hmem

theorem int?_eq_some_iff {text : String} (h : Matches Token.Pattern.int text.toList)
    (hradix : HasRadix (text.toList.filter (· != '_')) r ds) {v : Int} :
    int? text = some v ↔ ∃ n : Nat, Numeral.Writes r ds n ∧ n < 2 ^ 127 ∧ v = n := by
  have hunsigned := unsigned_of_matches h hradix
  simp only [int?, hradix.radix_eq, Numeral.signed?_bind_fits?_eq_some_iff hradix.le]
  refine or_iff_left ?_
  rintro ⟨ds, n, -, ⟨rfl, -⟩ | ⟨rfl, -⟩⟩
  · exact hunsigned '+' (by decide) rfl
  · exact hunsigned '-' (by decide) rfl

end Literal

namespace Parser

open Regex (Matches)
open Literal (HasRadix)

/-! ## Operands -/

variable {g : Grammar} {s : State} {span : Span} {rest : List Token.Event} {text : String}

/-- The state behind a token that stood in front of some events. -/
def State.behind (s : State) (span : Span) (rest : List Token.Event) : State :=
  ⟨⟨rest, s.stream.length⟩, span.stop, s.locals⟩

theorem operand_of_int? {v : Int} (hevents : s.stream.events = .ok ⟨.literal .int text, span⟩ :: rest)
    (hv : Literal.int? text = some v) : operand g s = .ok (.int v span) (s.behind span rest) := by
  simp only [operand, Bind.bind, EStateM.bind, advance_ok hevents, hv]
  rfl

theorem operand_of_int?_none (hevents : s.stream.events = .ok ⟨.literal .int text, span⟩ :: rest)
    (hv : Literal.int? text = none) :
    operand g s = .error ⟨.invalidInteger text, span⟩ (s.behind span rest) := by
  simp only [operand, Bind.bind, EStateM.bind, advance_ok hevents, hv]
  rfl

/-- An integer literal has one radix and one run of digits, which its text tells without its separators. It has the
    value that the digits write in the radix if they write one below `2 ^ 127`, and no other value. Where it has a
    value, it is parsed as that number, and otherwise it is a problem of the parser in the place of the literal. -/
theorem intLiteral_positional (h : Matches Token.Pattern.int text.toList) :
    (∃ r ds, HasRadix (text.toList.filter (· != '_')) r ds) ∧
    ∀ r ds, HasRadix (text.toList.filter (· != '_')) r ds →
      (∀ v, Literal.int? text = some v ↔ ∃ n : Nat, Numeral.Writes r ds n ∧ n < 2 ^ 127 ∧ v = n) ∧
      ∀ (g : Grammar) (s : State) (span : Span) (rest : List Token.Event),
        s.stream.events = .ok ⟨.literal .int text, span⟩ :: rest →
          (∀ n : Nat, Numeral.Writes r ds n → n < 2 ^ 127 → operand g s = .ok (.int n span) (s.behind span rest)) ∧
          ((∀ n, Numeral.Writes r ds n → 2 ^ 127 ≤ n) →
            operand g s = .error ⟨.invalidInteger text, span⟩ (s.behind span rest) ∧
              (Cause.invalidInteger text).stage = .parser) := by
  refine ⟨Literal.exists_hasRadix h, fun r ds hradix => ?_⟩
  have hvalue {v : Int} := Literal.int?_eq_some_iff h hradix (v := v)
  refine ⟨fun v => hvalue, fun g s span rest hevents => ⟨fun n hn hlt => ?_, fun hnone => ⟨?_, rfl⟩⟩⟩
  · exact operand_of_int? hevents (hvalue.2 ⟨n, hn, hlt, rfl⟩)
  · refine operand_of_int?_none hevents (Option.eq_none_iff_forall_ne_some.2 fun v hv => ?_)
    obtain ⟨n, hn, hlt, -⟩ := hvalue.1 hv
    exact Nat.not_lt.2 (hnone n hn) hlt

/-- A literal with a separator behind its mark. -/
def maskText : String := "0X_7f"

theorem hasRadix_maskText : HasRadix (maskText.toList.filter (· != '_')) 16 ['7', 'f'] :=
  .hexadecimal (List.mem_pair.2 (.inr rfl))

theorem writes_maskText : Numeral.Writes 16 ['7', 'f'] 127 :=
  ⟨by decide, [7, 15], .cons (.inl rfl) (.cons (.inl rfl) .nil), by decide, by decide⟩

theorem intLiteral_positional_mask :
    Matches Token.Pattern.int maskText.toList ∧ Literal.int? maskText = some 127 ∧
      ∀ (g : Grammar) (rest : List Token.Event),
        operand g ⟨⟨.ok ⟨.literal .int maskText, ⟨0, 5⟩⟩ :: rest, 5⟩, 0, []⟩ =
          .ok (.int 127 ⟨0, 5⟩) ⟨⟨rest, 5⟩, 5, []⟩ := by
  have hmatches : Matches Token.Pattern.int maskText.toList := Regex.accepts_iff.1 (by decide +kernel)
  obtain ⟨hvalue, hoperand⟩ := (intLiteral_positional hmatches).2 16 _ hasRadix_maskText
  refine ⟨hmatches, (hvalue 127).2 ⟨127, writes_maskText, by decide, rfl⟩, fun g rest => ?_⟩
  exact (hoperand g _ _ _ rfl).1 127 writes_maskText (by decide)

end Parser

end StructPadding
