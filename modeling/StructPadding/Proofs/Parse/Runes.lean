-- SUMMARY: Which runes a rune literal denotes, and the texts between quotes that are read although they denote none.
import StructPadding.Parse.Literal
import StructPadding.Proofs.Text.Positional
import StructPadding.Proofs.Token.Class
import StructPadding.Text.Quoted

/-!
# Rune literals

The pattern of rune literals takes any text between the quotes. A text denotes a code point if it is one character, or
an escape of one of the forms of the language: a letter or a mark, three octal digits, or a letter with its number of
hexadecimal digits. Each of these is read as the code point. The digits of an escape are read as a number of any length
with a sign, though, so there are texts that are read and denote nothing.
-/

namespace StructPadding

namespace Literal

open Numeral (Writes)
open Regex (Matches)

/-! ## Code points -/

def greatestCodePoint : Nat := 0x10ffff

/-- What stands behind a backslash for one character, with the code point of the character. -/
def names : List (Char × Nat) :=
  [('a', 7), ('b', 8), ('f', 12), ('n', 10), ('r', 13), ('t', 9), ('v', 11), ('\\', 92), ('\'', 39)]

/-- The letters of the escapes in hexadecimal, with the number of digits behind them. -/
def widths : List (Char × Nat) := [('x', 2), ('u', 4), ('U', 8)]

/-- Whether the text between the quotes of a rune literal denotes a code point. -/
inductive Denotes : List Char → Nat → Prop
  | character {c : Char} (h : c ≠ '\\') : Denotes [c] c.toNat
  | named {c : Char} {n : Nat} (h : (c, n) ∈ names) : Denotes ['\\', c] n
  | octal {ds : List Char} {n : Nat} (hlength : ds.length = 3) (h : Writes 8 ds n) : Denotes ('\\' :: ds) n
  | hexadecimal {c : Char} {w : Nat} {ds : List Char} {n : Nat} (hc : (c, w) ∈ widths) (hlength : ds.length = w)
      (h : Writes 16 ds n) (hn : n ≤ greatestCodePoint) : Denotes ('\\' :: c :: ds) n

/-- The texts between the quotes of a rune literal that denote nothing and are read all the same: numbers with a sign,
    with too few or too many digits, or above all code points. -/
inductive Misread : List Char → Int → Prop
  | plus {c : Char} {w : Nat} {ds : List Char} {n : Nat} (hc : (c, w) ∈ widths) (h : Writes 16 ds n)
      (hn : n < 2 ^ 127) : Misread ('\\' :: c :: '+' :: ds) n
  | minus {c : Char} {w : Nat} {ds : List Char} {n : Nat} (hc : (c, w) ∈ widths) (h : Writes 16 ds n)
      (hn : n ≤ 2 ^ 127) : Misread ('\\' :: c :: '-' :: ds) (-n)
  | length {c : Char} {w : Nat} {ds : List Char} {n : Nat} (hc : (c, w) ∈ widths) (hlength : ds.length ≠ w)
      (h : Writes 16 ds n) (hn : n < 2 ^ 127) : Misread ('\\' :: c :: ds) n
  | range {c : Char} {w : Nat} {ds : List Char} {n : Nat} (hc : (c, w) ∈ widths) (hlength : ds.length = w)
      (h : Writes 16 ds n) (hn : greatestCodePoint < n) : Misread ('\\' :: c :: ds) n
  | octalLength {ds : List Char} {n : Nat} (hlength : ds.length ≠ 3) (h : Writes 8 ds n) (hn : n < 2 ^ 127) :
      Misread ('\\' :: ds) n

variable {body cs ds : List Char} {c : Char} {n w : Nat} {v : Int}

/-! ## Forms of escapes -/

theorem names_le : ∀ p ∈ names, p.2 ≤ greatestCodePoint := by decide

theorem widths_le : ∀ p ∈ widths, p.2 ≤ 8 := by decide

theorem widths_functional : ∀ p ∈ widths, ∀ q ∈ widths, p.1 = q.1 → p.2 = q.2 := by decide

/-- The character behind the backslash tells the form of an escape. -/
theorem forms_apart : (∀ p ∈ widths, ∀ q ∈ names, p.1 ≠ q.1) ∧ (∀ p ∈ names, ¬ ('0' ≤ p.1 ∧ p.1 ≤ '7')) ∧
    ∀ p ∈ widths, ¬ ('0' ≤ p.1 ∧ p.1 ≤ '7') := by
  decide

theorem octal_of_writes (h : Writes 8 (c :: ds) n) : '0' ≤ c ∧ c ≤ '7' := by
  have htable : ∀ (d : Nat) (h : d < Numeral.digits.length), d < 8 →
      ('0' ≤ Numeral.digits[d] ∧ Numeral.digits[d] ≤ '7') ∧ Numeral.digits[d].toUpper = Numeral.digits[d] := by
    decide
  obtain ⟨-, _, hall, hlt, -⟩ := h
  obtain ⟨d, _, hc, -, rfl⟩ := List.forall₂_cons_left_iff.1 hall
  have hd : d < 8 := hlt d (List.mem_cons_self ..)
  obtain ⟨h, rfl | rfl⟩ := Numeral.isDigit_iff.1 hc
  · exact (htable d h hd).1
  · rw [(htable d h hd).2]
    exact (htable d h hd).1

theorem namedEscape?_eq_some_iff : namedEscape? c = some v ↔ ∃ n, (c, n) ∈ names ∧ v = n := by
  constructor
  · unfold namedEscape?
    split <;> intro h <;> cases h <;> exact ⟨_, by decide, rfl⟩
  · rintro ⟨n, hn, rfl⟩
    simp only [names, List.mem_cons, List.not_mem_nil, or_false, Prod.mk.injEq] at hn
    rcases hn with h | h | h | h | h | h | h | h | h <;> obtain ⟨rfl, rfl⟩ := h <;> rfl

theorem namedEscape?_eq_none (h : ∀ n, (c, n) ∉ names) : namedEscape? c = none :=
  Option.eq_none_iff_forall_ne_some.2 fun _ hv =>
    have ⟨n, hn, _⟩ := namedEscape?_eq_some_iff.1 hv
    h n hn

/-! ## Reading escapes -/

theorem escape?_named (h : (c, n) ∈ names) : escape? [c] = some (n : Int) := by
  simp [escape?, namedEscape?_eq_some_iff.2 ⟨n, h, rfl⟩]

/-- What is no name is read as the rest says. -/
theorem escape?_cons (h : ds = [] → ∀ n, (c, n) ∉ names) : escape? (c :: ds) =
    if c = 'x' ∨ c = 'u' ∨ c = 'U' then (Numeral.signed? 16 ds).bind Wide.fits?
    else if '0' ≤ c ∧ c ≤ '7' then (Numeral.signed? 8 (c :: ds)).bind Wide.fits?
    else none := by
  have hname : (if ds.isEmpty then namedEscape? c else none) = none := by
    split
    · next hds => exact namedEscape?_eq_none (h (List.isEmpty_iff.1 hds))
    · rfl
  simp only [escape?, hname]

theorem mem_widths_iff : (∃ w, (c, w) ∈ widths) ↔ c = 'x' ∨ c = 'u' ∨ c = 'U' := by
  simp [widths, exists_or]

theorem escape?_hexadecimal (hc : (c, w) ∈ widths) (ds : List Char) :
    escape? (c :: ds) = (Numeral.signed? 16 ds).bind Wide.fits? := by
  rw [escape?_cons fun _ n hn => forms_apart.1 _ hc _ hn rfl, if_pos (mem_widths_iff.1 ⟨w, hc⟩)]

theorem escape?_octal (hc : '0' ≤ c ∧ c ≤ '7') (ds : List Char) :
    escape? (c :: ds) = (Numeral.signed? 8 (c :: ds)).bind Wide.fits? := by
  have hletter : ¬ (c = 'x' ∨ c = 'u' ∨ c = 'U') := fun h =>
    have ⟨_, hw⟩ := mem_widths_iff.2 h
    forms_apart.2.2 _ hw hc
  rw [escape?_cons fun _ n hn => forms_apart.2.1 _ hn hc, if_neg hletter, if_pos hc]

/-! ## Reading runes -/

theorem Denotes.le (h : Denotes body n) : n ≤ greatestCodePoint := by
  cases h with
  | @character c h =>
    have hvalid : c.toNat < 0xd800 ∨ 0xdfff < c.toNat ∧ c.toNat < 0x110000 := c.valid
    simp only [greatestCodePoint]
    omega
  | named h => exact names_le _ h
  | octal hlength h =>
    have hlt := h.lt (by decide)
    rw [hlength] at hlt
    exact Nat.le_trans (Nat.le_of_lt hlt) (by decide)
  | hexadecimal _ _ _ hn => exact hn

/-- Behind a letter stands a number of the wide range, of any length and with a sign or without. -/
theorem rune?_hexadecimal_eq_some_iff (hc : (c, w) ∈ widths) :
    rune? ('\\' :: c :: cs) = some v ↔ (∃ n : Nat, Writes 16 cs n ∧ n < 2 ^ 127 ∧ v = n) ∨
      ∃ (ds : List Char) (n : Nat), Writes 16 ds n ∧
        (cs = '+' :: ds ∧ n < 2 ^ 127 ∧ v = n ∨ cs = '-' :: ds ∧ n ≤ 2 ^ 127 ∧ v = -n) := by
  rw [rune?, escape?_hexadecimal hc, Numeral.signed?_bind_fits?_eq_some_iff (by decide)]

theorem rune?_octal (h : Writes 8 ds n) (hn : n < 2 ^ 127) : rune? ('\\' :: ds) = some (n : Int) := by
  obtain ⟨c, ds, rfl⟩ := List.exists_cons_of_ne_nil h.1
  rw [rune?, escape?_octal (octal_of_writes h), Numeral.signed?_bind_fits?_eq_some_iff (by decide)]
  exact .inl ⟨n, h, hn, rfl⟩

/-- What denotes a code point is read as the code point. -/
theorem Denotes.rune?_eq (h : Denotes body n) : rune? body = some (n : Int) := by
  have hwide : greatestCodePoint < 2 ^ 127 := by decide
  have hlt : n < 2 ^ 127 := Nat.lt_of_le_of_lt h.le hwide
  cases h with
  | character h => simp [rune?]
  | named h => exact escape?_named h
  | octal _ h => exact rune?_octal h hlt
  | hexadecimal hc _ h _ => exact (rune?_hexadecimal_eq_some_iff hc).2 (.inl ⟨n, h, hlt, rfl⟩)

theorem Misread.rune?_eq (h : Misread body v) : rune? body = some v := by
  cases h with
  | plus hc h hn => exact (rune?_hexadecimal_eq_some_iff hc).2 (.inr ⟨_, _, h, .inl ⟨rfl, hn, rfl⟩⟩)
  | minus hc h hn => exact (rune?_hexadecimal_eq_some_iff hc).2 (.inr ⟨_, _, h, .inr ⟨rfl, hn, rfl⟩⟩)
  | length hc _ h hn => exact (rune?_hexadecimal_eq_some_iff hc).2 (.inl ⟨_, h, hn, rfl⟩)
  | @range c w ds n hc hlength h _ =>
    have hwidth : ds.length ≤ 8 := hlength ▸ widths_le _ hc
    have hlt : n < 2 ^ 127 := calc
      n < 16 ^ ds.length := h.lt (by decide)
      _ ≤ 16 ^ 8 := Nat.pow_le_pow_right (by decide) hwidth
      _ < 2 ^ 127 := by decide
    exact (rune?_hexadecimal_eq_some_iff hc).2 (.inl ⟨n, h, hlt, rfl⟩)
  | octalLength _ h hn => exact rune?_octal h hn

/-- An escape that is read denotes a code point or is misread, by the form that its first character tells. -/
theorem denotes_or_misread_of_escape (h : rune? ('\\' :: cs) = some v) :
    (∃ n : Nat, Denotes ('\\' :: cs) n ∧ v = n) ∨ Misread ('\\' :: cs) v := by
  obtain - | ⟨c, ds⟩ := cs
  · cases h
  by_cases hname : ds = [] ∧ ∃ n, (c, n) ∈ names
  · obtain ⟨rfl, n, hn⟩ := hname
    rw [rune?, escape?_named hn] at h
    exact .inl ⟨n, .named hn, (Option.some.inj h).symm⟩
  by_cases hletter : ∃ w, (c, w) ∈ widths
  · obtain ⟨w, hc⟩ := hletter
    rcases (rune?_hexadecimal_eq_some_iff hc).1 h with
      ⟨n, hn, hlt, rfl⟩ | ⟨_, n, hn, ⟨rfl, hlt, rfl⟩ | ⟨rfl, hlt, rfl⟩⟩
    · by_cases hlength : ds.length = w
      · by_cases hrange : n ≤ greatestCodePoint
        · exact .inl ⟨n, .hexadecimal hc hlength hn hrange, rfl⟩
        · exact .inr (.range hc hlength hn (Nat.lt_of_not_le hrange))
      · exact .inr (.length hc hlength hn hlt)
    · exact .inr (.plus hc hn hlt)
    · exact .inr (.minus hc hn hlt)
  by_cases hoctal : '0' ≤ c ∧ c ≤ '7'
  · rw [rune?, escape?_octal hoctal, Numeral.signed?_bind_fits?_eq_some_iff (by decide)] at h
    rcases h with ⟨n, hn, hlt, rfl⟩ | ⟨_, n, -, ⟨heq, -⟩ | ⟨heq, -⟩⟩
    · by_cases hlength : (c :: ds).length = 3
      · exact .inl ⟨n, .octal hlength hn, rfl⟩
      · exact .inr (.octalLength hlength hn hlt)
    -- A sign is no octal digit.
    · exact absurd (List.head_eq_of_cons_eq heq ▸ hoctal) (by decide)
    · exact absurd (List.head_eq_of_cons_eq heq ▸ hoctal) (by decide)
  · have hother : ds = [] → ∀ n, (c, n) ∉ names := fun hds n hn => hname ⟨hds, n, hn⟩
    rw [rune?, escape?_cons hother, if_neg (mt mem_widths_iff.2 hletter), if_neg hoctal] at h
    cases h

theorem rune?_eq_some_iff : rune? body = some v ↔ (∃ n : Nat, Denotes body n ∧ v = n) ∨ Misread body v := by
  constructor
  · intro h
    obtain - | ⟨c, ds⟩ := body
    · cases h
    by_cases hc : c = '\\'
    · subst hc
      exact denotes_or_misread_of_escape h
    obtain - | ⟨d, ds⟩ := ds
    · simp only [rune?, Option.some.injEq] at h
      exact .inl ⟨c.toNat, .character hc, h.symm⟩
    · simp [rune?, hc] at h
  · rintro (⟨n, hn, rfl⟩ | h)
    · exact hn.rune?_eq
    · exact h.rune?_eq

/-- A text that is misread denotes nothing. -/
theorem Misread.not_denotes (h : Misread body v) : ¬ Denotes body n := by
  obtain ⟨hnames, hnameOctal, hletterOctal⟩ := forms_apart
  intro hn
  cases hn with
  | character hc =>
    cases h with
    | octalLength => exact hc rfl
  | named hc =>
    cases h with
    | length hletter => exact hnames _ hletter _ hc rfl
    | range hletter => exact hnames _ hletter _ hc rfl
    | octalLength _ h => exact hnameOctal _ hc (octal_of_writes h)
  | octal hlength hds =>
    cases h with
    | plus hc | minus hc | length hc | range hc => exact hletterOctal _ hc (octal_of_writes hds)
    | octalLength hne => exact hne hlength
  | hexadecimal hc hlength hds hle =>
    cases h with
    | plus | minus => exact Numeral.not_writes_sign (by decide) (by decide) _ _ hds
    | length hc' hne => exact hne (hlength.trans (widths_functional _ hc _ hc' rfl))
    | range _ _ hds' hlt => exact Nat.not_lt.2 hle (Numeral.Writes.unique (by decide) hds hds' ▸ hlt)
    | octalLength _ h => exact hletterOctal _ hc (octal_of_writes h)

/-! ## Literals -/

/-- A literal stands between two quotes. -/
theorem toList_unquote_of_matches {text : String} (h : Matches Token.Pattern.rune text.toList) :
    text.toList = '\'' :: (unquote text).toList ++ ['\''] := by
  obtain ⟨_, _, hopen, hlast, htext⟩ := Regex.matches_append_iff.1 h
  obtain ⟨_, body, hfirst, -, rfl⟩ := Regex.matches_append_iff.1 hopen
  obtain rfl := Regex.matches_word_iff.1 hfirst
  obtain rfl := Regex.matches_word_iff.1 hlast
  have hbody : text.toList = '\'' :: body ++ ['\''] := htext
  simp [unquote, hbody]

/-- Whatever stands between the quotes of a literal, it is read as the code point that it denotes, and else as the
    number that it is misread as; it is read as nothing where it neither denotes a code point nor is misread. So
    literals are read as what they denote exactly if they are not misread. -/
theorem runeLiteral_codePoint {text : String} (h : Matches Token.Pattern.rune text.toList) :
    text.toList = '\'' :: (unquote text).toList ++ ['\''] ∧
      (∀ n, Denotes (unquote text).toList n → n ≤ greatestCodePoint) ∧
      (∀ v, rune? (unquote text).toList = some v ↔
        (∃ n : Nat, Denotes (unquote text).toList n ∧ v = n) ∨ Misread (unquote text).toList v) ∧
      ∀ n v, Misread (unquote text).toList v → ¬ Denotes (unquote text).toList n :=
  ⟨toList_unquote_of_matches h, fun _ => Denotes.le, fun _ => rune?_eq_some_iff, fun _ _ => Misread.not_denotes⟩

/-- An escape with two digits. -/
def hexadecimalRune : String := "'\\x4b'"

theorem runeLiteral_codePoint_hexadecimal :
    Matches Token.Pattern.rune hexadecimalRune.toList ∧ rune? (unquote hexadecimalRune).toList = some 0x4b := by
  have hmatches : Matches Token.Pattern.rune hexadecimalRune.toList := Regex.accepts_iff.1 (by decide +kernel)
  have hwrites : Writes 16 ['4', 'b'] 0x4b :=
    ⟨by decide, [4, 11], .cons (.inl rfl) (.cons (.inl rfl) .nil), by decide, by decide⟩
  have hdenotes : Denotes ['\\', 'x', '4', 'b'] 0x4b := .hexadecimal (by decide) rfl hwrites (by decide)
  exact ⟨hmatches, ((runeLiteral_codePoint hmatches).2.2.1 0x4b).2 (.inl ⟨0x4b, hdenotes, rfl⟩)⟩

/-- An escape whose two characters are a sign and a digit. -/
def signedRune : String := "'\\x-4'"

/-- What is read need not be a code point that the body denotes. -/
theorem not_all_runeLiteral_denotes : ¬ ∀ text : String, Matches Token.Pattern.rune text.toList → ∀ v : Int,
    rune? (unquote text).toList = some v →
      0 ≤ v ∧ v ≤ greatestCodePoint ∧ ∃ n : Nat, Denotes (unquote text).toList n ∧ v = n := by
  intro h
  have hmatches : Matches Token.Pattern.rune signedRune.toList := Regex.accepts_iff.1 (by decide +kernel)
  have hread : rune? (unquote signedRune).toList = some (-4) := by decide
  have hnonneg : (0 : Int) ≤ -4 := (h signedRune hmatches (-4) hread).1
  omega

end Literal

end StructPadding
