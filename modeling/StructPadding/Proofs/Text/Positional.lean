-- SUMMARY: What a numeral means: digits by value, and the number that a run of them writes by position.
import Mathlib.Data.List.Forall2
import Mathlib.Data.Nat.Digits.Defs
import Mathlib.Tactic.Ring
import StructPadding.Text.Numeral
import StructPadding.Wide

/-!
# Positional values

A run of digits writes the sum of their values, each weighted by a power of the radix. Reading goes from the front and
multiplies what it has by the radix at each digit; it finds that sum, and it finds nothing exactly where a character is
no digit below the radix, or where there are no characters. Radices go up to sixteen here.
-/

namespace StructPadding.Numeral

/-! ## Digits -/

/-- The digits from zero to fifteen. -/
def digits : List Char := ['0', '1', '2', '3', '4', '5', '6', '7', '8', '9', 'a', 'b', 'c', 'd', 'e', 'f']

/-- Whether a character is the digit with a value. Letters are digits in either case. -/
def IsDigit (c : Char) (d : Nat) : Prop := digits[d]? = some c ∨ (digits[d]?).map Char.toUpper = some c

/-- The characters of each run of digits, in order. -/
theorem isDigit_ofNat :
    (∀ d < 10, IsDigit (.ofNat ('0'.toNat + d)) d) ∧ (∀ d < 6, IsDigit (.ofNat ('a'.toNat + d)) (d + 10)) ∧
      ∀ d < 6, IsDigit (.ofNat ('A'.toNat + d)) (d + 10) := by
  unfold IsDigit
  decide

theorem isDigit_iff {c : Char} {d : Nat} :
    IsDigit c d ↔ ∃ h : d < digits.length, c = digits[d] ∨ c = digits[d].toUpper := by
  simp only [IsDigit, Option.map_eq_some_iff, List.getElem?_eq_some_iff]
  constructor
  · rintro (⟨h, rfl⟩ | ⟨_, ⟨h, rfl⟩, rfl⟩)
    · exact ⟨h, .inl rfl⟩
    · exact ⟨h, .inr rfl⟩
  · rintro ⟨h, rfl | rfl⟩
    · exact .inl ⟨h, rfl⟩
    · exact .inr ⟨_, ⟨h, rfl⟩, rfl⟩

theorem digit?_digits : ∀ (d : Nat) (h : d < digits.length),
    digit? 16 digits[d] = some d ∧ digit? 16 digits[d].toUpper = some d := by
  decide

/-- A character is told by its distance from an earlier one. -/
theorem eq_ofNat_of_sub {c first : Char} {n : Nat} (hfirst : first ≤ c) (h : c.toNat - first.toNat = n) :
    c = .ofNat (first.toNat + n) := by
  have hle : first.toNat ≤ c.toNat := hfirst
  rw [← h, Nat.add_sub_cancel' hle, Char.ofNat_toNat]

theorem digit?_eq_some_iff {radix d : Nat} (hradix : radix ≤ 16) {c : Char} :
    digit? radix c = some d ↔ IsDigit c d ∧ d < radix := by
  obtain ⟨hdecimal, hlower, hupper⟩ := isDigit_ofNat
  constructor
  · intro h
    obtain ⟨hvalue, hlt⟩ := Option.filter_eq_some_iff.1 h
    have hd : d < radix := by simpa using hlt
    refine ⟨?_, hd⟩
    split_ifs at hvalue with h0 ha hA
    · obtain ⟨hfirst, hlast⟩ := Char.isDigit_iff_toNat.1 h0
      have hsub : c.toNat - '0'.toNat = d := Option.some.inj hvalue
      rw [eq_ofNat_of_sub hfirst hsub]
      refine hdecimal d ?_
      simp only [Char.reduceToNat] at hsub hlast
      omega
    · have hsub : c.toNat - 'a'.toNat + 10 = d := Option.some.inj hvalue
      obtain ⟨d, rfl⟩ := Nat.exists_eq_add_of_le' (show 10 ≤ d by omega)
      rw [eq_ofNat_of_sub ha.1 (Nat.add_right_cancel hsub)]
      exact hlower d (by omega)
    · have hsub : c.toNat - 'A'.toNat + 10 = d := Option.some.inj hvalue
      obtain ⟨d, rfl⟩ := Nat.exists_eq_add_of_le' (show 10 ≤ d by omega)
      rw [eq_ofNat_of_sub hA.1 (Nat.add_right_cancel hsub)]
      exact hupper d (by omega)
  · rintro ⟨hc, hd⟩
    have hvalue : digit? 16 c = some d := by
      obtain ⟨hlt, rfl | rfl⟩ := isDigit_iff.1 hc
      · exact (digit?_digits d hlt).1
      · exact (digit?_digits d hlt).2
    exact Option.filter_eq_some_iff.2 ⟨(Option.filter_eq_some_iff.1 hvalue).1, by simpa using hd⟩

/-! ## Numbers -/

/-- Whether characters write a number in a radix: at least one digit, each below the radix, most significant first. -/
def Writes (radix : Nat) (cs : List Char) (n : Nat) : Prop :=
  cs ≠ [] ∧ ∃ ds, List.Forall₂ IsDigit cs ds ∧ (∀ d ∈ ds, d < radix) ∧ n = Nat.ofDigits radix ds.reverse

theorem Writes.lt {radix : Nat} (hradix : 1 < radix) {cs : List Char} {n : Nat} (h : Writes radix cs n) :
    n < radix ^ cs.length := by
  obtain ⟨-, ds, hall, hlt, rfl⟩ := h
  have hlength : ds.reverse.length = cs.length := by rw [List.length_reverse, hall.length_eq]
  rw [← hlength]
  exact Nat.ofDigits_lt_base_pow_length hradix fun d hd => hlt d (List.mem_reverse.1 hd)

/-- Reading the next digit multiplies what has been read before it. -/
theorem ofDigits_step (radix acc d : Nat) (ds : List Nat) : Nat.ofDigits radix (ds.reverse ++ [acc * radix + d]) =
    Nat.ofDigits radix ((d :: ds).reverse ++ [acc]) := by
  simp only [List.reverse_cons, List.append_assoc, Nat.ofDigits_append, List.cons_append, List.nil_append,
    Nat.ofDigits_cons, Nat.ofDigits_nil]
  ring

theorem valueFrom_eq_some_iff {radix : Nat} (hradix : radix ≤ 16) {acc n : Nat} {cs : List Char} :
    valueFrom radix acc cs = some n ↔ ∃ ds, List.Forall₂ IsDigit cs ds ∧ (∀ d ∈ ds, d < radix) ∧
      n = Nat.ofDigits radix (ds.reverse ++ [acc]) := by
  induction cs generalizing acc with
  | nil => simp [valueFrom, eq_comm]
  | cons c cs ih =>
    simp only [valueFrom, Option.bind_eq_some_iff, digit?_eq_some_iff hradix, ih]
    constructor
    · rintro ⟨d, ⟨hc, hd⟩, ds, hcs, hds, rfl⟩
      exact ⟨d :: ds, .cons hc hcs, List.forall_mem_cons.2 ⟨hd, hds⟩, ofDigits_step ..⟩
    · rintro ⟨_, hall, hds, rfl⟩
      obtain ⟨d, ds, hc, hcs, rfl⟩ := List.forall₂_cons_left_iff.1 hall
      obtain ⟨hd, hds⟩ := List.forall_mem_cons.1 hds
      exact ⟨d, ⟨hc, hd⟩, ds, hcs, hds, (ofDigits_step ..).symm⟩

theorem natural?_eq_some_iff {radix : Nat} (hradix : radix ≤ 16) {cs : List Char} {n : Nat} :
    natural? radix cs = some n ↔ Writes radix cs n := by
  simp [natural?, Writes, valueFrom_eq_some_iff hradix, Nat.ofDigits_append]

theorem Writes.unique {radix : Nat} (hradix : radix ≤ 16) {cs : List Char} {m n : Nat} (hm : Writes radix cs m)
    (hn : Writes radix cs n) : m = n :=
  Option.some.inj (((natural?_eq_some_iff hradix).2 hm).symm.trans ((natural?_eq_some_iff hradix).2 hn))

/-! ## Signs -/

theorem not_writes_sign {radix : Nat} (hradix : radix ≤ 16) {sign : Char} (hsign : sign ∈ ['+', '-']) (cs : List Char)
    (n : Nat) : ¬ Writes radix (sign :: cs) n := by
  have hdigit : digit? radix sign = none := by
    rcases List.mem_pair.1 hsign with rfl | rfl <;> rfl
  rw [← natural?_eq_some_iff hradix]
  simp [natural?, valueFrom, hdigit]

theorem signed?_minus (radix : Nat) (cs : List Char) :
    signed? radix ('-' :: cs) = (natural? radix cs).map fun n : Nat => -(n : Int) := by
  rw [signed?]
  cases natural? radix cs <;> rfl

theorem signed?_plus (radix : Nat) (cs : List Char) :
    signed? radix ('+' :: cs) = (natural? radix cs).map fun n : Nat => (n : Int) := rfl

theorem signed?_of_unsigned (radix : Nat) {cs : List Char} (h : ∀ sign ∈ ['+', '-'], sign ∉ cs.head?) :
    signed? radix cs = (natural? radix cs).map fun n : Nat => (n : Int) := by
  unfold signed?
  split
  · exact absurd rfl (h '-' (by decide))
  · exact absurd rfl (h '+' (by decide))
  · rfl

/-- A number with a sign is written by digits alone, or by digits behind one sign. -/
theorem signed?_eq_some_iff {radix : Nat} (hradix : radix ≤ 16) {cs : List Char} {v : Int} :
    signed? radix cs = some v ↔ (∃ n : Nat, Writes radix cs n ∧ v = n) ∨
      ∃ (ds : List Char) (n : Nat), Writes radix ds n ∧ (cs = '+' :: ds ∧ v = n ∨ cs = '-' :: ds ∧ v = -n) := by
  by_cases hsign : ∃ sign ∈ ['+', '-'], sign ∈ cs.head?
  · obtain ⟨sign, hsign, hhead⟩ := hsign
    obtain ⟨ds, rfl⟩ := List.head?_eq_some_iff.1 hhead
    have hnone {n : Nat} : ¬ Writes radix (sign :: ds) n := not_writes_sign hradix hsign ds n
    rcases List.mem_pair.1 hsign with rfl | rfl
    · simp [signed?_plus, natural?_eq_some_iff hradix, hnone, eq_comm]
    · simp [signed?_minus, natural?_eq_some_iff hradix, hnone, eq_comm]
  · rw [signed?_of_unsigned radix fun sign hs hhead => hsign ⟨sign, hs, hhead⟩, Option.map_eq_some_iff]
    simp only [natural?_eq_some_iff hradix]
    constructor
    · rintro ⟨n, hn, rfl⟩
      exact .inl ⟨n, hn, rfl⟩
    · rintro (⟨n, hn, rfl⟩ | ⟨ds, n, -, ⟨rfl, -⟩ | ⟨rfl, -⟩⟩)
      · exact ⟨n, hn, rfl⟩
      · exact absurd ⟨'+', by decide, rfl⟩ hsign
      · exact absurd ⟨'-', by decide, rfl⟩ hsign

/-- A number of the wide range with a sign: the least one has no opposite. -/
theorem signed?_bind_fits?_eq_some_iff {radix : Nat} (hradix : radix ≤ 16) {cs : List Char} {v : Int} :
    (signed? radix cs).bind Wide.fits? = some v ↔ (∃ n : Nat, Writes radix cs n ∧ n < 2 ^ 127 ∧ v = n) ∨
      ∃ (ds : List Char) (n : Nat), Writes radix ds n ∧
        (cs = '+' :: ds ∧ n < 2 ^ 127 ∧ v = n ∨ cs = '-' :: ds ∧ n ≤ 2 ^ 127 ∧ v = -n) := by
  have hplus {n : Nat} : Wide.least ≤ n ∧ (n : Int) ≤ Wide.greatest ↔ n < 2 ^ 127 := by
    simp only [Wide.least, Wide.greatest]
    omega
  have hminus {n : Nat} : Wide.least ≤ -n ∧ -(n : Int) ≤ Wide.greatest ↔ n ≤ 2 ^ 127 := by
    simp only [Wide.least, Wide.greatest]
    omega
  simp only [Option.bind_eq_some_iff, signed?_eq_some_iff hradix, Wide.fits?_eq_some_iff]
  constructor
  · rintro ⟨_, ⟨n, hn, rfl⟩ | ⟨ds, n, hn, ⟨hcs, rfl⟩ | ⟨hcs, rfl⟩⟩, hfits, rfl⟩
    · exact .inl ⟨n, hn, hplus.1 hfits, rfl⟩
    · exact .inr ⟨ds, n, hn, .inl ⟨hcs, hplus.1 hfits, rfl⟩⟩
    · exact .inr ⟨ds, n, hn, .inr ⟨hcs, hminus.1 hfits, rfl⟩⟩
  · rintro (⟨n, hn, hfits, rfl⟩ | ⟨ds, n, hn, ⟨hcs, hfits, rfl⟩ | ⟨hcs, hfits, rfl⟩⟩)
    · exact ⟨n, .inl ⟨n, hn, rfl⟩, hplus.2 hfits, rfl⟩
    · exact ⟨n, .inr ⟨ds, n, hn, .inl ⟨hcs, rfl⟩⟩, hplus.2 hfits, rfl⟩
    · exact ⟨-n, .inr ⟨ds, n, hn, .inr ⟨hcs, rfl⟩⟩, hminus.2 hfits, rfl⟩

end StructPadding.Numeral
