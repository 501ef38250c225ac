-- SUMMARY: Spans that run forward between given places, and the places between the characters of a source.
import StructPadding.Source.Span

/-!
# Places

A span is well placed when it ends no sooner than it begins, and both its ends are places of a given kind. The
kind that matters for a source text are its character boundaries.
-/

namespace StructPadding

/-- Whether a span runs forward from one of the given places to another. -/
structure Span.Within (good : Nat → Prop) (s : Span) : Prop where
  start_le_stop : s.start ≤ s.stop
  start : good s.start
  stop : good s.stop

namespace Span

variable {good : Nat → Prop}

theorem within_point {n : Nat} (h : good n) : (point n).Within good := ⟨Nat.le_refl n, h, h⟩

theorem Within.merge {a b : Span} (ha : a.Within good) (hb : b.Within good) : (a.merge b).Within good where
  start_le_stop := by
    have := ha.start_le_stop
    simp only [merge_start, merge_stop]
    omega
  start := by
    rcases Nat.le_total a.start b.start with h | h
    · simpa [Nat.min_eq_left h] using ha.start
    · simpa [Nat.min_eq_right h] using hb.start
  stop := by
    rcases Nat.le_total a.stop b.stop with h | h
    · simpa [Nat.max_eq_right h] using hb.stop
    · simpa [Nat.max_eq_left h] using ha.stop

end Span

/-- Whether a number of bytes leads to a place between two characters of a source, or to one of its ends. -/
def IsBoundary (source : String) (n : Nat) : Prop := String.Pos.Raw.IsValid source ⟨n⟩

theorem IsBoundary.le_utf8ByteSize {source : String} {n : Nat} (h : IsBoundary source n) :
    n ≤ source.utf8ByteSize := String.Pos.Raw.IsValid.le_utf8ByteSize h

theorem isBoundary_append (before after : String) : IsBoundary (before ++ after) before.utf8ByteSize :=
  String.Pos.Raw.isValid_iff_exists_append.2 ⟨before, after, rfl, rfl⟩

theorem isBoundary_utf8ByteSize (source : String) : IsBoundary source source.utf8ByteSize :=
  String.Pos.Raw.isValid_rawEndPos

theorem isBoundary_zero (source : String) : IsBoundary source 0 := String.Pos.Raw.isValid_zero

end StructPadding
