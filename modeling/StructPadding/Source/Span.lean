-- SUMMARY: Half-open byte ranges in a source text.

/-!
# Span

A span covers the bytes from `start` up to, and without, `stop`.
-/

namespace StructPadding

structure Span where
  start : Nat
  stop : Nat
  deriving DecidableEq, Repr, Inhabited

namespace Span

/-- The smallest span that covers both. -/
def merge (a b : Span) : Span := ⟨min a.start b.start, max a.stop b.stop⟩

def length (s : Span) : Nat := s.stop - s.start

def isEmpty (s : Span) : Bool := s.start == s.stop

/-- Spans are ordered by their start, then by their end. -/
def compare (a b : Span) : Ordering :=
  (Ord.compare a.start b.start).then (Ord.compare a.stop b.stop)

def text (s : Span) : String := s!"Span \x7b start: {s.start}, end: {s.stop} \x7d"

/-- The empty span at a place. -/
def point (n : Nat) : Span := ⟨n, n⟩

@[simp] theorem merge_start (a b : Span) : (a.merge b).start = min a.start b.start := rfl
@[simp] theorem merge_stop (a b : Span) : (a.merge b).stop = max a.stop b.stop := rfl

end Span

end StructPadding
