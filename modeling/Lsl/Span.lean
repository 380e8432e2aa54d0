/- # Source spans

A span is a range of bytes in the text of a script. Spans come from outside
and are never checked: a span may end before it starts, and then it is empty.

Key definitions: `Span`, `Span.cover`, `Span.length`.
-/

namespace Lsl

/-- A range of bytes in the text of a script, from `start` up to `stop`. -/
structure Span where
  start : Nat := 0
  stop : Nat := 0
deriving DecidableEq, Repr, Inhabited

namespace Span

/-- The smallest span that covers both. -/
def cover (a b : Span) : Span :=
  ⟨min a.start b.start, max a.stop b.stop⟩

/-- The number of bytes covered; a span that ends before it starts covers none. -/
def length (a : Span) : Nat := a.stop - a.start

def isEmpty (a : Span) : Bool := a.length == 0

theorem cover_comm (a b : Span) : a.cover b = b.cover a := by
  simp [cover, Nat.min_comm, Nat.max_comm]

theorem cover_assoc (a b c : Span) : (a.cover b).cover c = a.cover (b.cover c) := by
  simp [cover, Nat.min_assoc, Nat.max_assoc]

@[simp] theorem cover_self (a : Span) : a.cover a = a := by
  simp [cover]

end Span

end Lsl
