-- SUMMARY: Positions in a source text: byte spans, lines, and the site of a syntax node.

/-!
# Source positions

A `Span` is a range of bytes of a source text, its end exclusive. Every token and every node of the
syntax tree carries a span and the line it starts on; run-time errors report the line, syntax errors
also the span.
-/

namespace Rill

/-- A range of bytes of a source text, end exclusive. -/
structure Span where
  start : Nat
  stop : Nat
  deriving Repr, DecidableEq, Inhabited

/-- The bytes that a text takes in UTF-8. -/
def byteLength : List Char → Nat
  | [] => 0
  | c :: rest => c.utf8Size + byteLength rest

theorem byteLength_append (xs ys : List Char) : byteLength (xs ++ ys) = byteLength xs + byteLength ys := by
  induction xs with
  | nil => simp [byteLength]
  | cons c xs ih => simp [byteLength, ih, Nat.add_assoc]

/-- The number of line feeds in a text. -/
def lineFeeds (cs : List Char) : Nat := cs.count '\n'

/-- Where the next character of a source text stands. Lines are counted from one. -/
structure Position where
  offset : Nat := 0
  line : Nat := 1
  deriving Repr, DecidableEq, Inhabited

/-- The position after a piece of text. -/
def Position.after (p : Position) (cs : List Char) : Position :=
  ⟨p.offset + byteLength cs, p.line + lineFeeds cs⟩

/-- Where a syntax node stands: the line it starts on and its span. -/
structure Site where
  line : Nat
  span : Span
  deriving Repr, DecidableEq, Inhabited

end Rill
