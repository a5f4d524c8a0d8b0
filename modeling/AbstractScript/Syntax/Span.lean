/-!
# Positions in a source text

Offsets count bytes of the UTF-8 form. Lines and columns count from one; a column counts
characters, and a line feed ends a line.
-/
namespace AbstractScript

/-- A place in a source text. -/
structure Position where
  offset : Nat
  line : Nat
  column : Nat
  deriving DecidableEq, Repr, Inhabited

namespace Position

/-- The place before the first character. -/
def start : Position := ⟨0, 1, 1⟩

/-- The place after one more character. -/
def advance (p : Position) (c : Char) : Position :=
  if c = '\n' then ⟨p.offset + c.utf8Size, p.line + 1, 1⟩
  else ⟨p.offset + c.utf8Size, p.line, p.column + 1⟩

/-- The place after a text. -/
def advanceAll (p : Position) (cs : List Char) : Position := cs.foldl advance p

end Position

/-- The part of a source text between two offsets, with the line and column where it starts. -/
structure Span where
  start : Nat
  stop : Nat
  line : Nat
  column : Nat
  deriving DecidableEq, Repr, Inhabited

namespace Span

/-- The span that starts at `p` and stops at an offset. -/
def ofPosition (p : Position) (stop : Nat) : Span := ⟨p.offset, stop, p.line, p.column⟩

/-- From the start of one span to the stop of another. -/
def through (a b : Span) : Span := { a with stop := b.stop }

end Span

/-- A place that a report points at. -/
structure Location where
  file : String
  line : Nat
  column : Nat
  deriving DecidableEq, Repr, Inhabited

namespace Location

/-- The text of a line and a column. -/
def place (l : Location) : String := Nat.repr l.line ++ ":" ++ Nat.repr l.column

/-- The text of a location. -/
def text (l : Location) : String := l.file ++ ":" ++ l.place

end Location

/-- The location of a span's start. -/
def Span.location (file : String) (s : Span) : Location := ⟨file, s.line, s.column⟩

end AbstractScript
