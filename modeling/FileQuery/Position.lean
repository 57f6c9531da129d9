import FileQuery.Decimal

/-!
Points and spans of query text. A point is counted three ways at once: by line, by character within
the line, and by byte of the UTF-8 form.
-/

namespace FileQuery

/-- A point between two characters. Lines and columns start at one. The counts are machine words and
wrap. -/
structure Position where
  line : UInt32 := 1
  column : UInt32 := 1
  offset : UInt64 := 0
deriving DecidableEq

namespace Position

instance : Inhabited Position := ⟨{}⟩

/-- The point behind one more character. Only a newline ends a line. -/
def advance (p : Position) (c : Char) : Position :=
  let offset := p.offset + UInt64.ofNat c.utf8Size
  if c == '\n' then
    { line := p.line + 1, column := 1, offset := offset }
  else
    { line := p.line, column := p.column + 1, offset := offset }

/-- The point behind more characters. -/
def advanceAll (p : Position) (cs : List Char) : Position :=
  cs.foldl advance p

@[simp] theorem advanceAll_nil (p : Position) : p.advanceAll [] = p := rfl

@[simp] theorem advanceAll_cons (p : Position) (c : Char) (cs : List Char) :
    p.advanceAll (c :: cs) = (p.advance c).advanceAll cs := rfl

theorem advanceAll_append (p : Position) (cs ds : List Char) :
    p.advanceAll (cs ++ ds) = (p.advanceAll cs).advanceAll ds := by
  simp [advanceAll]

/-- By line, then by column, then by offset. -/
def order (p q : Position) : Ordering :=
  (compare p.line q.line).then ((compare p.column q.column).then (compare p.offset q.offset))

instance : Ord Position := ⟨order⟩

instance : LE Position := leOfOrd

/-- Line and column, as messages name them. -/
def text (p : Position) : String :=
  Decimal.render p.line.toNat ++ ":" ++ Decimal.render p.column.toNat

end Position

/-- A stretch of text, from a point to the point behind it. -/
structure Span where
  start : Position := {}
  stop : Position := {}
deriving DecidableEq

namespace Span

instance : Inhabited Span := ⟨{}⟩

/-- The empty span at a point. -/
def point (p : Position) : Span :=
  { start := p, stop := p }

/-- The empty span at the end of a span. -/
def step (s : Span) : Span :=
  Span.point s.stop

/-- Whether a span has no extent. Its ends are compared by their offsets only. -/
def isEmpty (s : Span) : Bool :=
  s.start.offset == s.stop.offset

/-- Within one line the last column is named, and left out when it is the first. Across lines the
point behind the span is named. -/
def text (s : Span) : String :=
  if s.start.line == s.stop.line then
    if s.start.column + 1 < s.stop.column then
      s.start.text ++ "-" ++ Decimal.render (s.stop.column - 1).toNat
    else
      s.start.text
  else
    s.start.text ++ "-" ++ s.stop.text

end Span

end FileQuery
