/-
Places in a source text. Offsets and lengths count bytes of the UTF-8 encoding.
-/
namespace RoadPolicy

/-- A stretch of a source text. -/
structure Span where
  offset : Nat
  length : Nat
deriving DecidableEq, Repr

namespace Span

/-- The stretch from one offset up to another. -/
def between (start stop : Nat) : Span := ⟨start, stop - start⟩

/-- The first offset after the stretch. -/
def stop (s : Span) : Nat := s.offset + s.length

/-- The shortest stretch that starts with `s` and ends with `t`. -/
def through (s t : Span) : Span := between s.offset t.stop

end Span

end RoadPolicy
