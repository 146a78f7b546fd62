/-!
# Places in a text

Lines and columns count from one, and columns count characters. A span names its first and its last
place, both included.
-/

namespace MissionScript

structure Pos where
  line : Nat
  col : Nat
deriving DecidableEq, Inhabited

/-- Reading order: by line, then by column. -/
def Pos.le (p q : Pos) : Bool :=
  p.line < q.line || (p.line = q.line && p.col ≤ q.col)

structure Span where
  start : Pos
  stop : Pos
deriving DecidableEq, Inhabited

namespace Span

/-- The span of a single place. -/
def point (line col : Nat) : Span := ⟨⟨line, col⟩, ⟨line, col⟩⟩

/-- The least span that covers both. -/
def merge (a b : Span) : Span :=
  { start := if a.start.le b.start then a.start else b.start
    stop := if a.stop.le b.stop then b.stop else a.stop }

/-- The line that what stands here is attributed to. -/
def line (s : Span) : Nat := s.start.line

/-- The first place, as `line:column`. -/
def text (s : Span) : String := toString s.start.line ++ ":" ++ toString s.start.col

end Span

end MissionScript
