/-!
A place in a source text: what has been read, what is still to come, and the line and column,
both counted from one. Every scanner moves by `forward`, so line and column follow the text.
-/

namespace Trazo

structure Cursor where
  /-- Characters already read, the nearest first. -/
  seen : List Char
  rest : List Char
  line : Nat
  column : Nat
  deriving DecidableEq, Inhabited

namespace Cursor

def start (source : List Char) : Cursor := ⟨[], source, 1, 1⟩

/-- The number of characters read. -/
def offset (c : Cursor) : Nat := c.seen.length

/-- One character on. At the end nothing moves. -/
def next (c : Cursor) : Cursor :=
  match c.rest with
  | [] => c
  | ch :: r =>
    if ch = '\n' then ⟨ch :: c.seen, r, c.line + 1, 1⟩
    else ⟨ch :: c.seen, r, c.line, c.column + 1⟩

/-- Moves on by `n` characters. -/
def forward : Nat → Cursor → Cursor
  | 0, c => c
  | n + 1, c => forward n c.next

/-- The character at the cursor. -/
def head? (c : Cursor) : Option Char := c.rest.head?

/-- The character `k` places from the cursor, none from the end on. A place before the start
counts from the end of the text, and there is an error when it is before the start even so. -/
def look (c : Cursor) (k : Int) : Except Unit (Option Char) :=
  let source := c.seen.reverse ++ c.rest
  let i : Int := c.offset + k
  if i ≥ source.length then .ok none
  else
    let j := if i < 0 then i + source.length else i
    if j < 0 then .error () else .ok source[j.toNat]?

theorem rest_next (c : Cursor) : c.next.rest = c.rest.drop 1 := by
  unfold next
  split
  · simp_all
  · split <;> simp_all

@[simp]
theorem rest_forward (n : Nat) (c : Cursor) : (forward n c).rest = c.rest.drop n := by
  induction n generalizing c with
  | zero => simp [forward]
  | succ n ih => rw [forward, ih, rest_next, List.drop_drop, Nat.add_comm]

end Cursor

end Trazo
