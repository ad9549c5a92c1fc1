import Trazo.Diagnostic
import Trazo.Settings
import Trazo.Vocabulary

/-!
The board: a bounded grid of cells and a head on one of them.

Cells are named by `(x, y)` with `(0, 0)` at the bottom left, and `y` grows upwards. A board goes
from editing to running, from there to finished or failed, and from anywhere back to editing; the
editing tools work only while it is being edited.

A row has no more cells than `maxIndex`. A board that is given a greater width takes it on before it
comes to its rows, which cannot be made: it keeps those it had, and places that are on the board may
then be off its grid. How much memory there is for rows that could be made is left out.
-/

namespace Trazo

abbrev Cell := Option Color

/-- A place on the board, or off it. -/
structure Position where
  x : Int
  y : Int
  deriving DecidableEq, Inhabited

def Position.origin : Position := ⟨0, 0⟩

def Position.display (p : Position) : String :=
  "(" ++ toString p.x ++ ", " ++ toString p.y ++ ")"

/-- The neighbour in a direction. -/
def Position.step (p : Position) : Direction → Position
  | .up => ⟨p.x, p.y + 1⟩
  | .down => ⟨p.x, p.y - 1⟩
  | .right => ⟨p.x + 1, p.y⟩
  | .left => ⟨p.x - 1, p.y⟩

/-- The stages of a board's life around a run. -/
inductive Phase
  | editing | running | finished | failed
  deriving DecidableEq, Inhabited

namespace Phase

def name : Phase → String
  | .editing => "editing"
  | .running => "running"
  | .finished => "finished"
  | .failed => "error"

def all : List Phase := [.editing, .running, .finished, .failed]

def ofName? (s : String) : Option Phase := all.find? fun p => p.name == s

/-- Whether a board may go from one phase to the other. -/
def allows : Phase → Phase → Bool
  | _, .editing => true
  | .editing, .running => true
  | .running, .finished => true
  | .running, .failed => true
  | _, _ => false

end Phase

/-- Rows of cells, the bottom row first. -/
abbrev Grid := Array (Array Cell)

/-- The greatest number that can be an index, or the length of a row. -/
def maxIndex : Nat := 0x7fffffffffffffff

/-- What the grid of a board does not have, or cannot have. -/
inductive GridFault
  | tooWide
  | noRow (index : Nat)
  | noCell (index : Nat) (written : Bool)
  deriving DecidableEq

def GridFault.message (f : GridFault) : String :=
  let beyond := "cannot fit 'int' into an index-sized integer"
  match f with
  | .tooWide => beyond
  | .noRow index => if maxIndex < index then beyond else "list index out of range"
  | .noCell index written =>
    if maxIndex < index then beyond
    else if written then "list assignment index out of range"
    else "list index out of range"

def Grid.empty (width height : Nat) : Grid := Array.replicate height (Array.replicate width none)

/-- The rows of an empty board, if they can be made. -/
def Grid.blank (width height : Nat) : Except GridFault Grid :=
  if 0 < height ∧ maxIndex < width then .error .tooWide else .ok (.empty width height)

def Grid.get (g : Grid) (p : Position) : Cell := ((g[p.y.toNat]?).bind (·[p.x.toNat]?)).join

/-- Looks for the place of a cell, to read it or to write to it. -/
def Grid.reach (g : Grid) (p : Position) (written : Bool) : Except GridFault Unit :=
  match g[p.y.toNat]? with
  | none => .error (.noRow p.y.toNat)
  | some row => if p.x.toNat < row.size then .ok () else .error (.noCell p.x.toNat written)

def Grid.set (g : Grid) (p : Position) (c : Cell) : Grid :=
  g.modify p.y.toNat fun row => row.modify p.x.toNat fun _ => c

/-- The painted cells, row by row from the bottom, each row from the left. -/
def Grid.painted (g : Grid) : List (Nat × Nat × Color) :=
  g.toList.zipIdx.flatMap fun (row, y) =>
    row.toList.zipIdx.filterMap fun (cell, x) => cell.map fun c => (x, y, c)

/-- The cells and the head of a board at some moment. -/
structure Snapshot where
  width : Nat
  height : Nat
  grid : Grid
  head : Position
  deriving DecidableEq, Inhabited

structure Board where
  /-- The least and the greatest side that the board may have. -/
  minSide : Nat
  maxSide : Nat
  width : Nat
  height : Nat
  grid : Grid
  head : Position
  phase : Phase
  deriving DecidableEq, Inhabited

/-! ### Faults -/

/-- Why a board refuses an operation. -/
inductive BoardFault
  | width (given : Int) (low high : Nat)
  | height (given : Int) (low high : Nat)
  | position (p : Position)
  | notEditing (action : String) (phase : Phase)
  | transition (source target : Phase)
  | edge (head : Position) (d : Direction) (line : Option Int)
  deriving DecidableEq

namespace BoardFault

private def range (low high : Nat) : String :=
  ": must be between " ++ toString low ++ " and " ++ toString high

/-- The integers that the text of the diagnostic is written with. -/
def numbers : BoardFault → List Int
  | .width n low high | .height n low high => [n, low, high]
  | .position p => [p.x, p.y]
  | .edge head _ _ => [head.x, head.y]
  | .notEditing .. | .transition .. => []

def diagnostic : BoardFault → Diagnostic
  | .width n low high =>
    { kind := .board, message := "Invalid width " ++ toString n ++ range low high }
  | .height n low high =>
    { kind := .board, message := "Invalid height " ++ toString n ++ range low high }
  | .position p => { kind := .board, message := "Invalid position " ++ p.display }
  | .notEditing action phase =>
    { kind := .boardState
      message := "Cannot " ++ action ++ " while the board is " ++ phase.name
      hint := some "Reset the board to go back to editing." }
  | .transition source target =>
    { kind := .boardState
      message := "Invalid board state transition: " ++ source.name ++ " -> " ++ target.name }
  | .edge head d line =>
    { kind := .boundary (some (head.x, head.y)) (some d.name)
      message := "BOOM: the head fell off the board trying to move " ++ d.name ++ " from " ++
        head.display
      line := line
      hint := some "Check the board size and the number of moves before this line." }

end BoardFault

/-- Why an operation on a board is not done: the board refuses it, or the grid cannot have it. -/
inductive BoardFailure
  | refused (f : BoardFault)
  | grid (f : GridFault)
  deriving DecidableEq

/-! ### Operations -/

namespace Board

def checkSize (minSide maxSide : Nat) (width height : Int) : Except BoardFault Unit :=
  if width < minSide || (maxSide : Int) < width then .error (.width width minSide maxSide)
  else if height < minSide || (maxSide : Int) < height then
    .error (.height height minSide maxSide)
  else .ok ()

/-- An empty board with the head at the bottom left. -/
def create (width height : Int) (s : Settings) : Except BoardFailure Board := do
  (checkSize s.minSide s.maxSide width height).mapError .refused
  let grid ← (Grid.blank width.toNat height.toNat).mapError .grid
  pure
    { minSide := s.minSide, maxSide := s.maxSide
      width := width.toNat, height := height.toNat
      grid := grid, head := .origin, phase := .editing }

def inBounds (b : Board) (p : Position) : Bool :=
  0 ≤ p.x && p.x < b.width && 0 ≤ p.y && p.y < b.height

/-- The cell at a position; off the board there is no paint. -/
def cell (b : Board) (p : Position) : Cell := if b.inBounds p then b.grid.get p else none

/-- Looks at a cell. Off the board nothing is looked up. -/
def look (b : Board) (p : Position) : Except GridFault Cell := do
  if b.inBounds p then b.grid.reach p false
  pure (b.cell p)

def painted (b : Board) : List (Nat × Nat × Color) := b.grid.painted

/-- Empties the board and gives it another size; the head stays where it is if it can. The size is
changed first, and stays changed when the rows cannot be made. -/
def resize (b : Board) (width height : Int) : Except BoardFailure Unit × Board :=
  match checkSize b.minSide b.maxSide width height with
  | .error f => (.error (.refused f), b)
  | .ok () =>
    let b := { b with width := width.toNat, height := height.toNat }
    match Grid.blank b.width b.height with
    | .error f => (.error (.grid f), b)
    | .ok grid =>
      let head := if b.inBounds b.head then b.head else .origin
      (.ok (), { b with grid := grid, head := head, phase := .editing })

def move (b : Board) (d : Direction) (line : Option Int) : Except BoardFault Board :=
  let p := b.head.step d
  if b.inBounds p then .ok { b with head := p } else .error (.edge b.head d line)

/-- Gives a cell a paint, or none. -/
def write (b : Board) (p : Position) (c : Cell) : Except GridFault Board := do
  b.grid.reach p true
  pure { b with grid := b.grid.set p c }

/-- Gives the cell under the head a paint, or none. -/
def paint (b : Board) (c : Cell) : Except GridFault Board := b.write b.head c

/-- Does what a command says. -/
def perform (b : Board) (c : Command) (line : Option Int) : Except BoardFailure Board :=
  match c with
  | .move d => (b.move d line).mapError .refused
  | .paint c => (b.paint (some c)).mapError .grid
  | .clear => (b.paint none).mapError .grid

def senses (b : Board) (s : Sensor) : Except GridFault Bool := (b.look b.head).map s.holds

/-! ### Editing tools -/

def requireEditing (b : Board) (action : String) : Except BoardFault Unit :=
  if b.phase = .editing then .ok () else .error (.notEditing action b.phase)

def requireInside (b : Board) (p : Position) : Except BoardFault Unit :=
  if b.inBounds p then .ok () else .error (.position p)

def setColor (b : Board) (p : Position) (c : Cell) : Except BoardFailure Board := do
  (b.requireEditing "edit cells").mapError .refused
  (b.requireInside p).mapError .refused
  (b.write p c).mapError .grid

/-- Puts the head on a cell. -/
def teleport (b : Board) (p : Position) : Except BoardFault Board := do
  b.requireEditing "move the head"
  b.requireInside p
  pure { b with head := p }

/-- The paint after a given one: none, red, green, black, and none again. -/
def cycle : Cell → Cell
  | none => some .red
  | some .red => some .green
  | some .green => some .black
  | some .black => none

/-- Gives a cell the next paint, and returns it. -/
def cycleColor (b : Board) (p : Position) : Except BoardFailure (Cell × Board) := do
  (b.requireEditing "edit cells").mapError .refused
  let c := cycle (← (b.look p).mapError .grid)
  let b ← b.setColor p c
  pure (c, b)

/-! ### Snapshots -/

def snapshot (b : Board) : Snapshot := ⟨b.width, b.height, b.grid, b.head⟩

/-- Takes cells, size and head from a snapshot. The phase stays. -/
def restore (b : Board) (s : Snapshot) : Except BoardFault Board := do
  if (s.width, s.height) ≠ (b.width, b.height) then
    checkSize b.minSide b.maxSide s.width s.height
  pure { b with width := s.width, height := s.height, grid := s.grid, head := s.head }

/-- Empty cells, the head at the bottom left, back to editing. -/
def reset (b : Board) : Except GridFault Board := do
  let grid ← Grid.blank b.width b.height
  pure { b with grid := grid, head := .origin, phase := .editing }

/-! ### Phases -/

def transition (b : Board) (target : Phase) : Except BoardFault Board :=
  if b.phase.allows target then .ok { b with phase := target }
  else .error (.transition b.phase target)

def startRun (b : Board) : Except BoardFault Board := b.transition .running
def finish (b : Board) : Except BoardFault Board := b.transition .finished
def fail (b : Board) : Except BoardFault Board := b.transition .failed

/-! ### Texts -/

/-- A board in one line: size, head and phase. -/
def display (b : Board) : String :=
  "Board(" ++ toString b.width ++ "x" ++ toString b.height ++ ", head=" ++ b.head.display ++
    ", state=" ++ b.phase.name ++ ")"

def symbol : Cell → Char
  | none => '.'
  | some .black => 'B'
  | some .red => 'R'
  | some .green => 'G'

/-- Three characters for a cell, brackets around the head's. -/
def drawCell (b : Board) (p : Position) : List Char :=
  if p = b.head then ['[', symbol (b.cell p), ']'] else [' ', symbol (b.cell p), ' ']

/-- One row from the left, without the blanks at its end. -/
def drawRow (b : Board) (y : Nat) : List Char :=
  let cells := (List.range b.width).flatMap fun (x : Nat) => b.drawCell ⟨x, y⟩
  (cells.reverse.dropWhile (· = ' ')).reverse

/-- All rows, the top row first. -/
def drawRows (b : Board) : String :=
  "\n".intercalate ((List.range b.height).reverse.map fun y => String.ofList (b.drawRow y))

/-- The first cell from the top, and there from the left, that is on the board and off its grid. -/
def missing? (b : Board) : Option GridFault :=
  if b.width = 0 then none
  else if b.grid.size < b.height then some (.noRow (b.height - 1))
  else (b.grid.toList.take b.height).reverse.findSome? fun row =>
    if row.size < b.width then some (.noCell row.size false) else none

/-- The board as text. -/
def draw (b : Board) : Except GridFault String :=
  match b.missing? with
  | some f => .error f
  | none => .ok b.drawRows

end Board

/-- Looks at a cell of a snapshot, as `Board.look` does. -/
def Snapshot.look (s : Snapshot) (p : Position) : Except GridFault Cell := do
  if 0 ≤ p.x && p.x < s.width && 0 ≤ p.y && p.y < s.height then
    s.grid.reach p false
    pure (s.grid.get p)
  else pure none

end Trazo
