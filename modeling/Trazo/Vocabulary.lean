/-!
The words of the drawing language.

Eight words are commands to the head, four ask about the cell under it, and six build the
structure of a program. Every word has one meaning and is written in one way only.
-/

namespace Trazo

/-- The paints. A cell holds one of them or none. -/
inductive Color
  | black | red | green
  deriving DecidableEq, Inhabited

def Color.name : Color → String
  | .black => "black"
  | .red => "red"
  | .green => "green"

def Color.all : List Color := [.black, .red, .green]

def Color.ofName? (s : String) : Option Color := all.find? fun c => c.name == s

/-- The four ways the head moves. -/
inductive Direction
  | up | down | right | left
  deriving DecidableEq, Inhabited

def Direction.name : Direction → String
  | .up => "up"
  | .down => "down"
  | .right => "right"
  | .left => "left"

/-- What the head is told to do. -/
inductive Command
  | move (d : Direction)
  | paint (c : Color)
  | clear
  deriving DecidableEq, Inhabited

namespace Command

def all : List Command :=
  [.move .up, .move .down, .move .right, .move .left,
   .paint .black, .paint .red, .paint .green, .clear]

def name : Command → String
  | .move d => "move_" ++ d.name
  | .paint c => "paint_" ++ c.name
  | .clear => "clear"

def word : Command → String
  | .move .up => "MoverArriba"
  | .move .down => "MoverAbajo"
  | .move .right => "MoverDerecha"
  | .move .left => "MoverIzquierda"
  | .paint .black => "PintarNegro"
  | .paint .red => "PintarRojo"
  | .paint .green => "PintarVerde"
  | .clear => "Limpiar"

def ofName? (s : String) : Option Command := all.find? fun c => c.name == s

def isMovement : Command → Bool
  | .move _ => true
  | _ => false

end Command

/-- What a condition asks about the cell under the head. -/
inductive Sensor
  | isEmpty
  | isPainted (c : Color)
  deriving DecidableEq, Inhabited

namespace Sensor

def all : List Sensor := [.isEmpty, .isPainted .black, .isPainted .red, .isPainted .green]

def name : Sensor → String
  | .isEmpty => "is_empty"
  | .isPainted c => "is_painted_" ++ c.name

def word : Sensor → String
  | .isEmpty => "estaVacia?"
  | .isPainted .black => "estaPintadaDeNegro?"
  | .isPainted .red => "estaPintadaDeRojo?"
  | .isPainted .green => "estaPintadaDeVerde?"

def ofName? (s : String) : Option Sensor := all.find? fun q => q.name == s

/-- Whether the sensor says yes on a cell that holds `cell`. -/
def holds : Sensor → Option Color → Bool
  | .isEmpty, cell => cell.isNone
  | .isPainted c, cell => cell == some c

end Sensor

/-- The structural words. -/
inductive Keyword
  | programa | procedimiento | si | sino | repetir | veces
  deriving DecidableEq, Inhabited

namespace Keyword

def all : List Keyword := [.programa, .procedimiento, .si, .sino, .repetir, .veces]

def word : Keyword → String
  | .programa => "programa"
  | .procedimiento => "procedimiento"
  | .si => "si"
  | .sino => "sino"
  | .repetir => "repetir"
  | .veces => "veces"

end Keyword

namespace Vocabulary

def structureWords : List String := Keyword.all.map Keyword.word
def commandWords : List String := Command.all.map Command.word
def sensorWords : List String := Sensor.all.map Sensor.word

/-- Every word with a fixed meaning, structural words first. -/
def words : List String := structureWords ++ commandWords ++ sensorWords

end Vocabulary

end Trazo
