import Funge.Position

namespace Funge

inductive Heading where
  | north
  | south
  | east
  | west
  deriving DecidableEq

namespace Heading

-- This order is also the one in which a random draw numbers the headings.
def all : List Heading := [.north,.south,.east,.west]

def arrow : Heading → Char
  | .north => '^'
  | .south => 'v'
  | .east => '>'
  | .west => '<'

def ofArrow? (c : Char) : Option Heading := all.find? (·.arrow = c)

def offset : Heading → Position
  | .north => ⟨0,-1⟩
  | .south => ⟨0,1⟩
  | .east => ⟨1,0⟩
  | .west => ⟨-1,0⟩

def isVertical : Heading → Bool
  | .north | .south => true
  | .east | .west => false

def opposite : Heading → Heading
  | .north => .south
  | .south => .north
  | .east => .west
  | .west => .east

theorem arrow_ofArrow {c : Char} {h : Heading} (found : ofArrow? c = some h) : h.arrow = c := by
  simpa using List.find?_some found

end Heading
end Funge
