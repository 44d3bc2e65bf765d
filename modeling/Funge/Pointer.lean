import Funge.Units
import Funge.Random.Draw

namespace Funge

structure Pointer (W : Type) where
  position : Position
  heading : Heading
  source : W
  deriving DecidableEq

namespace Pointer
variable {W : Type}

def start (source : W) : Pointer W := ⟨.origin,.east,source⟩

def jump (p : Pointer W) (position : Position) : Pointer W := { p with position }

def wander [WordSource W] (p : Pointer W) : Option (Pointer W) :=
  (draw? p.source).map fun drawn => { p with heading := drawn.1, source := drawn.2 }

-- Going home does not rewind the source.
instance [WordSource W] : PointerUnit (Pointer W) where
  position := position
  heading := heading
  turn p heading := { p with heading }
  advance p extents := { p with position := extents.advance p.heading p.position }
  wander := wander
  home p := start p.source

end Pointer

-- A pointer that knows no chance: wandering always turns it south.
structure Southbound (P : Type) where
  pointer : P

instance {P : Type} [PointerUnit P] : PointerUnit (Southbound P) where
  position p := PointerUnit.position p.pointer
  heading p := PointerUnit.heading p.pointer
  turn p h := ⟨PointerUnit.turn p.pointer h⟩
  advance p e := ⟨PointerUnit.advance p.pointer e⟩
  wander p := some ⟨PointerUnit.turn p.pointer .south⟩
  home p := ⟨PointerUnit.home p.pointer⟩

end Funge
