import Funge.Torus
import Funge.Operator
import Funge.Text.Code

namespace Funge

-- A machine is assembled from three units: a stack, a pointer and a store. A unit
-- supplies the operations of its class and nothing more. What an instruction does
-- is defined below from those operations alone, so units that answer them alike
-- cannot be told apart by any program.

class StackUnit (A : Type) where
  push : A → Number → A
  pop : A → Number × A
  clear : A → A

class PointerUnit (P : Type) where
  position : P → Position
  heading : P → Heading
  turn : P → Heading → P
  advance : P → Extents → P
  wander : P → Option P
  home : P → P

class StoreUnit (S : Type) where
  height : S → Nat
  width : S → Int64 → Nat
  load : S → List (List Char) → S
  cell : S → Position → Char
  set : S → Position → Char → S
  write : S → String → S
  output : S → String

namespace StackUnit
variable {A : Type} [StackUnit A]

def combine (f : Number → Number → Number) (s : A) : A :=
  let right := pop s
  let left := pop right.2
  push left.2 (f left.1 right.1)

def operate (op : Operator) (s : A) : A := combine op.apply s
def greater (s : A) : A := combine (fun a b => Number.flag (decide (a > b))) s
def digit (d : Fin 10) (s : A) : A := push s (Int64.ofNat d.val)

def negate (s : A) : A :=
  let top := pop s
  push top.2 (Number.flag (decide (top.1 = 0)))

def duplicate (s : A) : A :=
  let top := pop s
  push (push top.2 top.1) top.1

def swap (s : A) : A :=
  let top := pop s
  let next := pop top.2
  push (push next.2 top.1) next.1

end StackUnit

namespace PointerUnit
variable {P : Type} [PointerUnit P]

def horizontalIf (p : P) (v : Number) : P := turn p (if v = 0 then .west else .east)
def verticalIf (p : P) (v : Number) : P := turn p (if v = 0 then .north else .south)

def bridge (p : P) (e : Extents) : P := advance p e

end PointerUnit

def StoreUnit.extents {S : Type} [StoreUnit S] (s : S) : Extents := ⟨height s,width s⟩

end Funge
