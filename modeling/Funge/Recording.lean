import Funge.Stack
import Funge.Store

namespace Funge

inductive StackCall where
  | push (value : Number)
  | pop (value : Number)
  | clear
  deriving DecidableEq

-- A stack unit that keeps a journal of its calls, newest first, and leaves the
-- work to another unit.
structure Recorder (A : Type) where
  unit : A
  journal : List StackCall

namespace Recorder
variable {A : Type}

def start (unit : A) : Recorder A := ⟨unit,[]⟩

def calls (r : Recorder A) : List StackCall := r.journal.reverse

instance [StackUnit A] : StackUnit (Recorder A) where
  push r v := ⟨StackUnit.push r.unit v,.push v :: r.journal⟩
  pop r :=
    let top := StackUnit.pop r.unit
    (top.1,⟨top.2,.pop top.1 :: r.journal⟩)
  clear r := ⟨StackUnit.clear r.unit,.clear :: r.journal⟩

end Recorder

-- A journal is believed only as far as a row of values agrees with it, the top first: a value
-- said to be popped must be the first one, 0 if there is none.
def StackCall.redo (values : List Number) : StackCall → Option (List Number)
  | .push v => some (v :: values)
  | .pop v => if values.headD 0 = v then some values.tail else none
  | .clear => some []

def StackCall.replay (values : List Number) (calls : List StackCall) : Option (List Number) := calls.foldlM redo values

structure Scribe (S : Type) where
  unit : S
  written : List String

namespace Scribe
variable {S : Type}

def start (unit : S) : Scribe S := ⟨unit,[]⟩

def chunks (r : Scribe S) : List String := r.written.reverse

instance [StoreUnit S] : StoreUnit (Scribe S) where
  height r := StoreUnit.height r.unit
  width r := StoreUnit.width r.unit
  load r rows := { r with unit := StoreUnit.load r.unit rows }
  cell r := StoreUnit.cell r.unit
  set r p c := { r with unit := StoreUnit.set r.unit p c }
  write r piece := ⟨StoreUnit.write r.unit piece,piece :: r.written⟩
  output r := StoreUnit.output r.unit

end Scribe
end Funge
