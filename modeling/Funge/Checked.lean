import Funge.Machine

namespace Funge

inductive Fault where
  | byteBelowZero
  | digitAboveNine
  | zeroDivisor
  | modulusBelowOne
  | rowOutside
  | columnOutside
  | headingOutside
  | endlessDraw
  | stopExecuted
  | counterFull
  deriving DecidableEq

-- The standard machine once more, with each such operation checked before it is done.
namespace Checked

inductive Decoded where
  | digit (value : UInt8)
  | other (i : Instruction)
  deriving DecidableEq

def byteOf? (c : Char) : Except Fault (Option UInt8) :=
  if 48 ≤ c.toNat ∧ c.toNat ≤ 57 then
    let byte := UInt8.ofNat c.toNat
    if byte < 48 then .error .byteBelowZero else .ok (some (byte - 48))
  else .ok none

def decode (c : Char) : Except Fault Decoded :=
  match Operator.ofSymbol? c, Heading.ofArrow? c with
  | some op, _ => .ok (.other (.operate op))
  | none, some h => .ok (.other (.turn h))
  | none, none => do
    match ← byteOf? c with
    | some value => return .digit value
    | none => return .other (.ofMark c)

def digit (value : UInt8) (s : Stack) : Except Fault Stack :=
  if value ≤ 9 then .ok (s.push (Int64.ofNat value.toNat)) else .error .digitAboveNine

def divide (a b : Number) : Except Fault Number := if b = 0 then .error .zeroDivisor else .ok (a / b)

def remainder (a b : Number) : Except Fault Number := if b = 0 then .error .zeroDivisor else .ok (a % b)

def quotient? (a b : Number) : Option Number :=
  if b = 0 ∨ (a = Int64.minValue ∧ b = -1) then none else some (a / b)

def apply : Operator → Number → Number → Except Fault Number
  | .divide, a, b =>
    match quotient? a b with
    | some q => .ok q
    | none => if b = 0 then .ok 0 else divide a b
  | .modulo, a, b => if b = 0 then .ok 0 else remainder a b
  | op, a, b => .ok (op.apply a b)

def operate (op : Operator) (s : Stack) : Except Fault Stack := do
  let right := s.pop
  let left := right.2.pop
  return left.2.push (← apply op left.1 right.1)

def modulo (a b : Int64) : Except Fault Int64 :=
  if b ≤ 0 then .error .modulusBelowOne else .ok (Int64.ofInt (a.toInt % b.toInt))

def wrap (coordinate : Int64) (extent : Nat) : Except Fault Int64 :=
  if (extent : Int) ≤ Int64.maxValue.toInt ∧ 0 < Int64.ofNat extent then modulo coordinate (.ofNat extent)
  else .ok 0

-- Rows and the columns of a row are added first, and must then be there to be written to.
def set (f : Playfield) (p : Position) (c : Char) : Except Fault Playfield :=
  if Playfield.Near p then
    let x := p.x.toNatClampNeg
    let y := p.y.toNatClampNeg
    let rows := if f.rows.size ≤ y then f.rows.rightpad (y + 1) #[] else f.rows
    if row : y < rows.size then
      let cells := if rows[y].size ≤ x then rows[y].rightpad (x + 1) ' ' else rows[y]
      if column : x < cells.size then .ok { f with rows := rows.set y (cells.set x c) }
      else .error .columnOutside
    else .error .rowOutside
  else .ok { f with remote := f.remote.insert p c }

variable {W : Type}

def advance (e : Extents) (p : Pointer W) : Except Fault (Pointer W) := do
  let next := p.position + p.heading.offset
  if p.heading.isVertical then return { p with position := ⟨next.x,← wrap next.y e.height⟩ }
  else return { p with position := ⟨← wrap next.x (e.width next.y),next.y⟩ }

def headingAt (index : Nat) : Except Fault Heading :=
  match Heading.all[index]? with
  | some h => .ok h
  | none => .error .headingOutside

def put (m : Standard W) : Except Fault (Standard W) := do
  let y := m.stack.pop
  let x := y.2.pop
  let v := x.2.pop
  let playfield ← set m.store.playfield ⟨x.1,y.1⟩ (glyph v.1)
  return { m with stack := v.2, store := { m.store with playfield } }

def count (steps : UInt64) : Except Fault UInt64 :=
  if steps.toNat + 1 < UInt64.size then .ok (steps + 1) else .error .counterFull

variable [WordSource W]

def drawWithin : Nat → W → Except Fault (Heading × W)
  | 0, _ => .error .endlessDraw
  | n + 1, w =>
    let word := Words.next w
    if word.1.toNat.testBit 61 then drawWithin n word.2
    else do return (← headingAt (word.1 >>> 62).toNat,word.2)

def wander (p : Pointer W) : Except Fault (Pointer W) := do
  let drawn ← drawWithin (Words.patience p.source) p.source
  return { p with heading := drawn.1, source := drawn.2 }

def execute (m : Standard W) : Decoded → Except Fault (Standard W)
  | .digit value => return { m with stack := ← digit value m.stack }
  | .other (.operate op) => return { m with stack := ← operate op m.stack }
  | .other .wander => return { m with pointer := ← wander m.pointer }
  | .other .bridge => return { m with pointer := ← advance (StoreUnit.extents m.store) m.pointer }
  | .other .put => put m
  | .other .stop => .error .stopExecuted
  | .other i => .ok (m.perform i)

def dispatch (m : Standard W) (c : Char) : Except Fault (Standard W) := do
  let decoded ← decode c
  if m.mode = .quoted ∧ decoded ≠ .other .quote then return { m with stack := m.stack.push (code c) }
  else execute m decoded

def step (m : Standard W) : Except Fault (Progress × Standard W) :=
  if m.Halted then .ok (.halted,m)
  else do
    let dispatched ← dispatch m m.cell
    let pointer ← advance (StoreUnit.extents dispatched.store) dispatched.pointer
    let steps ← count dispatched.steps
    return (.moved,{ dispatched with pointer, steps })

def spend (limit : UInt64) : Nat → Standard W → Except Fault (Option (Except BudgetSpent UInt64) × Standard W)
  | 0, m => .ok (m.ending? limit,m)
  | turns + 1, m =>
    match m.ending? limit with
    | some result => .ok (some result,m)
    | none => do spend limit turns (← step m).2

def runWithin (m : Standard W) (program : String) (limit : UInt64) (turns : Nat) :
    Except Fault (Option (Except BudgetSpent UInt64) × Standard W) :=
  spend limit turns (m.load program)

end Checked
end Funge
