import Funge.Machine

namespace Funge

inductive Request where
  | load (program : String)
  | step
  | runWithin (program : String) (limit : UInt64)
  deriving DecidableEq

inductive Reply where
  | loaded
  | stepped (progress : Progress)
  | ran (result : Option (Except BudgetSpent UInt64))

def Reply.comes : Reply → Bool
  | .stepped .lost | .ran none => false
  | _ => true

structure Tally where
  moved : Nat
  halted : Nat
  deriving DecidableEq

def Tally.count (t : Tally) : Progress → Tally
  | .moved => { t with moved := t.moved + 1 }
  | .halted => { t with halted := t.halted + 1 }
  | .lost => t

namespace Machine
variable {A P S : Type} [StackUnit A] [PointerUnit P] [StoreUnit S]

def serve (m : Machine A P S) : Request → Reply × Machine A P S
  | .load program => (.loaded,m.load program)
  | .step => (.stepped m.step.1,m.step.2)
  | .runWithin program limit =>
    let ran := m.runWithin program limit
    (.ran ran.1,ran.2)

-- No request is looked at behind one that is never answered.
def serveAll (m : Machine A P S) : List Request → List Reply × Machine A P S
  | [] => ([],m)
  | request :: rest =>
    let served := m.serve request
    if served.1.comes then
      let others := served.2.serveAll rest
      (served.1 :: others.1,others.2)
    else ([served.1],served.2)

def stepMany : Nat → Tally → Machine A P S → Tally × Machine A P S
  | 0, t, m => (t,m)
  | n + 1, t, m =>
    let stepped := m.step
    stepMany n (t.count stepped.1) stepped.2

end Machine
end Funge
