import Funge.Units

namespace Funge

-- Top first. Below the last value lie zeros without end: taking from an empty
-- stack gives 0 and leaves it empty.
structure Stack where
  values : List Number
  deriving DecidableEq

namespace Stack

def empty : Stack := ⟨[]⟩

def push (s : Stack) (v : Number) : Stack := ⟨v :: s.values⟩

def pop (s : Stack) : Number × Stack := (s.values.headD 0,⟨s.values.tail⟩)

def peek? (s : Stack) : Option Number := s.values.head?

def depth (s : Stack) : Nat := s.values.length

def isEmpty (s : Stack) : Bool := s.values.isEmpty

def toList (s : Stack) : List Number := s.values.reverse

instance : StackUnit Stack where
  push := push
  pop := pop
  clear _ := empty

end Stack
end Funge
