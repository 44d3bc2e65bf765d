import Funge.Number

namespace Funge

inductive Operator where
  | add
  | subtract
  | multiply
  | divide
  | modulo
  deriving DecidableEq

namespace Operator

def all : List Operator := [.add,.subtract,.multiply,.divide,.modulo]

def symbol : Operator → Char
  | .add => '+'
  | .subtract => '-'
  | .multiply => '*'
  | .divide => '/'
  | .modulo => '%'

def ofSymbol? (c : Char) : Option Operator := all.find? (·.symbol = c)

-- Division truncates toward zero and the remainder takes the sign of the dividend. A zero
-- divisor gives zero for both.
def apply : Operator → Number → Number → Number
  | .add, a, b => a + b
  | .subtract, a, b => a - b
  | .multiply, a, b => a * b
  | .divide, a, b => if b = 0 then 0 else a / b
  | .modulo, a, b => if b = 0 then 0 else a % b

theorem symbol_ofSymbol {c : Char} {op : Operator} (found : ofSymbol? c = some op) : op.symbol = c := by
  simpa using List.find?_some found

end Operator
end Funge
